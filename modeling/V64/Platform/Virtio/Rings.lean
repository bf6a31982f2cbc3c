import V64.Platform.Ram
import V64.Platform.Virtio.Queue

/-!
# Rings in RAM

The descriptors and the used ring of a split virtqueue, as bytes of RAM.

* `descSeg`, `descHasNext`, `descNext`: a descriptor.
* `availHead`, `availIdx`: the available ring.
* `view_pushUsed`: a completion writes one slot of the used ring and its index.
* `Virtq.IsQueueSize.ringSize`: a size that the transport allows is one of a ring.
* `Completed`, `Completed.push`: the entries of the completions so far.
-/

namespace V64.Platform

open Checked V64.Interp

variable {D : Type}

/-! ## Descriptors -/

/-- The address of a descriptor. -/
def descAddr (desc : BitVec 64) (idx : BitVec 16) : BitVec 64 := desc + idx.setWidth 64 * 16

/-- The buffer of the descriptor at `d`. -/
def descSeg (mem : ℕ → BitVec 8) (d : ℕ) : Seg where
  addr := Bytes.loadLe 64 mem d 8
  len := Bytes.loadLe 32 mem (d + 8) 4
  writable := isWritable (Bytes.loadLe 16 mem (d + 12) 2)

/-- The descriptor at `d` has a successor. -/
def descHasNext (mem : ℕ → BitVec 8) (d : ℕ) : Bool := hasNext (Bytes.loadLe 16 mem (d + 12) 2)

/-- The successor of the descriptor at `d`. -/
def descNext (mem : ℕ → BitVec 8) (d : ℕ) : BitVec 16 := Bytes.loadLe 16 mem (d + 14) 2

/-- The addresses of the descriptors that a chain visits. -/
def visited (mem : ℕ → BitVec 8) (desc : BitVec 64) : (fuel : ℕ) → (idx : BitVec 16) →
    List (BitVec 64)
  | fuel, idx => descAddr desc idx ::
    if descHasNext mem (descAddr desc idx).toNat then
      match fuel with
      | 0 => []
      | fuel + 1 => visited mem desc fuel (descNext mem (descAddr desc idx).toNat)
    else []

theorem visited_zero (mem : ℕ → BitVec 8) (desc : BitVec 64) (idx : BitVec 16) :
    visited mem desc 0 idx = [descAddr desc idx] := by
  unfold visited
  split_ifs <;> rfl

theorem visited_succ (mem : ℕ → BitVec 8) (desc : BitVec 64) (fuel : ℕ) (idx : BitVec 16) :
    visited mem desc (fuel + 1) idx = descAddr desc idx ::
      if descHasNext mem (descAddr desc idx).toNat then
        visited mem desc fuel (descNext mem (descAddr desc idx).toNat)
      else [] := by
  rw [visited]

/-- A chain visits its first descriptor, and with room left those from its successor on. -/
theorem mem_visited {mem : ℕ → BitVec 8} {desc a : BitVec 64} {fuel : ℕ} {idx : BitVec 16} :
    a ∈ visited mem desc fuel idx ↔ a = descAddr desc idx ∨
      descHasNext mem (descAddr desc idx).toNat = true ∧ ∃ f, fuel = f + 1 ∧
        a ∈ visited mem desc f (descNext mem (descAddr desc idx).toNat) := by
  cases fuel with
  | zero => simp [visited_zero]
  | succ fuel =>
    rw [visited_succ, List.mem_cons]
    refine or_congr_right ?_
    split_ifs with hnext
    · simp [hnext]
    · simp [hnext]

/-- The address of a descriptor that does not wrap around. -/
theorem toNat_descAddr {desc : BitVec 64} {idx : BitVec 16} (h : desc ≤ descAddr desc idx) :
    (descAddr desc idx).toNat = desc.toNat + 16 * idx.toNat := by
  have hle := BitVec.le_def.mp h
  have hidx := idx.isLt
  have hscale : (idx.setWidth 64 * 16 : BitVec 64).toNat = idx.toNat * 16 := by
    rw [BitVec.toNat_mul, BitVec.toNat_setWidth]
    show idx.toNat % 2 ^ 64 * 16 % 2 ^ 64 = _
    omega
  unfold descAddr at hle ⊢
  rw [BitVec.toNat_add, hscale] at hle ⊢
  omega

/-! ## The available ring -/

/-- The head in a slot of the available ring at `avail`. -/
def availHead (mem : ℕ → BitVec 8) (avail : ℕ) (slot : BitVec 16) : BitVec 16 :=
  Bytes.loadLe 16 mem (avail + 4 + 2 * slot.toNat) 2

/-- The index of the available ring at `avail`. -/
def availIdx (mem : ℕ → BitVec 8) (avail : ℕ) : BitVec 16 := Bytes.loadLe 16 mem (avail + 2) 2

/-! ## The used ring -/

/-- The index of the used ring at `used`. -/
def usedIdx (mem : ℕ → BitVec 8) (used : ℕ) : BitVec 16 := Bytes.loadLe 16 mem (used + 2) 2

/-- The address of a slot of the used ring. -/
def usedSlot (used : ℕ) (slot : BitVec 16) : ℕ := used + 4 + 8 * slot.toNat

/-- The bytes of memory after a completion. -/
def pushed (mem : ℕ → BitVec 8) (used : ℕ) (qsz head : BitVec 16) (len : BitVec 32) :
    ℕ → BitVec 8 :=
  let elem := usedSlot used (usedIdx mem used % qsz)
  Bytes.storeLe
    (Bytes.storeLe (Bytes.storeLe mem elem 4 (head.setWidth 32 : BitVec 32)) (elem + 4) 4 len)
    (used + 2) 2 (usedIdx mem used + 1)

/-- A completion, for a used ring in RAM. -/
theorem view_pushUsed [MmioDevice D] {t : Target} (ht : t.overflowChecks = false) {b : Bus D}
    (hwf : b.RamWf) {used : BitVec 64} {qsz : BitVec 16} (hq : qsz ≠ 0)
    (hram : b.InRam used (4 + 8 * qsz.toNat)) (head : BitVec 16) (len : BitVec 32) :
    ∃ b', pushUsedAt t used qsz b head len = some b' ∧ b.SameWindow b' ∧
      b'.view = pushed b.view used.toNat qsz head len ∧ b'.devices = b.devices := by
  have hpos : 0 < qsz.toNat := by
    have hne := BitVec.toNat_ne.mp hq
    exact Nat.pos_of_ne_zero hne
  obtain ⟨hidx, hidxRam⟩ := hram.sub hwf (o := 2) (k := 2) (by change 2 + 2 ≤ _; omega)
  have hread := Bus.readU16_eq hwf hidxRam
  rw [hidx] at hread
  change GuestMem.readU16 b (used + 2) = (usedIdx b.view used.toNat, b) at hread
  generalize hslot : usedIdx b.view used.toNat % qsz = slot
  have hlt : slot.toNat < qsz.toNat := by
    rw [← hslot, BitVec.toNat_umod]
    exact Nat.mod_lt _ hpos
  have hslotNat : (slot.setWidth 64 * 8 : BitVec 64).toNat = 8 * slot.toNat := by
    have hs := slot.isLt
    rw [BitVec.toNat_mul, BitVec.toNat_setWidth]
    change slot.toNat % 2 ^ 64 * 8 % 2 ^ 64 = _
    omega
  obtain ⟨hring, hringRam⟩ := hram.sub hwf (o := 4) (k := 8 * qsz.toNat) le_rfl
  obtain ⟨helem, helemRam⟩ := hringRam.sub hwf (o := slot.setWidth 64 * 8) (k := 8)
    (by omega)
  have hfirst : b.InRam (used + 4 + slot.setWidth 64 * 8) 4 :=
    ⟨helemRam.1, by have := helemRam.2; omega⟩
  obtain ⟨hlen, hlenRam⟩ := helemRam.sub hwf (o := 4) (k := 4) (by decide)
  have helemNat : (used + 4 + slot.setWidth 64 * 8).toNat = usedSlot used.toNat slot := by
    rw [helem, hring, hslotNat]
    rfl
  unfold pushUsedAt
  simp only [Target.add_of_wrap ht, Option.bind_eq_bind, Option.bind_some, hread,
    rem_eq_some hq, hslot]
  -- the head, the length and the index, one write after the other
  generalize hb1 : GuestMem.writeU32 b (used + 4 + slot.setWidth 64 * 8) (head.setWidth 32) = b1
  have hwin1 : b.SameWindow b1 := hb1 ▸ Bus.sameWindow_store hwf _ _ _
  have hview1 := hb1 ▸ Bus.view_writeU32 hwf hfirst (head.setWidth 32)
  have hdev1 : b1.devices = b.devices := hb1 ▸ Bus.devices_store_of_inRam hwf (by decide) hfirst _
  have hwf1 := hwin1.ramWf hwf
  generalize hb2 : GuestMem.writeU32 b1 (used + 4 + slot.setWidth 64 * 8 + 4) len = b2
  have hwin2 : b1.SameWindow b2 := hb2 ▸ Bus.sameWindow_store hwf1 _ _ _
  have hview2 := hb2 ▸ Bus.view_writeU32 hwf1 (hwin1.inRam hlenRam) len
  have hdev2 : b2.devices = b1.devices :=
    hb2 ▸ Bus.devices_store_of_inRam hwf1 (by decide) (hwin1.inRam hlenRam) _
  have hwf2 := hwin2.ramWf hwf1
  have hview3 := Bus.view_writeU16 hwf2 (hwin2.inRam (hwin1.inRam hidxRam))
    (usedIdx b.view used.toNat + 1)
  have hdev3 := Bus.devices_store_of_inRam hwf2 (by decide)
    (hwin2.inRam (hwin1.inRam hidxRam)) ((usedIdx b.view used.toNat + 1).setWidth 64)
  refine ⟨_, rfl, (hwin1.trans hwin2).trans (Bus.sameWindow_store hwf2 _ _ _), ?_,
    hdev3.trans (hdev2.trans hdev1)⟩
  have hlenNat : (used + 4 + slot.setWidth 64 * 8 + 4).toNat = usedSlot used.toNat slot + 4 := by
    rw [hlen, helemNat]
    rfl
  have hidxNat : (used + 2).toNat = used.toNat + 2 := hidx
  rw [hview3, hview2, hview1, helemNat, hlenNat, hidxNat, pushed, hslot]

section Pushed

variable (mem : ℕ → BitVec 8) (used : ℕ) (qsz head : BitVec 16) (len : BitVec 32)

/-- A completion leaves the bytes outside its slot and the index alone. -/
theorem pushed_of_not_mem {a : ℕ} (hidx : a < used + 2 ∨ used + 4 ≤ a)
    (hslot : a < usedSlot used (usedIdx mem used % qsz) ∨
      usedSlot used (usedIdx mem used % qsz) + 8 ≤ a) :
    pushed mem used qsz head len a = mem a := by
  unfold pushed
  rw [Bytes.storeLe_of_not_mem _ _ _ _ hidx, Bytes.storeLe_of_not_mem _ _ _ _ (by omega),
    Bytes.storeLe_of_not_mem _ _ _ _ (by omega)]

/-- A completion advances the index. -/
theorem usedIdx_pushed :
    usedIdx (pushed mem used qsz head len) used = usedIdx mem used + 1 := by
  unfold usedIdx pushed
  rw [Bytes.loadLe_storeLe _ _ _ _ (by decide), BitVec.setWidth_eq]
  rfl

/-- A completion puts the head in its slot. -/
theorem slot_pushed :
    Bytes.loadLe 32 (pushed mem used qsz head len) (usedSlot used (usedIdx mem used % qsz)) 4 =
      head.setWidth 32 := by
  unfold pushed
  rw [Bytes.loadLe_storeLe_disjoint _ _ _ _ _ _ (by unfold usedSlot; omega),
    Bytes.loadLe_storeLe_disjoint _ _ _ _ _ _ (by omega),
    Bytes.loadLe_storeLe _ _ _ _ (by decide), BitVec.setWidth_eq]

end Pushed

/-! ## Completions -/

/-- A ring has a power of two of entries, at most 32768. -/
def RingSize (qsz : BitVec 16) : Prop := ∃ e ≤ 15, qsz.toNat = 2 ^ e

theorem RingSize.pos {qsz : BitVec 16} (h : RingSize qsz) : 0 < qsz.toNat := by
  obtain ⟨e, -, hsize⟩ := h
  rw [hsize]
  exact Nat.two_pow_pos e

theorem RingSize.ne_zero {qsz : BitVec 16} (h : RingSize qsz) : qsz ≠ 0 := by
  have hpos := h.pos
  intro hzero
  rw [hzero] at hpos
  exact absurd hpos (Nat.lt_irrefl 0)

/-- The slot of a free-running counter. -/
theorem RingSize.toNat_slot {qsz : BitVec 16} (h : RingSize qsz) (i : BitVec 16) (k : ℕ) :
    ((i + BitVec.ofNat 16 k) % qsz).toNat = (i.toNat + k) % qsz.toNat := by
  obtain ⟨e, he, hsize⟩ := h
  have hdvd : qsz.toNat ∣ 2 ^ 16 := by
    rw [hsize]
    exact Nat.pow_dvd_pow 2 (by omega)
  rw [BitVec.toNat_umod, BitVec.toNat_add, BitVec.toNat_ofNat, Nat.add_mod_mod,
    Nat.mod_mod_of_dvd _ hdvd]

/-- The slots of as many consecutive counters as the ring has entries differ. -/
theorem RingSize.slot_ne {qsz : BitVec 16} (h : RingSize qsz) (i : BitVec 16) {j k : ℕ}
    (hjk : j < k) (hk : k < j + qsz.toNat) :
    ((i + BitVec.ofNat 16 j) % qsz).toNat ≠ ((i + BitVec.ofNat 16 k) % qsz).toNat := by
  rw [h.toNat_slot, h.toNat_slot]
  intro heq
  have hdvd : qsz.toNat ∣ i.toNat + k - (i.toNat + j) :=
    Nat.dvd_of_mod_eq_zero (Nat.sub_mod_eq_zero_of_mod_eq heq.symm)
  have hle := Nat.le_of_dvd (by omega) hdvd
  omega

theorem RingSize.slot_lt {qsz : BitVec 16} (h : RingSize qsz) (i : BitVec 16) :
    (i % qsz).toNat < qsz.toNat := by
  rw [BitVec.toNat_umod]
  exact Nat.mod_lt _ h.pos

namespace Virtq

/-- A size that the transport allows: a power of two, at most 32768. -/
def IsQueueSize (num : BitVec 32) : Prop := ∃ k ≤ 15, num.toNat = 2 ^ k

theorem IsQueueSize.bounds {num : BitVec 32} (h : IsQueueSize num) :
    0 < num.toNat ∧ num.toNat ≤ 32768 := by
  obtain ⟨k, hk, hnum⟩ := h
  rw [hnum]
  exact ⟨Nat.two_pow_pos k, Nat.pow_le_pow_right Nat.two_pos hk⟩

theorem IsQueueSize.toNat_setWidth {num : BitVec 32} (h : IsQueueSize num) :
    (num.setWidth 16 : BitVec 16).toNat = num.toNat := by
  have hle := h.bounds.2
  rw [BitVec.toNat_setWidth]
  exact Nat.mod_eq_of_lt (by omega)

theorem IsQueueSize.ringSize {num : BitVec 32} (h : IsQueueSize num) :
    RingSize (num.setWidth 16) := by
  obtain ⟨k, hk, hnum⟩ := h
  refine ⟨k, hk, ?_⟩
  rw [IsQueueSize.toNat_setWidth ⟨k, hk, hnum⟩, hnum]

theorem IsQueueSize.ne_zero {num : BitVec 32} (h : IsQueueSize num) :
    (num.setWidth 16 : BitVec 16) ≠ 0 := h.ringSize.ne_zero

end Virtq

/-- From `mem0` to `mem` the used ring has got entries for `heads`, in order. -/
structure Completed (mem0 : ℕ → BitVec 8) (used : ℕ) (qsz : BitVec 16) (heads : List (BitVec 16))
    (mem : ℕ → BitVec 8) : Prop where
  idx : usedIdx mem used = usedIdx mem0 used + BitVec.ofNat 16 heads.length
  entries : ∀ j head, heads[j]? = some head → Bytes.loadLe 32 mem
    (usedSlot used ((usedIdx mem0 used + BitVec.ofNat 16 j) % qsz)) 4 = head.setWidth 32

namespace Completed

variable {mem0 mem mem' : ℕ → BitVec 8} {used : ℕ} {qsz : BitVec 16} {heads : List (BitVec 16)}

theorem nil (mem0 : ℕ → BitVec 8) (used : ℕ) (qsz : BitVec 16) :
    Completed mem0 used qsz [] mem0 where
  idx := (BitVec.add_zero _).symm
  entries := nofun

/-- The entries stay where the used ring does. -/
theorem congr (h : Completed mem0 used qsz heads mem) (hq : RingSize qsz)
    (hmem : ∀ a, used ≤ a → a < used + (4 + 8 * qsz.toNat) → mem' a = mem a) :
    Completed mem0 used qsz heads mem' := by
  have hpos := hq.pos
  constructor
  · rw [← h.idx]
    exact Bytes.loadLe_congr _ _ _ _ fun i hi => hmem _ (by omega) (by omega)
  · intro j head hhead
    rw [← h.entries j head hhead]
    have hlt := hq.slot_lt (usedIdx mem0 used + BitVec.ofNat 16 j)
    refine Bytes.loadLe_congr _ _ _ _ fun i hi => hmem _ ?_ ?_
    · unfold usedSlot
      omega
    · unfold usedSlot
      omega

/-- One completion more. -/
theorem push (h : Completed mem0 used qsz heads mem) (hq : RingSize qsz)
    (hlen : heads.length < qsz.toNat) (head : BitVec 16) (len : BitVec 32) :
    Completed mem0 used qsz (heads ++ [head]) (pushed mem used qsz head len) := by
  constructor
  · rw [usedIdx_pushed, h.idx, List.length_append, List.length_singleton, BitVec.ofNat_add,
      BitVec.add_assoc]
    rfl
  · intro j head' hhead
    rcases Nat.lt_or_ge j heads.length with hlt | hge
    · -- an earlier entry is in another slot
      rw [List.getElem?_append_left hlt] at hhead
      rw [← h.entries j head' hhead]
      have hne := hq.slot_ne (usedIdx mem0 used) hlt (by omega)
      refine Bytes.loadLe_congr _ _ _ _ fun i hi => ?_
      exact pushed_of_not_mem _ _ _ _ _ (by unfold usedSlot; omega)
        (by rw [h.idx]; unfold usedSlot; omega)
    · rw [List.getElem?_append_right hge] at hhead
      obtain rfl : j = heads.length := by
        have hj := (List.getElem?_eq_some_iff.mp hhead).1
        rw [List.length_singleton] at hj
        omega
      rw [Nat.sub_self] at hhead
      obtain rfl := Option.some.inj hhead
      rw [← h.idx]
      exact slot_pushed _ _ _ _ _

end Completed

end V64.Platform
