import V64.Platform.Virtio.BlkRing
import V64.Platform.Virtio.Drain

/-!
# Taking a chain

`Virtq::pop` follows the descriptors of a chain until one has no successor, for as
many turns as the queue has entries and one more.

* `Virtq.length_gather_le`: whatever memory holds, the chain is bounded.
* `Virtq.gathers`: one turn of its loop, for a descriptor in RAM.
* `Virtq.pop_of_hasChain`: a chain in RAM is returned as it stands.
* `Virtq.popFits_of_hasChain`: it overflows nothing if it does not wrap around.
* `Virtq.pop_exact`: all of this, and the agreement with the block device's own loop.
-/

namespace V64.Platform

open Checked V64.Interp

namespace Virtq

/-! ## Any memory -/

section Bound

variable {M : Type} [GuestMem M] {t : Target}

/-- The loop takes one descriptor more than its bound at most. -/
theorem length_gather_le {desc : BitVec 64} {fuel : ℕ} {idx : BitVec 16} {mem mem' : M}
    {segs : List Seg} (h : gather t desc fuel idx mem = some (segs, mem')) :
    segs.length ≤ fuel + 1 := by
  induction fuel generalizing idx mem segs mem' with
  | zero =>
    unfold gather at h
    simp only [Option.bind_eq_bind, Option.bind_eq_some_iff] at h
    obtain ⟨d, -, flagsAddr, -, lenAddr, -, h⟩ := h
    split_ifs at h
    · obtain ⟨rfl, -⟩ := Prod.mk.inj (Option.some.inj h)
      exact Nat.le_refl 1
    · obtain ⟨rfl, -⟩ := Prod.mk.inj (Option.some.inj h)
      exact Nat.le_refl 1
  | succ fuel ih =>
    unfold gather at h
    simp only [Option.bind_eq_bind, Option.bind_eq_some_iff] at h
    obtain ⟨d, -, flagsAddr, -, lenAddr, -, h⟩ := h
    split_ifs at h
    · obtain ⟨nextAddr, -, h⟩ := Option.bind_eq_some_iff.mp h
      obtain ⟨⟨rest, mem1⟩, hrest, h⟩ := Option.bind_eq_some_iff.mp h
      obtain ⟨rfl, -⟩ := Prod.mk.inj (Option.some.inj h)
      exact Nat.succ_le_succ (ih hrest)
    · obtain ⟨rfl, -⟩ := Prod.mk.inj (Option.some.inj h)
      exact Nat.le_add_left 1 _

theorem length_pop_le {q q' : Virtq} {mem mem' : M} {head : BitVec 16} {segs : List Seg}
    (h : pop t q mem = some (some (head, segs), q', mem')) : segs.length ≤ q.num.toNat + 1 := by
  unfold pop at h
  split_ifs at h
  · cases (Prod.mk.inj (Option.some.inj h)).1
  · obtain ⟨idxAddr, -, h⟩ := Option.bind_eq_some_iff.mp h
    dsimp only at h
    split_ifs at h
    · cases (Prod.mk.inj (Option.some.inj h)).1
    · obtain ⟨⟨chain, q1, mem1⟩, htake, h⟩ := Option.bind_eq_some_iff.mp h
      obtain ⟨hchain, -⟩ := Prod.mk.inj (Option.some.inj h)
      obtain rfl := Option.some.inj hchain
      unfold take at htake
      simp only [Option.bind_eq_bind, Option.bind_eq_some_iff] at htake
      obtain ⟨slot, -, ring, -, slotAddr, -, ⟨segs', mem2⟩, hgather, hout⟩ := htake
      obtain ⟨hpair, -⟩ := Prod.mk.inj (Option.some.inj hout)
      obtain ⟨-, rfl⟩ := Prod.mk.inj hpair
      exact length_gather_le hgather

end Bound

/-! ## A chain in RAM -/

section Ram

variable {D : Type} [MmioDevice D] {t : Target} (ht : t.overflowChecks = false) {b : Bus D}
  (hwf : b.RamWf)

include ht hwf

theorem gathers (desc : BitVec 64) :
    Gathers b desc fun fuel idx => Virtq.gather t desc fuel idx b := by
  intro idx hram fuel
  obtain ⟨hlen, hlenRam⟩ := hram.sub hwf (o := 8) (k := 4) (by decide)
  obtain ⟨hflags, hflagsRam⟩ := hram.sub hwf (o := 12) (k := 2) (by decide)
  obtain ⟨hnext, hnextRam⟩ := hram.sub hwf (o := 14) (k := 2) (by decide)
  have haddrRam : b.InRam (descAddr desc idx) 8 := ⟨hram.1, by have := hram.2; omega⟩
  have hd : desc + idx.setWidth 64 * 16 = descAddr desc idx := rfl
  dsimp only
  rw [Virtq.gather.eq_def]
  simp only [Target.add_of_wrap ht, Option.bind_eq_bind, Option.bind_some, hd,
    Bus.readU64_eq hwf haddrRam, Bus.readU32_eq hwf hlenRam, Bus.readU16_eq hwf hflagsRam,
    Bus.readU16_eq hwf hnextRam, hlen, hflags, hnext]
  cases fuel with
  | zero => rfl
  | succ fuel =>
    simp only [Option.map_eq_bind]
    rfl

omit ht in
/-- The slot of the available ring that the cursor is at. -/
theorem readSlot_eq {q : Virtq} (hq : IsQueueSize q.num)
    (hram : b.InRam q.avail (4 + 2 * q.num.toNat)) :
    GuestMem.readU16 b (q.avail + 4 + (q.lastAvail % q.num.setWidth 16).setWidth 64 * 2) =
      (availHead b.view q.avail.toNat (q.lastAvail % q.num.setWidth 16), b) := by
  generalize hslot : q.lastAvail % q.num.setWidth 16 = slot
  have hlt : slot.toNat < q.num.toNat := by
    rw [← hslot, BitVec.toNat_umod, hq.toNat_setWidth]
    exact Nat.mod_lt _ hq.bounds.1
  have hslotNat : (slot.setWidth 64 * 2 : BitVec 64).toNat = 2 * slot.toNat := by
    have hs := slot.isLt
    rw [BitVec.toNat_mul, BitVec.toNat_setWidth]
    change slot.toNat % 2 ^ 64 * 2 % 2 ^ 64 = _
    omega
  obtain ⟨hring, hringRam⟩ := hram.sub hwf (o := 4) (k := 2 * q.num.toNat) le_rfl
  obtain ⟨helem, helemRam⟩ := hringRam.sub hwf (o := slot.setWidth 64 * 2) (k := 2) (by omega)
  rw [Bus.readU16_eq hwf helemRam, helem, hring, hslotNat]
  rfl

omit ht in
theorem readIdx_eq {q : Virtq} (hram : b.InRam q.avail (4 + 2 * q.num.toNat)) :
    GuestMem.readU16 b (q.avail + 2) = (availIdx b.view q.avail.toNat, b) := by
  obtain ⟨hidx, hidxRam⟩ := hram.sub hwf (o := 2) (k := 2) (by change 2 + 2 ≤ _; omega)
  rw [Bus.readU16_eq hwf hidxRam, hidx]
  rfl

/-- An entry whose chain is gathered without touching memory is taken. -/
theorem pop_of_gather {q : Virtq} (hready : q.ready = true) (hsize : IsQueueSize q.num)
    (hring : b.InRam q.avail (4 + 2 * q.num.toNat))
    (hnew : q.lastAvail ≠ availIdx b.view q.avail.toNat) {head : BitVec 16}
    (hhead : availHead b.view q.avail.toNat (q.lastAvail % q.num.setWidth 16) = head)
    {segs : List Seg} (hgather : gather t q.desc q.num.toNat head b = some (segs, b)) :
    pop t q b = some (some (head, segs), { q with lastAvail := q.lastAvail + 1 }, b) := by
  have hnum : q.num ≠ 0 := by
    have hpos := hsize.bounds.1
    intro hzero
    rw [hzero] at hpos
    exact absurd hpos (Nat.lt_irrefl 0)
  have hon : ¬(q.ready = false ∨ q.num = 0) := by
    rw [hready]
    exact fun hoff => hoff.elim nofun hnum
  have hslot := readSlot_eq hwf hsize hring
  rw [hhead] at hslot
  unfold pop
  rw [if_neg hon]
  simp only [Target.add_of_wrap ht, Option.bind_eq_bind, Option.bind_some, readIdx_eq hwf hring]
  rw [if_neg hnew]
  unfold take
  simp only [Target.add_of_wrap ht, rem_eq_some hsize.ne_zero, Option.bind_eq_bind,
    Option.bind_some, hslot, hgather]
  rfl

/-- A queue whose entries are all taken has nothing more. -/
theorem pop_of_idle {q : Virtq} (hring : b.InRam q.avail (4 + 2 * q.num.toNat))
    (hidle : q.lastAvail = availIdx b.view q.avail.toNat) : pop t q b = some (none, q, b) := by
  unfold pop
  split_ifs with hoff
  · rfl
  · simp only [Target.add_of_wrap ht, Option.bind_eq_bind, Option.bind_some,
      readIdx_eq hwf hring]
    rw [if_pos hidle]
    rfl

/-- The queue's next entry is the head of a chain in RAM that its loop can hold. -/
structure HasChain (b : Bus D) (q : Virtq) (segs : List Seg) : Prop where
  ready : q.ready = true
  size : IsQueueSize q.num
  ring : b.InRam q.avail (4 + 2 * q.num.toNat)
  unconsumed : q.lastAvail ≠ availIdx b.view q.avail.toNat
  chain : ChainAt b q.desc (availHead b.view q.avail.toNat (q.lastAvail % q.num.setWidth 16)) segs
  length : segs.length ≤ q.num.toNat

/-- A chain in RAM is returned as it stands, and the cursor moves past its entry. -/
theorem pop_of_hasChain {q : Virtq} {segs : List Seg} (h : HasChain b q segs) :
    pop t q b =
      some (some (availHead b.view q.avail.toNat (q.lastAvail % q.num.setWidth 16), segs),
        { q with lastAvail := q.lastAvail + 1 }, b) :=
  pop_of_gather ht hwf h.ready h.size h.ring h.unconsumed rfl
    ((gathers ht hwf q.desc).of_chainAt h.chain (Nat.le_succ_of_le h.length))

/-- No descriptor that the next entry leads to is before the table: the sums of their
    addresses do not wrap around. -/
def PastTable (b : Bus D) (q : Virtq) : Prop :=
  ∀ a ∈ visited b.view q.desc q.num.toNat
    (availHead b.view q.avail.toNat (q.lastAvail % q.num.setWidth 16)), q.desc ≤ a

omit ht in
theorem visit_eq {d : BitVec 64} (hram : b.InRam d 16) :
    visit d b = (descHasNext b.view d.toNat, descNext b.view d.toNat, b) := by
  obtain ⟨-, hlenRam⟩ := hram.sub hwf (o := 8) (k := 4) (by decide)
  obtain ⟨hflags, hflagsRam⟩ := hram.sub hwf (o := 12) (k := 2) (by decide)
  obtain ⟨hnext, hnextRam⟩ := hram.sub hwf (o := 14) (k := 2) (by decide)
  have haddrRam : b.InRam d 8 := ⟨hram.1, by have := hram.2; omega⟩
  simp only [visit, Bus.readU16_eq hwf hflagsRam, Bus.readU64_eq hwf haddrRam,
    Bus.readU32_eq hwf hlenRam, Bus.readU16_eq hwf hnextRam, hflags, hnext]
  rfl

omit ht in
/-- Rings in RAM end below `2 ^ 64`, and so does a chain in RAM that does not wrap around. -/
theorem popFits_of_hasChain {q : Virtq} {segs : List Seg} (h : HasChain b q segs)
    (htable : PastTable b q) : q.PopFits b := by
  have hend := h.ring.2
  have hram : b.ram.base.toNat + b.ram.size.toNat < 2 ^ 64 := hwf
  have hslot : (q.lastAvail % q.num.setWidth 16).toNat < q.num.toNat := by
    rw [BitVec.toNat_umod, h.size.toNat_setWidth]
    exact Nat.mod_lt _ h.size.bounds.1
  intro _
  rw [readIdx_eq hwf h.ring]
  refine ⟨by omega, fun _ => ?_⟩
  unfold TakeFits
  dsimp only
  rw [readSlot_eq hwf h.size h.ring]
  refine ⟨h.size.ne_zero, by omega, ?_⟩
  exact ChainFits.of_visited hwf (fun _ hin => visit_eq hwf hin) (by decide)
    (h.chain.inRam_visited _) htable

end Ram

/-- `pop` hands back exactly the chain that the next entry heads, and over any memory a
    bounded one; the block device's own loop gathers the same one. With overflow checks this
    is so where no sum of an address wraps around. -/
theorem pop_exact (t : Target) :
    (∀ {D : Type} [MmioDevice D] (b : Bus D) (q : Virtq) (segs : List Seg), b.RamWf →
        HasChain b q segs → (t.overflowChecks = true → PastTable b q) →
        pop t q b =
            some (some (availHead b.view q.avail.toNat (q.lastAvail % q.num.setWidth 16), segs),
              { q with lastAvail := q.lastAvail + 1 }, b) ∧
          (q.num.toNat ≤ 256 →
            Blk.gather t q.desc blkQueueMax
                (availHead b.view q.avail.toNat (q.lastAvail % q.num.setWidth 16)) b =
              some (segs, b))) ∧
      ∀ {M : Type} [GuestMem M] (mem : M) (q : Virtq), IsQueueSize q.num →
        (t.overflowChecks = true → q.PopFits mem) →
        ∃ r, pop t q mem = some r ∧
          ∀ head segs, r.1 = some (head, segs) → segs.length ≤ q.num.toNat + 1 := by
  constructor
  · intro D _ b q segs hwf h htable
    have hpop := pop_of_hasChain (t := t.wrapping) rfl hwf h
    have hgather (hmax : q.num.toNat ≤ 256) : Blk.gather t.wrapping q.desc blkQueueMax
        (availHead b.view q.avail.toNat (q.lastAvail % q.num.setWidth 16)) b = some (segs, b) :=
      (Blk.gathers rfl hwf q.desc).of_chainAt h.chain (Nat.le_succ_of_le (h.length.trans hmax))
    cases ht : t.overflowChecks with
    | false =>
      rw [Target.wrapping_of_unchecked ht] at hpop hgather
      exact ⟨hpop, hgather⟩
    | true =>
      refine ⟨(pop_checked ht).mpr ⟨popFits_of_hasChain hwf h (htable ht), hpop⟩, fun hmax => ?_⟩
      refine (Blk.gather_checked ht).mpr ⟨?_, hgather hmax⟩
      refine ChainFits.of_visited hwf (fun _ hin => Blk.visit_eq hwf hin) le_rfl
        (h.chain.inRam_visited _) fun a ha => htable ht a ?_
      exact h.chain.mem_visited_of_length (Nat.le_succ_of_le h.length) ha
  · intro M _ mem q hsize hfits
    have hsome : ∃ r, q.pop t.wrapping mem = some r := pop_isSome rfl fun _ _ => hsize.ne_zero
    obtain ⟨⟨chain, q', mem'⟩, hpop⟩ := hsome
    have hpop' : pop t q mem = some (chain, q', mem') := by
      cases ht : t.overflowChecks with
      | false => rwa [Target.wrapping_of_unchecked ht] at hpop
      | true => exact (pop_checked ht).mpr ⟨hfits ht, hpop⟩
    refine ⟨_, hpop', fun head segs hchain => ?_⟩
    dsimp only at hchain
    subst hchain
    exact length_pop_le hpop

/-- A queue of two entries in the page of `pairMem`. -/
def pairQueue : Virtq :=
  { num := 2, ready := true, desc := 0x40000000, avail := 0x40000100, used := 0x40000200,
    lastAvail := 0 }

/-- A page with a chain of two descriptors available: 4 bytes to read, then 2 to write. -/
def pairMem : Bus Empty where
  ram := { base := 0x40000000, size := 0x1000, bytes := fun a =>
    match a with
    | 0x008 => 4 | 0x00c => 1 | 0x00e => 1
    | 0x018 => 2 | 0x01c => 2
    | 0x102 => 1
    | _ => 0 }
  devices := []

theorem hasChain_pairQueue : HasChain pairMem pairQueue [⟨0, 4, false⟩, ⟨0, 2, true⟩] where
  ready := rfl
  size := ⟨1, by decide, rfl⟩
  ring := by decide
  unconsumed := by decide +kernel
  chain := .cons (by decide +kernel) (by decide +kernel)
    (.last (by decide +kernel) (by decide +kernel))
  length := le_rfl

/-- A build with overflow checks takes the chain as well. -/
theorem pop_exact_pairQueue :
    pop Target.debug64 pairQueue pairMem =
      some (some (0, [⟨0, 4, false⟩, ⟨0, 2, true⟩]), { pairQueue with lastAvail := 1 },
        pairMem) := by
  have hvisited : visited pairMem.view pairQueue.desc pairQueue.num.toNat
      (availHead pairMem.view pairQueue.avail.toNat
        (pairQueue.lastAvail % pairQueue.num.setWidth 16)) = [0x40000000, 0x40000010] := by
    decide +kernel
  have htable : PastTable pairMem pairQueue := by
    intro a ha
    rw [hvisited, List.mem_cons, List.mem_singleton] at ha
    rcases ha with rfl | rfl <;> decide
  have hexact := (pop_exact Target.debug64).1 pairMem pairQueue _
    (by unfold Bus.RamWf; decide) hasChain_pairQueue fun _ => htable
  have hhead : availHead pairMem.view pairQueue.avail.toNat
      (pairQueue.lastAvail % pairQueue.num.setWidth 16) = 0 := by decide +kernel
  rw [hhead] at hexact
  exact hexact.1

end Virtq

end V64.Platform
