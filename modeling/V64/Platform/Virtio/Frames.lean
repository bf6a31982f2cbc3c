import V64.Platform.Ram
import V64.Platform.Virtio.Gpu
import V64.Platform.Virtio.Input
import V64.Platform.Virtio.Rng

/-!
# What serving a chain writes

In a build without overflow checks, for the devices that drain their queues with
`Virtq::pop`: which bytes of RAM each operation can change.

* `Virtq.gather_frame`: taking a chain changes none.
* `pushUsedAt_frame`: a completion changes its slot and the index of the used ring.
* `Rng.fill_frame`: the entropy device changes the writable buffers of the chain.
* `Display.serveControl_frame`: the display device changes the response buffer.
-/

namespace V64.Platform

open Checked Loops V64.Interp

variable {D : Type} [MmioDevice D] {t : Target} {τ : Type}

/-! ## The queue -/

/-- Gathering a chain changes at most the state of devices. -/
theorem Virtq.gather_frame (ht : t.overflowChecks = false) (desc : BitVec 64) (fuel : ℕ)
    (idx : BitVec 16) (b : Bus D) :
    ∃ segs b', Virtq.gather t desc fuel idx b = some (segs, b') ∧ b'.ram = b.ram := by
  have hdesc : ∀ (b : Bus D) (a1 a2 a3 : BitVec 64),
      (GuestMem.readU32 (GuestMem.readU64 (GuestMem.readU16 b a1).2 a2).2 a3).2.ram = b.ram := by
    intro b a1 a2 a3
    rw [(Bus.ram_reads _ _).2.2.1, (Bus.ram_reads _ _).2.2.2, (Bus.ram_reads _ _).2.1]
  induction fuel generalizing idx b with
  | zero =>
    unfold Virtq.gather
    simp only [Target.add_of_wrap ht, Option.bind_eq_bind, Option.bind_some]
    split_ifs
    · exact ⟨_, _, rfl, hdesc _ _ _ _⟩
    · exact ⟨_, _, rfl, hdesc _ _ _ _⟩
  | succ fuel ih =>
    unfold Virtq.gather
    simp only [Target.add_of_wrap ht, Option.bind_eq_bind, Option.bind_some]
    split_ifs
    · obtain ⟨segs, b', hrest, hram⟩ := ih _ _
      rw [hrest]
      refine ⟨_, _, rfl, ?_⟩
      rw [hram, (Bus.ram_reads _ _).2.1, hdesc]
    · exact ⟨_, _, rfl, hdesc _ _ _ _⟩

/-- The bytes that a completion writes, for a used ring of `qsz` entries at `used`. -/
def usedWrites (used : BitVec 64) (qsz : BitVec 16) (b : Bus D) (a : ℕ) : Prop :=
  let slot := (GuestMem.readU16 b (used + 2)).1 % qsz
  Bus.cells (used + 4 + slot.setWidth 64 * 8) 4 a ∨
    Bus.cells (used + 4 + slot.setWidth 64 * 8 + 4) 4 a ∨ Bus.cells (used + 2) 2 a

theorem pushUsedAt_frame (ht : t.overflowChecks = false) {used : BitVec 64} {qsz : BitVec 16}
    (hq : qsz ≠ 0) {b : Bus D} (hwf : b.RamWf) (head : BitVec 16) (len : BitVec 32) :
    ∃ b', pushUsedAt t used qsz b head len = some b' ∧ b.OnlyWrites (usedWrites used qsz b) b' := by
  unfold pushUsedAt usedWrites
  simp only [Target.add_of_wrap ht, rem_eq_some hq, Option.bind_eq_bind, Option.bind_some]
  generalize hslot : (GuestMem.readU16 b (used + 2)).1 % qsz = slot
  generalize used + 4 + slot.setWidth 64 * 8 = elem
  have hread : b.OnlyWrites (fun _ => False) (GuestMem.readU16 b (used + 2)).2 :=
    .of_ram (Bus.ram_reads _ _).2.1
  generalize (GuestMem.readU16 b (used + 2)).2 = b0 at hread ⊢
  have hwf0 := hread.window.ramWf hwf
  have h1 := Bus.onlyWrites_cells hwf0 elem 4 ((head.setWidth 32).setWidth 64)
  have hwf1 := h1.window.ramWf hwf0
  have h2 := Bus.onlyWrites_cells hwf1 (elem + 4) 4 (len.setWidth 64)
  have hwf2 := h2.window.ramWf hwf1
  have h3 := Bus.onlyWrites_cells hwf2 (used + 2) 2
    (((GuestMem.readU16 b (used + 2)).1 + 1).setWidth 64)
  refine ⟨_, rfl, ?_⟩
  exact (((hread.mono fun _ h => h.elim).trans (h1.mono fun _ h => .inl h)).trans
    (h2.mono fun _ h => .inr (.inl h))).trans (h3.mono fun _ h => .inr (.inr h))

/-- Serving a chain ends, and writes the bytes that it says. -/
def ServeFrame (serve : Serve τ (Bus D)) (writes : τ → Bus D → List Seg → ℕ → Prop)
    (allocates : τ → Bus D → List Seg → Prop) : Prop :=
  ∀ d b segs, b.RamWf → allocates d b segs →
    ∃ r, serve d b segs = some r ∧ b.OnlyWrites (writes d b segs) r.2.2

/-! ## The entropy device -/

namespace Rng

/-- The bytes that filling a chain writes. -/
def writes (_ : Unit) (_ : Bus D) (segs : List Seg) (a : ℕ) : Prop :=
  ∃ seg ∈ segs, seg.writable = true ∧ Bus.cells seg.addr seg.len.toNat a

theorem fillByte_frame (ht : t.overflowChecks = false) {segs : List Seg} {seg : Seg}
    (hmem : seg ∈ segs) (hw : seg.writable = true) {b b1 : Bus D} (hwf : b1.RamWf)
    (h1 : b.OnlyWrites (writes () b segs) b1) {i : ℕ} (hi : i < seg.len.toNat) :
    ∃ b2, fillByte t seg.addr b1 i = some b2 ∧ b.OnlyWrites (writes () b segs) b2 := by
  refine ⟨_, by rw [fillByte, Target.add_of_wrap ht]; rfl, ?_⟩
  refine h1.trans ((Bus.onlyWrites_cells hwf _ 1 _).mono ?_)
  rintro a ⟨k, hk, rfl⟩
  obtain rfl : k = 0 := Nat.lt_one_iff.mp hk
  exact ⟨seg, hmem, hw, i, hi, by rw [BitVec.add_zero]⟩

theorem fill_frame (ht : t.overflowChecks = false) :
    ServeFrame (D := D) (fill t) writes fun _ _ _ => True := by
  intro d b segs hwf _
  have hseg : ∀ (s : BitVec 32 × Bus D), ∀ seg ∈ segs, b.OnlyWrites (writes () b segs) s.2 →
      ∃ s', fillSeg t s seg = some s' ∧ b.OnlyWrites (writes () b segs) s'.2 := by
    intro s seg hmem hs
    unfold fillSeg
    split_ifs with hw
    · have hbyte : ∀ (b1 : Bus D), ∀ i ∈ List.range seg.len.toNat,
          b.OnlyWrites (writes () b segs) b1 → ∃ b2, fillByte t seg.addr b1 i = some b2 ∧
            b.OnlyWrites (writes () b segs) b2 := by
        intro b1 i hi h1
        exact fillByte_frame ht hmem hw (h1.window.ramWf hwf) h1 (List.mem_range.mp hi)
      obtain ⟨b1, hbytes, h1⟩ := foldlM_total hbyte hs
      rw [hbytes, Option.bind_eq_bind, Option.bind_some, Target.add_of_wrap ht]
      exact ⟨_, rfl, h1⟩
    · exact ⟨s, rfl, hs⟩
  obtain ⟨s', hfold, hs'⟩ := foldlM_total hseg (s := (0, b)) (.refl b)
  exact ⟨_, by rw [fill, hfold]; rfl, hs'⟩

end Rng

/-! ## Queues whose chains are dropped -/

omit [MmioDevice D] in
theorem drop_frame {serve : Serve τ (Bus D)} (h : ∀ d b segs, serve d b segs = some (0, d, b)) :
    ServeFrame serve (fun _ _ _ _ => False) fun _ _ _ => True := by
  intro d b segs _ _
  exact ⟨_, h d b segs, .refl b⟩

omit [MmioDevice D] in
theorem Input.statusQueue_frame :
    ServeFrame (D := D) Input.drop (fun _ _ _ _ => False) fun _ _ _ => True :=
  drop_frame fun _ _ _ => rfl

omit [MmioDevice D] in
theorem Display.serveCursor_frame :
    ServeFrame (D := D) Display.serveCursor (fun _ _ _ _ => False) fun _ _ _ => True :=
  drop_frame fun _ _ _ => rfl

/-! ## The display device -/

theorem dmaWrite_frame (ht : t.overflowChecks = false) (addr : BitVec 64)
    (bytes : List (BitVec 8)) {b : Bus D} (hwf : b.RamWf) :
    ∃ b', dmaWrite t addr bytes b = some b' ∧ b.OnlyWrites (Bus.cells addr bytes.length) b' := by
  have hstore : ∀ (b1 : Bus D) (i n : ℕ) (v : BitVec 64), i + n ≤ bytes.length →
      b.OnlyWrites (Bus.cells addr bytes.length) b1 → b.OnlyWrites (Bus.cells addr bytes.length)
        (b1.store (addr + BitVec.ofNat 64 i) n v) := by
    intro b1 i n v hi h1
    refine h1.trans ((Bus.onlyWrites_cells (h1.window.ramWf hwf) _ n v).mono ?_)
    rintro a ⟨k, hk, rfl⟩
    exact ⟨i + k, by omega, by rw [BitVec.ofNat_add, BitVec.add_assoc]⟩
  have hword : ∀ b1, ∀ i ∈ wordOffsets bytes.length,
      b.OnlyWrites (Bus.cells addr bytes.length) b1 →
      ∃ b2, dmaWriteWord t addr bytes b1 i = some b2 ∧
        b.OnlyWrites (Bus.cells addr bytes.length) b2 := by
    intro b1 i hi h1
    obtain ⟨j, hj, rfl⟩ := List.mem_map.mp hi
    have hin : 8 * j + 8 ≤ bytes.length := by
      have hlt := List.mem_range.mp hj
      omega
    refine ⟨_, ?_, hstore b1 (8 * j) 8
      (Bytes.ofLe 64 ((bytes.drop (8 * j)).take (8 * j + 8 - 8 * j))) hin h1⟩
    rw [dmaWriteWord, subslice_eq_some (Nat.le_add_right _ _) hin, Option.bind_eq_bind,
      Option.bind_some, Target.add_of_wrap ht]
    rfl
  have hbyte : ∀ b1, ∀ i ∈ byteOffsets bytes.length,
      b.OnlyWrites (Bus.cells addr bytes.length) b1 →
      ∃ b2, dmaWriteByte t addr bytes b1 i = some b2 ∧
        b.OnlyWrites (Bus.cells addr bytes.length) b2 := by
    intro b1 i hi h1
    have hlt := (List.mem_range'_1.mp hi).2
    have hin : i < bytes.length := by omega
    refine ⟨_, ?_, hstore b1 i 1 (bytes[i].setWidth 64) hin h1⟩
    rw [dmaWriteByte, Target.add_of_wrap ht, List.getElem?_eq_getElem hin]
    rfl
  obtain ⟨b1, h1, hb1⟩ := foldlM_total hword (.refl b)
  obtain ⟨b2, h2, hb2⟩ := foldlM_total hbyte hb1
  refine ⟨b2, ?_, hb2⟩
  rw [dmaWrite, h1]
  exact h2

namespace Display

/-- The request and the place for the response that a chain has. -/
def collect (t : Target) (b : Bus D) (segs : List Seg) : Option (Collected (Bus D)) :=
  segs.foldlM (collectSeg t) ⟨[], none, b⟩

/-- The bytes that serving a control chain writes: those of the response. -/
def writes (t : Target) (_ : Display) (b : Bus D) (segs : List Seg) (a : ℕ) : Prop :=
  ∃ c addr len, collect t b segs = some c ∧ c.respAt = some (addr, len) ∧
    Bus.cells addr (min (responseLength (field32 t c.req 0)) len.toNat) a

/-- The request of a control chain creates no resource that is too large. -/
def AllocatesChain (t : Target) (_ : Display) (b : Bus D) (segs : List Seg) : Prop :=
  ∀ c, collect t b segs = some c → Allocates t c.req

theorem respond_frame (ht : t.overflowChecks = false) (respAt : Option (BitVec 64 × BitVec 32))
    (resp : List (BitVec 8)) {b : Bus D} (hwf : b.RamWf) :
    ∃ r, respond t respAt resp b = some r ∧ b.OnlyWrites
      (fun a => ∃ addr len, respAt = some (addr, len) ∧
        Bus.cells addr (min resp.length len.toNat) a) r.2 := by
  unfold respond
  cases respAt with
  | none => exact ⟨_, rfl, .refl b⟩
  | some place =>
    obtain ⟨addr, len⟩ := place
    have htake : ((resp.drop 0).take (min resp.length len.toNat - 0)).length =
        min resp.length len.toNat := by
      rw [List.length_take, List.drop_zero, Nat.sub_zero]
      omega
    obtain ⟨b1, h1, hwrites⟩ := dmaWrite_frame ht addr
      ((resp.drop 0).take (min resp.length len.toNat - 0)) hwf
    rw [htake] at hwrites
    dsimp only
    rw [subslice_eq_some (Nat.zero_le _) (Nat.min_le_left _ _), Option.bind_eq_bind,
      Option.bind_some, h1]
    exact ⟨_, rfl, hwrites.mono fun a ha => ⟨addr, len, rfl, ha⟩⟩

theorem serveControl_frame (ht : t.overflowChecks = false) :
    ServeFrame (D := D) (serveControl t) (writes t) (AllocatesChain t) := by
  intro d b segs hwf halloc
  have hreads : ReadsKeep fun b' : Bus D => b'.ram = b.ram :=
    ⟨fun _ _ h => (Bus.ram_reads _ _).1.trans h, fun _ _ h => (Bus.ram_reads _ _).2.2.2.trans h⟩
  have hcollects : ∃ c, collect t b segs = some c ∧ c.mem.ram = b.ram :=
    collect_isSome ht hreads segs rfl
  obtain ⟨c, hcollect, hram⟩ := hcollects
  obtain ⟨⟨resp, d', b1⟩, hcmd, hram1, hlen⟩ :=
    handleCmd_isSome ht hreads d hram (halloc c hcollect)
  have hframe : b.OnlyWrites (writes t d b segs) b1 := .of_ram hram1
  obtain ⟨⟨written, b2⟩, hrespond, hwrites⟩ :=
    respond_frame ht c.respAt resp (hframe.window.ramWf hwf)
  unfold collect at hcollect
  unfold serveControl
  rw [hcollect, Option.bind_eq_bind, Option.bind_some, hcmd, Option.bind_eq_bind, Option.bind_some]
  dsimp only
  rw [hrespond]
  refine ⟨_, rfl, hframe.trans (hwrites.mono ?_)⟩
  rintro a ⟨addr, len, hat, ha⟩
  rw [hlen] at ha
  exact ⟨c, addr, len, hcollect, hat, ha⟩

end Display

end V64.Platform
