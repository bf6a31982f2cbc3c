import V64.Platform.Virtio.Fits

/-!
# Where the devices' arithmetic fits

The entropy and input devices: serving a chain in a build with overflow checks is serving
it without, where the buffers of the chain do not wrap around and the lengths that are
counted fit their types.

* `Rng.fitting_fill`, `Input.deliver_checked`.
-/

namespace V64.Platform

open Checked Loops V64.Interp

variable {M : Type} [GuestMem M]

/-- The first `n` bytes of a buffer do not wrap around. -/
def BufferFits (addr : BitVec 64) (n : ℕ) : Prop := ∀ i < n, addr.toNat + i < 2 ^ 64

theorem toNat_ofNat_of_lt {n i : ℕ} (hi : i < n) (hn : n ≤ 2 ^ 64) :
    (BitVec.ofNat 64 i).toNat = i := by
  rw [BitVec.toNat_ofNat, Nat.mod_eq_of_lt (by omega)]

section Checked

variable {t : Target} (ht : t.overflowChecks = true)

include ht

/-! ## The entropy device -/

namespace Rng

/-- The bytes that filling a chain counts. -/
def filled (segs : List Seg) : ℕ := ((segs.filter (·.writable)).map (·.len.toNat)).sum

/-- Filling a chain fits. -/
def FillFits (_ : Unit) (_ : M) (segs : List Seg) : Prop :=
  (∀ seg ∈ segs, seg.writable = true → BufferFits seg.addr seg.len.toNat) ∧ filled segs < 2 ^ 32

theorem fillBytes_checked {addr : BitVec 64} {n : ℕ} (hn : n ≤ 2 ^ 64) {mem r : M} :
    (List.range n).foldlM (fillByte t addr) mem = some r ↔
      BufferFits addr n ∧ (List.range n).foldlM (fillByte t.wrapping addr) mem = some r := by
  have hbyte : ∀ (mem : M) i r, fillByte t addr mem i = some r ↔
      addr.toNat + (BitVec.ofNat 64 i).toNat < 2 ^ 64 ∧
        fillByte t.wrapping addr mem i = some r := by
    intro mem i r
    unfold fillByte
    simp only [Option.bind_eq_bind, Target.add_bind_eq_some_iff ht, Target.wrapping_add,
      Option.bind_some]
  rw [foldlM_checked_iff hbyte]
  refine and_congr_left fun _ => ?_
  constructor
  · intro h i hi
    have hfits := h i (List.mem_range.mpr hi)
    rwa [toNat_ofNat_of_lt hi hn] at hfits
  · intro h i hi
    have hlt := List.mem_range.mp hi
    rw [toNat_ofNat_of_lt hlt hn]
    exact h i hlt

theorem fillSeg_checked {seg : Seg} {s r : BitVec 32 × M} :
    fillSeg t s seg = some r ↔
      (seg.writable = true → BufferFits seg.addr seg.len.toNat ∧
        s.1.toNat + seg.len.toNat < 2 ^ 32) ∧ fillSeg t.wrapping s seg = some r := by
  have hlen : seg.len.toNat ≤ 2 ^ 64 := Nat.le_of_lt (Nat.lt_trans seg.len.isLt (by decide))
  unfold fillSeg
  split_ifs with hw
  · simp only [Option.bind_eq_bind, Option.bind_eq_some_iff, fillBytes_checked ht hlen,
      Target.add_eq_some_iff ht, hw, true_imp_iff]
    constructor
    · rintro ⟨mem, ⟨hfits, hmem⟩, w, ⟨hadd, hw⟩, hr⟩
      exact ⟨⟨hfits, hadd⟩, mem, hmem, w, hw, hr⟩
    · rintro ⟨⟨hfits, hadd⟩, mem, hmem, w, hw, hr⟩
      exact ⟨mem, ⟨hfits, hmem⟩, w, ⟨hadd, hw⟩, hr⟩
  · exact ⟨fun hr => ⟨fun h => absurd h hw, hr⟩, fun hr => hr.2⟩

omit ht in
/-- What a segment adds to the count. -/
theorem fillSeg_count {seg : Seg} {s r : BitVec 32 × M} (h : fillSeg t.wrapping s seg = some r) :
    r.1 = if seg.writable = true then s.1 + seg.len else s.1 := by
  unfold fillSeg at h
  split_ifs at h ⊢
  · simp only [Option.bind_eq_bind, Option.bind_eq_some_iff, Target.wrapping_add] at h
    obtain ⟨_, _, _, hw, h⟩ := h
    cases hw
    cases h
    rfl
  · cases h
    rfl

theorem fillSegs_checked {segs : List Seg} {s r : BitVec 32 × M} :
    segs.foldlM (fillSeg t) s = some r ↔
      ((∀ seg ∈ segs, seg.writable = true → BufferFits seg.addr seg.len.toNat) ∧
        s.1.toNat + filled segs < 2 ^ 32) ∧ segs.foldlM (fillSeg t.wrapping) s = some r := by
  induction segs generalizing s with
  | nil => exact ⟨fun hr => ⟨⟨nofun, s.1.isLt⟩, hr⟩, fun hr => hr.2⟩
  | cons seg segs ih =>
    have hfilled : filled (seg :: segs) =
        (if seg.writable = true then seg.len.toNat else 0) + filled segs := by
      unfold filled
      split_ifs with hw
      · rw [List.filter_cons_of_pos hw, List.map_cons, List.sum_cons]
      · rw [List.filter_cons_of_neg hw, Nat.zero_add]
    rw [List.foldlM_cons, List.foldlM_cons, hfilled]
    simp only [Option.bind_eq_bind, Option.bind_eq_some_iff, ih, List.forall_mem_cons,
      fillSeg_checked ht]
    constructor
    · rintro ⟨s1, ⟨hseg, hs1⟩, ⟨hrest, hsum⟩, hr⟩
      have hcount := fillSeg_count hs1
      split_ifs at hcount ⊢ with hw
      · obtain ⟨hfits, hadd⟩ := hseg hw
        rw [hcount, BitVec.toNat_add_of_lt hadd] at hsum
        exact ⟨⟨⟨fun _ => hfits, hrest⟩, by omega⟩, s1, hs1, hr⟩
      · rw [hcount] at hsum
        exact ⟨⟨⟨fun h => absurd h hw, hrest⟩, by omega⟩, s1, hs1, hr⟩
    · rintro ⟨⟨⟨hseg, hrest⟩, hsum⟩, s1, hs1, hr⟩
      have hcount := fillSeg_count hs1
      split_ifs at hcount hsum with hw
      · have hadd : s.1.toNat + seg.len.toNat < 2 ^ 32 := by omega
        refine ⟨s1, ⟨fun hw => ⟨hseg hw, hadd⟩, hs1⟩, ⟨hrest, ?_⟩, hr⟩
        rw [hcount, BitVec.toNat_add_of_lt hadd]
        omega
      · refine ⟨s1, ⟨fun h => absurd h hw, hs1⟩, ⟨hrest, ?_⟩, hr⟩
        rw [hcount]
        omega

theorem fitting_fill : Fitting (M := M) (fill t) (fill t.wrapping) FillFits where
  checked d mem segs r := by
    have hzero : (0 : BitVec 32).toNat = 0 := rfl
    unfold fill FillFits
    simp only [Option.bind_eq_bind, Option.bind_eq_some_iff, fillSegs_checked ht, hzero,
      Nat.zero_add]
    constructor
    · rintro ⟨s, ⟨hfits, hs⟩, hr⟩
      exact ⟨hfits, s, hs, hr⟩
    · rintro ⟨hfits, s, hs, hr⟩
      exact ⟨s, ⟨hfits, hs⟩, hr⟩
  isSome d mem segs _ := by
    have hseg : ∀ (s : BitVec 32 × M), ∀ seg ∈ segs, True →
        ∃ s', fillSeg t.wrapping s seg = some s' ∧ True := by
      intro s seg _ _
      unfold fillSeg
      split_ifs
      · have hbyte : ∀ (mem : M), ∀ i ∈ List.range seg.len.toNat, True →
            ∃ mem', fillByte t.wrapping seg.addr mem i = some mem' ∧ True := by
          intro mem i _ _
          unfold fillByte
          rw [Target.wrapping_add]
          exact ⟨_, rfl, trivial⟩
        obtain ⟨mem', hmem', -⟩ := foldlM_total hbyte trivial
        rw [hmem', Target.wrapping_add]
        exact ⟨_, rfl, trivial⟩
      · exact ⟨_, rfl, trivial⟩
    obtain ⟨s', hs', -⟩ := foldlM_total hseg (s := (0, mem)) trivial
    unfold fill
    rw [hs']
    exact ⟨_, rfl⟩

end Rng

/-! ## The input device -/

namespace Input

omit [GuestMem M] ht in
theorem fitting_drop : Fitting (M := M) drop drop fun _ _ _ => True where
  checked _ _ _ _ := (iff_of_eq (true_and _)).symm
  isSome _ _ _ _ := ⟨_, rfl⟩

/-- The event goes into the buffer, and the completion fits. -/
def EventFits (t : Target) (e : InputEvent) (segs : List Seg) (s : Draining Unit M) : Prop :=
  ∀ seg rest, segs = seg :: rest → seg.addr.toNat + 4 < 2 ^ 64 ∧
    ∀ mem, writeEvent t.wrapping seg.addr e s.mem = some mem →
      UsedFits s.q.used (s.q.num.setWidth 16) mem

/-- Every chain that takes an event fits. -/
def DeliverFits (t : Target) : List InputEvent → Draining Unit M → Prop
  | [], _ => True
  | e :: pending, s =>
    s.q.PopFits s.mem ∧ ∀ head segs q mem,
      s.q.pop t.wrapping s.mem = some (some (head, segs), q, mem) →
        EventFits t e segs { s with q := q, mem := mem } ∧
          ∀ s', serveEvent t.wrapping e head segs { s with q := q, mem := mem } = some s' →
            DeliverFits t pending s'

theorem writeEvent_checked {addr : BitVec 64} {e : InputEvent} {mem r : M} :
    writeEvent t addr e mem = some r ↔
      addr.toNat + 4 < 2 ^ 64 ∧ writeEvent t.wrapping addr e mem = some r := by
  have h2 : (2 : BitVec 64).toNat = 2 := rfl
  have h4 : (4 : BitVec 64).toNat = 4 := rfl
  unfold writeEvent
  simp only [Option.bind_eq_bind, Target.add_bind_eq_some_iff ht, Target.wrapping_add,
    Option.bind_some, h2, h4]
  constructor
  · rintro ⟨-, hvalue, hr⟩
    exact ⟨hvalue, hr⟩
  · rintro ⟨hvalue, hr⟩
    exact ⟨by omega, hvalue, hr⟩

theorem serveEvent_checked {e : InputEvent} {head : BitVec 16} {segs : List Seg}
    {s r : Draining Unit M} :
    serveEvent t e head segs s = some r ↔
      EventFits t e segs s ∧ serveEvent t.wrapping e head segs s = some r := by
  unfold serveEvent EventFits Virtq.pushUsed
  cases segs with
  | nil => exact ⟨fun hr => ⟨fun _ _ h => (nomatch h), hr⟩, fun hr => hr.2⟩
  | cons seg rest =>
    simp only [Option.bind_eq_bind, Option.bind_eq_some_iff, writeEvent_checked ht,
      pushUsedAt_checked ht]
    constructor
    · rintro ⟨mem, ⟨haddr, hmem⟩, mem', ⟨hused, hpush⟩, hr⟩
      refine ⟨fun seg' rest' h => ?_, mem, hmem, mem', hpush, hr⟩
      cases h
      refine ⟨haddr, fun mem1 hmem1 => ?_⟩
      cases hmem.symm.trans hmem1
      exact hused
    · rintro ⟨hfits, mem, hmem, mem', hpush, hr⟩
      obtain ⟨haddr, hused⟩ := hfits seg rest rfl
      exact ⟨mem, ⟨haddr, hmem⟩, mem', ⟨hused mem hmem, hpush⟩, hr⟩

theorem deliver_checked {pending : List InputEvent} {s : Draining Unit M}
    {r : List InputEvent × Draining Unit M} :
    deliver t pending s = some r ↔
      DeliverFits t pending s ∧ deliver t.wrapping pending s = some r := by
  induction pending generalizing s with
  | nil => exact (iff_of_eq (true_and _)).symm
  | cons e pending ih =>
    unfold deliver DeliverFits
    simp only [Option.bind_eq_bind, Option.bind_eq_some_iff, Virtq.pop_checked ht]
    constructor
    · rintro ⟨⟨chain, q, mem⟩, ⟨hfits, hpop⟩, hr⟩
      cases chain with
      | none => exact ⟨⟨hfits, fun _ _ _ _ h => nomatch hpop.symm.trans h⟩, _, hpop, hr⟩
      | some chain =>
        simp only [Option.bind_eq_some_iff, serveEvent_checked ht, ih] at hr
        obtain ⟨s', ⟨hevent, hserve⟩, hrest, hr⟩ := hr
        refine ⟨⟨hfits, fun head segs q' mem1 hpop' => ?_⟩, _, hpop, ?_⟩
        · cases hpop.symm.trans hpop'
          refine ⟨hevent, fun s1 hserve1 => ?_⟩
          cases hserve.symm.trans hserve1
          exact hrest
        · simp only [Option.bind_eq_some_iff]
          exact ⟨s', hserve, hr⟩
    · rintro ⟨⟨hfits, hall⟩, ⟨chain, q, mem⟩, hpop, hr⟩
      refine ⟨_, ⟨hfits, hpop⟩, ?_⟩
      cases chain with
      | none => exact hr
      | some chain =>
        obtain ⟨hevent, hrest⟩ := hall _ _ _ _ hpop
        simp only [Option.bind_eq_some_iff] at hr
        obtain ⟨s', hserve, hr⟩ := hr
        simp only [Option.bind_eq_some_iff, serveEvent_checked ht, ih]
        exact ⟨s', ⟨hevent, hserve⟩, hrest s' hserve, hr⟩

omit ht in
/-- Without overflow checks events that fit are delivered. -/
theorem deliver_isSome_of_fits {pending : List InputEvent} {s : Draining Unit M}
    (h : DeliverFits t pending s) : ∃ r, deliver t.wrapping pending s = some r := by
  induction pending generalizing s with
  | nil => exact ⟨_, rfl⟩
  | cons e pending ih =>
    obtain ⟨hpopFits, hall⟩ := h
    obtain ⟨⟨chain, q, mem⟩, hpop⟩ := Virtq.pop_isSome (t := t.wrapping) rfl
      fun hon hmoved => ((hpopFits hon).2 hmoved).1
    rw [deliver, hpop, Option.bind_eq_bind, Option.bind_some]
    cases chain with
    | none => exact ⟨_, rfl⟩
    | some chain =>
      obtain ⟨head, segs⟩ := chain
      obtain ⟨hevent, hrest⟩ := hall head segs q mem hpop
      have hserve : ∃ s', serveEvent t.wrapping e head segs { s with q := q, mem := mem } =
          some s' := by
        unfold serveEvent
        cases segs with
        | nil => exact ⟨_, rfl⟩
        | cons seg rest =>
          have hwrite : ∃ mem', writeEvent t.wrapping seg.addr e mem = some mem' := by
            unfold writeEvent
            rw [Target.wrapping_add, Target.wrapping_add]
            exact ⟨_, rfl⟩
          obtain ⟨mem', hmem'⟩ := hwrite
          have hused := (hevent seg rest rfl).2 mem' hmem'
          obtain ⟨mem1, hpush⟩ := Virtq.pushUsed_isSome (t := t.wrapping) rfl hused.1 mem' head 8
          dsimp only
          rw [hmem', Option.bind_eq_bind, Option.bind_some, hpush]
          exact ⟨_, rfl⟩
      obtain ⟨s', hs'⟩ := hserve
      dsimp only
      rw [hs', Option.bind_eq_bind, Option.bind_some]
      exact ih (hrest s' hs')

theorem deliver_ne_none_iff {pending : List InputEvent} {s : Draining Unit M} :
    deliver t pending s ≠ none ↔ DeliverFits t pending s := by
  rw [Option.ne_none_iff_exists']
  constructor
  · rintro ⟨r, hr⟩
    exact ((deliver_checked ht).mp hr).1
  · intro hfits
    obtain ⟨r, hr⟩ := deliver_isSome_of_fits hfits
    exact ⟨r, (deliver_checked ht).mpr ⟨hfits, hr⟩⟩

end Input

end Checked

end V64.Platform
