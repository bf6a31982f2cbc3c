import V64.Platform.Virtio.Gpu
import V64.Platform.Virtio.Input
import V64.Platform.Virtio.Rng

/-!
# Where the queue arithmetic fits

In a build with overflow checks a function of the devices is its version without them,
restricted to the inputs where nothing overflows, no remainder is by zero and no index
is out of bounds. Each `…Fits` says that for one function, with unbounded integers.

* `pushUsedAt_checked`, `Virtq.pop_checked`: the queue.
-/

namespace V64.Platform

open Checked Loops V64.Interp

variable {M : Type} [GuestMem M] {τ : Type}

/-! ## The queue -/

/-- An index of a table whose entries have `c` bytes, as an offset. -/
theorem toNat_scale (i : BitVec 16) {c : BitVec 64} (hc : c.toNat ≤ 16) :
    (i.setWidth 64 * c).toNat = i.toNat * c.toNat := by
  have hi := i.isLt
  rw [BitVec.toNat_mul, BitVec.toNat_setWidth, Nat.mod_eq_of_lt (a := i.toNat) (by omega)]
  refine Nat.mod_eq_of_lt (Nat.lt_of_le_of_lt (Nat.mul_le_mul_left _ hc) (by omega))

/-- A completion fits: the slot of the used ring ends below `2 ^ 64`. -/
def UsedFits (used : BitVec 64) (qsz : BitVec 16) (mem : M) : Prop :=
  qsz ≠ 0 ∧ used.toNat + 8 * ((GuestMem.readU16 mem (used + 2)).1 % qsz).toNat + 8 < 2 ^ 64

/-- The descriptors of a chain fit, as far as they are gathered: their fields end below
    `2 ^ 64`. `visit` reads a descriptor: whether it has a successor, the successor and
    memory. `last` is the offset of the last field that is read of a final descriptor. -/
def ChainFits (visit : BitVec 64 → M → Bool × BitVec 16 × M) (last : ℕ) (desc : BitVec 64) :
    (fuel : ℕ) → (idx : BitVec 16) → (mem : M) → Prop
  | fuel, idx, mem =>
    let r := visit (desc + idx.setWidth 64 * 16) mem
    desc.toNat + 16 * idx.toNat + last < 2 ^ 64 ∧
      (r.1 = true →
        match fuel with
        | 0 => True
        | fuel + 1 => desc.toNat + 16 * idx.toNat + 14 < 2 ^ 64 ∧
            ChainFits visit last desc fuel r.2.1 r.2.2)

namespace Virtq

/-- How `pop` reads a descriptor (lines 47–56). -/
def visit (d : BitVec 64) (mem : M) : Bool × BitVec 16 × M :=
  let flags := GuestMem.readU16 mem (d + 12)
  let next := GuestMem.readU16 (GuestMem.readU32 (GuestMem.readU64 flags.2 d).2 (d + 8)).2 (d + 14)
  (hasNext flags.1, next)

/-- The chain that `pop` gathers fits. -/
abbrev GatherFits (desc : BitVec 64) (fuel : ℕ) (idx : BitVec 16) (mem : M) : Prop :=
  ChainFits visit 12 desc fuel idx mem

/-- Taking a chain fits. -/
def TakeFits (q : Virtq) (mem : M) : Prop :=
  let slot := q.lastAvail % q.num.setWidth 16
  let head := GuestMem.readU16 mem (q.avail + 4 + slot.setWidth 64 * 2)
  q.num.setWidth 16 ≠ (0 : BitVec 16) ∧ q.avail.toNat + 2 * slot.toNat + 4 < 2 ^ 64 ∧
    GatherFits q.desc q.num.toNat head.1 head.2

/-- Looking for a chain fits, and so does taking it. -/
def PopFits (q : Virtq) (mem : M) : Prop :=
  let idx := GuestMem.readU16 mem (q.avail + 2)
  ¬(q.ready = false ∨ q.num = 0) →
    q.avail.toNat + 2 < 2 ^ 64 ∧ (q.lastAvail ≠ idx.1 → q.TakeFits idx.2)

end Virtq

section Checked

variable {t : Target} (ht : t.overflowChecks = true)

include ht

theorem pushUsedAt_checked {used : BitVec 64} {qsz : BitVec 16} {mem : M} {head : BitVec 16}
    {len : BitVec 32} {r : M} :
    pushUsedAt t used qsz mem head len = some r ↔
      UsedFits used qsz mem ∧ pushUsedAt t.wrapping used qsz mem head len = some r := by
  unfold pushUsedAt UsedFits
  simp only [Option.bind_eq_bind, Target.add_bind_eq_some_iff ht, rem_bind_eq_some_iff,
    Target.wrapping_add, Option.bind_some]
  generalize (GuestMem.readU16 mem (used + 2)).1 % qsz = slot
  have hslot := toNat_scale slot (c := 8) (by decide)
  have h2 : (2 : BitVec 64).toNat = 2 := rfl
  have h4 : (4 : BitVec 64).toNat = 4 := rfl
  have h8 : (8 : BitVec 64).toNat = 8 := rfl
  simp only [BitVec.toNat_add, hslot, h2, h4, h8]
  constructor
  · rintro ⟨-, hq, hring, helem, hlen, hr⟩
    exact ⟨⟨hq, by omega⟩, hq, hr⟩
  · rintro ⟨⟨hq, hfits⟩, -, hr⟩
    exact ⟨by omega, hq, by omega, by omega, by omega, hr⟩

namespace Virtq

theorem gather_checked {desc : BitVec 64} {fuel : ℕ} {idx : BitVec 16} {mem : M}
    {r : List Seg × M} :
    gather t desc fuel idx mem = some r ↔
      GatherFits desc fuel idx mem ∧ gather t.wrapping desc fuel idx mem = some r := by
  have hscale : ∀ i : BitVec 16, (i.setWidth 64 * 16 : BitVec 64).toNat = i.toNat * 16 :=
    fun i => toNat_scale i le_rfl
  have h12 : (12 : BitVec 64).toNat = 12 := rfl
  have h8 : (8 : BitVec 64).toNat = 8 := rfl
  have h14 : (14 : BitVec 64).toNat = 14 := rfl
  induction fuel generalizing idx mem r with
  | zero =>
    unfold gather ChainFits visit
    simp only [Option.bind_eq_bind, Target.add_bind_eq_some_iff ht, Target.wrapping_add,
      Option.bind_some, BitVec.toNat_add, hscale, h12, h8]
    constructor
    · rintro ⟨hd, hflags, hlen, hr⟩
      exact ⟨⟨by omega, fun _ => trivial⟩, hr⟩
    · rintro ⟨⟨hd, -⟩, hr⟩
      exact ⟨by omega, by omega, by omega, hr⟩
  | succ fuel ih =>
    unfold gather ChainFits visit
    simp only [Option.bind_eq_bind, Target.add_bind_eq_some_iff ht, Target.wrapping_add,
      Option.bind_some, BitVec.toNat_add, hscale, h12, h8]
    split_ifs with hnext
    · simp only [Target.add_bind_eq_some_iff ht, Option.bind_eq_some_iff, hnext, true_imp_iff,
        BitVec.toNat_add, hscale, h14]
      constructor
      · rintro ⟨hd, hflags, hlen, hnextAt, rest, hrest, hr⟩
        obtain ⟨hfits, hrest⟩ := ih.mp hrest
        exact ⟨⟨by omega, by omega, hfits⟩, rest, hrest, hr⟩
      · rintro ⟨⟨hd, hnextAt, hfits⟩, rest, hrest, hr⟩
        exact ⟨by omega, by omega, by omega, by omega, rest, ih.mpr ⟨hfits, hrest⟩, hr⟩
    · constructor
      · rintro ⟨hd, hflags, hlen, hr⟩
        exact ⟨⟨by omega, fun h => absurd h hnext⟩, hr⟩
      · rintro ⟨⟨hd, -⟩, hr⟩
        exact ⟨by omega, by omega, by omega, hr⟩

theorem take_checked {q : Virtq} {mem : M} {r : (BitVec 16 × List Seg) × Virtq × M} :
    take t q mem = some r ↔ q.TakeFits mem ∧ take t.wrapping q mem = some r := by
  unfold take TakeFits
  simp only [Option.bind_eq_bind, Target.add_bind_eq_some_iff ht, rem_bind_eq_some_iff,
    Target.wrapping_add, Option.bind_some]
  simp only [Option.bind_eq_some_iff, gather_checked ht]
  generalize q.lastAvail % q.num.setWidth 16 = slot
  have hslot := toNat_scale slot (c := 2) (by decide)
  have h2 : (2 : BitVec 64).toNat = 2 := rfl
  have h4 : (4 : BitVec 64).toNat = 4 := rfl
  simp only [BitVec.toNat_add, hslot, h2, h4]
  constructor
  · rintro ⟨hq, hring, hat, chain, ⟨hfits, hchain⟩, hr⟩
    exact ⟨⟨hq, by omega, hfits⟩, hq, chain, hchain, hr⟩
  · rintro ⟨⟨hq, hat, hfits⟩, -, chain, hchain, hr⟩
    exact ⟨hq, by omega, by omega, chain, ⟨hfits, hchain⟩, hr⟩

theorem pop_checked {q : Virtq} {mem : M} {r : Option (BitVec 16 × List Seg) × Virtq × M} :
    q.pop t mem = some r ↔ q.PopFits mem ∧ q.pop t.wrapping mem = some r := by
  unfold pop PopFits
  split_ifs with hoff
  · exact ⟨fun hr => ⟨fun hon => absurd hoff hon, hr⟩, fun hr => hr.2⟩
  · have h2 : (2 : BitVec 64).toNat = 2 := rfl
    simp only [Option.bind_eq_bind, Target.add_bind_eq_some_iff ht, Target.wrapping_add,
      Option.bind_some, hoff, not_false_iff, true_imp_iff, h2]
    split_ifs with hidle
    · exact ⟨fun hr => ⟨⟨hr.1, fun hne => absurd hidle hne⟩, hr.2⟩, fun hr => ⟨hr.1.1, hr.2⟩⟩
    · simp only [Option.bind_eq_some_iff, take_checked ht]
      constructor
      · rintro ⟨hidx, chain, ⟨hfits, hchain⟩, hr⟩
        exact ⟨⟨hidx, fun _ => hfits⟩, chain, hchain, hr⟩
      · rintro ⟨⟨hidx, hfits⟩, chain, hchain, hr⟩
        exact ⟨hidx, chain, ⟨hfits hidle, hchain⟩, hr⟩

end Virtq

end Checked

/-! ## A pass of a draining loop -/

/-- What makes a function of a device fit makes its version without overflow checks
    total. -/
structure Fitting (serve serveWrapping : Serve τ M) (Fits : τ → M → List Seg → Prop) : Prop where
  checked : ∀ d mem segs r,
    serve d mem segs = some r ↔ Fits d mem segs ∧ serveWrapping d mem segs = some r
  isSome : ∀ d mem segs, Fits d mem segs → ∃ r, serveWrapping d mem segs = some r

/-- A pass fits, where serving a chain does by `Fits`. -/
def PassFits (t : Target) (serve : Serve τ M) (Fits : τ → M → List Seg → Prop)
    (s : Draining τ M) : Prop :=
  s.q.PopFits s.mem ∧ ∀ head segs q mem,
    s.q.pop t.wrapping s.mem = some (some (head, segs), q, mem) →
      Fits s.dev mem segs ∧ ∀ written dev mem', serve s.dev mem segs = some (written, dev, mem') →
        UsedFits q.used (q.num.setWidth 16) mem'

section Pass

variable {t : Target} {serve serveWrapping : Serve τ M} {Fits : τ → M → List Seg → Prop}
  (h : Fitting serve serveWrapping Fits)

include h

theorem drainPass_checked (ht : t.overflowChecks = true) (s : Draining τ M)
    (p : Pass (Draining τ M)) :
    drainPass t serve s = some p ↔
      PassFits t serveWrapping Fits s ∧ drainPass t.wrapping serveWrapping s = some p := by
  unfold drainPass PassFits
  simp only [Option.bind_eq_bind, Option.bind_eq_some_iff, Virtq.pop_checked ht]
  constructor
  · rintro ⟨⟨chain, q, mem⟩, ⟨hfits, hpop⟩, hp⟩
    cases chain with
    | none => exact ⟨⟨hfits, fun _ _ _ _ h' => nomatch hpop.symm.trans h'⟩, _, hpop, hp⟩
    | some chain =>
      simp only [Option.bind_eq_some_iff, h.checked, Virtq.pushUsed, pushUsedAt_checked ht] at hp
      obtain ⟨⟨written, dev, mem'⟩, ⟨hserveFits, hserve⟩, mem'', ⟨hused, hpush⟩, hp⟩ := hp
      refine ⟨⟨hfits, fun head segs q' mem1 hpop' => ?_⟩, _, hpop, ?_⟩
      · cases hpop.symm.trans hpop'
        refine ⟨hserveFits, fun written' dev' mem2 hserve' => ?_⟩
        cases hserve.symm.trans hserve'
        exact hused
      · simp only [Option.bind_eq_some_iff, Virtq.pushUsed]
        exact ⟨_, hserve, _, hpush, hp⟩
  · rintro ⟨⟨hfits, hrest⟩, ⟨chain, q, mem⟩, hpop, hp⟩
    refine ⟨_, ⟨hfits, hpop⟩, ?_⟩
    cases chain with
    | none => exact hp
    | some chain =>
      obtain ⟨hserveFits, hused⟩ := hrest _ _ _ _ hpop
      simp only [Option.bind_eq_some_iff, Virtq.pushUsed] at hp
      obtain ⟨⟨written, dev, mem'⟩, hserve, mem'', hpush, hp⟩ := hp
      simp only [Option.bind_eq_some_iff, h.checked, Virtq.pushUsed, pushUsedAt_checked ht]
      exact ⟨_, ⟨hserveFits, hserve⟩, _, ⟨hused _ _ _ hserve, hpush⟩, hp⟩

theorem drainPass_isSome {s : Draining τ M} (hs : PassFits t serveWrapping Fits s) :
    ∃ p, drainPass t.wrapping serveWrapping s = some p := by
  obtain ⟨hpopFits, hrest⟩ := hs
  obtain ⟨⟨chain, q, mem⟩, hpop⟩ := Virtq.pop_isSome (t := t.wrapping) rfl
    fun hon hmoved => ((hpopFits hon).2 hmoved).1
  unfold drainPass
  rw [hpop, Option.bind_eq_bind, Option.bind_some]
  cases chain with
  | none => exact ⟨_, rfl⟩
  | some chain =>
    obtain ⟨head, segs⟩ := chain
    obtain ⟨hserveFits, hused⟩ := hrest head segs q mem hpop
    obtain ⟨⟨written, dev, mem'⟩, hserve⟩ := h.isSome _ _ _ hserveFits
    obtain ⟨mem'', hpush⟩ := Virtq.pushUsed_isSome (t := t.wrapping) rfl
      (hused _ _ _ hserve).1 mem' head written
    dsimp only
    rw [hserve, Option.bind_eq_bind, Option.bind_some]
    dsimp only
    rw [hpush]
    exact ⟨_, rfl⟩

/-- A draining loop does not panic exactly where every pass fits, and then does what it
    does without overflow checks. -/
theorem run_drainPass_ne_panic_iff (ht : t.overflowChecks = true) {s : Draining τ M} :
    (∀ fuel, run (drainPass t serve) fuel s ≠ .panic) ↔
      Always (drainPass t.wrapping serveWrapping) (PassFits t serveWrapping Fits) s := by
  rw [run_ne_panic_iff (drainPass_checked h ht), and_iff_left_iff_imp]
  intro hfits fuel hpanic
  obtain ⟨n, -, s', hvisits, hnone⟩ := run_eq_panic_iff.mp hpanic
  obtain ⟨p, hp⟩ := drainPass_isSome h (hfits n s' hvisits)
  cases hp.symm.trans hnone

end Pass

end V64.Platform
