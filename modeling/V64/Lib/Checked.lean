import Mathlib.Algebra.Order.Ring.Nat
import Mathlib.Data.BitVec
import Mathlib.Logic.Function.Basic
import Mathlib.Tactic.Common

/-!
# Fixed-width arithmetic of a build

Arithmetic that panics on overflow in a build with overflow checks and wraps in
one without. A panic is `none`. `usize` is as wide as the host's addresses.

* `Target.add_of_wrap`, `Target.mul_of_wrap`: without checks nothing panics.
* `Target.add_of_lt`, `Target.sub_of_le`: where nothing overflows the two builds agree.
* `Target.add_eq_some_iff`, `Target.mul_eq_some_iff`: with checks, what is left of the
  build without.
* `Target.sum_eq_some_iff`: the same for the sum of a list.
* `Target.add_iff`, `Target.sub_iff`, `Target.mul_iff`: the result in any build.
* `Target.signed_of_range`: signed arithmetic that does not overflow is exact.
* `rem_eq_some`: a remainder by zero panics in every build.
-/

namespace Checked

/-- What the arithmetic of a build depends on. -/
structure Target where
  overflowChecks : Bool
  usizeBits : ℕ
  usize : usizeBits = 32 ∨ usizeBits = 64

namespace Target

variable {w : ℕ} (t : Target) (a b : BitVec w)

/-- The build without overflow checks for the same host. -/
abbrev wrapping : Target := { t with overflowChecks := false }

/-- A release build, and one with overflow checks, for a 64-bit host. -/
def release64 : Target := ⟨false, 64, .inr rfl⟩

@[inherit_doc release64] def debug64 : Target := ⟨true, 64, .inr rfl⟩

theorem overflowChecks_release64 : release64.overflowChecks = false := rfl

/-- The type `usize`. -/
abbrev Usize : Type := BitVec t.usizeBits

/-- `a + b`. -/
def add : Option (BitVec w) :=
  if t.overflowChecks ∧ 2 ^ w ≤ a.toNat + b.toNat then none else some (a + b)

/-- `a - b`. -/
def sub : Option (BitVec w) :=
  if t.overflowChecks ∧ a.toNat < b.toNat then none else some (a - b)

/-- `a * b`. -/
def mul : Option (BitVec w) :=
  if t.overflowChecks ∧ 2 ^ w ≤ a.toNat * b.toNat then none else some (a * b)

/-- The sum of a list, as an iterator's `sum` computes it. -/
def sum (l : List (BitVec w)) : Option (BitVec w) := l.foldlM t.add 0

theorem le_usizeBits : 32 ≤ t.usizeBits := by
  rcases t.usize with h | h <;> omega

variable {t a b}

/-- A number of 32 bits as a `usize`. -/
theorem toNat_ofNat_usize {k : ℕ} (hk : k < 2 ^ 32) : (BitVec.ofNat t.usizeBits k).toNat = k := by
  have hbits : 2 ^ 32 ≤ 2 ^ t.usizeBits := Nat.pow_le_pow_right (by decide) t.le_usizeBits
  rw [BitVec.toNat_ofNat, Nat.mod_eq_of_lt (by omega)]

theorem add_of_wrap (h : t.overflowChecks = false) : t.add a b = some (a + b) := by
  unfold add
  rw [if_neg (by simp [h])]

theorem mul_of_wrap (h : t.overflowChecks = false) : t.mul a b = some (a * b) := by
  unfold mul
  rw [if_neg (by simp [h])]

theorem sum_of_wrap (h : t.overflowChecks = false) (l : List (BitVec w)) :
    t.sum l = some l.sum := by
  have hadd : t.add = fun a b : BitVec w => some (a + b) := by
    funext a b
    exact add_of_wrap h
  unfold sum
  rw [hadd, List.sum_eq_foldl]
  exact List.foldlM_pure

theorem add_of_lt (h : a.toNat + b.toNat < 2 ^ w) : t.add a b = some (a + b) := by
  unfold add
  rw [if_neg fun hover => Nat.not_le_of_lt h hover.2]

theorem sub_of_le (h : b.toNat ≤ a.toNat) : t.sub a b = some (a - b) := by
  unfold sub
  rw [if_neg fun hunder => Nat.not_lt_of_le h hunder.2]

/-- A build without overflow checks is its own version without them. -/
theorem wrapping_of_unchecked {t : Target} (h : t.overflowChecks = false) : t.wrapping = t := by
  rw [wrapping, ← h]

@[simp] theorem wrapping_add : t.wrapping.add a b = some (a + b) := add_of_wrap rfl

@[simp] theorem wrapping_mul : t.wrapping.mul a b = some (a * b) := mul_of_wrap rfl

theorem add_eq_some_iff (h : t.overflowChecks = true) {c : BitVec w} :
    t.add a b = some c ↔ a.toNat + b.toNat < 2 ^ w ∧ t.wrapping.add a b = some c := by
  unfold add
  simp only [h, true_and, Bool.false_eq_true, false_and, if_false,
    Option.ite_none_left_eq_some, Nat.not_le]

theorem mul_eq_some_iff (h : t.overflowChecks = true) {c : BitVec w} :
    t.mul a b = some c ↔ a.toNat * b.toNat < 2 ^ w ∧ t.wrapping.mul a b = some c := by
  unfold mul
  simp only [h, true_and, Bool.false_eq_true, false_and, if_false,
    Option.ite_none_left_eq_some, Nat.not_le]

/-- A computation that goes on from a checked sum. -/
theorem add_bind_eq_some_iff (h : t.overflowChecks = true) {α : Type} {f : BitVec w → Option α}
    {r : α} : (t.add a b).bind f = some r ↔ a.toNat + b.toNat < 2 ^ w ∧ f (a + b) = some r := by
  rw [Option.bind_eq_some_iff]
  simp only [add_eq_some_iff h, wrapping_add, Option.some.injEq, and_assoc, exists_and_left,
    exists_eq_left']

/-- A computation that goes on from a checked product. -/
theorem mul_bind_eq_some_iff (h : t.overflowChecks = true) {α : Type} {f : BitVec w → Option α}
    {r : α} : (t.mul a b).bind f = some r ↔ a.toNat * b.toNat < 2 ^ w ∧ f (a * b) = some r := by
  rw [Option.bind_eq_some_iff]
  simp only [mul_eq_some_iff h, wrapping_mul, Option.some.injEq, and_assoc, exists_and_left,
    exists_eq_left']

/-- A sum in any build. -/
theorem add_iff {c : BitVec w} :
    t.add a b = some c ↔ (t.overflowChecks = true → a.toNat + b.toNat < 2 ^ w) ∧ a + b = c := by
  unfold add
  simp only [Option.ite_none_left_eq_some, Option.some.injEq, not_and, Nat.not_le]

/-- A difference in any build. -/
theorem sub_iff {c : BitVec w} :
    t.sub a b = some c ↔ (t.overflowChecks = true → b.toNat ≤ a.toNat) ∧ a - b = c := by
  unfold sub
  simp only [Option.ite_none_left_eq_some, Option.some.injEq, not_and, Nat.not_lt]

/-- A product in any build. -/
theorem mul_iff {c : BitVec w} :
    t.mul a b = some c ↔ (t.overflowChecks = true → a.toNat * b.toNat < 2 ^ w) ∧ a * b = c := by
  unfold mul
  simp only [Option.ite_none_left_eq_some, Option.some.injEq, not_and, Nat.not_le]

/-- With checks, a sum is computed where it fits its type. -/
theorem sum_eq_some_iff (h : t.overflowChecks = true) {l : List (BitVec w)} {c : BitVec w} :
    t.sum l = some c ↔ (l.map BitVec.toNat).sum < 2 ^ w ∧ t.wrapping.sum l = some c := by
  have hfold : ∀ a : BitVec w, l.foldlM t.add a = some c ↔
      a.toNat + (l.map BitVec.toNat).sum < 2 ^ w ∧ l.foldlM t.wrapping.add a = some c := by
    induction l with
    | nil => exact fun a => ⟨fun hc => ⟨a.isLt, hc⟩, fun hc => hc.2⟩
    | cons b l ih =>
      intro a
      simp only [List.foldlM_cons, Option.bind_eq_bind, add_bind_eq_some_iff h, ih, wrapping_add,
        Option.bind_some, List.map_cons, List.sum_cons]
      constructor
      · rintro ⟨hab, hrest, hc⟩
        rw [BitVec.toNat_add_of_lt hab] at hrest
        exact ⟨by omega, hc⟩
      · rintro ⟨hfits, hc⟩
        have hab : a.toNat + b.toNat < 2 ^ w := by omega
        rw [BitVec.toNat_add_of_lt hab]
        exact ⟨hab, by omega, hc⟩
  have hzero : (0 : BitVec w).toNat = 0 := BitVec.toNat_zero
  unfold sum
  rw [hfold, hzero, Nat.zero_add]

/-- Where the sum fits, it is the sum. -/
theorem toNat_sum {l : List (BitVec w)} (hl : (l.map BitVec.toNat).sum < 2 ^ w) :
    l.sum.toNat = (l.map BitVec.toNat).sum := by
  induction l with
  | nil => exact BitVec.toNat_zero
  | cons b l ih =>
    rw [List.map_cons, List.sum_cons] at hl
    have hrest := ih (by omega)
    rw [List.sum_cons, List.map_cons, List.sum_cons, BitVec.toNat_add_of_lt (by omega), hrest]

/-! ## Signed arithmetic -/

/-- The exact result `v` of an operation on signed numbers of `w` bits, as the build
    computes it. A left shift that loses bits counts as an overflow. -/
def signed (t : Target) (w : ℕ) (v : ℤ) : Option ℤ :=
  if t.overflowChecks ∧ ¬ (-2 ^ (w - 1) ≤ v ∧ v < 2 ^ (w - 1)) then none
  else some (v.bmod (2 ^ w))

/-- A result in the range of its type is the result in every build. -/
theorem signed_of_range {w : ℕ} {v : ℤ} (hw : 0 < w) (hlo : -2 ^ (w - 1) ≤ v)
    (hhi : v < 2 ^ (w - 1)) : t.signed w v = some v := by
  have hpow : (2 : ℤ) ^ w = 2 ^ (w - 1) * 2 := by
    rw [← pow_succ, Nat.sub_add_cancel hw]
  unfold signed
  rw [if_neg fun h => h.2 ⟨hlo, hhi⟩, Int.bmod_eq_of_le_mul_two]
  · push_cast
    omega
  · push_cast
    omega

end Target

/-- A computation that goes on from one that panics more often. -/
theorem bind_checked_iff {α β : Type} {f f' : Option α} {Fits : Prop}
    (h : ∀ a, f = some a ↔ Fits ∧ f' = some a) {k : α → Option β} {r : β} :
    f.bind k = some r ↔ Fits ∧ f'.bind k = some r := by
  simp only [Option.bind_eq_some_iff, h, and_assoc, exists_and_left]

/-- A computation that goes on from one whose value is known where it does not panic. -/
theorem bind_value_iff {α β : Type} {f : Option α} {v : α} {Fits : Prop}
    (h : ∀ a, f = some a ↔ Fits ∧ v = a) {k : α → Option β} {r : β} :
    f.bind k = some r ↔ Fits ∧ k v = some r := by
  simp only [Option.bind_eq_some_iff, h, and_assoc, exists_and_left, exists_eq_left']

/-- The same where what follows panics more often too. -/
theorem bind_checked {α β : Type} {f f' : Option α} {k k' : α → Option β} {F : Prop} {G : α → Prop}
    (hf : ∀ a, f = some a ↔ F ∧ f' = some a) (hk : ∀ a r, k a = some r ↔ G a ∧ k' a = some r)
    {r : β} : f.bind k = some r ↔ (F ∧ ∀ a, f' = some a → G a) ∧ f'.bind k' = some r := by
  simp only [Option.bind_eq_some_iff, hf, hk]
  constructor
  · rintro ⟨a, ⟨hF, ha⟩, hG, hr⟩
    refine ⟨⟨hF, fun a' ha' => ?_⟩, a, ha, hr⟩
    cases ha.symm.trans ha'
    exact hG
  · rintro ⟨⟨hF, hG⟩, a, ha, hr⟩
    exact ⟨a, ⟨hF, ha⟩, hG a ha, hr⟩

/-- `a % b`. -/
def rem {w : ℕ} (a b : BitVec w) : Option (BitVec w) := if b = 0 then none else some (a % b)

theorem rem_eq_some {w : ℕ} {a b : BitVec w} (h : b ≠ 0) : rem a b = some (a % b) := if_neg h

theorem rem_bind_eq_some_iff {w : ℕ} {a b : BitVec w} {α : Type} {f : BitVec w → Option α} {r : α} :
    (rem a b).bind f = some r ↔ b ≠ 0 ∧ f (a % b) = some r := by
  unfold rem
  split_ifs with h
  · exact ⟨nofun, fun hr => absurd h hr.1⟩
  · exact (and_iff_right h).symm

/-- `l[lo..hi]`: a range that is not inside the slice panics in every build. -/
def subslice {α : Type} (l : List α) (lo hi : ℕ) : Option (List α) :=
  if lo ≤ hi ∧ hi ≤ l.length then some ((l.drop lo).take (hi - lo)) else none

theorem subslice_eq_some {α : Type} {l : List α} {lo hi : ℕ} (hlo : lo ≤ hi) (hhi : hi ≤ l.length) :
    subslice l lo hi = some ((l.drop lo).take (hi - lo)) := if_pos ⟨hlo, hhi⟩

end Checked
