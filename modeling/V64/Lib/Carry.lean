import Mathlib.Data.BitVec
import Mathlib.Tactic.Common

/-!
# Addition with a carry

The addition of two words and a carry by unbounded integers, and the four condition flags that
it sets, for words of any width.

* `addWithCarry`: the definition by the exact sums.
* `result_eq`, `c_eq`, `v_eq`: the same in the arithmetic of words.
* `sub_z`, `sub_c`, `sub_n_eq_v`, `sub_v`: what the flags of a subtraction say of its operands.
-/

namespace Carry

/-- A sum and its condition flags. -/
structure Sum (w : ℕ) where
  result : BitVec w
  n : Bool
  z : Bool
  c : Bool
  v : Bool

variable {w : ℕ}

/-- The exact sum of the words as unsigned numbers. -/
def unsignedSum (x y : BitVec w) (carry : Bool) : ℕ := x.toNat + y.toNat + carry.toNat

/-- The exact sum of the words as signed numbers. -/
def signedSum (x y : BitVec w) (carry : Bool) : ℤ := x.toInt + y.toInt + carry.toNat

/-- The sum of `x`, `y` and a carry. C and V say that the result is not the unsigned and the
    signed sum. -/
def addWithCarry (x y : BitVec w) (carry : Bool) : Sum w :=
  let result := BitVec.ofNat w (unsignedSum x y carry)
  { result := result
    n := result.msb
    z := result == 0
    c := decide (result.toNat ≠ unsignedSum x y carry)
    v := decide (result.toInt ≠ signedSum x y carry) }

/-! ## The sum in word arithmetic -/

theorem result_eq (x y : BitVec w) (carry : Bool) :
    (addWithCarry x y carry).result = x + y + BitVec.ofNat w carry.toNat := by
  show BitVec.ofNat w (x.toNat + y.toNat + carry.toNat) = _
  rw [BitVec.ofNat_add, BitVec.ofNat_add, BitVec.ofNat_toNat, BitVec.ofNat_toNat,
    BitVec.setWidth_eq, BitVec.setWidth_eq]

theorem toNat_result (x y : BitVec w) (carry : Bool) :
    (addWithCarry x y carry).result.toNat = unsignedSum x y carry % 2 ^ w := by
  show (BitVec.ofNat w _).toNat = _
  rw [BitVec.toNat_ofNat]

theorem unsignedSum_lt (x y : BitVec w) (carry : Bool) : unsignedSum x y carry < 2 * 2 ^ w := by
  have hx := x.isLt
  have hy := y.isLt
  have hc := carry.toNat_le
  unfold unsignedSum
  omega

/-- The result is the sum, or one modulus below it. -/
theorem toNat_result_cases (x y : BitVec w) (carry : Bool) :
    unsignedSum x y carry < 2 ^ w ∧
        (addWithCarry x y carry).result.toNat = unsignedSum x y carry ∨
      2 ^ w ≤ unsignedSum x y carry ∧
        (addWithCarry x y carry).result.toNat + 2 ^ w = unsignedSum x y carry := by
  have hlt := unsignedSum_lt x y carry
  rw [toNat_result]
  by_cases h : unsignedSum x y carry < 2 ^ w
  · exact .inl ⟨h, Nat.mod_eq_of_lt h⟩
  · rw [Nat.mod_eq_sub_mod (by omega), Nat.mod_eq_of_lt (by omega)]
    exact .inr ⟨by omega, by omega⟩

/-- The carry out. -/
theorem c_eq (x y : BitVec w) (carry : Bool) :
    (addWithCarry x y carry).c = decide (2 ^ w ≤ unsignedSum x y carry) := by
  have hcases := toNat_result_cases x y carry
  have hpos := Nat.two_pow_pos w
  show decide ((addWithCarry x y carry).result.toNat ≠ unsignedSum x y carry) = _
  rw [decide_eq_decide]
  omega

theorem two_pow_eq (hw : 0 < w) : 2 ^ w = 2 * 2 ^ (w - 1) := by
  rw [← Nat.pow_succ', Nat.succ_eq_add_one, Nat.sub_add_cancel hw]

/-- A word as a signed number, by its top bit. -/
theorem toInt_cases (hw : 0 < w) (x : BitVec w) :
    x.msb = false ∧ x.toNat < 2 ^ (w - 1) ∧ x.toInt = x.toNat ∨
      x.msb = true ∧ 2 ^ (w - 1) ≤ x.toNat ∧ x.toInt = x.toNat - (2 * 2 ^ (w - 1) : ℕ) := by
  have hmsb := x.msb_eq_decide
  have hint := x.toInt_eq_msb_cond
  rw [two_pow_eq hw] at hint
  by_cases h : 2 ^ (w - 1) ≤ x.toNat
  · rw [decide_eq_true h] at hmsb
    rw [hmsb, if_pos rfl] at hint
    exact .inr ⟨hmsb, h, hint⟩
  · rw [decide_eq_false h] at hmsb
    rw [hmsb, if_neg Bool.false_ne_true] at hint
    exact .inl ⟨hmsb, by omega, hint⟩

/-- The overflow: both operands differ from the result in sign. -/
theorem v_eq (hw : 0 < w) (x y : BitVec w) (carry : Bool) :
    (addWithCarry x y carry).v =
      ((x ^^^ (addWithCarry x y carry).result) &&&
        (y ^^^ (addWithCarry x y carry).result)).msb := by
  have hcases := toNat_result_cases x y carry
  have hv : (addWithCarry x y carry).v =
      decide ((addWithCarry x y carry).result.toInt ≠ signedSum x y carry) := rfl
  have hc := carry.toNat_le
  have hpow := two_pow_eq hw
  rw [hv, BitVec.msb_and, BitVec.msb_xor, BitVec.msb_xor]
  rw [hpow] at hcases
  unfold unsignedSum at hcases
  unfold signedSum
  generalize (addWithCarry x y carry).result = r at hcases ⊢
  generalize hp : 2 ^ (w - 1) = p at hcases hpow
  have hsign (z : BitVec w) := hp ▸ toInt_cases hw z
  obtain ⟨hx, hxlt, hxi⟩ | ⟨hx, hxlt, hxi⟩ := hsign x <;>
    obtain ⟨hy, hylt, hyi⟩ | ⟨hy, hylt, hyi⟩ := hsign y <;>
    obtain ⟨hr, hrlt, hri⟩ | ⟨hr, hrlt, hri⟩ := hsign r <;>
    rw [hx, hy, hr, hxi, hyi, hri]
  all_goals
    simp only [Bool.xor_self, Bool.xor_false, Bool.xor_true, Bool.not_false, Bool.and_self,
      Bool.and_false, Bool.false_and, decide_eq_true_eq, decide_eq_false_iff_not]
    omega

/-! ## Subtraction -/

/-- The subtraction `x - y`, which adds the complement and one. -/
def subtract (x y : BitVec w) : Sum w := addWithCarry x (~~~y) true

theorem sub_result (x y : BitVec w) : (subtract x y).result = x - y := by
  unfold subtract
  rw [result_eq, BitVec.sub_eq_add_neg, BitVec.neg_eq_not_add, BitVec.add_assoc]
  rfl

theorem sub_z (x y : BitVec w) : (subtract x y).z = decide (x = y) := by
  have hz : (subtract x y).z = ((subtract x y).result == 0) := rfl
  rw [hz, sub_result, Bool.eq_iff_iff, beq_iff_eq, decide_eq_true_iff]
  exact sub_eq_zero

/-- C is set where nothing is borrowed. -/
theorem sub_c (x y : BitVec w) : (subtract x y).c = decide (y ≤ x) := by
  have hx := x.isLt
  have hy := y.isLt
  unfold subtract
  rw [c_eq, decide_eq_decide, BitVec.le_def]
  unfold unsignedSum
  rw [BitVec.toNat_not, Bool.toNat_true]
  omega

theorem toInt_not (hw : 0 < w) (y : BitVec w) : (~~~y).toInt = -y.toInt - 1 := by
  have hy := y.isLt
  have hnot : (~~~y).toNat = 2 * 2 ^ (w - 1) - 1 - y.toNat := by
    rw [BitVec.toNat_not, two_pow_eq hw]
  rw [two_pow_eq hw] at hy
  have hcases := toInt_cases hw y
  have hcases' := toInt_cases hw (~~~y)
  rw [hnot] at hcases'
  generalize 2 ^ (w - 1) = p at *
  omega

theorem signedSum_not (hw : 0 < w) (x y : BitVec w) :
    signedSum x (~~~y) true = x.toInt - y.toInt := by
  unfold signedSum
  rw [toInt_not hw, Bool.toNat_true]
  omega

/-- The difference as a signed number is exact, or the word is a modulus beside it and has the
    other sign. -/
theorem toInt_sub_cases (hw : 0 < w) (x y : BitVec w) :
    -2 ^ (w - 1) ≤ x.toInt - y.toInt ∧ x.toInt - y.toInt < 2 ^ (w - 1) ∧
        (x - y).toInt = x.toInt - y.toInt ∨
      x.toInt - y.toInt < -2 ^ (w - 1) ∧ 0 ≤ (x - y).toInt ∨
      2 ^ (w - 1) ≤ x.toInt - y.toInt ∧ (x - y).toInt < 0 := by
  have hsub : (x - y).toNat + y.toNat = x.toNat ∨ (x - y).toNat + y.toNat = x.toNat + 2 ^ w := by
    have hx := x.isLt
    have hy := y.isLt
    rw [BitVec.toNat_sub]
    by_cases hle : y.toNat ≤ x.toNat
    · rw [Nat.mod_eq_sub_mod (by omega), Nat.mod_eq_of_lt (by omega)]
      omega
    · rw [Nat.mod_eq_of_lt (by omega)]
      omega
  have hx := toInt_cases hw x
  have hy := toInt_cases hw y
  have hr := toInt_cases hw (x - y)
  have hpow := two_pow_eq hw
  rw [hpow] at hsub
  have hcast : ((2 ^ (w - 1) : ℕ) : ℤ) = 2 ^ (w - 1) := by push_cast; rfl
  rw [← hcast]
  generalize 2 ^ (w - 1) = p at hx hy hr hsub hpow
  omega

/-- V is set where the difference is not a signed number of the width. -/
theorem sub_v (hw : 0 < w) (x y : BitVec w) :
    (subtract x y).v =
      !decide (-2 ^ (w - 1) ≤ x.toInt - y.toInt ∧ x.toInt - y.toInt < 2 ^ (w - 1)) := by
  have hv : (subtract x y).v =
      decide ((subtract x y).result.toInt ≠ signedSum x (~~~y) true) := rfl
  have hcases := toInt_sub_cases hw x y
  have hpos : (0 : ℤ) < 2 ^ (w - 1) := Int.pow_pos (by decide)
  rw [hv, sub_result, signedSum_not hw, ← decide_not, decide_eq_decide]
  omega

/-- N is the sign of the difference as it is truncated. -/
theorem sub_n (x y : BitVec w) : (subtract x y).n = decide ((x - y).toInt < 0) := by
  rw [← sub_result, ← BitVec.msb_eq_toInt]
  rfl

/-- N differs from V where the exact difference is negative. -/
theorem sub_n_eq_v (hw : 0 < w) (x y : BitVec w) :
    ((subtract x y).n == (subtract x y).v) = decide (y.toInt ≤ x.toInt) := by
  have hcases := toInt_sub_cases hw x y
  have hpos : (0 : ℤ) < 2 ^ (w - 1) := Int.pow_pos (by decide)
  rw [sub_n, sub_v hw, Bool.eq_iff_iff, beq_iff_eq, Bool.eq_iff_iff, Bool.not_eq_true',
    decide_eq_true_iff, decide_eq_true_iff, decide_eq_false_iff_not]
  omega

end Carry
