import Mathlib.Data.BitVec
import Mathlib.Tactic.Common
import Mathlib.Tactic.LinearCombination
import Mathlib.Tactic.Ring

/-!
# Word arithmetic in 64-bit registers

Identities for code that has 64-bit operations only: operations on the low word
of a register, and the high half of a product.

* `getLsbD_ones`: the bits of a run of ones.
* `and_mask`: masking to the low word is truncation and zero extension.
* `sshiftRight_mask`, `rotateRight_mask`, `extract_mask`: shifts of a word.
* `umulh`, `smulh`: the high half of a product from 32-bit half products.
* `udiv`, `sdiv`: word division by a 64-bit division.
-/

namespace Words

/-! ## Masks -/

/-- `(1 << k) - 1` is `k` ones. -/
theorem getLsbD_ones {n k : ℕ} (hk : k < n) (i : ℕ) :
    (((1 <<< k : ℕ) : BitVec n) - 1).getLsbD i = decide (i < k) := by
  have hpow : 2 ^ k < 2 ^ n := Nat.pow_lt_pow_right (by decide) hk
  have hpos : 0 < 2 ^ k := Nat.two_pow_pos k
  have hone : (1 : BitVec n).toNat = 1 := by
    show 1 % 2 ^ n = 1
    exact Nat.mod_eq_of_lt (by omega)
  have hshift : ((1 <<< k : ℕ) : BitVec n).toNat = 2 ^ k := by
    rw [BitVec.natCast_eq_ofNat, BitVec.toNat_ofNat, Nat.one_shiftLeft, Nat.mod_eq_of_lt hpow]
  have hmask : ((1 <<< k : ℕ) : BitVec n) - 1 = (BitVec.allOnes k).setWidth n := by
    apply BitVec.eq_of_toNat_eq
    have hle : (1 : BitVec n) ≤ ((1 <<< k : ℕ) : BitVec n) := by
      rw [BitVec.le_def, hshift, hone]
      exact hpos
    rw [BitVec.toNat_setWidth, BitVec.toNat_allOnes, BitVec.toNat_sub_of_le hle, hshift, hone,
      Nat.mod_eq_of_lt (by omega)]
  rw [hmask, BitVec.getLsbD_setWidth, BitVec.getLsbD_allOnes, Bool.and_eq_right_iff_imp]
  intro hi
  have hlt := of_decide_eq_true hi
  exact decide_eq_true (by omega)

/-! ## The low word -/

theorem getLsbD_mask (i : ℕ) : (0xffffffff#64).getLsbD i = decide (i < 32) := by
  have hmask : (0xffffffff#64) = (BitVec.allOnes 32).setWidth 64 := by decide
  rw [hmask, BitVec.getLsbD_setWidth, BitVec.getLsbD_allOnes]
  by_cases h : i < 32
  · simp [h, show i < 64 by omega]
  · simp [h]

theorem and_mask (v : BitVec 64) : v &&& 0xffffffff#64 = (v.setWidth 32).setWidth 64 := by
  apply BitVec.eq_of_getLsbD_eq
  intro i hi
  rw [BitVec.getLsbD_and, getLsbD_mask, BitVec.getLsbD_setWidth, BitVec.getLsbD_setWidth]
  by_cases h : i < 32 <;> simp [h, hi]

theorem toNat_and_mask (v : BitVec 64) : (v &&& 0xffffffff#64).toNat = v.toNat % 2 ^ 32 := by
  rw [and_mask, BitVec.toNat_setWidth, BitVec.toNat_setWidth]
  omega

theorem toNat_high (v : BitVec 64) : (v >>> 32).toNat = v.toNat / 2 ^ 32 := by
  rw [BitVec.toNat_ushiftRight, Nat.shiftRight_eq_div_pow]

theorem setWidth_and_mask (v : BitVec 64) : (v &&& 0xffffffff#64).setWidth 32 = v.setWidth 32 := by
  rw [and_mask, BitVec.setWidth_setWidth_of_le _ (by decide), BitVec.setWidth_eq]

/-- Complement, by code that has no such operator. -/
theorem xor_ones (v : BitVec 64) : v ^^^ 0xffffffffffffffff#64 = ~~~v := BitVec.xor_allOnes

/-- Negation, by code that has no such operator. -/
theorem mul_ones (v : BitVec 64) : v * 0xffffffffffffffff#64 = -v := mul_neg_one v

/-! ## Shifts -/

theorem shiftLeft_mask (x : BitVec 32) (k : ℕ) :
    x.setWidth 64 <<< k &&& 0xffffffff#64 = (x <<< k).setWidth 64 := by
  apply BitVec.eq_of_getLsbD_eq
  intro i hi
  simp only [BitVec.getLsbD_and, getLsbD_mask, BitVec.getLsbD_setWidth, BitVec.getLsbD_shiftLeft]
  grind

/-- An arithmetic shift of the word, done at the top of the register. -/
theorem sshiftRight_mask (v : BitVec 64) (k : ℕ) :
    (v <<< 32).sshiftRight (32 + k) &&& 0xffffffff#64 =
      ((v.setWidth 32).sshiftRight k).setWidth 64 := by
  apply BitVec.eq_of_getLsbD_eq
  intro i hi
  simp only [BitVec.getLsbD_and, getLsbD_mask, BitVec.getLsbD_setWidth, BitVec.getLsbD_sshiftRight,
    BitVec.getLsbD_shiftLeft, BitVec.msb_eq_getLsbD_last]
  grind

theorem rotateRight_mask (x : BitVec 32) {k : ℕ} (hk : 0 < k ∧ k < 32) :
    (x.setWidth 64 >>> k) ||| (x.setWidth 64 <<< (32 - k) &&& 0xffffffff#64) =
      (x.rotateRight k).setWidth 64 := by
  apply BitVec.eq_of_getLsbD_eq
  intro i hi
  simp only [BitVec.getLsbD_and, BitVec.getLsbD_or, getLsbD_mask, BitVec.getLsbD_setWidth,
    BitVec.getLsbD_ushiftRight, BitVec.getLsbD_shiftLeft, BitVec.getLsbD_rotateRight]
  rw [Nat.mod_eq_of_lt hk.2]
  grind

/-- The low word of a two-word shift. -/
theorem extract_mask (m n : BitVec 32) (k : ℕ) :
    (m.setWidth 64 >>> k) ||| (n.setWidth 64 <<< (32 - k) &&& 0xffffffff#64) =
      ((m >>> k) ||| (n <<< (32 - k))).setWidth 64 := by
  apply BitVec.eq_of_getLsbD_eq
  intro i hi
  simp only [BitVec.getLsbD_and, BitVec.getLsbD_or, getLsbD_mask, BitVec.getLsbD_setWidth,
    BitVec.getLsbD_ushiftRight, BitVec.getLsbD_shiftLeft]
  grind

/-- Sign extension as a pair of shifts. -/
theorem signExtend_setWidth (v : BitVec 64) {k : ℕ} (hpos : 0 < k) (hk : k ≤ 64) :
    (v.setWidth k).signExtend 64 = (v <<< (64 - k)).sshiftRight (64 - k) := by
  apply BitVec.eq_of_getLsbD_eq
  intro i hi
  rw [BitVec.getLsbD_signExtend, BitVec.getLsbD_sshiftRight]
  by_cases hik : i < k
  · have hsum : 64 - k + i < 64 := by omega
    have hsub : 64 - k + i - (64 - k) = i := by omega
    simp [hik, hi, hsum, hsub]
  · have hsum : ¬ 64 - k + i < 64 := by omega
    have hsub : 63 - (64 - k) = k - 1 := by omega
    have hlt : k - 1 < k := by omega
    have h64 : ¬ 64 ≤ i := by omega
    have hbit : v.getLsbD (k - 1) = v[k - 1] := BitVec.getLsbD_eq_getElem (by omega)
    have hge : ¬ 63 < 64 - k := by omega
    simp [hik, hi, hsum, BitVec.msb_eq_getLsbD_last, hlt, hsub, hge, h64, hbit]

/-! ## Products -/

/-- The high half of a product from half products: the middle column collects
what carries into the high half. -/
def mulHigh (a b : BitVec 64) : BitVec 64 :=
  let lh := (a &&& 0xffffffff#64) * (b >>> 32)
  let hl := (a >>> 32) * (b &&& 0xffffffff#64)
  let hh := (a >>> 32) * (b >>> 32)
  let ll := (a &&& 0xffffffff#64) * (b &&& 0xffffffff#64)
  hh + (lh >>> 32) + (hl >>> 32) +
    (((ll >>> 32) + (lh &&& 0xffffffff#64) + (hl &&& 0xffffffff#64)) >>> 32)

theorem mulHigh_nat (al ah bl bh : ℕ) :
    ah * bh + al * bh / 2 ^ 32 + ah * bl / 2 ^ 32 +
        (al * bl / 2 ^ 32 + al * bh % 2 ^ 32 + ah * bl % 2 ^ 32) / 2 ^ 32 =
      (ah * 2 ^ 32 + al) * (bh * 2 ^ 32 + bl) / 2 ^ 64 := by
  have hprod : (ah * 2 ^ 32 + al) * (bh * 2 ^ 32 + bl) =
      ah * bh * 2 ^ 64 + al * bh * 2 ^ 32 + ah * bl * 2 ^ 32 + al * bl := by ring
  rw [hprod]
  generalize ah * bh = hh
  generalize al * bh = lh
  generalize ah * bl = hl
  generalize al * bl = ll
  omega

theorem toNat_mulHigh (a b : BitVec 64) : (mulHigh a b).toNat = a.toNat * b.toNat / 2 ^ 64 := by
  have ha := a.isLt
  have hb := b.isLt
  have hlt {x y : ℕ} (hx : x < 2 ^ 32) (hy : y < 2 ^ 32) :
      x * y ≤ (2 ^ 32 - 1) * (2 ^ 32 - 1) := Nat.mul_le_mul (by omega) (by omega)
  have hal : a.toNat % 2 ^ 32 < 2 ^ 32 := Nat.mod_lt _ (by decide)
  have hah : a.toNat / 2 ^ 32 < 2 ^ 32 := by omega
  have hbl : b.toNat % 2 ^ 32 < 2 ^ 32 := Nat.mod_lt _ (by decide)
  have hbh : b.toNat / 2 ^ 32 < 2 ^ 32 := by omega
  have hspec := mulHigh_nat (a.toNat % 2 ^ 32) (a.toNat / 2 ^ 32) (b.toNat % 2 ^ 32)
    (b.toNat / 2 ^ 32)
  have hsplit (n : ℕ) : n / 2 ^ 32 * 2 ^ 32 + n % 2 ^ 32 = n := by omega
  rw [hsplit, hsplit] at hspec
  rw [← hspec]
  have hll := hlt hal hbl
  have hlh := hlt hal hbh
  have hhl := hlt hah hbl
  have hhh := hlt hah hbh
  simp only [mulHigh, BitVec.toNat_add, BitVec.toNat_mul, toNat_high, toNat_and_mask]
  generalize a.toNat / 2 ^ 32 * (b.toNat / 2 ^ 32) = hh at *
  generalize a.toNat % 2 ^ 32 * (b.toNat / 2 ^ 32) = lh at *
  generalize a.toNat / 2 ^ 32 * (b.toNat % 2 ^ 32) = hl at *
  generalize a.toNat % 2 ^ 32 * (b.toNat % 2 ^ 32) = ll at *
  omega

theorem umulh (a b : BitVec 64) :
    mulHigh a b = ((a.setWidth 128 * b.setWidth 128) >>> 64).setWidth 64 := by
  apply BitVec.eq_of_toNat_eq
  have ha := a.isLt
  have hb := b.isLt
  have hab : a.toNat * b.toNat < 2 ^ 64 * 2 ^ 64 := Nat.mul_lt_mul'' ha hb
  rw [toNat_mulHigh, BitVec.toNat_setWidth, BitVec.toNat_ushiftRight, BitVec.toNat_mul,
    BitVec.toNat_setWidth, BitVec.toNat_setWidth, Nat.shiftRight_eq_div_pow,
    Nat.mod_eq_of_lt (show a.toNat < 2 ^ 128 by omega),
    Nat.mod_eq_of_lt (show b.toNat < 2 ^ 128 by omega)]
  generalize a.toNat * b.toNat = p at *
  omega

theorem setWidth_add_shiftLeft (x y : BitVec 128) :
    ((x + y <<< 64) >>> 64).setWidth 64 = (x >>> 64).setWidth 64 + y.setWidth 64 := by
  apply BitVec.eq_of_toNat_eq
  simp only [BitVec.toNat_setWidth, BitVec.toNat_ushiftRight, BitVec.toNat_add,
    BitVec.toNat_shiftLeft, Nat.shiftRight_eq_div_pow, Nat.shiftLeft_eq]
  omega

theorem sshiftRight_63_and (a b : BitVec 64) :
    a.sshiftRight 63 &&& b = if a.msb then b else 0 := by
  apply BitVec.eq_of_getLsbD_eq
  intro i hi
  have hsign : (a.sshiftRight 63).getLsbD i = a.msb := by
    rw [BitVec.getLsbD_sshiftRight, BitVec.msb_eq_getLsbD_last]
    by_cases h0 : i = 0
    · simp [h0]
    · simp [show ¬ 63 + i < 64 by omega, hi]
  rw [BitVec.getLsbD_and, hsign]
  cases a.msb <;> simp

theorem signExtend_of_msb {a : BitVec 64} (h : a.msb = true) :
    a.signExtend 128 = a.setWidth 128 - BitVec.twoPow 128 64 := by
  apply BitVec.eq_of_toNat_eq
  have ha := a.isLt
  rw [BitVec.toNat_signExtend, if_pos h, BitVec.toNat_sub, BitVec.toNat_setWidth,
    BitVec.toNat_twoPow]
  omega

/-- A signed product is the unsigned one, less each operand that the other's
sign takes away from the high half. -/
theorem smulh (a b : BitVec 64) :
    mulHigh a b - ((a.sshiftRight 63 &&& b) + (b.sshiftRight 63 &&& a)) =
      ((a.signExtend 128 * b.signExtend 128) >>> 64).setWidth 64 := by
  have hsq : BitVec.twoPow 128 64 * BitVec.twoPow 128 64 = 0 := by decide
  have ha128 : (a.setWidth 128).setWidth 64 = a := BitVec.setWidth_setWidth_of_le _ (by decide)
  have hb128 : (b.setWidth 128).setWidth 64 = b := BitVec.setWidth_setWidth_of_le _ (by decide)
  have key (c : BitVec 128)
      (hc : a.signExtend 128 * b.signExtend 128 = a.setWidth 128 * b.setWidth 128 + c <<< 64) :
      ((a.signExtend 128 * b.signExtend 128) >>> 64).setWidth 64 = mulHigh a b + c.setWidth 64 := by
    rw [hc, setWidth_add_shiftLeft, umulh]
  rw [sshiftRight_63_and, sshiftRight_63_and]
  cases ha : a.msb <;> cases hb : b.msb
  · have ha' : a.signExtend 128 = a.setWidth 128 :=
      BitVec.signExtend_eq_setWidth_of_msb_false ha
    have hb' : b.signExtend 128 = b.setWidth 128 :=
      BitVec.signExtend_eq_setWidth_of_msb_false hb
    rw [key 0 (by rw [ha', hb']; simp)]
    simp
  · have ha' : a.signExtend 128 = a.setWidth 128 :=
      BitVec.signExtend_eq_setWidth_of_msb_false ha
    rw [key (-a.setWidth 128), BitVec.setWidth_neg_of_le (by decide), ha128]
    · simp [BitVec.sub_eq_add_neg]
    · rw [ha', signExtend_of_msb hb, BitVec.shiftLeft_eq_mul_twoPow]
      ring
  · have hb' : b.signExtend 128 = b.setWidth 128 :=
      BitVec.signExtend_eq_setWidth_of_msb_false hb
    rw [key (-b.setWidth 128), BitVec.setWidth_neg_of_le (by decide), hb128]
    · simp [BitVec.sub_eq_add_neg]
    · rw [signExtend_of_msb ha, hb', BitVec.shiftLeft_eq_mul_twoPow]
      ring
  · rw [key (-(a.setWidth 128 + b.setWidth 128)), BitVec.setWidth_neg_of_le (by decide),
      BitVec.setWidth_add _ _ (by decide), ha128, hb128]
    · rw [if_pos rfl, if_pos rfl, BitVec.sub_eq_add_neg, BitVec.add_comm b a]
    · rw [signExtend_of_msb ha, signExtend_of_msb hb, BitVec.shiftLeft_eq_mul_twoPow]
      linear_combination hsq

/-! ## Quotients -/

theorem udiv (n m : BitVec 32) : n.setWidth 64 / m.setWidth 64 = (n / m).setWidth 64 := by
  apply BitVec.eq_of_toNat_eq
  have hn := n.isLt
  have hm := m.isLt
  have hq : n.toNat / m.toNat ≤ n.toNat := Nat.div_le_self _ _
  rw [BitVec.toNat_udiv, BitVec.toNat_setWidth, BitVec.toNat_setWidth, BitVec.toNat_setWidth,
    BitVec.toNat_udiv, Nat.mod_eq_of_lt (by omega), Nat.mod_eq_of_lt (by omega),
    Nat.mod_eq_of_lt (by omega)]

theorem setWidth_signExtend (x : BitVec 32) : (x.signExtend 64).setWidth 32 = x := by
  apply BitVec.eq_of_getLsbD_eq
  intro i hi
  rw [BitVec.getLsbD_setWidth, BitVec.getLsbD_signExtend]
  simp [hi, show i < 64 by omega]

theorem sdiv {n m : BitVec 32} (h : n ≠ BitVec.intMin 32 ∨ m ≠ -1) :
    ((n.signExtend 64).sdiv (m.signExtend 64)).setWidth 32 = n.sdiv m := by
  have hint (x : BitVec 32) : (x.signExtend 64).toInt = x.toInt :=
    BitVec.toInt_signExtend_of_le (by decide)
  have hquot : (n.signExtend 64).sdiv (m.signExtend 64) = (n.sdiv m).signExtend 64 := by
    apply BitVec.eq_of_toInt_eq
    rw [hint, BitVec.toInt_sdiv_of_ne_or_ne _ _ h, BitVec.toInt_sdiv_of_ne_or_ne, hint, hint]
    -- a sign-extended word is never the least 64-bit value
    left
    intro he
    have hmin := congrArg BitVec.toInt he
    rw [hint, show (BitVec.intMin 64).toInt = -2 ^ 63 by decide] at hmin
    have hle := BitVec.le_toInt n
    omega
  rw [hquot, setWidth_signExtend]

/-! ## Halves -/

theorem append_halves (v : BitVec 128) : (v >>> 64).setWidth 64 ++ v.setWidth 64 = v := by
  ext k hk
  rw [BitVec.getElem_append]
  rcases Nat.lt_or_ge k 64 with hlow | hhigh
  · simp [hlow, BitVec.getLsbD_eq_getElem hk]
  · have hsum : 64 + (k - 64) = k := by omega
    have hlt : k - 64 < 64 := by omega
    simp [Nat.not_lt.mpr hhigh, hsum, BitVec.getLsbD_eq_getElem hk]

end Words
