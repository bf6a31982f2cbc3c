import V64.Decoder.VecFields
import V64.Interp.Simd.LaneFacts
import V64.Interp.Simd.Unit
import V64.Platform.Bus

/-!
# Shifts by a register

SSHL, USHL, SRSHL, URSHL and their saturating forms against shifts of integers: left is a
product with a power of two, and right is a floor, or a rounding half up.

* `shiftValue`: the exact shift.
* `exists_regShift`, `exists_satRegShift`: the shifts of the code, where no intermediate
  result leaves `i128`.
* `execute_regShift`: the instructions on registers.
-/

namespace V64.Interp.Simd

open V64.Cpu V64.Decoder V64.Platform Checked

/-! ## Exact shifts -/

/-- The exact shift of `v` by `sh`, left where `sh` is not negative. -/
def shiftValue (rounding : Bool) (v sh : ℤ) : ℤ :=
  if 0 ≤ sh then v * 2 ^ sh.toNat
  else if rounding then (v + 2 ^ ((-sh).toNat - 1)) / 2 ^ (-sh).toNat
  else v / 2 ^ (-sh).toNat

variable {e : ℕ}

/-- The value of a lane, as an unsigned or a signed number. -/
def laneValue (u : Bool) (x : BitVec e) : ℤ := if u then x.toNat else x.toInt

/-- `v` in the range of a lane. -/
def saturate (u : Bool) (e : ℕ) (v : ℤ) : ℤ :=
  if u then max 0 (min v (2 ^ e - 1)) else max (-2 ^ (e - 1)) (min v (2 ^ (e - 1) - 1))

/-- The lane that a register shift leaves for the lane `x` and the shift in `y`. -/
def shiftLane (saturating rounding u : Bool) (x y : BitVec e) : BitVec e :=
  let v := shiftValue rounding (laneValue u x) (y.setWidth 8).toInt
  BitVec.ofInt e (if saturating then saturate u e v else v)

/-! ## Bounds -/

theorem two_pow_pos (k : ℕ) : (0 : ℤ) < 2 ^ k := by
  exact_mod_cast Nat.two_pow_pos k

theorem two_pow_le (he : e ≤ 64) : (2 : ℤ) ^ e ≤ 2 ^ 64 := by
  exact_mod_cast Nat.pow_le_pow_right (by decide) he

theorem laneValue_lt (hpos : 0 < e) (u : Bool) (x : BitVec e) : laneValue u x < 2 ^ e := by
  have hlt := x.isLt
  have hpow : (2 : ℤ) ^ e = 2 ^ (e - 1) * 2 := by
    rw [← pow_succ, Nat.sub_add_cancel hpos]
  have hhalf : (0 : ℤ) < 2 ^ (e - 1) := two_pow_pos _
  cases u with
  | true =>
    show (x.toNat : ℤ) < 2 ^ e
    exact_mod_cast hlt
  | false =>
    have hint := BitVec.toInt_lt (x := x)
    show x.toInt < 2 ^ e
    omega

theorem le_laneValue (u : Bool) (x : BitVec e) : -2 ^ (e - 1) ≤ laneValue u x := by
  have hhalf : (0 : ℤ) < 2 ^ (e - 1) := two_pow_pos _
  cases u with
  | true =>
    show -2 ^ (e - 1) ≤ (x.toNat : ℤ)
    omega
  | false => exact BitVec.le_toInt x

/-- The operand of the code is the value of the lane. -/
theorem source_eq (hpos : 0 < e) (he : e ≤ 64) (u : Bool) (x : BitVec e) :
    (if u then ((x.setWidth 64).toNat : ℤ) else sx (x.setWidth 64) e) = laneValue u x := by
  rw [sx_setWidth hpos he, toNat_setWidth_64 he]
  rfl

theorem clamp_eq {range : ℤ × ℤ} (h : range.1 ≤ range.2) (v : ℤ) :
    clamp range v = max range.1 (min v range.2) := by
  unfold clamp
  split_ifs with hlo hhi
  · exact (max_eq_left (min_le_of_left_le (le_of_lt hlo))).symm
  · rw [min_eq_right (le_of_lt hhi), max_eq_right h]
  · rw [min_eq_left (not_lt.mp hhi), max_eq_right (not_lt.mp hlo)]

theorem clamp_bounds {range : ℤ × ℤ} (h : range.1 ≤ range.2) :
    clamp range range.1 = range.1 ∧ clamp range range.2 = range.2 := by
  rw [clamp_eq h, clamp_eq h, min_eq_left h, max_self, min_self, max_eq_right h]
  exact ⟨rfl, rfl⟩

/-- The range of the code is not empty. -/
theorem range_le (u : Bool) (e : ℕ) :
    (if u then (0, ((widthMask e).toNat : ℤ)) else signedRange e).1 ≤
      (if u then (0, ((widthMask e).toNat : ℤ)) else signedRange e).2 := by
  have hhalf := two_pow_pos (e - 1)
  cases u with
  | true => exact Int.natCast_nonneg _
  | false =>
    show -(2 : ℤ) ^ (e - 1) ≤ 2 ^ (e - 1) - 1
    omega

theorem clamp_eq_saturate (he : e ≤ 64) (u : Bool) (v : ℤ) :
    clamp (if u then (0, ((widthMask e).toNat : ℤ)) else signedRange e) v = saturate u e v := by
  have hmask : ((widthMask e).toNat : ℤ) = 2 ^ e - 1 := by
    rw [toNat_widthMask he, Nat.cast_sub (Nat.one_le_two_pow)]
    push_cast
    rfl
  have hpos := two_pow_pos e
  have hhalf := two_pow_pos (e - 1)
  cases u with
  | true =>
    show clamp (0, ((widthMask e).toNat : ℤ)) v = max 0 (min v (2 ^ e - 1))
    rw [hmask]
    exact clamp_eq (by show (0 : ℤ) ≤ 2 ^ e - 1; omega) v
  | false => exact clamp_eq (by show -(2 : ℤ) ^ (e - 1) ≤ 2 ^ (e - 1) - 1; omega) v

/-! ## Right shifts -/

/-- A shift past `e` rounds to zero. -/
theorem round_eq_zero {v : ℤ} {s : ℕ} (hlo : -2 ^ (e - 1) ≤ v) (hhi : v < 2 ^ e) (hs : e < s) :
    (v + 2 ^ (s - 1)) / 2 ^ s = 0 := by
  have hle : (2 : ℤ) ^ e ≤ 2 ^ (s - 1) := by
    exact_mod_cast Nat.pow_le_pow_right (by decide) (by omega : e ≤ s - 1)
  have hhalf : (2 : ℤ) ^ (e - 1) ≤ 2 ^ e := by
    exact_mod_cast Nat.pow_le_pow_right (by decide) (by omega : e - 1 ≤ e)
  have hpow : (2 : ℤ) ^ s = 2 ^ (s - 1) * 2 := by
    rw [← pow_succ, Nat.sub_add_cancel (by omega)]
  exact Int.ediv_eq_zero_of_lt (by omega) (by omega)

theorem shiftRight_eq (v : ℤ) (s : ℕ) : v >>> s = v / 2 ^ s := by
  rw [Int.shiftRight_eq_div_pow]
  push_cast
  rfl

/-- A floor by 128 is one by 127. -/
theorem shiftRight_min {v : ℤ} {s : ℕ} (hlo : -2 ^ 64 ≤ v) (hhi : v < 2 ^ 64) (hs : s ≤ 128) :
    v >>> min s 127 = v / 2 ^ s := by
  rw [shiftRight_eq]
  by_cases h127 : s ≤ 127
  · rw [min_eq_left h127]
  · obtain rfl : s = 128 := by omega
    rw [min_eq_right (by decide)]
    omega

/-- Rounding half up stays in `i128`. -/
theorem signed_round (t : Target) {v : ℤ} {s : ℕ} (hlo : -2 ^ 64 ≤ v) (hhi : v < 2 ^ 64)
    (hs : s ≤ 64) :
    t.signed 128 (2 ^ (s - 1)) = some (2 ^ (s - 1)) ∧
      t.signed 128 (v + 2 ^ (s - 1)) = some (v + 2 ^ (s - 1)) := by
  have hle : (2 : ℤ) ^ (s - 1) ≤ 2 ^ 64 := two_pow_le (by omega)
  have hpos : (0 : ℤ) < 2 ^ (s - 1) := two_pow_pos _
  constructor
  · exact Target.signed_of_range (by decide) (by omega) (by omega)
  · exact Target.signed_of_range (by decide) (by omega) (by omega)

/-! ## Left shifts -/

/-- Shifting a lane left in 64 bits is a product in the lane. -/
theorem shiftLeft_eq (he : e ≤ 64) (u : Bool) (x : BitVec e) (s : ℕ) :
    (x.setWidth 64 <<< s).setWidth e = BitVec.ofInt e (laneValue u x * 2 ^ s) := by
  have hx : BitVec.ofInt e (laneValue u x) = x := by
    cases u with
    | true =>
      show BitVec.ofInt e (x.toNat : ℤ) = x
      rw [BitVec.ofInt_natCast, BitVec.ofNat_toNat, BitVec.setWidth_eq]
    | false => exact BitVec.ofInt_toInt
  have hpow : BitVec.ofInt e (2 ^ s) = BitVec.twoPow e s := by
    have hcast : (2 : ℤ) ^ s = ((2 ^ s : ℕ) : ℤ) := by
      push_cast
      rfl
    rw [hcast, BitVec.ofInt_natCast]
    apply BitVec.eq_of_toNat_eq
    rw [BitVec.toNat_ofNat, BitVec.toNat_twoPow]
  rw [BitVec.ofInt_mul, hx, hpow, BitVec.mul_twoPow_eq_shiftLeft]
  apply BitVec.eq_of_getLsbD_eq
  intro i hi
  rw [BitVec.getLsbD_setWidth, BitVec.getLsbD_shiftLeft, BitVec.getLsbD_shiftLeft,
    BitVec.getLsbD_setWidth]
  have h64 : i < 64 := by omega
  have hsub : i - s < e ∧ i - s < 64 := by omega
  simp [hi, h64, hsub]

/-- A product with a power of two from the width on leaves no bit. -/
theorem ofInt_mul_eq_zero (v : ℤ) {s : ℕ} (hs : e ≤ s) : BitVec.ofInt e (v * 2 ^ s) = 0 := by
  have hdvd : ((2 ^ e : ℕ) : ℤ) ∣ v * 2 ^ s := by
    push_cast
    exact Dvd.dvd.mul_left (pow_dvd_pow 2 hs) v
  apply BitVec.eq_of_toNat_eq
  rw [BitVec.toNat_ofInt, Int.emod_eq_zero_of_dvd hdvd]
  simp

/-! ## The shift of a lane -/

theorem shiftByte_setWidth (y : BitVec e) :
    shiftByte (y.setWidth 64) = (y.setWidth 8).toInt := by
  unfold shiftByte
  rw [BitVec.setWidth_setWidth_of_le _ (by decide)]

theorem shiftByte_range (y : BitVec 64) : -128 ≤ shiftByte y ∧ shiftByte y ≤ 127 := by
  have hlo := BitVec.le_toInt (y.setWidth 8)
  have hhi := BitVec.toInt_lt (x := y.setWidth 8)
  unfold shiftByte
  omega

theorem shiftValue_neg (rounding : Bool) (v : ℤ) {s : ℕ} (hs : 0 < s) :
    shiftValue rounding v (-s) =
      if rounding then (v + 2 ^ (s - 1)) / 2 ^ s else v / 2 ^ s := by
  have hneg : ¬ 0 ≤ -(s : ℤ) := by omega
  unfold shiftValue
  rw [if_neg hneg, neg_neg, Int.toNat_natCast]

theorem laneValue_range (hpos : 0 < e) (he : e ≤ 64) (u : Bool) (x : BitVec e) :
    -2 ^ 64 ≤ laneValue u x ∧ laneValue u x < 2 ^ 64 := by
  have hle := le_laneValue u x
  have hpow : (2 : ℤ) ^ (e - 1) ≤ 2 ^ 64 := two_pow_le (by omega)
  exact ⟨by omega, lt_of_lt_of_le (laneValue_lt hpos u x) (two_pow_le he)⟩

section Lane

variable (t : Target) (hpos : 0 < e) (he : e ≤ 64) (u : Bool) (x y : BitVec e)

include hpos he

/-- The right shift of the code is exact, with nothing past `i128` on the way. -/
theorem exists_rightShift (rounding : Bool) {s : ℕ} (hs : 0 < s) (hs128 : s ≤ 128) :
    ∃ r, rightShift t rounding u (x.setWidth 64) e s = some r ∧
      r.setWidth e = BitVec.ofInt e (shiftValue rounding (laneValue u x) (-s)) := by
  obtain ⟨hlo, hhi⟩ := laneValue_range hpos he u x
  unfold rightShift
  rw [source_eq hpos he u x, shiftValue_neg _ _ hs]
  cases rounding with
  | false =>
    refine ⟨_, rfl, ?_⟩
    rw [asU64_setWidth he, shiftRight_min hlo hhi hs128]
    rfl
  | true =>
    by_cases hbits : s > e
    · refine ⟨0, by simp [hbits], ?_⟩
      rw [if_pos rfl, round_eq_zero (le_laneValue u x) (laneValue_lt hpos u x) hbits]
      simp
    · obtain ⟨hhalf, hsum⟩ := signed_round t hlo hhi (by omega : s ≤ 64)
      refine ⟨asU64 ((laneValue u x + 2 ^ (s - 1)) >>> s), by simp [hbits, hhalf, hsum], ?_⟩
      rw [asU64_setWidth he, shiftRight_eq]
      rfl

/-- SSHL, USHL, and with `opcode` 10 SRSHL and URSHL. -/
theorem exists_regShift (opcode : ℕ) :
    ∃ r, regShift t opcode u (x.setWidth 64) (y.setWidth 64) e (widthMask e) = some r ∧
      r.setWidth e = shiftLane false (opcode == 0b01010) u x y := by
  obtain ⟨hlo, hhi⟩ := shiftByte_range (y.setWidth 64)
  unfold regShift shiftLane
  rw [← shiftByte_setWidth]
  generalize shiftByte (y.setWidth 64) = shift at hlo hhi
  dsimp only
  by_cases hleft : shift ≥ 0
  · rw [if_pos hleft]
    unfold shiftValue
    rw [if_pos hleft]
    by_cases hs : shift.toNat ≥ 64
    · refine ⟨0, by rw [if_pos hs]; rfl, ?_⟩
      show (0 : BitVec 64).setWidth e = BitVec.ofInt e (laneValue u x * 2 ^ shift.toNat)
      rw [ofInt_mul_eq_zero _ (by omega)]
      simp
    · refine ⟨_, by rw [if_neg hs]; rfl, ?_⟩
      rw [setWidth_and_widthMask he]
      exact shiftLeft_eq he u x shift.toNat
  · rw [if_neg hleft]
    have hcast : shift = -((-shift).toNat : ℤ) := by omega
    obtain ⟨r, hr, heq⟩ := exists_rightShift t hpos he u x (opcode == 0b01010)
      (by omega : 0 < (-shift).toNat) (by omega)
    refine ⟨r &&& widthMask e, by rw [hr]; rfl, ?_⟩
    rw [setWidth_and_widthMask he, heq, ← hcast]
    rfl

omit hpos he in
/-- A product past 64 bits saturates. -/
theorem saturate_mul (he : e ≤ 64) {v : ℤ} {n : ℕ} (hn : 64 ≤ n) :
    (0 < v → saturate u e (v * 2 ^ n) =
      (if u then (0, ((widthMask e).toNat : ℤ)) else signedRange e).2) ∧
    (v < 0 → saturate u e (v * 2 ^ n) =
      (if u then (0, ((widthMask e).toNat : ℤ)) else signedRange e).1) := by
  have hmask : ((widthMask e).toNat : ℤ) = 2 ^ e - 1 := by
    rw [toNat_widthMask he, Nat.cast_sub (Nat.one_le_two_pow)]
    push_cast
    rfl
  have hpow : (2 : ℤ) ^ e ≤ 2 ^ n := by
    exact_mod_cast Nat.pow_le_pow_right (by decide) (by omega : e ≤ n)
  have hhalf : (2 : ℤ) ^ (e - 1) ≤ 2 ^ e := by
    exact_mod_cast Nat.pow_le_pow_right (by decide) (by omega : e - 1 ≤ e)
  have hpos := two_pow_pos (e - 1)
  rw [hmask]
  constructor
  · intro hv
    have hle : 2 ^ n ≤ v * 2 ^ n := le_mul_of_one_le_left (by omega) hv
    cases u with
    | true =>
      show max 0 (min (v * 2 ^ n) (2 ^ e - 1)) = 2 ^ e - 1
      rw [min_eq_right (by omega), max_eq_right (by omega)]
    | false =>
      show max (-2 ^ (e - 1)) (min (v * 2 ^ n) (2 ^ (e - 1) - 1)) = 2 ^ (e - 1) - 1
      rw [min_eq_right (by omega), max_eq_right (by omega)]
  · intro hv
    have hle : v * 2 ^ n ≤ -1 * 2 ^ n := mul_le_mul_of_nonneg_right (by omega) (by omega)
    cases u with
    | true =>
      show max 0 (min (v * 2 ^ n) (2 ^ e - 1)) = 0
      rw [min_eq_left (by omega), max_eq_left (by omega)]
    | false =>
      show max (-2 ^ (e - 1)) (min (v * 2 ^ n) (2 ^ (e - 1) - 1)) = -2 ^ (e - 1)
      rw [min_eq_left (by omega), max_eq_left (by omega)]

/-- A product with less than 64 bits stays in `i128`. -/
theorem signed_mul {n : ℕ} (h : laneValue u x = 0 ∨ n < 64) :
    t.signed 128 (laneValue u x * 2 ^ n) = some (laneValue u x * 2 ^ n) := by
  obtain ⟨hlo, hhi⟩ := laneValue_range hpos he u x
  rcases h with h | h
  · rw [h, zero_mul]
    exact Target.signed_of_range (by decide) (by decide) (by decide)
  · have hle : (2 : ℤ) ^ n ≤ 2 ^ 63 := by
      exact_mod_cast Nat.pow_le_pow_right (by decide) (by omega : n ≤ 63)
    have hpow := two_pow_pos n
    refine Target.signed_of_range (by decide) ?_ ?_
    · calc -2 ^ 127 = -2 ^ 64 * 2 ^ 63 := by decide
        _ ≤ -2 ^ 64 * 2 ^ n := mul_le_mul_of_nonpos_left hle (by decide)
        _ ≤ laneValue u x * 2 ^ n := mul_le_mul_of_nonneg_right hlo (le_of_lt hpow)
    · calc laneValue u x * 2 ^ n < 2 ^ 64 * 2 ^ n := mul_lt_mul_of_pos_right hhi hpow
        _ ≤ 2 ^ 64 * 2 ^ 63 := mul_le_mul_of_nonneg_left hle (by decide)
        _ = 2 ^ 127 := by decide

/-- SQSHL, UQSHL, and with `opcode` 11 SQRSHL and UQRSHL. -/
theorem exists_satRegShift (opcode : ℕ) :
    ∃ r, satRegShift t opcode u (x.setWidth 64) (y.setWidth 64) e = some r ∧
      r.setWidth e = shiftLane true (opcode == 0b01011) u x y := by
  obtain ⟨hlo, hhi⟩ := shiftByte_range (y.setWidth 64)
  obtain ⟨hvlo, hvhi⟩ := laneValue_range hpos he u x
  have hbounds := clamp_bounds (range_le u e)
  unfold satRegShift shiftLane
  rw [← shiftByte_setWidth, source_eq hpos he u x]
  generalize shiftByte (y.setWidth 64) = shift at hlo hhi
  dsimp only
  -- whatever integer is computed, its clamp in the lane is what is left
  have hlane {result : ℤ}
      (h : clamp (if u then (0, ((widthMask e).toNat : ℤ)) else signedRange e) result =
        saturate u e (shiftValue (opcode == 0b01011) (laneValue u x) shift)) :
      ∃ r, some (asU64 (clamp (if u then (0, ((widthMask e).toNat : ℤ)) else signedRange e)
          result) &&& widthMask e) = some r ∧
        r.setWidth e = BitVec.ofInt e
          (saturate u e (shiftValue (opcode == 0b01011) (laneValue u x) shift)) := by
    refine ⟨_, rfl, ?_⟩
    rw [setWidth_and_widthMask he, asU64_setWidth he, h]
  by_cases hleft : shift ≥ 0
  · have hvalue : shiftValue (opcode == 0b01011) (laneValue u x) shift =
        laneValue u x * 2 ^ shift.toNat := if_pos hleft
    rw [if_pos hleft]
    by_cases hs : laneValue u x ≠ 0 ∧ shift.toNat ≥ 64
    · obtain ⟨habove, hbelow⟩ := saturate_mul u he (v := laneValue u x) hs.2
      rw [if_pos hs]
      by_cases hv : laneValue u x > 0
      · rw [if_pos hv]
        exact hlane (by rw [hbounds.2, hvalue, habove hv])
      · rw [if_neg hv]
        exact hlane (by rw [hbounds.1, hvalue, hbelow (by omega)])
    · rw [if_neg hs, signed_mul t hpos he u x (by omega)]
      exact hlane (by rw [clamp_eq_saturate he, hvalue])
  · have hcast : shift = -((-shift).toNat : ℤ) := by omega
    have hs : 0 < (-shift).toNat ∧ (-shift).toNat ≤ 128 := by omega
    rw [if_neg hleft]
    have hvalue := shiftValue_neg (opcode == 0b01011) (laneValue u x) hs.1
    rw [← hcast] at hvalue
    cases hround : opcode == 0b01011 with
    | false =>
      rw [hround] at hvalue hlane
      refine hlane ?_
      rw [clamp_eq_saturate he, shiftRight_min hvlo hvhi hs.2, hvalue]
      rfl
    | true =>
      rw [hround] at hvalue hlane
      rw [if_pos rfl]
      by_cases hbits : (-shift).toNat > e
      · rw [if_pos hbits]
        refine hlane ?_
        rw [clamp_eq_saturate he, hvalue, if_pos rfl,
          round_eq_zero (le_laneValue u x) (laneValue_lt hpos u x) hbits]
      · obtain ⟨hhalf, hsum⟩ := signed_round t hvlo hvhi (by omega : (-shift).toNat ≤ 64)
        rw [if_neg hbits, hhalf]
        show ∃ r, (do
          let sum ← t.signed 128 (laneValue u x + 2 ^ ((-shift).toNat - 1))
          pure (asU64 (clamp _ (sum >>> (-shift).toNat)) &&& widthMask e)) = some r ∧ _
        rw [hsum]
        refine hlane ?_
        rw [clamp_eq_saturate he, shiftRight_eq, hvalue]
        rfl

end Lane

/-! ## The instructions -/

/-- The opcode of a register shift. -/
def regShiftOpcode (saturating rounding : Bool) : ℕ :=
  0b01000 + (if rounding then 2 else 0) + (if saturating then 1 else 0)

/-- No floating-point form has the opcode. -/
theorem regShiftOpcode_lt (saturating rounding : Bool) :
    ¬ regShiftOpcode saturating rounding ≥ 0x18 := by
  revert saturating rounding
  decide

variable (t : Target) (saturating rounding u : Bool) {size : ℕ}

theorem exists_lane (h : size ≤ 3) (x y d : BitVec (8 <<< size)) :
    ∃ r, lane t (regShiftOpcode saturating rounding) u size (x.setWidth 64) (y.setWidth 64)
        (d.setWidth 64) = some r ∧
      r.setWidth (8 <<< size) = shiftLane saturating rounding u x y := by
  have hpos := esize_pos h
  have he := esize_le h
  cases saturating with
  | false =>
    cases rounding with
    | false => exact exists_regShift t hpos he u x y 0b01000
    | true => exact exists_regShift t hpos he u x y 0b01010
  | true =>
    cases rounding with
    | false => exact exists_satRegShift t hpos he u x y 0b01001
    | true => exact exists_satRegShift t hpos he u x y 0b01011

/-- The lanes that a register shift of `rn` by `rm` leaves. -/
theorem exists_threeSame (h : size ≤ 3) (w : VecView) (q : Bool) (rm rn rd : Reg) :
    ∃ v, threeSame t w q u size (regShiftOpcode saturating rounding) rm rn rd =
        some (w.setV rd v) ∧
      HasLanes size q (fun i => shiftLane saturating rounding u
        (Lanes.lane (8 <<< size) (w.v rn) i) (Lanes.lane (8 <<< size) (w.v rm) i)) v := by
  obtain ⟨lanes, hlanes, hv⟩ := exists_join h q (w.v rn) (w.v rm) (w.v rd)
    (φ := fun x y _ => shiftLane saturating rounding u x y)
    (exists_lane t saturating rounding u h)
  refine ⟨_, ?_, hv⟩
  have hbind := congrArg (fun o => o.bind fun lanes => some (w.setV rd (join lanes size))) hlanes
  cases saturating with
  | false =>
    cases rounding with
    | false => exact hbind
    | true => exact hbind
  | true =>
    cases rounding with
    | false => exact hbind
    | true => exact hbind

variable {M : Type} [GuestMem M]

/-- **A register shift is the exact shift of every lane.** Every lane that SSHL, USHL, SRSHL,
    URSHL, SQSHL, UQSHL, SQRSHL or UQRSHL leaves is the shift of the integers, modulo the width
    or saturated, in every build: none of them reports an overflow. The scalar forms leave lane
    0 and zeros above it. -/
theorem execute_regShift (rest : VecUnit) (g : Guest M) (pc : BitVec 64) (word : BitVec 32) :
    (∀ q rm rn rd, decode word =
        .simdThreeSame q u size (regShiftOpcode saturating rounding) rm rn rd →
      ∃ v, execute (vecUnit t rest) g (decode word) pc = some (none, g.setV rd v) ∧
        HasLanes size q (fun i => shiftLane saturating rounding u
          (Lanes.lane (8 <<< size) (g.cpu.v rn) i) (Lanes.lane (8 <<< size) (g.cpu.v rm) i)) v) ∧
    ∀ rm rn rd, decode word =
        .simdScalarThreeSame u size (regShiftOpcode saturating rounding) rm rn rd →
      execute (vecUnit t rest) g (decode word) pc =
        some (none, g.setV rd ((shiftLane saturating rounding u
          (Lanes.lane (8 <<< size) (g.cpu.v rn) 0)
          (Lanes.lane (8 <<< size) (g.cpu.v rm) 0)).setWidth 128)) := by
  constructor
  · intro q rm rn rd hword
    have hsize : size ≤ 3 := by
      have hok := vecFieldsOk_decode word
      rw [hword] at hok
      exact hok
    obtain ⟨v, hv, hlanes⟩ :=
      exists_threeSame t saturating rounding u hsize (vecView g.cpu) q rm rn rd
    refine ⟨v, ?_, hlanes⟩
    rw [hword]
    exact congrArg (·.bind fun w => seq g (setVecView g.cpu w)) hv
  · intro rm rn rd hword
    have hsize : size ≤ 3 := by
      have hok := vecFieldsOk_decode word
      rw [hword] at hok
      exact hok
    obtain ⟨v, hv, hlanes⟩ :=
      exists_threeSame t saturating rounding u hsize (vecView g.cpu) false rm rn rd
    have hcount := laneCount_pos hsize false
    have hopcode := regShiftOpcode_lt saturating rounding
    rw [hword]
    show ((if regShiftOpcode saturating rounding ≥ 0x18 then _ else
      scalarThreeSame t (vecView g.cpu) u size _ rm rn rd).bind _) = _
    rw [if_neg hopcode]
    unfold scalarThreeSame
    rw [hv]
    show seq g (setVecView g.cpu (keepLow ((vecView g.cpu).setV rd v) rd (8 <<< size))) = _
    rw [keepLow_setV _ _ _ (by have := esize_le hsize; omega), hlanes.lanes 0 hcount]
    rfl

/-- SQRSHL of 64-bit lanes with all bits set by 255, which is a shift by -1. -/
theorem execute_regShift_sqrshl :
    ∃ v, execute (vecUnit Target.debug64 fun _ _ => none)
        (vecGuest fun r => if r = 1 then BitVec.allOnes 128 else 255) (decode 0x4ee25c20) 0 =
        some (none, (vecGuest fun r => if r = 1 then BitVec.allOnes 128 else 255).setV 0 v) ∧
      HasLanes 3 true (fun i => shiftLane true true false (Lanes.lane 64 (BitVec.allOnes 128) i)
        (Lanes.lane 64 (255 : BitVec 128) i)) v :=
  (execute_regShift Target.debug64 true true false (fun _ _ => none)
    (vecGuest fun r => if r = 1 then BitVec.allOnes 128 else 255) 0 0x4ee25c20).1 true 2 1 0
    rfl

end V64.Interp.Simd
