import V64.Decoder.VecFields
import V64.Interp.Simd.LaneFacts
import Mathlib.Algebra.Order.Ring.Abs

/-!
# Arithmetic by element

The by-element instructions against the vector instructions of the same operation on the
element replicated to every lane. The two are written apart in the source.

* `vectorForm`: the vector instruction of a by-element one.
* `exists_normal`, `exists_long`, `exists_rdmlah`, `dotIndexed_eq`: each family agrees.
* `execute_indexed`: the instructions on registers, with the scalar forms.
-/

namespace V64.Interp.Simd

open V64.Cpu V64.Decoder Checked

/-! ## Products that fit -/

section Range

variable (t : Target) {a b c : ℤ}

theorem abs_mul_le (ha : |a| ≤ 2 ^ 32) (hb : |b| ≤ 2 ^ 32) : |a * b| ≤ 2 ^ 64 := by
  rw [abs_mul]
  calc |a| * |b| ≤ 2 ^ 32 * 2 ^ 32 := mul_le_mul ha hb (abs_nonneg b) (by decide)
    _ = 2 ^ 64 := by decide

theorem signed_of_abs (h : |a| ≤ 2 ^ 100) : t.signed 128 a = some a := by
  have hrange := abs_le.mp h
  exact Target.signed_of_range (by decide) (by omega) (by omega)

/-- Doubling before the product and after it. -/
theorem signed_double (ha : |a| ≤ 2 ^ 32) (hb : |b| ≤ 2 ^ 32) :
    t.signed 128 (2 * a) = some (2 * a) ∧ t.signed 128 (2 * a * b) = some (2 * (a * b)) ∧
      t.signed 128 (2 * (a * b)) = some (2 * (a * b)) := by
  have hprod := abs_le.mp (abs_mul_le ha hb)
  have hrange := abs_le.mp ha
  have hassoc : 2 * a * b = 2 * (a * b) := mul_assoc 2 a b
  rw [hassoc]
  refine ⟨signed_of_abs t (abs_le.mpr ?_), signed_of_abs t (abs_le.mpr ?_),
    signed_of_abs t (abs_le.mpr ?_)⟩
  · omega
  · omega
  · omega

theorem abs_clamp_le {w : ℕ} (hw : w ≤ 64) (v : ℤ) : |clamp (signedRange w) v| ≤ 2 ^ 64 := by
  have hpow : (2 : ℤ) ^ (w - 1) ≤ 2 ^ 63 := by
    exact_mod_cast Nat.pow_le_pow_right (by decide) (by omega : w - 1 ≤ 63)
  have hpos : (0 : ℤ) < 2 ^ (w - 1) := by exact_mod_cast Nat.two_pow_pos _
  unfold clamp signedRange
  rw [abs_le]
  split_ifs <;> omega

end Range

variable {e : ℕ}

theorem abs_sx_le (hpos : 0 < e) (he : e ≤ 32) (x : BitVec e) :
    |sx (x.setWidth 64) e| ≤ 2 ^ 32 := by
  have hpow : (2 : ℤ) ^ (e - 1) ≤ 2 ^ 31 := by
    exact_mod_cast Nat.pow_le_pow_right (by decide) (by omega : e - 1 ≤ 31)
  have hlo := BitVec.le_toInt x
  have hhi := BitVec.toInt_lt (x := x)
  rw [sx_setWidth hpos (by omega), abs_le]
  omega

theorem abs_ext_le (hpos : 0 < e) (he : e ≤ 32) (u : Bool) (x : BitVec e) :
    |ext u (x.setWidth 64) e| ≤ 2 ^ 32 := by
  unfold ext
  split_ifs
  · have hlt : (x.setWidth 64 &&& widthMask e).toNat < 2 ^ 32 := by
      have hpow : 2 ^ e ≤ 2 ^ 32 := Nat.pow_le_pow_right (by decide) he
      rw [and_widthMask (by omega), toNat_setWidth_64 (by omega)]
      exact Nat.lt_of_lt_of_le (BitVec.isLt _) hpow
    rw [abs_le]
    omega
  · exact abs_sx_le hpos he x

/-- An accumulator of at most 64 bits. -/
theorem abs_sx_le_64 (hpos : 0 < e) (he : e ≤ 64) (x : BitVec e) :
    |sx (x.setWidth 64) e| ≤ 2 ^ 64 := by
  have hpow : (2 : ℤ) ^ (e - 1) ≤ 2 ^ 63 := by
    exact_mod_cast Nat.pow_le_pow_right (by decide) (by omega : e - 1 ≤ 63)
  have hlo := BitVec.le_toInt x
  have hhi := BitVec.toInt_lt (x := x)
  rw [sx_setWidth hpos he, abs_le]
  omega

/-! ## Lanes of the two families -/

section Lane

variable (t : Target) (hpos : 0 < e) (he : e ≤ 32) (x y d : BitVec e)

theorem narrow_and_widthMask (he : e ≤ 64) (v : BitVec 64) :
    Lanes.Narrow e (v &&& widthMask e) := by
  rw [and_widthMask he]
  exact Lanes.narrow_setWidth _ (Nat.le_refl _)

/-- Masking the product first changes nothing in the lane. -/
theorem masked_product (he : e ≤ 64) (d p : BitVec 64) :
    (d + (p &&& widthMask e)) &&& widthMask e = (d + p) &&& widthMask e ∧
      (d - (p &&& widthMask e)) &&& widthMask e = (d - p) &&& widthMask e := by
  have hp := setWidth_and_widthMask he p
  have hsum (x : BitVec 64) : (d + x) &&& widthMask e =
      (d.setWidth e + x.setWidth e).setWidth 64 := by
    rw [and_widthMask he, BitVec.setWidth_add _ _ he]
  have hdiff (x : BitVec 64) : (d - x) &&& widthMask e =
      (d.setWidth e + -x.setWidth e).setWidth 64 := by
    rw [and_widthMask he, BitVec.sub_eq_add_neg, BitVec.setWidth_add _ _ he,
      BitVec.setWidth_neg_of_le he]
  rw [hsum, hsum, hdiff, hdiff, hp]
  exact ⟨rfl, rfl⟩

include hpos he

theorem exists_sqdmulh (rounding : Bool) :
    ∃ r, sqdmulh t rounding (x.setWidth 64) (y.setWidth 64) e = some r ∧ Lanes.Narrow e r := by
  obtain ⟨hdouble, hprod, -⟩ := signed_double t (abs_sx_le hpos he x) (abs_sx_le hpos he y)
  have hrange := abs_le.mp (abs_mul_le (abs_sx_le hpos he x) (abs_sx_le hpos he y))
  have hround : (0 : ℤ) ≤ (if rounding then 2 ^ (e - 1) else 0) ∧
      (if rounding then (2 : ℤ) ^ (e - 1) else 0) ≤ 2 ^ 31 := by
    split_ifs
    · have hpow : (2 : ℤ) ^ (e - 1) ≤ 2 ^ 31 := by
        exact_mod_cast Nat.pow_le_pow_right (by decide) (by omega : e - 1 ≤ 31)
      have hpos : (0 : ℤ) < 2 ^ (e - 1) := by exact_mod_cast Nat.two_pow_pos _
      omega
    · decide
  have hsum := signed_of_abs t (a := 2 * (sx (x.setWidth 64) e * sx (y.setWidth 64) e) +
    if rounding then 2 ^ (e - 1) else 0) (abs_le.mpr (by omega))
  unfold sqdmulh
  rw [hdouble]
  dsimp only [Option.bind_eq_bind, Option.bind_some]
  rw [hprod]
  dsimp only [Option.bind_some]
  rw [hsum]
  exact ⟨_, rfl, narrow_and_widthMask (by omega) _⟩

theorem exists_sqrdmlah (sub : Bool) :
    ∃ r, sqrdmlah t sub (x.setWidth 64) (y.setWidth 64) (d.setWidth 64) e = some r ∧
      Lanes.Narrow e r := by
  have hpow : (0 : ℤ) ≤ 2 ^ (e - 1) ∧ (2 : ℤ) ^ (e - 1) ≤ 2 ^ 32 ∧ (0 : ℤ) ≤ 2 ^ (e - 2) ∧
      (2 : ℤ) ^ (e - 2) ≤ 2 ^ 32 := by
    have h1 : 2 ^ (e - 1) ≤ 2 ^ 32 := Nat.pow_le_pow_right (by decide) (by omega)
    have h2 : 2 ^ (e - 2) ≤ 2 ^ 32 := Nat.pow_le_pow_right (by decide) (by omega)
    exact ⟨by exact_mod_cast Nat.zero_le _, by exact_mod_cast h1, by exact_mod_cast Nat.zero_le _,
      by exact_mod_cast h2⟩
  have hprod := abs_le.mp (abs_mul_le (abs_sx_le hpos he x) (abs_sx_le hpos he y))
  have hacc := abs_le.mp (abs_mul_le (abs_sx_le hpos he d)
    (abs_le.mpr ⟨by omega, hpow.2.1⟩ : |(2 : ℤ) ^ (e - 1)| ≤ 2 ^ 32))
  unfold sqrdmlah
  generalize sx (x.setWidth 64) e * sx (y.setWidth 64) e = prod at hprod
  generalize sx (d.setWidth 64) e * 2 ^ (e - 1) = acc at hacc
  dsimp only [Option.bind_eq_bind]
  rw [signed_of_abs t (a := prod) (abs_le.mpr (by omega)),
    signed_of_abs t (a := acc) (abs_le.mpr (by omega)), Option.bind_some, Option.bind_some]
  cases sub with
  | false =>
    rw [if_neg Bool.false_ne_true, signed_of_abs t (a := acc + prod) (abs_le.mpr (by omega)),
      Option.bind_some,
      signed_of_abs t (a := acc + prod + 2 ^ (e - 2)) (abs_le.mpr (by omega)), Option.bind_some]
    exact ⟨_, rfl, narrow_and_widthMask (by omega) _⟩
  | true =>
    rw [if_pos rfl, signed_of_abs t (a := acc - prod) (abs_le.mpr (by omega)),
      Option.bind_some,
      signed_of_abs t (a := acc - prod + 2 ^ (e - 2)) (abs_le.mpr (by omega)), Option.bind_some]
    exact ⟨_, rfl, narrow_and_widthMask (by omega) _⟩

/-- The `match key` of `int_normal`. -/
def normalLane (t : Target) (key : ℕ) (a idx d : BitVec 64) (esize : ℕ) : Option (BitVec 64) :=
  match key with
  | 0x08 => some ((a * idx) &&& widthMask esize)
  | 0x10 => some ((d + a * idx) &&& widthMask esize)
  | 0x14 => some ((d - a * idx) &&& widthMask esize)
  | 0x0c => indexedSqdmulh t false a idx esize
  | _ => indexedSqdmulh t true a idx esize

/-- The keys of `int_normal` with the opcode and `U` of the vector instruction. -/
def normalForms : List (ℕ × ℕ × Bool) :=
  [(0x08, 0b10011, false), (0x10, 0b10010, false), (0x14, 0b10010, true), (0x0c, 0b10110, false),
    (0x0d, 0b10110, true)]

omit hpos he in
/-- A lane of `int_normal` is a lane of `three_same`. -/
theorem exists_normalLane {key opcode size : ℕ} {u : Bool} (h : size ≤ 2)
    (hform : (key, opcode, u) ∈ normalForms) (x y d : BitVec (8 <<< size)) :
    ∃ r, normalLane t key (x.setWidth 64) (y.setWidth 64) (d.setWidth 64) (8 <<< size) = some r ∧
      lane t opcode u size (x.setWidth 64) (y.setWidth 64) (d.setWidth 64) = some r ∧
      Lanes.Narrow (8 <<< size) r := by
  have hle : ∀ size ≤ 2, 8 <<< size ≤ 32 := by decide
  have he := hle size h
  have hpos := esize_pos (Nat.le_succ_of_le h)
  have h64 : 8 <<< size ≤ 64 := by omega
  have hprod := masked_product h64 (d.setWidth 64) (x.setWidth 64 * y.setWidth 64)
  simp only [normalForms, List.mem_cons, Prod.mk.injEq, List.not_mem_nil, or_false] at hform
  obtain ⟨rfl, rfl, rfl⟩ | ⟨rfl, rfl, rfl⟩ | ⟨rfl, rfl, rfl⟩ | ⟨rfl, rfl, rfl⟩ | ⟨rfl, rfl, rfl⟩ :=
    hform
  · exact ⟨_, rfl, rfl, narrow_and_widthMask h64 _⟩
  · exact ⟨_, rfl, congrArg some hprod.1, narrow_and_widthMask h64 _⟩
  · exact ⟨_, rfl, congrArg some hprod.2, narrow_and_widthMask h64 _⟩
  · obtain ⟨r, hr, hnarrow⟩ := exists_sqdmulh t hpos he x y false
    exact ⟨r, hr, hr, hnarrow⟩
  · obtain ⟨r, hr, hnarrow⟩ := exists_sqdmulh t hpos he x y true
    exact ⟨r, hr, hr, hnarrow⟩

/-- The keys of `int_long` with the opcode of the vector instruction. -/
def longForms : List (ℕ × ℕ) :=
  [(0x0a, 0b1100), (0x1a, 0b1100), (0x02, 0b1000), (0x12, 0b1000), (0x06, 0b1010),
    (0x16, 0b1010), (0x0b, 0b1101), (0x03, 0b1001), (0x07, 0b1011)]

/-- An element of `int_long` is one of `three_diff`. -/
theorem exists_longLane {key opcode : ℕ} (u : Bool) (hform : (key, opcode) ∈ longForms)
    (awide : BitVec 64) (dwide : BitVec (e * 2)) :
    ∃ prod r, t.signed 128 (ext u (x.setWidth 64) e * ext u (y.setWidth 64) e) = some prod ∧
      longOp t key (e * 2) (dwide.setWidth 64) prod = some r ∧
      wideOp t opcode u e (e * 2) (x.setWidth 64) (y.setWidth 64) awide (dwide.setWidth 64) =
        some (asU64 r) := by
  have hea := abs_ext_le hpos he u x
  have heb := abs_ext_le hpos he u y
  have hacc := abs_le.mp (abs_sx_le_64 (by omega) (by omega) dwide)
  have hprod := abs_le.mp (abs_mul_le hea heb)
  obtain ⟨hdouble, hafter, hbefore⟩ := signed_double t hea heb
  have hclamp := abs_le.mp (abs_clamp_le (by omega : e * 2 ≤ 64)
    (2 * (ext u (x.setWidth 64) e * ext u (y.setWidth 64) e)))
  unfold longOp wideOp
  generalize ext u (x.setWidth 64) e = a at hprod hdouble hafter hbefore hclamp
  generalize ext u (y.setWidth 64) e = b at hprod hafter hbefore hclamp
  generalize sx (dwide.setWidth 64) (e * 2) = acc at hacc
  generalize signedRange (e * 2) = range at hclamp
  have hsigned := signed_of_abs t (a := a * b) (abs_le.mpr (by omega))
  have hadd := signed_of_abs t (a := acc + a * b) (abs_le.mpr (by omega))
  have hsub := signed_of_abs t (a := acc - a * b) (abs_le.mpr (by omega))
  have haddsat := signed_of_abs t (a := acc + clamp range (2 * (a * b))) (abs_le.mpr (by omega))
  have hsubsat := signed_of_abs t (a := acc - clamp range (2 * (a * b))) (abs_le.mpr (by omega))
  simp only [longForms, List.mem_cons, Prod.mk.injEq, List.not_mem_nil, or_false] at hform
  obtain ⟨rfl, rfl⟩ | ⟨rfl, rfl⟩ | ⟨rfl, rfl⟩ | ⟨rfl, rfl⟩ | ⟨rfl, rfl⟩ | ⟨rfl, rfl⟩ | ⟨rfl, rfl⟩ |
    ⟨rfl, rfl⟩ | ⟨rfl, rfl⟩ := hform
  · exact ⟨_, _, hsigned, rfl, by simp [hsigned]⟩
  · exact ⟨_, _, hsigned, rfl, by simp [hsigned]⟩
  · exact ⟨_, _, hsigned, hadd, by simp [hsigned, hadd]⟩
  · exact ⟨_, _, hsigned, hadd, by simp [hsigned, hadd]⟩
  · exact ⟨_, _, hsigned, hsub, by simp [hsigned, hsub]⟩
  · exact ⟨_, _, hsigned, hsub, by simp [hsigned, hsub]⟩
  · exact ⟨_, clamp range (2 * (a * b)), hsigned, by simp [hbefore], by simp [hdouble, hafter]⟩
  · exact ⟨_, clamp range (acc + clamp range (2 * (a * b))), hsigned, by simp [hbefore, haddsat],
      by simp [hdouble, hafter, haddsat]⟩
  · exact ⟨_, clamp range (acc - clamp range (2 * (a * b))), hsigned, by simp [hbefore, hsubsat],
      by simp [hdouble, hafter, hsubsat]⟩

end Lane

/-! ## Registers of the two families -/

section Register

variable (t : Target) {size : ℕ} (h : size ≤ 2) (q : Bool) (index : ℕ) (vn vm vd : BitVec 128)

theorem laneElem_eq (he : e ≤ 64) (v : BitVec 128) (i : ℕ) :
    laneElem v e i = (Lanes.lane e v i).setWidth 64 := by
  unfold laneElem
  apply BitVec.eq_of_getLsbD_eq
  intro k hk
  rw [BitVec.getLsbD_setWidth, BitVec.getLsbD_and, BitVec.getLsbD_ushiftRight,
    BitVec.getLsbD_setWidth, getLsbD_widthMask he, BitVec.getLsbD_setWidth, Lanes.getLsbD_lane,
    decide_eq_true (by omega : k < 128), Bool.true_and, Bool.and_comm (v.getLsbD _)]

theorem elem_eq (he : e < 64) (v : BitVec 128) (i : ℕ) :
    elem v e i = (Lanes.lane e v i).setWidth 64 := by
  have hwide := wideElems_eq v (le_of_lt he) (i + 1)
  unfold elem
  rw [if_neg (by omega)]
  apply BitVec.eq_of_getLsbD_eq
  intro k hk
  have hmask : ((1 <<< e : ℕ) - 1 : BitVec 128).getLsbD k = decide (k < e) :=
    Words.getLsbD_ones (by omega) k
  rw [BitVec.getLsbD_setWidth, BitVec.getLsbD_and, BitVec.getLsbD_ushiftRight, hmask,
    BitVec.getLsbD_setWidth, Lanes.getLsbD_lane, Bool.and_comm (v.getLsbD _)]

/-- The element in every lane of a vector. -/
theorem lane_replicated {i : ℕ} (hi : i < laneCount size q) :
    Lanes.lane (8 <<< size) (Lanes.splat 128 (Lanes.lane (8 <<< size) vm index) : BitVec 128) i =
      Lanes.lane (8 <<< size) vm index := by
  have hcount : laneCount size q ≤ 128 / (8 <<< size) := by
    unfold laneCount
    exact Nat.div_le_div_right (by split_ifs <;> omega)
  exact Lanes.lane_splat _ (by omega)

include h

/-- What the two loops collect. -/
theorem join_eq_collect {rs : List (BitVec 64)} (hnarrow : ∀ r ∈ rs, Lanes.Narrow (8 <<< size) r) :
    join rs size = collect (rs.map fun r => r.setWidth 128) (8 <<< size) := by
  rw [join_eq (Nat.le_succ_of_le h)]
  show Lanes.pack (8 <<< size) _ = Lanes.pack (8 <<< size) _
  refine congrArg _ (List.map_congr_left fun r hr => ?_)
  exact (hnarrow r hr).setWidth_setWidth 128

/-- Two loops over the lanes of a register, where every pass computes one element. -/
theorem exists_loops {f : ℕ → Option (BitVec 64)}
    {g : BitVec 64 → BitVec 64 → BitVec 64 → Option (BitVec 64)}
    (hlane : ∀ x y d : BitVec (8 <<< size), ∃ r, g (x.setWidth 64) (y.setWidth 64) (d.setWidth 64) =
      some r ∧ Lanes.Narrow (8 <<< size) r)
    (hf : ∀ i, f i = g ((Lanes.lane (8 <<< size) vn i).setWidth 64)
      ((Lanes.lane (8 <<< size) vm index).setWidth 64)
      ((Lanes.lane (8 <<< size) vd i).setWidth 64)) :
    ∃ rs, (List.range (laneCount size q)).mapM f = some rs ∧
      ((split vn size q).zip
        ((split (Lanes.splat 128 (Lanes.lane (8 <<< size) vm index)) size q).zip
          (split vd size q))).mapM (fun (x, y, d) => g x y d) = some rs ∧
      join rs size = collect (rs.map fun r => r.setWidth 128) (8 <<< size) := by
  have hsize := Nat.le_succ_of_le h
  obtain ⟨rs, hrs, -, hnarrow⟩ := Loops.exists_mapM
    (f := fun (p : BitVec 64 × BitVec 64 × BitVec 64) => g p.1 p.2.1 p.2.2)
    (g := fun i => ((Lanes.lane (8 <<< size) vn i).setWidth 64,
      (Lanes.lane (8 <<< size) (Lanes.splat 128 (Lanes.lane (8 <<< size) vm index)) i).setWidth 64,
      (Lanes.lane (8 <<< size) vd i).setWidth 64))
    (P := fun _ r => Lanes.Narrow (8 <<< size) r) (n := laneCount size q) fun i _ => hlane _ _ _
  refine ⟨rs, ?_, ?_, join_eq_collect h fun r hr => ?_⟩
  · rw [← hrs, List.mapM_map]
    refine Loops.mapM_congr fun i hi => ?_
    rw [hf, Function.comp_apply, lane_replicated q index vm (List.mem_range.mp hi)]
  · rw [split_eq hsize, split_eq hsize, split_eq hsize, List.zip_map', List.zip_map']
    exact hrs
  · obtain ⟨i, hi, rfl⟩ := List.mem_iff_getElem.mp hr
    exact hnarrow i hi

theorem esize_le_32 : 8 <<< size ≤ 32 := by
  revert size
  decide

/-- MUL, MLA, MLS, SQDMULH and SQRDMULH. -/
theorem exists_normal {key opcode : ℕ} {u : Bool} (hform : (key, opcode, u) ∈ normalForms) :
    ∃ rs, intNormal t key size q index vn vm vd = some (join rs size) ∧
      ((split vn size q).zip
        ((split (Lanes.splat 128 (Lanes.lane (8 <<< size) vm index)) size q).zip
          (split vd size q))).mapM (fun (x, y, d) => lane t opcode u size x y d) = some rs := by
  have he := esize_le_32 h
  obtain ⟨rs, hnormal, hsame, hjoin⟩ := exists_loops h q index vn vm vd
    (f := fun i => normalLane t key (laneElem vn (8 <<< size) i) (elem vm (8 <<< size) index)
      (laneElem vd (8 <<< size) i) (8 <<< size))
    (g := fun x y d => lane t opcode u size x y d)
    (fun x y d => by
      obtain ⟨r, -, hr, hnarrow⟩ := exists_normalLane t h hform x y d
      exact ⟨r, hr, hnarrow⟩)
    (fun i => by
      rw [laneElem_eq (by omega), laneElem_eq (by omega), elem_eq (by omega)]
      obtain ⟨r, hnormal, hr, -⟩ := exists_normalLane t h hform (Lanes.lane (8 <<< size) vn i)
        (Lanes.lane (8 <<< size) vm index) (Lanes.lane (8 <<< size) vd i)
      rw [hnormal, hr])
  refine ⟨rs, ?_, hsame⟩
  rw [hjoin]
  exact congrArg (fun o => o.bind fun (rs : List (BitVec 64)) =>
    some (collect (rs.map fun r => r.setWidth 128) (8 <<< size))) hnormal

/-- SQRDMLAH and SQRDMLSH. -/
theorem exists_rdmlah (sub : Bool) :
    ∃ rs, rdmlahIndexed t (if sub then 0x1f else 0x1d) size q index vn vm vd =
        some (join rs size) ∧
      ((split vn size q).zip
        ((split (Lanes.splat 128 (Lanes.lane (8 <<< size) vm index)) size q).zip
          (split vd size q))).mapM (fun (n, m, a) => sqrdmlah t sub n m a (8 <<< size)) =
        some rs := by
  have he := esize_le_32 h
  have hpos := esize_pos (Nat.le_succ_of_le h)
  have hsub : ((if sub then 0x1f else 0x1d) == 0x1f) = sub := by
    cases sub with
    | false => rfl
    | true => rfl
  obtain ⟨rs, hnormal, hsame, hjoin⟩ := exists_loops h q index vn vm vd
    (f := fun i => indexedSqrdmlah t sub (laneElem vn (8 <<< size) i) (elem vm (8 <<< size) index)
      (laneElem vd (8 <<< size) i) (8 <<< size))
    (g := fun n m a => sqrdmlah t sub n m a (8 <<< size))
    (fun x y d => exists_sqrdmlah t hpos he x y d sub)
    (fun i => by
      rw [laneElem_eq (by omega), laneElem_eq (by omega), elem_eq (by omega)]
      rfl)
  refine ⟨rs, ?_, hsame⟩
  rw [hjoin]
  unfold rdmlahIndexed
  rw [hsub]
  exact congrArg (fun o => o.bind fun (rs : List (BitVec 64)) =>
    some (collect (rs.map fun r => r.setWidth 128) (8 <<< size))) hnormal

omit h in
theorem sourceHalf_eq (he : e ≤ 64) (v : BitVec 128) (n : ℕ) :
    sourceHalf v e n q = (List.range n).map fun i => (Lanes.lane e
      (if q then (v >>> 64).setWidth 64 else v.setWidth 64 : BitVec 64) i).setWidth 64 := by
  unfold sourceHalf
  refine List.map_congr_left fun i _ => ?_
  rw [and_widthMask he, Lanes.lane_eq]

/-- The element in every lane of one half of a vector. -/
theorem lane_replicated_half {i : ℕ} (hi : i < 64 / (8 <<< size)) :
    Lanes.lane (8 <<< size) (if q then
        ((Lanes.splat 128 (Lanes.lane (8 <<< size) vm index) : BitVec 128) >>> 64).setWidth 64
      else (Lanes.splat 128 (Lanes.lane (8 <<< size) vm index)).setWidth 64 : BitVec 64) i =
      Lanes.lane (8 <<< size) vm index := by
  have hhalf : ∀ size ≤ 2, 64 / (8 <<< size) * (8 <<< size) = 64 ∧
      128 / (8 <<< size) = 2 * (64 / (8 <<< size)) := by decide
  obtain ⟨hmul, hcount⟩ := hhalf size h
  have hle : (i + 1) * (8 <<< size) ≤ 64 := by
    rw [← hmul]
    exact Nat.mul_le_mul_right _ hi
  rw [Nat.succ_mul] at hle
  generalize hx : Lanes.lane (8 <<< size) vm index = x
  cases q with
  | false =>
    have hlane := Lanes.lane_splat (n := 128) x (i := i) (by omega)
    refine Eq.trans ?_ hlane
    apply BitVec.eq_of_getLsbD_eq
    intro k hk
    rw [if_neg Bool.false_ne_true, Lanes.getLsbD_lane, Lanes.getLsbD_lane, BitVec.getLsbD_setWidth,
      decide_eq_true (by omega : i * (8 <<< size) + k < 64), Bool.true_and]
  | true =>
    have hlane := Lanes.lane_splat (n := 128) x (i := 64 / (8 <<< size) + i) (by omega)
    refine Eq.trans ?_ hlane
    apply BitVec.eq_of_getLsbD_eq
    intro k hk
    rw [if_pos rfl, Lanes.getLsbD_lane, Lanes.getLsbD_lane, BitVec.getLsbD_setWidth,
      BitVec.getLsbD_ushiftRight, decide_eq_true (by omega : i * (8 <<< size) + k < 64),
      Bool.true_and, Nat.add_mul, hmul, Nat.add_assoc]

/-- MULL, MLAL, MLSL and their saturating forms. -/
theorem exists_long {key opcode : ℕ} (u : Bool) (hform : (key, opcode) ∈ longForms) :
    ∃ v, intLong t key u size q index vn vm vd = some v ∧
      widening t opcode u (8 <<< size) (8 <<< size * 2) (64 / (8 <<< size)) q vn
        (Lanes.splat 128 (Lanes.lane (8 <<< size) vm index)) vd = some v := by
  have he := esize_le_32 h
  have hpos := esize_pos (Nat.le_succ_of_le h)
  generalize hhalf : (if q then (vn >>> 64).setWidth 64 else vn.setWidth 64 : BitVec 64) = half
  have hlane (i : ℕ) := exists_longLane t hpos he (Lanes.lane (8 <<< size) half i)
    (Lanes.lane (8 <<< size) vm index) u hform ((Lanes.lane (8 <<< size * 2) vn i).setWidth 64)
    (Lanes.lane (8 <<< size * 2) vd i)
  obtain ⟨rs, hrs, -, -⟩ := Loops.exists_mapM
    (f := fun (p : (BitVec 64 × BitVec 64) × BitVec 64 × BitVec 64) =>
      wideOp t opcode u (8 <<< size) (8 <<< size * 2) p.1.1 p.1.2 p.2.1 p.2.2)
    (g := fun i => (((Lanes.lane (8 <<< size) half i).setWidth 64,
      (Lanes.lane (8 <<< size) vm index).setWidth 64),
      (Lanes.lane (8 <<< size * 2) vn i).setWidth 64,
      (Lanes.lane (8 <<< size * 2) vd i).setWidth 64))
    (P := fun _ _ => True) (n := 64 / (8 <<< size)) fun i _ => by
      obtain ⟨prod, r, -, -, hr⟩ := hlane i
      exact ⟨_, hr, trivial⟩
  refine ⟨collect (rs.map fun r => (r &&& widthMask (8 <<< size * 2)).setWidth 128)
    (8 <<< size * 2), ?_, ?_⟩
  · have hstep (i : ℕ) : (do
          let prod ← t.signed 128 (ext u ((half >>> (i * (8 <<< size))) &&& widthMask (8 <<< size))
            (8 <<< size) * ext u (elem vm (8 <<< size) index) (8 <<< size))
          let r ← longOp t key (8 <<< size * 2) (laneElem vd (8 <<< size * 2) i) prod
          return (asU64 r &&& widthMask (8 <<< size * 2)).setWidth 128 : Option (BitVec 128)) =
        (wideOp t opcode u (8 <<< size) (8 <<< size * 2)
          ((Lanes.lane (8 <<< size) half i).setWidth 64)
          ((Lanes.lane (8 <<< size) vm index).setWidth 64)
          ((Lanes.lane (8 <<< size * 2) vn i).setWidth 64)
          ((Lanes.lane (8 <<< size * 2) vd i).setWidth 64)).map fun r =>
          (r &&& widthMask (8 <<< size * 2)).setWidth 128 := by
      obtain ⟨prod, r, hprod, hr, hwide⟩ := hlane i
      rw [and_widthMask (by omega), ← Lanes.lane_eq, elem_eq (by omega), laneElem_eq (by omega),
        hprod, hwide]
      show (longOp t key (8 <<< size * 2) _ prod).bind _ = _
      rw [hr]
      rfl
    rw [List.mapM_map] at hrs
    unfold intLong
    dsimp only
    rw [hhalf, Loops.mapM_congr fun i _ => hstep i, Loops.mapM_map_right]
    exact congrArg (fun o => (Option.map (List.map fun r =>
      (r &&& widthMask (8 <<< size * 2)).setWidth 128) o).bind fun rs =>
        some (collect rs (8 <<< size * 2))) hrs
  · have hvm : (List.range (64 / (8 <<< size))).map (fun i => (Lanes.lane (8 <<< size) (if q then
          ((Lanes.splat 128 (Lanes.lane (8 <<< size) vm index) : BitVec 128) >>> 64).setWidth 64
        else (Lanes.splat 128 (Lanes.lane (8 <<< size) vm index)).setWidth 64 : BitVec 64)
          i).setWidth 64) =
        (List.range (64 / (8 <<< size))).map fun _ =>
          (Lanes.lane (8 <<< size) vm index).setWidth 64 := by
      refine List.map_congr_left fun i hi => ?_
      rw [lane_replicated_half h q index vm (List.mem_range.mp hi)]
    unfold widening
    dsimp only
    rw [sourceHalf_eq q (by omega), sourceHalf_eq q (by omega), wideElems_eq _ (by omega),
      wideElems_eq _ (by omega), hvm, hhalf, List.zip_map', List.zip_map', List.zip_map']
    exact congrArg (fun o => o.bind fun (rs : List (BitVec 64)) => some (collect (rs.map fun r =>
      (r &&& widthMask (8 <<< size * 2)).setWidth 128) (8 <<< size * 2))) hrs

omit h in
/-- A byte of the element in every lane. -/
theorem leByte_replicated {i k : ℕ} (hi : i < 4) (hk : k < 4) :
    leByte (Lanes.splat 128 (Lanes.lane 32 vm index)) (i * 4 + k) = leByte vm (index * 4 + k) := by
  have hlane := Lanes.lane_splat (n := 128) (Lanes.lane 32 vm index) (i := i) (by omega)
  unfold leByte
  apply BitVec.eq_of_getLsbD_eq
  intro b hb
  have hbit := congrArg (BitVec.getLsbD · (8 * k + b)) hlane
  rw [Lanes.getLsbD_lane, Lanes.getLsbD_lane, decide_eq_true (by omega : 8 * k + b < 32),
    Bool.true_and, Bool.true_and] at hbit
  rw [BitVec.getLsbD_setWidth, BitVec.getLsbD_setWidth, BitVec.getLsbD_ushiftRight,
    BitVec.getLsbD_ushiftRight, show 8 * (i * 4 + k) + b = i * 32 + (8 * k + b) by omega,
    show 8 * (index * 4 + k) + b = index * 32 + (8 * k + b) by omega, hbit]

omit h in
/-- The loop reads the other operand byte by byte, for every element of 32 bits. -/
theorem dotLanes_congr (u : Bool) {mb mb' : ℕ → ℕ → BitVec 8}
    (hmb : ∀ i < 4, ∀ k < 4, mb i k = mb' i k) :
    dotLanes u q vn mb vd = dotLanes u q vn mb' vd := by
  have hcount : (if q then 4 else 2) ≤ 4 := by split_ifs <;> omega
  have hacc {i : ℕ} (hi : i < 4) (acc : BitVec 32) :
      (List.range 4).foldl
        (fun (acc : BitVec 32) k => acc + byteProduct u (leByte vn (i * 4 + k)) (mb i k)) acc =
      (List.range 4).foldl
        (fun (acc : BitVec 32) k => acc + byteProduct u (leByte vn (i * 4 + k)) (mb' i k)) acc := by
    refine List.foldl_ext _ _ _ fun acc k hk => ?_
    rw [hmb i hi k (List.mem_range.mp hk)]
  have hloop : (List.range (if q then 4 else 2)).foldl (fun (out : BitVec 128) i =>
      (out &&& ~~~((0xffffffff#128) <<< (i * 32))) ||| (((List.range 4).foldl
        (fun (acc : BitVec 32) k => acc + byteProduct u (leByte vn (i * 4 + k)) (mb i k))
        ((vd >>> (i * 32)).setWidth 32)).setWidth 128 <<< (i * 32))) vd =
      (List.range (if q then 4 else 2)).foldl (fun (out : BitVec 128) i =>
      (out &&& ~~~((0xffffffff#128) <<< (i * 32))) ||| (((List.range 4).foldl
        (fun (acc : BitVec 32) k => acc + byteProduct u (leByte vn (i * 4 + k)) (mb' i k))
        ((vd >>> (i * 32)).setWidth 32)).setWidth 128 <<< (i * 32))) vd := by
    refine List.foldl_ext _ _ _ fun out i hi => ?_
    rw [hacc (Nat.lt_of_lt_of_le (List.mem_range.mp hi) hcount)]
  exact congrArg (fun out => if q then out else out &&& lowHalf) hloop

omit h in
/-- SDOT and UDOT. -/
theorem dotIndexed_eq (u : Bool) :
    dotIndexed (if u then 0x1e else 0x0e) q index vn vm vd =
      dot u q vn (Lanes.splat 128 (Lanes.lane 32 vm index)) vd := by
  have hkey : ((if u then 0x1e else 0x0e) == 0x1e) = u := by
    cases u with
    | false => rfl
    | true => rfl
  unfold dotIndexed dot
  rw [hkey]
  exact dotLanes_congr q vn vd u fun i hi k hk => (leByte_replicated index vm hi hk).symm

end Register

/-! ## The vector form -/

/-- The vector instruction of the operation that a by-element one selects, on the vector `rm`. -/
def vectorForm (q u : Bool) (size opcode : ℕ) (rm rn rd : Reg) : Insn :=
  match indexedKey u opcode with
  | 0x08 => .simdThreeSame q false size 0b10011 rm rn rd -- MUL
  | 0x10 => .simdThreeSame q false size 0b10010 rm rn rd -- MLA
  | 0x14 => .simdThreeSame q true size 0b10010 rm rn rd -- MLS
  | 0x0c => .simdThreeSame q false size 0b10110 rm rn rd -- SQDMULH
  | 0x0d => .simdThreeSame q true size 0b10110 rm rn rd -- SQRDMULH
  | 0x1d => .simdThreeSameExtra q true size 0 rm rn rd -- SQRDMLAH
  | 0x1f => .simdThreeSameExtra q true size 1 rm rn rd -- SQRDMLSH
  | 0x0e => .simdThreeSameExtra q false size 2 rm rn rd -- SDOT
  | 0x1e => .simdThreeSameExtra q true size 2 rm rn rd -- UDOT
  | 0x0a | 0x1a => .simdThreeDiff q u size 0b1100 rm rn rd -- SMULL, UMULL
  | 0x02 | 0x12 => .simdThreeDiff q u size 0b1000 rm rn rd -- SMLAL, UMLAL
  | 0x06 | 0x16 => .simdThreeDiff q u size 0b1010 rm rn rd -- SMLSL, UMLSL
  | 0x0b => .simdThreeDiff q u size 0b1101 rm rn rd -- SQDMULL
  | 0x03 => .simdThreeDiff q u size 0b1001 rm rn rd -- SQDMLAL
  | _ => .simdThreeDiff q u size 0b1011 rm rn rd -- SQDMLSL

section Form

variable (t : Target) (rest : VecUnit) {size : ℕ} (h : size ≤ 2) (q u : Bool) (opcode index : ℕ)
  (w w' : VecView) {rm rm' rn rd : Reg}

/-- The two views differ in the register of the replicated element. -/
structure Replicated (size index : ℕ) (w w' : VecView) (rm rm' rn rd : Reg) : Prop where
  rn : w'.v rn = w.v rn
  rd : w'.v rd = w.v rd
  rm : w'.v rm' = Lanes.splat 128 (Lanes.lane (8 <<< size) (w.v rm) index)

variable {w w'} (hw : Replicated size index w w' rm rm' rn rd)

include h hw

theorem exists_indexed_normal {key op : ℕ} {u' : Bool} (hform : (key, op, u') ∈ normalForms) :
    ∃ v, intNormal t key size q index (w.v rn) (w.v rm) (w.v rd) = some v ∧
      threeSame t w' q u' size op rm' rn rd = some (w'.setV rd v) := by
  obtain ⟨rs, hnormal, hlanes⟩ := exists_normal t h q index (w.v rn) (w.v rm) (w.v rd) hform
  rw [← hw.rn, ← hw.rd, ← hw.rm] at hlanes
  refine ⟨_, hnormal, ?_⟩
  have hbind := congrArg (fun o => o.bind fun lanes => some (w'.setV rd (join lanes size))) hlanes
  simp only [normalForms, List.mem_cons, Prod.mk.injEq, List.not_mem_nil, or_false] at hform
  obtain ⟨-, rfl, rfl⟩ | ⟨-, rfl, rfl⟩ | ⟨-, rfl, rfl⟩ | ⟨-, rfl, rfl⟩ | ⟨-, rfl, rfl⟩ := hform
  · exact hbind
  · exact hbind
  · exact hbind
  · exact hbind
  · exact hbind

theorem exists_indexed_rdmlah (sub : Bool) :
    ∃ v, rdmlahIndexed t (if sub then 0x1f else 0x1d) size q index (w.v rn) (w.v rm) (w.v rd) =
        some v ∧
      threeSameExtra t w' q true size (if sub then 1 else 0) rm' rn rd = some (w'.setV rd v) := by
  obtain ⟨rs, hnormal, hlanes⟩ := exists_rdmlah t h q index (w.v rn) (w.v rm) (w.v rd) sub
  rw [← hw.rn, ← hw.rd, ← hw.rm] at hlanes
  refine ⟨_, hnormal, ?_⟩
  have hbind := congrArg (fun o => o.bind fun lanes => some (w'.setV rd (join lanes size))) hlanes
  cases sub with
  | false => exact hbind
  | true => exact hbind

theorem exists_indexed_long {key op : ℕ} (hform : (key, op) ∈ longForms) :
    ∃ v, intLong t key u size q index (w.v rn) (w.v rm) (w.v rd) = some v ∧
      threeDiff t w' q u size op rm' rn rd = some (w'.setV rd v) := by
  obtain ⟨v, hlong, hwide⟩ := exists_long t h q index (w.v rn) (w.v rm) (w.v rd) u hform
  rw [← hw.rn, ← hw.rd, ← hw.rm] at hwide
  refine ⟨v, hlong, ?_⟩
  have hbind := congrArg (fun o => o.bind fun result => some (w'.setV rd result)) hwide
  have hop : ∀ p ∈ longForms, p.2 ≠ 0b0100 ∧ p.2 ≠ 0b0110 := by decide
  obtain ⟨h4, h6⟩ := hop (key, op) hform
  unfold threeDiff
  dsimp only
  split
  · exact absurd rfl h4
  · exact absurd rfl h6
  · exact hbind

/-- A by-element instruction leaves what the vector form leaves. -/
theorem exists_indexed (hkey : indexedKey u opcode ∈ elementKeys ∨
      (indexedKey u opcode ∈ [0x0e, 0x1e] ∧ size = 2)) :
    ∃ v, indexed t w q u size opcode index rm rn rd = some (w.setV rd v) ∧
      vecUnit t rest (vectorForm q u size opcode rm' rn rd) w' = some (w'.setV rd v) := by
  have hnormal (key op : ℕ) (u' : Bool) (hform : (key, op, u') ∈ normalForms) :
      ∃ v, ((intNormal t key size q index (w.v rn) (w.v rm) (w.v rd)).bind fun result =>
          some (w.setV rd result)) = some (w.setV rd v) ∧
        threeSame t w' q u' size op rm' rn rd = some (w'.setV rd v) := by
    obtain ⟨v, hv, hvec⟩ := exists_indexed_normal t h q index hw hform
    exact ⟨v, by rw [hv]; rfl, hvec⟩
  have hlong (key op : ℕ) (hform : (key, op) ∈ longForms) :
      ∃ v, ((intLong t key u size q index (w.v rn) (w.v rm) (w.v rd)).bind fun result =>
          some (w.setV rd result)) = some (w.setV rd v) ∧
        threeDiff t w' q u size op rm' rn rd = some (w'.setV rd v) := by
    obtain ⟨v, hv, hvec⟩ := exists_indexed_long t h q u index hw hform
    exact ⟨v, by rw [hv]; rfl, hvec⟩
  have hrdmlah (sub : Bool) :
      ∃ v, ((rdmlahIndexed t (if sub then 0x1f else 0x1d) size q index (w.v rn) (w.v rm)
          (w.v rd)).bind fun result => some (w.setV rd result)) = some (w.setV rd v) ∧
        threeSameExtra t w' q true size (if sub then 1 else 0) rm' rn rd =
          some (w'.setV rd v) := by
    obtain ⟨v, hv, hvec⟩ := exists_indexed_rdmlah t h q index hw sub
    exact ⟨v, by rw [hv]; rfl, hvec⟩
  unfold indexed vectorForm
  dsimp only
  generalize indexedKey u opcode = key at hkey
  simp only [elementKeys, List.mem_cons, List.not_mem_nil, or_false] at hkey
  rcases hkey with hkey | ⟨hkey, rfl⟩
  · obtain rfl | rfl | rfl | rfl | rfl | rfl | rfl | rfl | rfl | rfl | rfl | rfl | rfl | rfl |
      rfl | rfl := hkey
    · exact hnormal 0x08 0b10011 false (by decide)
    · exact hnormal 0x10 0b10010 false (by decide)
    · exact hnormal 0x14 0b10010 true (by decide)
    · exact hlong 0x02 0b1000 (by decide)
    · exact hlong 0x12 0b1000 (by decide)
    · exact hlong 0x06 0b1010 (by decide)
    · exact hlong 0x16 0b1010 (by decide)
    · exact hlong 0x0a 0b1100 (by decide)
    · exact hlong 0x1a 0b1100 (by decide)
    · exact hlong 0x03 0b1001 (by decide)
    · exact hlong 0x07 0b1011 (by decide)
    · exact hlong 0x0b 0b1101 (by decide)
    · exact hnormal 0x0c 0b10110 false (by decide)
    · exact hnormal 0x0d 0b10110 true (by decide)
    · exact hrdmlah false
    · exact hrdmlah true
  · have hdot (u : Bool) : threeSameExtra t w' q u 2 2 rm' rn rd = some (w'.setV rd
        (dotIndexed (if u then 0x1e else 0x0e) q index (w.v rn) (w.v rm) (w.v rd))) := by
      have hrm : w'.v rm' = Lanes.splat 128 (Lanes.lane 32 (w.v rm) index) := hw.rm
      rw [dotIndexed_eq, ← hrm, ← hw.rn, ← hw.rd]
      rfl
    obtain rfl | rfl := hkey
    · exact ⟨_, rfl, hdot false⟩
    · exact ⟨_, rfl, hdot true⟩

end Form

/-! ## The instructions -/

/-- The width of the element that a by-element instruction leaves. -/
def resultBits (u : Bool) (size opcode : ℕ) : ℕ :=
  if indexedKey u opcode ∈ [0x03, 0x07, 0x0b] then 2 * (8 <<< size) else 8 <<< size

/-- A scalar form keeps the lowest lane. -/
theorem scalarIndexed_eq (t : Target) (w : VecView) {u : Bool} {size opcode index : ℕ}
    {rm rn rd : Reg} {v : BitVec 128} (hsize : size ≤ 2)
    (hkey : indexedKey u opcode ∈ [0x03, 0x07, 0x0b, 0x0c, 0x0d])
    (h : indexed t w false u size opcode index rm rn rd = some (w.setV rd v)) :
    scalarIndexed t w u size opcode index rm rn rd =
      some (w.setV rd ((Lanes.lane (resultBits u size opcode) v 0).setWidth 128)) := by
  have he := esize_le_32 hsize
  have hbits : resultBits u size opcode ≤ 128 := by
    unfold resultBits
    split_ifs <;> omega
  unfold scalarIndexed
  rw [h]
  have hkeep := congrArg some (keepLow_setV w rd v hbits)
  unfold resultBits at hkeep ⊢
  generalize indexedKey u opcode = key at hkey hkeep
  simp only [List.mem_cons, List.not_mem_nil, or_false] at hkey
  obtain rfl | rfl | rfl | rfl | rfl := hkey
  · exact hkeep
  · exact hkeep
  · exact hkeep
  · exact hkeep
  · exact hkeep

variable {M : Type} [GuestMem M] (t : Target) (rest : VecUnit) (g : Guest M) (pc : BitVec 64)

/-- The vector form goes to the vector unit. -/
theorem execute_vectorForm (q u : Bool) (size opcode : ℕ) (rm rn rd : Reg) :
    execute (vecUnit t rest) g (vectorForm q u size opcode rm rn rd) pc =
      (vecUnit t rest (vectorForm q u size opcode rm rn rd) (vecView g.cpu)).bind
        fun w => seq g (setVecView g.cpu w) := by
  unfold vectorForm
  split <;> rfl

/-- **By element and by vector agree.** With the selected element of `rm` in every lane of a
    register `rm'` that the instruction does not use otherwise, the vector instruction leaves
    the same `rd`, in every build, and the scalar form leaves lane 0 of it below zeros. -/
theorem execute_indexed (word : BitVec 32) {q u : Bool} {size opcode index : ℕ}
    {rm rn rd rm' : Reg} (hint : isFpKey (indexedKey u opcode) = false) (hrn : rm' ≠ rn)
    (hrd : rm' ≠ rd) :
    let g' := g.setV rm' (Lanes.splat 128 (Lanes.lane (8 <<< size) (g.cpu.v rm) index))
    (decode word = .simdIndexed q u size opcode index rm rn rd → ∃ v,
      execute (vecUnit t rest) g (decode word) pc = some (none, g.setV rd v) ∧
      execute (vecUnit t rest) g' (vectorForm q u size opcode rm' rn rd) pc =
        some (none, g'.setV rd v)) ∧
    (decode word = .simdScalarIndexed u size opcode index rm rn rd → ∃ v,
      execute (vecUnit t rest) g (decode word) pc = some (none,
        g.setV rd ((Lanes.lane (resultBits u size opcode) v 0).setWidth 128)) ∧
      execute (vecUnit t rest) g' (vectorForm false u size opcode rm' rn rd) pc =
        some (none, g'.setV rd v)) := by
  intro g'
  have hw : Replicated size index (vecView g.cpu) (vecView g'.cpu) rm rm' rn rd :=
    ⟨Function.update_of_ne hrn.symm _ _, Function.update_of_ne hrd.symm _ _,
      Function.update_self _ _ _⟩
  have hfp : indexedKey u opcode ∉ [0x01, 0x05, 0x09, 0x19] := by
    intro hmem
    have hcontains : isFpKey (indexedKey u opcode) = true := List.elem_iff.mpr hmem
    rw [hint] at hcontains
    exact Bool.noConfusion hcontains
  have hok := vecFieldsOk_decode word
  have hvector {q : Bool} {v : BitVec 128}
      (h : vecUnit t rest (vectorForm q u size opcode rm' rn rd) (vecView g'.cpu) =
        some ((vecView g'.cpu).setV rd v)) :
      execute (vecUnit t rest) g' (vectorForm q u size opcode rm' rn rd) pc =
        some (none, g'.setV rd v) := by
    rw [execute_vectorForm, h]
    rfl
  constructor
  · intro hword
    rw [hword] at hok ⊢
    have hkey : size ≤ 2 ∧ (indexedKey u opcode ∈ elementKeys ∨
        (indexedKey u opcode ∈ [0x0e, 0x1e] ∧ size = 2)) := by
      rcases hok.1 with hkey | ⟨hkey, rfl⟩ | ⟨hkey, hsize⟩
      · exact absurd hkey hfp
      · exact ⟨le_refl 2, .inr ⟨hkey, rfl⟩⟩
      · exact ⟨by omega, .inl hkey⟩
    obtain ⟨v, hv, hvec⟩ := exists_indexed t rest hkey.1 q u opcode index hw hkey.2
    refine ⟨v, ?_, hvector hvec⟩
    show ((if isFpKey (indexedKey u opcode) then _ else _ : Option VecView).bind _) = _
    rw [hint, if_neg Bool.false_ne_true, hv]
    rfl
  · intro hword
    rw [hword] at hok ⊢
    have hkey : size ≤ 2 ∧ indexedKey u opcode ∈ [0x03, 0x07, 0x0b, 0x0c, 0x0d] := by
      rcases hok.1 with hkey | ⟨hkey, hsize⟩
      · exact absurd hkey hfp
      · exact ⟨by omega, hkey⟩
    have hmem : ∀ key ∈ [0x03, 0x07, 0x0b, 0x0c, 0x0d], key ∈ elementKeys := by decide
    obtain ⟨v, hv, hvec⟩ := exists_indexed t rest hkey.1 false u opcode index hw
      (.inl (hmem _ hkey.2))
    refine ⟨v, ?_, hvector hvec⟩
    show ((if isFpKey (indexedKey u opcode) then _ else _ : Option VecView).bind _) = _
    rw [hint, if_neg Bool.false_ne_true, scalarIndexed_eq t (vecView g.cpu) hkey.1 hkey.2 hv]
    rfl

/-- SQDMLAL of the upper halfwords of V1 by halfword 7 of V2 into V0. -/
theorem execute_indexed_sqdmlal :
    ∃ v, execute (vecUnit Target.debug64 fun _ _ => none)
        (vecGuest fun r => BitVec.ofNat 128 (2 ^ 127 + r)) (decode 0x4f723820) 0 =
        some (none, (vecGuest fun r => BitVec.ofNat 128 (2 ^ 127 + r)).setV 0 v) ∧
      execute (vecUnit Target.debug64 fun _ _ => none)
        ((vecGuest fun r => BitVec.ofNat 128 (2 ^ 127 + r)).setV 2
          (Lanes.splat 128 (Lanes.lane 16 (BitVec.ofNat 128 (2 ^ 127 + 2)) 7)))
        (.simdThreeDiff true false 1 0b1001 2 1 0) 0 =
        some (none, ((vecGuest fun r => BitVec.ofNat 128 (2 ^ 127 + r)).setV 2
          (Lanes.splat 128 (Lanes.lane 16 (BitVec.ofNat 128 (2 ^ 127 + 2)) 7))).setV 0 v) :=
  (execute_indexed Target.debug64 (fun _ _ => none)
    (vecGuest fun r => BitVec.ofNat 128 (2 ^ 127 + r)) 0 0x4f723820 rfl
    (by decide : (2 : Reg) ≠ 1) (by decide)).1 rfl

end V64.Interp.Simd
