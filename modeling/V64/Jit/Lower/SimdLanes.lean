import V64.Interp.Simd.RegShift
import V64.Jit.VecImage
import V64.Lib.Wasm.LaneFacts

/-!
# Lanes of the interpreter and of the emitted code

The interpreter holds a lane in a `u64` and cuts the result; WebAssembly computes at the
width of the lane.

* `hasLanes_finish`: the lanes that `finish_v` leaves.
* `simpleOp_spec`: the operator of `simple_op` is that of the interpreter.
-/

namespace V64.Jit

open V64.Cpu V64.Decoder V64.Interp V64.Interp.Simd Checked Wasm
open Wasm.Instr

/-! ## Shapes and results -/

theorem bits_shapeOf {size : ℕ} (h : size ≤ 3) : (shapeOf size).bits = 8 <<< size := by
  revert size
  decide

theorem laneCount_le {size : ℕ} (h : size ≤ 3) (q : Bool) :
    laneCount size q ≤ 128 / (8 <<< size) := by
  revert size q
  decide

theorem finish_true (v : BitVec 128) : finish true v = v := rfl

theorem getLsbD_finish (v : BitVec 128) {q : Bool} {k : ℕ} (hk : k < if q then 128 else 64) :
    (finish q v).getLsbD k = v.getLsbD k := by
  cases q with
  | true => rfl
  | false =>
    have hmask : (0xffffffffffffffff#128).getLsbD k = decide (k < 64) :=
      Words.getLsbD_ones (by decide : 64 < 128) k
    have hk : k < 64 := hk
    show (v &&& 0xffffffffffffffff#128).getLsbD k = _
    rw [BitVec.getLsbD_and, hmask, decide_eq_true hk, Bool.and_true]

theorem narrow_finish (q : Bool) (v : BitVec 128) :
    Lanes.Narrow (if q then 128 else 64) (finish q v) := by
  intro k hk
  cases q with
  | true => exact BitVec.getLsbD_of_ge v k hk
  | false =>
    have hmask : (0xffffffffffffffff#128).getLsbD k = decide (k < 64) :=
      Words.getLsbD_ones (by decide : 64 < 128) k
    have hk : 64 ≤ k := hk
    show (v &&& 0xffffffffffffffff#128).getLsbD k = false
    rw [BitVec.getLsbD_and, hmask, decide_eq_false (Nat.not_lt_of_le hk), Bool.and_false]

/-- A result cut to the arrangement keeps the lanes of the arrangement. -/
theorem hasLanes_finish {size : ℕ} (h : size ≤ 3) {q : Bool} {f : ℕ → BitVec (8 <<< size)}
    {v : BitVec 128} (hlanes : ∀ i < laneCount size q, Lanes.lane (8 <<< size) v i = f i) :
    HasLanes size q f (finish q v) := by
  refine ⟨fun i hi => ?_, narrow_finish q v⟩
  have hcount := laneCount_mul h q
  have hle : (i + 1) * (8 <<< size) ≤ laneCount size q * (8 <<< size) :=
    Nat.mul_le_mul_right _ hi
  rw [hcount, Nat.succ_mul] at hle
  rw [← hlanes i hi]
  apply BitVec.eq_of_getLsbD_eq
  intro k hk
  rw [Lanes.getLsbD_lane, Lanes.getLsbD_lane, getLsbD_finish v (by omega)]

/-! ## Arithmetic -/

section Arith

variable {e : ℕ} (hpos : 0 < e) (he : e ≤ 64) (x y : BitVec e)

include he in
theorem setWidth_cut : (x.setWidth 64).setWidth e = x := by
  rw [BitVec.setWidth_setWidth_of_le _ he, BitVec.setWidth_eq]

include he in
theorem setWidth_add : (x.setWidth 64 + y.setWidth 64).setWidth e = x + y := by
  rw [BitVec.setWidth_add _ _ he, setWidth_cut he, setWidth_cut he]

include he in
theorem setWidth_sub : (x.setWidth 64 - y.setWidth 64).setWidth e = x - y := by
  rw [BitVec.sub_eq_add_neg, BitVec.setWidth_add _ _ he, BitVec.setWidth_neg_of_le he,
    setWidth_cut he, setWidth_cut he, ← BitVec.sub_eq_add_neg]

include he in
theorem setWidth_mul : (x.setWidth 64 * y.setWidth 64).setWidth e = x * y := by
  rw [BitVec.setWidth_mul _ _ he, setWidth_cut he, setWidth_cut he]

include hpos in
/-- Saturating at the end that the first operand is on. -/
theorem ofInt_saturate {v : ℤ} {p : Prop} [Decidable p] {z : BitVec e}
    (hover : p ↔ 2 ^ (e - 1) ≤ v ∨ v < -2 ^ (e - 1)) (hz : BitVec.ofInt e v = z)
    (hhigh : 2 ^ (e - 1) ≤ v → x.msb = false) (hlow : v < -2 ^ (e - 1) → x.msb = true) :
    BitVec.ofInt e (saturate false e v) = if p then saturateS x else z := by
  have hhalf := two_pow_pos (e - 1)
  unfold saturate
  rw [if_neg Bool.false_ne_true]
  by_cases hp : p
  · rw [if_pos hp]
    obtain hv | hv := hover.mp hp
    · rw [min_eq_right (by omega), max_eq_right (by omega), saturateS, hhigh hv,
        if_neg Bool.false_ne_true]
      rw [← BitVec.toInt_intMax, BitVec.ofInt_toInt]
    · rw [min_eq_left (by omega), max_eq_left (by omega), saturateS, hlow hv, if_pos rfl,
        ← BitVec.toInt_intMin_of_pos hpos, BitVec.ofInt_toInt]
  · have hv : ¬ (2 ^ (e - 1) ≤ v ∨ v < -2 ^ (e - 1)) := fun h => hp (hover.mpr h)
    rw [if_neg hp, min_eq_left (by omega), max_eq_right (by omega), hz]

include he in
/-- An unsigned sum that saturates at the mask. -/
theorem exists_satAddU (t : Target) :
    ∃ r, satAdd t true (x.setWidth 64) (y.setWidth 64) e = some r ∧
      r.setWidth e = LaneBinOp.eval .addSatU x y := by
  refine ⟨_, rfl, ?_⟩
  have hx := x.isLt
  have hy := y.isLt
  have hpow : 2 ^ e ≤ 2 ^ 64 := Nat.pow_le_pow_right (by decide) he
  have hone := Nat.one_le_two_pow (n := e)
  rw [toNat_setWidth_64 he, toNat_setWidth_64 he, toNat_widthMask he]
  apply BitVec.eq_of_toNat_eq
  rw [BitVec.toNat_setWidth, BitVec.toNat_ofNat, Nat.mod_mod_of_dvd _ (Nat.pow_dvd_pow 2 he)]
  unfold LaneBinOp.eval
  by_cases hover : 2 ^ e ≤ x.toNat + y.toNat
  · have hflag : x.uaddOverflow y = true := decide_eq_true hover
    rw [if_pos hflag, BitVec.toNat_allOnes, Nat.min_eq_right (by omega),
      Nat.mod_eq_of_lt (by omega)]
  · have hflag : ¬ x.uaddOverflow y = true := fun h => hover (of_decide_eq_true h)
    rw [if_neg hflag, BitVec.toNat_add, Nat.min_eq_left (by omega)]

include hpos he in
theorem exists_satAddS (t : Target) :
    ∃ r, satAdd t false (x.setWidth 64) (y.setWidth 64) e = some r ∧
      r.setWidth e = LaneBinOp.eval .addSatS x y := by
  have hxlo := BitVec.le_toInt x
  have hxhi := BitVec.toInt_lt (x := x)
  have hylo := BitVec.le_toInt y
  have hyhi := BitVec.toInt_lt (x := y)
  have hhalf : (2 : ℤ) ^ (e - 1) ≤ 2 ^ 63 := by
    exact_mod_cast Nat.pow_le_pow_right (by decide) (by omega)
  have hsum : t.signed 128 (x.toInt + y.toInt) = some (x.toInt + y.toInt) :=
    Target.signed_of_range (by decide) (by norm_num; omega) (by norm_num; omega)
  have hlane : satAdd t false (x.setWidth 64) (y.setWidth 64) e =
      some (asU64 (clamp (signedRange e) (x.toInt + y.toInt)) &&& Simd.widthMask e) := by
    unfold satAdd
    rw [sx_setWidth hpos he, sx_setWidth hpos he]
    simp only [Bool.false_eq_true, if_false, hsum]
    rfl
  refine ⟨_, hlane, ?_⟩
  have hclamp : clamp (signedRange e) (x.toInt + y.toInt) = saturate false e (x.toInt + y.toInt) :=
    clamp_eq_saturate he false _
  rw [setWidth_and_widthMask he, asU64_setWidth he, hclamp]
  refine ofInt_saturate hpos x (p := x.saddOverflow y = true) ?_ ?_ ?_ ?_
  · simp only [BitVec.saddOverflow, Bool.or_eq_true, decide_eq_true_eq, ge_iff_le]
  · rw [BitVec.ofInt_add, BitVec.ofInt_toInt, BitVec.ofInt_toInt]
  · intro h
    rw [BitVec.msb_eq_toInt, decide_eq_false (by omega)]
  · intro h
    rw [BitVec.msb_eq_toInt, decide_eq_true (by omega)]

include he in
/-- An unsigned difference that saturates at zero. -/
theorem exists_satSubU (t : Target) :
    ∃ r, satSub t true (x.setWidth 64) (y.setWidth 64) e = some r ∧
      r.setWidth e = LaneBinOp.eval .subSatU x y := by
  refine ⟨_, rfl, ?_⟩
  have hle : y.setWidth 64 ≤ x.setWidth 64 ↔ ¬ x < y := by
    rw [BitVec.le_def, toNat_setWidth_64 he, toNat_setWidth_64 he, BitVec.lt_def, Nat.not_lt]
  unfold LaneBinOp.eval
  by_cases hlt : x < y
  · rw [if_neg (fun h => hle.mp h hlt), if_pos hlt]
    exact BitVec.setWidth_zero ..
  · rw [if_pos (hle.mpr hlt), if_neg hlt]
    exact setWidth_sub he x y

include hpos he in
theorem exists_satSubS (t : Target) :
    ∃ r, satSub t false (x.setWidth 64) (y.setWidth 64) e = some r ∧
      r.setWidth e = LaneBinOp.eval .subSatS x y := by
  have hxlo := BitVec.le_toInt x
  have hxhi := BitVec.toInt_lt (x := x)
  have hylo := BitVec.le_toInt y
  have hyhi := BitVec.toInt_lt (x := y)
  have hhalf : (2 : ℤ) ^ (e - 1) ≤ 2 ^ 63 := by
    exact_mod_cast Nat.pow_le_pow_right (by decide) (by omega)
  have hdiff : t.signed 128 (x.toInt - y.toInt) = some (x.toInt - y.toInt) :=
    Target.signed_of_range (by decide) (by norm_num; omega) (by norm_num; omega)
  have hlane : satSub t false (x.setWidth 64) (y.setWidth 64) e =
      some (asU64 (clamp (signedRange e) (x.toInt - y.toInt)) &&& Simd.widthMask e) := by
    unfold satSub
    rw [sx_setWidth hpos he, sx_setWidth hpos he]
    simp only [Bool.false_eq_true, if_false, hdiff]
    rfl
  refine ⟨_, hlane, ?_⟩
  have hclamp : clamp (signedRange e) (x.toInt - y.toInt) = saturate false e (x.toInt - y.toInt) :=
    clamp_eq_saturate he false _
  rw [setWidth_and_widthMask he, asU64_setWidth he, hclamp]
  refine ofInt_saturate hpos x (p := x.ssubOverflow y = true) ?_ ?_ ?_ ?_
  · simp only [BitVec.ssubOverflow, Bool.or_eq_true, decide_eq_true_eq, ge_iff_le]
  · rw [Int.sub_eq_add_neg, BitVec.ofInt_add, BitVec.ofInt_neg, BitVec.ofInt_toInt,
      BitVec.ofInt_toInt, ← BitVec.sub_eq_add_neg]
  · intro h
    rw [BitVec.msb_eq_toInt, decide_eq_false (by omega)]
  · intro h
    rw [BitVec.msb_eq_toInt, decide_eq_true (by omega)]

/-! ## Comparisons -/

include he in
theorem setWidth_boolLane (c : Bool) :
    (boolLane c (Simd.widthMask e)).setWidth e = if c then BitVec.allOnes e else 0 := by
  cases c with
  | true =>
    have hmask := setWidth_and_widthMask he (BitVec.allOnes 64)
    rw [BitVec.allOnes_and] at hmask
    rw [boolLane, if_pos rfl, if_pos rfl, hmask]
    apply BitVec.eq_of_getLsbD_eq
    intro k hk
    rw [BitVec.getLsbD_setWidth, BitVec.getLsbD_allOnes, BitVec.getLsbD_allOnes,
      decide_eq_true hk, decide_eq_true (by omega : k < 64)]
    rfl
  | false => exact BitVec.setWidth_zero ..

include he in
theorem lt_setWidth : x.setWidth 64 < y.setWidth 64 ↔ x < y := by
  rw [BitVec.lt_def, BitVec.lt_def, toNat_setWidth_64 he, toNat_setWidth_64 he]

include he in
theorem le_setWidth : x.setWidth 64 ≤ y.setWidth 64 ↔ x ≤ y := by
  rw [BitVec.le_def, BitVec.le_def, toNat_setWidth_64 he, toNat_setWidth_64 he]

include hpos he in
theorem setWidth_maxLane {size : ℕ} (hsize : 8 <<< size = e) (u : Bool) :
    (maxLane u size (x.setWidth 64) (y.setWidth 64)).setWidth e =
      LaneBinOp.eval (if u then .maxU else .maxS) x y := by
  subst hsize
  unfold maxLane
  dsimp only
  cases u with
  | true =>
    rw [if_pos rfl, if_pos rfl, LaneBinOp.eval, apply_ite (BitVec.setWidth _), setWidth_cut he,
      setWidth_cut he]
    by_cases hlt : x < y
    · rw [if_pos ((le_setWidth he x y).mpr (BitVec.le_of_lt hlt)), if_pos hlt]
    · rw [if_neg hlt]
      split_ifs with hle
      · exact BitVec.le_antisymm (BitVec.not_lt.mp hlt) ((le_setWidth he x y).mp hle)
      · rfl
  | false =>
    rw [if_neg Bool.false_ne_true, if_neg Bool.false_ne_true, sx_setWidth hpos he,
      sx_setWidth hpos he, LaneBinOp.eval, apply_ite (BitVec.setWidth _), setWidth_cut he,
      setWidth_cut he]
    by_cases hlt : x.toInt < y.toInt
    · rw [if_neg (by omega), if_pos (BitVec.slt_iff_toInt_lt.mpr hlt)]
    · rw [if_pos (by omega), if_neg fun h => hlt (BitVec.slt_iff_toInt_lt.mp h)]

include hpos he in
theorem setWidth_minLane {size : ℕ} (hsize : 8 <<< size = e) (u : Bool) :
    (minLane u size (x.setWidth 64) (y.setWidth 64)).setWidth e =
      LaneBinOp.eval (if u then .minU else .minS) x y := by
  subst hsize
  unfold minLane
  dsimp only
  cases u with
  | true =>
    rw [if_pos rfl, if_pos rfl, LaneBinOp.eval, apply_ite (BitVec.setWidth _), setWidth_cut he,
      setWidth_cut he]
    by_cases hlt : x < y
    · rw [if_pos ((le_setWidth he x y).mpr (BitVec.le_of_lt hlt)), if_pos hlt]
    · rw [if_neg hlt]
      split_ifs with hle
      · exact BitVec.le_antisymm ((le_setWidth he x y).mp hle) (BitVec.not_lt.mp hlt)
      · rfl
  | false =>
    rw [if_neg Bool.false_ne_true, if_neg Bool.false_ne_true, sx_setWidth hpos he,
      sx_setWidth hpos he, LaneBinOp.eval, apply_ite (BitVec.setWidth _), setWidth_cut he,
      setWidth_cut he]
    by_cases hlt : x.toInt < y.toInt
    · rw [if_pos (by omega), if_pos (BitVec.slt_iff_toInt_lt.mpr hlt)]
    · rw [if_neg fun h => hlt (BitVec.slt_iff_toInt_lt.mp h)]
      split_ifs with hle
      · exact BitVec.eq_of_toInt_eq (by omega)
      · rfl

include he in
/-- A comparison leaves the mask of its lane. -/
theorem setWidth_rel (op : LaneRelOp) {c : Bool} (hc : c = op.holds x y) :
    (boolLane c (Simd.widthMask e)).setWidth e = op.eval x y := by
  rw [setWidth_boolLane he, hc]
  rfl

end Arith

/-! ## Three registers -/

section ThreeSame

variable {size : ℕ}

/-- The code leaves the lanes of `φ` for two vectors on the stack. -/
def LaneWise (M : Type) [LinearMemory M] (size : ℕ) (ops : List Instr)
    (φ : BitVec (8 <<< size) → BitVec (8 <<< size) → BitVec (8 <<< size)) : Prop :=
  ∀ a b, ∃ r,
    (∀ fuel st l (m : M), exec fuel ops ⟨.v128 b :: .v128 a :: st, l, m⟩ =
      .next ⟨.v128 r :: st, l, m⟩) ∧
    ∀ i < 128 / (8 <<< size), Lanes.lane (8 <<< size) r i =
      φ (Lanes.lane (8 <<< size) a i) (Lanes.lane (8 <<< size) b i)

/-- The interpreter computes `φ` in a lane. -/
def LaneExec (t : Target) (size : ℕ) (u : Bool) (opcode : ℕ)
    (φ : BitVec (8 <<< size) → BitVec (8 <<< size) → BitVec (8 <<< size)) : Prop :=
  ∀ x y d, ∃ r, Simd.lane t opcode u size (x.setWidth 64) (y.setWidth 64) d = some r ∧
    r.setWidth (8 <<< size) = φ x y

variable {M : Type} [LinearMemory M] (h : size ≤ 3)

include h

theorem laneWise_bin (op : LaneBinOp) : LaneWise M size [laneBin (shapeOf size) op] op.eval := by
  intro a b
  refine ⟨zipLanes (shapeOf size) op.eval a b, fun fuel st l m => ?_, fun i hi =>
    lane_laneBin (bits_shapeOf h) a b hi op⟩
  rw [exec_simd rfl, exec_nil]

theorem laneWise_rel (op : LaneRelOp) : LaneWise M size [laneRel (shapeOf size) op] op.eval := by
  intro a b
  refine ⟨zipLanes (shapeOf size) op.eval a b, fun fuel st l m => ?_, fun i hi =>
    lane_laneRel (bits_shapeOf h) a b hi op⟩
  rw [exec_simd rfl, exec_nil]

/-- The instruction of `simple_op` and the lane of the interpreter compute the same. -/
theorem simpleOp_spec (t : Target) {u : Bool} {opcode : ℕ} {op : Instr}
    (hop : simpleOp u size opcode = some op) :
    ∃ φ, LaneWise M size [op] φ ∧ LaneExec t size u opcode φ := by
  have hpos := esize_pos h
  have he := esize_le h
  unfold simpleOp at hop
  dsimp only at hop
  split at hop
  · -- SQADD, UQADD
    cases u with
    | false =>
      cases (Option.ite_none_right_eq_some.mp hop).2
      exact ⟨_, laneWise_bin h _, fun x y d => exists_satAddS hpos he x y t⟩
    | true =>
      cases (Option.ite_none_right_eq_some.mp hop).2
      exact ⟨_, laneWise_bin h _, fun x y d => exists_satAddU he x y t⟩
  · -- SQSUB, UQSUB
    cases u with
    | false =>
      cases (Option.ite_none_right_eq_some.mp hop).2
      exact ⟨_, laneWise_bin h _, fun x y d => exists_satSubS hpos he x y t⟩
    | true =>
      cases (Option.ite_none_right_eq_some.mp hop).2
      exact ⟨_, laneWise_bin h _, fun x y d => exists_satSubU he x y t⟩
  · -- ADD, SUB
    cases hop
    refine ⟨_, laneWise_bin h _, fun x y d => ⟨_, rfl, ?_⟩⟩
    cases u with
    | false => exact (setWidth_and_widthMask he _).trans (setWidth_add he x y)
    | true => exact (setWidth_and_widthMask he _).trans (setWidth_sub he x y)
  · -- MUL
    split_ifs at hop with hmul
    cases hop
    obtain rfl : u = false := by simpa using hmul.1
    refine ⟨_, laneWise_bin h _, fun x y d => ⟨_, rfl, ?_⟩⟩
    exact (setWidth_and_widthMask he _).trans (setWidth_mul he x y)
  · -- CMGT, CMHI
    cases u with
    | false =>
      cases hop
      refine ⟨_, laneWise_rel h _, fun x y d => ⟨_, rfl, setWidth_rel he x y .gtS ?_⟩⟩
      rw [sx_setWidth hpos he, sx_setWidth hpos he]
      rfl
    | true =>
      rw [if_neg (by decide)] at hop
      cases (Option.ite_none_right_eq_some.mp hop).2
      refine ⟨_, laneWise_rel h _, fun x y d => ⟨_, rfl, setWidth_rel he x y .gtU ?_⟩⟩
      exact decide_eq_decide.mpr (lt_setWidth he y x)
  · -- CMGE, CMHS
    cases u with
    | false =>
      cases hop
      refine ⟨_, laneWise_rel h _, fun x y d => ⟨_, rfl, setWidth_rel he x y .geS ?_⟩⟩
      rw [sx_setWidth hpos he, sx_setWidth hpos he]
      rfl
    | true =>
      rw [if_neg (by decide)] at hop
      cases (Option.ite_none_right_eq_some.mp hop).2
      refine ⟨_, laneWise_rel h _, fun x y d => ⟨_, rfl, setWidth_rel he x y .geU ?_⟩⟩
      exact decide_eq_decide.mpr (le_setWidth he y x)
  · -- SMAX, UMAX
    unfold maxMin at hop
    split_ifs at hop
    cases hop
    cases u with
    | false =>
      exact ⟨_, laneWise_bin h _, fun x y d => ⟨_, rfl, setWidth_maxLane hpos he x y rfl false⟩⟩
    | true =>
      exact ⟨_, laneWise_bin h _, fun x y d => ⟨_, rfl, setWidth_maxLane hpos he x y rfl true⟩⟩
  · -- SMIN, UMIN
    unfold maxMin at hop
    split_ifs at hop
    cases hop
    cases u with
    | false =>
      exact ⟨_, laneWise_bin h _, fun x y d => ⟨_, rfl, setWidth_minLane hpos he x y rfl false⟩⟩
    | true =>
      exact ⟨_, laneWise_bin h _, fun x y d => ⟨_, rfl, setWidth_minLane hpos he x y rfl true⟩⟩
  · cases hop

end ThreeSame

end V64.Jit
