import V64.Interp.Simd.TwoRegMisc
import V64.Jit.Lower.SimdPermute

/-!
# Vector code on one register

The lowering of `two_reg_misc.rs`, against its executor.

* `agree_twoRegMisc`: the opcodes that `can_lower` admits.
-/

namespace V64.Jit

open V64.Cpu V64.Decoder V64.Interp V64.Interp.Simd V64.Platform Checked Wasm
open Wasm.Instr

variable {M : Type} [LinearMemory M] {base : BitVec 32} {H : CpuState → M} {cpu : CpuState}
  {size : ℕ}

/-! ## Lanes -/

/-- The code leaves the lanes of `φ` for a vector on the stack. -/
def LaneWiseUn (M : Type) [LinearMemory M] (size : ℕ) (ops : List Instr)
    (φ : BitVec (8 <<< size) → BitVec (8 <<< size)) : Prop :=
  ∀ a, ∃ r,
    (∀ fuel st l (m : M), exec fuel ops ⟨.v128 a :: st, l, m⟩ = .next ⟨.v128 r :: st, l, m⟩) ∧
    ∀ i < 128 / (8 <<< size), Lanes.lane (8 <<< size) r i = φ (Lanes.lane (8 <<< size) a i)

theorem laneWise_un (h : size ≤ 3) (op : LaneUnOp) :
    LaneWiseUn M size [laneUn (shapeOf size) op] op.eval := by
  intro a
  refine ⟨mapLanes (shapeOf size) op.eval a, fun fuel st l m => ?_, fun i hi =>
    lane_laneUn (bits_shapeOf h) a hi op⟩
  rw [exec_simd rfl, exec_nil]

theorem laneWise_relZero (h : size ≤ 3) (op : LaneRelOp) :
    LaneWiseUn M size [v128Const 0, laneRel (shapeOf size) op] (op.eval · 0) := by
  intro a
  refine ⟨zipLanes (shapeOf size) op.eval a 0, fun fuel st l m => ?_, fun i hi => ?_⟩
  · rw [exec_v128Const, exec_simd rfl, exec_nil]
  · rw [lane_laneRel (bits_shapeOf h) a 0 hi, lane_zero]

/-- The lanes that `map` leaves. -/
theorem hasLanes_map (h : size ≤ 3) (q : Bool) (v : BitVec 128) {f : BitVec 64 → BitVec 64}
    {φ : BitVec (8 <<< size) → BitVec (8 <<< size)}
    (hf : ∀ x : BitVec (8 <<< size), (f (x.setWidth 64)).setWidth (8 <<< size) = φ x) :
    HasLanes size q (fun i => φ (Lanes.lane (8 <<< size) v i)) (Simd.mapLanes v size q f) := by
  unfold Simd.mapLanes
  rw [split_eq h, List.map_map]
  refine hasLanes_join h (by simp) fun i hi => ?_
  rw [List.getElem_map, List.getElem_range]
  exact hf _

theorem agree_mapLanes (h : size ≤ 3) (himage : VecImage base H) (q : Bool) (rn rd : Reg)
    {code : Option (List Instr)} {ops : List Instr}
    (hcode : code = some ([localGet regsBase] ++ pushV rn ++ ops ++ finishV q rd))
    {f : BitVec 64 → BitVec 64} {φ : BitVec (8 <<< size) → BitVec (8 <<< size)}
    (hops : LaneWiseUn M size ops φ)
    (hf : ∀ x : BitVec (8 <<< size), (f (x.setWidth 64)).setWidth (8 <<< size) = φ x) :
    VecAgree base H cpu code
      (some ((vecView cpu).setV rd (Simd.mapLanes (cpu.v rn) size q f))) := by
  obtain ⟨r, hexec, hr⟩ := hops (cpu.v rn)
  refine .of_lanes h hcode rfl (hasLanes_map h q (cpu.v rn) hf) (fun i hi => ?_)
    (vecEmits_one himage q rd fun fuel st l m => hexec fuel st l m)
  exact hr i (Nat.lt_of_lt_of_le hi (laneCount_le h q))

section Lane

variable {e : ℕ} (hpos : 0 < e) (he : e ≤ 64) (x : BitVec e)

include he in
theorem setWidth_negLane :
    (-(x.setWidth 64) &&& Simd.widthMask e).setWidth e = LaneUnOp.eval .neg x := by
  rw [setWidth_and_widthMask he, BitVec.setWidth_neg_of_le he, setWidth_cut he]
  rfl

include hpos he in
theorem setWidth_absLane :
    (BitVec.ofNat 64 (sx (x.setWidth 64) e).natAbs &&& Simd.widthMask e).setWidth e =
      LaneUnOp.eval .abs x := by
  have habs : BitVec.ofNat e x.toInt.natAbs = BitVec.ofInt e |x.toInt| := by
    rw [← BitVec.ofInt_natCast, Int.natCast_natAbs]
  rw [setWidth_and_widthMask he, BitVec.setWidth_ofNat_of_le he, sx_setWidth hpos he, habs]
  show _ = if x.msb then -x else x
  rw [BitVec.msb_eq_toInt]
  by_cases hneg : x.toInt < 0
  · rw [decide_eq_true hneg, if_pos rfl, abs_of_neg hneg, BitVec.ofInt_neg, BitVec.ofInt_toInt]
  · rw [decide_eq_false hneg, if_neg Bool.false_ne_true, abs_of_nonneg (by omega),
      BitVec.ofInt_toInt]

include hpos he in
/-- A lane compared with zero. -/
theorem setWidth_relZero (op : LaneRelOp) {p : ℤ → Bool} (hp : p x.toInt = op.holds x 0) :
    (boolLane (p (sx (x.setWidth 64) e)) (Simd.widthMask e)).setWidth e = op.eval x 0 := by
  rw [sx_setWidth hpos he]
  exact setWidth_rel he x 0 op hp

include he in
theorem setWidth_eqZero :
    (boolLane (x.setWidth 64 &&& Simd.widthMask e == 0) (Simd.widthMask e)).setWidth e =
      LaneRelOp.eval .eq x 0 := by
  refine setWidth_rel he x 0 .eq ?_
  have hiff : x.setWidth 64 &&& Simd.widthMask e = 0 ↔ x = 0 := by
    rw [and_widthMask he, setWidth_cut he]
    constructor
    · intro hzero
      have hcut := congrArg (BitVec.setWidth e) hzero
      rw [setWidth_cut he] at hcut
      exact hcut.trans (BitVec.setWidth_zero ..)
    · intro hzero
      rw [hzero]
      exact BitVec.setWidth_zero ..
  exact Bool.eq_iff_iff.mpr (by rw [beq_iff_eq, hiff]; exact beq_iff_eq.symm)

end Lane

/-- CNT counts the bits of a byte. -/
theorem setWidth_countOnes (x : BitVec 8) :
    (countOnes (x.setWidth 64)).setWidth 8 = LaneUnOp.eval .popcnt x := by
  unfold countOnes LaneUnOp.eval
  rw [BitVec.setWidth_ofNat_of_le (by decide), setWidth_cut (by decide)]

/-! ## The opcodes -/

/-- The executor stores the result of a REV. -/
theorem VecAgree.of_bind {code : Option (List Instr)} {result : Option (BitVec 128)} {rd : Reg}
    (h : VecAgree base H cpu code (result.map ((vecView cpu).setV rd))) :
    VecAgree base H cpu code (result.bind fun v => some ((vecView cpu).setV rd v)) := by
  cases result with
  | none => exact h
  | some v => exact h

theorem agree_not (himage : VecImage base H) (t : Target) (q : Bool) (rn rd : Reg) :
    VecAgree base H cpu (simdTwoRegMisc q true 0 0b00101 rn rd)
      (twoRegMisc t (vecView cpu) q true 0 0b00101 rn rd) := by
  refine .of_setV rfl (v := finish q (~~~cpu.v rn)) ?_
    (vecEmits_one himage q rd fun fuel st l m => by rw [exec_v128Not, exec_nil])
  cases q with
  | true =>
    show some ((vecView cpu).setV rd (~~~cpu.v rn &&& BitVec.allOnes 128)) = _
    rw [BitVec.and_allOnes]
    rfl
  | false =>
    show some ((vecView cpu).setV rd (~~~cpu.v rn &&& lowHalf)) = _
    rw [lowHalf_eq]
    rfl

theorem agree_twoRegMisc (h : size ≤ 3) (himage : VecImage base H) (t : Target) (q u : Bool)
    {opcode : ℕ} (hrev : (opcode = 0 → size ≤ if u then 1 else 2) ∧ (opcode = 1 → size = 0))
    (hcnt : u = false → opcode = 0b00101 → size = 0)
    (hinline : canLowerTwoRegMisc u size opcode = true) (rn rd : Reg) :
    VecAgree base H cpu (simdTwoRegMisc q u size opcode rn rd)
      (twoRegMisc t (vecView cpu) q u size opcode rn rd) := by
  have hpos := esize_pos h
  have he := esize_le h
  have hzero : (0 : BitVec (8 <<< size)).toInt = 0 := BitVec.toInt_zero
  unfold canLowerTwoRegMisc at hinline
  split at hinline
  · -- NOT
    obtain rfl : size = 0 := beq_iff_eq.mp hinline
    exact agree_not himage t q rn rd
  · -- CNT
    obtain rfl : size = 0 := hcnt rfl rfl
    exact agree_mapLanes (by decide) himage q rn rd rfl (laneWise_un (by decide) .popcnt)
      setWidth_countOnes
  · -- NEG
    exact agree_mapLanes h himage q rn rd rfl (laneWise_un h .neg) (setWidth_negLane he)
  · -- ABS
    exact agree_mapLanes h himage q rn rd rfl (laneWise_un h .abs) (setWidth_absLane hpos he)
  · -- CMGT
    refine agree_mapLanes h himage q rn rd rfl (laneWise_relZero h .gtS) fun x =>
      setWidth_relZero hpos he x .gtS (p := fun v => decide (v > 0)) ?_
    show _ = decide ((0 : BitVec (8 <<< size)).toInt < x.toInt)
    rw [hzero]
  · -- CMGE
    refine agree_mapLanes h himage q rn rd rfl (laneWise_relZero h .geS) fun x =>
      setWidth_relZero hpos he x .geS (p := fun v => decide (v ≥ 0)) ?_
    show _ = decide ((0 : BitVec (8 <<< size)).toInt ≤ x.toInt)
    rw [hzero]
  · -- CMEQ
    exact agree_mapLanes h himage q rn rd rfl (laneWise_relZero h .eq) (setWidth_eqZero he)
  · -- CMLE
    refine agree_mapLanes h himage q rn rd rfl (laneWise_relZero h .leS) fun x =>
      setWidth_relZero hpos he x .leS (p := fun v => decide (v ≤ 0)) ?_
    show _ = decide (x.toInt ≤ (0 : BitVec (8 <<< size)).toInt)
    rw [hzero]
  · -- CMLT
    refine agree_mapLanes h himage q rn rd rfl (laneWise_relZero h .ltS) fun x =>
      setWidth_relZero hpos he x .ltS (p := fun v => decide (v < 0)) ?_
    show _ = decide (x.toInt < (0 : BitVec (8 <<< size)).toInt)
    rw [hzero]
  · -- REV64
    have hsize : size ≤ 2 := hrev.1 rfl
    have hgroups : ∀ size ≤ 2, ∀ q, 0 < 8 >>> size ∧ 8 = 8 >>> size * (1 <<< size) ∧
        laneCount size q = (if q then 2 else 1) * 8 >>> size := by decide
    obtain ⟨hper, hbytes, hm⟩ := hgroups size hsize q
    exact (agree_rev himage h hper hbytes hm rn rd).of_bind
  · -- REV16
    obtain rfl : size = 0 := hrev.2 rfl
    have hm : ∀ q, laneCount 0 q = (if q then 8 else 4) * 2 := by decide
    exact (agree_rev himage h (by decide) rfl (hm q) rn rd).of_bind
  · -- REV32
    have hsize : size ≤ 1 := hrev.1 rfl
    have hgroups : ∀ size ≤ 1, ∀ q, 0 < 4 >>> size ∧ 4 = 4 >>> size * (1 <<< size) ∧
        laneCount size q = (if q then 4 else 2) * 4 >>> size := by decide
    obtain ⟨hper, hbytes, hm⟩ := hgroups size hsize q
    exact (agree_rev himage h hper hbytes hm rn rd).of_bind
  · cases hinline

end V64.Jit
