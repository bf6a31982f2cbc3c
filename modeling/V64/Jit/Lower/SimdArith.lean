import V64.Interp.Simd.ByElement
import V64.Interp.Simd.ImmShift
import V64.Jit.Lower.SimdLanes

/-!
# Element-wise vector code

The families of `crates/jit/src/lower/simd/` that compute lane by lane, against the
executors of `crates/interp/src/simd/`.

* `VecAgree`: what the code and the executor of an instruction agree on.
* `agree_threeSame`, `agree_threeDiff`, `agree_shiftImm`: the three families.
-/

namespace V64.Jit

open V64.Cpu V64.Decoder V64.Interp V64.Interp.Simd V64.Platform Checked Wasm
open Wasm.Instr

variable {M : Type} [LinearMemory M] {base : BitVec 32} {H : CpuState → M} {cpu : CpuState}

/-- There are code and a result, and the code turns the image of `cpu` into that of the
    result. -/
def VecAgree (base : BitVec 32) (H : CpuState → M) (cpu : CpuState) (code : Option (List Instr))
    (result : Option VecView) : Prop :=
  ∃ code' w, code = some code' ∧ result = some w ∧ VecEmits base H code' cpu (setVecView cpu w)

theorem VecAgree.of_setV {code : Option (List Instr)} {code' : List Instr}
    {result : Option VecView} {rd : Reg} {v : BitVec 128} (hcode : code = some code')
    (hresult : result = some ((vecView cpu).setV rd v))
    (hemits : VecEmits base H code' cpu (setV cpu rd v)) : VecAgree base H cpu code result :=
  ⟨code', _, hcode, hresult, hemits⟩

/-- Code and executor leave a register with the same lanes. -/
theorem VecAgree.of_lanes {size : ℕ} (h : size ≤ 3) {q : Bool} {f : ℕ → BitVec (8 <<< size)}
    {code : Option (List Instr)} {code' : List Instr} {result : Option VecView} {rd : Reg}
    {v r : BitVec 128} (hcode : code = some code')
    (hresult : result = some ((vecView cpu).setV rd v)) (hlanes : HasLanes size q f v)
    (hr : ∀ i < laneCount size q, Lanes.lane (8 <<< size) r i = f i)
    (hemits : VecEmits base H code' cpu (setV cpu rd (finish q r))) :
    VecAgree base H cpu code result := by
  have hsame : v = finish q r := hlanes.unique h (hasLanes_finish h hr)
  subst hsame
  exact .of_setV hcode hresult hemits

/-! ## `three_same.rs` -/

section ThreeSame

variable {size : ℕ} {u : Bool} {opcode : ℕ}

/-- The opcodes that are neither logical nor pairwise. -/
theorem exists_threeSame_lanes (h : size ≤ 3) (t : Target) (w : VecView) (q : Bool)
    (rm rn rd : Reg) (hop : opcode ∉ [0b00011, 0b10100, 0b10101, 0b10111])
    {φ : BitVec (8 <<< size) → BitVec (8 <<< size) → BitVec (8 <<< size)}
    (hφ : LaneExec t size u opcode φ) :
    ∃ v, threeSame t w q u size opcode rm rn rd = some (w.setV rd v) ∧
      HasLanes size q (fun i => φ (Lanes.lane (8 <<< size) (w.v rn) i)
        (Lanes.lane (8 <<< size) (w.v rm) i)) v := by
  obtain ⟨lanes, hlanes, hv⟩ := exists_join h q (w.v rn) (w.v rm) (w.v rd)
    (f := fun x y d => Simd.lane t opcode u size x y d) (φ := fun x y _ => φ x y)
    fun x y d => hφ x y (d.setWidth 64)
  refine ⟨_, ?_, hv⟩
  simp only [List.mem_cons, List.not_mem_nil, or_false, not_or] at hop
  have hbind := congrArg (fun o => o.bind fun lanes => some (w.setV rd (join lanes size))) hlanes
  unfold threeSame
  dsimp only
  split
  · exact absurd rfl hop.1
  · exact absurd rfl hop.2.1
  · exact absurd rfl hop.2.2.1
  · exact absurd rfl hop.2.2.2
  · exact hbind

theorem agree_laneWise (h : size ≤ 3) (himage : VecImage base H) (t : Target) (q : Bool)
    (rm rn rd : Reg) {ops : List Instr}
    {φ : BitVec (8 <<< size) → BitVec (8 <<< size) → BitVec (8 <<< size)}
    (hops : LaneWise M size ops φ) (hφ : LaneExec t size u opcode φ)
    (hop : opcode ∉ [0b00011, 0b10100, 0b10101, 0b10111]) {code : Option (List Instr)}
    (hcode : code = some ([localGet regsBase] ++ pushV rn ++ pushV rm ++ ops ++ finishV q rd)) :
    VecAgree base H cpu code (threeSame t (vecView cpu) q u size opcode rm rn rd) := by
  obtain ⟨v, hv, hlanes⟩ := exists_threeSame_lanes h t (vecView cpu) q rm rn rd hop hφ
  obtain ⟨r, hexec, hr⟩ := hops (cpu.v rn) (cpu.v rm)
  refine .of_lanes h hcode hv hlanes (fun i hi => ?_)
    (vecEmits_two himage q rd fun fuel st l m => hexec fuel st l m)
  exact hr i (Nat.lt_of_lt_of_le hi (laneCount_le h q))

theorem lowHalf_eq : lowHalf = 0xffffffffffffffff#128 := by decide

theorem agree_logical (himage : VecImage base H) (t : Target) (q u : Bool) (size : ℕ)
    (rm rn rd : Reg) :
    VecAgree base H cpu (some (simdLogical q u size rm rn rd))
      (threeSame t (vecView cpu) q u size 0b00011 rm rn rd) := by
  have hresult : threeSame t (vecView cpu) q u size 0b00011 rm rn rd = some
      ((vecView cpu).setV rd
        (finish q (Simd.logical u size (cpu.v rn) (cpu.v rm) (cpu.v rd)))) := by
    unfold finish
    rw [← lowHalf_eq]
    rfl
  refine .of_setV rfl hresult ?_
  apply vecEmits_finish himage
  intro fuel st l hl
  have hpush (st : List Val) (r : Reg) :
      exec fuel (pushV r) ⟨st, l, H cpu⟩ = .next ⟨.v128 (cpu.v r) :: st, l, H cpu⟩ :=
    exec_pushV himage hl r
  unfold Simd.logical
  split
  · simp [exec_append, hpush, BitOp.eval]
  · simp [exec_append, hpush, BitOp.eval]
  · simp [exec_append, hpush, BitOp.eval]
  · simp [exec_append, hpush, BitOp.eval]
  · simp [exec_append, hpush, BitOp.eval]
  · simp [exec_append, hpush, bitselect]
  · simp [exec_append, hpush, bitselect]
  · -- BIF selects from Vd where BIT selects from Vn
    simp [exec_append, hpush, bitselect, BitVec.or_comm]

theorem laneWise_eq (h : size ≤ 3) : LaneWise M size [laneEq size] (LaneRelOp.eval .eq) :=
  laneWise_rel h .eq

theorem laneExec_eq (h : size ≤ 3) (t : Target) :
    LaneExec t size true 0b10001 (LaneRelOp.eval .eq) := by
  intro x y d
  refine ⟨_, rfl, setWidth_rel (esize_le h) x y .eq ?_⟩
  have hiff : x.setWidth 64 = y.setWidth 64 ↔ x = y := by
    constructor
    · intro heq
      have hcut := congrArg (BitVec.setWidth (8 <<< size)) heq
      rwa [setWidth_cut (esize_le h), setWidth_cut (esize_le h)] at hcut
    · intro heq
      rw [heq]
  show (x.setWidth 64 == y.setWidth 64) = (x == y)
  exact Bool.eq_iff_iff.mpr (by rw [beq_iff_eq, beq_iff_eq, hiff])

/-- CMTST: a lane is set where the operands share a bit. -/
def testLane {e : ℕ} (x y : BitVec e) : BitVec e :=
  ~~~ LaneRelOp.eval .eq (x &&& y) 0

theorem lane_not (w : ℕ) (v : BitVec 128) {i : ℕ} (hi : i < 128 / w) :
    Lanes.lane w (~~~v) i = ~~~ Lanes.lane w v i := by
  apply BitVec.eq_of_getLsbD_eq
  intro k hk
  have hle : (i + 1) * w ≤ 128 := Nat.le_trans (Nat.mul_le_mul_right w hi) (Nat.div_mul_le_self _ _)
  rw [Nat.succ_mul] at hle
  rw [Lanes.getLsbD_lane, BitVec.getLsbD_not, BitVec.getLsbD_not, Lanes.getLsbD_lane,
    decide_eq_true hk, decide_eq_true (by omega : i * w + k < 128)]
  rfl

theorem lane_and (w : ℕ) (a b : BitVec 128) (i : ℕ) :
    Lanes.lane w (a &&& b) i = Lanes.lane w a i &&& Lanes.lane w b i := by
  apply BitVec.eq_of_getLsbD_eq
  intro k hk
  rw [Lanes.getLsbD_lane, BitVec.getLsbD_and, BitVec.getLsbD_and, Lanes.getLsbD_lane,
    Lanes.getLsbD_lane, decide_eq_true hk, Bool.true_and, Bool.true_and, Bool.true_and]

theorem lane_zero (w i : ℕ) : Lanes.lane w (0 : BitVec 128) i = 0 := by
  apply BitVec.eq_of_getLsbD_eq
  intro k hk
  rw [Lanes.getLsbD_lane]
  simp

theorem laneWise_test (h : size ≤ 3) :
    LaneWise M size [v128And, v128Const 0, laneEq size, v128Not] testLane := by
  intro a b
  refine ⟨~~~ zipLanes (shapeOf size) (LaneRelOp.eval .eq) (a &&& b) 0, fun fuel st l m => ?_,
    fun i hi => ?_⟩
  · rw [exec_v128Bin, exec_v128Const, laneEq, exec_simd rfl, exec_v128Not, exec_nil]
    rfl
  · rw [lane_not _ _ hi, lane_laneRel (bits_shapeOf h) _ _ hi, lane_and, lane_zero]
    rfl

theorem laneExec_test (h : size ≤ 3) (t : Target) : LaneExec t size false 0b10001 testLane := by
  intro x y d
  refine ⟨_, rfl, ?_⟩
  have hand : (x.setWidth 64 &&& y.setWidth 64 : BitVec 64) = (x &&& y).setWidth 64 :=
    BitVec.setWidth_and.symm
  have hiff : (x &&& y).setWidth 64 = 0#64 ↔ x &&& y = 0 := by
    constructor
    · intro heq
      have hcut := congrArg (BitVec.setWidth (8 <<< size)) heq
      rwa [setWidth_cut (esize_le h), BitVec.setWidth_zero] at hcut
    · intro heq
      rw [heq]
      exact BitVec.setWidth_zero ..
  have hne : ((x &&& y).setWidth 64 != 0#64) = !(x &&& y == 0) := by
    rw [bne]
    exact congrArg (! ·) (Bool.eq_iff_iff.mpr (by rw [beq_iff_eq, beq_iff_eq, hiff]))
  show (boolLane (x.setWidth 64 &&& y.setWidth 64 != 0#64) _).setWidth _ = _
  rw [hand, setWidth_boolLane (esize_le h), hne]
  unfold testLane LaneRelOp.eval LaneRelOp.holds
  cases x &&& y == 0 with
  | true => exact BitVec.not_allOnes.symm
  | false => exact BitVec.not_zero.symm

/-- The opcodes of `simple_op`. -/
theorem mem_of_simpleOp {op : Instr} (hop : simpleOp u size opcode = some op) :
    opcode ∈ [0b00001, 0b00101, 0b10000, 0b10011, 0b00110, 0b00111, 0b01100, 0b01101] := by
  unfold simpleOp at hop
  dsimp only at hop
  split at hop
  · decide
  · decide
  · decide
  · decide
  · decide
  · decide
  · decide
  · decide
  · cases hop

theorem agree_threeSame (h : size ≤ 3) (himage : VecImage base H) (t : Target) (q : Bool)
    (hinline : canLowerThreeSame u size opcode = true) (rm rn rd : Reg) :
    VecAgree base H cpu (simdThreeSame q u size opcode rm rn rd)
      (threeSame t (vecView cpu) q u size opcode rm rn rd) := by
  unfold simdThreeSame
  split
  · exact agree_logical himage t q u size rm rn rd
  · cases u with
    | false =>
      exact agree_laneWise h himage t q rm rn rd (laneWise_test h) (laneExec_test h t) (by decide)
        rfl
    | true =>
      exact agree_laneWise h himage t q rm rn rd (laneWise_eq h) (laneExec_eq h t) (by decide) rfl
  · next hlogical heq =>
    simp only [canLowerThreeSame, Bool.or_eq_true, beq_iff_eq] at hinline
    obtain ⟨op, hop⟩ := Option.isSome_iff_exists.mp
      (hinline.resolve_left (not_or_intro hlogical heq))
    obtain ⟨φ, hwise, hexec⟩ := simpleOp_spec (M := M) h t hop
    have hmem := mem_of_simpleOp hop
    rw [hop]
    refine agree_laneWise h himage t q rm rn rd hwise hexec ?_ rfl
    simp only [List.mem_cons, List.not_mem_nil, or_false] at hmem ⊢
    omega

end ThreeSame

/-! ## `three_diff.rs` -/

section ThreeDiff

variable {e : ℕ}

/-- A lane of a half of the register. -/
theorem lane_half (q : Bool) (v : BitVec 128) (he : 64 / e * e = 64) {i : ℕ} (hi : i < 64 / e) :
    Lanes.lane e (if q then (v >>> 64).setWidth 64 else v.setWidth 64 : BitVec 64) i =
      Lanes.lane e v (halfBase q e + i) := by
  have hle : (i + 1) * e ≤ 64 := Nat.le_trans (Nat.mul_le_mul_right e hi) (Nat.le_of_eq he)
  cases q with
  | false => 
    unfold halfBase
    rw [if_neg Bool.false_ne_true, if_neg Bool.false_ne_true, Nat.zero_add]
    exact Lanes.lane_cut v hle
  | true =>
    rw [Nat.succ_mul] at hle
    apply BitVec.eq_of_getLsbD_eq
    intro k hk
    unfold halfBase
    rw [if_pos rfl, if_pos rfl, Lanes.getLsbD_lane, Lanes.getLsbD_lane, BitVec.getLsbD_setWidth,
      BitVec.getLsbD_ushiftRight, decide_eq_true (by omega : i * e + k < 64), Bool.true_and,
      Nat.add_mul, he, Nat.add_assoc]

/-- The value of an operand at twice the width. -/
theorem ofInt_ext (hpos : 0 < e) (he : e ≤ 32) (u : Bool) (x : BitVec e) :
    BitVec.ofInt (e * 2) (ext u (x.setWidth 64) e) = extendLane (!u) (e * 2) x := by
  unfold ext extendLane
  cases u with
  | true =>
    rw [if_pos rfl, and_widthMask (by omega), setWidth_cut (by omega), BitVec.ofInt_natCast,
      toNat_setWidth_64 (by omega)]
    exact BitVec.ofNat_toNat _ x
  | false =>
    rw [if_neg Bool.false_ne_true, sx_setWidth hpos (by omega)]
    rfl

/-- SMULL and UMULL in a lane. -/
theorem exists_mull (t : Target) (hpos : 0 < e) (he : e ≤ 32) (u : Bool) (x y : BitVec e)
    (awide : BitVec 64) (dwide : BitVec (e * 2)) :
    ∃ r, wideOp t 0b1100 u e (e * 2) (x.setWidth 64) (y.setWidth 64) awide (dwide.setWidth 64) =
        some r ∧
      r.setWidth (e * 2) = extendLane (!u) (e * 2) x * extendLane (!u) (e * 2) y := by
  obtain ⟨prod, r, hprod, hlong, hwide⟩ :=
    exists_longLane t hpos he x y u (by decide : (0x0a, 0b1100) ∈ longForms) awide dwide
  refine ⟨_, hwide, ?_⟩
  have hsigned := signed_of_abs t (Int.le_trans (abs_mul_le (abs_ext_le hpos he u x)
    (abs_ext_le hpos he u y)) (by decide : (2 : ℤ) ^ 64 ≤ 2 ^ 100))
  cases hlong
  cases hsigned.symm.trans hprod
  rw [asU64_setWidth (by omega), BitVec.ofInt_mul, ofInt_ext hpos he, ofInt_ext hpos he]

/-- What the loop over the wide elements leaves. -/
theorem lane_collectWide {W : ℕ} (hW : W ≤ 64) {rs : List (BitVec 64)}
    (hlen : rs.length * W ≤ 128) {i : ℕ} (hi : i < rs.length) :
    Lanes.lane W (collect (rs.map fun r => (r &&& Simd.widthMask W).setWidth 128) W) i =
      rs[i].setWidth W := by
  show Lanes.lane W (Lanes.pack W (rs.map fun r => (r &&& Simd.widthMask W).setWidth 128)) i = _
  rw [Lanes.lane_pack _ (by rwa [List.length_map]) (by rwa [List.length_map]), List.getElem_map,
    and_widthMask hW, BitVec.setWidth_setWidth_of_le _ (by omega),
    BitVec.setWidth_setWidth_of_le _ hW, BitVec.setWidth_eq]
  intro x hx
  obtain ⟨r, -, rfl⟩ := List.mem_map.mp hx
  intro k hk
  rw [BitVec.getLsbD_setWidth, BitVec.getLsbD_and, getLsbD_widthMask hW,
    decide_eq_false (by omega : ¬ k < W), Bool.and_false, Bool.and_false]

variable {size : ℕ}

theorem exists_threeDiff (h : size ≤ 2) (t : Target) (w : VecView) (q u : Bool) (rm rn rd : Reg) :
    ∃ v, threeDiff t w q u size 0b1100 rm rn rd = some (w.setV rd v) ∧
      ∀ i < 64 / (8 <<< size), Lanes.lane (8 <<< size * 2) v i =
        extendLane (!u) _ (Lanes.lane (8 <<< size) (w.v rn) (halfBase q (8 <<< size) + i)) *
          extendLane (!u) _ (Lanes.lane (8 <<< size) (w.v rm) (halfBase q (8 <<< size) + i)) := by
  have he : 8 <<< size ≤ 32 := esize_le_32 h
  have hpos := esize_pos (Nat.le_succ_of_le h)
  have hfull : ∀ size ≤ 2, 64 / (8 <<< size) * (8 <<< size) = 64 := by decide
  have hhalf := hfull size h
  have hwide : 64 / (8 <<< size) * (8 <<< size * 2) ≤ 128 := by
    rw [← Nat.mul_assoc, hhalf]
  obtain ⟨rs, hrs, hlen, hP⟩ := Loops.exists_mapM
    (f := fun (p : (BitVec 64 × BitVec 64) × BitVec 64 × BitVec 64) =>
      wideOp t 0b1100 u (8 <<< size) (8 <<< size * 2) p.1.1 p.1.2 p.2.1 p.2.2)
    (g := fun i => (((Lanes.lane (8 <<< size) (if q then (w.v rn >>> 64).setWidth 64
      else (w.v rn).setWidth 64 : BitVec 64) i).setWidth 64,
      (Lanes.lane (8 <<< size) (if q then (w.v rm >>> 64).setWidth 64
        else (w.v rm).setWidth 64 : BitVec 64) i).setWidth 64),
      (Lanes.lane (8 <<< size * 2) (w.v rn) i).setWidth 64,
      (Lanes.lane (8 <<< size * 2) (w.v rd) i).setWidth 64))
    (P := fun i r => r.setWidth (8 <<< size * 2) =
      extendLane (!u) _ (Lanes.lane (8 <<< size) (w.v rn) (halfBase q (8 <<< size) + i)) *
        extendLane (!u) _ (Lanes.lane (8 <<< size) (w.v rm) (halfBase q (8 <<< size) + i)))
    (n := 64 / (8 <<< size)) fun i hi => by
      rw [lane_half q _ hhalf hi, lane_half q _ hhalf hi]
      exact exists_mull t hpos he u _ _ _ _
  refine ⟨collect (rs.map fun r => (r &&& Simd.widthMask (8 <<< size * 2)).setWidth 128)
    (8 <<< size * 2), ?_, fun i hi => ?_⟩
  · unfold threeDiff widening
    dsimp only
    rw [sourceHalf_eq q (by omega), sourceHalf_eq q (by omega), wideElems_eq _ (by omega),
      wideElems_eq _ (by omega), List.zip_map', List.zip_map', List.zip_map']
    exact congrArg (fun o => (o.bind fun (rs : List (BitVec 64)) => some (collect (rs.map fun r =>
      (r &&& Simd.widthMask (8 <<< size * 2)).setWidth 128) (8 <<< size * 2))).bind fun v =>
        some (w.setV rd v)) hrs
  · rw [lane_collectWide (by omega) (by rw [hlen]; exact hwide) (hlen ▸ hi)]
    exact hP i (hlen ▸ hi)

theorem agree_threeDiff (himage : VecImage base H) (t : Target) (q u : Bool) {opcode : ℕ}
    (hinline : canLowerThreeDiff size opcode = true) (rm rn rd : Reg) :
    VecAgree base H cpu (simdThreeDiff q u size opcode rm rn rd)
      (threeDiff t (vecView cpu) q u size opcode rm rn rd) := by
  have hcode := hinline
  simp only [canLowerThreeDiff, Bool.and_eq_true, beq_iff_eq, decide_eq_true_eq] at hinline
  obtain ⟨rfl, hsize⟩ := hinline
  obtain ⟨v, hv, hlanes⟩ := exists_threeDiff hsize t (vecView cpu) q u rm rn rd
  have hbits := bits_shapeOf (Nat.le_succ_of_le hsize)
  have hfull : ∀ size ≤ 2, 64 / (8 <<< size) * (8 <<< size * 2) = 128 := by decide
  have hsame : v = extMulLanes (shapeOf size) q (!u) (cpu.v rn) (cpu.v rm) := by
    refine Lanes.eq_of_lanes (w := 8 <<< size * 2) (c := 64 / (8 <<< size)) ?_ ?_ fun i hi => ?_
    · exact Lanes.narrow_of_le v (Nat.le_of_eq (hfull size hsize).symm)
    · exact Lanes.narrow_of_le _ (Nat.le_of_eq (hfull size hsize).symm)
    · rw [hlanes i hi, lane_extMulLanes hbits rfl q (!u) _ _ hi]
      rfl
  have hlower : simdThreeDiff q u size 0b1100 rm rn rd = some ([localGet regsBase] ++ pushV rn ++
      pushV rm ++ [extmul q u size] ++ finishV true rd) := by
    unfold simdThreeDiff
    rw [hcode, List.append_assoc _ [extmul q u size]]
    rfl
  refine .of_setV hlower hv ?_
  rw [hsame, ← finish_true (extMulLanes ..)]
  refine vecEmits_two himage true rd fun fuel st l m => ?_
  rw [extmul, if_pos hsize, exec_simd rfl, exec_nil]

end ThreeDiff

/-! ## `shift.rs` -/

section ShiftImm

theorem shiftSize_eq_immSize : ∀ immh < 16, 0 < immh → shiftSize immh = some (immSize immh) := by
  decide

variable {e : ℕ} (x : BitVec e)

theorem rightLane_signed {n : ℕ} (hn : 0 < n) : rightLane false false n x = x.sshiftRight n := by
  unfold rightLane
  rw [shiftValue_neg _ _ hn, if_neg Bool.false_ne_true, ← shiftRight_eq]
  show BitVec.ofInt e (x.toInt >>> n) = _
  rw [← BitVec.toInt_sshiftRight, BitVec.ofInt_toInt]

/-- Shifting out the whole lane leaves its sign, as shifting out all but one bit does. -/
theorem sshiftRight_width : x.sshiftRight e = x.sshiftRight (e - 1) := by
  apply BitVec.eq_of_getLsbD_eq
  intro k hk
  rw [BitVec.getLsbD_sshiftRight, BitVec.getLsbD_sshiftRight]
  by_cases hzero : k = 0
  · subst hzero
    have hmsb : x.msb = x.getLsbD (e - 1) := BitVec.msb_eq_getLsbD_last x
    simp [hmsb]
  · have h1 : ¬ e + k < e := by omega
    have h2 : ¬ e - 1 + k < e := by omega
    simp [h1, h2]

theorem leftLane_eq (he : e ≤ 64) (n : ℕ) : leftLane n x = x <<< n := by
  unfold leftLane
  rw [show shiftValue false (laneValue true x) n = laneValue true x * 2 ^ n from
    if_pos (Int.natCast_nonneg n), ← shiftLeft_eq he]
  apply BitVec.eq_of_getLsbD_eq
  intro k hk
  rw [BitVec.getLsbD_setWidth, BitVec.getLsbD_shiftLeft, BitVec.getLsbD_shiftLeft,
    BitVec.getLsbD_setWidth, decide_eq_true hk, decide_eq_true (by omega : k < 64),
    decide_eq_true (by omega : k - n < 64), Bool.true_and, Bool.true_and, Bool.true_and]

variable {size : ℕ}

/-- A vector shifted by a constant. -/
theorem vecEmits_shift (himage : VecImage base H) (q : Bool) (rn rd : Reg) (size sh : ℕ)
    (hsh : sh < 2 ^ 32) (op : LaneShiftOp) :
    VecEmits base H ([localGet regsBase] ++ pushV rn ++
        [i32Const (BitVec.ofNat 32 sh), laneShift (shapeOf size) op] ++ finishV q rd) cpu
      (setV cpu rd (finish q (mapLanes (shapeOf size) (op.eval · sh) (cpu.v rn)))) := by
  refine vecEmits_one himage q rd fun fuel st l m => ?_
  rw [exec_i32Const, exec_simd rfl, exec_nil, BitVec.toNat_ofNat, Nat.mod_eq_of_lt hsh]

variable {u : Bool} {immh immb opcode : ℕ}

theorem agree_shiftImm (himage : VecImage base H) (t : Target) (q : Bool)
    (hfields : 0 < immh ∧ immh < 16 ∧ immb < 8) (hinline : canLowerShift u opcode = true)
    (rn rd : Reg) :
    VecAgree base H cpu (simdShiftImm q u immh immb opcode rn rd)
      (shiftImm t (vecView cpu) q u immh immb opcode rn rd) := by
  obtain ⟨h0, h16, h8⟩ := hfields
  obtain ⟨hsize, -, hlo, hhi⟩ := immhb_range h0 h16 h8
  have hpos := esize_pos hsize
  have he := esize_le hsize
  have hbits := bits_shapeOf hsize
  have hcount (i : ℕ) (hi : i < laneCount (immSize immh) q) : i < 128 / (8 <<< immSize immh) :=
    Nat.lt_of_lt_of_le hi (laneCount_le hsize q)
  simp only [canLowerShift, Bool.or_eq_true, Bool.and_eq_true, beq_iff_eq,
    Bool.not_eq_true'] at hinline
  obtain rfl | ⟨rfl, rfl⟩ := hinline
  · -- SSHR, USHR
    obtain ⟨v, hv, hlanes⟩ := exists_shiftImm t u h0 h16 h8 (vecView cpu) q rn rd
      (by decide : 0b00000 ∈ sameWidthShifts)
    have hamount : 0 < rightAmount (8 <<< immSize immh) (immhb immh immb) ∧
        rightAmount (8 <<< immSize immh) (immhb immh immb) ≤ 8 <<< immSize immh := by
      unfold rightAmount
      omega
    have hsub : checkedSub (2 * (8 <<< immSize immh)) ((immh <<< 3) ||| immb) =
        some (rightAmount (8 <<< immSize immh) (immhb immh immb)) :=
      if_pos (Nat.le_of_lt hhi)
    have hright : ∀ x d : BitVec (8 <<< immSize immh),
        immShiftLane 0b00000 u (immhb immh immb) x d =
          rightLane false u (rightAmount (8 <<< immSize immh) (immhb immh immb)) x :=
      fun _ _ => rfl
    simp only [hright] at hlanes
    generalize rightAmount (8 <<< immSize immh) (immhb immh immb) = sh at hamount hsub hlanes
    have hlower : simdShiftImm q u immh immb 0b00000 rn rd =
        if u ∧ sh = 8 <<< immSize immh then
          some [localGet regsBase, v128Const 0, v128Store (vOff rd)]
        else some ([localGet regsBase] ++ pushV rn ++
          [i32Const (BitVec.ofNat 32 (if (!u) ∧ sh = 8 <<< immSize immh then 8 <<< immSize immh - 1
            else sh)), laneShift (shapeOf (immSize immh)) (if u then .shrU else .shrS)] ++
          finishV q rd) := by
      unfold simdShiftImm
      rw [shiftSize_eq_immSize immh h16 h0]
      dsimp only [Option.bind_eq_bind, Option.bind_some]
      rw [if_neg fun h => absurd h.1 (by decide), if_pos rfl, hsub]
      rfl
    cases u with
    | true =>
      by_cases hfull : sh = 8 <<< immSize immh
      · rw [if_pos ⟨rfl, hfull⟩] at hlower
        have hzero : finish q 0 = 0 := by
          cases q
          · rfl
          · rfl
        refine .of_lanes hsize hlower hv hlanes (r := 0) (fun i hi => ?_) ?_
        · rw [lane_zero, rightLane_unsigned _ hamount.1, hfull]
          exact (BitVec.ushiftRight_eq_zero (Nat.le_refl _)).symm
        · intro fuel st l hl
          rw [exec_localGet, hl, exec_v128Const, exec_storeV128 himage, exec_nil, hzero]
      · rw [if_neg fun h => hfull h.2, if_neg fun h => Bool.noConfusion h.1] at hlower
        refine .of_lanes hsize hlower hv hlanes (fun i hi => ?_)
          (vecEmits_shift himage q rn rd (immSize immh) _ (by omega) .shrU)
        rw [lane_laneShift hbits _ (hcount i hi), rightLane_unsigned _ hamount.1]
        show _ >>> (_ % _) = _
        rw [Nat.mod_eq_of_lt (by omega)]
        rfl
    | false =>
      rw [if_neg fun h => Bool.noConfusion h.1] at hlower
      refine .of_lanes hsize hlower hv hlanes (fun i hi => ?_)
        (vecEmits_shift himage q rn rd (immSize immh) _ (by split_ifs <;> omega) .shrS)
      rw [lane_laneShift hbits _ (hcount i hi), rightLane_signed _ hamount.1]
      show BitVec.sshiftRight _ (_ % _) = _
      by_cases hfull : sh = 8 <<< immSize immh
      · rw [if_pos ⟨rfl, hfull⟩, Nat.mod_eq_of_lt (by omega), hfull, sshiftRight_width]
        rfl
      · rw [if_neg fun h => hfull h.2, Nat.mod_eq_of_lt (by omega)]
        rfl
  · -- SHL
    obtain ⟨v, hv, hlanes⟩ := exists_shiftImm t false h0 h16 h8 (vecView cpu) q rn rd
      (by decide : 0b01010 ∈ sameWidthShifts)
    have hsub : checkedSub ((immh <<< 3) ||| immb) (8 <<< immSize immh) =
        some (leftAmount (8 <<< immSize immh) (immhb immh immb)) := if_pos hlo
    have hamount : leftAmount (8 <<< immSize immh) (immhb immh immb) < 8 <<< immSize immh := by
      unfold leftAmount
      omega
    refine .of_lanes hsize ?_ hv hlanes (fun i hi => ?_)
      (vecEmits_shift himage q rn rd (immSize immh)
        (leftAmount (8 <<< immSize immh) (immhb immh immb)) (by omega) .shl)
    · unfold simdShiftImm
      rw [shiftSize_eq_immSize immh h16 h0]
      dsimp only [Option.bind_eq_bind, Option.bind_some]
      rw [if_pos ⟨rfl, rfl⟩, hsub]
      rfl
    · rw [lane_laneShift hbits _ (hcount i hi)]
      show _ <<< (_ % _) = leftLane _ _
      rw [Nat.mod_eq_of_lt hamount, leftLane_eq _ he]
      rfl

end ShiftImm

end V64.Jit
