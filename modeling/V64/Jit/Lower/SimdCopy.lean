import V64.Interp.Simd.Copy
import V64.Jit.Lower.SimdArith

/-!
# Copies and immediates

The lowerings of `copy.rs`, against the executors of `copy.rs`, `dup.rs` and `mod_imm.rs`.
The copies reach a single lane by its address.

* `exec_iload`, `exec_istore`: the accesses to a lane.
* `agree_dupGeneral`, `agree_dupElement`, `agree_insGeneral`, `agree_insElement`,
  `agree_movToGpr`, `agree_modImm`: the forms.
-/

namespace V64.Jit

open V64.Cpu V64.Decoder V64.Interp V64.Interp.Simd V64.Platform Checked Wasm
open Wasm.Instr

variable {M : Type} [LinearMemory M] {base : BitVec 32} {H : CpuState → M} {cpu : CpuState}
  {size : ℕ}

/-! ## Masks -/

theorem elemMask_eq {e : ℕ} (he : e ≤ 64) : elemMask e = (BitVec.allOnes e).setWidth 128 := by
  apply BitVec.eq_of_getLsbD_eq
  intro k hk
  have hmask : ((1 <<< e : ℕ) - 1 : BitVec 128).getLsbD k = decide (k < e) :=
    Words.getLsbD_ones (by omega) k
  unfold elemMask
  rw [if_neg (by omega), BitVec.getLsbD_setWidth, BitVec.getLsbD_allOnes, decide_eq_true hk,
    Bool.true_and]
  exact hmask

theorem and_elemMask {e : ℕ} (he : e ≤ 64) (v : BitVec 128) :
    v &&& elemMask e = (v.setWidth e).setWidth 128 := by
  rw [elemMask_eq he]
  apply BitVec.eq_of_getLsbD_eq
  intro k hk
  rw [BitVec.getLsbD_and, BitVec.getLsbD_setWidth, BitVec.getLsbD_allOnes,
    BitVec.getLsbD_setWidth, BitVec.getLsbD_setWidth, decide_eq_true hk, Bool.true_and,
    Bool.true_and, Bool.and_comm]

theorem getLane_eq {e : ℕ} (he : e ≤ 64) (v : BitVec 128) (index : ℕ) :
    getLane v index e = (Lanes.lane e v index).setWidth 128 := by
  rw [getLane, and_elemMask he, Lanes.lane_eq]

/-- `set_lane` writes the lane that the store writes. -/
theorem setLane_eq {e : ℕ} (he : e ≤ 64) (v : BitVec 128) (index : ℕ) {elem : BitVec 128}
    {val : BitVec 64} (hsame : elem.setWidth e = val.setWidth e) :
    Simd.setLane v index e elem = insertLane v e index val := by
  unfold Simd.setLane insertLane
  dsimp only
  rw [and_elemMask he, hsame, elemMask_eq he]

/-- What an arrangement keeps of a result. -/
theorem and_arrangement (q : Bool) (v : BitVec 128) :
    (v &&& if q then BitVec.allOnes 128 else lowHalf) = finish q v := by
  cases q with
  | true => exact BitVec.and_allOnes
  | false =>
    unfold finish
    rw [← lowHalf_eq]
    rfl

/-! ## Registers -/

theorem readGpr_vecView (idx : Reg) : (vecView cpu).readGpr idx = cpu.readGpr idx false := rfl

theorem setVecView_writeGpr {idx : Reg} (hidx : idx ≠ 31) (val : BitVec 64) :
    setVecView cpu ((vecView cpu).writeGpr idx val) = cpu.writeGpr idx true val := by
  have hlt : idx.val < 31 := by
    have hne : idx.val ≠ 31 := fun h => hidx (Fin.ext h)
    omega
  rw [CpuState.writeGpr_of_lt cpu hlt, VecView.writeGpr, dif_pos hlt]
  rfl

theorem view_writeGpr_zr (w : VecView) (val : BitVec 64) : w.writeGpr 31 val = w := rfl

/-! ## Accesses to a lane -/

/-- A lane as the load of it leaves it. -/
def laneWord {e : ℕ} (signed : Bool) (x : BitVec e) : BitVec 64 :=
  if signed then x.signExtend 64 else x.setWidth 64

theorem extendLoad_lane {bytes e : ℕ} (he : 8 * bytes = e) (hle : e ≤ 64) (signed : Bool)
    (x : BitVec e) : extendLoad bytes signed (x.setWidth 64) = laneWord signed x := by
  subst he
  unfold extendLoad laneWord
  rw [setWidth_cut hle]

theorem iload_eq (h : size ≤ 3) (signed : Bool) (off : ℕ) :
    iload size signed off = i64LoadN (1 <<< size) (signed && size != 3) off := by
  interval_cases size
  · cases signed <;> rfl
  · cases signed <;> rfl
  · cases signed <;> rfl
  · cases signed <;> rfl

theorem istore_eq (h : size ≤ 3) (off : ℕ) : istore size off = i64StoreN (1 <<< size) off := by
  interval_cases size
  · rfl
  · rfl
  · rfl
  · rfl

section Access

variable {fuel : ℕ} {st : List Val} {l : ℕ → Val} {is : List Instr} (himage : LaneImage base H)

include himage

theorem exec_iload {index : ℕ} (hindex : LaneIndex size index) (signed : Bool) (idx : Reg) :
    exec fuel (iload size signed (laneOff idx index size) :: is) ⟨.i32 base :: st, l, H cpu⟩ =
      exec fuel is
        ⟨.i64 (laneWord signed (Lanes.lane (8 <<< size) (cpu.v idx) index)) :: st, l, H cpu⟩ := by
  have hsize := hindex.1
  have hword : laneWord (signed && size != 3) (Lanes.lane (8 <<< size) (cpu.v idx) index) =
      laneWord signed (Lanes.lane (8 <<< size) (cpu.v idx) index) := by
    by_cases h3 : size = 3
    · subst h3
      cases signed with
      | false => rfl
      | true => exact (BitVec.signExtend_eq _).symm
    · rw [bne_iff_ne.mpr h3, Bool.and_true]
  rw [iload_eq hsize, exec_i64LoadN (himage.loadLane cpu idx size index hindex),
    extendLoad_lane (bits_of_bytes size) (esize_le hsize), hword]

theorem exec_istore {index : ℕ} (hindex : LaneIndex size index) (idx : Reg) (val : BitVec 64) :
    exec fuel (istore size (laneOff idx index size) :: is)
        ⟨.i64 val :: .i32 base :: st, l, H cpu⟩ =
      exec fuel is
        ⟨st, l, H (setV cpu idx (insertLane (cpu.v idx) (8 <<< size) index val))⟩ := by
  rw [istore_eq hindex.1, exec_i64StoreN (himage.storeLane cpu idx size index val hindex)]

end Access

/-! ## DUP -/

theorem exec_emitSplat (h : size ≤ 3) (val : BitVec 64) :
    ∃ r, (∀ fuel st (l : ℕ → Val) (m : M), exec fuel (emitSplat size) ⟨.i64 val :: st, l, m⟩ =
        .next ⟨.v128 r :: st, l, m⟩) ∧
      ∀ i < 128 / (8 <<< size), Lanes.lane (8 <<< size) r i = val.setWidth (8 <<< size) := by
  by_cases hsmall : size ≤ 2
  · refine ⟨splatLanes (shapeOf size) ((val.setWidth 32).setWidth 64), fun fuel st l m => ?_,
      fun i hi => ?_⟩
    · have hrun : (SimdOp.splat (shapeOf size)).run (.i32 (val.setWidth 32) :: st) =
          some (.v128 (splatLanes (shapeOf size) ((val.setWidth 32).setWidth 64)) :: st) := by
        interval_cases size
        · rfl
        · rfl
        · rfl
      rw [emitSplat, if_pos hsmall, exec_append, exec_i32WrapI64, exec_nil, Outcome.bind_next,
        exec_simd hrun, exec_nil]
    · have he := esize_le_32 hsmall
      rw [lane_splatLanes (bits_shapeOf h) hi, BitVec.setWidth_setWidth_of_le _ (by omega),
        BitVec.setWidth_setWidth_of_le _ he]
  · obtain rfl : size = 3 := by omega
    refine ⟨splatLanes .i64x2 val, fun fuel st l m => ?_, fun i hi =>
      lane_splatLanes (bits_shapeOf h) hi val⟩
    show exec fuel [.simd (.splat .i64x2)] _ = _
    rw [exec_simd rfl, exec_nil]

theorem replicateElem_eq (elem : BitVec 128) (n e : ℕ) :
    replicateElem elem n e = Lanes.pack e (List.replicate n elem) := by
  unfold replicateElem
  induction n with
  | zero => rfl
  | succ n ih =>
    rw [List.range_succ, List.foldl_append, ih, List.replicate_succ', Lanes.pack_append_singleton,
      List.length_replicate]
    rfl

theorem hasLanes_replicate (h : size ≤ 3) (q : Bool) (x : BitVec (8 <<< size)) :
    HasLanes size q (fun _ => x)
      (replicateElem (x.setWidth 128) (laneCount size q) (8 <<< size)) := by
  have he := esize_le h
  have hcount := laneCount_mul h q
  have hnarrow : ∀ y ∈ List.replicate (laneCount size q) (x.setWidth 128),
      Lanes.Narrow (8 <<< size) y := by
    intro y hy
    rw [List.eq_of_mem_replicate hy]
    exact Lanes.narrow_setWidth x (Nat.le_refl _)
  rw [replicateElem_eq]
  constructor
  · intro i hi
    rw [Lanes.lane_pack hnarrow (by rw [List.length_replicate, hcount]; split_ifs <;> omega)
      (by rwa [List.length_replicate]), List.getElem_replicate,
      BitVec.setWidth_setWidth_of_le _ (by omega), BitVec.setWidth_eq]
  · intro k hk
    refine Lanes.getLsbD_pack_of_ge hnarrow ?_
    rwa [List.length_replicate, hcount]

/-- Code that splats what the executor replicates. -/
theorem agree_splat (h : size ≤ 3) (himage : VecImage base H) (q : Bool) (rd : Reg)
    {load : List Instr} {val : BitVec 64} {result : Option VecView}
    (hload : ∀ fuel st (l : ℕ → Val), l 0 = .i32 base →
      exec fuel load ⟨st, l, H cpu⟩ = .next ⟨.i64 val :: st, l, H cpu⟩)
    (hresult : result = some ((vecView cpu).setV rd
      (replicateElem ((val.setWidth (8 <<< size)).setWidth 128) (laneCount size q)
        (8 <<< size)))) :
    VecAgree base H cpu
      (some ([localGet regsBase] ++ load ++ emitSplat size ++ finishV q rd)) result := by
  obtain ⟨r, hexec, hr⟩ := exec_emitSplat (M := M) h val
  refine .of_lanes h rfl hresult (hasLanes_replicate h q _)
    (fun i hi => hr i (Nat.lt_of_lt_of_le hi (laneCount_le h q))) ?_
  rw [List.append_assoc [localGet regsBase]]
  apply vecEmits_finish himage
  intro fuel st l hl
  rw [exec_append, hload fuel st l hl, Outcome.bind_next, hexec]

theorem agree_dupGeneral (h : size ≤ 3) (himage : VecImage base H) (q : Bool) (rn rd : Reg) :
    VecAgree base H cpu (some (simdDupGeneral q size rn rd))
      (some (dupGeneral (vecView cpu) q size rn rd)) := by
  refine agree_splat h himage q rd
    (fun fuel st l hl => exec_pushGpr himage hl rn) ?_
  have he := esize_le h
  have helem : (if 8 <<< size ≥ 64 then (cpu.readGpr rn false).setWidth 128
      else (cpu.readGpr rn false &&& ((1 <<< (8 <<< size) : ℕ) - 1 : BitVec 64)).setWidth 128 :
        BitVec 128) =
      ((cpu.readGpr rn false).setWidth (8 <<< size)).setWidth 128 := by
    generalize cpu.readGpr rn false = src
    have hmask : (if 8 <<< size ≥ 64 then src
        else src &&& ((1 <<< (8 <<< size) : ℕ) - 1 : BitVec 64)) =
        src &&& Simd.widthMask (8 <<< size) := by
      unfold Simd.widthMask
      split_ifs
      · exact BitVec.and_allOnes.symm
      · rfl
    rw [← apply_ite (BitVec.setWidth 128), hmask, and_widthMask he,
      BitVec.setWidth_setWidth (by omega)]
  unfold dupGeneral
  dsimp only
  rw [readGpr_vecView, helem]
  rfl

theorem agree_dupElement (himage : LaneImage base H) (q : Bool) {index : ℕ}
    (hindex : LaneIndex size index) (rn rd : Reg) :
    VecAgree base H cpu (some (simdDupElement q size index rn rd))
      (some (dupElement (vecView cpu) q size index rn rd)) := by
  have he := esize_le hindex.1
  have hload (fuel : ℕ) (st : List Val) (l : ℕ → Val) (hl : l 0 = .i32 base) :
      exec fuel [localGet regsBase, iload size false (laneOff rn index size)] ⟨st, l, H cpu⟩ =
        .next ⟨.i64 (laneWord false (Lanes.lane (8 <<< size) (cpu.v rn) index)) :: st, l,
          H cpu⟩ := by
    rw [exec_localGet, hl, exec_iload himage hindex, exec_nil]
  have helem : getLane (cpu.v rn) index (8 <<< size) =
      ((laneWord false (Lanes.lane (8 <<< size) (cpu.v rn) index)).setWidth
        (8 <<< size)).setWidth 128 := by
    rw [getLane_eq he]
    unfold laneWord
    rw [if_neg Bool.false_ne_true, setWidth_cut he]
  refine agree_splat hindex.1 himage.toVecImage q rd hload ?_
  rw [← helem]
  rfl

/-! ## INS -/

theorem agree_insGeneral (himage : LaneImage base H) {index : ℕ} (hindex : LaneIndex size index)
    (rn rd : Reg) :
    VecAgree base H cpu (some (simdInsGeneral size index rn rd))
      (some (insGeneral (vecView cpu) size index rn rd)) := by
  have he := esize_le hindex.1
  have hlane : Simd.setLane (cpu.v rd) index (8 <<< size)
      ((cpu.readGpr rn false).setWidth 128) =
        insertLane (cpu.v rd) (8 <<< size) index (cpu.readGpr rn false) :=
    setLane_eq he _ _ (BitVec.setWidth_setWidth_of_le _ (by omega))
  refine .of_setV rfl (congrArg (fun v => some ((vecView cpu).setV rd v)) hlane) ?_
  intro fuel st l hl
  rw [simdInsGeneral, exec_append, exec_append, exec_localGet, exec_nil, Outcome.bind_next, hl,
    exec_pushGpr himage.toVecImage hl, Outcome.bind_next, exec_istore himage hindex, exec_nil]

theorem agree_insElement (himage : LaneImage base H) {dst src : ℕ} (hdst : LaneIndex size dst)
    (hsrc : LaneIndex size src) (rn rd : Reg) :
    VecAgree base H cpu (some (simdInsElement size dst src rn rd))
      (some (insElement (vecView cpu) size dst src rn rd)) := by
  have he := esize_le hdst.1
  have hlane : Simd.setLane (cpu.v rd) dst (8 <<< size) (getLane (cpu.v rn) src (8 <<< size)) =
      insertLane (cpu.v rd) (8 <<< size) dst
        (laneWord false (Lanes.lane (8 <<< size) (cpu.v rn) src)) := by
    refine setLane_eq he _ _ ?_
    unfold laneWord
    rw [getLane_eq he, BitVec.setWidth_setWidth_of_le _ (by omega), BitVec.setWidth_eq,
      if_neg Bool.false_ne_true, setWidth_cut he]
  refine .of_setV rfl (congrArg (fun v => some ((vecView cpu).setV rd v)) hlane) ?_
  intro fuel st l hl
  rw [simdInsElement, exec_localGet, exec_localGet, hl, exec_iload himage hsrc,
    exec_istore himage hdst, exec_nil]

/-! ## SMOV and UMOV -/

/-- The executor's value. -/
theorem movValue_eq {index : ℕ} (hindex : LaneIndex size index) (signed : Bool) (vn : Reg) :
    (if signed then
        ((getLane (cpu.v vn) index (8 <<< size)).setWidth 64 <<< (64 - 8 <<< size)).sshiftRight
          (64 - 8 <<< size)
      else (getLane (cpu.v vn) index (8 <<< size)).setWidth 64 : BitVec 64) =
      laneWord signed (Lanes.lane (8 <<< size) (cpu.v vn) index) := by
  have he := esize_le hindex.1
  have hcut : (getLane (cpu.v vn) index (8 <<< size)).setWidth 64 =
      (Lanes.lane (8 <<< size) (cpu.v vn) index).setWidth 64 := by
    rw [getLane_eq he, BitVec.setWidth_setWidth_of_le _ (by decide)]
  unfold laneWord
  rw [hcut, ← Words.signExtend_setWidth _ (esize_pos hindex.1) he, setWidth_cut he]

theorem and_wMask_lane {e : ℕ} (he : e ≤ 32) (x : BitVec e) :
    laneWord false x &&& 0xffffffff#64 = laneWord false x := by
  have hmask : (0xffffffff#64 : BitVec 64) = Simd.widthMask 32 := by decide
  unfold laneWord
  rw [if_neg Bool.false_ne_true, hmask, and_widthMask (by decide),
    BitVec.setWidth_setWidth_of_le x (by decide : 32 ≤ 64), BitVec.setWidth_setWidth (by omega)]

theorem agree_movToGpr (himage : LaneImage base H) {signed dst64 : Bool} {index : ℕ}
    (hindex : LaneIndex size index) (hsize : MovSize signed dst64 size) (vn rd : Reg) :
    VecAgree base H cpu (some (simdMovToGpr signed dst64 size index vn rd))
      (some (movToGpr (vecView cpu) signed dst64 size index vn rd)) := by
  generalize hx : laneWord signed (Lanes.lane (8 <<< size) (cpu.v vn) index) = x
  have hresult : movToGpr (vecView cpu) signed dst64 size index vn rd =
      (vecView cpu).writeGpr rd (if dst64 then x else x &&& 0xffffffff#64) := by
    unfold movToGpr
    dsimp only
    rw [show (vecView cpu).v = cpu.v from rfl, movValue_eq hindex, hx]
    cases dst64 with
    | true => rfl
    | false => rfl
  by_cases hrd : rd = 31
  · subst hrd
    exact ⟨[], vecView cpu, rfl, congrArg some (hresult.trans (view_writeGpr_zr _ _)),
      fun fuel st l hl => exec_nil _⟩
  · refine ⟨_, _, rfl, congrArg some hresult, fun fuel st l hl => ?_⟩
    rw [setVecView_writeGpr hrd]
    unfold simdMovToGpr
    rw [show destOff rd false = some (xOff rd) from if_neg hrd]
    dsimp only
    have hstore (val : BitVec 64) :
        exec fuel [i64Store (xOff rd)] ⟨.i64 val :: .i32 base :: st, l, H cpu⟩ =
          .next ⟨st, l, H (cpu.writeGpr rd true val)⟩ := by
      rw [exec_storeXImage himage.toVecImage, exec_nil]
    rw [exec_append, exec_append, exec_localGet, exec_localGet, hl, exec_iload himage hindex,
      exec_nil, hx, Outcome.bind_next]
    -- SMOV to a W register masks the sign
    by_cases hmask : (signed && !dst64) = true
    · have hdst : dst64 = false := by
        simpa using (Bool.and_eq_true_iff.mp hmask).2
      subst hdst
      rw [if_pos hmask, exec_i64Const, exec_i64And, exec_nil, Outcome.bind_next, hstore]
      rfl
    · -- without the mask, the lane already fits
      have hfit : (if dst64 then x else x &&& 0xffffffff#64) = x := by
        cases dst64 with
        | true => rfl
        | false =>
          have hsigned : signed = false := by simpa using hmask
          subst hsigned hx
          have hle : size ≤ 2 := hsize.resolve_left Bool.false_ne_true
          exact and_wMask_lane (esize_le_32 hle) _
      rw [if_neg hmask, exec_nil, Outcome.bind_next, hstore, hfit]

/-! ## Immediates -/

/-- The compiler expands what it admits as the interpreter does. -/
theorem expandImm_eq {op : Bool} {cmode : ℕ} {imm8 : BitVec 8}
    (h : canLowerModImm op cmode imm8 = true) :
    expandImm op cmode imm8 = some (Simd.expand op cmode imm8) := by
  unfold canLowerModImm at h
  unfold expandImm at h ⊢
  unfold Simd.expand
  dsimp only at h ⊢
  generalize cmode >>> 1 = c at h ⊢
  by_cases hc : c ≤ 6
  · interval_cases c
    · rfl
    · rfl
    · rfl
    · rfl
    · rfl
    · rfl
    · rfl
  · obtain ⟨n, rfl⟩ : ∃ n, c = n + 7 := ⟨c - 7, by omega⟩
    by_cases heven : cmode &&& 1 = 0
    · show (if cmode &&& 1 = 0 then _ else _) = some (if cmode &&& 1 = 0 then _ else _)
      rw [if_pos heven, if_pos heven]
      cases op with
      | true => rfl
      | false => rfl
    · have hnone : (if cmode &&& 1 = 0 then _ else none : Option (BitVec 64)).isSome = true := h
      rw [if_neg heven] at hnone
      cases hnone

theorem append_eq_or (x y : BitVec 64) :
    x ++ y = (x.setWidth 128 <<< 64) ||| y.setWidth 128 := by
  apply BitVec.eq_of_getLsbD_eq
  intro k hk
  rw [BitVec.getLsbD_append, BitVec.getLsbD_or, BitVec.getLsbD_shiftLeft, BitVec.getLsbD_setWidth,
    BitVec.getLsbD_setWidth, decide_eq_true hk]
  by_cases hlow : k < 64
  · rw [if_pos hlow, decide_eq_true hlow]
    simp
  · rw [if_neg hlow, decide_eq_false hlow, BitVec.getLsbD_of_ge y k (by omega),
      decide_eq_true (by omega : k - 64 < 128)]
    simp

theorem agree_modImm (himage : VecImage base H) (q : Bool) {op : Bool} {cmode : ℕ}
    {imm8 : BitVec 8} (hinline : canLowerModImm op cmode imm8 = true) (rd : Reg) :
    VecAgree base H cpu (simdModImm q op cmode imm8 rd)
      (some (modImm (vecView cpu) q op cmode imm8 rd)) := by
  unfold simdModImm modImm
  rw [expandImm_eq hinline, Option.map_some]
  dsimp only
  generalize Simd.expand op cmode imm8 = imm
  rw [append_eq_or imm imm, and_arrangement]
  generalize (if q then (imm.setWidth 128 <<< 64) ||| imm.setWidth 128
    else imm.setWidth 128 : BitVec 128) = val
  have hmask : (if q then BitVec.allOnes 128 else 0xffffffffffffffff#128) =
      if q then BitVec.allOnes 128 else lowHalf := by
    rw [lowHalf_eq]
  by_cases hfold : cmode >>> 1 ≤ 0b101 ∧ cmode &&& 1 = 1
  · -- ORR, BIC
    rw [if_pos hfold, if_pos hfold]
    refine .of_setV rfl rfl (vecEmits_one himage q rd fun fuel st l m => ?_)
    rw [exec_v128Const]
    cases op with
    | true => exact (exec_v128Bin .andNot _ _ m).trans (exec_nil _)
    | false => exact (exec_v128Bin .or _ _ m).trans (exec_nil _)
  · -- MOVI, MVNI
    rw [if_neg hfold, if_neg hfold, hmask, and_arrangement, and_arrangement,
      ← apply_ite (finish q)]
    refine .of_setV rfl rfl fun fuel st l hl => ?_
    rw [exec_localGet, hl, exec_v128Const, exec_storeV128 himage, exec_nil]

end V64.Jit
