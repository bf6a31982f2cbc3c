import V64.Decoder.Decode
import V64.Lib.Wasm.Syntax

/-!
# Which instructions are compiled inline

Model of `crates/jit/src/eligible.rs`. The SIMD and floating-point lowerings
decide their own eligibility; both are a parameter here, like their executors.
-/

namespace V64.Jit

open V64.Decoder

/-- `is_inline_simd`, `is_inline_fp` and their lowerings (`lower/simd.rs`, `lower/fp.rs`);
`none` is a lowering that reports failure. -/
structure VecLowering where
  isInline : Insn → Bool
  lower : Insn → Option (List Wasm.Instr)

/-- `is_inline_load_store` (lines 118–136). -/
def isInlineLoadStore : Insn → Bool
  | .loadStore size _ _ _ vec unpriv _ addr =>
    if unpriv then false
    else if size > (if vec then 4 else 3) then false
    else
      match addr with
      | .unsignedImm .. | .unscaled .. | .preIndex .. | .postIndex .. => true
      | .regOffset _ _ option _ => option == 2 || option == 3 || option == 6 || option == 7
      | .literal _ => false
  | _ => false

/-- `is_inline_load_store_pair` (lines 140–143). -/
def isInlineLoadStorePair : Insn → Bool
  | .loadStorePair .. => true
  | _ => false

/-- `is_inline_atomic` (lines 103–111). -/
def isInlineAtomic : Insn → Bool
  | .atomicRmw size op _ _ _ => decide (size ≤ 3) && decide (op ≤ 8)
  | .compareSwap size _ _ _ | .loadExclusive size _ _ | .storeExclusive size _ _ _ =>
    decide (size ≤ 3)
  | _ => false

/-- `is_inline_mem` (lines 94–96). -/
def isInlineMem (insn : Insn) : Bool :=
  isInlineLoadStore insn || isInlineLoadStorePair insn || isInlineAtomic insn

/-- `is_inline_dp1` (lines 56–62). -/
def isInlineDp1 (sf : Bool) (opcode : ℕ) : Bool :=
  match opcode with
  | 0 | 4 | 5 => true
  | 1 | 2 | 3 => decide (1 <<< opcode ≤ if sf then 8 else 4)
  | _ => false

/-- `is_inline_dp2` (lines 66–68). -/
def isInlineDp2 (opcode : ℕ) : Bool := [2, 3, 8, 9, 10, 11].contains opcode

/-- `is_inline_dp3` (lines 73–75). -/
def isInlineDp3 (op31 : ℕ) : Bool := [0b000, 0b001, 0b010, 0b101, 0b110].contains op31

/-- `can_inline` (lines 24–51). -/
def canInline (vl : VecLowering) (insn : Insn) : Bool :=
  isInlineMem insn ||
    match insn with
    | .moveWide .. | .addSubImm .. | .addSubShiftedReg .. | .addSubExtReg .. | .addSubCarry ..
    | .logicalImm .. | .logicalShiftedReg .. | .bitfield .. | .extract .. | .pcRel ..
    | .condSelect .. | .condCompare .. | .nop | .prfm => true
    | .dataProc1Src sf opcode _ _ => isInlineDp1 sf opcode
    | .dataProc2Src _ opcode _ _ _ => isInlineDp2 opcode
    | .dataProc3Src _ op31 _ _ _ _ _ => isInlineDp3 op31
    | insn => vl.isInline insn

/-- `is_branch` (lines 79–88). -/
def isBranch : Insn → Bool
  | .branchImm .. | .condBranch .. | .compareBranch .. | .testBranch .. | .branchReg .. => true
  | _ => false

end V64.Jit
