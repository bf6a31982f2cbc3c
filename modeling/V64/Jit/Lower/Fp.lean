import V64.Jit.Eligible
import V64.Jit.Lower.Cond
import V64.Jit.Lower.Simd

/-!
# Lowering scalar floating point

Model of `crates/jit/src/lower/fp.rs`, and the vector lowering that the integer one
is parameterised by.

* `isInlineFp`: the forms that are admitted; none of their emitters can fail.
* `vecLowering`: the SIMD and floating-point arms together.
* `vecLowering_isSome`: what they admit and the decoder makes, they lower.
-/

namespace V64.Jit

open V64.Cpu V64.Decoder Wasm
open Wasm.Instr

/-- `DEFAULT_NAN_32`. -/
abbrev defaultNan32 : BitVec 64 := 0x7fc00000#64

/-- `DEFAULT_NAN_64`. -/
abbrev defaultNan64 : BitVec 64 := 0x7ff8000000000000#64

/-- `DEFAULT_SIGN_32`. -/
abbrev defaultSign32 : BitVec 64 := 0x80000000#64

/-- `DEFAULT_SIGN_64`. -/
abbrev defaultSign64 : BitVec 64 := 0x8000000000000000#64

/-- `NZCV_LT`. -/
abbrev nzcvLt : BitVec 64 := 1#64 <<< 31

/-- `NZCV_EQ`. -/
abbrev nzcvEq : BitVec 64 := (1#64 <<< 30) ||| (1#64 <<< 29)

/-- `NZCV_GT`. -/
abbrev nzcvGt : BitVec 64 := 1#64 <<< 29

/-- `NZCV_UN`. -/
abbrev nzcvUn : BitVec 64 := (1#64 <<< 29) ||| (1#64 <<< 28)

/-- The type of an operation on singles or doubles. -/
def floatTy (single : Bool) : FloatTy := if single then .f32 else .f64

/-! ## Helpers -/

/-- `read` (lines 360–366). -/
def fpRead (single : Bool) (rn : Reg) : List Instr :=
  [localGet regsBase, float (.load (floatTy single) (vOff rn))]

/-- `load_bits_ext` (lines 349–355). -/
def loadBitsExt (single : Bool) (rn : Reg) : List Instr :=
  if single then [localGet regsBase, i32Load (vOff rn), i64ExtendI32U]
  else [localGet regsBase, i64Load (vOff rn)]

/-- `write_s_t0` (lines 434–438). -/
def writeST0 (rd : Reg) : List Instr :=
  [localGet regsBase, v128Const 0, v128Store (vOff rd),
    localGet regsBase, localGet t0, i32WrapI64, i32Store (vOff rd)]

/-- `write_d_t0` (lines 441–445). -/
def writeDT0 (rd : Reg) : List Instr :=
  [localGet regsBase, i64Const 0, i64Store (vOff rd + 8),
    localGet regsBase, localGet t0, i64Store (vOff rd)]

/-- `write_t0` (lines 425–431). -/
def writeT0 (single : Bool) (rd : Reg) : List Instr := if single then writeST0 rd else writeDT0 rd

/-- `canon_s` (lines 417–422). -/
def canonS : List Instr :=
  [float (.toBits .f32), i64ExtendI32U, localSet t0,
    localGet t0, i32WrapI64, i32Const 0x7fffffff, i32And, i32Const 0x7f800000, i32GtU,
    ifElse 1 [i64Const defaultNan32] [localGet t0], localSet t0]

/-- `canon_d` (lines 408–414). -/
def canonD : List Instr :=
  [float (.toBits .f64), localSet t0,
    localGet t0, i64Const 0x7fffffffffffffff, i64And, i64Const 0x7ff0000000000000, i64GtU,
    ifElse 1 [i64Const defaultNan64] [localGet t0], localSet t0]

/-- `canon_write` (lines 397–405). -/
def canonWrite (single : Bool) (rd : Reg) : List Instr :=
  (if single then canonS else canonD) ++ writeT0 single rd

/-- `push_gpr` (lines 179–185). -/
def pushGpr (rn : Reg) : List Instr := pushX rn

/-- The store of `T0` to a general register that is not XZR. -/
def storeGprT0 (rd : Reg) : List Instr :=
  if rd ≠ 31 then [localGet regsBase, localGet t0, i64Store (xOff rd)] else []

/-! ## Emitters -/

/-- `dp3` (lines 67–84). -/
def fpDp3 (ftype : ℕ) (o1 o0 : Bool) (rm ra rn rd : Reg) : List Instr :=
  let single := ftype == 0
  let neg := float (.neg (floatTy single))
  fpRead single rn ++ (if o1 ^^ o0 then [neg] else []) ++ fpRead single rm ++
    [float (.mul (floatTy single))] ++ fpRead single ra ++ (if o1 then [neg] else []) ++
    [float (.add (floatTy single))] ++ canonWrite single rd

/-- `scvtf` (lines 113–138). -/
def scvtf (sf single signed : Bool) (rn rd : Reg) : List Instr :=
  pushGpr rn ++ (if sf then [] else [i32WrapI64]) ++
    [float (.convert (floatTy single) (if sf then .i64 else .i32) signed),
      float (.toBits (floatTy single))] ++
    (if single then [i64ExtendI32U] else []) ++ [localSet t0] ++ writeT0 single rd

/-- `fcvt_to_int` (lines 143–176). -/
def fcvtToInt (sf single signed : Bool) (rmode : ℕ) (rn rd : Reg) : List Instr :=
  fpRead single rn ++
    (match rmode with
      | 0 => [float (.nearest (floatTy single))]
      | 1 => [float (.ceil (floatTy single))]
      | 2 => [float (.floor (floatTy single))]
      | _ => []) ++
    [float (.truncSat (floatTy single) (if sf then .i64 else .i32) signed)] ++
    (if sf then [] else [i64ExtendI32U]) ++ [localSet t0] ++ storeGprT0 rd

/-- `cvt_int` (lines 87–110). -/
def fpCvtInt (sf : Bool) (ftype rmode opcode : ℕ) (rn rd : Reg) : List Instr :=
  let single := ftype == 0
  match opcode with
  | 0b010 | 0b011 => scvtf sf single (opcode == 0b010) rn rd
  | 0b000 | 0b001 => fcvtToInt sf single (opcode == 0b000) rmode rn rd
  | 0b110 => loadBitsExt (!sf) rn ++ [localSet t0] ++ storeGprT0 rd
  | _ => pushGpr rn ++ [localSet t0] ++ writeT0 single rd

/-- `mov_bits` (lines 375–382). -/
def movBits (single : Bool) (rn rd : Reg) : List Instr :=
  loadBitsExt single rn ++ [localSet t0] ++ writeT0 single rd

/-- `sign_op` (lines 385–394). -/
def signOp (single : Bool) (rn rd : Reg) (neg : Bool) : List Instr :=
  (if single then
    [localGet regsBase, i32Load (vOff rn)] ++
      (if neg then [i32Const 0x80000000, i32Xor] else [i32Const 0x7fffffff, i32And]) ++
      [i64ExtendI32U]
  else
    [localGet regsBase, i64Load (vOff rn)] ++
      if neg then [i64Const defaultSign64, i64Xor] else [i64Const 0x7fffffffffffffff, i64And]) ++
    [localSet t0] ++ writeT0 single rd

/-- `dp1` (lines 188–234). -/
def fpDp1 (ftype opcode : ℕ) (rn rd : Reg) : List Instr :=
  let single := ftype == 0
  let ty := floatTy single
  match opcode with
  | 0 => movBits single rn rd
  | 1 => signOp single rn rd false
  | 2 => signOp single rn rd true
  | 3 => fpRead single rn ++ [float (.sqrt ty)] ++ canonWrite single rd
  | 4 => fpRead false rn ++ [float .demote] ++ canonS ++ writeST0 rd
  | 5 => fpRead true rn ++ [float .promote] ++ canonD ++ writeDT0 rd
  | _ =>
    fpRead single rn ++
      [float (match opcode with
        | 0x9 => .ceil ty
        | 0xa => .floor ty
        | 0xb => .trunc ty
        | _ => .nearest ty)] ++
      canonWrite single rd

/-- `dp2` (lines 238–268). -/
def fpDp2 (ftype opcode : ℕ) (rm rn rd : Reg) : List Instr :=
  let single := ftype == 0
  let ty := floatTy single
  fpRead single rn ++ fpRead single rm ++
    [float (match opcode with
      | 0 | 8 => .mul ty
      | 1 => .div ty
      | 2 => .add ty
      | 3 => .sub ty
      | 4 => .max ty
      | _ => .min ty)] ++
    canonWrite single rd ++
    if opcode = 8 then
      [localGet t0, i64Const (if single then defaultSign32 else defaultSign64), i64Xor,
        localSet t0] ++ writeT0 single rd
    else []

/-- `expand_imm_s` (lines 448–455). -/
def expandImmS (imm8 : BitVec 8) : BitVec 32 :=
  let a : BitVec 32 := (imm8 >>> 7).setWidth 32 &&& 1
  let b : BitVec 32 := (imm8 >>> 6).setWidth 32 &&& 1
  let rep5 : BitVec 32 := if b = 1 then 0b11111 else 0
  let exp := ((b ^^^ 1) <<< 7) ||| (rep5 <<< 2) ||| ((imm8 >>> 4).setWidth 32 &&& 0b11)
  let frac := (imm8.setWidth 32 &&& 0xf) <<< 19
  (a <<< 31) ||| (exp <<< 23) ||| frac

/-- `expand_imm_d` (lines 458–465). -/
def expandImmD (imm8 : BitVec 8) : BitVec 64 :=
  let a : BitVec 64 := (imm8 >>> 7).setWidth 64 &&& 1
  let b : BitVec 64 := (imm8 >>> 6).setWidth 64 &&& 1
  let rep8 : BitVec 64 := if b = 1 then 0xff else 0
  let exp := ((b ^^^ 1) <<< 10) ||| (rep8 <<< 2) ||| ((imm8 >>> 4).setWidth 64 &&& 0b11)
  let frac := (imm8.setWidth 64 &&& 0xf) <<< 48
  (a <<< 63) ||| (exp <<< 52) ||| frac

/-- `imm` (lines 274–282). -/
def fpImm (ftype : ℕ) (imm8 : BitVec 8) (rd : Reg) : List Instr :=
  if ftype = 0 then [i64Const ((expandImmS imm8).setWidth 64), localSet t0] ++ writeST0 rd
  else [i64Const (expandImmD imm8), localSet t0] ++ writeDT0 rd

/-- `cmp_pair` (lines 334–346). -/
def cmpPair (single : Bool) (rn rm : Reg) (cmpZero : Bool) : List Instr :=
  fpRead single rn ++
    if cmpZero then [if single then i32Const 0 else i64Const 0, float (.ofBits (floatTy single))]
    else fpRead single rm

/-- `nzcv_from_cmp` (lines 321–331). -/
def nzcvFromCmp (single : Bool) (rm rn : Reg) (cmpZero : Bool) : List Instr :=
  let ty := floatTy single
  let pair := cmpPair single rn rm cmpZero
  pair ++ [float (.lt ty), ifElse 1 [i64Const nzcvLt]
    (pair ++ [float (.eq ty), ifElse 1 [i64Const nzcvEq]
      (pair ++ [float (.gt ty), ifElse 1 [i64Const nzcvGt] [i64Const nzcvUn]])]), localSet t0]

/-- `compare` (lines 287–290). -/
def fpCompare (ftype : ℕ) (rm rn : Reg) (cmpZero : Bool) : List Instr :=
  nzcvFromCmp (ftype == 0) rm rn cmpZero ++ [localGet regsBase, localGet t0, i64Store nzcvOff]

/-- `ccmp` (lines 294–305). -/
def fpCcmp (ftype : ℕ) (rm rn : Reg) (cond nzcv : BitVec 4) : List Instr :=
  emitCondTest cond ++
    [ifElse 0
      (nzcvFromCmp (ftype == 0) rm rn false ++ [localGet regsBase, localGet t0, i64Store nzcvOff])
      [localGet regsBase, i64Const (packNzcv nzcv), i64Store nzcvOff]]

/-- `csel` (lines 308–317). -/
def fpCsel (ftype : ℕ) (cond : BitVec 4) (rm rn rd : Reg) : List Instr :=
  let single := ftype == 0
  emitCondTest cond ++
    [ifElse 1 (loadBitsExt single rn) (loadBitsExt single rm), localSet t0] ++ writeT0 single rd

/-! ## The dispatch -/

/-- `is_inline_fp` (lines 33–57). -/
def isInlineFp : Insn → Bool
  | .fpDataProc1 ftype opcode _ _ =>
    decide (ftype ≤ 1) &&
      (decide (opcode ≤ 3) || (ftype == 0 && opcode == 5) || (ftype == 1 && opcode == 4) ||
        [0x8, 0x9, 0xa, 0xb, 0xe, 0xf].contains opcode)
  | .fpDataProc2 ftype opcode _ _ _ => decide (ftype ≤ 1) && (decide (opcode ≤ 5) || opcode == 8)
  | .fpImm ftype _ _ | .fpCompare ftype .. | .fpCondCompare ftype .. | .fpCondSelect ftype .. =>
    decide (ftype ≤ 1)
  | .fpCvtInt _ ftype _ opcode _ _ =>
    decide (ftype ≤ 1) && [0b000, 0b001, 0b010, 0b011, 0b110, 0b111].contains opcode
  | .fpDataProc3 ftype .. => decide (ftype ≤ 1)
  | _ => false

/-- The floating-point arms of `lower_sequential` (`lower/mod.rs`, lines 296–303). -/
def lowerFp : Insn → Option (List Instr)
  | .fpDataProc1 ftype opcode rn rd => some (fpDp1 ftype opcode rn rd)
  | .fpDataProc2 ftype opcode rm rn rd => some (fpDp2 ftype opcode rm rn rd)
  | .fpImm ftype imm8 rd => some (fpImm ftype imm8 rd)
  | .fpCompare ftype rm rn cmpZero _ => some (fpCompare ftype rm rn cmpZero)
  | .fpCondCompare ftype rm rn cond nzcv _ => some (fpCcmp ftype rm rn cond nzcv)
  | .fpCondSelect ftype cond rm rn rd => some (fpCsel ftype cond rm rn rd)
  | .fpCvtInt sf ftype rmode opcode rn rd => some (fpCvtInt sf ftype rmode opcode rn rd)
  | .fpDataProc3 ftype o1 o0 rm ra rn rd => some (fpDp3 ftype o1 o0 rm ra rn rd)
  | _ => none

/-- The vector part of `can_inline` and `lower_sequential`. -/
def vecLowering : VecLowering where
  isInline insn := isInlineSimd insn || isInlineFp insn
  lower insn := (lowerSimd insn).or (lowerFp insn)

theorem lowerFp_isSome {insn : Insn} (hinline : isInlineFp insn = true) :
    (lowerFp insn).isSome := by
  cases insn with
  | fpDataProc1 ftype opcode rn rd => rfl
  | fpDataProc2 ftype opcode rm rn rd => rfl
  | fpImm ftype imm8 rd => rfl
  | fpCompare ftype rm rn cmpZero signaling => rfl
  | fpCondCompare ftype rm rn cond nzcv signaling => rfl
  | fpCondSelect ftype cond rm rn rd => rfl
  | fpCvtInt sf ftype rmode opcode rn rd => rfl
  | fpDataProc3 ftype o1 o0 rm ra rn rd => rfl
  | _ => exact Bool.noConfusion hinline

theorem vecLowering_isSome {insn : Insn} (hfields : FieldsOk insn)
    (hinline : vecLowering.isInline insn = true) : (vecLowering.lower insn).isSome := by
  have hcases : isInlineSimd insn = true ∨ isInlineFp insn = true := Bool.or_eq_true_iff.mp hinline
  show ((lowerSimd insn).or (lowerFp insn)).isSome
  rw [Option.isSome_or, Bool.or_eq_true_iff]
  obtain hsimd | hfp := hcases
  · exact .inl (lowerSimd_isSome hfields hsimd)
  · exact .inr (lowerFp_isSome hfp)

end V64.Jit
