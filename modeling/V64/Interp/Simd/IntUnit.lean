import V64.Interp.Simd.Aes
import V64.Interp.Simd.Copy
import V64.Interp.Simd.Permute
import V64.Interp.Simd.TwoRegMisc
import V64.Interp.Simd.Unit

/-!
# The integer SIMD unit

Every integer executor of `crates/interp/src/simd/`, over a `rest` for the floating-point
ones.

* `intUnit`: the dispatch of `execute.rs` to them.
-/

namespace V64.Interp.Simd

open V64.Cpu V64.Decoder Checked

/-! ## `scalar.rs` -/

/-- `two_reg_misc` (lines 35–52), without the floating-point opcodes. -/
def scalarTwoRegMisc (t : Target) (w : VecView) (u : Bool) (size opcode : ℕ) (rn rd : Reg) :
    Option VecView :=
  (twoRegMisc t w false u size opcode rn rd).map fun w => keepLow w rd (8 <<< size)

/-- `pairwise` (lines 54–79), ADDP. -/
def scalarAddp (w : VecView) (rn rd : Reg) : VecView :=
  let v := w.v rn
  w.setV rd ((v.setWidth 64 + (v >>> 64).setWidth 64 : BitVec 64).setWidth 128)

/-- `copy` (lines 114–122). -/
def scalarCopy (w : VecView) (imm5 : ℕ) (rn rd : Reg) : VecView :=
  let size := (BitVec.ofNat 8 (imm5 &&& 0xf)).ctz.toNat
  let esize := 8 <<< size
  let index := imm5 >>> (size + 1)
  w.setV rd ((w.v rn >>> (index * esize)) &&& elemMask esize)

/-! ## The unit -/

/-- The integer executors, with `rest` for the other instructions. -/
def intUnit (t : Target) (rest : VecUnit) : VecUnit
  | .simdTwoRegMisc q u size opcode rn rd, w => twoRegMisc t w q u size opcode rn rd
  | .simdAcrossLanes q u size opcode rn rd, w => acrossLanes t w q u size opcode rn rd
  | .simdModImm q op cmode imm8 rd, w => some (modImm w q op cmode imm8 rd)
  | .simdDupGeneral q size rn rd, w => some (dupGeneral w q size rn rd)
  | .simdDupElement q size index rn rd, w => some (dupElement w q size index rn rd)
  | .simdInsGeneral size index rn rd, w => some (insGeneral w size index rn rd)
  | .simdInsElement size dst src rn rd, w => some (insElement w size dst src rn rd)
  | .simdMovToGpr signed dst64 size index vn rd, w =>
    some (movToGpr w signed dst64 size index vn rd)
  | .simdZipTrn q size opcode rm rn rd, w => permute w q size opcode rm rn rd
  | .simdTableLookup q isTbx len rm rn rd, w => some (tbl w q isTbx len rm rn rd)
  | .simdExt q imm4 rm rn rd, w => extract w q imm4 rm rn rd
  | .simdScalarTwoRegMisc u size opcode rn rd, w =>
    if (0xc ≤ opcode ∧ opcode ≤ 0xf) ∨ (0x16 ≤ opcode ∧ opcode ≤ 0x1f) then
      rest (.simdScalarTwoRegMisc u size opcode rn rd) w
    else scalarTwoRegMisc t w u size opcode rn rd
  | .simdScalarPairwise u size opcode rn rd, w =>
    if u then rest (.simdScalarPairwise u size opcode rn rd) w else some (scalarAddp w rn rd)
  | .simdScalarCopy imm5 rn rd, w => some (scalarCopy w imm5 rn rd)
  | insn, w => vecUnit t (aesUnit rest) insn w

end V64.Interp.Simd
