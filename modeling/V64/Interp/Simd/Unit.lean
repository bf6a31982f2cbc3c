import V64.Interp.Simd.Indexed
import V64.Interp.Simd.Sha
import V64.Interp.Simd.ShiftImm

/-!
# The integer part of the SIMD unit

Model of the integer families of `crates/interp/src/simd/scalar.rs`, and the executors of
this directory as one unit over a `rest` for what they leave out.

* `vecUnit`: the dispatch of `execute.rs` to these executors.
-/

namespace V64.Interp.Simd

open V64.Cpu V64.Decoder Checked

/-! ## `scalar.rs` -/

/-- `keep_low` (lines 9–12). -/
def keepLow (w : VecView) (rd : Reg) (bits : ℕ) : VecView :=
  let mask : BitVec 128 := if bits ≥ 128 then BitVec.allOnes 128 else (1 <<< bits) - 1
  w.setV rd (w.v rd &&& mask)

/-- `three_same` (lines 14–33), without the floating-point opcodes. -/
def scalarThreeSame (t : Target) (w : VecView) (u : Bool) (size opcode : ℕ) (rm rn rd : Reg) :
    Option VecView :=
  (threeSame t w false u size opcode rm rn rd).map fun w => keepLow w rd (8 <<< size)

/-- `three_diff` (lines 101–112). -/
def scalarThreeDiff (t : Target) (w : VecView) (size opcode : ℕ) (rm rn rd : Reg) :
    Option VecView :=
  (threeDiff t w false false size opcode rm rn rd).map fun w => keepLow w rd (2 * (8 <<< size))

/-- `indexed` (lines 124–143), without the floating-point keys. -/
def scalarIndexed (t : Target) (w : VecView) (u : Bool) (size opcode index : ℕ) (rm rn rd : Reg) :
    Option VecView :=
  (indexed t w false u size opcode index rm rn rd).map fun w =>
    let bits := match indexedKey u opcode with
      | 0x03 | 0x07 | 0x0b => 2 * (8 <<< size)
      | 0x0c | 0x0d => 8 <<< size
      | _ => if size = 3 then 64 else 32
    keepLow w rd bits

/-- `shift_imm` (lines 145–158), without the fixed-point conversions. -/
def scalarShiftImm (t : Target) (w : VecView) (u : Bool) (immh immb opcode : ℕ) (rn rd : Reg) :
    Option VecView :=
  (shiftImm t w false u immh immb opcode rn rd).map fun w => keepLow w rd (8 <<< immSize immh)

/-! ## The unit -/

/-- The integer executors, with `rest` for the other instructions. -/
def vecUnit (t : Target) (rest : VecUnit) : VecUnit
  | .simdThreeSame q u size opcode rm rn rd, w => threeSame t w q u size opcode rm rn rd
  | .simdThreeDiff q u size opcode rm rn rd, w => threeDiff t w q u size opcode rm rn rd
  | .simdThreeSameExtra q u size opcode rm rn rd, w => threeSameExtra t w q u size opcode rm rn rd
  | .simdIndexed q u size opcode index rm rn rd, w =>
    if isFpKey (indexedKey u opcode) then rest (.simdIndexed q u size opcode index rm rn rd) w
    else indexed t w q u size opcode index rm rn rd
  | .simdShiftImm q u immh immb opcode rn rd, w =>
    if opcode = 0b11100 ∨ opcode = 0b11111 then
      rest (.simdShiftImm q u immh immb opcode rn rd) w
    else shiftImm t w q u immh immb opcode rn rd
  | .simdScalarThreeSame u size opcode rm rn rd, w =>
    if opcode ≥ 0x18 then rest (.simdScalarThreeSame u size opcode rm rn rd) w
    else scalarThreeSame t w u size opcode rm rn rd
  | .simdScalarThreeDiff size opcode rm rn rd, w => scalarThreeDiff t w size opcode rm rn rd
  | .simdScalarIndexed u size opcode index rm rn rd, w =>
    if isFpKey (indexedKey u opcode) then rest (.simdScalarIndexed u size opcode index rm rn rd) w
    else scalarIndexed t w u size opcode index rm rn rd
  | .simdScalarShiftImm u immh immb opcode rn rd, w =>
    if opcode = 0b11100 ∨ opcode = 0b11111 then
      rest (.simdScalarShiftImm u immh immb opcode rn rd) w
    else scalarShiftImm t w u immh immb opcode rn rd
  | .cryptoSha3 opcode rm rn rd, w => some (threeReg w opcode rm rn rd)
  | .cryptoSha2 opcode rn rd, w => some (twoReg w opcode rn rd)
  | insn, w => rest insn w

end V64.Interp.Simd
