import V64.Interp.Alu
import V64.Lib.Bytes

/-!
# Data-processing executors

Models of the integer data-processing executors of `crates/interp/src/`, one
section per source file. `none` is a host panic: the `unreachable!` of an opcode
that the decoder rejects.
-/

namespace V64.Interp

open V64.Cpu V64.Decoder

/-- `move_wide::exec` (`move_wide.rs`). -/
def moveWide (cpu : CpuState) (sf : Bool) (opc : ℕ) (hw : BitVec 2) (imm16 : BitVec 16)
    (rd : Reg) : Option CpuState :=
  let shift := hw.toNat * 16
  let imm := imm16.setWidth 64 <<< shift
  let result := match opc with
    | 2 => some imm
    | 0 => some (~~~imm)
    | 3 =>
      let cur := cpu.readGpr rd false
      let mask := ~~~(0xffff#64 <<< shift)
      some ((cur &&& mask) ||| imm)
    | _ => none
  result.map fun result => write cpu rd sf result false

/-- Sets the flags of an addition, if `set_flags`. -/
def setFlagsIf (cpu : CpuState) (setFlags : Bool) (flags : Flags) : CpuState :=
  if setFlags then { cpu with flags := flags } else cpu

/-- A register write and a flag update do not depend on each other. -/
theorem write_setFlagsIf (cpu : CpuState) (setFlags : Bool) (flags : Flags) (idx : Reg) (sf : Bool)
    (val : BitVec 64) (sp : Bool) :
    write (setFlagsIf cpu setFlags flags) idx sf val sp =
      setFlagsIf (write cpu idx sf val sp) setFlags flags := by
  rw [write_eq, write_eq]
  unfold CpuState.writeGpr setFlagsIf
  split_ifs <;> rfl

/-- `imm` of `add_sub_imm::exec` and of its lowering. -/
def addSubImmediate (shift12 : Bool) (imm12 : BitVec 12) : BitVec 64 :=
  imm12.setWidth 64 <<< (if shift12 then 12 else 0)

/-- `add_sub_imm::exec` (`add_sub_imm.rs`). -/
def addSubImm (cpu : CpuState) (sf sub setFlags shift12 : Bool) (imm12 : BitVec 12)
    (rn rd : Reg) : CpuState :=
  let imm := addSubImmediate shift12 imm12
  let a := read cpu rn sf true
  let (result, flags) := addWithCarry a imm sub sf
  write (setFlagsIf cpu setFlags flags) rd sf result (!setFlags)

/-- `add_sub_shifted_reg::exec` (`add_sub_shifted_reg.rs`). -/
def addSubShiftedReg (cpu : CpuState) (sf sub setFlags : Bool) (shift : ShiftType)
    (amount : BitVec 6) (rm rn rd : Reg) : CpuState :=
  let a := read cpu rn sf false
  let b := applyShift (read cpu rm sf false) shift amount sf
  let (result, flags) := addWithCarry a b sub sf
  write (setFlagsIf cpu setFlags flags) rd sf result false

/-- `(bits, signed)` of an extend option (`add_sub_ext_reg.rs`, lines 11–20). -/
def extendOf (option : ℕ) : ℕ × Bool :=
  match option with
  | 0 => (8, false)
  | 1 => (16, false)
  | 2 => (32, false)
  | 3 => (64, false)
  | 4 => (8, true)
  | 5 => (16, true)
  | 6 => (32, true)
  | _ => (64, true)

/-- The extension of `v` by `option`, before the shift (lines 21–32). -/
def extendVal (v : BitVec 64) (option : ℕ) : BitVec 64 :=
  let (bits, signed) := extendOf option
  if bits ≥ 64 then v
  else
    let m : BitVec 64 := (1 <<< bits) - 1
    let x := v &&& m
    if signed then
      let s := 64 - bits
      (x <<< s).sshiftRight s
    else x

/-- `extend_reg` (`add_sub_ext_reg.rs`, lines 10–35). -/
def extendReg (cpu : CpuState) (rm : Reg) (option shift : ℕ) : BitVec 64 :=
  extendVal (cpu.readGpr rm false) option <<< shift

/-- `add_sub_ext_reg::exec` (`add_sub_ext_reg.rs`). -/
def addSubExtReg (cpu : CpuState) (sf sub setFlags : Bool) (option imm3 : ℕ)
    (rm rn rd : Reg) : CpuState :=
  let a := read cpu rn sf true
  let b := extendReg cpu rm option imm3
  let (result, flags) := addWithCarry a b sub sf
  write (setFlagsIf cpu setFlags flags) rd sf result (!setFlags)

/-- `add_sub_carry::exec` (`add_sub_carry.rs`). -/
def addSubCarry (cpu : CpuState) (sf sub setFlags : Bool) (rm rn rd : Reg) : CpuState :=
  let a := read cpu rn sf false
  let b := read cpu rm sf false
  let carryIn := bit64 cpu.flags.c
  let bOp := if sub then ~~~b else b
  let (result, flags) := addWithCarryIn a bOp carryIn sf
  write (setFlagsIf cpu setFlags flags) rd sf result false

/-- The `match opc` of both logical executors. -/
def logicalOp (opc : ℕ) (a b : BitVec 64) : Option (BitVec 64) :=
  match opc with
  | 0 | 3 => some (a &&& b)
  | 1 => some (a ||| b)
  | 2 => some (a ^^^ b)
  | _ => none

/-- The flags of ANDS and BICS. -/
def logicalFlags (sf : Bool) (result : BitVec 64) : Flags :=
  let r := result &&& widthMask sf
  { n := (r >>> (if sf then 63 else 31)) &&& 1 == 1
    z := r == 0
    c := false
    v := false }

/-- `logical_imm::exec` (`logical_imm.rs`). -/
def logicalImm (cpu : CpuState) (sf : Bool) (opc : ℕ) (imm : BitVec 64) (rn rd : Reg) :
    Option CpuState :=
  let a := read cpu rn sf false
  (logicalOp opc a imm).map fun result =>
    write (setFlagsIf cpu (opc == 3) (logicalFlags sf result)) rd sf result (opc != 3)

/-- `logical_reg::exec` (`logical_reg.rs`). -/
def logicalReg (cpu : CpuState) (sf : Bool) (opc : ℕ) (negate : Bool) (shift : ShiftType)
    (amount : BitVec 6) (rm rn rd : Reg) : Option CpuState :=
  let mask := widthMask sf
  let a := read cpu rn sf false
  let b := applyShift (read cpu rm sf false) shift amount sf
  let b := if negate then ~~~b &&& mask else b
  (logicalOp opc a b).map fun result =>
    write (setFlagsIf cpu (opc == 3) (logicalFlags sf result)) rd sf result false

/-- `ror` (`bitfield.rs`, lines 13–20). -/
def ror (val : BitVec 64) (r ds : ℕ) : BitVec 64 :=
  if ds = 64 then val.rotateRight r else ((val.setWidth 32).rotateRight r).setWidth 64

/-- `bitfield::exec` (`bitfield.rs`). -/
def bitfield (cpu : CpuState) (sf : Bool) (opc : ℕ) (wmask tmask : BitVec 64)
    (immr imms : BitVec 6) (rn rd : Reg) : CpuState :=
  let ds := datasize sf
  let dmask := if ds = 64 then BitVec.allOnes 64 else wMask
  let wmask := wmask &&& dmask
  let tmask := tmask &&& dmask
  let src := read cpu rn sf false
  let rotated := ror src immr.toNat ds &&& wmask
  let dst := read cpu rd sf false
  let bot := if opc = 1 then (dst &&& ~~~wmask) ||| rotated else rotated
  let top := match opc with
    | 0 => if (src >>> imms.toNat) &&& 1 == 1 then dmask else 0
    | 1 => dst
    | _ => 0
  let result := (top &&& ~~~tmask) ||| (bot &&& tmask)
  write cpu rd sf result false

/-- `extract::exec` (`extract.rs`). -/
def extract (cpu : CpuState) (sf : Bool) (rm rn : Reg) (lsb : BitVec 6) (rd : Reg) : CpuState :=
  let m := read cpu rm sf false
  let n := read cpu rn sf false
  let lsb := lsb.toNat
  let result :=
    if sf then if lsb = 0 then m else (m >>> lsb) ||| (n <<< (64 - lsb))
    else
      let m := m.setWidth 32
      let n := n.setWidth 32
      -- a `u32` shift takes its amount modulo 32
      let r := if lsb = 0 then m else (m >>> (lsb % 32)) ||| (n <<< ((2 ^ 32 + 32 - lsb) % 32))
      r.setWidth 64
  write cpu rd sf result false

/-- `cond_select::exec` (`cond_select.rs`). -/
def condSelect (cpu : CpuState) (sf op o2 : Bool) (cond : BitVec 4) (rm rn rd : Reg) : CpuState :=
  let result :=
    if evalCond cond cpu.flags then read cpu rn sf false
    else
      let m := read cpu rm sf false
      let mask := widthMask sf
      match op, o2 with
      | false, false => m
      | false, true => (m + 1) &&& mask
      | true, false => ~~~m &&& mask
      | true, true => -m &&& mask
  write cpu rd sf result false

/-- The flags of a four-bit immediate (`cond_compare.rs`, lines 30–35). -/
def nzcvFlags (nzcv : BitVec 4) : Flags where
  n := nzcv &&& 0b1000 != 0
  z := nzcv &&& 0b0100 != 0
  c := nzcv &&& 0b0010 != 0
  v := nzcv &&& 0b0001 != 0

/-- `cond_compare::exec` (`cond_compare.rs`). -/
def condCompare (cpu : CpuState) (sf sub isImm : Bool) (immY : BitVec 5) (rm : Reg)
    (cond nzcv : BitVec 4) (rn : Reg) : CpuState :=
  if evalCond cond cpu.flags then
    let y := if isImm then immY.setWidth 64 else read cpu rm sf false
    let a := read cpu rn sf false
    { cpu with flags := (addWithCarry a y sub sf).2 }
  else { cpu with flags := nzcvFlags nzcv }

/-! ## One source (`data_proc_1src.rs`) -/

/-- Byte `k` of `val.to_le_bytes()`. -/
def byteOf (val : BitVec 64) (k : ℕ) : BitVec 8 := (val >>> (8 * k)).setWidth 8

/-- `rev_groups` (lines 9–20). -/
def revGroups (val : BitVec 64) (ds groupBytes : ℕ) : BitVec 64 :=
  let bytes := ds / 8
  let g := groupBytes
  let src := byteOf val
  let out := (List.range ((bytes + g - 1) / g)).foldl
    (fun out k => (List.range g).foldl
      (fun out i => Function.update out (k * g + i) (src (k * g + g - 1 - i))) out)
    (fun _ => 0)
  Bytes.loadLe 64 out 0 8

/-- The `while i > 0` loop of `cls`. -/
def clsLoop (val sign : BitVec 64) : ℕ → BitVec 64 → BitVec 64
  | 0, count => count
  | i + 1, count =>
    if (val >>> i) &&& 1 == sign then clsLoop val sign i (count + 1) else count

/-- `cls` (lines 23–36). -/
def cls (val : BitVec 64) (ds : ℕ) : BitVec 64 :=
  clsLoop val ((val >>> (ds - 1)) &&& 1) (ds - 1) 0

/-- `data_proc_1src::exec` (lines 38–60). -/
def dataProc1Src (cpu : CpuState) (sf : Bool) (opcode : ℕ) (rn rd : Reg) : Option CpuState :=
  let ds := datasize sf
  let v := read cpu rn sf false
  let result := match opcode with
    | 0 => some (if sf then v.reverse else (v.setWidth 32).reverse.setWidth 64)
    | 1 => some (revGroups v ds 2)
    | 2 => some (revGroups v ds 4)
    | 3 => some (revGroups v ds 8)
    | 4 => some (if sf then v.clz else (v.setWidth 32).clz.setWidth 64)
    | 5 => some (cls v ds)
    | _ => none
  result.map fun result => write cpu rd sf result false

/-! ## Two sources (`data_proc_2src.rs`) -/

/-- One bit of the inner loop of `crc`. -/
def crcBit (poly crc : BitVec 32) : BitVec 32 :=
  if crc &&& 1 != 0 then (crc >>> 1) ^^^ poly else crc >>> 1

/-- `crc` (lines 37–46). -/
def crc (acc : BitVec 32) (val : BitVec 64) (size : ℕ) (poly : BitVec 32) : BitVec 32 :=
  (List.range size).foldl
    (fun crc i => Nat.iterate (crcBit poly) 8 (crc ^^^ ((val >>> (i * 8)) &&& 0xff).setWidth 32))
    acc

/-- `udiv` (lines 48–55). -/
def udiv (n m : BitVec 64) (sf : Bool) : BitVec 64 :=
  if sf then if m = 0 then 0 else n / m
  else
    let n := n.setWidth 32
    let m := m.setWidth 32
    (if m = 0 then 0 else n / m).setWidth 64

/-- `sdiv` (lines 57–78). -/
def sdiv (n m : BitVec 64) (sf : Bool) : BitVec 64 :=
  if sf then
    if m = 0 then 0
    else if n = BitVec.intMin 64 ∧ m = -1 then BitVec.intMin 64
    else n.sdiv m
  else
    let n := n.setWidth 32
    let m := m.setWidth 32
    let r :=
      if m = 0 then 0
      else if n = BitVec.intMin 32 ∧ m = -1 then BitVec.intMin 32
      else n.sdiv m
    r.setWidth 64

/-- `shift_var` (lines 87–106); `Shift` is `ShiftType`. -/
def shiftVar (n m : BitVec 64) (ds : ℕ) (kind : ShiftType) (sf : Bool) : BitVec 64 :=
  let amount := m.toNat % ds
  if sf then
    match kind with
    | .lsl => n <<< amount
    | .lsr => n >>> amount
    | .asr => n.sshiftRight amount
    | .ror => n.rotateRight amount
  else
    let n := n.setWidth 32
    let r := match kind with
      | .lsl => n <<< amount
      | .lsr => n >>> amount
      | .asr => n.sshiftRight amount
      | .ror => n.rotateRight amount
    r.setWidth 64

/-- `data_proc_2src::exec` (lines 7–33). -/
def dataProc2Src (cpu : CpuState) (sf : Bool) (opcode : ℕ) (rm rn rd : Reg) : Option CpuState :=
  let ds := datasize sf
  let n := read cpu rn sf false
  let m := read cpu rm sf false
  if 0x10 ≤ opcode ∧ opcode ≤ 0x17 then
    let acc := (n &&& 0xffffffff).setWidth 32
    let size := 1 <<< (opcode &&& 3)
    let poly := if opcode &&& 4 = 0 then 0xEDB88320 else 0x82F63B78
    some (write cpu rd false ((crc acc m size poly).setWidth 64) false)
  else
    let result := match opcode with
      | 2 => some (udiv n m sf)
      | 3 => some (sdiv n m sf)
      | 8 => some (shiftVar n m ds .lsl sf)
      | 9 => some (shiftVar n m ds .lsr sf)
      | 10 => some (shiftVar n m ds .asr sf)
      | 11 => some (shiftVar n m ds .ror sf)
      | _ => none
    result.map fun result => write cpu rd sf result false

/-! ## Three sources (`data_proc_3src.rs`) -/

/-- `a - prod` or `a + prod`, as `o0` says. -/
def accumulate (o0 : Bool) (a prod : BitVec 64) : BitVec 64 := if o0 then a - prod else a + prod

/-- `data_proc_3src::exec` (lines 8–67). -/
def dataProc3Src (cpu : CpuState) (sf : Bool) (op31 : ℕ) (o0 : Bool) (rm ra rn rd : Reg) :
    Option CpuState :=
  let result := match op31 with
    | 0b000 =>
      let n := read cpu rn sf false
      let m := read cpu rm sf false
      let a := read cpu ra sf false
      some (accumulate o0 a (n * m))
    | 0b001 =>
      let n := ((read cpu rn false false).setWidth 32).signExtend 64
      let m := ((read cpu rm false false).setWidth 32).signExtend 64
      let a := read cpu ra true false
      some (accumulate o0 a (n * m))
    | 0b101 =>
      let n := ((read cpu rn false false).setWidth 32).setWidth 64
      let m := ((read cpu rm false false).setWidth 32).setWidth 64
      let a := read cpu ra true false
      some (accumulate o0 a (n * m))
    | 0b010 =>
      let n := (read cpu rn true false).signExtend 128
      let m := (read cpu rm true false).signExtend 128
      some (((n * m) >>> 64).setWidth 64)
    | 0b110 =>
      let n := (read cpu rn true false).setWidth 128
      let m := (read cpu rm true false).setWidth 128
      some (((n * m) >>> 64).setWidth 64)
    | _ => none
  result.map fun result => write cpu rd sf result false

/-- `pc_rel::exec` (`pc_rel.rs`). -/
def pcRel (cpu : CpuState) (page : Bool) (imm : BitVec 64) (rd : Reg) (pc : BitVec 64) :
    CpuState :=
  let base := if page then pc &&& ~~~0xfff#64 else pc
  write cpu rd true (base + imm) false

end V64.Interp
