import V64.Decoder.Bits

/-!
# Decoding data-processing instructions

Models of the immediate and register data-processing decoders of
`crates/decoder/src/` (`dp_imm.rs`, `dp_reg.rs` and the class modules they route
to), under the class modules' names.
-/

namespace V64.Decoder

open V64.Cpu (Reg)

/-! ## Data processing (immediate) -/

/-- `pc_rel::decode` (`pc_rel.rs`). -/
def decodePcRel (word : BitVec 32) : Insn :=
  let page := flag word 31
  let imm21 := (field word 5 19 <<< 2) ||| field word 29 2
  let raw := (BitVec.ofNat 21 imm21).signExtend 64
  .pcRel page (if page then raw <<< 12 else raw) (regField word 0)

/-- `add_sub_imm::decode` (`add_sub_imm.rs`). -/
def decodeAddSubImm (word : BitVec 32) : Insn :=
  let shift := field word 22 2
  if shift ≥ 2 then .unsupported word
  else
    .addSubImm (sf word) (flag word 30) (flag word 29) (shift == 1) (rawField word 10 12)
      (regField word 5) (regField word 0)

/-- `logical_imm::decode` (`logical_imm.rs`). -/
def decodeLogicalImm (word : BitVec 32) : Insn :=
  let sf := sf word
  let n := field word 22 1
  if !sf && n != 0 then .unsupported word
  else
    match decodeBitMasks n (field word 10 6) (field word 16 6) true with
    | none => .unsupported word
    | some (mask, _) =>
      .logicalImm sf (field word 29 2) (if sf then mask else mask &&& 0xffffffff#64)
        (regField word 5) (regField word 0)

/-- `move_wide::decode` (`move_wide.rs`). -/
def decodeMoveWide (word : BitVec 32) : Insn :=
  let opc := field word 29 2
  if opc = 1 then .unsupported word
  else if !sf word && field word 21 2 ≥ 2 then .unsupported word
  else .moveWide (sf word) opc (rawField word 21 2) (rawField word 5 16) (regField word 0)

/-- `bitfield::decode` (`bitfield.rs`). -/
def decodeBitfield (word : BitVec 32) : Insn :=
  let sf := sf word
  let opc := field word 29 2
  let n := field word 22 1
  let immr := field word 16 6
  let imms := field word 10 6
  let bitsize := if sf then 64 else 32
  if (if sf then 1 else 0) ≠ n ∨ immr ≥ bitsize ∨ imms ≥ bitsize ∨ opc > 2 then .unsupported word
  else
    match decodeBitMasks n imms immr false with
    | none => .unsupported word
    | some (wmask, tmask) =>
      .bitfield sf opc wmask tmask (rawField word 16 6) (rawField word 10 6) (regField word 5)
        (regField word 0)

/-- `extract::decode` (`extract.rs`). -/
def decodeExtract (word : BitVec 32) : Insn :=
  let sf := sf word
  let n := field word 22 1
  let bitsize := if sf then 64 else 32
  if (if sf then 1 else 0) ≠ n ∨ field word 29 2 ≠ 0 ∨ field word 21 1 ≠ 0 ∨
      field word 10 6 ≥ bitsize then .unsupported word
  else .extract sf (regField word 16) (regField word 5) (rawField word 10 6) (regField word 0)

/-- `dp_imm::decode` (`dp_imm.rs`). -/
def decodeDpImm (word : BitVec 32) : Insn :=
  match field word 23 3 with
  | 0b000 | 0b001 => decodePcRel word
  | 0b010 => decodeAddSubImm word
  | 0b100 => decodeLogicalImm word
  | 0b101 => decodeMoveWide word
  | 0b110 => decodeBitfield word
  | 0b111 => decodeExtract word
  | _ => .unsupported word

/-! ## Data processing (register) -/

/-- `logical_reg::decode` (`logical_reg.rs`). -/
def decodeLogicalReg (word : BitVec 32) : Insn :=
  let shift : ShiftType := match field word 22 2 with
    | 0 => .lsl
    | 1 => .lsr
    | 2 => .asr
    | _ => .ror
  if !sf word && field word 10 6 ≥ 32 then .unsupported word
  else
    .logicalShiftedReg (sf word) (field word 29 2) (flag word 21) shift (rawField word 10 6)
      (regField word 16) (regField word 5) (regField word 0)

/-- `add_sub_shifted_reg::decode` (`add_sub_shifted_reg.rs`). -/
def decodeAddSubShiftedReg (word : BitVec 32) : Insn :=
  let decodeWith (shift : ShiftType) : Insn :=
    if !sf word && field word 10 6 ≥ 32 then .unsupported word
    else
      .addSubShiftedReg (sf word) (flag word 30) (flag word 29) shift (rawField word 10 6)
        (regField word 16) (regField word 5) (regField word 0)
  match field word 22 2 with
  | 0 => decodeWith .lsl
  | 1 => decodeWith .lsr
  | 2 => decodeWith .asr
  | _ => .unsupported word

/-- `add_sub_ext_reg::decode` (`add_sub_ext_reg.rs`). -/
def decodeAddSubExtReg (word : BitVec 32) : Insn :=
  let imm3 := field word 10 3
  if imm3 > 4 then .unsupported word
  else
    .addSubExtReg (sf word) (flag word 30) (flag word 29) (field word 13 3) imm3
      (regField word 16) (regField word 5) (regField word 0)

/-- `add_sub_carry::decode` (`add_sub_carry.rs`). -/
def decodeAddSubCarry (word : BitVec 32) : Insn :=
  if field word 10 6 ≠ 0 then .unsupported word
  else
    .addSubCarry (sf word) (flag word 30) (flag word 29) (regField word 16) (regField word 5)
      (regField word 0)

/-- `cond_compare::decode` (`cond_compare.rs`). -/
def decodeCondCompare (word : BitVec 32) : Insn :=
  if field word 29 1 ≠ 1 ∨ field word 10 1 ≠ 0 ∨ field word 4 1 ≠ 0 then .unsupported word
  else
    .condCompare (sf word) (flag word 30) (flag word 11) (rawField word 16 5) (regField word 16)
      (rawField word 12 4) (rawField word 0 4) (regField word 5)

/-- `cond_select::decode` (`cond_select.rs`). -/
def decodeCondSelect (word : BitVec 32) : Insn :=
  if field word 11 1 ≠ 0 then .unsupported word
  else
    .condSelect (sf word) (flag word 30) (flag word 10) (rawField word 12 4) (regField word 16)
      (regField word 5) (regField word 0)

/-- `data_proc_1src::decode` (`data_proc_1src.rs`). -/
def decodeDataProc1Src (word : BitVec 32) : Insn :=
  let opcode := field word 10 6
  if field word 16 5 ≠ 0 then .unsupported word
  else if opcode > 5 ∨ (opcode = 3 ∧ sf word = false) then .unsupported word
  else .dataProc1Src (sf word) opcode (regField word 5) (regField word 0)

/-- `data_proc_2src::decode` (`data_proc_2src.rs`). -/
def decodeDataProc2Src (word : BitVec 32) : Insn :=
  let opcode := field word 10 6
  let ok := match opcode with
    | 2 | 3 | 8 | 9 | 10 | 11 => true
    | 0x10 | 0x11 | 0x12 | 0x13 | 0x14 | 0x15 | 0x16 | 0x17 => sf word == (opcode &&& 3 == 3)
    | _ => false
  if !ok then .unsupported word
  else .dataProc2Src (sf word) opcode (regField word 16) (regField word 5) (regField word 0)

/-- `data_proc_3src::decode` (`data_proc_3src.rs`). -/
def decodeDataProc3Src (word : BitVec 32) : Insn :=
  let op31 := field word 21 3
  let o0 := flag word 15
  let valid := match op31 with
    | 0b000 => true
    | 0b001 | 0b101 => sf word
    | 0b010 | 0b110 => sf word && !o0
    | _ => false
  if field word 29 2 ≠ 0 then .unsupported word
  else if !valid then .unsupported word
  else
    .dataProc3Src (sf word) op31 o0 (regField word 16) (regField word 10) (regField word 5)
      (regField word 0)

/-- `dp_reg::decode` (`dp_reg.rs`). -/
def decodeDpReg (word : BitVec 32) : Insn :=
  match field word 24 5 with
  | 0b01010 => decodeLogicalReg word
  | 0b01011 =>
    if field word 21 1 = 0 then decodeAddSubShiftedReg word else decodeAddSubExtReg word
  | 0b11011 => decodeDataProc3Src word
  | 0b11010 =>
    match field word 21 3 with
    | 0b000 => decodeAddSubCarry word
    | 0b010 => decodeCondCompare word
    | 0b100 => decodeCondSelect word
    | 0b110 => if field word 30 1 = 1 then decodeDataProc1Src word else decodeDataProc2Src word
    | _ => .unsupported word
  | _ => .unsupported word

end V64.Decoder
