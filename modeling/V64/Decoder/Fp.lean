import V64.Decoder.Bits

/-!
# Decoding scalar floating point

Models of `crates/decoder/src/fp.rs` and the class modules under `fp/`.
-/

namespace V64.Decoder

/-- `ftype_ok` (`fp.rs`, lines 53–55). -/
def ftypeOk (ftype : ℕ) : Bool := ftype == 0b00 || ftype == 0b01

/-- `ccmp::decode` (`fp/ccmp.rs`). -/
def decodeFpCcmp (word : BitVec 32) : Insn :=
  let ftype := field word 22 2
  if field word 21 1 != 1 || !ftypeOk ftype then .unsupported word
  else
    .fpCondCompare ftype (regField word 16) (regField word 5) (rawField word 12 4)
      (rawField word 0 4) (flag word 4)

/-- `compare::decode` (`fp/compare.rs`). -/
def decodeFpCompare (word : BitVec 32) : Insn :=
  let ftype := field word 22 2
  let opcode2 := field word 0 5
  if !ftypeOk ftype || field word 14 2 != 0 || opcode2 &&& 0b00111 != 0 then .unsupported word
  else
    .fpCompare ftype (regField word 16) (regField word 5) ((opcode2 >>> 3) &&& 1 == 1)
      ((opcode2 >>> 4) &&& 1 == 1)

/-- `csel::decode` (`fp/csel.rs`). -/
def decodeFpCsel (word : BitVec 32) : Insn :=
  let ftype := field word 22 2
  if !ftypeOk ftype then .unsupported word
  else
    .fpCondSelect ftype (rawField word 12 4) (regField word 16) (regField word 5)
      (regField word 0)

/-- `cvt::decode` (`fp/cvt.rs`). -/
def decodeFpCvt (word : BitVec 32) : Insn :=
  let sf := flag word 31
  let ftype := field word 22 2
  let rmode := field word 19 2
  let opcode := field word 16 3
  let valid := match rmode, opcode with
    | 0b00, 0b010 | 0b00, 0b011 => true
    | _, 0b000 | _, 0b001 => true
    | 0b00, 0b100 | 0b00, 0b101 => true
    | 0b00, 0b110 | 0b00, 0b111 => (!sf && ftype == 0b00) || (sf && ftype == 0b01)
    | _, _ => false
  let cvt : Insn := .fpCvtInt sf ftype rmode opcode (regField word 5) (regField word 0)
  if sf && ftype == 0b10 && rmode == 0b01 && (opcode == 0b110 || opcode == 0b111) then cvt
  else if !ftypeOk ftype then .unsupported word
  else if !valid then .unsupported word
  else cvt

/-- `dp1::decode` (`fp/dp1.rs`). -/
def decodeFpDp1 (word : BitVec 32) : Insn :=
  let ftype := field word 22 2
  let opcode := field word 15 6
  let valid := match opcode with
    | 0 | 1 | 2 | 3 => ftypeOk ftype
    | 4 => ftype == 0b01
    | 5 => ftype == 0b00
    | 0x8 | 0x9 | 0xa | 0xb | 0xc | 0xe | 0xf => ftypeOk ftype
    | _ => false
  if !valid then .unsupported word
  else .fpDataProc1 ftype opcode (regField word 5) (regField word 0)

/-- `dp2::decode` (`fp/dp2.rs`). -/
def decodeFpDp2 (word : BitVec 32) : Insn :=
  let ftype := field word 22 2
  let opcode := field word 12 4
  if !ftypeOk ftype || opcode > 0b1000 then .unsupported word
  else .fpDataProc2 ftype opcode (regField word 16) (regField word 5) (regField word 0)

/-- `dp3::decode` (`fp/dp3.rs`). -/
def decodeFpDp3 (word : BitVec 32) : Insn :=
  let ftype := field word 22 2
  if !ftypeOk ftype then .unsupported word
  else
    .fpDataProc3 ftype (flag word 21) (flag word 15) (regField word 16) (regField word 10)
      (regField word 5) (regField word 0)

/-- `fixed::decode` (`fp/fixed.rs`). -/
def decodeFpFixed (word : BitVec 32) : Insn :=
  let sf := flag word 31
  let ftype := field word 22 2
  let opcode := field word 16 3
  let scale := field word 10 6
  let valid := match field word 19 2, opcode with
    | 0b00, 0b010 | 0b00, 0b011 | 0b11, 0b000 | 0b11, 0b001 => true
    | _, _ => false
  if !ftypeOk ftype then .unsupported word
  else if !valid || (!sf && scale < 32) then .unsupported word
  else .fpCvtFixed sf ftype opcode scale (regField word 5) (regField word 0)

/-- `imm::decode` (`fp/imm.rs`). -/
def decodeFpImm (word : BitVec 32) : Insn :=
  let ftype := field word 22 2
  if !ftypeOk ftype || field word 5 5 != 0 then .unsupported word
  else .fpImm ftype (rawField word 13 8) (regField word 0)

/-- `fp::decode` (`fp.rs`, lines 20–50). -/
def decodeFp (word : BitVec 32) : Insn :=
  if field word 24 5 = 0b11111 then decodeFpDp3 word
  else if field word 24 5 ≠ 0b11110 then .unsupported word
  else if field word 21 1 = 0 then decodeFpFixed word
  else
    match field word 10 2 with
    | 0b00 =>
      if field word 10 6 = 0b000000 then decodeFpCvt word
      else if field word 10 5 = 0b10000 then decodeFpDp1 word
      else if field word 10 4 = 0b1000 then decodeFpCompare word
      else if field word 10 3 = 0b100 then decodeFpImm word
      else .unsupported word
    | 0b10 => decodeFpDp2 word
    | 0b11 => decodeFpCsel word
    | _ => decodeFpCcmp word

end V64.Decoder
