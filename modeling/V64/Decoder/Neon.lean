import V64.Decoder.Bits

/-!
# Decoding Advanced SIMD

Models of `crates/decoder/src/neon.rs` and the class modules under `neon/`: the
vector group (`decodeNeon`) and the scalar group (`decodeScalar`).
-/

namespace V64.Decoder

/-- `matches(word, mask, value)` of `neon.rs`, `m` of `neon/scalar.rs`. -/
def wordMatches (word mask value : BitVec 32) : Bool := word &&& mask == value

/-- `(size >> 1) << 5 | u << 6`: the `size` and `U` bits of a remapped FP opcode. -/
def fpOpcode (opcode size : ℕ) (u : Bool) : ℕ :=
  opcode ||| ((size >>> 1) <<< 5) ||| ((if u then 1 else 0) <<< 6)

/-! ## Three-register classes -/

/-- `three_same::decode`. -/
def decodeThreeSame (word : BitVec 32) : Insn :=
  let q := flag word 30
  let u := flag word 29
  let size := field word 22 2
  let opcode := field word 11 5
  let valid := match opcode with
    | 0b00011 => true
    | 0b00001 | 0b00101 => size != 3 || q
    | 0b00110 | 0b00111 | 0b10000 | 0b10001 => size != 3 || q
    | 0b01000 | 0b01010 => size != 3 || q
    | 0b01001 | 0b01011 => size != 3 || q
    | 0b10010 => size ≤ 2
    | 0b00000 | 0b00010 | 0b00100 => size ≤ 2
    | 0b01100 | 0b01101 | 0b01110 | 0b01111 => size ≤ 2
    | 0b10100 | 0b10101 => size ≤ 2
    | 0b10111 => !u && (size != 3 || q)
    | 0b10110 => size == 1 || size == 2
    | 0b10011 => if u then size == 0 else size ≤ 2
    | _ => false
  if !valid then .unsupported word
  else .simdThreeSame q u size opcode (regField word 16) (regField word 5) (regField word 0)

/-- `three_same_fp::decode`. -/
def decodeThreeSameFp (word : BitVec 32) : Insn :=
  let fpopcode := field word 11 5 ||| (field word 23 1 <<< 5) ||| (field word 29 1 <<< 6)
  let implemented := [0x1a, 0x3a, 0x5b, 0x5f, 0x1e, 0x3e, 0x18, 0x38, 0x7a, 0x1c, 0x5c, 0x7c,
    0x19, 0x39, 0x1b, 0x1f, 0x3f, 0x5d, 0x7d, 0x5a, 0x5e, 0x7e, 0x58, 0x78].contains fpopcode
  let q := flag word 30
  let sz := flag word 22
  if !implemented then .unsupported word
  else if sz && !q then .unsupported word
  else .simdThreeSameFp q sz fpopcode (regField word 16) (regField word 5) (regField word 0)

/-- `three_same_extra::decode`. -/
def decodeThreeSameExtra (word : BitVec 32) : Insn :=
  let u := field word 29 1
  let size := field word 22 2
  let opcode := field word 11 4
  let valid := match u * 16 + opcode with
    | 0x10 | 0x11 => size == 1 || size == 2
    | 0x02 | 0x12 => size == 2
    | _ => false
  if !valid then .unsupported word
  else
    .simdThreeSameExtra (flag word 30) (u == 1) size opcode (regField word 16) (regField word 5)
      (regField word 0)

/-- `three_diff::decode`. -/
def decodeThreeDiff (word : BitVec 32) : Insn :=
  let u := flag word 29
  let size := field word 22 2
  let opcode := field word 12 4
  let allocated := match opcode with
    | 0b0000 | 0b0001 | 0b0010 | 0b0011 | 0b0101 | 0b0111 | 0b1000 | 0b1010 | 0b1100 => true
    | 0b0100 | 0b0110 => true
    | 0b1001 | 0b1011 | 0b1101 => !u && (size == 1 || size == 2)
    | 0b1110 => !u && size == 0
    | _ => false
  if !(decide (size ≤ 2) && allocated) then .unsupported word
  else
    .simdThreeDiff (flag word 30) u size opcode (regField word 16) (regField word 5)
      (regField word 0)

/-! ## Two-register miscellaneous -/

/-- `fp_valid` (`two_reg_misc.rs`). -/
def fpValid (fpop : ℕ) (isDouble q : Bool) : Bool :=
  let notDOrQ := !isDouble || q
  if [0x2f, 0x6f, 0x7f, 0x1d, 0x5d, 0x2c, 0x2d, 0x2e, 0x6c, 0x6d, 0x1a, 0x1b, 0x3a, 0x3b, 0x5a,
      0x5b, 0x7a, 0x7b, 0x1c, 0x5c].contains fpop then notDOrQ
  else if [0x16, 0x17].contains fpop then isDouble
  else if [0x18, 0x19, 0x38, 0x39, 0x58, 0x59, 0x79].contains fpop then notDOrQ
  else false

/-- The opcodes `0xc..=0xf | 0x16..=0x1f` of the FP sub-block. -/
def isTwoRegMiscFp (opcode : ℕ) : Bool :=
  (0xc ≤ opcode && opcode ≤ 0xf) || (0x16 ≤ opcode && opcode ≤ 0x1f)

/-- `two_reg_misc::decode`. -/
def decodeTwoRegMisc (word : BitVec 32) : Insn :=
  let q := flag word 30
  let u := flag word 29
  let size := field word 22 2
  let opcode := field word 12 5
  let rn := regField word 5
  let rd := regField word 0
  if isTwoRegMiscFp opcode then
    let isDouble := size &&& 1 == 1
    let fpop := fpOpcode opcode size u
    if !fpValid fpop isDouble q then .unsupported word
    else .simdTwoRegMiscFp q isDouble fpop rn rd
  else
    let valid := match opcode with
      | 0b00000 => if u then size ≤ 1 else size ≤ 2
      | 0b00001 => !u && size == 0
      | 0b00010 | 0b00110 => size ≤ 2
      | 0b00011 => size != 3 || q
      | 0b00100 => size ≤ 2
      | 0b00101 => (!u && size == 0) || (u && size ≤ 1)
      | 0b00111 => size != 3 || q
      | 0b01000 | 0b01001 => size != 3 || q
      | 0b01010 => !u && (size != 3 || q)
      | 0b01011 => size != 3 || q
      | 0b10010 | 0b10100 => size ≤ 2
      | 0b10011 => u && size ≤ 2
      | _ => false
    if !valid then .unsupported word else .simdTwoRegMisc q u size opcode rn rd

/-! ## Indexed, across-lane and shift classes -/

/-- The element index and `Rm` of an indexed form: `MO_16`, `MO_32`, or `MO_64`
    where it is allocated. -/
def indexAndRm (size : ℕ) (h l m rm4 : ℕ) (d64 : Bool) : Option (ℕ × ℕ) :=
  match size with
  | 1 => some ((h <<< 2) ||| (l <<< 1) ||| m, rm4)
  | 2 => some ((h <<< 1) ||| l, rm4 ||| (m <<< 4))
  | _ => if d64 then some (h, rm4 ||| (m <<< 4)) else none

/-- `indexed::decode`. -/
def decodeIndexed (word : BitVec 32) : Insn :=
  let q := flag word 30
  let u := field word 29 1
  let size := field word 22 2
  let l := field word 21 1
  let opcode := field word 12 4
  let key := 16 * u + opcode
  let isFp := [0x01, 0x05, 0x09, 0x19].contains key
  let isDot := [0x0e, 0x1e].contains key
  let sizeOk :=
    if isFp then size == 2 || size == 3
    else if isDot then size == 2
    else size == 1 || size == 2
  let allocated := [0x08, 0x10, 0x14, 0x02, 0x12, 0x06, 0x16, 0x0a, 0x1a, 0x03, 0x07, 0x0b, 0x0c,
    0x0d, 0x0e, 0x1e, 0x1d, 0x1f, 0x01, 0x05, 0x09, 0x19].contains key
  if !allocated || !sizeOk then .unsupported word
  else
    match indexAndRm size (field word 11 1) l (field word 20 1) (field word 16 4)
        (!(l == 1 || !q)) with
    | none => .unsupported word
    | some (index, rm) =>
      .simdIndexed q (u == 1) size opcode index (Fin.ofNat 32 rm) (regField word 5)
        (regField word 0)

/-- `across::decode`. -/
def decodeAcross (word : BitVec 32) : Insn :=
  let q := flag word 30
  let u := flag word 29
  let size := field word 22 2
  let opcode := field word 12 5
  let sizeOk := decide (size ≤ 2) && (size != 2 || q)
  let allocated := match opcode with
    | 0b00011 => true
    | 0b11011 => !u
    | 0b01010 | 0b11010 => true
    | _ => false
  if !(sizeOk && allocated) then .unsupported word
  else .simdAcrossLanes q u size opcode (regField word 5) (regField word 0)

/-- `shift_imm::decode`. -/
def decodeShiftImm (word : BitVec 32) : Insn :=
  let q := flag word 30
  let u := flag word 29
  let immh := field word 19 4
  let opcode := field word 11 5
  let size :=
    if immh &&& 0b1000 ≠ 0 then 3
    else if immh &&& 0b0100 ≠ 0 then 2
    else if immh &&& 0b0010 ≠ 0 then 1
    else 0
  let valid := match opcode with
    | 0b00000 | 0b00010 | 0b00100 | 0b00110 => size != 3 || q
    | 0b01000 => u && (size != 3 || q)
    | 0b01010 => size != 3 || q
    | 0b01100 => u && (size != 3 || q)
    | 0b01110 => size != 3 || q
    | 0b10000 | 0b10001 | 0b10010 | 0b10011 => decide (size ≤ 2)
    | 0b10100 => decide (size ≤ 2)
    | 0b11100 | 0b11111 => decide (size ≥ 2) && (size != 3 || q)
    | _ => false
  if !valid then .unsupported word
  else .simdShiftImm q u immh (field word 16 3) opcode (regField word 5) (regField word 0)

/-! ## Copy, immediate, permute and crypto classes -/

/-- `size_index` (`copy.rs`). -/
def sizeIndex (imm5 : ℕ) : Option (ℕ × ℕ) :=
  if imm5 &&& 1 ≠ 0 then some (0, imm5 >>> 1)
  else if imm5 &&& 2 ≠ 0 then some (1, imm5 >>> 2)
  else if imm5 &&& 4 ≠ 0 then some (2, imm5 >>> 3)
  else if imm5 &&& 8 ≠ 0 then some (3, imm5 >>> 4)
  else none

/-- `mov_to_gpr` (`copy.rs`). -/
def decodeMovToGpr (word : BitVec 32) (signed q : Bool) (imm5 : ℕ) : Insn :=
  match sizeIndex imm5 with
  | none => .unsupported word
  | some (size, index) =>
    let valid :=
      if signed then (if q then decide (size ≤ 2) else decide (size ≤ 1))
      else if q then size == 3
      else decide (size ≤ 2)
    if !valid then .unsupported word
    else .simdMovToGpr signed q size index (regField word 5) (regField word 0)

/-- `copy::decode`, with `dup_general` in place. -/
def decodeCopy (word : BitVec 32) : Insn :=
  let q := flag word 30
  let imm5 := field word 16 5
  let imm4 := field word 11 4
  let rn := regField word 5
  let rd := regField word 0
  if field word 29 1 = 1 then
    if !q then .unsupported word
    else
      match sizeIndex imm5 with
      | none => .unsupported word
      | some (size, dst) => .simdInsElement size dst (imm4 >>> size) rn rd
  else
    match imm4 with
    | 0b0000 =>
      match sizeIndex imm5 with
      | none => .unsupported word
      | some (size, index) =>
        if size == 3 && !q then .unsupported word else .simdDupElement q size index rn rd
    | 0b0001 =>
      match sizeIndex imm5 with
      | none => .unsupported word
      | some (size, _) =>
        if size == 3 && !q then .unsupported word else .simdDupGeneral q size rn rd
    | 0b0011 =>
      if q then
        match sizeIndex imm5 with
        | none => .unsupported word
        | some (size, index) => .simdInsGeneral size index rn rd
      else .unsupported word
    | 0b0101 => decodeMovToGpr word true q imm5
    | 0b0111 => decodeMovToGpr word false q imm5
    | _ => .unsupported word

/-- `mod_imm::decode`. -/
def decodeModImm (word : BitVec 32) : Insn :=
  let cmode := field word 12 4
  let op := flag word 29
  let q := flag word 30
  let imm8 := (field word 16 3 <<< 5) ||| field word 5 5
  if cmode == 0b1111 && op && !q then .unsupported word
  else if field word 11 1 ≠ 0 then .unsupported word
  else .simdModImm q op cmode (BitVec.ofNat 8 imm8) (regField word 0)

/-- `zip_trn::decode`. -/
def decodeZipTrn (word : BitVec 32) : Insn :=
  let q := flag word 30
  let size := field word 22 2
  let opcode := field word 12 3
  if opcode = 0 ∨ opcode = 0b100 then .unsupported word
  else if size == 3 && !q then .unsupported word
  else .simdZipTrn q size opcode (regField word 16) (regField word 5) (regField word 0)

/-- `tbl::decode`. -/
def decodeTbl (word : BitVec 32) : Insn :=
  .simdTableLookup (flag word 30) (flag word 12) (field word 13 2) (regField word 16)
    (regField word 5) (regField word 0)

/-- `ext::decode`. -/
def decodeExt (word : BitVec 32) : Insn :=
  let q := flag word 30
  let imm4 := field word 11 4
  if !q && imm4 &&& 0b1000 != 0 then .unsupported word
  else .simdExt q imm4 (regField word 16) (regField word 5) (regField word 0)

/-- `aes::decode`. -/
def decodeAes (word : BitVec 32) : Insn :=
  let opcode := field word 12 5
  if field word 22 2 ≠ 0 then .unsupported word
  else if !(4 ≤ opcode && opcode ≤ 7) then .unsupported word
  else .cryptoAes opcode (regField word 5) (regField word 0)

/-- `sha::three_reg`. -/
def decodeSha3 (word : BitVec 32) : Insn :=
  let opcode := field word 12 3
  if field word 22 2 ≠ 0 ∨ opcode > 6 then .unsupported word
  else .cryptoSha3 opcode (regField word 16) (regField word 5) (regField word 0)

/-- `sha::two_reg`. -/
def decodeSha2 (word : BitVec 32) : Insn :=
  let opcode := field word 12 5
  if field word 22 2 ≠ 0 ∨ opcode > 2 then .unsupported word
  else .cryptoSha2 opcode (regField word 5) (regField word 0)

/-- `neon::decode` (`neon.rs`, lines 31–82). -/
def decodeNeon (word : BitVec 32) : Insn :=
  if field word 24 5 = 0b01111 then
    if field word 10 1 = 0 then decodeIndexed word
    else if field word 19 4 = 0 then decodeModImm word
    else decodeShiftImm word
  else if wordMatches word 0xbf208c00#32 0x0e000800#32 then decodeZipTrn word
  else if wordMatches word 0xbf208c00#32 0x0e000000#32 then decodeTbl word
  else if wordMatches word 0xff3e0c00#32 0x4e280800#32 then decodeAes word
  else if wordMatches word 0x9f20c400#32 0x0e008400#32 then decodeThreeSameExtra word
  else if wordMatches word 0xbf208400#32 0x2e000000#32 then decodeExt word
  else if wordMatches word 0x9f3e0c00#32 0x0e300800#32 then decodeAcross word
  else if wordMatches word 0x9f3e0c00#32 0x0e200800#32 then decodeTwoRegMisc word
  else if wordMatches word 0x9fe08400#32 0x0e000400#32 then decodeCopy word
  else if field word 24 5 = 0b01110 ∧ field word 21 1 = 1 ∧ field word 10 2 = 0 then
    decodeThreeDiff word
  else if field word 24 5 = 0b01110 ∧ field word 21 1 = 1 ∧ field word 10 1 = 1 then
    if field word 11 5 ≥ 0b11000 then decodeThreeSameFp word else decodeThreeSame word
  else .unsupported word

/-! ## Scalar forms -/

/-- `scalar::three_same`. -/
def decodeScalarThreeSame (word : BitVec 32) : Insn :=
  let u := flag word 29
  let size := field word 22 2
  let opcode := field word 11 5
  let valid :=
    if opcode ≥ 0x18 then
      [0x1b, 0x1f, 0x3f, 0x5d, 0x7d, 0x1c, 0x5c, 0x7c, 0x7a].contains (fpOpcode opcode size u)
    else
      match opcode with
      | 0x1 | 0x5 | 0x9 | 0xb => true
      | 0x8 | 0xa | 0x6 | 0x7 | 0x11 | 0x10 => size == 3
      | 0x16 => size == 1 || size == 2
      | _ => false
  if !valid then .unsupported word
  else .simdScalarThreeSame u size opcode (regField word 16) (regField word 5) (regField word 0)

/-- `scalar::two_reg_misc`. -/
def decodeScalarTwoRegMisc (word : BitVec 32) : Insn :=
  let u := flag word 29
  let size := field word 22 2
  let opcode := field word 12 5
  let valid :=
    if isTwoRegMiscFp opcode then
      [0x2c, 0x2d, 0x2e, 0x6c, 0x6d, 0x1d, 0x5d, 0x1a, 0x1b, 0x3a, 0x3b, 0x5a, 0x5b, 0x7a, 0x7b,
        0x1c, 0x5c].contains (fpOpcode opcode size u)
    else
      match opcode with
      | 0x3 | 0x7 => true
      | 0x8 | 0x9 | 0xb => size == 3
      | 0xa => !u && size == 3
      | 0x12 => u && decide (size ≤ 2)
      | 0x14 => decide (size ≤ 2)
      | _ => false
  if !valid then .unsupported word
  else .simdScalarTwoRegMisc u size opcode (regField word 5) (regField word 0)

/-- `scalar::pairwise`. -/
def decodeScalarPairwise (word : BitVec 32) : Insn :=
  let u := flag word 29
  let size := field word 22 2
  let opcode := field word 12 5
  let full := opcode ||| ((size >>> 1) <<< 5)
  let valid :=
    if !u then opcode == 0x1b && size == 3 else [0xc, 0xd, 0xf, 0x2c, 0x2f].contains full
  if !valid then .unsupported word
  else .simdScalarPairwise u size opcode (regField word 5) (regField word 0)

/-- `scalar::three_diff`. -/
def decodeScalarThreeDiff (word : BitVec 32) : Insn :=
  let size := field word 22 2
  let opcode := field word 12 4
  let valid :=
    !flag word 29 && [0x9, 0xb, 0xd].contains opcode && (size == 1 || size == 2)
  if !valid then .unsupported word
  else .simdScalarThreeDiff size opcode (regField word 16) (regField word 5) (regField word 0)

/-- `scalar::copy`. -/
def decodeScalarCopy (word : BitVec 32) : Insn :=
  let imm5 := field word 16 5
  if field word 29 1 ≠ 0 ∨ field word 11 4 ≠ 0 ∨ imm5 &&& 0xf = 0 then .unsupported word
  else .simdScalarCopy imm5 (regField word 5) (regField word 0)

/-- `scalar::indexed`. -/
def decodeScalarIndexed (word : BitVec 32) : Insn :=
  let u := field word 29 1
  let size := field word 22 2
  let l := field word 21 1
  let opcode := field word 12 4
  let key := 16 * u + opcode
  let isFp := [0x01, 0x05, 0x09, 0x19].contains key
  let allocated := [0x03, 0x07, 0x0b, 0x0c, 0x0d, 0x01, 0x05, 0x09, 0x19].contains key
  let sizeOk := if isFp then size == 2 || size == 3 else size == 1 || size == 2
  if !allocated || !sizeOk then .unsupported word
  else
    match indexAndRm size (field word 11 1) l (field word 20 1) (field word 16 4) (l != 1) with
    | none => .unsupported word
    | some (index, rm) =>
      .simdScalarIndexed (u == 1) size opcode index (Fin.ofNat 32 rm) (regField word 5)
        (regField word 0)

/-- `scalar::shift_imm`. -/
def decodeScalarShiftImm (word : BitVec 32) : Insn :=
  let u := flag word 29
  let immh := field word 19 4
  let opcode := field word 11 5
  let dOnly := immh &&& 0b1000 != 0
  let sizeLe2 := immh &&& 0b1000 == 0
  let valid := match opcode with
    | 0b00000 | 0b00010 | 0b00100 | 0b00110 => dOnly
    | 0b01000 => u && dOnly
    | 0b01010 => dOnly
    | 0b01100 => u
    | 0b01110 => true
    | 0b10000 | 0b10001 => u && sizeLe2
    | 0b10010 | 0b10011 => sizeLe2
    | 0b11100 | 0b11111 => immh &&& 0b1100 != 0
    | _ => false
  if immh = 0 then .unsupported word
  else if !valid then .unsupported word
  else
    .simdScalarShiftImm u immh (field word 16 3) opcode (regField word 5) (regField word 0)

/-- `scalar::decode` (`neon/scalar.rs`). -/
def decodeScalar (word : BitVec 32) : Insn :=
  if wordMatches word 0xff208c00#32 0x5e000000#32 then decodeSha3 word
  else if wordMatches word 0xff3e0c00#32 0x5e280800#32 then decodeSha2 word
  else if wordMatches word 0xdf200c00#32 0x5e200000#32 then decodeScalarThreeDiff word
  else if wordMatches word 0xdf200400#32 0x5e200400#32 then decodeScalarThreeSame word
  else if wordMatches word 0xdf3e0c00#32 0x5e200800#32 then decodeScalarTwoRegMisc word
  else if wordMatches word 0xdf3e0c00#32 0x5e300800#32 then decodeScalarPairwise word
  else if wordMatches word 0xdfe08400#32 0x5e000400#32 then decodeScalarCopy word
  else if wordMatches word 0xdf000400#32 0x5f000000#32 then decodeScalarIndexed word
  else if wordMatches word 0xdf800400#32 0x5f000400#32 then decodeScalarShiftImm word
  else .unsupported word

end V64.Decoder
