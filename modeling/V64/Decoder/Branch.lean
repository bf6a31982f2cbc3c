import V64.Decoder.Bits

/-!
# Decoding branches, exceptions and system instructions

Models of `crates/decoder/src/branch.rs`, the branch class modules it routes to
and `crates/decoder/src/system.rs`.

* `isClrexWord`: the architecture's CLREX encodings; they decode to `nop`, like the
  barriers they share `CRn = 3` with.
-/

namespace V64.Decoder

/-! ## Branches -/

/-- `branch_imm::decode` (`branch_imm.rs`). -/
def decodeBranchImm (word : BitVec 32) : Insn := .branchImm (flag word 31) (sfield word 0 26 * 4)

/-- `compare_branch::decode` (`compare_branch.rs`). -/
def decodeCompareBranch (word : BitVec 32) : Insn :=
  .compareBranch (sf word) (flag word 24) (regField word 0) (sfield word 5 19 * 4)

/-- `test_branch::decode` (`test_branch.rs`). -/
def decodeTestBranch (word : BitVec 32) : Insn :=
  .testBranch (BitVec.ofNat 6 ((field word 31 1 <<< 5) ||| field word 19 5)) (flag word 24)
    (regField word 0) (sfield word 5 14 * 4)

/-- `cond_branch::decode` (`cond_branch.rs`). -/
def decodeCondBranch (word : BitVec 32) : Insn :=
  if field word 4 1 ≠ 0 ∨ field word 24 1 ≠ 0 then .unsupported word
  else .condBranch (rawField word 0 4) (sfield word 5 19 * 4)

/-- `branch_reg::decode` (`branch_reg.rs`). -/
def decodeBranchReg (word : BitVec 32) : Insn :=
  let opc := field word 21 4
  if field word 16 5 ≠ 0b11111 ∨ field word 10 6 ≠ 0 ∨ field word 0 5 ≠ 0 then .unsupported word
  else if opc = 0b0100 ∧ field word 5 5 = 0b11111 then .eret
  else if opc > 2 then .unsupported word
  else .branchReg opc (regField word 5)

/-! ## System instructions -/

/-- `sysreg_key` (`system.rs`, lines 12–14). -/
def sysregKey (op0 op1 crn crm op2 : ℕ) : BitVec 32 :=
  BitVec.ofNat 32 ((op0 <<< 16) ||| (op1 <<< 12) ||| (crn <<< 8) ||| (crm <<< 4) ||| op2)

/-- `system::decode` (`system.rs`, lines 16–79). -/
def decodeSystem (word : BitVec 32) : Insn :=
  let l := field word 21 1
  let op0 := field word 19 2
  let crn := field word 12 4
  let rt := regField word 0
  if op0 = 0 then
    if l = 1 ∨ rt ≠ 31 then .unsupported word
    else
      match crn with
      | 2 =>
        match field word 8 4, field word 5 3 with
        | 0, 2 => .wfe
        | 0, 3 => .wfi
        | _, _ => .nop
      | 3 => .nop
      | 4 => .msrImm (field word 16 3) (field word 5 3) (rawField word 8 4)
      | _ => .unsupported word
  else if op0 = 1 then
    let op1 := field word 16 3
    let crm := field word 8 4
    let op2 := field word 5 3
    if l = 0 ∧ op1 = 0b011 ∧ crn = 0b0111 ∧ crm = 0b0100 ∧ op2 = 0b001 then .dcZva rt
    else if l = 0 ∧ crn = 0b1000 then .tlbi
    else if l = 0 ∧ crn = 0b0111 ∧ (crm = 0b0001 ∨ crm = 0b0101) then .ic
    else .nop
  else
    let key := sysregKey op0 (field word 16 3) crn (field word 8 4) (field word 5 3)
    .sysRegMove (l == 1) key rt

/-! ## The group -/

/-- `branch::decode` (`branch.rs`). -/
def decodeBranch (word : BitVec 32) : Insn :=
  if field word 26 5 = 0b00101 then decodeBranchImm word
  else if field word 25 6 = 0b011010 then decodeCompareBranch word
  else if field word 25 6 = 0b011011 then decodeTestBranch word
  else if field word 24 8 = 0b01010100 then decodeCondBranch word
  else if field word 25 7 = 0b1101011 then decodeBranchReg word
  else if field word 22 10 = 0b1101010100 then decodeSystem word
  else if field word 24 8 = 0b11010100 then
    let imm16 : BitVec 16 := rawField word 5 16
    let opc := field word 21 3
    let ll := field word 0 2
    if opc = 0 ∧ ll = 0b01 then .svc imm16
    else if opc = 0 ∧ ll = 0b10 then .hvc imm16
    else if opc = 0 ∧ ll = 0b11 then .smc imm16
    else if opc = 0b001 ∧ ll = 0 then .brk imm16
    else .unsupported word
  else .unsupported word

/-- The words of CLREX: `1101 0101 0000 0011 0011 CRm 010 11111`. -/
def isClrexWord (word : BitVec 32) : Bool :=
  word &&& 0xfffff0ff#32 == 0xd503305f#32

end V64.Decoder
