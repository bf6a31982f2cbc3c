import V64.Cpu.State

/-!
# Decoded instructions

Model of `crates/decoder/src/insn.rs` and of `Block`
(`crates/decoder/src/block.rs`). Registers are five-bit (`Reg`); conditions,
flag immediates, shift amounts and other raw immediates keep the width of their
field; the remaining small `u8` selectors are `ℕ`. Displacements (`i64` in the
source) are `BitVec 64` in two's complement, which is what `as u64` makes of
them.
-/

namespace V64.Decoder

open V64.Cpu (Reg)

/-- `ShiftType` (lines 9–14). -/
inductive ShiftType where
  | lsl
  | lsr
  | asr
  | ror
  deriving DecidableEq

/-- `AddrMode` (lines 18–31). -/
inductive AddrMode where
  | unsignedImm (rn : Reg) (imm : BitVec 64)
  | unscaled (rn : Reg) (imm : BitVec 64)
  | preIndex (rn : Reg) (imm : BitVec 64)
  | postIndex (rn : Reg) (imm : BitVec 64)
  | regOffset (rn rm : Reg) (option shift : ℕ)
  | literal (offset : BitVec 64)

/-- `PairIndex` (lines 35–42). -/
inductive PairIndex where
  | offset
  | pre
  | post
  deriving DecidableEq

/-- `Insn` (lines 46–446). -/
inductive Insn where
  | moveWide (sf : Bool) (opc : ℕ) (hw : BitVec 2) (imm16 : BitVec 16) (rd : Reg)
  | addSubImm (sf sub setFlags shift12 : Bool) (imm12 : BitVec 12) (rn rd : Reg)
  | addSubShiftedReg (sf sub setFlags : Bool) (shift : ShiftType) (amount : BitVec 6)
      (rm rn rd : Reg)
  | addSubCarry (sf sub setFlags : Bool) (rm rn rd : Reg)
  | addSubExtReg (sf sub setFlags : Bool) (option imm3 : ℕ) (rm rn rd : Reg)
  | logicalImm (sf : Bool) (opc : ℕ) (imm : BitVec 64) (rn rd : Reg)
  | logicalShiftedReg (sf : Bool) (opc : ℕ) (negate : Bool) (shift : ShiftType)
      (amount : BitVec 6) (rm rn rd : Reg)
  | bitfield (sf : Bool) (opc : ℕ) (wmask tmask : BitVec 64) (immr imms : BitVec 6) (rn rd : Reg)
  | extract (sf : Bool) (rm rn : Reg) (lsb : BitVec 6) (rd : Reg)
  | condSelect (sf op o2 : Bool) (cond : BitVec 4) (rm rn rd : Reg)
  | condCompare (sf sub isImm : Bool) (immY : BitVec 5) (rm : Reg) (cond nzcv : BitVec 4)
      (rn : Reg)
  | dataProc1Src (sf : Bool) (opcode : ℕ) (rn rd : Reg)
  | dataProc2Src (sf : Bool) (opcode : ℕ) (rm rn rd : Reg)
  | dataProc3Src (sf : Bool) (op31 : ℕ) (o0 : Bool) (rm ra rn rd : Reg)
  | pcRel (page : Bool) (imm : BitVec 64) (rd : Reg)
  | branchImm (link : Bool) (offset : BitVec 64)
  | condBranch (cond : BitVec 4) (offset : BitVec 64)
  | compareBranch (sf negate : Bool) (rt : Reg) (offset : BitVec 64)
  | testBranch (bit : BitVec 6) (negate : Bool) (rt : Reg) (offset : BitVec 64)
  | branchReg (opc : ℕ) (rn : Reg)
  | loadStore (size : ℕ) (isLoad signed dst64 vec unpriv : Bool) (rt : Reg) (addr : AddrMode)
  | atomicRmw (size op : ℕ) (rs rn rt : Reg)
  | compareSwap (size : ℕ) (rs rn rt : Reg)
  | loadExclusive (size : ℕ) (rt rn : Reg)
  | storeExclusive (size : ℕ) (rs rt rn : Reg)
  | loadExclusivePair (size : ℕ) (rt rt2 rn : Reg)
  | storeExclusivePair (size : ℕ) (rs rt rt2 rn : Reg)
  | compareSwapPair (sz : ℕ) (rs rn rt : Reg)
  | loadStorePair (isLoad signed width8 vec : Bool) (vesize : ℕ) (rt rt2 rn : Reg)
      (offset : BitVec 64) (index : PairIndex)
  | fpDataProc1 (ftype opcode : ℕ) (rn rd : Reg)
  | fpDataProc2 (ftype opcode : ℕ) (rm rn rd : Reg)
  | fpDataProc3 (ftype : ℕ) (o1 o0 : Bool) (rm ra rn rd : Reg)
  | fpCondCompare (ftype : ℕ) (rm rn : Reg) (cond nzcv : BitVec 4) (signaling : Bool)
  | fpCompare (ftype : ℕ) (rm rn : Reg) (cmpZero signaling : Bool)
  | fpCondSelect (ftype : ℕ) (cond : BitVec 4) (rm rn rd : Reg)
  | fpCvtInt (sf : Bool) (ftype rmode opcode : ℕ) (rn rd : Reg)
  | fpImm (ftype : ℕ) (imm8 : BitVec 8) (rd : Reg)
  | fpCvtFixed (sf : Bool) (ftype opcode scale : ℕ) (rn rd : Reg)
  | sysRegMove (read : Bool) (key : BitVec 32) (rt : Reg)
  | msrImm (op1 op2 : ℕ) (crm : BitVec 4)
  | svc (imm16 : BitVec 16)
  | hvc (imm16 : BitVec 16)
  | smc (imm16 : BitVec 16)
  | eret
  | simdThreeSame (q u : Bool) (size opcode : ℕ) (rm rn rd : Reg)
  | simdThreeSameFp (q sz : Bool) (fpopcode : ℕ) (rm rn rd : Reg)
  | simdThreeDiff (q u : Bool) (size opcode : ℕ) (rm rn rd : Reg)
  | simdIndexed (q u : Bool) (size opcode index : ℕ) (rm rn rd : Reg)
  | simdTableLookup (q isTbx : Bool) (len : ℕ) (rm rn rd : Reg)
  | cryptoAes (opcode : ℕ) (rn rd : Reg)
  | cryptoSha3 (opcode : ℕ) (rm rn rd : Reg)
  | cryptoSha2 (opcode : ℕ) (rn rd : Reg)
  | simdThreeSameExtra (q u : Bool) (size opcode : ℕ) (rm rn rd : Reg)
  | simdLdStMulti (isLoad q postidx : Bool) (rm rn rt : Reg) (size rpt selem : ℕ)
  | simdLdStSingle (isLoad replicate postidx : Bool) (rm rn rt : Reg) (size selem index : ℕ)
      (q : Bool)
  | simdScalarThreeSame (u : Bool) (size opcode : ℕ) (rm rn rd : Reg)
  | simdScalarTwoRegMisc (u : Bool) (size opcode : ℕ) (rn rd : Reg)
  | simdScalarPairwise (u : Bool) (size opcode : ℕ) (rn rd : Reg)
  | simdScalarThreeDiff (size opcode : ℕ) (rm rn rd : Reg)
  | simdScalarCopy (imm5 : ℕ) (rn rd : Reg)
  | simdScalarShiftImm (u : Bool) (immh immb opcode : ℕ) (rn rd : Reg)
  | simdScalarIndexed (u : Bool) (size opcode index : ℕ) (rm rn rd : Reg)
  | simdZipTrn (q : Bool) (size opcode : ℕ) (rm rn rd : Reg)
  | simdExt (q : Bool) (imm4 : ℕ) (rm rn rd : Reg)
  | simdShiftImm (q u : Bool) (immh immb opcode : ℕ) (rn rd : Reg)
  | simdAcrossLanes (q u : Bool) (size opcode : ℕ) (rn rd : Reg)
  | simdTwoRegMisc (q u : Bool) (size opcode : ℕ) (rn rd : Reg)
  | simdTwoRegMiscFp (q sz : Bool) (fpop : ℕ) (rn rd : Reg)
  | simdModImm (q op : Bool) (cmode : ℕ) (imm8 : BitVec 8) (rd : Reg)
  | simdDupGeneral (q : Bool) (size : ℕ) (rn rd : Reg)
  | simdDupElement (q : Bool) (size index : ℕ) (rn rd : Reg)
  | simdInsGeneral (size index : ℕ) (rn rd : Reg)
  | simdInsElement (size dst src : ℕ) (rn rd : Reg)
  | simdMovToGpr (signed dst64 : Bool) (size index : ℕ) (vn rd : Reg)
  | nop
  | wfi
  | wfe
  | prfm
  | dcZva (rt : Reg)
  | tlbi
  | ic
  | brk (imm16 : BitVec 16)
  | unsupported (word : BitVec 32)

/-- `Block` (`block.rs`, lines 12–16). -/
structure Block where
  start : BitVec 64
  insns : List (BitVec 64 × Insn)

end V64.Decoder
