import V64.Decoder.DataProc
import V64.Decoder.Branch
import V64.Decoder.Ldst
import V64.Decoder.Fp
import V64.Decoder.Neon

/-!
# The decoder

`decode` of `crates/decoder/src/lib.rs`, and the terminators of
`crates/decoder/src/block.rs`.
-/

namespace V64.Decoder

/-- `decode` (`lib.rs`, lines 61–86). -/
def decode (word : BitVec 32) : Insn :=
  let op0 := field word 25 4
  if op0 &&& 0b0101 = 0b0100 then decodeLdst word
  else
    match op0 with
    | 0b1000 | 0b1001 => decodeDpImm word
    | 0b1010 | 0b1011 => decodeBranch word
    | 0b0101 | 0b1101 => decodeDpReg word
    | 0b1111 => if field word 30 1 = 1 then decodeScalar word else decodeFp word
    | 0b0111 => decodeNeon word
    | _ => .unsupported word

/-- `is_terminator` (`block.rs`, lines 60–72). -/
def isTerminator : Insn → Bool
  | .branchImm .. | .condBranch .. | .compareBranch .. | .testBranch .. | .branchReg ..
  | .svc .. | .eret | .unsupported .. => true
  | _ => false

-- `ldxr x0, [x1]`, `stxr w2, x3, [x1]`, `clrex`, `blr x30`, `add x0, x1, #1`.
example : decode 0xc85f7c20#32 = .loadExclusive 3 0 1 := by rfl
example : decode 0xc8027c23#32 = .storeExclusive 3 2 3 1 := by rfl
example : decode 0xd5033f5f#32 = .nop := by rfl
example : decode 0xd63f03c0#32 = .branchReg 1 30 := by rfl
example : decode 0x91000420#32 = .addSubImm true false false false 1 1 0 := by rfl

end V64.Decoder
