import V64.Interp.Alu

/-!
# Branch executors

Models of `branch_imm.rs`, `branch_reg.rs`, `cond_branch.rs`, `compare_branch.rs`
and `test_branch.rs` in `crates/interp/src/`. `none` is a branch not taken.
-/

namespace V64.Interp

open V64.Cpu V64.Decoder

/-- `branch_imm::exec`. -/
def branchImm (cpu : CpuState) (link : Bool) (offset pc : BitVec 64) :
    Option (BitVec 64) × CpuState :=
  let cpu := if link then cpu.writeGpr 30 false (pc + 4) else cpu
  (some (pc + offset), cpu)

/-- `branch_reg::exec`. -/
def branchReg (cpu : CpuState) (opc : ℕ) (rn : Reg) (pc : BitVec 64) :
    Option (BitVec 64) × CpuState :=
  let target := cpu.readGpr rn false
  let cpu := if opc = 1 then cpu.writeGpr 30 false (pc + 4) else cpu
  (some target, cpu)

/-- `cond_branch::exec`. -/
def condBranch (cpu : CpuState) (cond : BitVec 4) (offset pc : BitVec 64) : Option (BitVec 64) :=
  if evalCond cond cpu.flags then some (pc + offset) else none

/-- `compare_branch::exec`. -/
def compareBranch (cpu : CpuState) (sf negate : Bool) (rt : Reg) (offset pc : BitVec 64) :
    Option (BitVec 64) :=
  let v := read cpu rt sf false
  let take := if negate then v != 0 else v == 0
  if take then some (pc + offset) else none

/-- `test_branch::exec`. -/
def testBranch (cpu : CpuState) (bit : BitVec 6) (negate : Bool) (rt : Reg)
    (offset pc : BitVec 64) : Option (BitVec 64) :=
  let v := cpu.readGpr rt false
  let set := (v >>> bit.toNat) &&& 1 == 1
  let take := if negate then set else !set
  if take then some (pc + offset) else none

end V64.Interp
