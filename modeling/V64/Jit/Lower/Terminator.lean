import V64.Interp.Execute
import V64.Jit.Eligible
import V64.Jit.Lower.Cond

/-!
# Lowering a terminator

Model of `crates/jit/src/lower/terminator.rs`. A terminator leaves the next guest PC
on the operand stack.

* `exec_lowerTerminator`: the emitted code leaves what the executor leaves, with
  `emittedNext` as the next PC.
* `emittedNext_eq_iff`: that is the executor's, unless the target of a linking branch
  is read from the link register.
-/

namespace V64.Jit

open V64.Cpu V64.Decoder V64.Interp V64.Platform Wasm
open Wasm.Instr

/-- `emit_taken_cond` (lines 58–81): `none` is its `unreachable!`. -/
def emitTakenCond (insn : Insn) : Option (List Instr) :=
  match insn with
  | .condBranch cond _ => some (emitCondTest cond)
  | .compareBranch sf negate rt _ =>
    some (pushOperand rt sf false ++ [i64Eqz] ++ if negate then [i32Eqz] else [])
  | .testBranch bit negate rt _ =>
    some (pushX rt ++ [i64Const (bit.setWidth 64), i64ShrU, i64Const 1, i64And, i32WrapI64] ++
      if negate then [] else [i32Eqz])
  | _ => none

/-- `taken_target` (lines 87–94). -/
def takenTarget (insn : Insn) (pc : BitVec 64) : Option (BitVec 64) :=
  match insn with
  | .condBranch _ offset | .compareBranch _ _ _ offset | .testBranch _ _ _ offset =>
    some (pc + offset)
  | _ => none

/-- `branch_select` (lines 98–104). -/
def branchSelect (taken fallthrough entryPc : BitVec 64) : List Instr :=
  [ifElse 1 (genRelPc taken entryPc) (genRelPc fallthrough entryPc)]

/-- `store_link` of `lower_terminator` (lines 19–23), and `store_reg_pc` for X30
    (`lower/mod.rs`, lines 145–149). -/
def storeLink (pc entryPc : BitVec 64) : List Instr :=
  [localGet regsBase] ++ genRelPc (pc + 4) entryPc ++ [i64Store (xOff 30)]

/-- `lower_terminator` (lines 16–51): `none` is `false`. -/
def lowerTerminator (insn : Insn) (pc entryPc : BitVec 64) : Option (List Instr) :=
  match insn with
  | .branchImm link offset =>
    some ((if link then storeLink pc entryPc else []) ++ genRelPc (pc + offset) entryPc)
  | .branchReg opc rn => some ((if opc = 1 then storeLink pc entryPc else []) ++ pushX rn)
  | .condBranch _ offset | .compareBranch _ _ _ offset | .testBranch _ _ _ offset =>
    (emitTakenCond insn).map (· ++ branchSelect (pc + offset) (pc + 4) entryPc)
  | _ => none

theorem lowerTerminator_isSome {insn : Insn} (h : isBranch insn = true) (pc entryPc : BitVec 64) :
    (lowerTerminator insn pc entryPc).isSome := by
  cases insn with
  | branchImm link offset => rfl
  | branchReg opc rn => rfl
  | condBranch cond offset => rfl
  | compareBranch sf negate rt offset => rfl
  | testBranch bit negate rt offset => rfl
  | _ => exact Bool.noConfusion h

/-! ## The executors -/

/-- The arms of `execute` for a branch. -/
def branchExec (cpu : CpuState) (insn : Insn) (pc : BitVec 64) : Option (BitVec 64) × CpuState :=
  match insn with
  | .branchImm link offset => branchImm cpu link offset pc
  | .condBranch cond offset => (condBranch cpu cond offset pc, cpu)
  | .compareBranch sf negate rt offset => (compareBranch cpu sf negate rt offset pc, cpu)
  | .testBranch bit negate rt offset => (testBranch cpu bit negate rt offset pc, cpu)
  | .branchReg opc rn => branchReg cpu opc rn pc
  | _ => (none, cpu)

/-- The next PC of the interpreter (`retire`). -/
def branchNext (cpu : CpuState) (insn : Insn) (pc : BitVec 64) : BitVec 64 :=
  (branchExec cpu insn pc).1.getD (pc + 4)

/-- The next PC of the emitted code, which reads the target of a register branch after
    the link has been written. -/
def emittedNext (cpu : CpuState) (insn : Insn) (pc : BitVec 64) : BitVec 64 :=
  match insn with
  | .branchReg opc rn => (branchReg cpu opc rn pc).2.readGpr rn false
  | insn => branchNext cpu insn pc

/-- Whether a conditional branch is taken. -/
def branchTaken (cpu : CpuState) (insn : Insn) : Bool :=
  match insn with
  | .condBranch cond _ => evalCond cond cpu.flags
  | .compareBranch sf negate rt _ =>
    if negate then read cpu rt sf false != 0 else read cpu rt sf false == 0
  | .testBranch bit negate rt _ =>
    let set := (cpu.readGpr rt false >>> bit.toNat) &&& 1 == 1
    if negate then set else !set
  | _ => false

theorem execute_branch {M : Type} [GuestMem M] (vu : VecUnit) (g : Guest M) {insn : Insn}
    (h : isBranch insn = true) (pc : BitVec 64) :
    execute vu g insn pc = jump g (branchExec g.cpu insn pc) := by
  cases insn with
  | branchImm link offset => rfl
  | branchReg opc rn => rfl
  | condBranch cond offset => rfl
  | compareBranch sf negate rt offset => rfl
  | testBranch bit negate rt offset => rfl
  | _ => exact Bool.noConfusion h

/-- A conditional branch goes to its target or to the next instruction. -/
theorem branchNext_of_takenTarget {insn : Insn} {pc target : BitVec 64}
    (h : takenTarget insn pc = some target) (cpu : CpuState) :
    branchNext cpu insn pc = if branchTaken cpu insn then target else pc + 4 := by
  have hgetD (c : Bool) (offset : BitVec 64) :
      (if c then some (pc + offset) else none).getD (pc + 4) =
        if c then pc + offset else pc + 4 := by
    cases c <;> rfl
  cases insn with
  | condBranch cond offset =>
    cases h
    exact hgetD _ offset
  | compareBranch sf negate rt offset =>
    cases h
    exact hgetD _ offset
  | testBranch bit negate rt offset =>
    cases h
    exact hgetD _ offset
  | _ => cases h

theorem readGpr_link (cpu : CpuState) (rn : Reg) (v : BitVec 64) :
    (cpu.writeGpr 30 false v).readGpr rn false = if rn = 30 then v else cpu.readGpr rn false := by
  rw [CpuState.readGpr_writeGpr]
  by_cases hrn : rn = 30
  · subst hrn
    rfl
  · rw [if_neg hrn, if_neg fun h => hrn h.1]

/-- The two next PCs differ only for BLR X30, and only if X30 does not already hold
    the return address. -/
theorem emittedNext_eq_iff (cpu : CpuState) (insn : Insn) (pc : BitVec 64) :
    emittedNext cpu insn pc = branchNext cpu insn pc ↔
      (insn = .branchReg 1 30 → cpu.x 30 = pc + 4) := by
  cases insn with
  | branchReg opc rn =>
    show (branchReg cpu opc rn pc).2.readGpr rn false = cpu.readGpr rn false ↔ _
    unfold branchReg
    by_cases hopc : opc = 1
    · subst hopc
      dsimp only
      rw [if_pos rfl, readGpr_link]
      by_cases hrn : rn = 30
      · subst hrn
        rw [if_pos rfl]
        exact ⟨fun h _ => h.symm, fun h => (h rfl).symm⟩
      · rw [if_neg hrn]
        exact iff_of_true rfl fun h => absurd (Insn.branchReg.inj h).2 hrn
    · rw [if_neg hopc]
      exact iff_of_true rfl fun h => absurd (Insn.branchReg.inj h).1 hopc
  | _ => exact iff_of_true rfl fun h => Insn.noConfusion h

/-! ## The emitted code -/

section Exec

variable {D : Type} {L : Layout} {stale : Flags} {bus : Bus D} {cpu : CpuState} {fuel : ℕ}
  {st : List Val} {l : ℕ → Val}

/-- Relative to the entry PC, a displacement moves the run-time PC as it moves the
    compile-time one. -/
theorem rel_add (base pc d entryPc : BitVec 64) :
    base + (pc + d - entryPc) = base + (pc - entryPc) + d := by
  bv_omega

/-- Bit `bit` of a value, as the emitted code tests it. -/
theorem wrap_testBit (v : BitVec 64) (bit : BitVec 6) :
    Val.i32 (((v >>> ((bit.setWidth 64).toNat % 64)) &&& 1).setWidth 32) =
      ofBool ((v >>> bit.toNat) &&& 1 == 1) := by
  have hbit : (bit.setWidth 64).toNat % 64 = bit.toNat := by
    rw [BitVec.toNat_setWidth, Nat.mod_eq_of_lt (Nat.lt_trans bit.isLt (by decide)),
      Nat.mod_eq_of_lt bit.isLt]
  rw [hbit, and_one_beq_one, and_one_eq_bit64]
  exact wrap_bit64 _

theorem exec_testBit (bit : BitVec 6) (v : BitVec 64) (is : List Instr) (m : HostMem D) :
    exec fuel ([i64Const (bit.setWidth 64), i64ShrU, i64Const 1, i64And, i32WrapI64] ++ is)
        ⟨.i64 v :: st, l, m⟩ =
      exec fuel is ⟨ofBool ((v >>> bit.toNat) &&& 1 == 1) :: st, l, m⟩ := by
  rw [exec_append, exec_i64Const, exec_i64ShrU, exec_i64Const, exec_i64And, exec_i32WrapI64,
    wrap_testBit, exec_nil, Outcome.bind_next]

theorem exec_emitTakenCond (h : Ready L bus.ram.size.toNat l) {insn : Insn} {code : List Instr}
    (hcode : emitTakenCond insn = some code) :
    exec fuel code ⟨st, l, host L stale bus cpu⟩ =
      .next ⟨ofBool (branchTaken cpu insn) :: st, l, host L stale bus cpu⟩ := by
  cases insn with
  | condBranch cond offset =>
    cases hcode
    exact exec_emitCondTest h cond
  | compareBranch sf negate rt offset =>
    cases hcode
    cases negate with
    | false => simp [exec_append, h, branchTaken]
    | true => simp [exec_append, h, branchTaken, bne]
  | testBranch bit negate rt offset =>
    cases hcode
    rw [List.append_assoc, exec_append, exec_pushX h, Outcome.bind_next, exec_testBit]
    cases negate with
    | false => exact exec_i32Eqz_ofBool _
    | true => exact exec_nil _
  | _ => cases hcode

variable {base : BitVec 64}

theorem exec_storeLink (h : Ready L bus.ram.size.toNat l) (hbase : l 7 = .i64 base)
    (pc entryPc : BitVec 64) :
    exec fuel (storeLink pc entryPc) ⟨st, l, host L stale bus cpu⟩ =
      .next ⟨st, l, host L stale bus
        (cpu.writeGpr 30 false (base + (pc - entryPc) + 4))⟩ := by
  have hne : (30 : Reg) ≠ 31 := by decide
  have hoff : xOff 30 = xOff (30 : Reg) := rfl
  unfold storeLink
  rw [exec_append, exec_append, exec_localGet, exec_nil, Outcome.bind_next, exec_genRelPc hbase,
    Outcome.bind_next, h.regs, rel_add, hoff, exec_storeGpr h.wf, exec_nil,
    writeGpr_true_of_ne hne false]

/-- The link, when it is written, over any operands. -/
theorem exec_storeLinkIf (h : Ready L bus.ram.size.toNat l) (hbase : l 7 = .i64 base)
    (link : Prop) [Decidable link] (pc entryPc : BitVec 64) :
    exec fuel (if link then storeLink pc entryPc else []) ⟨st, l, host L stale bus cpu⟩ =
      .next ⟨st, l, host L stale bus
        (if link then cpu.writeGpr 30 false (base + (pc - entryPc) + 4) else cpu)⟩ := by
  split_ifs
  · exact exec_storeLink h hbase pc entryPc
  · exact exec_nil _

theorem exec_branchSelect (hbase : l 7 = .i64 base) (taken fallthrough entryPc : BitVec 64)
    (c : Bool) (m : HostMem D) :
    exec fuel (branchSelect taken fallthrough entryPc) ⟨ofBool c :: st, l, m⟩ =
      .next ⟨.i64 (base + ((if c then taken else fallthrough) - entryPc)) :: st, l, m⟩ := by
  unfold branchSelect
  rw [exec_ifElse]
  cases c with
  | true =>
    rw [if_pos rfl, if_pos rfl, exec_genRelPc hbase, Outcome.exitBlock_next, Outcome.bind_next,
      exec_nil]
    rfl
  | false =>
    rw [if_neg Bool.false_ne_true, if_neg Bool.false_ne_true, exec_genRelPc hbase,
      Outcome.exitBlock_next, Outcome.bind_next, exec_nil]
    rfl

/-- Every terminator: the CPU that the executor leaves, and `emittedNext` on top of
    the operands. -/
theorem exec_lowerTerminator (h : Ready L bus.ram.size.toNat l) (hbase : l 7 = .i64 base)
    {insn : Insn} (hbranch : isBranch insn = true) (pc entryPc : BitVec 64) :
    ∃ code, lowerTerminator insn pc entryPc = some code ∧ ∀ fuel st,
      exec fuel code ⟨st, l, host L stale bus cpu⟩ =
        .next ⟨.i64 (emittedNext cpu insn (base + (pc - entryPc))) :: st, l,
          host L stale bus (branchExec cpu insn (base + (pc - entryPc))).2⟩ := by
  have hcond {insn : Insn} {offset : BitVec 64} {cond : List Instr}
      (htarget : ∀ pc, takenTarget insn pc = some (pc + offset))
      (hcond : emitTakenCond insn = some cond) (fuel : ℕ) (st : List Val) :
      exec fuel (cond ++ branchSelect (pc + offset) (pc + 4) entryPc)
          ⟨st, l, host L stale bus cpu⟩ =
        .next ⟨.i64 (branchNext cpu insn (base + (pc - entryPc))) :: st, l,
          host L stale bus cpu⟩ := by
    rw [exec_append, exec_emitTakenCond h hcond, Outcome.bind_next, exec_branchSelect hbase,
      branchNext_of_takenTarget (htarget _)]
    split_ifs
    · rw [rel_add]
    · rw [rel_add]
  cases insn with
  | branchImm link offset =>
    refine ⟨_, rfl, fun fuel st => ?_⟩
    rw [exec_append, exec_storeLinkIf h hbase, Outcome.bind_next, exec_genRelPc hbase, rel_add]
    rfl
  | branchReg opc rn =>
    refine ⟨_, rfl, fun fuel st => ?_⟩
    rw [exec_append, exec_storeLinkIf h hbase, Outcome.bind_next, exec_pushX h]
    rfl
  | condBranch cond offset => exact ⟨_, rfl, hcond (fun _ => rfl) rfl⟩
  | compareBranch sf negate rt offset => exact ⟨_, rfl, hcond (fun _ => rfl) rfl⟩
  | testBranch bit negate rt offset => exact ⟨_, rfl, hcond (fun _ => rfl) rfl⟩
  | _ => exact Bool.noConfusion hbranch

end Exec

end V64.Jit
