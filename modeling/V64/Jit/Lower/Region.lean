import V64.Jit.Lower.LoadStore
import V64.Jit.Lower.Sequential
import V64.Jit.Lower.Terminator
import V64.Jit.Region

/-!
# Lowering a region

The region emitter of `crates/jit/src/lower/mod.rs`: one function with a dispatch
loop over its blocks. `none` is a lowering that reports failure, which the source
here ignores, or a panic.

* `exec_regionTerminator`: a terminator that leaves the region returns the same PC
  as the terminator of a single block.
* `branchAgrees_iff`: both are the interpreter's, except for a linking branch through
  the link register.
-/

namespace V64.Jit

open V64.Cpu V64.Decoder V64.Interp V64.Platform Wasm
open Wasm.Instr

/-- The dispatch of an instruction before the terminator, the same in `emit_region_block`
    (lines 173–181) and in `emit_body` (`emit.rs`, lines 127–162). -/
def lowerInsn (L : Layout) (vl : VecLowering) (insn : Insn) (site : Site) : Option (List Instr) :=
  if isInlineLoadStore insn then lowerMem L insn site
  else if isInlineLoadStorePair insn then lowerMemPair L insn site
  else if isInlineAtomic insn then lowerAtomic L insn site
  else lowerSequential vl insn site.pc site.entryPc

/-- `MAX_REGION_ITERS` (line 75). -/
def maxRegionIters : ℕ := 8192

/-- `region_exit` (lines 128–136). -/
def regionExit : List Instr :=
  [localGet regsBase, localGet rcount, i64Store jitCountOff, localGet rpc, Instr.return]

/-- `set_rpc` (lines 139–142). -/
def setRpc (abs entry : BitVec 64) : List Instr := genRelPc abs entry ++ [localSet rpc]

/-- `region_route` (lines 239–248). -/
def regionRoute (region : Region) (target : BitVec 64) (loopDepth : ℕ) : List Instr :=
  match region.blocks.findIdx? (·.start == target) with
  | some idx =>
    [i32Const (BitVec.ofNat 32 idx), localSet ridx] ++ setRpc target region.entry ++ [br loopDepth]
  | none => setRpc target region.entry ++ regionExit

/-- The terminator routing of `emit_region_block` (lines 192–233). -/
def regionTerminator (region : Region) (loopDepth : ℕ) (term : Insn) (pc : BitVec 64) :
    Option (List Instr) :=
  let entry := region.entry
  match term with
  | .branchImm false offset => some (regionRoute region (pc + offset) loopDepth)
  | .branchImm true offset =>
    some (storeLink pc entry ++ setRpc (pc + offset) entry ++ regionExit)
  | .branchReg opc rn =>
    some ((if opc = 1 then storeLink pc entry else []) ++ pushX rn ++ [localSet rpc] ++ regionExit)
  | .condBranch .. | .compareBranch .. | .testBranch .. => do
    let taken ← takenTarget term pc
    let cond ← emitTakenCond term
    return cond ++ [ifElse 0 (regionRoute region taken (loopDepth + 1))
      (regionRoute region (pc + 4) (loopDepth + 1))]
  | _ => some (setRpc (pc + 4) entry ++ regionExit)

/-- The loop of `emit_region_block` over the body (lines 171–182), from index `i`. -/
def regionBody (L : Layout) (vl : VecLowering) (region : Region) (ramPhys ramSize : BitVec 64) :
    ℕ → List (BitVec 64 × Insn) → Option (List Instr)
  | _, [] => some []
  | i, (pc, insn) :: rest => do
    let code ← lowerInsn L vl insn
      ⟨pc, region.entry, BitVec.ofNat 64 i, ramPhys, ramSize, some rcount⟩
    let codes ← regionBody L vl region ramPhys ramSize (i + 1) rest
    return code ++ codes

/-- `emit_region_block` (lines 156–234). -/
def emitRegionBlock (L : Layout) (vl : VecLowering) (region : Region)
    (ramPhys ramSize : BitVec 64) (loopDepth : ℕ) (block : Block) : Option (List Instr) := do
  let (pc, term) ← block.insns.getLast?
  let hasTerm := isBranch term
  let body ← regionBody L vl region ramPhys ramSize 0
    (if hasTerm then block.insns.dropLast else block.insns)
  let count := [localGet rcount, i64Const (BitVec.ofNat 64 block.insns.length), i64Add,
    localSet rcount]
  if hasTerm then
    let term ← regionTerminator region loopDepth term pc
    return body ++ count ++ term
  else return body ++ count ++ setRpc (pc + 4) region.entry ++ regionExit

/-- The blocks of the trampoline (lines 108–119): each closes one dispatch block around
    the code before it. -/
def regionBlocks (L : Layout) (vl : VecLowering) (region : Region) (ramPhys ramSize : BitVec 64)
    (k : ℕ) : ℕ → List Block → List Instr → Option (List Instr)
  | _, [], code => some code
  | i, b :: rest, code => do
    let blockCode ← emitRegionBlock L vl region ramPhys ramSize (k - i) b
    regionBlocks L vl region ramPhys ramSize k (i + 1) rest (Instr.block 0 code :: blockCode)

/-- `emit_region_body` (lines 83–125). -/
def emitRegionBody (L : Layout) (vl : VecLowering) (region : Region)
    (ramPhys ramSize : BitVec 64) : Option (List Instr) := do
  let k := region.blocks.length
  let dispatch := [localGet ridx, brTable (List.range k) k]
  let code ← regionBlocks L vl region ramPhys ramSize k 0 region.blocks dispatch
  return loadEntryPc ++
    [localGet pc0, localSet rpc,
      Instr.loop
        ([localGet riters, i32Const (BitVec.ofNat 32 maxRegionIters), i32GeU,
          ifElse 0 regionExit [],
          localGet riters, i32Const 1, i32Add, localSet riters,
          Instr.block 0 code] ++ regionExit),
      Instr.unreachable]

/-! ## Leaving the region -/

section Exec

variable {D : Type} {L : Layout} {stale : Flags} {bus : Bus D} {cpu : CpuState} {fuel : ℕ}
  {st : List Val} {l : ℕ → Val} {base count : BitVec 64}

theorem exec_setRpc (hbase : l 7 = .i64 base) (abs entry : BitVec 64) (m : HostMem D) :
    exec fuel (setRpc abs entry) ⟨st, l, m⟩ =
      .next ⟨st, Function.update l 8 (.i64 (base + (abs - entry))), m⟩ := by
  unfold setRpc
  rw [exec_append, exec_genRelPc hbase, Outcome.bind_next, exec_localSet, exec_nil]

/-- The exit returns `RPC` and reports `RCOUNT` instructions. -/
theorem exec_regionExit (h : Ready L bus.ram.size.toNat l) (hcount : l 9 = .i64 count)
    {next : BitVec 64} (hrpc : l 8 = .i64 next) :
    exec fuel regionExit ⟨st, l, host L stale bus cpu⟩ =
      .ret ⟨.i64 next :: st, l, host L stale bus { cpu with jitCount := count }⟩ := by
  unfold regionExit
  rw [exec_localGet, exec_localGet, h.regs, hcount, exec_storeJitCount h.wf, exec_localGet, hrpc]
  rfl

/-- `RPC` set, then the exit. -/
theorem exec_rpc_exit (h : Ready L bus.ram.size.toNat l) (hcount : l 9 = .i64 count)
    (next : BitVec 64) :
    exec fuel regionExit
        ⟨st, Function.update l 8 (.i64 next), host L stale bus cpu⟩ =
      .ret ⟨.i64 next :: st, Function.update l 8 (.i64 next),
        host L stale bus { cpu with jitCount := count }⟩ := by
  have hready : Ready L bus.ram.size.toNat (Function.update l 8 (.i64 next)) :=
    (ready_update (by decide)).mpr h
  have hcount' : Function.update l 8 (.i64 next) 9 = .i64 count :=
    (Function.update_of_ne (by decide) _ l).trans hcount
  exact exec_regionExit hready hcount' (Function.update_self 8 _ l)

theorem exec_regionRoute_out (h : Ready L bus.ram.size.toNat l) (hbase : l 7 = .i64 base)
    (hcount : l 9 = .i64 count) {region : Region} {target : BitVec 64}
    (hout : ∀ b ∈ region.blocks, b.start ≠ target) (loopDepth : ℕ) :
    exec fuel (regionRoute region target loopDepth) ⟨st, l, host L stale bus cpu⟩ =
      .ret ⟨.i64 (base + (target - region.entry)) :: st,
        Function.update l 8 (.i64 (base + (target - region.entry))),
        host L stale bus { cpu with jitCount := count }⟩ := by
  have hnone : region.blocks.findIdx? (·.start == target) = none := by
    rw [List.findIdx?_eq_none_iff]
    intro b hb
    exact beq_eq_false_iff_ne.mpr (hout b hb)
  unfold regionRoute
  rw [hnone]
  dsimp only
  rw [exec_append, exec_setRpc hbase, Outcome.bind_next, exec_rpc_exit h hcount]

/-- The compile-time target that control is routed to, if the terminator has one. -/
def routedTo (cpu : CpuState) (insn : Insn) (pc : BitVec 64) : Option (BitVec 64) :=
  match insn with
  | .branchImm false offset => some (pc + offset)
  | insn => (takenTarget insn pc).map fun taken => if branchTaken cpu insn then taken else pc + 4

/-- The terminator of a region block, where it leaves the region: the PC that
    `lowerTerminator` leaves, and `RCOUNT` instructions reported. -/
theorem exec_regionTerminator (h : Ready L bus.ram.size.toNat l) {region : Region}
    (hbase : l 7 = .i64 base) (hcount : l 9 = .i64 count) {insn : Insn}
    (hbranch : isBranch insn = true) (pc : BitVec 64)
    (hout : ∀ b ∈ region.blocks, routedTo cpu insn pc ≠ some b.start) (loopDepth : ℕ) :
    ∃ code, regionTerminator region loopDepth insn pc = some code ∧ ∀ fuel st, ∃ s,
      exec fuel code ⟨st, l, host L stale bus cpu⟩ = .ret s ∧
      s.stack.head? = some (.i64 (emittedNext cpu insn (base + (pc - region.entry)))) ∧
      s.mem = host L stale bus { (branchExec cpu insn (base + (pc - region.entry))).2 with
        jitCount := count } := by
  have hcond {offset : BitVec 64} {cond : List Instr}
      (htarget : takenTarget insn (base + (pc - region.entry)) =
        some (base + (pc - region.entry) + offset))
      (hrouted : routedTo cpu insn pc =
        some (if branchTaken cpu insn then pc + offset else pc + 4))
      (hcond : emitTakenCond insn = some cond) (fuel : ℕ) (st : List Val) :
      ∃ s, exec fuel (cond ++ [ifElse 0 (regionRoute region (pc + offset) (loopDepth + 1))
          (regionRoute region (pc + 4) (loopDepth + 1))]) ⟨st, l, host L stale bus cpu⟩ = .ret s ∧
        s.stack.head? = some (.i64 (branchNext cpu insn (base + (pc - region.entry)))) ∧
        s.mem = host L stale bus { cpu with jitCount := count } := by
    have hedge (b) (hb : b ∈ region.blocks) :
        b.start ≠ if branchTaken cpu insn then pc + offset else pc + 4 := by
      intro heq
      apply hout b hb
      rw [hrouted, heq]
    have hnext : base + ((if branchTaken cpu insn then pc + offset else pc + 4) - region.entry) =
        branchNext cpu insn (base + (pc - region.entry)) := by
      rw [branchNext_of_takenTarget htarget]
      split_ifs
      · exact rel_add base pc offset region.entry
      · exact rel_add base pc 4 region.entry
    rw [exec_append, exec_emitTakenCond h hcond, Outcome.bind_next, exec_ifElse,
      ← apply_ite (fun target => regionRoute region target (loopDepth + 1)),
      exec_regionRoute_out h hbase hcount hedge, Outcome.exitBlock_ret, Outcome.bind_ret, hnext]
    exact ⟨_, rfl, rfl, rfl⟩
  cases insn with
  | branchImm link offset =>
    cases link with
    | false =>
      refine ⟨_, rfl, fun fuel st => ?_⟩
      have hedge (b) (hb : b ∈ region.blocks) : b.start ≠ pc + offset :=
        fun heq => hout b hb (congrArg some heq.symm)
      rw [exec_regionRoute_out h hbase hcount hedge, rel_add]
      exact ⟨_, rfl, rfl, rfl⟩
    | true =>
      refine ⟨_, rfl, fun fuel st => ?_⟩
      rw [exec_append, exec_append, exec_storeLink h hbase, Outcome.bind_next, exec_setRpc hbase,
        Outcome.bind_next, exec_rpc_exit h hcount, rel_add]
      exact ⟨_, rfl, rfl, rfl⟩
  | branchReg opc rn =>
    refine ⟨_, rfl, fun fuel st => ?_⟩
    rw [exec_append, exec_append, exec_append, exec_storeLinkIf h hbase, Outcome.bind_next,
      exec_pushX h, Outcome.bind_next, exec_localSet, exec_nil, Outcome.bind_next,
      exec_rpc_exit h hcount]
    exact ⟨_, rfl, rfl, rfl⟩
  | condBranch cond offset => exact ⟨_, rfl, hcond rfl rfl rfl⟩
  | compareBranch sf negate rt offset => exact ⟨_, rfl, hcond rfl rfl rfl⟩
  | testBranch bit negate rt offset => exact ⟨_, rfl, hcond rfl rfl rfl⟩
  | _ => exact Bool.noConfusion hbranch

/-! ## Three implementations of a branch -/

/-- A function that ends so, or returns there, returns `next` and leaves the general
    registers `x`. -/
def Returns (o : Outcome (HostMem D)) (next : BitVec 64) (x : Fin 31 → BitVec 64) : Prop :=
  ∃ s, (o = .next s ∨ o = .ret s) ∧ s.stack.head? = some (.i64 next) ∧ s.mem.cpu.x = x

theorem returns_next {s : State (HostMem D)} {next : BitVec 64} {x : Fin 31 → BitVec 64} :
    Returns (.next s) next x ↔ s.stack.head? = some (.i64 next) ∧ s.mem.cpu.x = x := by
  constructor
  · rintro ⟨s', hs | hs, hleaves⟩
    · rw [Outcome.next.inj hs]
      exact hleaves
    · cases hs
  · intro h
    exact ⟨s, .inl rfl, h⟩

theorem returns_ret {s : State (HostMem D)} {next : BitVec 64} {x : Fin 31 → BitVec 64} :
    Returns (.ret s) next x ↔ s.stack.head? = some (.i64 next) ∧ s.mem.cpu.x = x := by
  constructor
  · rintro ⟨s', hs | hs, hleaves⟩
    · cases hs
    · rw [Outcome.ret.inj hs]
      exact hleaves
  · intro h
    exact ⟨s, .inr rfl, h⟩

variable [MmioDevice D]

/-- The code of a terminator at the end of a block and at the end of a region block
    returns the next PC of the interpreter and leaves its general registers. -/
def BranchAgrees (L : Layout) (stale : Flags) (bus : Bus D) (l : ℕ → Val) (vu : VecUnit)
    (region : Region) (loopDepth : ℕ) (insn : Insn) (pc base : BitVec 64) (cpu : CpuState) : Prop :=
  let at_ := base + (pc - region.entry)
  ∃ target g' code code', execute vu ⟨cpu, bus⟩ insn at_ = some (target, g') ∧
    lowerTerminator insn pc region.entry = some code ∧
    regionTerminator region loopDepth insn pc = some code' ∧
    ∀ fuel, Returns (exec fuel code ⟨[], l, host L stale bus cpu⟩) (target.getD (at_ + 4))
        g'.cpu.x ∧
      Returns (exec fuel code' ⟨[], l, host L stale bus cpu⟩) (target.getD (at_ + 4)) g'.cpu.x

/-- For every branch word, in every state: the three agree, unless the word is BLR X30
    and X30 does not already hold the return address. -/
theorem branchAgrees_iff (vu : VecUnit) (word : BitVec 32)
    (hbranch : isBranch (decode word) = true) (h : Ready L bus.ram.size.toNat l)
    {region : Region} (hbase : l 7 = .i64 base) (hcount : l 9 = .i64 count) (pc : BitVec 64)
    (hout : ∀ b ∈ region.blocks, routedTo cpu (decode word) pc ≠ some b.start) (loopDepth : ℕ) :
    BranchAgrees L stale bus l vu region loopDepth (decode word) pc base cpu ↔
      (decode word = .branchReg 1 30 → cpu.x 30 = base + (pc - region.entry) + 4) := by
  obtain ⟨code, hcode, hrun⟩ : ∃ code, lowerTerminator (decode word) pc region.entry = some code ∧
      ∀ fuel st, exec fuel code ⟨st, l, host L stale bus cpu⟩ =
        .next ⟨.i64 (emittedNext cpu (decode word) (base + (pc - region.entry))) :: st, l,
          host L stale bus (branchExec cpu (decode word) (base + (pc - region.entry))).2⟩ :=
    exec_lowerTerminator h hbase hbranch pc region.entry
  obtain ⟨code', hcode', hrun'⟩ : ∃ code,
      regionTerminator region loopDepth (decode word) pc = some code ∧ ∀ fuel st, ∃ s,
        exec fuel code ⟨st, l, host L stale bus cpu⟩ = .ret s ∧
        s.stack.head? =
          some (.i64 (emittedNext cpu (decode word) (base + (pc - region.entry)))) ∧
        s.mem = host L stale bus { (branchExec cpu (decode word)
          (base + (pc - region.entry))).2 with jitCount := count } :=
    exec_regionTerminator h hbase hcount hbranch pc hout loopDepth
  have hexec := execute_branch vu (⟨cpu, bus⟩ : Guest (Bus D)) hbranch (base + (pc - region.entry))
  rw [← emittedNext_eq_iff]
  constructor
  · rintro ⟨target, g', c, c', htarget, hc, hc', hreturns⟩
    rw [hexec] at htarget
    cases htarget
    rw [hcode] at hc
    cases hc
    have hret := (hreturns 0).1
    rw [hrun, returns_next] at hret
    exact Val.i64.inj (Option.some.inj hret.1)
  · intro hnext
    refine ⟨_, _, code, code', hexec, hcode, hcode', fun fuel => ⟨?_, ?_⟩⟩
    · rw [hrun, returns_next, hnext]
      exact ⟨rfl, rfl⟩
    · obtain ⟨s, hs, hstack, hmem⟩ := hrun' fuel []
      rw [hs, returns_ret, hstack, hmem, hnext]
      exact ⟨rfl, rfl⟩

end Exec

/-- A region with one block, entered at `0x4000`. -/
def oneBlockRegion : Region := ⟨0x4000, [⟨0x4000, []⟩]⟩

/-- `cbz x0, .+16` at `0x4000`, run at `0x7000`. -/
theorem branchAgrees_iff_cbz :
    BranchAgrees layoutAt0 Flags.default emptyBus (localsAt layoutAt0 0x7000) noVecUnit
        oneBlockRegion 0 (decode 0xb4000080#32) 0x4000 0x7000 CpuState.new ↔
      (decode 0xb4000080#32 = .branchReg 1 30 →
        CpuState.new.x 30 = 0x7000 + (0x4000 - oneBlockRegion.entry) + 4) := by
  apply branchAgrees_iff noVecUnit 0xb4000080#32 (by decide) ⟨wf_layoutAt0, rfl, rfl⟩ rfl rfl
  intro b hb
  rw [List.mem_singleton.mp hb]
  decide

/-- X30 holds `0x5000`. -/
def linkCpu : CpuState := CpuState.new.writeGpr 30 false 0x5000

/-- `blr x30` at `0x4000` with X30 at `0x5000`: the emitted code goes to `0x4004`. -/
theorem not_branchAgrees_blr :
    isBranch (decode 0xd63f03c0#32) = true ∧
    ¬ BranchAgrees layoutAt0 Flags.default emptyBus (localsAt layoutAt0 0x4000) noVecUnit
      oneBlockRegion 0 (decode 0xd63f03c0#32) 0x4000 0x4000 linkCpu := by
  have hready : Ready layoutAt0 emptyBus.ram.size.toNat (localsAt layoutAt0 0x4000) :=
    ⟨wf_layoutAt0, rfl, rfl⟩
  refine ⟨by decide, ?_⟩
  rintro ⟨target, g', c, c', htarget, hc, hc', hreturns⟩
  have hbranch : isBranch (decode 0xd63f03c0#32) = true := by decide
  have hexec := execute_branch noVecUnit (⟨linkCpu, emptyBus⟩ : Guest (Bus Empty)) hbranch
    (0x4000 + (0x4000 - oneBlockRegion.entry))
  obtain ⟨code, hcode, hrun⟩ : ∃ code,
      lowerTerminator (decode 0xd63f03c0#32) 0x4000 0x4000 = some code ∧ ∀ fuel st,
        exec fuel code ⟨st, localsAt layoutAt0 0x4000,
          host layoutAt0 Flags.default emptyBus linkCpu⟩ = .next ⟨.i64 (emittedNext linkCpu
            (decode 0xd63f03c0#32) (0x4000 + (0x4000 - 0x4000))) :: st, _, _⟩ :=
    exec_lowerTerminator hready rfl hbranch 0x4000 0x4000
  rw [hexec] at htarget
  cases htarget
  have hsame : c = code := Option.some.inj (hc.symm.trans hcode)
  have hret := (hreturns 0).1
  rw [hsame, hrun, returns_next] at hret
  have hnext := Val.i64.inj (Option.some.inj hret.1)
  exact absurd hnext (by decide)

end V64.Jit
