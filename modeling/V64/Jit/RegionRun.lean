import V64.Interp.Aside
import V64.Jit.RegionShape
import V64.Lib.Wasm.Dispatch

/-!
# Running a region

The function that `emit_region` makes, against the interpreter on the code that the
region was formed from.

* `Lowers`: the code of a straight-line instruction agrees with the interpreter or bails;
  `lowers_of_emits`: from the state that the function is in.
* `At`: the interpreter has reached an instruction of the region.
* `straight_ends`, `terminator_jumps`, `block_jumps`: one block, by its parts.
* `emitRegion_simulates`: every way out returns the number of instructions that the
  interpreter takes to the state that the function leaves.
-/

namespace V64.Jit

open V64.Cpu V64.Decoder V64.Interp V64.Platform Wasm
open Wasm.Instr

/-- The words of code formed at `entry`, where it runs at `base`. -/
def imageAt (read : BitVec 64 → BitVec 32) (entry base a : BitVec 64) : BitVec 32 :=
  read (entry + (a - base))

theorem imageAt_at (read : BitVec 64 → BitVec 32) (entry base a : BitVec 64) :
    imageAt read entry base (base + (a - entry)) = read a := by
  have haddr : entry + (base + (a - entry) - base) = a := by bv_omega
  rw [imageAt, haddr]

/-- The locals of a function when it starts. -/
def blockLocals (L : Layout) (n : ℕ) : Val :=
  if n = 0 then .i32 L.regsBase
  else if n = 1 then .i32 L.ramBase
  else if n < 10 then .i64 0
  else .i32 0

section Host

variable {D : Type}

/-- In step with `g` while a function entered at `base` runs: PC stays where it was and
    `jit_count` holds what the function has put there. -/
def inBlock (L : Layout) (stale : Flags) (base count : BitVec 64) (g : Guest (Bus D)) : HostMem D :=
  host L stale g.mem { g.cpu with pc := base, jitCount := count }

/-- Emitted code does not move RAM. -/
theorem storesKeep_ram (base size : BitVec 64) :
    StoresKeep fun m : HostMem D => m.bus.ram.base = base ∧ m.bus.ram.size = size := by
  intro m addr bytes v m' h hm'
  change HostMem.store m addr bytes v = some m' at hm'
  unfold HostMem.store at hm'
  dsimp only at hm'
  split_ifs at hm'
  · obtain ⟨cpu, -, rfl⟩ := Option.map_eq_some_iff.mp hm'
    exact h
  · obtain rfl := Option.some.inj hm'
    exact h

variable [MmioDevice D]

/-- Run in step with `g`, the code that is emitted for `insn` at `site` ends in step with
    what the interpreter makes of `insn`, which goes on to the next instruction, or bails. -/
def Lowers (L : Layout) (stale : Flags) (vl : VecLowering) (vu : VecUnit) (insn : Insn)
    (site : Site) (base : BitVec 64) (g : Guest (Bus D)) : Prop :=
  ∀ code, lowerInsn L vl insn site = some code → ∀ l count retired fuel st,
    Ready L g.mem.ram.size.toNat l → SiteOk site g.mem l base retired →
    (exec fuel code ⟨st, l, inBlock L stale base count g⟩).Ends
      (fun s => s.stack = st ∧ Keeps l s.locals ∧ ∃ g',
        execute vu g insn (site.at base) = some (none, g') ∧ g'.cpu.pendingAbort = none ∧
        s.mem = inBlock L stale base count g')
      (Bailed L stale g.mem { g.cpu with pc := base, jitCount := count } site base retired)

/-- The fields of the CPU that `inBlock` sets. -/
def blockAside (base count : BitVec 64) : Aside :=
  ⟨fun _ => base, id, fun _ => count, id, false, false⟩

/-- Code that is in step with the interpreter, or bails, from the state that the function is in;
    the executor sees nothing of `inBlock`. -/
theorem lowers_of_emits {L : Layout} {stale : Flags} {vl : VecLowering} {vu : VecUnit} {insn : Insn}
    {site : Site} {base : BitVec 64} {g : Guest (Bus D)}
    (h : ∀ l count retired, Ready L g.mem.ram.size.toNat l → SiteOk site g.mem l base retired →
      ∃ code g', lowerInsn L vl insn site = some code ∧
        execute vu (g.aside (blockAside base count)) insn (site.at base) = some (none, g') ∧
        EmitsOrBails L stale g.mem l code ((blockAside base count).put g.cpu) site base retired
          g') :
    Lowers L stale vl vu insn site base g := by
  intro code hcode l count retired fuel st hready hsite
  obtain ⟨code', g', hcode', hexecute, hends⟩ := h l count retired hready hsite
  obtain rfl : code' = code := by
    rw [hcode'] at hcode
    exact Option.some.inj hcode
  -- the executor, before PC and the count are put aside
  have haside :=
    (execute_aside (blockAside base count) vu g insn (site.at base)).symm.trans hexecute
  obtain ⟨⟨next, g₁⟩, hg₁, hr⟩ := Option.map_eq_some_iff.mp haside
  obtain ⟨rfl, rfl⟩ := Prod.mk.inj hr
  refine (hends fuel st).mono ?_ fun s hs => hs
  rintro s ⟨hst, hkeeps, hmem, hno⟩
  exact ⟨hst, hkeeps, g₁, hg₁, hno, hmem⟩

/-- An integer data-processing instruction agrees. -/
theorem lowers_dataProc (L : Layout) (stale : Flags) (vl : VecLowering) (vu : VecUnit) {insn : Insn}
    (hfields : FieldsOk insn) (hclass : IsIntDataProc insn) (hinline : canInline vl insn = true)
    (site : Site) (base : BitVec 64) {g : Guest (Bus D)} (hno : g.cpu.pendingAbort = none) :
    Lowers L stale vl vu insn site base g := by
  apply lowers_of_emits
  intro l count retired hready hsite
  have hsequential : lowerInsn L vl insn site = lowerSequential vl insn site.pc site.entryPc := by
    cases insn <;> first | rfl | exact absurd hclass id
  have hagree : Agree L stale g.mem ((blockAside base count).put g.cpu) l
      (lowerSequential vl insn site.pc site.entryPc)
      (execute vu (g.aside (blockAside base count)) insn (site.at base)) :=
    lowerSequential_agree vl vu hfields hclass hinline hready hsite.pc site.pc site.entryPc
  obtain ⟨code, cpu', hcode, hexecute, ⟨x, sp, flags, rfl⟩, hemits⟩ := hagree
  refine ⟨code, _, hsequential.trans hcode, hexecute, fun fuel st => ?_⟩
  exact (hemits fuel st).mono (fun s hs => ⟨hs.1, hs.2.1, hs.2.2, hno⟩) fun s hs => hs.elim

end Host

/-! ## The interpreter in the region -/

section Run

variable {D : Type} [MmioDevice D] (vu : VecUnit) (read : BitVec 64 → BitVec 32)
  (entry : BitVec 64) (g₀ : Guest (Bus D))

/-- The interpreter, `n` instructions after `g₀`, is in `g` at address `a` of the code. -/
structure At (n : ℕ) (a : BitVec 64) (g : Guest (Bus D)) : Prop where
  steps : codeSteps vu (imageAt read entry g₀.cpu.pc) n g₀ = some g
  pc : g.cpu.pc = g₀.cpu.pc + (a - entry)
  noAbort : g.cpu.pendingAbort = none
  ramBase : g.mem.ram.base = g₀.mem.ram.base
  ramSize : g.mem.ram.size = g₀.mem.ram.size

variable (L : Layout) (stale : Flags)

/-- The function, entered at `base`, has returned the PC of the state that `run` is in after
    `n` instructions, and that state, with `n` in `jit_count`; a bail sets `jit_exit`. -/
def ReturnedAfter (run : ℕ → Option (Guest (Bus D))) (base : BitVec 64) (L : Layout)
    (stale : Flags) (s : State (HostMem D)) : Prop :=
  ∃ n g exit, run n = some g ∧ n < 2 ^ 64 ∧ s.stack.head? = some (.i64 g.cpu.pc) ∧
    s.mem = host L stale g.mem
      { g.cpu with pc := base, jitCount := BitVec.ofNat 64 n, jitExit := exit } ∧
    (exit = 1 ∨ exit = g.cpu.jitExit)

/-- `ReturnedAfter` a run of the code that the region was formed from. -/
def Returned (s : State (HostMem D)) : Prop :=
  ReturnedAfter (fun n => codeSteps vu (imageAt read entry g₀.cpu.pc) n g₀) g₀.cpu.pc L stale s

/-- What the function returns is the interpreter's state on the code of the region, and
    the state of the interpreter with its fetches where these find that code. -/
def Simulated (s : State (HostMem D)) : Prop :=
  Returned vu read entry g₀ L stale s ∧
    ((∀ n g, codeSteps vu (imageAt read entry g₀.cpu.pc) n g₀ = some g →
        FetchFinds (imageAt read entry g₀.cpu.pc) g) →
      ReturnedAfter (fun n => Interp.steps vu n g₀) g₀.cpu.pc L stale s)

/-- Every straight-line instruction of the region agrees or bails wherever the interpreter
    reaches it. -/
def RegionLowers (vl : VecLowering) (blocks : List Block) : Prop :=
  ∀ n g, codeSteps vu (imageAt read entry g₀.cpu.pc) n g₀ = some g →
    ∀ b ∈ blocks, ∀ p ∈ b.insns, isBranch p.2 = false → g.cpu.pc = g₀.cpu.pc + (p.1 - entry) →
    ∀ i countBase,
      Lowers L stale vl vu p.2 ⟨p.1, entry, i, g₀.mem.ram.base, g₀.mem.ram.size, countBase⟩
        g₀.cpu.pc g

end Run

section Sim

variable {D : Type} [MmioDevice D] {vu : VecUnit} {read : BitVec 64 → BitVec 32}
  {entry : BitVec 64} {g₀ g : Guest (Bus D)} {L : Layout} {stale : Flags} {vl : VecLowering}
  {fuel n : ℕ} {st : List Val} {l : ℕ → Val} {a count : BitVec 64}

/-! ## Straight-line code -/

theorem At.word (h : At vu read entry g₀ n a g) :
    imageAt read entry g₀.cpu.pc g.cpu.pc = read a := by
  rw [h.pc, imageAt_at]

/-- One instruction: the interpreter's step, or a bail with the count so far. -/
theorem insn_ends (h : At vu read entry g₀ n a g) (hn : n < 2 ^ 64) {site : Site}
    (hpc : site.pc = a) (hentry : site.entryPc = entry) {code : List Instr}
    (hcode : lowerInsn L vl (decode (read a)) site = some code)
    (hlowers : Lowers L stale vl vu (decode (read a)) site g₀.cpu.pc g)
    (hready : Ready L g₀.mem.ram.size.toNat l)
    (hsite : SiteOk site g.mem l g₀.cpu.pc (BitVec.ofNat 64 n)) :
    (exec fuel code ⟨st, l, inBlock L stale g₀.cpu.pc count g⟩).Ends
      (fun s => s.stack = st ∧ Keeps l s.locals ∧ ∃ g', At vu read entry g₀ (n + 1) (a + 4) g' ∧
        s.mem = inBlock L stale g₀.cpu.pc count g')
      (Returned vu read entry g₀ L stale) := by
  have hat : site.at g₀.cpu.pc = g.cpu.pc := by
    rw [Site.at, hpc, hentry, h.pc]
  have hends := hlowers code hcode l count (BitVec.ofNat 64 n) fuel st (by rwa [h.ramSize]) hsite
  have hram := mem_exec (storesKeep_ram g₀.mem.ram.base g₀.mem.ram.size) fuel code
    ⟨st, l, inBlock L stale g₀.cpu.pc count g⟩ ⟨h.ramBase, h.ramSize⟩
  refine (hends.and_mem hram).mono ?_ ?_
  · rintro ⟨stack, locals, mem⟩ ⟨⟨hst, hkeeps, g', hexecute, habort, hmem⟩, hbase, hsize⟩
    dsimp only at hst hkeeps hmem hbase hsize
    subst hmem
    rw [hat, ← h.word] at hexecute
    refine ⟨hst, hkeeps, { g' with cpu := { g'.cpu with pc := g.cpu.pc + 4 } }, ?_, rfl⟩
    exact ⟨codeSteps_succ h.steps (codeStep_of_execute hexecute habort), by
      rw [h.pc, rel_add], habort, hbase, hsize⟩
  · rintro s ⟨⟨hpc, hmem⟩, -⟩
    rw [hat] at hpc
    exact ⟨n, g, 1, h.steps, hn, hpc, hmem, .inl rfl⟩

/-- What the count in `countBase`, where there is one, and the instructions before the block
    make together. -/
def CountOk (countBase : Option ℕ) (l : ℕ → Val) (n₀ : ℕ) : Prop :=
  match countBase with
  | some cl => l cl = .i64 (BitVec.ofNat 64 n₀) ∧ isScratch cl = false
  | none => n₀ = 0

theorem CountOk.keeps {countBase : Option ℕ} {l l' : ℕ → Val} {n₀ : ℕ}
    (h : CountOk countBase l n₀) (hkeeps : Keeps l l') : CountOk countBase l' n₀ := by
  cases countBase with
  | none => exact h
  | some cl => exact ⟨(hkeeps cl h.2).trans h.1, h.2⟩

omit [MmioDevice D] in
theorem siteOk_insn {bus : Bus D} {base : BitVec 64} (hbase : l 7 = .i64 base)
    {countBase : Option ℕ} {n₀ : ℕ} (hcount : CountOk countBase l n₀) (pc entryPc : BitVec 64)
    (i : ℕ) :
    SiteOk ⟨pc, entryPc, BitVec.ofNat 64 i, bus.ram.base, bus.ram.size, countBase⟩ bus l base
      (BitVec.ofNat 64 (n₀ + i)) where
  pc := hbase
  ramPhys := rfl
  ramSize := rfl
  count := by
    cases countBase with
    | none =>
      have hn₀ : n₀ = 0 := hcount
      rw [hn₀, Nat.zero_add]
    | some cl =>
      refine ⟨BitVec.ofNat 64 n₀, hcount.1, hcount.2, ?_⟩
      rw [BitVec.ofNat_add]

/-- The instructions of a block before its terminator, in either kind of function. -/
def straightCode (L : Layout) (vl : VecLowering) (entryPc ramPhys ramSize : BitVec 64)
    (countBase : Option ℕ) : ℕ → List (BitVec 64 × Insn) → Option (List Instr)
  | _, [] => some []
  | i, (pc, insn) :: rest => do
    let code ← lowerInsn L vl insn ⟨pc, entryPc, BitVec.ofNat 64 i, ramPhys, ramSize, countBase⟩
    let codes ← straightCode L vl entryPc ramPhys ramSize countBase (i + 1) rest
    return code ++ codes

/-- Straight-line code from address `a` on: the interpreter's state after it, or a bail
    somewhere in it. -/
theorem straight_ends {blocks : List Block} {block : Block} {countBase : Option ℕ} {n₀ : ℕ}
    (hlowers : RegionLowers vu read entry g₀ L stale vl blocks) (hblock : block ∈ blocks)
    {insns : List (BitVec 64 × Insn)} (hmem : ∀ p ∈ insns, p ∈ block.insns)
    (hstraight : ∀ p ∈ insns, isBranch p.2 = false) (hcodeAt : CodeAt read a insns) {i : ℕ}
    (h : At vu read entry g₀ (n₀ + i) a g) (hn : n₀ + i + insns.length < 2 ^ 64)
    {code : List Instr} (hcode : straightCode L vl entry g₀.mem.ram.base g₀.mem.ram.size
      countBase i insns = some code)
    (hready : Ready L g₀.mem.ram.size.toNat l) (hbase : l 7 = .i64 g₀.cpu.pc)
    (hcount : CountOk countBase l n₀) :
    (exec fuel code ⟨st, l, inBlock L stale g₀.cpu.pc count g⟩).Ends
      (fun s => s.stack = st ∧ Keeps l s.locals ∧ ∃ g',
        At vu read entry g₀ (n₀ + i + insns.length) (a + BitVec.ofNat 64 (4 * insns.length)) g' ∧
        s.mem = inBlock L stale g₀.cpu.pc count g')
      (Returned vu read entry g₀ L stale) := by
  induction insns generalizing i a g l code with
  | nil =>
    cases hcode
    rw [exec_nil, Outcome.ends_next, List.length_nil, Nat.mul_zero, BitVec.add_zero]
    exact ⟨rfl, keeps_refl l, g, h, rfl⟩
  | cons p insns ih =>
    obtain ⟨rfl, hrest⟩ := hcodeAt
    rw [straightCode] at hcode
    obtain ⟨first, hfirst, hcode⟩ := Option.bind_eq_some_iff.mp hcode
    obtain ⟨codes, hcodes, hcode⟩ := Option.bind_eq_some_iff.mp hcode
    obtain rfl := Option.some.inj hcode
    rw [List.length_cons] at hn
    have hinsn := hlowers (n₀ + i) g h.steps block hblock (a, decode (read a))
      (hmem _ List.mem_cons_self) (hstraight _ List.mem_cons_self) h.pc (BitVec.ofNat 64 i)
      countBase
    have hsite : SiteOk ⟨a, entry, BitVec.ofNat 64 i, g₀.mem.ram.base, g₀.mem.ram.size, countBase⟩
        g.mem l g₀.cpu.pc (BitVec.ofNat 64 (n₀ + i)) := by
      rw [← h.ramBase, ← h.ramSize]
      exact siteOk_insn hbase hcount a entry i
    rw [exec_append]
    refine (insn_ends h (by omega) rfl rfl hfirst hinsn hready hsite).bind ?_
    rintro ⟨stack, locals, mem⟩ ⟨hst, hkeeps, g', h', hmem'⟩
    dsimp only at hst hkeeps hmem'
    subst hst hmem'
    have hnext := ih (fun q hq => hmem q (List.mem_cons_of_mem _ hq))
      (fun q hq => hstraight q (List.mem_cons_of_mem _ hq)) hrest h' (by omega) hcodes
      (hkeeps.ready hready) ((hkeeps 7 rfl).trans hbase) (hcount.keeps hkeeps)
    have hlen : n₀ + (i + 1) + insns.length = n₀ + i + (insns.length + 1) := by omega
    rw [add_four_ofNat, hlen] at hnext
    exact hnext.mono (fun s hs => ⟨hs.1, hkeeps.trans hs.2.1, hs.2.2⟩) fun _ hs => hs

/-! ## The terminator of a region block -/

theorem pendingAbort_branchExec (cpu : CpuState) (insn : Insn) (pc : BitVec 64) :
    (branchExec cpu insn pc).2.pendingAbort = cpu.pendingAbort := by
  have hlink (v : BitVec 64) : (cpu.writeGpr 30 false v).pendingAbort = cpu.pendingAbort := rfl
  cases insn with
  | branchImm link offset => cases link <;> rfl
  | branchReg opc rn =>
    show (branchReg cpu opc rn pc).2.pendingAbort = _
    unfold branchReg
    split_ifs
    · exact hlink _
    · rfl
  | _ => rfl

/-- The interpreter takes a branch. -/
theorem At.branch (h : At vu read entry g₀ n a g) {insn : Insn} (hinsn : decode (read a) = insn)
    (hbranch : isBranch insn = true) {target : BitVec 64}
    (htarget : branchNext g.cpu insn g.cpu.pc = g₀.cpu.pc + (target - entry)) :
    At vu read entry g₀ (n + 1) target
      { g with cpu := { (branchExec g.cpu insn g.cpu.pc).2 with
        pc := g₀.cpu.pc + (target - entry) } } where
  steps := by
    have hexecute : execute vu g (decode (imageAt read entry g₀.cpu.pc g.cpu.pc)) g.cpu.pc =
        some ((branchExec g.cpu insn g.cpu.pc).1,
          { g with cpu := (branchExec g.cpu insn g.cpu.pc).2 }) := by
      rw [h.word, hinsn]
      exact execute_branch vu g hbranch g.cpu.pc
    rw [← htarget]
    exact codeSteps_succ h.steps (codeStep_of_execute hexecute
      ((pendingAbort_branchExec g.cpu insn g.cpu.pc).trans h.noAbort))
  pc := rfl
  noAbort := (pendingAbort_branchExec g.cpu insn g.cpu.pc).trans h.noAbort
  ramBase := h.ramBase
  ramSize := h.ramSize

/-- At the head of the dispatch loop: the interpreter, `n` instructions on, is at the start
    of the block that `RIDX` selects. -/
structure AtHead (vu : VecUnit) (read : BitVec 64 → BitVec 32) (entry : BitVec 64)
    (g₀ : Guest (Bus D)) (L : Layout) (stale : Flags) (count : BitVec 64) (blocks : List Block)
    (n : ℕ) (iters : BitVec 32) (idx : ℕ) (b : Block) (g : Guest (Bus D))
    (s : State (HostMem D)) : Prop where
  block : blocks[idx]? = some b
  at_ : At vu read entry g₀ n b.start g
  ready : Ready L g₀.mem.ram.size.toNat s.locals
  pc0 : s.locals 7 = .i64 g₀.cpu.pc
  rpc : s.locals 8 = .i64 g.cpu.pc
  rcount : s.locals 9 = .i64 (BitVec.ofNat 64 n)
  riters : s.locals 11 = .i32 iters
  ridx : s.locals 12 = .i32 (BitVec.ofNat 32 idx)
  mem : s.mem = inBlock L stale g₀.cpu.pc count g

/-- The locals of the dispatch loop, with `n` instructions counted. -/
structure Counted (g₀ : Guest (Bus D)) (L : Layout) (n : ℕ) (iters : BitVec 32) (l : ℕ → Val) :
    Prop where
  ready : Ready L g₀.mem.ram.size.toNat l
  pc0 : l 7 = .i64 g₀.cpu.pc
  rcount : l 9 = .i64 (BitVec.ofNat 64 n)
  riters : l 11 = .i32 iters

/-- The exit, when `RPC` holds the interpreter's PC. -/
theorem returned_exit (h : At vu read entry g₀ n a g) (hn : n < 2 ^ 64) (st : List Val)
    (l : ℕ → Val) :
    Returned vu read entry g₀ L stale ⟨.i64 g.cpu.pc :: st, l, inBlock L stale g₀.cpu.pc
      (BitVec.ofNat 64 n) g⟩ :=
  ⟨n, g, g.cpu.jitExit, h.steps, hn, rfl, rfl, .inr rfl⟩

/-- An edge goes to the head of the loop or leaves the region. -/
theorem route_jumps (stale : Flags) (count : BitVec 64) (fuel : ℕ) (st : List Val)
    {region : Region} (hentry : region.entry = entry) {iters : BitVec 32}
    (h : At vu read entry g₀ n a g) (hn : n < 2 ^ 64) (hl : Counted g₀ L n iters l)
    (loopDepth : ℕ) :
    (exec fuel (regionRoute region a loopDepth) ⟨st, l, inBlock L stale g₀.cpu.pc count g⟩).Jumps
      loopDepth
      (fun s => ∃ idx b, AtHead vu read entry g₀ L stale count region.blocks n iters idx b g s)
      (Returned vu read entry g₀ L stale) := by
  subst hentry
  have hready : Ready L g.mem.ram.size.toNat l := by
    rw [h.ramSize]
    exact hl.ready
  cases hidx : region.blocks.findIdx? (·.start == a) with
  | none =>
    have hout (b) (hb : b ∈ region.blocks) : b.start ≠ a :=
      beq_eq_false_iff_ne.mp (List.findIdx?_eq_none_iff.mp hidx b hb)
    unfold inBlock
    rw [exec_regionRoute_out hready hl.pc0 hl.rcount hout, Outcome.jumps_ret, ← h.pc]
    exact returned_exit h hn st _
  | some idx =>
    obtain ⟨hlt, hstart, -⟩ := List.findIdx?_eq_some_iff_getElem.mp hidx
    have hstart : (region.blocks[idx]).start = a := beq_iff_eq.mp hstart
    set l₁ := Function.update l 12 (.i32 (BitVec.ofNat 32 idx)) with hl₁
    set l₂ := Function.update l₁ 8 (.i64 g.cpu.pc) with hl₂
    have hkept (k : ℕ) (h8 : k ≠ 8) (h12 : k ≠ 12) : l₂ k = l k :=
      (Function.update_of_ne h8 _ l₁).trans (Function.update_of_ne h12 _ l)
    have hpc0 : l₁ 7 = .i64 g₀.cpu.pc := (Function.update_of_ne (by decide) _ l).trans hl.pc0
    have hidx₂ : l₂ 12 = .i32 (BitVec.ofNat 32 idx) :=
      (Function.update_of_ne (by decide) _ l₁).trans (Function.update_self 12 _ l)
    unfold regionRoute
    rw [hidx]
    dsimp only
    rw [exec_append, exec_append, exec_i32Const, exec_localSet, exec_nil, Outcome.bind_next,
      exec_setRpc hpc0, Outcome.bind_next, exec_br, Outcome.jumps_br, ← h.pc]
    exact ⟨rfl, idx, region.blocks[idx], {
      block := List.getElem?_eq_getElem hlt
      at_ := hstart ▸ h
      ready := (ready_update (by decide)).mpr ((ready_update (by decide)).mpr hl.ready)
      pc0 := (hkept 7 (by decide) (by decide)).trans hl.pc0
      rpc := Function.update_self 8 _ l₁
      rcount := (hkept 9 (by decide) (by decide)).trans hl.rcount
      riters := (hkept 11 (by decide) (by decide)).trans hl.riters
      ridx := hidx₂
      mem := rfl }⟩

omit [MmioDevice D] in
theorem branchTaken_inBlock (cpu : CpuState) (pc count : BitVec 64) (insn : Insn) :
    branchTaken { cpu with pc := pc, jitCount := count } insn = branchTaken cpu insn := by
  cases insn <;> rfl

theorem branchExec_of_takenTarget {insn : Insn} {pc target : BitVec 64}
    (h : takenTarget insn pc = some target) (cpu : CpuState) :
    (branchExec cpu insn pc).2 = cpu := by
  cases insn with
  | condBranch cond offset => rfl
  | compareBranch sf negate rt offset => rfl
  | testBranch bit negate rt offset => rfl
  | _ => cases h

section Terminator

variable {region : Region} (hentry : region.entry = entry) {iters : BitVec 32} {insn : Insn}
  (hinsn : decode (read a) = insn) (hbranch : isBranch insn = true)
  (h : At vu read entry g₀ n a g) (hn : n + 1 < 2 ^ 64) (hl : Counted g₀ L (n + 1) iters l)
  (loopDepth : ℕ)

include hentry hinsn hbranch h hn hl

/-- A conditional branch: both edges are routed one label further in. -/
theorem cond_jumps {offset : BitVec 64} {cond : List Instr}
    (htarget : ∀ pc, takenTarget insn pc = some (pc + offset))
    (hcond : emitTakenCond insn = some cond) :
    (exec fuel (cond ++ [ifElse 0 (regionRoute region (a + offset) (loopDepth + 1))
        (regionRoute region (a + 4) (loopDepth + 1))])
      ⟨st, l, inBlock L stale g₀.cpu.pc count g⟩).Jumps loopDepth
      (fun s => ∃ idx b g',
        AtHead vu read entry g₀ L stale count region.blocks (n + 1) iters idx b g' s)
      (Returned vu read entry g₀ L stale) := by
  set target := if branchTaken g.cpu insn then a + offset else a + 4 with htarget_eq
  have hready : Ready L g.mem.ram.size.toNat l := by
    rw [h.ramSize]
    exact hl.ready
  have hnext : branchNext g.cpu insn g.cpu.pc = g₀.cpu.pc + (target - entry) := by
    rw [branchNext_of_takenTarget (htarget _), h.pc, htarget_eq]
    split_ifs
    · rw [rel_add]
    · rw [rel_add]
  have h₁ := h.branch hinsn hbranch hnext
  rw [branchExec_of_takenTarget (htarget _)] at h₁
  have hroute := route_jumps stale count fuel [] hentry h₁ hn hl (loopDepth + 1)
  unfold inBlock at hroute ⊢
  rw [exec_append, exec_emitTakenCond hready hcond, Outcome.bind_next, branchTaken_inBlock,
    exec_ifElse, ← apply_ite (fun target => regionRoute region target (loopDepth + 1))]
  exact ((hroute.mono (fun s ⟨idx, b, hs⟩ => ⟨idx, b, _, hs⟩) fun _ hs => hs).exitBlock 0 st).bind

/-- Every direct branch. -/
theorem terminator_jumps (hdirect : ∀ opc rn, insn ≠ .branchReg opc rn) {code : List Instr}
    (hcode : regionTerminator region loopDepth insn a = some code) :
    (exec fuel code ⟨st, l, inBlock L stale g₀.cpu.pc count g⟩).Jumps loopDepth
      (fun s => ∃ idx b g',
        AtHead vu read entry g₀ L stale count region.blocks (n + 1) iters idx b g' s)
      (Returned vu read entry g₀ L stale) := by
  have hjump (link : Bool) (offset : BitVec 64) :
      branchNext g.cpu (.branchImm link offset) g.cpu.pc =
        g₀.cpu.pc + (a + offset - entry) := by
    rw [rel_add, ← h.pc]
    rfl
  cases insn with
  | branchImm link offset =>
    have h₁ := h.branch hinsn hbranch (hjump link offset)
    cases link with
    | false =>
      cases hcode
      exact (route_jumps stale count fuel st hentry h₁ hn hl loopDepth).mono
        (fun s ⟨idx, b, hs⟩ => ⟨idx, b, _, hs⟩) fun _ hs => hs
    | true =>
      cases hcode
      subst hentry
      have hready : Ready L g.mem.ram.size.toNat l := by
        rw [h.ramSize]
        exact hl.ready
      unfold inBlock
      rw [exec_append, exec_append, exec_storeLink hready hl.pc0, Outcome.bind_next,
        exec_setRpc hl.pc0, Outcome.bind_next, exec_rpc_exit hready hl.rcount, Outcome.jumps_ret,
        ← h.pc]
      exact returned_exit h₁ hn st _
  | branchReg opc rn => exact absurd rfl (hdirect opc rn)
  | condBranch cond offset =>
    cases hcode
    exact cond_jumps hentry hinsn hbranch h hn hl loopDepth (fun _ => rfl) rfl
  | compareBranch sf negate rt offset =>
    cases hcode
    exact cond_jumps hentry hinsn hbranch h hn hl loopDepth (fun _ => rfl) rfl
  | testBranch bit negate rt offset =>
    cases hcode
    exact cond_jumps hentry hinsn hbranch h hn hl loopDepth (fun _ => rfl) rfl
  | _ => exact Bool.noConfusion hbranch

end Terminator

/-! ## A region block -/

theorem regionBody_eq (region : Region) (ramPhys ramSize : BitVec 64) (i : ℕ)
    (insns : List (BitVec 64 × Insn)) :
    regionBody L vl region ramPhys ramSize i insns =
      straightCode L vl region.entry ramPhys ramSize (some rcount) i insns := by
  induction insns generalizing i with
  | nil => rfl
  | cons p insns ih =>
    obtain ⟨pc, insn⟩ := p
    rw [regionBody, straightCode, ih]

omit [MmioDevice D] in
theorem Counted.keeps {iters : BitVec 32} {l' : ℕ → Val} (hl : Counted g₀ L n iters l)
    (h : Keeps l l') : Counted g₀ L n iters l' where
  ready := h.ready hl.ready
  pc0 := (h 7 rfl).trans hl.pc0
  rcount := (h 9 rfl).trans hl.rcount
  riters := (h 11 rfl).trans hl.riters

omit [MmioDevice D] in
theorem Counted.add {iters : BitVec 32} (hl : Counted g₀ L n iters l) (k : ℕ) :
    Counted g₀ L (n + k) iters
      (Function.update l 9 (.i64 (BitVec.ofNat 64 n + BitVec.ofNat 64 k))) where
  ready := (ready_update (by decide)).mpr hl.ready
  pc0 := (Function.update_of_ne (by decide) _ l).trans hl.pc0
  rcount := by rw [Function.update_self, BitVec.ofNat_add]
  riters := (Function.update_of_ne (by decide) _ l).trans hl.riters

omit [MmioDevice D] in
/-- The instructions of a block are added to the count. -/
theorem exec_count {iters : BitVec 32} (hl : Counted g₀ L n iters l) (k : ℕ)
    (m : HostMem D) :
    exec fuel [localGet rcount, i64Const (BitVec.ofNat 64 k), i64Add, localSet rcount]
        ⟨st, l, m⟩ =
      .next ⟨st, Function.update l 9 (.i64 (BitVec.ofNat 64 n + BitVec.ofNat 64 k)), m⟩ := by
  rw [exec_localGet, hl.rcount, exec_i64Const, exec_i64Add, exec_localSet, exec_nil]

/-- The straight-line part of a block, and the count of the whole block. -/
theorem counted_ends {blocks : List Block} {block : Block}
    (hlowers : RegionLowers vu read entry g₀ L stale vl blocks) (hblock : block ∈ blocks)
    {insns : List (BitVec 64 × Insn)} (hmem : ∀ p ∈ insns, p ∈ block.insns)
    (hstraight : ∀ p ∈ insns, isBranch p.2 = false) (hcodeAt : CodeAt read a insns)
    (h : At vu read entry g₀ n a g) (hn : n + insns.length < 2 ^ 64) {iters : BitVec 32}
    (hl : Counted g₀ L n iters l) {body : List Instr}
    (hbody : straightCode L vl entry g₀.mem.ram.base g₀.mem.ram.size (some rcount) 0 insns =
      some body) (k : ℕ) :
    (exec fuel (body ++ [localGet rcount, i64Const (BitVec.ofNat 64 k), i64Add, localSet rcount])
        ⟨st, l, inBlock L stale g₀.cpu.pc count g⟩).Ends
      (fun s => s.stack = st ∧ Counted g₀ L (n + k) iters s.locals ∧ ∃ g',
        At vu read entry g₀ (n + insns.length) (a + BitVec.ofNat 64 (4 * insns.length)) g' ∧
        s.mem = inBlock L stale g₀.cpu.pc count g')
      (Returned vu read entry g₀ L stale) := by
  have hcount : CountOk (some rcount) l n := ⟨hl.rcount, rfl⟩
  rw [exec_append]
  refine (straight_ends (i := 0) hlowers hblock hmem hstraight hcodeAt h hn hbody hl.ready hl.pc0
    hcount).bind ?_
  rintro ⟨stack, locals, mem⟩ ⟨hst, hkeeps, g', h', hmem'⟩
  dsimp only at hst hkeeps hmem'
  rw [exec_count (hl.keeps hkeeps), Outcome.ends_next]
  exact ⟨hst, (hl.keeps hkeeps).add k, g', h', hmem'⟩

/-- One turn of a block: the head of the loop with at most the block's instructions more,
    or a return from the middle or the end of it. -/
theorem block_jumps {region : Region} (hentry : region.entry = entry)
    (hshape : Shaped vecLowering read entry region.blocks)
    (hlowers : RegionLowers vu read entry g₀ L stale vecLowering region.blocks) {b : Block}
    (hb : b ∈ region.blocks) (hdirect : ∀ p ∈ b.insns, ∀ opc rn, p.2 ≠ .branchReg opc rn)
    (h : At vu read entry g₀ n b.start g) (hn : n + 1024 < 2 ^ 64) {iters : BitVec 32}
    (hl : Counted g₀ L n iters l) (loopDepth : ℕ) {code : List Instr}
    (hcode : emitRegionBlock L vecLowering region g₀.mem.ram.base g₀.mem.ram.size loopDepth b =
      some code) :
    (exec fuel code ⟨st, l, inBlock L stale g₀.cpu.pc count g⟩).Jumps loopDepth
      (fun s => ∃ n' ≤ n + 1024, ∃ idx b' g',
        AtHead vu read entry g₀ L stale count region.blocks n' iters idx b' g' s)
      (Returned vu read entry g₀ L stale) := by
  have hlength := hshape.length b hb
  have hcodeAt := hshape.code b hb
  obtain ⟨init, ⟨pc, term⟩, hcat, hinit, hlast⟩ := (hshape.compilable b hb).eq_concat
  have hstraight : ∀ p ∈ init, isBranch p.2 = false := fun p hp =>
    isBranch_of_canInline (hinit p hp).2
  rw [hcat, List.length_append, List.length_singleton] at hlength
  rw [hcat] at hcodeAt
  obtain ⟨hinitAt, hpc⟩ := hcodeAt.concat
  obtain ⟨rfl, hterm⟩ := Prod.mk.inj hpc
  have hinitMem : ∀ p ∈ init, p ∈ b.insns := fun p hp => hcat ▸ List.mem_append_left _ hp
  have hlastMem : (b.start + BitVec.ofNat 64 (4 * init.length), term) ∈ b.insns :=
    hcat ▸ List.mem_append_right _ (List.mem_singleton_self _)
  rw [emitRegionBlock, hcat, List.getLast?_concat, Option.bind_eq_bind, Option.bind_some,
    List.dropLast_concat] at hcode
  dsimp only at hcode
  obtain ⟨body, hbody, hcode⟩ := Option.bind_eq_some_iff.mp hcode
  rw [regionBody_eq, hentry] at hbody
  rw [List.length_append, List.length_singleton] at hcode
  cases hbranch : isBranch term with
  | false =>
    rw [hbranch] at hbody hcode
    obtain rfl := Option.some.inj hcode
    have hall : ∀ p ∈ init ++ [(b.start + BitVec.ofNat 64 (4 * init.length), term)],
        isBranch p.2 = false := by
      intro p hp
      obtain hp | hp := List.mem_append.mp hp
      · exact hstraight p hp
      · rw [List.mem_singleton.mp hp]
        exact hbranch
    rw [List.append_assoc, exec_append]
    refine (counted_ends hlowers hb (fun p hp => hcat ▸ hp) hall hcodeAt h (by simp; omega) hl
      hbody _).jumps ?_
    rintro ⟨stack, locals, mem⟩ ⟨hst, hl', g', h', hmem'⟩
    dsimp only at hst hl' hmem'
    subst hmem' hentry
    rw [List.length_append, List.length_singleton, add_ofNat_succ] at h'
    have hready : Ready L g'.mem.ram.size.toNat locals := by
      rw [h'.ramSize]
      exact hl'.ready
    unfold inBlock
    rw [exec_append, exec_setRpc hl'.pc0, Outcome.bind_next, exec_rpc_exit hready hl'.rcount,
      Outcome.jumps_ret, ← h'.pc]
    exact returned_exit h' (by omega) _ _
  | true =>
    rw [hbranch, if_pos rfl] at hbody hcode
    obtain ⟨termCode, htermCode, hcode⟩ := Option.bind_eq_some_iff.mp hcode
    obtain rfl := Option.some.inj hcode
    rw [exec_append]
    refine (counted_ends hlowers hb hinitMem hstraight hinitAt h (by omega) hl hbody _).jumps ?_
    rintro ⟨stack, locals, mem⟩ ⟨hst, hl', g', h', hmem'⟩
    dsimp only at hst hl' hmem'
    subst hmem'
    exact (terminator_jumps hentry hterm.symm hbranch h' (by omega) hl' loopDepth
      (hdirect _ hlastMem) htermCode).mono (fun s hs => ⟨_, by omega, hs⟩) fun _ hs => hs

/-! ## The dispatch loop -/

omit [MmioDevice D] in
/-- The code of the blocks around the dispatch. -/
theorem regionBlocks_eq {region : Region} {ramPhys ramSize : BitVec 64} {k i : ℕ}
    {blocks : List Block} {core code : List Instr}
    (h : regionBlocks L vl region ramPhys ramSize k i blocks core = some code) :
    ∃ codes, code = trampoline core codes ∧ codes.length = blocks.length ∧
      ∀ j b, blocks[j]? = some b → ∃ c, codes[j]? = some c ∧
        emitRegionBlock L vl region ramPhys ramSize (k - (i + j)) b = some c := by
  induction blocks generalizing i core with
  | nil =>
    obtain rfl := Option.some.inj h
    exact ⟨[], rfl, rfl, fun j b hb => by cases hb⟩
  | cons b blocks ih =>
    rw [regionBlocks] at h
    obtain ⟨c, hc, h⟩ := Option.bind_eq_some_iff.mp h
    obtain ⟨codes, rfl, hlength, hcodes⟩ := ih h
    refine ⟨c :: codes, rfl, congrArg (· + 1) hlength, fun j b' hb' => ?_⟩
    cases j with
    | zero =>
      obtain rfl : b = b' := Option.some.inj hb'
      exact ⟨c, rfl, hc⟩
    | succ j =>
      obtain ⟨c', hc', hemit⟩ := hcodes j b' hb'
      refine ⟨c', hc', ?_⟩
      rwa [Nat.add_right_comm i 1 j] at hemit

/-- The body of the dispatch loop. -/
def regionTurn (code : List Instr) : List Instr :=
  [localGet riters, i32Const (BitVec.ofNat 32 maxRegionIters), i32GeU,
    ifElse 0 regionExit [],
    localGet riters, i32Const 1, i32Add, localSet riters,
    Instr.block 0 code] ++ regionExit

/-- The invariant of the dispatch loop, with room for `room` more turns. -/
def Turns (vu : VecUnit) (read : BitVec 64 → BitVec 32) (entry : BitVec 64)
    (g₀ : Guest (Bus D)) (L : Layout) (stale : Flags) (count : BitVec 64) (blocks : List Block)
    (room : ℕ) (s : State (HostMem D)) : Prop :=
  room ≤ maxRegionIters ∧ s.stack = [] ∧ ∃ n ≤ (maxRegionIters - room) * 1024, ∃ idx b g,
    AtHead vu read entry g₀ L stale count blocks n (BitVec.ofNat 32 (maxRegionIters - room)) idx
      b g s

omit [MmioDevice D] in
/-- The test for the last turn. -/
theorem geU_iters {room : ℕ} (hroom : room ≤ maxRegionIters) :
    RelOp.geU.eval (BitVec.ofNat 32 (maxRegionIters - room)) (BitVec.ofNat 32 maxRegionIters) =
      decide (room = 0) := by
  unfold maxRegionIters at *
  show decide (BitVec.ofNat 32 8192 ≤ BitVec.ofNat 32 (8192 - room)) = decide (room = 0)
  rw [decide_eq_decide, BitVec.le_def, BitVec.toNat_ofNat, BitVec.toNat_ofNat]
  omega

section Loop

variable {region : Region} (hentry : region.entry = entry)
  (hshape : Shaped vecLowering read entry region.blocks)
  (hlowers : RegionLowers vu read entry g₀ L stale vecLowering region.blocks)
  (hdirect : ∀ b ∈ region.blocks, ∀ p ∈ b.insns, ∀ opc rn, p.2 ≠ .branchReg opc rn)
  {code : List Instr}
  (hcode : regionBlocks L vecLowering region g₀.mem.ram.base g₀.mem.ram.size region.blocks.length
    0 region.blocks [localGet ridx, brTable (List.range region.blocks.length)
      region.blocks.length] = some code)

include hentry hshape hlowers hdirect hcode

/-- One turn: the dispatch runs the block that `RIDX` selects. -/
theorem dispatch_jumps (count : BitVec 64) (fuel : ℕ) {iters : BitVec 32} {idx : ℕ} {b : Block}
    (hn : n + 1024 < 2 ^ 64) (hl : Counted g₀ L n iters l)
    (hridx : l 12 = .i32 (BitVec.ofNat 32 idx)) (hidx : region.blocks[idx]? = some b)
    (h : At vu read entry g₀ n b.start g) :
    (exec fuel code ⟨[], l, inBlock L stale g₀.cpu.pc count g⟩).Jumps 1
      (fun s => ∃ n' ≤ n + 1024, ∃ idx b' g',
        AtHead vu read entry g₀ L stale count region.blocks n' iters idx b' g' s)
      (Returned vu read entry g₀ L stale) := by
  obtain ⟨codes, rfl, hlength, hcodes⟩ := regionBlocks_eq hcode
  obtain ⟨c, hc, hemit⟩ := hcodes idx b hidx
  obtain ⟨hlt, -⟩ := List.getElem?_eq_some_iff.mp hidx
  have hb : b ∈ region.blocks := List.mem_of_getElem? hidx
  have hcount := hshape.length_le
  have hcore : exec fuel [localGet ridx, brTable (List.range region.blocks.length)
        region.blocks.length] ⟨[], l, inBlock L stale g₀.cpu.pc count g⟩ =
      .br idx ⟨[], l, inBlock L stale g₀.cpu.pc count g⟩ := by
    rw [exec_localGet, hridx]
    exact exec_brTable_range hlt (by omega) [] []
  have hdepth : codes.length - (idx + 1) + 1 = region.blocks.length - (0 + idx) := by omega
  apply jumps_trampoline hcore hc
  rw [hdepth]
  exact block_jumps hentry hshape hlowers hb (hdirect b hb) h hn hl _ hemit

theorem turn_jumps {room : ℕ} {s : State (HostMem D)}
    (h : Turns vu read entry g₀ L stale count region.blocks room s) :
    (exec fuel (regionTurn code) s).Jumps 0
      (fun s' => ∃ m < room,
        Turns vu read entry g₀ L stale count region.blocks m { s' with stack := [] })
      (Returned vu read entry g₀ L stale) := by
  obtain ⟨hroom, hstack, n, hn, idx, b, g, hhead⟩ := h
  obtain ⟨stack, l, mem⟩ := s
  have hmem : mem = inBlock L stale g₀.cpu.pc count g := hhead.mem
  dsimp only at hstack
  subst hstack hmem
  have hready : Ready L g.mem.ram.size.toNat l := by
    rw [hhead.at_.ramSize]
    exact hhead.ready
  have hriters : l 11 = .i32 (BitVec.ofNat 32 (maxRegionIters - room)) := hhead.riters
  unfold regionTurn
  rw [exec_append]
  apply Outcome.Jumps.bind
  rw [exec_localGet, hriters, exec_i32Const, exec_i32Rel, geU_iters hroom, exec_ifElse]
  have hlimit : maxRegionIters = 8192 := rfl
  cases room with
  | zero =>
    rw [decide_eq_true rfl, if_pos rfl]
    unfold inBlock
    rw [exec_regionExit hready hhead.rcount hhead.rpc, Outcome.exitBlock_ret, Outcome.bind_ret,
      Outcome.jumps_ret]
    exact returned_exit hhead.at_ (by omega) [] l
  | succ room =>
    have hiters : BitVec.ofNat 32 (maxRegionIters - (room + 1)) + 1 =
        BitVec.ofNat 32 (maxRegionIters - room) := by
      rw [show maxRegionIters - room = maxRegionIters - (room + 1) + 1 by omega, BitVec.ofNat_add]
      rfl
    have hl : Counted g₀ L n (BitVec.ofNat 32 (maxRegionIters - room))
        (Function.update l 11 (.i32 (BitVec.ofNat 32 (maxRegionIters - room)))) := {
      ready := (ready_update (by decide)).mpr hhead.ready
      pc0 := (Function.update_of_ne (by decide) _ l).trans hhead.pc0
      rcount := (Function.update_of_ne (by decide) _ l).trans hhead.rcount
      riters := Function.update_self 11 _ l }
    have hridx : Function.update l 11 (.i32 (BitVec.ofNat 32 (maxRegionIters - room))) 12 =
        .i32 (BitVec.ofNat 32 idx) :=
      (Function.update_of_ne (by decide) _ l).trans hhead.ridx
    have hjumps := dispatch_jumps hentry hshape hlowers hdirect hcode count fuel (by omega) hl
      hridx hhead.block hhead.at_
    rw [decide_eq_false (Nat.succ_ne_zero room), if_neg Bool.false_ne_true, exec_nil,
      Outcome.exitBlock_next, Outcome.bind_next]
    show (exec fuel _ ⟨[], l, inBlock L stale g₀.cpu.pc count g⟩).Jumps 0 _ _
    rw [exec_localGet, hriters, exec_i32Const, exec_i32Add, exec_localSet, hiters, exec_block]
    refine ((hjumps.mono ?_ fun _ hs => hs).exitBlock 0 []).bind
    rintro s ⟨n', hn', idx', b', g', hs⟩
    refine ⟨room, Nat.lt_succ_self room, Nat.le_of_succ_le hroom, rfl, n', ?_, idx', b', g', ?_⟩
    · omega
    · exact ⟨hs.block, hs.at_, hs.ready, hs.pc0, hs.rpc, hs.rcount, hs.riters, hs.ridx, hs.mem⟩

end Loop

/-! ## The functions -/

omit [MmioDevice D] in
theorem exec_loadEntryPc {bus : Bus D} {cpu : CpuState} (h : Ready L bus.ram.size.toNat l) :
    exec fuel loadEntryPc ⟨st, l, host L stale bus cpu⟩ =
      .next ⟨st, Function.update l 7 (.i64 cpu.pc), host L stale bus cpu⟩ := by
  have hload : LinearMemory.load (host L stale bus cpu) (L.regsBase.toNat + pcOff) 8 =
      some cpu.pc := HostMem.load_field (host_wf h.wf) .pc
  have hfull : extendLoad 8 false cpu.pc = cpu.pc := rfl
  unfold loadEntryPc
  rw [exec_localGet, h.regs, exec_i64LoadN hload, hfull, exec_localSet, exec_nil]

omit [MmioDevice D] in
theorem exec_storeCountConst {bus : Bus D} {cpu : CpuState} (h : Ready L bus.ram.size.toNat l)
    (count : BitVec 64) :
    exec fuel (storeCountConst count) ⟨st, l, host L stale bus cpu⟩ =
      .next ⟨st, l, host L stale bus { cpu with jitCount := count }⟩ := by
  unfold storeCountConst
  rw [exec_localGet, h.regs, exec_i64Const, exec_storeJitCount h.wf, exec_nil]

omit [MmioDevice D] in
theorem ready_blockLocals (h : L.Wf g₀.mem.ram.size.toNat) :
    Ready L g₀.mem.ram.size.toNat (blockLocals L) := ⟨h, rfl, rfl⟩

/-- The interpreter before its first step. -/
theorem at_zero (hno : g₀.cpu.pendingAbort = none) : At vu read entry g₀ 0 entry g₀ where
  steps := rfl
  pc := by rw [BitVec.sub_self, BitVec.add_zero]
  noAbort := hno
  ramBase := rfl
  ramSize := rfl

omit [MmioDevice D] in
/-- The locals when the dispatch loop is entered. -/
theorem counted_zero (h : L.Wf g₀.mem.ram.size.toNat) :
    Counted g₀ L 0 0 (Function.update (Function.update (blockLocals L) 7 (.i64 g₀.cpu.pc)) 8
      (.i64 g₀.cpu.pc)) where
  ready := (ready_update (by decide)).mpr ((ready_update (by decide)).mpr (ready_blockLocals h))
  pc0 := rfl
  rcount := rfl
  riters := rfl

/-- A region with no block leaves at once. -/
theorem turn_empty (hno : g₀.cpu.pendingAbort = none) (hl : Counted g₀ L 0 0 l)
    (hrpc : l 8 = .i64 g₀.cpu.pc) (hridx : l 12 = .i32 0) :
    ∃ s, exec fuel (regionTurn [localGet ridx, brTable (List.range 0) 0])
        ⟨[], l, inBlock L stale g₀.cpu.pc count g₀⟩ = .ret s ∧
      Returned vu read entry g₀ L stale s := by
  have hl' : Counted g₀ L 0 1 (Function.update l 11 (.i32 1)) := {
    ready := (ready_update (by decide)).mpr hl.ready
    pc0 := (Function.update_of_ne (by decide) _ l).trans hl.pc0
    rcount := (Function.update_of_ne (by decide) _ l).trans hl.rcount
    riters := Function.update_self 11 _ l }
  have hrpc' : Function.update l 11 (.i32 1) 8 = .i64 g₀.cpu.pc :=
    (Function.update_of_ne (by decide) _ l).trans hrpc
  have hridx' : Function.update l 11 (.i32 1) 12 = .i32 0 :=
    (Function.update_of_ne (by decide) _ l).trans hridx
  have htest : RelOp.geU.eval 0 (BitVec.ofNat 32 maxRegionIters) = false := by decide
  have hone : (0 : BitVec 32) + 1 = 1 := rfl
  have hdefault (l : ℕ → Val) (m : HostMem D) :
      exec fuel [brTable (List.range 0) 0] ⟨[.i32 0], l, m⟩ = .br 0 ⟨[], l, m⟩ := rfl
  refine ⟨_, ?_, returned_exit (at_zero hno) (by decide) [] (Function.update l 11 (.i32 1))⟩
  unfold regionTurn
  rw [exec_append, exec_localGet, hl.riters, exec_i32Const, exec_i32Rel, htest, exec_ifElse,
    if_neg Bool.false_ne_true, exec_nil, Outcome.exitBlock_next, Outcome.bind_next]
  show (exec fuel _ ⟨[], l, inBlock L stale g₀.cpu.pc count g₀⟩).bind _ = _
  rw [exec_localGet, hl.riters, exec_i32Const, exec_i32Add, exec_localSet, hone, exec_block,
    exec_localGet, hridx', hdefault, Outcome.exitBlock_br_zero, Outcome.bind_next, exec_nil,
    Outcome.bind_next]
  exact exec_regionExit hl'.ready hl'.rcount hrpc'

section Functions

variable {region : Region} (hentry : region.entry = entry)
  (hshape : Shaped vecLowering read entry region.blocks)
  (hlowers : RegionLowers vu read entry g₀ L stale vecLowering region.blocks)
  (hdirect : ∀ b ∈ region.blocks, ∀ p ∈ b.insns, ∀ opc rn, p.2 ≠ .branchReg opc rn)
  (hno : g₀.cpu.pendingAbort = none) {code : List Instr}

include hentry hshape hlowers hdirect hno

/-- The dispatch loop from its first turn on. -/
theorem iterate_turn_returns {core : List Instr}
    (hcore : regionBlocks L vecLowering region g₀.mem.ram.base g₀.mem.ram.size
      region.blocks.length 0 region.blocks [localGet ridx,
        brTable (List.range region.blocks.length) region.blocks.length] = some core)
    (hfuel : maxRegionIters < fuel)
    (hl : Counted g₀ L 0 0 l) (hrpc : l 8 = .i64 g₀.cpu.pc) (hridx : l 12 = .i32 0) :
    ∃ s, Outcome.iterate (exec fuel (regionTurn core)) fuel
        ⟨[], l, inBlock L stale g₀.cpu.pc count g₀⟩ = .ret s ∧
      Returned vu read entry g₀ L stale s := by
  cases hblocks : region.blocks with
  | nil =>
    rw [hblocks] at hcore
    obtain rfl := Option.some.inj hcore
    obtain ⟨s, hs, hreturned⟩ : ∃ s, exec fuel (regionTurn [localGet ridx,
          brTable (List.range 0) 0]) ⟨[], l, inBlock L stale g₀.cpu.pc count g₀⟩ = .ret s ∧
        Returned vu read entry g₀ L stale s := turn_empty hno hl hrpc hridx
    exact ⟨s, Outcome.iterate_of_ret hs (Nat.zero_lt_of_lt hfuel), hreturned⟩
  | cons b rest =>
    have hstart : b.start = entry := hshape.first b (by rw [hblocks]; rfl)
    have hhead : AtHead vu read entry g₀ L stale count region.blocks 0 0 0 b g₀
        ⟨[], l, inBlock L stale g₀.cpu.pc count g₀⟩ := {
      block := by rw [hblocks]; rfl
      at_ := hstart ▸ at_zero hno
      ready := hl.ready
      pc0 := hl.pc0
      rpc := hrpc
      rcount := hl.rcount
      riters := hl.riters
      ridx := hridx
      mem := rfl }
    have hinit : Turns vu read entry g₀ L stale count region.blocks maxRegionIters
        ⟨[], l, inBlock L stale g₀.cpu.pc count g₀⟩ :=
      ⟨Nat.le_refl _, rfl, 0, Nat.zero_le _, 0, b, g₀, hhead⟩
    exact Outcome.iterate_returns
      (fun room s h => turn_jumps hentry hshape hlowers hdirect hcore h) hfuel hinit

/-- The function with the dispatch loop. -/
theorem emitRegionBody_returns (hwf : L.Wf g₀.mem.ram.size.toNat) (hfuel : maxRegionIters < fuel)
    (hcode : emitRegionBody L vecLowering region g₀.mem.ram.base g₀.mem.ram.size = some code) :
    (exec fuel code ⟨[], blockLocals L, host L stale g₀.mem g₀.cpu⟩).Ends
      (Returned vu read entry g₀ L stale) (Returned vu read entry g₀ L stale) := by
  rw [emitRegionBody] at hcode
  obtain ⟨core, hcore, hcode⟩ := Option.bind_eq_some_iff.mp hcode
  obtain rfl := Option.some.inj hcode
  set l := Function.update (Function.update (blockLocals L) 7 (.i64 g₀.cpu.pc)) 8
    (.i64 g₀.cpu.pc) with hl
  obtain ⟨s, hs, hreturned⟩ : ∃ s, Outcome.iterate (exec fuel (regionTurn core)) fuel
        ⟨[], l, inBlock L stale g₀.cpu.pc g₀.cpu.jitCount g₀⟩ = .ret s ∧
      Returned vu read entry g₀ L stale s :=
    iterate_turn_returns hentry hshape hlowers hdirect hno hcore hfuel (counted_zero hwf)
      (Function.update_self 8 _ _) rfl
  rw [exec_append, exec_loadEntryPc (ready_blockLocals hwf), Outcome.bind_next, exec_localGet,
    exec_localSet, exec_loop]
  show (((Outcome.iterate (exec fuel (regionTurn core)) fuel
    ⟨[], l, inBlock L stale g₀.cpu.pc g₀.cpu.jitCount g₀⟩).exitBlock 0 []).bind _).Ends _ _
  rw [hs, Outcome.exitBlock_ret, Outcome.bind_ret, Outcome.ends_ret]
  exact hreturned

end Functions

/-! ## A single block -/

omit [MmioDevice D] in
/-- The code of a block ends with its terminator or with the PC of the next instruction. -/
theorem blockInsns_concat {entryPc ramPhys ramSize : BitVec 64} {i : ℕ}
    {init : List (BitVec 64 × Insn)} {p : BitVec 64 × Insn} {code : List Instr}
    (h : blockInsns L vl entryPc ramPhys ramSize i (init ++ [p]) = some code) :
    (isTerminator p.2 = true ∧ ∃ body last,
      straightCode L vl entryPc ramPhys ramSize none i init = some body ∧
      lowerTerminator p.2 p.1 entryPc = some last ∧ code = body ++ last) ∨
    (isTerminator p.2 = false ∧ ∃ body,
      straightCode L vl entryPc ramPhys ramSize none i (init ++ [p]) = some body ∧
      code = body ++ genRelPc (p.1 + 4) entryPc) := by
  induction init generalizing i code with
  | nil =>
    obtain ⟨pc, insn⟩ := p
    rw [List.nil_append, blockInsns, List.isEmpty_nil, Bool.true_and] at h
    cases hterm : isTerminator insn with
    | true =>
      rw [hterm, if_pos rfl] at h
      exact .inl ⟨rfl, [], code, rfl, h, rfl⟩
    | false =>
      rw [hterm, if_neg Bool.false_ne_true] at h
      obtain ⟨first, hfirst, h⟩ := Option.bind_eq_some_iff.mp h
      obtain rfl := Option.some.inj h
      refine .inr ⟨rfl, first ++ [], ?_, ?_⟩
      · rw [List.nil_append, straightCode, hfirst]
        rfl
      · rw [List.append_nil, List.append_nil]
        rfl
  | cons q init ih =>
    obtain ⟨pc, insn⟩ := q
    have hmore : (init ++ [p]).isEmpty = false := by
      rw [List.isEmpty_eq_false_iff]
      exact List.append_ne_nil_of_right_ne_nil init (List.cons_ne_nil p [])
    rw [List.cons_append, blockInsns, hmore, Bool.false_and, if_neg Bool.false_ne_true] at h
    obtain ⟨first, hfirst, h⟩ := Option.bind_eq_some_iff.mp h
    obtain ⟨codes, hcodes, h⟩ := Option.bind_eq_some_iff.mp h
    obtain rfl := Option.some.inj h
    obtain ⟨hterm, body, last, hbody, hlast, rfl⟩ | ⟨hterm, body, hbody, rfl⟩ := ih hcodes
    · refine .inl ⟨hterm, first ++ body, last, ?_, hlast, ?_⟩
      · rw [straightCode, hfirst, Option.bind_eq_bind, Option.bind_some, hbody]
        rfl
      · rw [if_neg Bool.false_ne_true, List.append_nil, List.append_assoc]
    · refine .inr ⟨hterm, first ++ body, ?_, ?_⟩
      · rw [List.cons_append, straightCode, hfirst, Option.bind_eq_bind, Option.bind_some, hbody]
        rfl
      · rw [if_neg Bool.false_ne_true, List.append_nil, List.append_assoc]

omit [MmioDevice D] in
theorem branchExec_inBlock (cpu : CpuState) (pc count : BitVec 64) {insn : Insn}
    (hdirect : ∀ opc rn, insn ≠ .branchReg opc rn) (at_ : BitVec 64) :
    branchExec { cpu with pc := pc, jitCount := count } insn at_ =
      ((branchExec cpu insn at_).1,
        { (branchExec cpu insn at_).2 with pc := pc, jitCount := count }) := by
  cases insn with
  | branchImm link offset => cases link <;> rfl
  | branchReg opc rn => exact absurd rfl (hdirect opc rn)
  | _ => rfl

/-- A direct branch at the end of the function leaves the interpreter's next PC. -/
theorem exec_lastBranch (h : At vu read entry g₀ n a g) (hn : n + 1 < 2 ^ 64) {insn : Insn}
    (hinsn : decode (read a) = insn) (hbranch : isBranch insn = true)
    (hdirect : ∀ opc rn, insn ≠ .branchReg opc rn) {code : List Instr}
    (hcode : lowerTerminator insn a entry = some code)
    (hready : Ready L g₀.mem.ram.size.toNat l) (hbase : l 7 = .i64 g₀.cpu.pc) :
    (exec fuel code ⟨st, l, inBlock L stale g₀.cpu.pc (BitVec.ofNat 64 (n + 1)) g⟩).Ends
      (Returned vu read entry g₀ L stale) (Returned vu read entry g₀ L stale) := by
  have hready : Ready L g.mem.ram.size.toNat l := by
    rw [h.ramSize]
    exact hready
  obtain ⟨code', hcode', hrun⟩ : ∃ code', lowerTerminator insn a entry = some code' ∧
      ∀ fuel st, exec fuel code'
          ⟨st, l, inBlock L stale g₀.cpu.pc (BitVec.ofNat 64 (n + 1)) g⟩ =
        .next ⟨.i64 (emittedNext _ insn (g₀.cpu.pc + (a - entry))) :: st, l,
          host L stale g.mem (branchExec _ insn (g₀.cpu.pc + (a - entry))).2⟩ :=
    exec_lowerTerminator hready hbase hbranch a entry
  obtain rfl : code' = code := Option.some.inj (hcode'.symm.trans hcode)
  have hemitted (cpu : CpuState) (pc : BitVec 64) :
      emittedNext cpu insn pc = (branchExec cpu insn pc).1.getD (pc + 4) :=
    (emittedNext_eq_iff cpu insn pc).mpr fun h => absurd h (hdirect 1 30)
  -- the next PC as an address of the code
  have htarget : branchNext g.cpu insn g.cpu.pc = g₀.cpu.pc +
      (entry + (branchNext g.cpu insn g.cpu.pc - g₀.cpu.pc) - entry) := by bv_omega
  have h₁ := h.branch hinsn hbranch htarget
  rw [← htarget] at h₁
  rw [hrun, Outcome.ends_next, hemitted, branchExec_inBlock _ _ _ hdirect, ← h.pc]
  exact returned_exit h₁ hn st l

/-- The function of a single block. -/
theorem emitBody_returns {block : Block} (hstart : block.start = entry)
    (hshape : Shaped vecLowering read entry [block])
    (hlowers : RegionLowers vu read entry g₀ L stale vecLowering [block])
    (hdirect : ∀ p ∈ block.insns, ∀ opc rn, p.2 ≠ .branchReg opc rn)
    (hno : g₀.cpu.pendingAbort = none) (hwf : L.Wf g₀.mem.ram.size.toNat) {code : List Instr}
    (hcode : emitBody L vecLowering block g₀.mem.ram.base g₀.mem.ram.size = some code) :
    (exec fuel code ⟨[], blockLocals L, host L stale g₀.mem g₀.cpu⟩).Ends
      (Returned vu read entry g₀ L stale) (Returned vu read entry g₀ L stale) := by
  subst hstart
  have hmem : block ∈ [block] := List.mem_singleton_self block
  have hlength := hshape.length block hmem
  have hcodeAt := hshape.code block hmem
  obtain ⟨init, ⟨pc, term⟩, hcat, hinit, hlast⟩ := (hshape.compilable block hmem).eq_concat
  rw [hcat, List.length_append, List.length_singleton] at hlength
  rw [hcat] at hcodeAt
  obtain ⟨hinitAt, hpc⟩ := hcodeAt.concat
  obtain ⟨rfl, hterm⟩ := Prod.mk.inj hpc
  rw [emitBody, hcat, List.length_append, List.length_singleton] at hcode
  obtain ⟨insns, hinsns, hcode⟩ := Option.bind_eq_some_iff.mp hcode
  obtain rfl := Option.some.inj hcode
  set l := Function.update (blockLocals L) 7 (.i64 g₀.cpu.pc) with hl
  have hready : Ready L g₀.mem.ram.size.toNat l :=
    (ready_update (by decide)).mpr (ready_blockLocals hwf)
  have hcount : CountOk none l 0 := rfl
  have hprologue : exec fuel (loadEntryPc ++ storeCountConst (BitVec.ofNat 64 (init.length + 1)))
        ⟨[], blockLocals L, host L stale g₀.mem g₀.cpu⟩ =
      .next ⟨[], l, inBlock L stale g₀.cpu.pc (BitVec.ofNat 64 (init.length + 1)) g₀⟩ := by
    rw [exec_append, exec_loadEntryPc (ready_blockLocals hwf), Outcome.bind_next]
    exact exec_storeCountConst hready _
  rw [exec_append, hprologue, Outcome.bind_next]
  obtain ⟨hterminator, body, last, hbody, hlastCode, rfl⟩ | ⟨hterminator, body, hbody, rfl⟩ :=
    blockInsns_concat hinsns
  · have hbranch : isBranch term = true := by
      refine hlast.resolve_left fun hadm => ?_
      rw [isTerminator_of_canInline hadm.2] at hterminator
      exact Bool.noConfusion hterminator
    have hinitMem : ∀ p ∈ init, p ∈ block.insns := fun p hp => hcat ▸ List.mem_append_left _ hp
    have hlastMem : (block.start + BitVec.ofNat 64 (4 * init.length), term) ∈ block.insns :=
      hcat ▸ List.mem_append_right _ (List.mem_singleton_self _)
    have hstraight : ∀ p ∈ init, isBranch p.2 = false := fun p hp =>
      isBranch_of_canInline (hinit p hp).2
    rw [exec_append]
    refine (straight_ends (i := 0) hlowers hmem hinitMem hstraight hinitAt (at_zero hno) (by omega)
      hbody hready rfl hcount).bind ?_
    rintro ⟨stack, locals, mem⟩ ⟨hst, hkeeps, g', h', hmem'⟩
    dsimp only at hst hkeeps hmem'
    subst hmem'
    rw [Nat.add_zero, Nat.zero_add] at h'
    exact exec_lastBranch h' (by omega) hterm.symm hbranch (hdirect _ hlastMem) hlastCode
      (hkeeps.ready hready) (hkeeps 7 rfl)
  · have hadm : Admitted term := by
      refine hlast.resolve_right fun hbranch => ?_
      rw [isTerminator_of_isBranch hbranch] at hterminator
      exact Bool.noConfusion hterminator
    have hall : ∀ p ∈ init ++ [(block.start + BitVec.ofNat 64 (4 * init.length), term)],
        isBranch p.2 = false := by
      intro p hp
      obtain hp | hp := List.mem_append.mp hp
      · exact isBranch_of_canInline (hinit p hp).2
      · rw [List.mem_singleton.mp hp]
        exact isBranch_of_canInline hadm.2
    rw [exec_append]
    refine (straight_ends (i := 0) hlowers hmem (fun p hp => hcat ▸ hp) hall hcodeAt (at_zero hno)
      (by rw [List.length_append, List.length_singleton]; omega) hbody hready rfl hcount).bind ?_
    rintro ⟨stack, locals, mem⟩ ⟨hst, hkeeps, g', h', hmem'⟩
    dsimp only at hst hkeeps hmem'
    subst hmem'
    have hpc0 : locals 7 = .i64 g₀.cpu.pc := hkeeps 7 rfl
    rw [Nat.add_zero, Nat.zero_add, List.length_append, List.length_singleton,
      add_ofNat_succ] at h'
    rw [exec_genRelPc hpc0, Outcome.ends_next, ← h'.pc]
    exact returned_exit h' (by omega) stack locals

/-! ## Regions of integer instructions -/

theorem admitted_or_branch {block : Block} (h : Compilable vecLowering block)
    {p : BitVec 64 × Insn} (hp : p ∈ block.insns) : Admitted p.2 ∨ isBranch p.2 = true := by
  obtain ⟨init, last, hcat, hinit, hlast⟩ := h.eq_concat
  rw [hcat] at hp
  obtain hp | hp := List.mem_append.mp hp
  · exact .inl (hinit p hp)
  · rw [List.mem_singleton.mp hp]
    exact hlast

/-- In a region of integer data processing and branches, every instruction agrees. -/
theorem regionLowers_dataProc {blocks : List Block} (L : Layout) (stale : Flags)
    (hshape : Shaped vecLowering read entry blocks) (hno : g₀.cpu.pendingAbort = none)
    (hclass : ∀ b ∈ blocks, ∀ p ∈ b.insns, isBranch p.2 = false → IsIntDataProc p.2) :
    RegionLowers vu read entry g₀ L stale vecLowering blocks := by
  intro n g hsteps b hb p hp hstraight _ i countBase
  have hadm : Admitted p.2 := by
    refine (admitted_or_branch (hshape.compilable b hb) hp).resolve_right fun hbranch => ?_
    rw [hstraight] at hbranch
    exact Bool.noConfusion hbranch
  exact lowers_dataProc L stale vecLowering vu hadm.1 (hclass b hb p hp hstraight) hadm.2 _ _
    (noAbort_codeSteps hsteps hno)

/-! ## Every region -/

theorem Returned.simulated {s : State (HostMem D)} (h : Returned vu read entry g₀ L stale s) :
    Simulated vu read entry g₀ L stale s := by
  refine ⟨h, fun hfetch => ?_⟩
  obtain ⟨n, g, exit, hsteps, hrest⟩ := h
  refine ⟨n, g, exit, ?_, hrest⟩
  show Interp.steps vu n g₀ = some g
  rw [steps_eq_codeSteps vu fun k _ g' hg' => hfetch k g' hg']
  exact hsteps

/-- The function that is emitted for a region, run from its start. -/
theorem emitRegion_returns {region : Region} (hentry : region.entry = entry)
    (hshape : Shaped vecLowering read entry region.blocks)
    (hdirect : ∀ b ∈ region.blocks, ∀ p ∈ b.insns, ∀ opc rn, p.2 ≠ .branchReg opc rn)
    (hlowers : RegionLowers vu read entry g₀ L stale vecLowering region.blocks)
    (hno : g₀.cpu.pendingAbort = none) (hwf : L.Wf g₀.mem.ram.size.toNat)
    (hfuel : maxRegionIters < fuel) {code : List Instr}
    (hcode : emitRegion L vecLowering region g₀.mem.ram.base g₀.mem.ram.size = some code) :
    (exec fuel code ⟨[], blockLocals L, host L stale g₀.mem g₀.cpu⟩).Ends
      (Returned vu read entry g₀ L stale) (Returned vu read entry g₀ L stale) := by
  have hloop (hbody : emitRegionBody L vecLowering region g₀.mem.ram.base g₀.mem.ram.size =
      some code) :=
    emitRegionBody_returns hentry hshape hlowers hdirect hno hwf hfuel hbody
  unfold emitRegion at hcode
  split at hcode
  · next b hb =>
    split_ifs at hcode
    · exact hloop hcode
    · rw [hb] at hshape hlowers hdirect
      exact emitBody_returns (hshape.first b rfl) hshape hlowers
        (hdirect b (List.mem_singleton_self b)) hno hwf hcode
  · exact hloop hcode

end Sim

/-- **Region dispatch.** For every region that discovery returns, from any start and with any
    limits, whose branches are direct, and for every entry state: if each straight-line
    instruction agrees with the interpreter or bails where the interpreter reaches it, the
    emitted function returns, with a count `n`, the interpreter's state after `n` instructions
    and the PC of that state. -/
theorem emitRegion_simulates {D : Type} [MmioDevice D] (vu : VecUnit)
    (read : BitVec 64 → BitVec 32) (start : BitVec 64) (maxBlocks maxBlockLen : ℕ)
    (g : Guest (Bus D)) (hno : g.cpu.pendingAbort = none) (L : Layout)
    (hwf : L.Wf g.mem.ram.size.toNat) (stale : Flags) {region : Region}
    (hregion : formRegion vecLowering start maxBlocks maxBlockLen read = region)
    (hdirect : ∀ b ∈ region.blocks, ∀ p ∈ b.insns, ∀ opc rn, p.2 ≠ .branchReg opc rn)
    (hlowers : RegionLowers vu read start g L stale vecLowering region.blocks) :
    ∃ code, emitRegion L vecLowering region g.mem.ram.base g.mem.ram.size = some code ∧
      ∀ fuel, maxRegionIters < fuel →
        (exec fuel code ⟨[], blockLocals L, host L stale g.mem g.cpu⟩).Ends
          (Simulated vu read start g L stale) (Simulated vu read start g L stale) := by
  subst hregion
  have hshape := shaped_formRegion vecLowering start maxBlocks maxBlockLen read
  obtain ⟨code, hcode⟩ := Option.isSome_iff_exists.mp (emitRegion_isSome L g.mem.ram.base
    g.mem.ram.size hshape.compilable)
  refine ⟨code, hcode, fun fuel hfuel => ?_⟩
  have hreturned := emitRegion_returns rfl hshape hdirect hlowers hno hwf hfuel hcode
  exact hreturned.mono (fun s hs => hs.simulated) fun s hs => hs.simulated

/-- `subs x0, x0, #1` at `0x1000`, then `b.ne` back to it. -/
def countdown (a : BitVec 64) : BitVec 32 :=
  if a = 0x1000 then 0xf1000400 else if a = 0x1004 then 0x54ffffe1 else 0

theorem decode_countdown (a : BitVec 64) :
    decode (countdown a) = decode 0xf1000400#32 ∨ decode (countdown a) = decode 0x54ffffe1#32 ∨
      decode (countdown a) = .unsupported 0 := by
  unfold countdown
  split_ifs
  · exact .inl rfl
  · exact .inr (.inl rfl)
  · exact .inr (.inr rfl)

/-- The instructions of a region formed from that code. -/
theorem countdown_insn {blocks : List Block} {entry : BitVec 64}
    (h : Shaped vecLowering countdown entry blocks) {b : Block} (hb : b ∈ blocks)
    {p : BitVec 64 × Insn} (hp : p ∈ b.insns) :
    p.2 = decode 0xf1000400#32 ∨ p.2 = decode 0x54ffffe1#32 := by
  have hdecode := (h.code b hb).mem hp
  obtain hword | hword | hword := decode_countdown p.1
  · exact .inl (hdecode.trans hword)
  · exact .inr (hdecode.trans hword)
  · rw [hword] at hdecode
    obtain hadm | hbranch := admitted_or_branch (h.compilable b hb) hp
    · rw [hdecode] at hadm
      cases hadm.2
    · rw [hdecode] at hbranch
      cases hbranch

/-- The loop, entered at `0x7000` with 3 in X0. -/
theorem emitRegion_simulates_countdown :
    let region := formRegion vecLowering 0x1000 16 256 countdown
    let g : Guest (Bus Empty) := ⟨{ CpuState.new.writeGpr 0 false 3 with pc := 0x7000 }, emptyBus⟩
    ∃ code, emitRegion layoutAt0 vecLowering region 0 0 = some code ∧
      ∀ fuel, maxRegionIters < fuel →
        (exec fuel code
            ⟨[], blockLocals layoutAt0, host layoutAt0 Flags.default emptyBus g.cpu⟩).Ends
          (Simulated noVecUnit countdown 0x1000 g layoutAt0 Flags.default)
          (Simulated noVecUnit countdown 0x1000 g layoutAt0 Flags.default) := by
  intro region g
  have hshape : Shaped vecLowering countdown 0x1000 region.blocks :=
    shaped_formRegion vecLowering 0x1000 16 256 countdown
  refine emitRegion_simulates noVecUnit countdown 0x1000 16 256 g rfl layoutAt0 wf_layoutAt0
    Flags.default rfl ?_ ?_
  · intro b hb p hp opc rn heq
    obtain hinsn | hinsn := countdown_insn hshape hb hp <;>
    · rw [hinsn] at heq
      cases heq
  · refine regionLowers_dataProc layoutAt0 Flags.default hshape rfl ?_
    intro b hb p hp hstraight
    obtain hinsn | hinsn := countdown_insn hshape hb hp
    · rw [hinsn]
      trivial
    · rw [hinsn] at hstraight
      cases hstraight

end V64.Jit
