import V64.Interp.Steady
import V64.Jit.Lower.Atomic
import V64.Jit.Lower.LoadStore
import V64.Jit.Lower.SimdAgree
import V64.Jit.RegionRun

/-!
# Regions of integer and vector code

Every instruction that is compiled inline agrees with the interpreter or bails in every state
of a run of the machine, but for those of the scalar floating-point unit, whose executors are
not modelled. So a region without them needs no assumption about its code.

* `lowers_memory`, `lowers_simd`, `lowers_idle`: the classes of instructions.
* `regionLowers_integer`: every instruction of such a region agrees or bails.
* `emitRegion_of_run`: its function, entered in any state of any run of the machine.
-/

namespace V64.Jit

open V64.Cpu V64.Decoder V64.Interp V64.Interp.Simd V64.Platform Checked Runs Wasm

variable {D : Type} [MmioDevice D]

/-! ## Classes of instructions -/

section Classes

variable {L : Layout} {stale : Flags} {vu : VecUnit} {insn : Insn} {site : Site}
  {base : BitVec 64} {g : Guest (Bus D)}

/-- A load, a store or an atomic agrees or bails. -/
theorem lowers_memory (vl : VecLowering) (hfields : FieldsOk insn)
    (hmem : isInlineMem insn = true) (hg : RunState g)
    (hflag : g.cpu.exclValid = 0 ∨ g.cpu.exclValid = 1) :
    Lowers L stale vl vu insn site base g := by
  apply lowers_of_emits
  intro l count retired hready hsite
  have hput : RunState (g.aside (blockAside base count)) :=
    ⟨hg.noAbort, hg.ramWf, hg.base, hg.size, hg.aligned, hg.off⟩
  by_cases hatomic : isInlineAtomic insn = true
  · have hlower : lowerInsn L vl insn site = lowerAtomic L insn site := by
      cases insn <;> first | exact absurd hatomic Bool.false_ne_true | exact if_pos hatomic
    rw [hlower]
    exact inlineAtomic_ends vu hatomic hready hsite hput hflag
  · have hload : isInlineLoadStore insn = true ∨ isInlineLoadStorePair insn = true := by
      unfold isInlineMem at hmem
      rw [Bool.eq_false_of_not_eq_true hatomic, Bool.or_false, Bool.or_eq_true] at hmem
      exact hmem
    have hlower : lowerInsn L vl insn site = lowerLoadStore L insn site := by
      unfold lowerInsn lowerLoadStore
      obtain hone | hpair := hload
      · rw [if_pos hone, if_pos hone]
      · rw [if_pos hpair]
    rw [hlower]
    exact inlineLoadStore_ends vu hfields hload hready hsite hput

/-- NOP and PRFM are no code. -/
theorem lowers_idle (vl : VecLowering) (h : insn = .nop ∨ insn = .prfm)
    (hno : g.cpu.pendingAbort = none) : Lowers L stale vl vu insn site base g := by
  apply lowers_of_emits
  intro l count retired hready hsite
  obtain rfl | rfl := h <;>
  · exact ⟨[], _, rfl, rfl, fun fuel st => ⟨rfl, keeps_refl l, rfl, hno⟩⟩

/-- Integer vector code agrees, whatever the floating-point executors are. -/
theorem lowers_simd (t : Target) (rest : VecUnit) (hfields : FieldsOk insn)
    (hvec : VecFieldsOk insn) (hlanes : LaneFieldsOk insn) (hinline : isInlineSimd insn = true)
    (hno : g.cpu.pendingAbort = none) :
    Lowers L stale vecLowering (intUnit t rest) insn site base g := by
  apply lowers_of_emits
  intro l count retired hready hsite
  obtain ⟨code, w, hcode, hexecute, hemits⟩ := inlineSimd_agrees t rest hfields hvec hlanes hinline
    (g.aside (blockAside base count)) L hready.wf stale (site.at base) site.entryPc
  have hlower : lowerInsn L vecLowering insn site =
      lowerSequential vecLowering insn site.pc site.entryPc := by
    cases insn <;> first | rfl | exact absurd hinline Bool.false_ne_true
  refine ⟨code, _, hlower.trans (hcode site.pc), hexecute, fun fuel st => ?_⟩
  show (exec fuel code ⟨st, l, host L stale (g.aside (blockAside base count)).mem
    (g.aside (blockAside base count)).cpu⟩).Ends _ _
  rw [hemits fuel st l hready.regs, Outcome.ends_next]
  exact ⟨rfl, keeps_refl l, rfl, hno⟩

/-- What the compiler admits besides the instructions of the floating-point unit. -/
theorem canInline_cases (h : canInline vecLowering insn = true) (hfp : isInlineFp insn = false) :
    isInlineMem insn = true ∨ IsIntDataProc insn ∨ (insn = .nop ∨ insn = .prfm) ∨
      isInlineSimd insn = true := by
  have hvec (h : isInlineSimd insn || isInlineFp insn) : isInlineSimd insn = true := by
    rw [hfp, Bool.or_false] at h
    exact h
  unfold canInline at h
  obtain hmem | h := Bool.or_eq_true_iff.mp h
  · exact .inl hmem
  · cases insn with
    | nop => exact .inr (.inr (.inl (.inl rfl)))
    | prfm => exact .inr (.inr (.inl (.inr rfl)))
    | moveWide | addSubImm | addSubShiftedReg | addSubExtReg | addSubCarry | logicalImm
    | logicalShiftedReg | bitfield | extract | pcRel | condSelect | condCompare | dataProc1Src
    | dataProc2Src | dataProc3Src => exact .inr (.inl trivial)
    | _ => exact .inr (.inr (.inr (hvec h)))

end Classes

/-! ## Whole regions -/

section Regions

variable {mem : Bus D} (hwf : mem.RamWf) (hbase : mem.ram.base.toNat % 4096 = 0)
  (hsize : mem.ram.size.toNat % 4096 = 0)

include hwf hbase hsize

omit [MmioDevice D] in
/-- Every state between two events is one that emitted code can run in. -/
theorem runState_of_between {g : Guest (Bus D)} (h : Between (SameRam mem) g) : RunState g := by
  obtain ⟨hramBase, hramSize⟩ := h.mem
  refine ⟨h.noAbort, ?_, ?_, ?_, h.aligned, h.off⟩
  · show g.mem.ram.base.toNat + g.mem.ram.size.toNat < 2 ^ 64
    rw [hramBase, hramSize]
    exact hwf
  · rw [hramBase]
    exact hbase
  · rw [hramSize]
    exact hsize

/-- In a region without floating point, every instruction agrees or bails, from a state between
    two events on. -/
theorem regionLowers_integer (t : Target) (rest : VecUnit) {read : BitVec 64 → BitVec 32}
    {entry : BitVec 64} {g₀ : Guest (Bus D)} (h₀ : Between (SameRam mem) g₀) (L : Layout)
    (stale : Flags) {blocks : List Block} (hshape : Shaped vecLowering read entry blocks)
    (hfp : ∀ b ∈ blocks, ∀ p ∈ b.insns, isInlineFp p.2 = false) :
    RegionLowers (intUnit t rest) read entry g₀ L stale vecLowering blocks := by
  intro n g hsteps b hb p hp hstraight _ i countBase
  have hbetween : Between (SameRam mem) g := h₀.codeSteps (memKept_sameRam mem) hsteps
  have hadm : Admitted p.2 := by
    refine (admitted_or_branch (hshape.compilable b hb) hp).resolve_right fun hbranch => ?_
    rw [hstraight] at hbranch
    exact Bool.noConfusion hbranch
  obtain hmem | hint | hidle | hsimd := canInline_cases hadm.2 (hfp b hb p hp)
  · exact lowers_memory vecLowering hadm.1 hmem (runState_of_between hwf hbase hsize hbetween)
      hbetween.exclFlag
  · exact lowers_dataProc L stale vecLowering _ hadm.1 hint hadm.2 _ _ hbetween.noAbort
  · exact lowers_idle vecLowering hidle hbetween.noAbort
  · have hword : p.2 = decode (read p.1) := (hshape.code b hb).mem hp
    rw [hword] at hsimd ⊢
    exact lowers_simd t rest (fieldsOk_decode _) (vecFieldsOk_decode _) (laneFieldsOk_decode _)
      hsimd hbetween.noAbort

end Regions

/-- **Compiled code in a running machine.** Over RAM of whole pages, and for every region that
    discovery returns, from any start and with any limits, whose branches are direct and which has
    no instruction of the floating-point unit: in every state that the machine reaches from reset,
    by any events, the emitted function returns, with a count `n`, the interpreter's state after
    `n` instructions and the PC of that state. -/
theorem emitRegion_of_run (t : Target) (rest : VecUnit) {mem : Bus D} (hwf : mem.RamWf)
    (hbase : mem.ram.base.toNat % 4096 = 0) (hsize : mem.ram.size.toNat % 4096 = 0)
    {events : List MachineEvent} {g : Guest (Bus D)}
    (hrun : Run (KeptStep (SameRam mem) (intUnit t rest)) (Guest.reset mem) events g)
    (read : BitVec 64 → BitVec 32) (start : BitVec 64) (maxBlocks maxBlockLen : ℕ) (L : Layout)
    (hL : L.Wf mem.ram.size.toNat) (stale : Flags) {region : Region}
    (hregion : formRegion vecLowering start maxBlocks maxBlockLen read = region)
    (hdirect : ∀ b ∈ region.blocks, ∀ p ∈ b.insns, ∀ opc rn, p.2 ≠ .branchReg opc rn)
    (hfp : ∀ b ∈ region.blocks, ∀ p ∈ b.insns, isInlineFp p.2 = false) :
    ∃ code, emitRegion L vecLowering region mem.ram.base mem.ram.size = some code ∧
      ∀ fuel, maxRegionIters < fuel →
        (exec fuel code ⟨[], blockLocals L, host L stale g.mem g.cpu⟩).Ends
          (Simulated (intUnit t rest) read start g L stale)
          (Simulated (intUnit t rest) read start g L stale) := by
  subst hregion
  have hshape := shaped_formRegion vecLowering start maxBlocks maxBlockLen read
  have hbetween : Between (SameRam mem) g :=
    between_of_run (memKept_sameRam mem) (between_reset ⟨rfl, rfl⟩) hrun
  have hlowers := regionLowers_integer hwf hbase hsize t rest hbetween L stale hshape hfp
  obtain ⟨hramBase, hramSize⟩ := hbetween.mem
  rw [← hramBase, ← hramSize]
  rw [← hramSize] at hL
  obtain ⟨code, hcode⟩ := Option.isSome_iff_exists.mp (emitRegion_isSome L g.mem.ram.base
    g.mem.ram.size hshape.compilable)
  refine ⟨code, hcode, fun fuel hfuel => ?_⟩
  have hreturned := emitRegion_returns rfl hshape hdirect hlowers hbetween.noAbort hL hfuel hcode
  exact hreturned.mono (fun s hs => hs.simulated) fun s hs => hs.simulated

/-- `ldadd x2, x3, [x1]`, `zip2 v1.8h, v1.8h, v2.8h` and a branch back to the first. -/
def mixedLoop (a : BitVec 64) : BitVec 32 :=
  if a = 0 then 0xf8220023 else if a = 4 then 0x4e427821 else if a = 8 then 0x17fffffe else 0

theorem decode_mixedLoop (a : BitVec 64) :
    decode (mixedLoop a) = decode 0xf8220023#32 ∨ decode (mixedLoop a) = decode 0x4e427821#32 ∨
      decode (mixedLoop a) = decode 0x17fffffe#32 ∨ decode (mixedLoop a) = .unsupported 0 := by
  unfold mixedLoop
  split_ifs
  · exact .inl rfl
  · exact .inr (.inl rfl)
  · exact .inr (.inr (.inl rfl))
  · exact .inr (.inr (.inr rfl))

/-- A page of RAM with that code. -/
def mixedBus : Bus Empty where
  ram := {
    base := 0
    size := 0x1000
    bytes := fun a => (mixedLoop (BitVec.ofNat 64 (a - a % 4)) >>> (8 * (a % 4))).setWidth 8 }
  devices := []

/-- The function of the loop, entered after the interpreter has been once around it. -/
theorem emitRegion_of_run_mixedLoop : ∃ g,
    steps (intUnit Target.release64 noVecUnit) 3 (Guest.reset mixedBus) = some g ∧
      g.cpu.pc = 0 ∧ ∃ code,
        emitRegion pageLayout vecLowering (formRegion vecLowering 0 16 256 mixedLoop) 0 0x1000 =
          some code ∧
        ∀ fuel, maxRegionIters < fuel →
          (exec fuel code
              ⟨[], blockLocals pageLayout, host pageLayout Flags.default g.mem g.cpu⟩).Ends
            (Simulated (intUnit Target.release64 noVecUnit) mixedLoop 0 g pageLayout Flags.default)
            (Simulated (intUnit Target.release64 noVecUnit) mixedLoop 0 g pageLayout
              Flags.default) := by
  obtain ⟨g, hsteps, hpc⟩ : ∃ g,
      steps (intUnit Target.release64 noVecUnit) 3 (Guest.reset mixedBus) = some g ∧
        g.cpu.pc = 0 := ⟨_, rfl, rfl⟩
  have hrun : Run (KeptStep (SameRam mixedBus) (intUnit Target.release64 noVecUnit))
      (Guest.reset mixedBus) (List.replicate 3 .insn) g :=
    keptRun_of_steps hsteps
  have hshape := shaped_formRegion vecLowering 0 16 256 mixedLoop
  have hinsn (b : Block) (hb : b ∈ (formRegion vecLowering 0 16 256 mixedLoop).blocks)
      (p : BitVec 64 × Insn) (hp : p ∈ b.insns) : p.2 = decode 0xf8220023#32 ∨
        p.2 = decode 0x4e427821#32 ∨ p.2 = decode 0x17fffffe#32 := by
    have hdecode := (hshape.code b hb).mem hp
    obtain hword | hword | hword | hword := decode_mixedLoop p.1
    · exact .inl (hdecode.trans hword)
    · exact .inr (.inl (hdecode.trans hword))
    · exact .inr (.inr (hdecode.trans hword))
    · rw [hword] at hdecode
      obtain hadm | hbranch := admitted_or_branch (hshape.compilable b hb) hp
      · rw [hdecode] at hadm
        cases hadm.2
      · rw [hdecode] at hbranch
        cases hbranch
  have hwf : mixedBus.RamWf := by
    unfold Bus.RamWf
    decide
  refine ⟨g, hsteps, hpc, emitRegion_of_run Target.release64 noVecUnit hwf rfl rfl hrun mixedLoop
    0 16 256 pageLayout wf_pageLayout Flags.default rfl ?_ ?_⟩
  · intro b hb p hp opc rn heq
    obtain hword | hword | hword := hinsn b hb p hp <;>
    · rw [hword] at heq
      cases heq
  · intro b hb p hp
    obtain hword | hword | hword := hinsn b hb p hp <;>
    · rw [hword]
      rfl

end V64.Jit
