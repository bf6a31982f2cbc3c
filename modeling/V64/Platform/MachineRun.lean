import V64.Interp.Steady
import V64.Lib.LoopJumps
import V64.Platform.Machine

/-!
# The loop of the machine as events

A pass of the loop of `run` is some of the events of `MachineStep`, so what holds between any
two events holds between any two passes.

* `Machine.KeepsMem`: the controller and the devices keep an invariant of the memory.
* `Machine.reaches_runPass`: a pass is some events, the last of which may be refused.
* `Machine.always_between`: what every event keeps, over whole runs of the machine.
-/

namespace V64.Platform

open Checked Loops Runs V64.Cpu V64.Interp

/-! ## A machine with a device -/

/-- RAM and the controller, which is in no window. -/
structure BareBoard where
  gic : Gic
  bus : Bus Empty

instance : GicMem BareBoard where
  readU8 b addr := let r := GuestMem.readU8 b.bus addr; (r.1, { b with bus := r.2 })
  readU16 b addr := let r := GuestMem.readU16 b.bus addr; (r.1, { b with bus := r.2 })
  readU32 b addr := let r := GuestMem.readU32 b.bus addr; (r.1, { b with bus := r.2 })
  readU64 b addr := let r := GuestMem.readU64 b.bus addr; (r.1, { b with bus := r.2 })
  writeU8 b addr val := { b with bus := GuestMem.writeU8 b.bus addr val }
  writeU16 b addr val := { b with bus := GuestMem.writeU16 b.bus addr val }
  writeU32 b addr val := { b with bus := GuestMem.writeU32 b.bus addr val }
  writeU64 b addr val := { b with bus := GuestMem.writeU64 b.bus addr val }
  gic b := b.gic
  setGic b g := { b with gic := g }
  gic_setGic _ _ := rfl

/-- No access of the board moves its RAM. -/
theorem memKept_board (b : Bus Empty) : MemKept fun board : BareBoard => SameRam b board.bus where
  readU8 m a := sameRam_load b m.bus a 1
  readU16 m a := sameRam_load b m.bus a 2
  readU32 m a := sameRam_load b m.bus a 4
  readU64 m a := sameRam_load b m.bus a 8
  writeU8 m a _ := sameRam_store b m.bus a 1 _
  writeU16 m a _ := sameRam_store b m.bus a 2 _
  writeU32 m a _ := sameRam_store b m.bus a 4 _
  writeU64 m a v := sameRam_store b m.bus a 8 v

/-- RAM whose code is `b .`, a clock that runs, and a device that writes into RAM when it is
    polled. -/
def dmaMachine : Machine BareBoard :=
  (Machine.withClock (Guest.reset ⟨Gic.new, ⟨⟨0, 0x1000, fun a => if a % 4 = 3 then 0x14 else 0⟩,
    []⟩⟩) (BitVec.ofNat 64) 62500000).addDma
    fun b => some { b with bus := b.bus.store 0x800 8 7 }

namespace Machine

variable {M : Type} [GicMem M] {P : M → Prop} {vu : VecUnit} {t : Target}

/-- What the machine itself does to the bus keeps `P`: the lines that it drives, and the polls
    of its devices. -/
structure KeepsMem (P : M → Prop) (m : Machine M) : Prop where
  gic : ∀ mem g, P mem → P (GicMem.setGic mem g)
  dma : ∀ dev ∈ m.dma, ∀ mem mem', P mem → dev mem = some mem' → P mem'

/-- The CPU and the bus of `m'` are those of `m` after some events, and the devices are the
    same. -/
structure Reaches (P : M → Prop) (vu : VecUnit) (m m' : Machine M) : Prop where
  run : ∃ events, Run (KeptStep P vu) m.guest events m'.guest
  dma : m'.dma = m.dma

theorem Reaches.refl (m : Machine M) : Reaches P vu m m := ⟨⟨[], .nil _⟩, rfl⟩

theorem Reaches.trans {m m' m'' : Machine M} (h : Reaches P vu m m') (h' : Reaches P vu m' m'') :
    Reaches P vu m m'' := by
  obtain ⟨events, hrun⟩ := h.run
  obtain ⟨events', hrun'⟩ := h'.run
  exact ⟨⟨events ++ events', hrun.append hrun'⟩, h'.dma.trans h.dma⟩

/-- The next instruction after some events has no implementation, and the guest does not get
    it. -/
def Refused (P : M → Prop) (vu : VecUnit) (m m' : Machine M) : Prop :=
  ∃ m₁ pc word, Reaches P vu m m₁ ∧ step vu m₁.guest = some (.unsupported pc word, m'.guest)

theorem Refused.of_reaches {m m' m'' : Machine M} (h : Refused P vu m' m'')
    (hreach : Reaches P vu m m') : Refused P vu m m'' := by
  obtain ⟨m₁, pc, word, hreach', hstep⟩ := h
  exact ⟨m₁, pc, word, hreach.trans hreach', hstep⟩

theorem Reaches.keepsMem {m m' : Machine M} (h : Reaches P vu m m') (hkeeps : m.KeepsMem P) :
    m'.KeepsMem P := by
  refine ⟨hkeeps.gic, ?_⟩
  rw [h.dma]
  exact hkeeps.dma

/-- An event that is no access of a device. -/
theorem Reaches.of_step {m m' : Machine M} {e : MachineEvent}
    (h : MachineStep vu m.guest e m'.guest) (he : e ≠ .devices) (hdma : m'.dma = m.dma) :
    Reaches P vu m m' :=
  ⟨⟨[e], .cons ⟨h, fun hdevices => absurd hdevices he⟩ (.nil _)⟩, hdma⟩

theorem reaches_setMem (m : Machine M) {mem : M} (h : P m.guest.mem → P mem) :
    Reaches P vu m (m.setMem mem) :=
  ⟨⟨[.devices], .cons ⟨.devices m.guest mem, fun _ => h⟩ (.nil _)⟩, rfl⟩

/-! ## The parts of a pass -/

section Parts

variable {m : Machine M} (hkeeps : m.KeepsMem P)

include hkeeps

theorem reaches_driveLine (line : Bool × BitVec 32) : Reaches P vu m (m.driveLine line) :=
  reaches_setMem m (hkeeps.gic _ _)

theorem reaches_advanceTimers : Reaches P vu m m.advanceTimers := by
  have hcount : Reaches P vu m m.sampleCount := .of_step (.timer m.guest m.now.1) (by decide) rfl
  have hvirt := hcount.trans (reaches_driveLine (hcount.keepsMem hkeeps)
    (virtualFires m.sampleCount.guest.cpu, ppiVirtTimer))
  exact hvirt.trans (reaches_driveLine (hvirt.keepsMem hkeeps)
    (physicalFires m.sampleCount.guest.cpu, ppiPhysTimer))

omit [GicMem M] hkeeps in
theorem keeps_poll {dma : List (M → Option M)}
    (h : ∀ dev ∈ dma, ∀ mem mem', P mem → dev mem = some mem' → P mem') {mem mem' : M}
    (hpoll : dma.foldlM pollDevice mem = some mem') (hmem : P mem) : P mem' := by
  induction dma generalizing mem with
  | nil =>
    cases hpoll
    exact hmem
  | cons dev dma ih =>
    rw [List.foldlM_cons] at hpoll
    obtain ⟨mem₁, hdev, hrest⟩ := Option.bind_eq_some_iff.mp hpoll
    have hfirst : P mem₁ := h dev List.mem_cons_self mem mem₁ hmem hdev
    exact ih (fun d hd => h d (List.mem_cons_of_mem _ hd)) hrest hfirst

theorem reaches_sample {m' : Machine M} (h : m.sample = some m') : Reaches P vu m m' := by
  unfold sample at h
  split_ifs at h
  · have htimers : Reaches P vu m m.advanceTimers := reaches_advanceTimers hkeeps
    obtain ⟨mem, hpoll, rfl⟩ := Option.map_eq_some_iff.mp h
    have hdma := (htimers.keepsMem hkeeps).dma
    exact htimers.trans (reaches_setMem _ (keeps_poll hdma hpoll))
  · cases h
    exact .refl m

omit hkeeps in
theorem reaches_takeDeliverable (m : Machine M) : Reaches P vu m m.takeDeliverable := by
  unfold takeDeliverable
  split_ifs with hirq
  · have hmask : m.guest.cpu.daif &&& pstateI = 0 := by
      unfold irqDeliverable at hirq
      exact eq_of_beq (Bool.and_eq_true_iff.mp hirq).1
    exact .of_step (.irq hmask) (by decide) rfl
  · exact .refl m

theorem reaches_serviceAsync {m' : Machine M} (h : m.serviceAsync t = some m') :
    Reaches P vu m m' := by
  unfold serviceAsync at h
  simp only [Option.bind_eq_bind, Option.bind_eq_some_iff] at h
  obtain ⟨m₁, hsample, counter, -, counter', -, h⟩ := h
  cases h
  have hsampled : Reaches P vu m m₁ := reaches_sample hkeeps hsample
  have hcounter : Reaches P vu m { m₁ with timerCounter := counter' } :=
    ⟨hsampled.run, hsampled.dma⟩
  exact hcounter.trans (reaches_takeDeliverable _)

theorem reaches_noteIdle {r : Bool × Machine M} (h : m.noteIdle t = some r) :
    Reaches P vu m r.2 := by
  have htimers : Reaches P vu m m.advanceTimers := reaches_advanceTimers hkeeps
  unfold noteIdle at h
  dsimp only at h
  split_ifs at h
  · cases h
    exact htimers
  · obtain ⟨cap, -, h⟩ := Option.bind_eq_some_iff.mp h
    split at h <;>
    · cases h
      exact ⟨htimers.run, htimers.dma⟩

theorem reaches_endPass {executed : t.Usize} {p : Pass (Running t M)}
    (h : m.endPass t executed = some p) : Reaches P vu m (passState p).machine := by
  unfold endPass at h
  simp only [Option.bind_eq_bind, Option.bind_eq_some_iff] at h
  obtain ⟨executed', -, total, -, h⟩ := h
  have hwake : Reaches P vu m ({ m with totalInsns := total }.setCpu
      { m.guest.cpu with wfi := false }) := .of_step (.wake m.guest) (by decide) rfl
  split_ifs at h
  · cases h
    exact hwake
  · obtain ⟨⟨idle, m'⟩, hidle, h⟩ := Option.bind_eq_some_iff.mp h
    have hnote : Reaches P vu m m' :=
      hwake.trans (reaches_noteIdle (hwake.keepsMem hkeeps) hidle)
    cases idle <;>
    · cases h
      exact hnote
  · cases h
    exact ⟨(Reaches.refl m).run, rfl⟩

/-- The instruction and what follows it. -/
theorem reaches_insnPass {executed : t.Usize} {p : Pass (Running t M)}
    (h : m.insnPass t vu executed = some p) :
    Reaches P vu m (passState p).machine ∨ ∃ s, p = .leave s ∧ Refused P vu m s.machine := by
  obtain ⟨⟨s, m'⟩, hexec, h⟩ := Option.bind_eq_some_iff.mp h
  obtain ⟨⟨s', g⟩, hstep, hr⟩ := Option.map_eq_some_iff.mp hexec
  cases hr
  cases s' with
  | next pc =>
    have hinsn : Reaches P vu m { m with guest := g } := .of_step (.insn hstep) (by decide) rfl
    exact .inl (hinsn.trans (reaches_endPass (hinsn.keepsMem hkeeps) h))
  | unsupported pc word =>
    have hundef : Reaches P vu m
        (({ m with guest := g }.noteUndefined word pc).enterUndefined pc) :=
      .of_step (.undefined hstep) (by decide) rfl
    dsimp only at h
    split_ifs at h
    · exact .inl (hundef.trans (reaches_endPass (hundef.keepsMem hkeeps) h))
    · cases h
      exact .inr ⟨_, rfl, m, pc, word, .refl m, hstep⟩

end Parts

/-- A pass of the loop of `run` is some events of the machine, after which it may stop at an
    instruction without an implementation. -/
theorem reaches_runPass {stopPc : BitVec 64} {count : t.Usize} {s : Running t M}
    (hkeeps : s.machine.KeepsMem P) {p : Pass (Running t M)}
    (h : runPass t vu stopPc count s = some p) :
    Reaches P vu s.machine (passState p).machine ∨
      ∃ s', p = .leave s' ∧ Refused P vu s.machine s'.machine := by
  unfold runPass at h
  dsimp only at h
  split_ifs at h
  · cases h
    exact .inl (.refl _)
  · cases h
    exact .inl (.refl _)
  · cases h
    exact .inl (.refl _)
  · obtain ⟨m', hservice, h⟩ := Option.bind_eq_some_iff.mp h
    have hreach : Reaches P vu s.machine m' := reaches_serviceAsync hkeeps hservice
    obtain hrest | ⟨s', rfl, hrefused⟩ := reaches_insnPass (hreach.keepsMem hkeeps) h
    · exact .inl (hreach.trans hrest)
    · exact .inr ⟨s', rfl, hrefused.of_reaches hreach⟩

/-! ## Whole runs -/

section Runs

variable {m : Machine M} (hkeeps : m.KeepsMem P) (stopPc : BitVec 64) (count : t.Usize)

include hkeeps

theorem always_reaches :
    Always (runPass t vu stopPc count) (fun s : Running t M => Reaches P vu m s.machine)
      (m.start t) := by
  have hstep (s s' : Running t M) (hs : Reaches P vu m s.machine)
      (hpass : runPass t vu stopPc count s = some (.again s')) : Reaches P vu m s'.machine := by
    obtain hrest | ⟨_, hleave, -⟩ := reaches_runPass (hs.keepsMem hkeeps) hpass
    · exact hs.trans hrest
    · cases hleave
  have hstart : Reaches P vu m (m.start t).machine := ⟨(Reaches.refl m).run, rfl⟩
  exact Always.of_inv (fun s : Running t M => Reaches P vu m s.machine) (fun s hs => hs) hstep
    hstart

/-- The machine that `run` returns. -/
theorem reaches_run {fuel : ℕ} {s : Running t M} (hrun : m.run t vu stopPc count fuel = .done s) :
    Reaches P vu m s.machine ∨ Refused P vu m s.machine := by
  obtain ⟨n, -, s₁, hvisits, hleave⟩ := run_eq_done_iff.mp hrun
  have hfirst : Reaches P vu m s₁.machine := always_reaches hkeeps stopPc count n s₁ hvisits
  obtain hrest | ⟨s', heq, hrefused⟩ := reaches_runPass (hfirst.keepsMem hkeeps) hleave
  · exact .inl (hfirst.trans hrest)
  · cases heq
    exact .inr (hrefused.of_reaches hfirst)

end Runs

section Invariant

variable (hP : MemKept P) {m m' : Machine M} (h : Between P m.guest)

include hP h

theorem Reaches.between (hreach : Reaches P vu m m') : Between P m'.guest := by
  obtain ⟨events, hrun⟩ := hreach.run
  exact between_of_run hP h hrun

theorem Refused.between (hrefused : Refused P vu m m') : Between P m'.guest := by
  obtain ⟨m₁, pc, word, hreach, hstep⟩ := hrefused
  exact (hreach.between hP h).step hP hstep

/-- **What a run of the machine keeps.** Where the devices keep `P`, so does every pass of the
    loop of `run`, for any stop address, budget and clock; and at each of them, and where `run`
    returns, the TLB maps to whole pages, it is empty while the MMU is off, no abort is pending,
    and the flag of the exclusive monitor is 0 or 1. -/
theorem always_between (hkeeps : m.KeepsMem P) (stopPc : BitVec 64) (count : t.Usize) :
    Always (runPass t vu stopPc count) (fun s => Between P s.machine.guest) (m.start t) ∧
      ∀ fuel s, m.run t vu stopPc count fuel = .done s → Between P s.machine.guest := by
  constructor
  · intro n s hvisits
    exact (always_reaches hkeeps stopPc count n s hvisits).between hP h
  · intro fuel s hrun
    obtain hreach | hrefused := reaches_run hkeeps stopPc count hrun
    · exact hreach.between hP h
    · exact hrefused.between hP h

end Invariant

/-- Three instructions, in the first of which the device is polled. -/
theorem always_between_dma : ∃ s,
    dmaMachine.run Target.debug64 (fun _ _ => none) 0x800 3 10 = .done s ∧ s.executed.toNat = 3 ∧
      (s.machine.guest.mem.bus.load 0x800 8).1 = 7 ∧
      Between (fun b => SameRam dmaMachine.guest.mem.bus b.bus) s.machine.guest := by
  have hkeeps : dmaMachine.KeepsMem fun b => SameRam dmaMachine.guest.mem.bus b.bus := by
    refine ⟨fun _ _ hmem => hmem, fun dev hdev mem mem' hmem hpoll => ?_⟩
    obtain rfl := List.mem_singleton.mp hdev
    obtain rfl := Option.some.inj hpoll
    exact sameRam_store _ mem.bus 0x800 8 7 hmem
  have hstart : Between (fun b => SameRam dmaMachine.guest.mem.bus b.bus) dmaMachine.guest :=
    ⟨⟨⟨rfl, rfl⟩, Tlb.isEmpty_new.pagesAligned, fun _ => Tlb.isEmpty_new⟩, rfl, .inl rfl⟩
  have hreturns (s : Running Target.debug64 BareBoard)
      (hrun : dmaMachine.run Target.debug64 (fun _ _ => none) 0x800 3 10 = .done s) :
      Between (fun b => SameRam dmaMachine.guest.mem.bus b.bus) s.machine.guest :=
    (always_between (memKept_board _) hstart hkeeps 0x800 3).2 10 s hrun
  exact ⟨_, rfl, rfl, rfl, hreturns _ rfl⟩

end Machine

end V64.Platform
