import V64.Platform.Board
import V64.Platform.Machine
import V64.Platform.Virtio.Rng

/-!
# Sleeping and waking

The machine sleeps after a WFI or WFE until a tick that `note_idle` records, and samples
the timers again in the first pass of the next `run`.

* `IdleNoted`: what `note_idle` promises when it reports that the machine is idle.
* `wakes`: it keeps the promise, and the next `run` takes the interrupt of a timer that
  is due before it executes an instruction, provided that the devices it polls first
  leave the interrupt signalled.
* `not_wakes_entropy`: the entropy device, asked to fill the control register of the
  distributor, does not.
-/

namespace V64.Platform

open Checked Loops V64.Cpu V64.Interp

/-- The timers and their PPIs. -/
def timers : List (Timer × BitVec 32) :=
  [(virtualTimer, ppiVirtTimer), (physicalTimer, ppiPhysTimer)]

/-- `Clock`: the values never decrease. -/
def NeverDecreases (clock : ℕ → BitVec 64) : Prop := ∀ i j, i ≤ j → clock i ≤ clock j

namespace Machine

variable {M : Type} [GicMem M]

/-- The machine sleeps through no timer: nothing is signalled, no enabled timer had
    reached its compare value when the clock was last read, none does so before the tick
    to resume at, and the next pass samples the timers. -/
structure IdleNoted (m : Machine M) : Prop where
  quiet : m.gic.inner.pendingIrq = false
  notReached : ∀ tm ∈ timers, tm.1.Enabled m.guest.cpu →
    ∀ i < m.reads, m.clock i < tm.1.compare m.guest.cpu
  target : ∃ target, m.idleUntil = some target ∧
    ∀ tm ∈ timers, tm.1.Enabled m.guest.cpu → target ≤ tm.1.compare m.guest.cpu
  resample : m.timerCounter = 0

/-- The host comes back to a machine that is idle. Of the machine it has only kept the
    clock and the counter of the samples. -/
structure Reentered (m m' : Machine M) : Prop where
  clock : m'.clock = m.clock
  reads : m.reads ≤ m'.reads
  timerCounter : m'.timerCounter = m.timerCounter

/-- The clock has reached the compare value of an enabled timer that is not masked, and
    the controller and the CPU let its PPI through. -/
structure Due (m : Machine M) (tm : Timer × BitVec 32) : Prop where
  enabled : tm.1.Enabled m.guest.cpu
  unmasked : tm.1.Unmasked m.guest.cpu
  reached : ∃ i ≤ m.reads, tm.1.compare m.guest.cpu ≤ m.clock i
  passes : m.gic.inner.Passes tm.2.toNat
  irqs : m.guest.cpu.daif &&& pstateI = 0

/-- The polls leave the PPI of the timer signalled if it is. -/
def PollsKeep (m : Machine M) (tm : Timer × BitVec 32) : Prop :=
  m.gic.Signals tm.2.toNat →
    ∀ mem, m.dma.foldlM pollDevice m.guest.mem = some mem → (GicMem.gic mem).Signals tm.2.toNat

/-- `m'` is about to execute the first instruction of the IRQ vector, with the CPU of `m`
    interrupted. -/
def IrqTaken (m m' : Machine M) : Prop :=
  ∃ m0 : Machine M, m0.guest.cpu = setCount m.guest.cpu (m.clock m.reads) ∧
    m'.guest = m0.guest.enter (takeIrq m0.guest.cpu)

/-! ## Sampling the timers -/

theorem gic_gicStep (m : Machine M) (op : GicOp) : (m.gicStep op).gic = m.gic.step op :=
  GicMem.gic_setGic _ _

/-- Driving a line changes nothing that an interrupt must pass. -/
theorem passes_driveLine {m : Machine M} {id : ℕ} (h : m.gic.inner.Passes id)
    (line : Bool × BitVec 32) : (m.driveLine line).gic.inner.Passes id := by
  unfold driveLine
  rw [gic_gicStep]
  split
  · exact GicInner.passes_setPending h line.2
  · exact GicInner.passes_clearPending h line.2

/-- An asserted line makes its PPI pending. -/
theorem pending_driveLine (m : Machine M) {ppi : BitVec 32} (h : ppi.toNat < numIrqs) :
    (m.driveLine (true, ppi)).gic.inner.pending ppi.toNat = true := by
  unfold driveLine
  rw [gic_gicStep]
  exact GicInner.pending_setPending h

/-- A line changes its own PPI only. -/
theorem pending_driveLine_of_ne (m : Machine M) {line : Bool × BitVec 32} {id : ℕ}
    (h : id ≠ line.2.toNat) :
    (m.driveLine line).gic.inner.pending id = m.gic.inner.pending id := by
  unfold driveLine
  rw [gic_gicStep]
  split
  · exact GicInner.pending_setPending_of_ne h
  · exact GicInner.pending_clearPending_of_ne h

/-- A line that is low and was low changes nothing. -/
theorem inner_driveLine_low (m : Machine M) {ppi : BitVec 32}
    (h : m.gic.inner.pending ppi.toNat = false) :
    (m.driveLine (false, ppi)).gic.inner = m.gic.inner := by
  unfold driveLine
  rw [gic_gicStep]
  exact if_neg fun hset => Bool.false_ne_true (h.symm.trans hset.2)

/-- A timer that is due when the clock is read asserts its line. -/
theorem Due.line {m : Machine M} {tm : Timer × BitVec 32} (h : m.Due tm)
    (hclock : NeverDecreases m.clock) : tm.1.line m.advanceTimers.guest.cpu = true := by
  obtain ⟨i, hi, hle⟩ := h.reached
  exact (tm.1.line_setCount m.guest.cpu (m.clock m.reads)).mpr
    ⟨h.enabled, h.unmasked, BitVec.le_trans hle (hclock i m.reads hi)⟩

/-- Sampling the timers makes the controller signal the PPI of a timer that is due. -/
theorem Due.signals {m : Machine M} {tm : Timer × BitVec 32} (h : m.Due tm) (htm : tm ∈ timers)
    (hclock : NeverDecreases m.clock) : m.advanceTimers.gic.Signals tm.2.toNat := by
  have hline := h.line hclock
  refine ⟨passes_driveLine (passes_driveLine h.passes _) _, ?_⟩
  unfold advanceTimers
  simp only [List.foldl_cons, List.foldl_nil]
  simp only [timers, List.mem_cons, List.not_mem_nil, or_false] at htm
  obtain rfl | rfl := htm
  · -- the line of the other timer, driven second, has another PPI
    have hvirtual : virtualFires m.sampleCount.guest.cpu = true := hline
    have hppi : ppiVirtTimer.toNat ≠ ppiPhysTimer.toNat := by decide
    rw [pending_driveLine_of_ne _ hppi, hvirtual]
    exact pending_driveLine _ (by decide)
  · have hphysical : physicalFires m.sampleCount.guest.cpu = true := hline
    rw [hphysical]
    exact pending_driveLine _ (by decide)

/-! ## Falling asleep -/

/-- A timer that is enabled has its compare value among the deadlines. -/
theorem isDeadline {tm : Timer × BitVec 32} (htm : tm ∈ timers) {cpu : CpuState}
    (h : tm.1.Enabled cpu) : IsDeadline cpu (tm.1.compare cpu) := by
  simp only [timers, List.mem_cons, List.not_mem_nil, or_false] at htm
  obtain rfl | rfl := htm
  · exact ⟨virtualTimer, .inl rfl, h, rfl⟩
  · exact ⟨physicalTimer, .inr rfl, h, rfl⟩

/-- The tick to resume at is past no deadline, and no deadline is past. -/
theorem idleTarget_spec {cpu : CpuState} {now cap target : BitVec 64}
    (h : idleTarget (nextDeadline cpu) now cap = some target) {c : BitVec 64}
    (hc : IsDeadline cpu c) : now < c ∧ target ≤ c := by
  obtain ⟨d, hd, hle⟩ := nextDeadline_le hc
  rw [hd] at h
  unfold idleTarget at h
  dsimp only at h
  split_ifs at h with hlate
  cases h
  exact ⟨Nat.lt_of_lt_of_le (BitVec.lt_def.mp hlate) (BitVec.le_def.mp hle),
    BitVec.le_trans (minU64_le_left d cap) hle⟩

/-- What falling asleep takes. -/
theorem noteIdle_eq_some {t : Target} {m : Machine M} {cap target : BitVec 64}
    (hquiet : m.advanceTimers.gic.inner.pendingIrq = false)
    (hcap : t.add (m.clock (m.reads + 1)) (m.freq / maxIdleHz) = some cap)
    (htarget : idleTarget (nextDeadline m.advanceTimers.guest.cpu) (m.clock (m.reads + 1)) cap =
      some target) :
    m.noteIdle t = some (true, { m.advanceTimers with
      reads := m.reads + 2
      idleUntil := some target
      timerCounter := 0 }) := by
  have hcap' : t.add m.advanceTimers.now.1 (m.advanceTimers.now.2.freq / maxIdleHz) = some cap :=
    hcap
  have htarget' : idleTarget (nextDeadline m.advanceTimers.now.2.guest.cpu)
      m.advanceTimers.now.1 cap = some target := htarget
  unfold noteIdle
  dsimp only
  rw [hquiet, hcap', if_neg Bool.false_ne_true, Option.bind_eq_bind, Option.bind_some, htarget']
  rfl

theorem idleNoted_of_noteIdle {t : Target} {m m' : Machine M} (hclock : NeverDecreases m.clock)
    (h : m.noteIdle t = some (true, m')) : m'.IdleNoted ∧ m'.clock = m.clock := by
  unfold noteIdle at h
  dsimp only at h
  split_ifs at h with hsignal
  · cases h
  · obtain ⟨cap, -, h⟩ := Option.bind_eq_some_iff.mp h
    cases htarget : idleTarget (nextDeadline m.advanceTimers.now.2.guest.cpu)
        m.advanceTimers.now.1 cap with
    | none =>
      rw [htarget] at h
      cases h
    | some target =>
      rw [htarget] at h
      cases h
      refine ⟨⟨Bool.eq_false_of_not_eq_true hsignal, ?_, ⟨target, rfl, ?_⟩, rfl⟩, rfl⟩
      · intro tm htm henabled i hi
        have hlast : m.clock i ≤ m.clock (m.reads + 1) := hclock i _ (Nat.le_of_lt_succ hi)
        have hnow := (idleTarget_spec htarget (isDeadline htm henabled)).1
        exact Nat.lt_of_le_of_lt (BitVec.le_def.mp hlast) (BitVec.lt_def.mp hnow)
      · intro tm htm henabled
        exact (idleTarget_spec htarget (isDeadline htm henabled)).2

end Machine

/-! ## A board with the entropy device -/

/-- The windows of the interrupt controller. -/
inductive GicWindow where
  | dist
  | cpu

/-- What is behind the windows is the board's. -/
instance : MmioDevice GicWindow where
  read d _ _ := (0, d)
  write d _ _ _ := d

/-- The bus of a board with the interrupt controller, and its entropy device. -/
structure EntropyBoard where
  gic : Gic
  bus : Bus GicWindow
  rng : Rng

namespace EntropyBoard

/-- The window of the controller that holds an access, and the offset there. -/
def window? (b : EntropyBoard) (addr : BitVec 64) (size : ℕ) : Option (GicWindow × BitVec 64) :=
  match b.bus.route addr with
  | .device i => (b.bus.device? i addr size).map fun d => (d.dev, addr - d.base)
  | _ => none

/-- `Bus::load`, with the registers of the controller behind their windows. -/
def load (b : EntropyBoard) (addr : BitVec 64) (size : ℕ) : BitVec 64 × EntropyBoard :=
  match b.window? addr size with
  | some (.dist, offset) =>
    (b.gic.inner.distRead offset size, { b with gic := b.gic.step (.distRead offset size) })
  | some (.cpu, offset) =>
    ((b.gic.inner.cpuRead offset).1, { b with gic := b.gic.step (.cpuRead offset size) })
  | none => let r := b.bus.load addr size; (r.1, { b with bus := r.2 })

/-- `Bus::store`, with the registers of the controller behind their windows. -/
def store (b : EntropyBoard) (addr : BitVec 64) (size : ℕ) (val : BitVec 64) : EntropyBoard :=
  match b.window? addr size with
  | some (.dist, offset) => { b with gic := b.gic.step (.distWrite offset size val) }
  | some (.cpu, offset) => { b with gic := b.gic.step (.cpuWrite offset size val) }
  | none => { b with bus := b.bus.store addr size val }

instance : GicMem EntropyBoard where
  readU8 b addr := let r := b.load addr 1; (r.1.setWidth 8, r.2)
  readU16 b addr := let r := b.load addr 2; (r.1.setWidth 16, r.2)
  readU32 b addr := let r := b.load addr 4; (r.1.setWidth 32, r.2)
  readU64 b addr := b.load addr 8
  writeU8 b addr val := b.store addr 1 (val.setWidth 64)
  writeU16 b addr val := b.store addr 2 (val.setWidth 64)
  writeU32 b addr val := b.store addr 4 (val.setWidth 64)
  writeU64 b addr val := b.store addr 8 val
  gic b := b.gic
  setGic b g := { b with gic := g }
  gic_setGic _ _ := rfl

/-- A poll of the entropy device that serves at most two chains. -/
def pollRng (b : EntropyBoard) : Option EntropyBoard :=
  if b.rng.notified = false then some b
  else
    match Loops.run (drainPass .release64 (Rng.fill .release64)) 2 (b.rng.draining b) with
    | .done s =>
      let gic := if s.raised then s.mem.gic.step (.setPending b.rng.irq) else s.mem.gic
      some { s.mem with gic := gic, rng := { b.rng with notified := false, queue := s.q } }
    | _ => none

/-- A controller that lets the PPI of the virtual timer through. -/
def gicOpen : Gic where
  inner := { GicInner.new with
    distEnabled := true
    cpuEnabled := true
    enabled := (· = ppiVirtTimer.toNat)
    pmr := 0xff }
  cached := (GicInner.scanPending_eq_none.mpr fun _ _ h => Bool.false_ne_true h.2).symm

/-- RAM with a NOP at `0x800`, and the rings of a queue: its one chain is a writable byte
    at `gicdBase`. -/
def ramBytes (a : ℕ) : BitVec 8 :=
  match a with
  | 0x003 => 0x08
  | 0x008 => 1
  | 0x00c => 2
  | 0x102 => 1
  | 0x800 => 0x1f
  | 0x801 => 0x20
  | 0x802 => 0x03
  | 0x803 => 0xd5
  | _ => 0

/-- The board with the queue of its entropy device notified. -/
def entropyBoard : EntropyBoard where
  gic := gicOpen
  bus := ⟨⟨ramBase, 0x1000, ramBytes⟩,
    [⟨gicdBase, 0x10000, .dist⟩, ⟨giccBase, 0x10000, .cpu⟩]⟩
  rng := { Rng.new gicOpen.inner 42 with
    notified := true
    queue := ⟨8, true, ramBase, ramBase + 0x100, ramBase + 0x200, 0⟩ }

/-- A CPU with the virtual timer enabled, for tick 50. -/
def timerCpu : CpuState where
  __ := insertSysreg (insertSysreg CpuState.new keyCntvCtl 1) keyCntvCval 50
  pc := ramBase + 0x800
  daif := 0

/-- The clock passes tick 50 after two readings. -/
def lateClock (i : ℕ) : BitVec 64 := if i < 2 then 0 else 100

theorem neverDecreases_lateClock : NeverDecreases lateClock := by
  intro i j hij
  unfold lateClock
  split_ifs with hi hj
  · exact BitVec.le_refl 0
  · decide
  · omega
  · exact BitVec.le_refl 100

/-- The machine that falls asleep, with the devices `dma`. -/
def dozing (dma : List (EntropyBoard → Option EntropyBoard)) : Machine EntropyBoard where
  __ := Machine.withClock ⟨timerCpu, entropyBoard⟩ lateClock 1000
  dma := dma

/-- The machine asleep. -/
def asleep (dma : List (EntropyBoard → Option EntropyBoard)) : Machine EntropyBoard where
  __ := (dozing dma).advanceTimers
  reads := 2
  idleUntil := some 20
  timerCounter := 0

/-- The CPU asleep, at the first reading of the clock. -/
theorem cpu_asleep (dma : List (EntropyBoard → Option EntropyBoard)) :
    (asleep dma).guest.cpu = setCount (setFrequency timerCpu 1000) 0 := rfl

/-- Neither timer is due yet, so the controller stays as it is. -/
theorem gic_asleep (dma : List (EntropyBoard → Option EntropyBoard)) :
    (asleep dma).gic.inner = gicOpen.inner := by
  have hvirtual : virtualFires (setCount (setFrequency timerCpu 1000) 0) = false := by
    decide +kernel
  have hphysical : physicalFires (setCount (setFrequency timerCpu 1000) 0) = false := by
    decide +kernel
  show (Machine.driveLine (Machine.driveLine (dozing dma).sampleCount
    (virtualFires (setCount (setFrequency timerCpu 1000) 0), ppiVirtTimer))
    (physicalFires (setCount (setFrequency timerCpu 1000) 0), ppiPhysTimer)).gic.inner = _
  rw [hvirtual, hphysical, Machine.inner_driveLine_low, Machine.inner_driveLine_low]
  · rfl
  · rfl
  · rw [Machine.inner_driveLine_low]
    · rfl
    · rfl

theorem noteIdle_dozing (dma : List (EntropyBoard → Option EntropyBoard)) :
    (dozing dma).noteIdle .release64 = some (true, asleep dma) := by
  have hgic : (dozing dma).advanceTimers.gic.inner = gicOpen.inner := gic_asleep dma
  have hquiet : (dozing dma).advanceTimers.gic.inner.pendingIrq = false := by
    rw [hgic]
    decide
  have hcap : Target.release64.add (lateClock 1) (1000 / maxIdleHz) = some 20 := by
    decide +kernel
  have htarget : Machine.idleTarget (nextDeadline (setCount (setFrequency timerCpu 1000) 0))
      (lateClock 1) 20 = some 20 := by
    decide +kernel
  exact Machine.noteIdle_eq_some hquiet hcap htarget

/-- The timer is due when the clock is read next. -/
theorem due_asleep (dma : List (EntropyBoard → Option EntropyBoard)) :
    (asleep dma).Due (virtualTimer, ppiVirtTimer) where
  enabled := by
    rw [cpu_asleep]
    decide +kernel
  unmasked := by
    rw [cpu_asleep]
    decide +kernel
  reached := by
    have hreached : virtualTimer.compare (setCount (setFrequency timerCpu 1000) 0) ≤ 100 := by
      decide +kernel
    exact ⟨2, Nat.le_refl 2, hreached⟩
  passes := by
    rw [gic_asleep]
    exact ⟨by decide, rfl, rfl, rfl, by decide, by decide⟩
  irqs := by
    rw [cpu_asleep]
    decide +kernel

end EntropyBoard

namespace Machine

variable {M : Type} [GicMem M]

/-! ## Waking up -/

/-- The first pass of a run after the sleep takes the interrupt of a timer that is due. -/
theorem irqTaken_of_serviceAsync {t : Target} {m m' : Machine M} {tm : Timer × BitVec 32}
    (htm : tm ∈ timers) (hclock : NeverDecreases m.clock) (hresample : m.timerCounter = 0)
    (hdue : m.Due tm) (hpolls : m.advanceTimers.PollsKeep tm)
    (h : m.serviceAsync t = some m') : m.IrqTaken m' := by
  unfold serviceAsync at h
  simp only [Option.bind_eq_bind, Option.bind_eq_some_iff] at h
  obtain ⟨m1, hsample, counter, -, counter', -, h⟩ := h
  cases h
  unfold sample at hsample
  rw [if_pos hresample] at hsample
  obtain ⟨mem, hmem, rfl⟩ := Option.map_eq_some_iff.mp hsample
  have hsignal := (hpolls (hdue.signals htm hclock) mem hmem).pendingIrq
  have hirq : { m.advanceTimers.setMem mem with timerCounter := counter' }.irqDeliverable = true :=
    Bool.and_eq_true_iff.mpr ⟨beq_iff_eq.mpr hdue.irqs, hsignal⟩
  refine ⟨m.advanceTimers.setMem mem, rfl, ?_⟩
  unfold takeDeliverable
  rw [if_pos hirq]

/-- When `note_idle` reports idle, it sleeps through no timer. When the host then comes
    back and a timer is due, the first pass of `run` ends the run before any instruction,
    or executes its instruction with the IRQ taken, if the polls of the pass leave the
    PPI signalled. -/
theorem wakes {t : Target} {vu : VecUnit} {m m' : Machine M} (hclock : NeverDecreases m.clock)
    (hidle : m.noteIdle t = some (true, m')) :
    m'.IdleNoted ∧ ∀ m1, m'.Reentered m1 → ∀ tm ∈ timers, m1.Due tm →
      m1.advanceTimers.PollsKeep tm → ∀ stopPc count p,
        runPass t vu stopPc count (m1.start t) = some p →
          (∃ stop, p = .leave { m1.start t with stop := some stop }) ∨
          ∃ m2, m1.IrqTaken m2 ∧ insnPass t vu 0 m2 = some p := by
  obtain ⟨hnoted, hsame⟩ := idleNoted_of_noteIdle hclock hidle
  refine ⟨hnoted, ?_⟩
  intro m1 hre tm htm hdue hpolls stopPc count p hpass
  -- the run starts with the record of the sleep cleared
  have hclock1 : NeverDecreases { m1 with idleUntil := none }.clock := by
    rw [← hsame, ← hre.clock] at hclock
    exact hclock
  have hresample : { m1 with idleUntil := none }.timerCounter = 0 :=
    hre.timerCounter.trans hnoted.resample
  have hdue1 : Due { m1 with idleUntil := none } tm :=
    ⟨hdue.enabled, hdue.unmasked, hdue.reached, hdue.passes, hdue.irqs⟩
  unfold runPass at hpass
  dsimp only at hpass
  split_ifs at hpass
  · cases hpass
    exact .inl ⟨_, rfl⟩
  · cases hpass
    exact .inl ⟨_, rfl⟩
  · cases hpass
    exact .inl ⟨_, rfl⟩
  · obtain ⟨m2, hservice, hinsn⟩ := Option.bind_eq_some_iff.mp hpass
    obtain ⟨m0, hcpu, hguest⟩ :=
      irqTaken_of_serviceAsync htm hclock1 hresample hdue1 hpolls hservice
    exact .inr ⟨m2, ⟨m0, hcpu, hguest⟩, hinsn⟩

end Machine

namespace EntropyBoard

open Machine

theorem wakes_asleep : (asleep []).IdleNoted ∧ ∀ stopPc count p,
    runPass .release64 (fun _ _ => none) stopPc count ((asleep []).start .release64) = some p →
      (∃ stop, p = .leave { (asleep []).start .release64 with stop := some stop }) ∨
      ∃ m2, (asleep []).IrqTaken m2 ∧ insnPass .release64 (fun _ _ => none) 0 m2 = some p := by
  obtain ⟨hnoted, hwakes⟩ := wakes neverDecreases_lateClock (noteIdle_dozing [])
  refine ⟨hnoted, ?_⟩
  refine hwakes _ ⟨rfl, le_rfl, rfl⟩ _ (List.mem_cons_self ..) (due_asleep []) ?_
  intro hsignals mem hmem
  cases hmem
  exact hsignals

/-- The entropy device answers with a zero for the control register of the distributor,
    and the instruction after the WFI is executed with the timer due. -/
theorem not_wakes_entropy : NeverDecreases (dozing [pollRng]).clock ∧
    (dozing [pollRng]).noteIdle .release64 = some (true, asleep [pollRng]) ∧
    (asleep [pollRng]).Reentered (asleep [pollRng]) ∧
    (asleep [pollRng]).Due (virtualTimer, ppiVirtTimer) ∧
    ∃ m2, m2.guest.cpu.pc = (asleep [pollRng]).guest.cpu.pc ∧ ¬(asleep [pollRng]).IrqTaken m2 ∧
      ∀ vu, runPass .release64 vu 0 0 ((asleep [pollRng]).start .release64) =
        insnPass .release64 vu 0 m2 := by
  have hservice : (((asleep [pollRng]).start .release64).machine.serviceAsync .release64).map
      (fun m => m.guest.cpu.pc) = some (ramBase + 0x800) := by
    decide +kernel
  obtain ⟨m2, hm2, hpc⟩ := Option.map_eq_some_iff.mp hservice
  refine ⟨neverDecreases_lateClock, noteIdle_dozing _, ⟨rfl, le_rfl, rfl⟩, due_asleep _, m2,
    hpc, ?_, ?_⟩
  · rintro ⟨m0, hcpu, hguest⟩
    have hvector : (takeIrq (setCount (asleep [pollRng]).guest.cpu 100)).1 = 0x280 := by
      decide +kernel
    have htaken : m2.guest.cpu.pc = (takeIrq m0.guest.cpu).1 := by
      rw [hguest]
      rfl
    rw [hcpu, hpc] at htaken
    exact absurd (htaken.trans hvector) (by decide)
  · intro vu
    unfold runPass
    dsimp only
    rw [if_neg (by decide), if_neg (by decide), if_neg (by decide), hm2]
    rfl

end EntropyBoard

end V64.Platform
