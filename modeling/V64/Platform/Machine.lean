import V64.Interp.Run
import V64.Interp.Timer
import V64.Lib.Checked
import V64.Lib.Loops
import V64.Platform.Gic

/-!
# The machine

Model of `crates/platform/src/machine/mod.rs` without the `jit` feature. The interpreter
is the one of `V64.Interp`; the interrupt controller is shared with the devices of the
bus. The arithmetic is that of a build (`Checked.Target`): a panic is `none`.

* `advanceTimers`, `serviceAsync`: the timers, the devices and the interrupts.
* `noteIdle`: the sleep after a WFI or WFE.
* `runPass`: one pass of the loop of `run`.
-/

namespace V64.Platform

open Checked Loops Runs V64.Cpu V64.Interp

/-- `PPI_VIRT_TIMER` (line 33). -/
def ppiVirtTimer : BitVec 32 := 27

/-- `PPI_PHYS_TIMER` (line 34). -/
def ppiPhysTimer : BitVec 32 := 30

/-- `TIMER_SAMPLE_INTERVAL` (line 41). -/
def timerSampleInterval : BitVec 32 := 64

/-- `MAX_IDLE_HZ` (line 47). -/
def maxIdleHz : BitVec 64 := 50

/-- A bus whose devices share the interrupt controller with the machine. -/
class GicMem (M : Type) extends GuestMem M where
  gic : M → Gic
  setGic : M → Gic → M
  gic_setGic : ∀ mem g, gic (setGic mem g) = g

/-- `StopReason` (`run.rs`, lines 11–20). -/
inductive StopReason where
  | untilReached
  | countReached
  | unsupported (pc : BitVec 64) (word : BitVec 32)
  | poweredOff
  deriving DecidableEq

/-- `Machine` (lines 50–102). `clock` has the values that `Clock::now` returns, one
    after the other, and `reads` counts those taken. A device that is polled keeps its
    state where its registers have it, in memory. -/
structure Machine (M : Type) where
  guest : Guest M
  clock : ℕ → BitVec 64
  reads : ℕ
  freq : BitVec 64
  timerInterval : BitVec 32
  timerCounter : BitVec 32
  undefToGuest : Bool
  undefinedSeen : BitVec 32 → Option (BitVec 64)
  dma : List (M → Option M)
  idleUntil : Option (BitVec 64)
  totalInsns : BitVec 64

namespace Machine

variable {M : Type}

/-- `Machine::with_clock` (lines 115–141). -/
def withClock (guest : Guest M) (clock : ℕ → BitVec 64) (freq : BitVec 64) : Machine M where
  guest := { guest with cpu := setFrequency guest.cpu freq }
  clock := clock
  reads := 0
  freq := freq
  timerInterval := timerSampleInterval
  timerCounter := 0
  undefToGuest := true
  undefinedSeen := fun _ => none
  dma := []
  idleUntil := none
  totalInsns := 0

/-- `add_dma` (lines 153–155). -/
def addDma (m : Machine M) (dev : M → Option M) : Machine M := { m with dma := m.dma ++ [dev] }

/-- The CPU replaced. -/
def setCpu (m : Machine M) (cpu : CpuState) : Machine M :=
  { m with guest := { m.guest with cpu := cpu } }

/-- The bus replaced. -/
def setMem (m : Machine M) (mem : M) : Machine M :=
  { m with guest := { m.guest with mem := mem } }

/-- `self.clock.now()`. -/
def now (m : Machine M) : BitVec 64 × Machine M :=
  (m.clock m.reads, { m with reads := m.reads + 1 })

/-- The Undefined Instruction exception of the instruction at `pc`. -/
def enterUndefined (m : Machine M) (pc : BitVec 64) : Machine M :=
  { m with guest := m.guest.enter (undefined m.guest.cpu pc) }

/-- `or_insert` of an entry of `undefined_seen`. -/
def noteUndefined (m : Machine M) (word : BitVec 32) (pc : BitVec 64) : Machine M :=
  { m with undefinedSeen :=
      Function.update m.undefinedSeen word (some ((m.undefinedSeen word).getD pc)) }

variable [GicMem M]

/-- The controller. -/
def gic (m : Machine M) : Gic := GicMem.gic m.guest.mem

/-- An operation on the controller. -/
def gicStep (m : Machine M) (op : GicOp) : Machine M :=
  m.setMem (GicMem.setGic m.guest.mem (m.gic.step op))

/-- One turn of the loop of `advance_timers`: the line of a timer drives its PPI. -/
def driveLine (m : Machine M) (line : Bool × BitVec 32) : Machine M :=
  m.gicStep (if line.1 then .setPending line.2 else .clearPending line.2)

/-- The clock sampled into the counter (line 181). -/
def sampleCount (m : Machine M) : Machine M := m.now.2.setCpu (setCount m.guest.cpu m.now.1)

/-- `advance_timers` (lines 180–192). -/
def advanceTimers (m : Machine M) : Machine M :=
  let m := m.sampleCount
  [(virtualFires m.guest.cpu, ppiVirtTimer),
    (physicalFires m.guest.cpu, ppiPhysTimer)].foldl driveLine m

/-- `irq_deliverable` (lines 196–198). -/
def irqDeliverable (m : Machine M) : Bool :=
  m.guest.cpu.daif &&& pstateI == 0 && m.gic.inner.pendingIrq

/-- The `match` of `note_idle`: the tick to resume at, unless a deadline is past. -/
def idleTarget (deadline : Option (BitVec 64)) (now cap : BitVec 64) : Option (BitVec 64) :=
  match deadline with
  | some d => if d > now then some (minU64 d cap) else none
  | none => some cap

/-- `note_idle` (lines 210–225). -/
def noteIdle (t : Target) (m : Machine M) : Option (Bool × Machine M) :=
  let m := m.advanceTimers
  if m.gic.inner.pendingIrq then some (false, m)
  else do
    let (now, m) := m.now
    let cap ← t.add now (m.freq / maxIdleHz)
    match idleTarget (nextDeadline m.guest.cpu) now cap with
    | none => return (false, m)
    | some target => return (true, { m with idleUntil := some target, timerCounter := 0 })

/-- `d.poll(&mut self.bus)`. -/
def pollDevice (mem : M) (dev : M → Option M) : Option M := dev mem

/-- The polls of `service_async`: every device in turn. -/
def poll (m : Machine M) : Option (Machine M) :=
  (m.dma.foldlM pollDevice m.guest.mem).map m.setMem

/-- What `service_async` does once in `timer_interval` instructions (lines 253–260). -/
def sample (m : Machine M) : Option (Machine M) :=
  if m.timerCounter = 0 then m.advanceTimers.poll else some m

/-- The interrupt, if it is deliverable (lines 263–265). -/
def takeDeliverable (m : Machine M) : Machine M :=
  if m.irqDeliverable then { m with guest := m.guest.enter (takeIrq m.guest.cpu) } else m

/-- `service_async` (lines 252–266). -/
def serviceAsync (t : Target) (m : Machine M) : Option (Machine M) := do
  let m ← m.sample
  let counter ← t.add m.timerCounter 1
  let counter ← rem counter m.timerInterval
  return { m with timerCounter := counter }.takeDeliverable

/-- The instruction of `step` (line 273). -/
def execInsn (vu : VecUnit) (m : Machine M) : Option (Step × Machine M) :=
  (step vu m.guest).map fun r => (r.1, { m with guest := r.2 })

end Machine

/-- The variables of the loop of `run`, and how it was left. -/
structure Running (t : Target) (M : Type) where
  machine : Machine M
  executed : t.Usize
  stop : Option StopReason

namespace Machine

variable {M : Type} [GicMem M] (t : Target) (vu : VecUnit)

/-- The end of a pass (lines 302–314): the counters, and the sleep of a WFI or WFE. -/
def endPass (executed : t.Usize) (m : Machine M) : Option (Pass (Running t M)) := do
  let executed ← t.add executed 1
  let total ← t.add m.totalInsns 1
  let m := { m with totalInsns := total }
  if m.guest.cpu.wfi then
    let m := m.setCpu { m.guest.cpu with wfi := false }
    if m.irqDeliverable then return .again ⟨m, executed, none⟩
    else
      let (idle, m) ← m.noteIdle t
      if idle then return .leave ⟨m, executed, some .countReached⟩
      else return .again ⟨m, executed, none⟩
  else return .again ⟨m, executed, none⟩

/-- A pass from its instruction on (lines 292–314). -/
def insnPass (executed : t.Usize) (m : Machine M) : Option (Pass (Running t M)) := do
  let (s, m) ← m.execInsn vu
  match s with
  | .next _ => m.endPass t executed
  | .unsupported pc word =>
    let m := m.noteUndefined word pc
    if m.undefToGuest then (m.enterUndefined pc).endPass t executed
    else return .leave ⟨m, executed, some (.unsupported pc word)⟩

/-- The `loop` of `run` (lines 282–315). -/
def runPass (stopPc : BitVec 64) (count : t.Usize) (s : Running t M) :
    Option (Pass (Running t M)) :=
  let m := s.machine
  if m.guest.cpu.poweredOff then some (.leave { s with stop := some .poweredOff })
  else if m.guest.cpu.pc = stopPc then some (.leave { s with stop := some .untilReached })
  else if count ≠ 0 ∧ count ≤ s.executed then
    some (.leave { s with stop := some .countReached })
  else do
    let m ← m.serviceAsync t
    m.insnPass t vu s.executed

/-- The loop of `run` before its first pass (lines 280–281). -/
def start (m : Machine M) : Running t M := ⟨{ m with idleUntil := none }, 0, none⟩

/-- `run` (lines 279–316), for at most `fuel` instructions. -/
def run (stopPc : BitVec 64) (count : t.Usize) (fuel : ℕ) (m : Machine M) :
    Outcome (Running t M) :=
  Loops.run (runPass t vu stopPc count) fuel (m.start t)

/-- The state that a pass ends in. -/
def passState {t : Target} : Pass (Running t M) → Running t M
  | .leave s | .again s => s

end Machine

end V64.Platform
