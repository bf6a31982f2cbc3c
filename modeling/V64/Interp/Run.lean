import V64.Decoder.Decode
import V64.Interp.Execute
import V64.Lib.Runs

/-!
# The run loop and the machine

Models of `crates/interp/src/run.rs` and of the events of
`crates/platform/src/machine/mod.rs`, as far as they reach the CPU: what the
clock, the interrupt controller and the devices decide is an event of
`MachineStep`. `none` is a panic of the host.

* `keptRun_of_steps`, `run_of_steps`: a sequence of interpreted instructions is a run of the
  machine.
-/

namespace V64.Interp

open V64.Cpu V64.Decoder Runs

variable {M : Type} [GuestMem M]

/-- `Step` (`run.rs`, lines 67–73). -/
inductive Step where
  | next (pc : BitVec 64)
  | unsupported (pc : BitVec 64) (word : BitVec 32)
  deriving DecidableEq

/-- The end of an instruction at `pc`: its pending abort is taken, or the PC moves
    on (lines 96–100). -/
def retire (g : Guest M) (next : Option (BitVec 64)) (pc : BitVec 64) : Guest M :=
  let r := match g.cpu.pendingAbort with
    | some abort => dataAbort { g.cpu with pendingAbort := none } pc abort
    | none => (next.getD (pc + 4), g.cpu)
  { g with cpu := { r.2 with pc := r.1 } }

/-- The instruction `word` at `cpu.pc`, after the fetch (lines 91–101). -/
def stepWord (vu : VecUnit) (g : Guest M) (word : BitVec 32) : Option (Step × Guest M) :=
  let pc := g.cpu.pc
  match decode word with
  | .unsupported word => some (.unsupported pc word, g)
  | insn =>
    (execute vu g insn pc).map fun r =>
      let g := retire r.2 r.1 pc
      (.next g.cpu.pc, g)

/-- The vector of an exception becomes the PC. -/
def Guest.enter (g : Guest M) (r : BitVec 64 × CpuState) : Guest M :=
  { g with cpu := { r.2 with pc := r.1 } }

/-- `step` (lines 81–102). -/
def step (vu : VecUnit) (g : Guest M) : Option (Step × Guest M) :=
  let pc := g.cpu.pc
  match translate g pc .exec g.cpu.el with
  | (.error fsc, g) =>
    let g := g.enter (instAbort g.cpu pc fsc)
    some (.next g.cpu.pc, g)
  | (.ok pa, g) =>
    let r := GuestMem.readU32 g.mem pa
    stepWord vu { g with mem := r.2 } r.1

/-- `PSTATE_I` (`machine/mod.rs`, line 30). -/
def pstateI : BitVec 4 := 0b0010

/-- What the machine loop does next, as the clock, the interrupt controller and
    the devices have it. -/
inductive MachineEvent where
  | insn
  | undefined
  | irq
  | timer
  | devices
  | wake
  deriving DecidableEq

/-- One event of `Machine::run` (`machine/mod.rs`, lines 279–316): an instruction;
    one without an implementation, delivered to the guest; an interrupt that PSTATE.I
    does not mask; a sample of the clock; a device's access to memory; the end of a
    WFI or WFE. -/
inductive MachineStep (vu : VecUnit) : Guest M → MachineEvent → Guest M → Prop where
  | insn {g g' : Guest M} {pc : BitVec 64} (h : step vu g = some (.next pc, g')) :
      MachineStep vu g .insn g'
  | undefined {g g' : Guest M} {pc : BitVec 64} {word : BitVec 32}
      (h : step vu g = some (.unsupported pc word, g')) :
      MachineStep vu g .undefined (g'.enter (Interp.undefined g'.cpu pc))
  | irq {g : Guest M} (h : g.cpu.daif &&& pstateI = 0) :
      MachineStep vu g .irq (g.enter (takeIrq g.cpu))
  | timer (g : Guest M) (ticks : BitVec 64) :
      MachineStep vu g .timer { g with cpu := setCount g.cpu ticks }
  | devices (g : Guest M) (mem : M) : MachineStep vu g .devices { g with mem := mem }
  | wake (g : Guest M) : MachineStep vu g .wake { g with cpu := { g.cpu with wfi := false } }

/-- An event, the device accesses among which keep `P` of the memory. -/
def KeptStep (P : M → Prop) (vu : VecUnit) (g : Guest M) (e : MachineEvent) (g' : Guest M) :
    Prop :=
  MachineStep vu g e g' ∧ (e = .devices → P g.mem → P g'.mem)

/-- `n` interpreted instructions, all with an implementation. -/
def steps (vu : VecUnit) : ℕ → Guest M → Option (Guest M)
  | 0, g => some g
  | n + 1, g =>
    match step vu g with
    | some (.next _, g) => steps vu n g
    | _ => none

theorem keptRun_of_steps {P : M → Prop} {vu : VecUnit} {n : ℕ} {g g' : Guest M}
    (h : steps vu n g = some g') : Run (KeptStep P vu) g (List.replicate n .insn) g' := by
  induction n generalizing g with
  | zero =>
    obtain rfl : g = g' := Option.some.inj h
    exact .nil g
  | succ n ih =>
    rw [steps] at h
    split at h
    · next hstep => exact .cons ⟨.insn hstep, nofun⟩ (ih h)
    · cases h

theorem run_of_steps {vu : VecUnit} {n : ℕ} {g g' : Guest M} (h : steps vu n g = some g') :
    Run (MachineStep vu) g (List.replicate n .insn) g' :=
  (keptRun_of_steps (P := fun _ => True) h).mono fun _ _ _ hstep => hstep.1

/-- The instruction that `step` fetches, unless the fetch faults. -/
def fetched (g : Guest M) : Option Insn :=
  match translate g g.cpu.pc .exec g.cpu.el with
  | (.error _, _) => none
  | (.ok pa, g) => some (decode (GuestMem.readU32 g.mem pa).1)

end V64.Interp
