import V64.Interp.Aside
import V64.Platform.Machine

/-!
# What the machine does not see

The run loop of compiled code uses the mailbox of the CPU, takes two of its flags, and
samples the clock at other instructions than `run`. A machine without these is `blank`;
where the clock stands still, what the machine does depends on nothing else.

* `aside_serviceAsync`: the timers, the devices and the interrupts see nothing of the mailbox.
* `steps_congr`, `blank_execInsn`, `blank_noteIdle`: instructions and sleeps neither.
-/

namespace V64.Interp

open V64.Cpu

/-- The mailbox emptied and the two flags set. -/
def emptied : Aside := ⟨id, fun _ => 0, fun _ => 0, fun _ => 0, true, true⟩

/-- The guest with its mailbox emptied and the two flags set. -/
def Guest.blank {M : Type} (g : Guest M) : Guest M := g.aside emptied

variable {M : Type}

section Fields

variable {g g' : Guest M} (h : g.blank = g'.blank)
include h

theorem mem_of_blank : g.mem = g'.mem := congrArg (fun g => g.mem) h

theorem pc_of_blank : g.cpu.pc = g'.cpu.pc := congrArg (fun g => g.cpu.pc) h

theorem poweredOff_of_blank : g.cpu.poweredOff = g'.cpu.poweredOff :=
  congrArg (fun g => g.cpu.poweredOff) h

theorem wfi_of_blank : g.cpu.wfi = g'.cpu.wfi := congrArg (fun g => g.cpu.wfi) h

end Fields

variable [GuestMem M]

theorem blank_step (vu : VecUnit) (g : Guest M) :
    step vu g.blank = (step vu g).map (onGuest emptied) := step_aside emptied rfl vu g

/-- Guests that are the same when blank take the same step. -/
theorem step_congr {vu : VecUnit} {g g' : Guest M} (h : g.blank = g'.blank) {r : Step × Guest M}
    (hr : step vu g = some r) :
    ∃ r', step vu g' = some r' ∧ r.1 = r'.1 ∧ r.2.blank = r'.2.blank := by
  have hstep := blank_step vu g'
  rw [← h, blank_step, hr] at hstep
  obtain ⟨r', hr', heq⟩ := Option.map_eq_some_iff.mp hstep.symm
  obtain ⟨hfst, hsnd⟩ := Prod.mk.inj heq
  exact ⟨r', hr', hfst.symm, hsnd.symm⟩

/-- Guests that are the same when blank take the same steps. -/
theorem steps_congr {vu : VecUnit} {n : ℕ} {g g' : Guest M} (h : g.blank = g'.blank) {g₁ : Guest M}
    (hg₁ : steps vu n g = some g₁) : ∃ g₁', steps vu n g' = some g₁' ∧ g₁.blank = g₁'.blank := by
  induction n generalizing g g' with
  | zero =>
    cases hg₁
    exact ⟨g', rfl, h⟩
  | succ n ih =>
    rw [steps] at hg₁
    split at hg₁
    · next pc g₂ hstep =>
      obtain ⟨⟨s, g₂'⟩, hstep', hs, hg₂⟩ := step_congr h hstep
      obtain ⟨g₁', hrest, hblank⟩ := ih hg₂ hg₁
      cases hs
      refine ⟨g₁', ?_, hblank⟩
      rw [steps, hstep']
      exact hrest
    · cases hg₁

/-- A translation finds the same address, and leaves guests that are the same when blank. -/
theorem translate_congr {g g' : Guest M} (h : g.blank = g'.blank) (va : BitVec 64)
    (access : Access) (el : Fin 4) :
    (translate g va access el).1 = (translate g' va access el).1 ∧
      (translate g va access el).2.blank = (translate g' va access el).2.blank := by
  have htranslate := aside_translate emptied g va access el
  have htranslate' := aside_translate emptied g' va access el
  rw [show g.aside emptied = g'.aside emptied from h, htranslate'] at htranslate
  exact ⟨(congrArg Prod.fst htranslate).symm, (congrArg Prod.snd htranslate).symm⟩

/-! ## Fetches -/

/-- The fetch of the instruction at the PC. -/
def fetchPc (g : Guest M) : Except (BitVec 8) (BitVec 64) × Guest M :=
  translate g g.cpu.pc .exec g.cpu.el

theorem fetchPc_congr {g g' : Guest M} (h : g.blank = g'.blank) :
    (fetchPc g).1 = (fetchPc g').1 ∧ (fetchPc g).2.blank = (fetchPc g').2.blank := by
  have hel : g.cpu.el = g'.cpu.el := congrArg (fun g => g.cpu.el) h
  unfold fetchPc
  rw [pc_of_blank h, hel]
  exact translate_congr h _ _ _

/-- A fetch made again finds the same, and leaves what the first one left. -/
def Settled (g : Guest M) : Prop := fetchPc (fetchPc g).2 = fetchPc g

/-- An instruction does not see that it was fetched before. -/
theorem step_fetchPc {g : Guest M} (h : Settled g) (vu : VecUnit) :
    step vu (fetchPc g).2 = step vu g := by
  have hpc : (fetchPc g).2.cpu.pc = g.cpu.pc := by
    obtain ⟨tlb, hcpu⟩ := translate_cpu g g.cpu.pc .exec g.cpu.el
    unfold fetchPc
    rw [hcpu]
  have hel : (fetchPc g).2.cpu.el = g.cpu.el := by
    obtain ⟨tlb, hcpu⟩ := translate_cpu g g.cpu.pc .exec g.cpu.el
    unfold fetchPc
    rw [hcpu]
  have hfetch : translate (fetchPc g).2 (fetchPc g).2.cpu.pc .exec (fetchPc g).2.cpu.el =
      translate g g.cpu.pc .exec g.cpu.el := h
  rw [hpc, hel] at hfetch
  unfold step
  dsimp only
  rw [hpc, hel, hfetch]

theorem steps_fetchPc {g : Guest M} (h : Settled g) (vu : VecUnit) (n : ℕ) :
    steps vu (n + 1) (fetchPc g).2 = steps vu (n + 1) g := by
  rw [steps, steps, step_fetchPc h]

/-- With the MMU off a fetch changes nothing. -/
theorem settled_of_off {g : Guest M} (h : mmuEnabled g.cpu = false) : Settled g := by
  have hfetch : fetchPc g = (.ok g.cpu.pc, g) := translate_of_off h _ _ _
  unfold Settled
  rw [hfetch, hfetch]

end V64.Interp

namespace V64.Platform.Machine

open Checked V64.Cpu V64.Interp

variable {M : Type}

/-- The change of a guest, of its machine. -/
def aside (s : Aside) (m : Machine M) : Machine M := { m with guest := m.guest.aside s }

/-- The machine with another sampling counter and other readings of the clock. -/
def counters (m : Machine M) (timerCounter : BitVec 32) (reads : ℕ) : Machine M :=
  { m with timerCounter := timerCounter, reads := reads }

/-- The machine without what the two loops use differently. -/
def blank (m : Machine M) : Machine M := (m.aside emptied).counters 0 0

/-- The clock stands still. -/
def Frozen (m : Machine M) : Prop := ∀ n, m.clock n = m.clock 0

theorem guest_of_blank {m m' : Machine M} (h : m.blank = m'.blank) :
    m.guest.blank = m'.guest.blank := congrArg Machine.guest h

theorem Frozen.of_blank {m m' : Machine M} (hm : m.Frozen) (h : m.blank = m'.blank) :
    m'.Frozen := by
  have hclock : m.blank.clock = m'.blank.clock := congrArg Machine.clock h
  intro n
  have hn := hm n
  rwa [show m.clock = m'.clock from hclock] at hn

/-! ## Interrupts -/

section Service

variable {s : Aside} {m : Machine M} {t : Target}

theorem aside_poll : (m.aside s).poll = m.poll.map (aside s) := by
  unfold poll
  rw [Option.map_map]
  rfl

variable [GicMem M]

theorem aside_advanceTimers : (m.aside s).advanceTimers = m.advanceTimers.aside s := rfl

theorem aside_sample : (m.aside s).sample = m.sample.map (aside s) := by
  have hcounter : (m.aside s).timerCounter = m.timerCounter := rfl
  unfold sample
  rw [hcounter]
  split_ifs
  · rw [aside_advanceTimers, aside_poll]
  · rfl

theorem aside_irqDeliverable : (m.aside s).irqDeliverable = m.irqDeliverable := rfl

theorem aside_takeDeliverable (hpc : s.pc = id) :
    (m.aside s).takeDeliverable = m.takeDeliverable.aside s := by
  have hat : (s.put m.guest.cpu).pc = m.guest.cpu.pc := congrFun hpc m.guest.cpu.pc
  have hentry : takeIrq (s.put m.guest.cpu) =
      ((takeIrq m.guest.cpu).1, s.put (takeIrq m.guest.cpu).2) := by
    unfold takeIrq
    rw [hat]
    exact aside_enterEl1 s m.guest.cpu _ _
  unfold takeDeliverable
  rw [aside_irqDeliverable]
  split_ifs
  · show { m.aside s with guest := (m.guest.aside s).enter (takeIrq (s.put m.guest.cpu)) } = _
    rw [hentry]
    have hset := aside_setPc s hpc (takeIrq m.guest.cpu).2 (takeIrq m.guest.cpu).1
    exact congrArg (fun cpu => { m with guest := (⟨cpu, m.guest.mem⟩ : Guest M) }) hset
  · rfl

/-- The timers, the devices and the interrupts see nothing of a change aside. -/
theorem aside_serviceAsync (hpc : s.pc = id) :
    (m.aside s).serviceAsync t = (m.serviceAsync t).map (aside s) := by
  unfold serviceAsync
  rw [aside_sample]
  cases m.sample with
  | none => rfl
  | some m' =>
    dsimp only [Option.map_some, Option.bind_eq_bind, Option.bind_some]
    have hcounter : (m'.aside s).timerCounter = m'.timerCounter := rfl
    have hinterval : (m'.aside s).timerInterval = m'.timerInterval := rfl
    rw [hcounter, hinterval]
    cases t.add m'.timerCounter 1 with
    | none => rfl
    | some counter =>
      dsimp only [Option.bind_some]
      cases rem counter m'.timerInterval with
      | none => rfl
      | some counter =>
        show some (({ m' with timerCounter := counter } : Machine M).aside s).takeDeliverable = _
        rw [aside_takeDeliverable hpc]
        rfl

end Service

/-! ## Instructions -/

section Insn

variable {m m' : Machine M}

/-- An instruction does the same to the machine when blank. -/
theorem blank_execInsn [GicMem M] (vu : VecUnit) (m : Machine M) :
    m.blank.execInsn vu = (m.execInsn vu).map fun r => (r.1, r.2.blank) := by
  have hstep : step vu m.blank.guest = (step vu m.guest).map (onGuest emptied) :=
    blank_step vu m.guest
  unfold execInsn
  rw [hstep, Option.map_map, Option.map_map]
  rfl

theorem blank_enterUndefined (m : Machine M) (pc : BitVec 64) :
    m.blank.enterUndefined pc = (m.enterUndefined pc).blank := by
  have hentry (cpu : CpuState) : undefined (emptied.put cpu) pc =
      ((undefined cpu pc).1, emptied.put (undefined cpu pc).2) :=
    aside_takeException emptied cpu _ _ _
  show { m.blank with guest := m.guest.blank.enter (undefined (emptied.put m.guest.cpu) pc) } = _
  rw [hentry]
  rfl

end Insn

/-! ## Sleep -/

section Sleep

variable [GicMem M] {m : Machine M} {t : Target}

theorem advanceTimers_counters (hm : m.Frozen) (k : BitVec 32) (r : ℕ) :
    (m.counters k r).advanceTimers = m.advanceTimers.counters k (r + 1) := by
  have hsample : (m.counters k r).sampleCount = m.sampleCount.counters k (r + 1) := by
    have hnow : (m.counters k r).now.1 = m.now.1 := (hm r).trans (hm m.reads).symm
    unfold sampleCount
    rw [hnow]
    rfl
  unfold advanceTimers
  rw [hsample]
  rfl

/-- A sleep sees nothing of what is aside, while the clock stands still. -/
theorem blank_noteIdle (hm : m.Frozen) :
    (m.blank.noteIdle t).map (fun p => (p.1, p.2.blank)) =
      (m.noteIdle t).map fun p => (p.1, p.2.blank) := by
  have hadvance : m.blank.advanceTimers = (m.advanceTimers.aside emptied).counters 0 1 := by
    have hcounters := advanceTimers_counters (m := m.aside emptied) hm 0 0
    rwa [aside_advanceTimers] at hcounters
  have hpending : m.blank.advanceTimers.gic = m.advanceTimers.gic := by
    rw [hadvance]
    rfl
  have hnow : m.blank.advanceTimers.now.1 = m.advanceTimers.now.1 := by
    rw [hadvance]
    exact (hm 1).trans (hm (m.reads + 1)).symm
  have hnext : m.blank.advanceTimers.now.2 =
      (m.advanceTimers.now.2.aside emptied).counters 0 2 := by
    rw [hadvance]
    rfl
  unfold noteIdle
  dsimp only
  rw [hpending]
  split_ifs
  · rw [hadvance]
    rfl
  · rw [hnow, hnext]
    show ((t.add _ _).bind _).map _ = ((t.add _ _).bind _).map _
    have hcap : (((m.advanceTimers.now.2.aside emptied).counters 0 2).freq / maxIdleHz) =
        m.advanceTimers.now.2.freq / maxIdleHz := rfl
    have hdeadline : nextDeadline ((m.advanceTimers.now.2.aside emptied).counters 0 2).guest.cpu =
        nextDeadline m.advanceTimers.now.2.guest.cpu := rfl
    rw [hcap]
    cases t.add m.advanceTimers.now.1 (m.advanceTimers.now.2.freq / maxIdleHz) with
    | none => rfl
    | some cap =>
      dsimp only [Option.bind_some]
      rw [hdeadline]
      cases idleTarget (nextDeadline m.advanceTimers.now.2.guest.cpu) m.advanceTimers.now.1 cap with
      | none => rfl
      | some target => rfl

end Sleep

end V64.Platform.Machine
