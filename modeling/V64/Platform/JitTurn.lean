import V64.Lib.LoopJumps
import V64.Platform.JitAside
import V64.Platform.JitRunner

/-!
# A pass with compiled code

A pass of the loop of `run_jit_browser` beside those of `run`, while no interrupt becomes
deliverable and no device does anything.

* `Quiet`: what the machine is assumed not to do.
* `Retires`: what a call of compiled code does, and says that it did.
* `visits_steps`: so many instructions of the interpreter are so many passes of `run`.
* `jitTurn_visits`: a pass is the passes of `run` for the instructions of its call, and then
  either nothing or one more.
-/

namespace V64.Platform

open Checked Loops V64.Cpu V64.Interp V64.Jit

/-! ## The passes when blank -/

variable {M : Type} {t : Target}

/-- A state of `run` without what the two loops use differently. -/
def Running.blank (s : Running t M) : Running t M := { s with machine := s.machine.blank }

/-- A state of `run_jit_browser`, as one of `run`. -/
def JitRunning.blank {R : Type} (s : JitRunning t R M) : Running t M :=
  ⟨s.machine.machine.blank, s.executed, s.stop⟩

namespace Machine

variable [GicMem M] (t)

/-- The end of a pass after its counters (lines 305–313). -/
def sleepPass (executed : t.Usize) (m : Machine M) : Option (Pass (Running t M)) :=
  if m.guest.cpu.wfi then
    let m := m.setCpu { m.guest.cpu with wfi := false }
    if m.irqDeliverable then some (.again ⟨m, executed, none⟩)
    else do
      let (idle, m) ← m.noteIdle t
      if idle then return .leave ⟨m, executed, some .countReached⟩
      else return .again ⟨m, executed, none⟩
  else some (.again ⟨m, executed, none⟩)

variable {t} {m : Machine M}

theorem endPass_eq (executed : t.Usize) (m : Machine M) :
    m.endPass t executed = (t.add executed 1).bind fun executed =>
      (t.add m.totalInsns 1).bind fun total =>
        { m with totalInsns := total }.sleepPass t executed := rfl

theorem blank_sleepPass (hm : m.Frozen) (executed : t.Usize) :
    (m.blank.sleepPass t executed).map (Pass.map Running.blank) =
      (m.sleepPass t executed).map (Pass.map Running.blank) := by
  have hnote := blank_noteIdle (t := t) (m := m.setCpu { m.guest.cpu with wfi := false }) hm
  have hwfi : m.blank.guest.cpu.wfi = m.guest.cpu.wfi := rfl
  have hset : m.blank.setCpu { m.blank.guest.cpu with wfi := false } =
      (m.setCpu { m.guest.cpu with wfi := false }).blank := rfl
  have hirq : (m.setCpu { m.guest.cpu with wfi := false }).blank.irqDeliverable =
      (m.setCpu { m.guest.cpu with wfi := false }).irqDeliverable := rfl
  unfold sleepPass
  dsimp only
  rw [hwfi, hset, hirq]
  split_ifs
  · rfl
  · generalize (m.setCpu { m.guest.cpu with wfi := false }).blank.noteIdle t = r at hnote ⊢
    generalize (m.setCpu { m.guest.cpu with wfi := false }).noteIdle t = r' at hnote ⊢
    have hrest (r : Option (Bool × Machine M)) :
        (r.bind fun p => if p.1 then some (Pass.leave (⟨p.2, executed, some .countReached⟩ :
          Running t M)) else some (.again ⟨p.2, executed, none⟩)).map (Pass.map Running.blank) =
        (r.map fun p => (p.1, p.2.blank)).bind fun p => if p.1 then
          some (Pass.leave (⟨p.2, executed, some .countReached⟩ : Running t M))
          else some (.again ⟨p.2, executed, none⟩) := by
      rcases r with - | ⟨idle, m₁⟩
      · rfl
      · cases idle <;> rfl
    exact (hrest r).trans ((congrArg (Option.bind · _) hnote).trans (hrest r').symm)
  · rfl

theorem blank_endPass (hm : m.Frozen) (executed : t.Usize) :
    (m.blank.endPass t executed).map (Pass.map Running.blank) =
      (m.endPass t executed).map (Pass.map Running.blank) := by
  have htotal : m.blank.totalInsns = m.totalInsns := rfl
  rw [endPass_eq, endPass_eq, htotal]
  cases t.add executed 1 with
  | none => rfl
  | some executed =>
    cases t.add m.totalInsns 1 with
    | none => rfl
    | some total => exact blank_sleepPass (m := { m with totalInsns := total }) hm executed

/-- From its instruction on a pass is the same when blank. -/
theorem blank_insnPass (hm : m.Frozen) (vu : VecUnit) (executed : t.Usize) :
    (m.blank.insnPass t vu executed).map (Pass.map Running.blank) =
      (m.insnPass t vu executed).map (Pass.map Running.blank) := by
  unfold insnPass
  rw [blank_execInsn]
  cases hexec : m.execInsn vu with
  | none => rfl
  | some r =>
    obtain ⟨s, m'⟩ := r
    have hm' : m'.Frozen := by
      obtain ⟨r, -, hr⟩ := Option.map_eq_some_iff.mp hexec
      obtain ⟨-, rfl⟩ := Prod.mk.inj hr
      exact hm
    cases s with
    | next pc => exact blank_endPass hm' executed
    | unsupported pc word =>
      have hundef : (m'.blank.noteUndefined word pc).undefToGuest =
          (m'.noteUndefined word pc).undefToGuest := rfl
      dsimp only [Option.map_some, Option.bind_eq_bind, Option.bind_some]
      rw [hundef]
      split_ifs
      · have henter : (m'.blank.noteUndefined word pc).enterUndefined pc =
            ((m'.noteUndefined word pc).enterUndefined pc).blank :=
          blank_enterUndefined (m'.noteUndefined word pc) pc
        rw [henter]
        exact blank_endPass (m := (m'.noteUndefined word pc).enterUndefined pc) hm' executed
      · rfl

end Machine

namespace JitMachine

variable {R : Type} {br : BlockRunner R M} {j : JitMachine R M}

theorem blank_dropStale : (j.dropStale br).machine.blank = j.machine.blank := by
  unfold dropStale
  dsimp only
  split_ifs with hinval
  · show (({ j with jitCache := _, host := _ } : JitMachine R M).machine).blank = _
    rfl
  · rfl

variable [GicMem M]

variable (br) in
theorem blank_jitEndPass (hm : j.machine.Frozen) (executed : t.Usize) :
    (j.jitEndPass t br executed).map (Pass.map JitRunning.blank) =
      (j.machine.sleepPass t executed).map (Pass.map Running.blank) := by
  have hdrop : (j.dropStale br).machine.Frozen := hm.of_blank blank_dropStale.symm
  have hpass : (j.jitEndPass t br executed).map (Pass.map JitRunning.blank) =
      ((j.dropStale br).machine.sleepPass t executed).map (Pass.map Running.blank) := by
    unfold jitEndPass Machine.sleepPass
    dsimp only
    split_ifs
    · rfl
    · cases ((j.dropStale br).machine.setCpu
        { (j.dropStale br).machine.guest.cpu with wfi := false }).noteIdle t with
      | none => rfl
      | some r =>
        obtain ⟨idle, m⟩ := r
        cases idle <;> rfl
    · rfl
  rw [hpass, ← Machine.blank_sleepPass hdrop, blank_dropStale, Machine.blank_sleepPass hm]

theorem blank_retireInsn (hm : j.machine.Frozen) (executed : t.Usize) :
    (j.retireInsn t br executed).map (Pass.map JitRunning.blank) =
      (j.machine.endPass t executed).map (Pass.map Running.blank) := by
  rw [Machine.endPass_eq]
  unfold retireInsn
  cases t.add executed 1 with
  | none => rfl
  | some executed =>
    cases t.add j.machine.totalInsns 1 with
    | none => rfl
    | some total =>
      exact blank_jitEndPass br (j := j.setMachine { j.machine with totalInsns := total }) hm
        executed

/-- An interpreted instruction of the browser loop is what `run` does from there. -/
theorem blank_interpretInsn (hm : j.machine.Frozen) (vu : VecUnit) (executed : t.Usize) :
    (j.interpretInsn t br vu executed).map (Pass.map JitRunning.blank) =
      (j.machine.insnPass t vu executed).map (Pass.map Running.blank) := by
  have hblank : (j.machine.setCpu { j.machine.guest.cpu with jitExit := 0 }).blank =
      j.machine.blank := rfl
  generalize hm' : j.machine.setCpu { j.machine.guest.cpu with jitExit := 0 } = m at hblank
  have hfrozen : m.Frozen := hm.of_blank hblank.symm
  rw [← Machine.blank_insnPass hm, ← hblank, Machine.blank_insnPass hfrozen]
  unfold interpretInsn Machine.insnPass
  rw [hm']
  dsimp only
  cases hexec : m.execInsn vu with
  | none => rfl
  | some r =>
    obtain ⟨s, m'⟩ := r
    have hm' : m'.Frozen := by
      obtain ⟨r, -, hr⟩ := Option.map_eq_some_iff.mp hexec
      obtain ⟨-, rfl⟩ := Prod.mk.inj hr
      exact hfrozen
    cases s with
    | next pc => exact blank_retireInsn (j := j.setMachine m') hm' executed
    | unsupported pc word =>
      dsimp only [Option.bind_eq_bind, Option.bind_some]
      split_ifs
      · exact blank_retireInsn
          (j := j.setMachine ((m'.noteUndefined word pc).enterUndefined pc)) hm' executed
      · rfl

end JitMachine

/-! ## Quiet runs -/

/-- The checks before a pass (lines 283–291). -/
def limits (stopPc : BitVec 64) (count : t.Usize) (cpu : CpuState) (executed : t.Usize) :
    Option StopReason :=
  if cpu.poweredOff then some .poweredOff
  else if cpu.pc = stopPc then some .untilReached
  else if count ≠ 0 ∧ count ≤ executed then some .countReached
  else none

section Quiet

variable [GicMem M] (t) (vu : VecUnit) (halt : CpuState → t.Usize → Option StopReason)

/-- A pass of `run` under other checks. -/
def checkedPass (s : Running t M) : Option (Pass (Running t M)) :=
  match halt s.machine.guest.cpu s.executed with
  | some reason => some (.leave { s with stop := some reason })
  | none => do
    let m ← s.machine.serviceAsync t
    m.insnPass t vu s.executed

theorem runPass_eq (stopPc : BitVec 64) (count : t.Usize) :
    Machine.runPass (M := M) t vu stopPc count = checkedPass t vu (limits stopPc count) := by
  funext s
  unfold Machine.runPass checkedPass limits
  dsimp only
  split_ifs <;> rfl

/-- No interrupt becomes deliverable, no device does anything and the clock stands still; the
    PC is aligned; and what was read to fetch an instruction, or a page of code, is the same
    when read again. -/
structure Quiet (m : Machine M) : Prop where
  clock : m.Frozen
  service : ∀ timerCounter reads, ∃ timerCounter' reads',
    (m.counters timerCounter reads).serviceAsync t = some (m.counters timerCounter' reads')
  aligned : m.guest.cpu.pc.toNat % 4 = 0
  settled : Settled m.guest
  code : ∀ pa g, fetchPc m.guest = (.ok pa, g) →
    (pageWords (page / 4).toNat (pa &&& ~~~0xfff) g.mem).2 = g.mem

variable {t vu halt} {s : Running t M}

/-- `s` after `n` passes that each retired an instruction, the last of which left `g`. -/
def Running.after (s : Running t M) (n : ℕ) (g : Guest M) (timerCounter : BitVec 32) (reads : ℕ) :
    Running t M :=
  ⟨{ s.machine.counters timerCounter reads with
      guest := g, totalInsns := s.machine.totalInsns + BitVec.ofNat 64 n },
    s.executed + BitVec.ofNat t.usizeBits n, none⟩

theorem checkedPass_of_step (hrelease : t.overflowChecks = false)
    (hgo : halt s.machine.guest.cpu s.executed = none) (hquiet : Quiet t s.machine)
    {pc : BitVec 64} {g : Guest M} (hstep : step vu s.machine.guest = some (.next pc, g))
    (hwfi : g.cpu.wfi = false) :
    ∃ timerCounter reads,
      checkedPass t vu halt s = some (.again (s.after 1 g timerCounter reads)) := by
  obtain ⟨timerCounter, reads, hservice⟩ :=
    hquiet.service s.machine.timerCounter s.machine.reads
  refine ⟨timerCounter, reads, ?_⟩
  have hexec : (s.machine.counters timerCounter reads).execInsn vu =
      some (.next pc, { s.machine.counters timerCounter reads with guest := g }) := by
    unfold Machine.execInsn
    rw [show (s.machine.counters timerCounter reads).guest = s.machine.guest from rfl, hstep]
    rfl
  unfold checkedPass
  rw [hgo]
  dsimp only
  rw [show s.machine.serviceAsync t = _ from hservice, Option.bind_eq_bind, Option.bind_some]
  unfold Machine.insnPass
  rw [hexec, Option.bind_eq_bind, Option.bind_some]
  dsimp only
  rw [Machine.endPass_eq, Target.add_of_wrap hrelease, Target.add_of_wrap hrelease,
    Option.bind_some, Option.bind_some]
  unfold Machine.sleepPass
  dsimp only
  rw [hwfi, if_neg Bool.false_ne_true]
  rfl

theorem steps_succ_iff {n : ℕ} {g g' : Guest M} : steps vu (n + 1) g = some g' ↔
    ∃ pc g₁, step vu g = some (.next pc, g₁) ∧ steps vu n g₁ = some g' := by
  rw [steps]
  constructor
  · intro h
    split at h
    · next pc g₁ hstep => exact ⟨pc, g₁, hstep, h⟩
    · cases h
  · rintro ⟨pc, g₁, hstep, h⟩
    rw [hstep]
    exact h

omit [GicMem M] in
theorem Running.after_after (s : Running t M) (n : ℕ) (g g' : Guest M) (k k' : BitVec 32)
    (r r' : ℕ) : (s.after 1 g k r).after n g' k' r' = s.after (n + 1) g' k' r' := by
  have hadd (w : ℕ) (a : BitVec w) :
      a + BitVec.ofNat w 1 + BitVec.ofNat w n = a + BitVec.ofNat w (n + 1) := by
    rw [BitVec.add_assoc, ← BitVec.ofNat_add, Nat.add_comm 1 n]
  unfold Running.after
  dsimp only
  rw [hadd, hadd]
  rfl

/-- The passes of `run` that retire so many instructions. -/
theorem visits_steps (hrelease : t.overflowChecks = false) {n : ℕ}
    (hquiet : Always (checkedPass t vu halt) (fun s => Quiet t s.machine) s) {g : Guest M}
    (hsteps : steps vu (n + 1) s.machine.guest = some g)
    (hgo : ∀ i ≤ n, ∀ g₁, steps vu i s.machine.guest = some g₁ →
      halt g₁.cpu (s.executed + BitVec.ofNat t.usizeBits i) = none)
    (hawake : ∀ i ≤ n + 1, ∀ g₁, steps vu i s.machine.guest = some g₁ → g₁.cpu.wfi = false) :
    ∃ timerCounter reads,
      Visits (checkedPass t vu halt) (n + 1) s (s.after (n + 1) g timerCounter reads) := by
  induction n generalizing s with
  | zero =>
    obtain ⟨pc, g₁, hstep, hg⟩ := steps_succ_iff.mp hsteps
    obtain rfl : g₁ = g := Option.some.inj hg
    have hzero := hgo 0 le_rfl s.machine.guest rfl
    rw [BitVec.add_zero] at hzero
    obtain ⟨k, r, hpass⟩ := checkedPass_of_step hrelease hzero hquiet.here hstep
      (hawake 1 le_rfl g₁ hsteps)
    exact ⟨k, r, .again hpass (.refl _)⟩
  | succ n ih =>
    obtain ⟨pc, g₁, hstep, hrest⟩ := steps_succ_iff.mp hsteps
    have hlater {i : ℕ} {g₂ : Guest M} (h : steps vu i g₁ = some g₂) :
        steps vu (i + 1) s.machine.guest = some g₂ := steps_succ_iff.mpr ⟨pc, g₁, hstep, h⟩
    have hzero := hgo 0 (Nat.zero_le _) s.machine.guest rfl
    rw [BitVec.add_zero] at hzero
    obtain ⟨k, r, hpass⟩ := checkedPass_of_step hrelease hzero hquiet.here hstep
      (hawake 1 (by omega) g₁ (hlater rfl))
    have hgo' : ∀ i ≤ n, ∀ g₂, steps vu i g₁ = some g₂ →
        halt g₂.cpu ((s.after 1 g₁ k r).executed + BitVec.ofNat t.usizeBits i) = none := by
      intro i hi g₂ hg₂
      have hsum : (s.after 1 g₁ k r).executed + BitVec.ofNat t.usizeBits i =
          s.executed + BitVec.ofNat t.usizeBits (i + 1) :=
        congrArg Running.executed (s.after_after i g₁ g₂ k k r r)
      rw [hsum]
      exact hgo (i + 1) (by omega) g₂ (hlater hg₂)
    obtain ⟨k', r', hvisits⟩ := ih (hquiet.next hpass) hrest hgo' fun i hi g₂ hg₂ =>
      hawake (i + 1) (by omega) g₂ (hlater hg₂)
    refine ⟨k', r', .again hpass ?_⟩
    rwa [Running.after_after] at hvisits

end Quiet

/-! ## Calls -/

/-- What a call of compiled code from `g` does: so many instructions of the interpreter,
    none of which puts the CPU to sleep or off, as far as the mailbox says. PC stays as it
    was, and a call that retires nothing bails. -/
structure Retires [GuestMem M] (vu : VecUnit) (g : Guest M) (n : ℕ) (next : BitVec 64)
    (g' : Guest M) : Prop where
  run : ∃ h, steps vu n g = some h ∧ next = h.cpu.pc ∧
    g' = { h with cpu := { h.cpu with
      pc := g.cpu.pc, flags := g.cpu.flags, nzcv := h.cpu.flags.toNzcv
      jitCount := BitVec.ofNat 64 n, jitExit := g'.cpu.jitExit } }
  lt : n < 2 ^ 32
  progress : g'.cpu.jitExit = 0 → n ≠ 0
  awake : ∀ i ≤ n, ∀ h, steps vu i g = some h → h.cpu.wfi = false ∧ h.cpu.poweredOff = false

section Calls

variable {R : Type} {br : BlockRunner R M} {j : JitMachine R M}

/-- A call is billed as many instructions as it retired, and leaves the guest that these
    leave. -/
theorem callBlock_spec [GuestMem M] {vu : VecUnit} (hrelease : t.overflowChecks = false)
    {handle : BitVec 32} {n : ℕ} {next : BitVec 64} {g : Guest M} {host : R}
    (hrun : br.run j.host handle
      { j.machine.guest with cpu := JitMachine.enterBlock j.machine.guest.cpu } =
        some (next, g, host))
    (h : Retires vu { j.machine.guest with cpu := JitMachine.enterBlock j.machine.guest.cpu }
      n next g) :
    ∃ j' g', j.callBlock t br handle = some (some (BitVec.ofNat t.usizeBits n), j') ∧
      steps vu n { j.machine.guest with cpu := JitMachine.enterBlock j.machine.guest.cpu } =
        some g' ∧
      j'.machine.blank = { j.machine with guest := g' }.blank ∧
      j'.machine.guest.cpu.jitExit = g.cpu.jitExit := by
  obtain ⟨g', hsteps, rfl, hg⟩ := h.run
  refine ⟨{ j with host := host, jitCalls := j.jitCalls + 1 }.setGuest
    { g with cpu := JitMachine.leaveBlock g.cpu g'.cpu.pc }, g', ?_, hsteps, ?_, rfl⟩
  · unfold JitMachine.callBlock
    dsimp only
    have hcount : g.cpu.jitCount.setWidth t.usizeBits = BitVec.ofNat t.usizeBits n := by
      have hbits : t.usizeBits ≤ 64 := by
        rcases t.usize with h32 | h64 <;> omega
      rw [hg]
      exact BitVec.setWidth_ofNat_of_le hbits n
    rw [hrun, Target.add_of_wrap hrelease]
    dsimp only [Option.bind_eq_bind, Option.bind_some]
    rw [hcount]
    rfl
  · have hguest : Guest.blank { g with cpu := JitMachine.leaveBlock g.cpu g'.cpu.pc } =
        g'.blank := by
      rw [hg]
      unfold JitMachine.leaveBlock
      dsimp only
      rw [Flags.fromNzcv_toNzcv]
      rfl
    exact congrArg (fun g => ({ j.machine with guest := g, timerCounter := 0, reads := 0 } :
      Machine M)) hguest

end Calls

/-! ## A pass of the browser loop -/

section Jump

variable [JitMem M] {R : Type} (br : BlockRunner R M) (L : Layout) (vu : VecUnit)

/-- A pass of the browser loop after its checks (lines 145–193). -/
def jitTurn (s : JitRunning t R M) : Option (Pass (JitRunning t R M)) := do
  let m ← s.machine.machine.serviceAsync t
  let (jitted, j) ← (s.machine.setMachine m).jitStep t br L
  j.afterStep t br vu jitted s.executed

/-- Every call that the pass from `s` makes retires instructions, and is `ok`. -/
def CallsRetire (ok : Guest M → ℕ → Guest M → Prop) (s : JitRunning t R M) : Prop :=
  ∀ m, s.machine.machine.serviceAsync t = some m → ∀ handle j,
    (s.machine.setMachine m).jitEntry t br L = some (some handle, j) →
      let g₀ : Guest M :=
        { j.machine.guest with cpu := JitMachine.enterBlock j.machine.guest.cpu }
      ∃ next g host n, br.run j.host handle g₀ = some (next, g, host) ∧
        Retires vu g₀ n next g ∧ ok g₀ n g

/-- The checks `halt` let `run` go through a call from `g₀` that retires `n` instructions,
    and on where it bails. -/
structure GoesOn (halt : CpuState → t.Usize → Option StopReason) (executed : t.Usize)
    (g₀ : Guest M) (n : ℕ) (g : Guest M) : Prop where
  inside : ∀ i, 0 < i → i < n → ∀ h, steps vu i g₀ = some h →
    halt h.cpu (executed + BitVec.ofNat t.usizeBits i) = none
  bail : g.cpu.jitExit ≠ 0 → 0 < n → ∀ h, steps vu n g₀ = some h →
    halt h.cpu (executed + BitVec.ofNat t.usizeBits n) = none

variable {br L vu} {halt : CpuState → t.Usize → Option StopReason}

theorem jitPass_eq (stopPc : BitVec 64) (count : t.Usize) (s : JitRunning t R M) :
    JitMachine.jitPass t br L vu stopPc count s =
      match limits stopPc count s.machine.machine.guest.cpu s.executed with
      | some reason => some (.leave { s with stop := some reason })
      | none => jitTurn br L vu s := by
  unfold JitMachine.jitPass limits
  dsimp only
  split_ifs <;> rfl

theorem service_congr {m m' : Machine M} (hquiet : Quiet t m) (h : m'.blank = m.blank) :
    ∃ m₁, m'.serviceAsync t = some m₁ ∧ m₁.blank = m.blank := by
  obtain ⟨k, r, hservice⟩ := hquiet.service m'.timerCounter m'.reads
  have haside : m'.aside emptied = (m.counters m'.timerCounter m'.reads).aside emptied :=
    congrArg (fun m : Machine M => m.counters m'.timerCounter m'.reads) h
  have hmap := Machine.aside_serviceAsync (t := t) (m := m') (s := emptied) rfl
  rw [haside, Machine.aside_serviceAsync rfl, hservice] at hmap
  obtain ⟨m₁, hm₁, heq⟩ := Option.map_eq_some_iff.mp hmap.symm
  have hblank := congrArg (fun m : Machine M => m.counters 0 0) heq
  exact ⟨m₁, hm₁, hblank⟩

theorem insnPass_congr {m m' : Machine M} (hm : m.Frozen) (h : m'.blank = m.blank)
    (executed : t.Usize) : (m'.insnPass t vu executed).map (Pass.map Running.blank) =
      (m.insnPass t vu executed).map (Pass.map Running.blank) := by
  rw [← Machine.blank_insnPass hm, ← h, Machine.blank_insnPass (hm.of_blank h.symm)]

/-- An instruction that was fetched before is the same. -/
theorem insnPass_fetchPc {m : Machine M} (h : Settled m.guest) (executed : t.Usize) :
    ({ m with guest := (fetchPc m.guest).2 } : Machine M).insnPass t vu executed =
      m.insnPass t vu executed := by
  have hexec : ({ m with guest := (fetchPc m.guest).2 } : Machine M).execInsn vu =
      m.execInsn vu := by
    unfold Machine.execInsn
    rw [step_fetchPc h]
  unfold Machine.insnPass
  rw [hexec]

/-- Where nothing stops it, a quiet pass of `run` is its instruction. -/
theorem checkedPass_eq {s : Running t M} (hquiet : Quiet t s.machine)
    (hgo : halt s.machine.guest.cpu s.executed = none) :
    (checkedPass t vu halt s).map (Pass.map Running.blank) =
      (s.machine.insnPass t vu s.executed).map (Pass.map Running.blank) := by
  obtain ⟨m₁, hservice, hblank⟩ := service_congr hquiet rfl
  unfold checkedPass
  rw [hgo]
  dsimp only
  rw [hservice, Option.bind_eq_bind, Option.bind_some]
  exact insnPass_congr hquiet.clock hblank s.executed

/-- The checks look at PC and at whether the CPU is on. -/
def PcOnly (halt : CpuState → t.Usize → Option StopReason) : Prop :=
  ∀ cpu cpu' : CpuState, cpu.pc = cpu'.pc → cpu.poweredOff = cpu'.poweredOff → halt cpu = halt cpu'

/-- The states of the two loops are the same when blank, whatever they were left with. -/
def Beside (s' : JitRunning t R M) (s : Running t M) : Prop :=
  s'.machine.machine.blank = s.machine.blank ∧ s'.executed = s.executed

omit [JitMem M] in
theorem Beside.of_blank {s' : JitRunning t R M} {s : Running t M} (h : s'.blank = s.blank) :
    Beside s' s := ⟨congrArg Running.machine h, congrArg Running.executed h⟩

variable (br L) in
/-- What comes before a call is a fetch, to a machine that is the same when blank. -/
theorem entry_congr (hrelease : t.overflowChecks = false) {m : Machine M} (hquiet : Quiet t m)
    {j : JitMachine R M} (hj : j.machine.blank = m.blank) :
    ∃ handle j', j.jitEntry t br L = some (handle, j') ∧
      j'.machine.blank = ({ m with guest := (fetchPc m.guest).2 } : Machine M).blank := by
  have hguest : j.machine.guest.blank = m.guest.blank := Machine.guest_of_blank hj
  obtain ⟨hfound, hfetched⟩ := fetchPc_congr hguest
  obtain ⟨handle, j', hentry, hj'⟩ := JitMachine.jitEntry_spec br L hrelease
    (pc_of_blank hguest ▸ hquiet.aligned) (fun pa g hg => by
      have hpa : (fetchPc m.guest).1 = .ok pa := by rw [← hfound, fetchPc, hg]
      have hmem : g.mem = (fetchPc m.guest).2.mem := by
        rw [← mem_of_blank hfetched, fetchPc, hg]
      rw [hmem]
      exact hquiet.code pa _ (Prod.ext hpa rfl))
  refine ⟨handle, j', hentry, ?_⟩
  rw [hj']
  have hmachine := congrArg₂ (fun (m : Machine M) g => { m with guest := g }) hj hfetched
  exact hmachine

/-- Steps from a guest that is like a fetched one are steps from the guest. -/
theorem steps_of_fetched {g g₀ : Guest M} (hsettled : Settled g)
    (hg₀ : g₀.blank = (fetchPc g).2.blank) {n : ℕ} (hn : 0 < n) {h : Guest M} :
    (steps vu n g₀ = some h → ∃ h', steps vu n g = some h' ∧ h.blank = h'.blank) ∧
      (steps vu n g = some h → ∃ h', steps vu n g₀ = some h' ∧ h'.blank = h.blank) := by
  obtain ⟨n, rfl⟩ := Nat.exists_eq_succ_of_ne_zero hn.ne'
  constructor
  · intro hh
    obtain ⟨h', hh', hblank⟩ := steps_congr hg₀ hh
    rw [steps_fetchPc hsettled] at hh'
    exact ⟨h', hh', hblank⟩
  · intro hh
    rw [← steps_fetchPc hsettled] at hh
    obtain ⟨h', hh', hblank⟩ := steps_congr hg₀.symm hh
    exact ⟨h', hh', hblank.symm⟩

/-- The passes of `run` for a call that retires at least one instruction. -/
theorem visits_call (hrelease : t.overflowChecks = false) (hhalt : PcOnly halt)
    {s : Running t M} (hquiet : Always (checkedPass t vu halt) (fun s => Quiet t s.machine) s)
    (hgo : halt s.machine.guest.cpu s.executed = none) {g₀ : Guest M}
    (hg₀ : g₀.blank = (fetchPc s.machine.guest).2.blank) {n : ℕ} {next : BitVec 64} {g h : Guest M}
    (hretires : Retires vu g₀ (n + 1) next g) (hgoes : GoesOn vu halt s.executed g₀ (n + 1) g)
    (hsteps : steps vu (n + 1) g₀ = some h) :
    ∃ k r h', h'.blank = h.blank ∧
      Visits (checkedPass t vu halt) (n + 1) s (s.after (n + 1) h' k r) := by
  have hsettled := hquiet.here.settled
  obtain ⟨h', hsteps', hblank⟩ := (steps_of_fetched hsettled hg₀ n.succ_pos).1 hsteps
  have hgo' : ∀ i ≤ n, ∀ g₁, steps vu i s.machine.guest = some g₁ →
      halt g₁.cpu (s.executed + BitVec.ofNat t.usizeBits i) = none := by
    intro i hi g₁ hg₁
    rcases Nat.eq_zero_or_pos i with rfl | hpos
    · cases hg₁
      rwa [BitVec.add_zero]
    · obtain ⟨g₂, hg₂, heq⟩ := (steps_of_fetched hsettled hg₀ hpos).2 hg₁
      rw [← hhalt _ _ (pc_of_blank heq) (poweredOff_of_blank heq)]
      exact hgoes.inside i hpos (by omega) g₂ hg₂
  have hawake : ∀ i ≤ n + 1, ∀ g₁, steps vu i s.machine.guest = some g₁ → g₁.cpu.wfi = false := by
    intro i hi g₁ hg₁
    rcases Nat.eq_zero_or_pos i with rfl | hpos
    · cases hg₁
      have hwfi := (hretires.awake 0 (Nat.zero_le _) g₀ rfl).1
      obtain ⟨tlb, hcpu⟩ := translate_cpu s.machine.guest s.machine.guest.cpu.pc .exec
        s.machine.guest.cpu.el
      rw [wfi_of_blank hg₀, fetchPc, hcpu] at hwfi
      exact hwfi
    · obtain ⟨g₂, hg₂, heq⟩ := (steps_of_fetched hsettled hg₀ hpos).2 hg₁
      rw [← wfi_of_blank heq]
      exact (hretires.awake i hi g₂ hg₂).1
  obtain ⟨k, r, hvisits⟩ := visits_steps hrelease hquiet hsteps' hgo' hawake
  exact ⟨k, r, h', hblank.symm, hvisits⟩

omit [JitMem M] in
/-- The instructions that compiled code has retired are added to the counters. -/
theorem bill_spec (hrelease : t.overflowChecks = false) {n : ℕ} (hn : n < 2 ^ 32)
    (executed : t.Usize) (j : JitMachine R M) :
    ∃ j', j.bill t (BitVec.ofNat t.usizeBits n) executed =
        some (executed + BitVec.ofNat t.usizeBits n, j') ∧
      j'.machine = { j.machine with
        totalInsns := j.machine.totalInsns + BitVec.ofNat 64 n } := by
  have hcount : (BitVec.ofNat t.usizeBits n).setWidth 64 = BitVec.ofNat 64 n := by
    apply BitVec.eq_of_toNat_eq
    rw [BitVec.toNat_setWidth, Target.toNat_ofNat_usize hn, BitVec.toNat_ofNat]
  unfold JitMachine.bill
  rw [hcount, Target.add_of_wrap hrelease, Target.add_of_wrap hrelease,
    Target.add_of_wrap hrelease]
  exact ⟨_, rfl, rfl⟩

/-- After its checks a pass of the browser loop is some passes of `run` that retire
    instructions, and then either nothing or one more. -/
theorem jitTurn_visits (hrelease : t.overflowChecks = false) (hhalt : PcOnly halt) (most : ℕ)
    {s' : JitRunning t R M} {s : Running t M} (hbeside : Beside s' s)
    (hquiet : Always (checkedPass t vu halt) (fun s => Quiet t s.machine) s)
    (hgo : halt s.machine.guest.cpu s.executed = none)
    (hcalls : CallsRetire br L vu
      (fun g₀ n g => n ≤ most ∧ GoesOn vu halt s'.executed g₀ n g) s') :
    ∃ k s₁, k ≤ most ∧ Visits (checkedPass t vu halt) k s s₁ ∧
      ((0 < k ∧ ∃ s'', jitTurn br L vu s' = some (.again s'') ∧ Beside s'' s₁) ∨
        (halt s₁.machine.guest.cpu s₁.executed = none ∧
          (jitTurn br L vu s').map (Pass.map JitRunning.blank) =
            (checkedPass t vu halt s₁).map (Pass.map Running.blank))) := by
  obtain ⟨hmachine, hexecuted⟩ := hbeside
  have hq := hquiet.here
  obtain ⟨m₁, hservice, hm₁⟩ := service_congr hq hmachine
  obtain ⟨handle, j, hentry, hj⟩ := entry_congr br L hrelease hq
    (j := s'.machine.setMachine m₁) hm₁
  have hfrozen : j.machine.Frozen := Machine.Frozen.of_blank (m :=
    { s.machine with guest := (fetchPc s.machine.guest).2 }) hq.clock hj.symm
  -- one more instruction, from where the fetch left the machine
  have hinsn (j' : JitMachine R M) (hj' : j'.machine.blank = j.machine.blank) :
      (j'.interpretInsn t br vu s.executed).map (Pass.map JitRunning.blank) =
        (checkedPass t vu halt s).map (Pass.map Running.blank) := by
    rw [JitMachine.blank_interpretInsn (hfrozen.of_blank hj'.symm), insnPass_congr hfrozen hj',
      insnPass_congr (m := { s.machine with guest := (fetchPc s.machine.guest).2 }) hq.clock hj,
      insnPass_fetchPc hq.settled, checkedPass_eq hq hgo]
  rw [hexecuted] at hcalls
  cases handle with
  | none =>
    have hturn : jitTurn br L vu s' = j.afterStep t br vu none s.executed := by
      unfold jitTurn JitMachine.jitStep
      rw [hservice, hexecuted]
      dsimp only [Option.bind_eq_bind, Option.bind_some]
      rw [hentry]
      rfl
    refine ⟨0, s, Nat.zero_le most, .refl s, .inr ⟨hgo, ?_⟩⟩
    rw [hturn]
    exact hinsn j rfl
  | some handle =>
    have hturn : jitTurn br L vu s' = (j.callBlock t br handle).bind fun r =>
        r.2.afterStep t br vu r.1 s.executed := by
      unfold jitTurn JitMachine.jitStep
      rw [hservice, hexecuted]
      dsimp only [Option.bind_eq_bind, Option.bind_some]
      rw [hentry]
      rfl
    obtain ⟨next, g, host, n, hrun, hretires, hmost, hgoes⟩ := hcalls m₁ hservice handle j hentry
    obtain ⟨j₂, h, hcall, hsteps, hj₂, hexit⟩ := callBlock_spec hrelease hrun hretires
    obtain ⟨j₃, hbill, hj₃⟩ := bill_spec hrelease hretires.lt s.executed j₂
    have hafter : jitTurn br L vu s' = if j₃.machine.guest.cpu.jitExit ≠ 0 then
        j₃.interpretInsn t br vu (s.executed + BitVec.ofNat t.usizeBits n)
        else j₃.jitEndPass t br (s.executed + BitVec.ofNat t.usizeBits n) := by
      rw [hturn, hcall, Option.bind_some]
      unfold JitMachine.afterStep
      dsimp only
      rw [hbill]
      rfl
    have hbails : j₃.machine.guest.cpu.jitExit = g.cpu.jitExit := by
      rw [hj₃]
      exact hexit
    rw [hbails] at hafter
    -- the machine of the browser loop, as the instructions leave that of `run`
    have hblank {h' : Guest M} (hh' : h'.blank = h.blank) : j₃.machine.blank =
        ({ s.machine with
          guest := h', totalInsns := s.machine.totalInsns + BitVec.ofNat 64 n } :
          Machine M).blank := by
      have hbilled := congrArg (fun m : Machine M =>
        { m with totalInsns := m.totalInsns + BitVec.ofNat 64 n }) hj₂
      have hretired := congrArg₂ (fun (m : Machine M) g => { m with
        guest := g, totalInsns := m.totalInsns + BitVec.ofNat 64 n }) hj hh'.symm
      rw [hj₃]
      exact hbilled.trans hretired
    have hg₀ : Guest.blank { j.machine.guest with
        cpu := JitMachine.enterBlock j.machine.guest.cpu } = (fetchPc s.machine.guest).2.blank :=
      Machine.guest_of_blank hj
    have hfrozen₃ : j₃.machine.Frozen := Machine.Frozen.of_blank (m := { s.machine with
      guest := h, totalInsns := s.machine.totalInsns + BitVec.ofNat 64 n }) hq.clock
      (hblank rfl).symm
    cases n with
    | zero =>
      have hbail : g.cpu.jitExit ≠ 0 := fun hzero => hretires.progress hzero rfl
      rw [if_pos hbail, BitVec.add_zero] at hafter
      refine ⟨0, s, Nat.zero_le most, .refl s, .inr ⟨hgo, ?_⟩⟩
      rw [hafter]
      apply hinsn
      cases hsteps
      have hsame := hblank rfl
      rw [BitVec.add_zero] at hsame
      exact hsame.trans ((congrArg (fun g => ({ s.machine with
        guest := g, timerCounter := 0, reads := 0 } : Machine M)) hg₀).trans hj.symm)
    | succ n =>
      obtain ⟨k, r, h', hh', hvisits⟩ := visits_call hrelease hhalt hquiet hgo hg₀ hretires hgoes
        hsteps
      refine ⟨n + 1, _, hmost, hvisits, ?_⟩
      by_cases hbail : g.cpu.jitExit ≠ 0
      · right
        rw [if_pos hbail] at hafter
        have hgo₁ : halt h'.cpu (s.executed + BitVec.ofNat t.usizeBits (n + 1)) = none := by
          rw [hhalt _ _ (pc_of_blank hh') (poweredOff_of_blank hh')]
          exact hgoes.bail hbail n.succ_pos h hsteps
        have hquiet₁ := (hvisits.always hquiet).here
        refine ⟨hgo₁, ?_⟩
        rw [hafter, JitMachine.blank_interpretInsn hfrozen₃,
          insnPass_congr hquiet₁.clock (hblank hh'), checkedPass_eq hquiet₁ hgo₁]
        rfl
      · left
        rw [if_neg hbail] at hafter
        have hwfi : j₃.machine.guest.cpu.wfi = false := by
          rw [wfi_of_blank (Machine.guest_of_blank (hblank rfl))]
          exact (hretires.awake (n + 1) le_rfl h hsteps).1
        have hend := JitMachine.blank_jitEndPass br hfrozen₃
          (s.executed + BitVec.ofNat t.usizeBits (n + 1))
        unfold Machine.sleepPass at hend
        rw [hwfi, if_neg Bool.false_ne_true, ← hafter] at hend
        obtain ⟨p, hp, heq⟩ := Option.map_eq_some_iff.mp hend
        cases p with
        | leave s'' => cases heq
        | again s'' =>
          have hsame : s''.blank = _ := Pass.again.inj heq
          refine ⟨n.succ_pos, s'', hp, ?_, congrArg Running.executed hsame⟩
          exact (congrArg Running.machine hsame).trans (hblank hh')

end Jump

end V64.Platform
