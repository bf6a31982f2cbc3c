import V64.Interp.Run

/-!
# Runs of a code image

The interpreter over code that is given as a function of the PC, as compiled code is:
`step` without the fetch.

* `codeStep_of_execute`: the step of an instruction that raises no abort.
* `noAbort_machineStep`, `noAbort_codeSteps`: between two events no abort is pending.
* `steps_eq_codeSteps`: where the fetches find the image and leave the state alone,
  a run of the image is a run of the interpreter.
-/

namespace V64.Interp

open V64.Cpu V64.Decoder

variable {M : Type} [GuestMem M]

/-- One instruction of the image, with an implementation. -/
def codeStep (vu : VecUnit) (code : BitVec 64 → BitVec 32) (g : Guest M) : Option (Guest M) :=
  match stepWord vu g (code g.cpu.pc) with
  | some (.next _, g) => some g
  | _ => none

/-- `n` instructions of the image. -/
def codeSteps (vu : VecUnit) (code : BitVec 64 → BitVec 32) : ℕ → Guest M → Option (Guest M)
  | 0, g => some g
  | n + 1, g => (codeSteps vu code n g).bind (codeStep vu code)

section Step

variable {vu : VecUnit} {code : BitVec 64 → BitVec 32} {g g' : Guest M}

/-- An instruction that runs and raises no abort moves on. -/
theorem codeStep_of_execute {next : Option (BitVec 64)}
    (h : execute vu g (decode (code g.cpu.pc)) g.cpu.pc = some (next, g'))
    (habort : g'.cpu.pendingAbort = none) :
    codeStep vu code g =
      some { g' with cpu := { g'.cpu with pc := next.getD (g.cpu.pc + 4) } } := by
  have hretire : retire g' next g.cpu.pc =
      { g' with cpu := { g'.cpu with pc := next.getD (g.cpu.pc + 4) } } := by
    unfold retire
    rw [habort]
  have hword : stepWord vu g (code g.cpu.pc) =
      some (.next (retire g' next g.cpu.pc).cpu.pc, retire g' next g.cpu.pc) := by
    unfold stepWord
    split
    · next hunsupported =>
      rw [hunsupported] at h
      cases h
    · show (execute vu g (decode (code g.cpu.pc)) g.cpu.pc).map _ = _
      rw [h]
      rfl
  unfold codeStep
  rw [hword]
  exact congrArg some hretire

theorem codeSteps_succ {n : ℕ} {g₀ : Guest M} (hn : codeSteps vu code n g₀ = some g)
    (h : codeStep vu code g = some g') : codeSteps vu code (n + 1) g₀ = some g' := by
  rw [codeSteps, hn]
  exact h

theorem pendingAbort_enterEl1 (cpu : CpuState) (returnAddr vecType : BitVec 64) :
    (enterEl1 cpu returnAddr vecType).2.pendingAbort = cpu.pendingAbort := by
  let saved := insertSysreg (insertSysreg cpu keyElrEl1 returnAddr) keySpsrEl1 cpu.pstate
  obtain ⟨sp, spEl, heq⟩ := saved.setElSpsel_eq 1 true
  show (saved.setElSpsel 1 true).pendingAbort = saved.pendingAbort
  rw [heq]

theorem pendingAbort_takeException (cpu : CpuState) (ec iss : BitVec 32)
    (returnAddr : BitVec 64) :
    (takeException cpu ec iss returnAddr).2.pendingAbort = cpu.pendingAbort :=
  pendingAbort_enterEl1 cpu returnAddr vecSync

omit [GuestMem M] in
/-- The end of an instruction takes the abort. -/
theorem noAbort_retire (g : Guest M) (next : Option (BitVec 64)) (pc : BitVec 64) :
    (retire g next pc).cpu.pendingAbort = none := by
  unfold retire
  cases habort : g.cpu.pendingAbort with
  | none => exact habort
  | some abort =>
    show (dataAbort { g.cpu with pendingAbort := none } pc abort).2.pendingAbort = none
    unfold dataAbort
    rw [pendingAbort_takeException]
    rfl

theorem noAbort_stepWord {word : BitVec 32} {s : Step} (h : stepWord vu g word = some (s, g'))
    (hno : g.cpu.pendingAbort = none) : g'.cpu.pendingAbort = none := by
  unfold stepWord at h
  dsimp only at h
  split at h
  · cases h
    exact hno
  · obtain ⟨r, -, hr⟩ := Option.map_eq_some_iff.mp h
    cases hr
    exact noAbort_retire r.2 r.1 _

/-- No instruction leaves an abort pending. -/
theorem noAbort_step {s : Step} (h : step vu g = some (s, g'))
    (hno : g.cpu.pendingAbort = none) : g'.cpu.pendingAbort = none := by
  obtain ⟨tlb, hcpu⟩ := translate_cpu g g.cpu.pc .exec g.cpu.el
  unfold step at h
  dsimp only at h
  split at h
  · next fsc g₁ htr =>
    rw [htr] at hcpu
    cases h
    show (instAbort g₁.cpu g.cpu.pc fsc).2.pendingAbort = none
    unfold instAbort
    rw [pendingAbort_takeException, hcpu]
    exact hno
  · next pa g₁ htr =>
    rw [htr] at hcpu
    apply noAbort_stepWord h
    show g₁.cpu.pendingAbort = none
    rw [hcpu]
    exact hno

/-- No event does. -/
theorem noAbort_machineStep {e : MachineEvent} (h : MachineStep vu g e g')
    (hno : g.cpu.pendingAbort = none) : g'.cpu.pendingAbort = none := by
  cases h with
  | insn hinsn => exact noAbort_step hinsn hno
  | @undefined g₁ pc word hinsn =>
    exact (pendingAbort_takeException g₁.cpu ecUnknown 0 pc).trans (noAbort_step hinsn hno)
  | irq => exact (pendingAbort_enterEl1 g.cpu g.cpu.pc vecIrq).trans hno
  | timer | devices | wake => exact hno

theorem noAbort_codeSteps {n : ℕ} {g₀ : Guest M} (h : codeSteps vu code n g₀ = some g)
    (hno : g₀.cpu.pendingAbort = none) : g.cpu.pendingAbort = none := by
  induction n generalizing g with
  | zero =>
    obtain rfl := Option.some.inj h
    exact hno
  | succ n ih =>
    obtain ⟨g₁, hn, hstep⟩ := Option.bind_eq_some_iff.mp h
    unfold codeStep at hstep
    split at hstep
    · next pc g₂ hword =>
      obtain rfl := Option.some.inj hstep
      exact noAbort_stepWord hword (ih hn)
    · cases hstep

end Step

/-! ## The fetch -/

/-- The fetch at the PC finds the image and changes nothing: the translation is in the
    TLB or the MMU is off, and the word is in RAM. -/
def FetchFinds (code : BitVec 64 → BitVec 32) (g : Guest M) : Prop :=
  ∃ pa, translate g g.cpu.pc .exec g.cpu.el = (.ok pa, g) ∧
    GuestMem.readU32 g.mem pa = (code g.cpu.pc, g.mem)

theorem step_of_fetchFinds {vu : VecUnit} {code : BitVec 64 → BitVec 32} {g : Guest M}
    (h : FetchFinds code g) : step vu g = stepWord vu g (code g.cpu.pc) := by
  obtain ⟨pa, htranslate, hread⟩ := h
  unfold step
  dsimp only
  rw [htranslate]
  dsimp only
  rw [hread]

/-- The first of several steps. -/
theorem codeSteps_succ_first (vu : VecUnit) (code : BitVec 64 → BitVec 32) (n : ℕ) (g : Guest M) :
    codeSteps vu code (n + 1) g = (codeStep vu code g).bind (codeSteps vu code n) := by
  induction n with
  | zero =>
    show (some g).bind (codeStep vu code) = (codeStep vu code g).bind some
    rw [Option.bind_some, Option.bind_fun_some]
  | succ n ih =>
    rw [codeSteps, ih, Option.bind_assoc]
    rfl

/-- Where every fetch of a run finds the image, the run is one of the interpreter. -/
theorem steps_eq_codeSteps (vu : VecUnit) {code : BitVec 64 → BitVec 32} {n : ℕ} {g : Guest M}
    (hfetch : ∀ k < n, ∀ g', codeSteps vu code k g = some g' → FetchFinds code g') :
    steps vu n g = codeSteps vu code n g := by
  induction n generalizing g with
  | zero => rfl
  | succ n ih =>
    have hfirst : step vu g = stepWord vu g (code g.cpu.pc) :=
      step_of_fetchFinds (hfetch 0 (Nat.succ_pos n) g rfl)
    have hrest (g₁ : Guest M) (hg₁ : codeStep vu code g = some g₁) :
        steps vu n g₁ = codeSteps vu code n g₁ := by
      apply ih
      intro k hk g' hg'
      apply hfetch (k + 1) (Nat.succ_lt_succ hk)
      rw [codeSteps_succ_first, hg₁]
      exact hg'
    rw [codeSteps_succ_first, steps, hfirst]
    unfold codeStep at hrest ⊢
    cases hword : stepWord vu g (code g.cpu.pc) with
    | none => rfl
    | some r =>
      obtain ⟨s, g₁⟩ := r
      rw [hword] at hrest
      cases s with
      | next pc => exact hrest g₁ rfl
      | unsupported pc word => rfl

end V64.Interp
