import V64.Interp.Levels

/-!
# The exclusive monitor

The monitor is three fields of the CPU state: a flag, an address and a value. Only
the exclusives write it; no exception does, and neither does an ERET or a CLREX.

* `MonitorEffect`, `monitorEffect_step`: what one event does to the monitor.
* `MachineStep.exclFlag`: no event makes the flag anything but 0 or 1.
-/

namespace V64.Interp

open V64.Cpu V64.Decoder V64.Platform Runs

/-- The monitor of a CPU state. -/
def monitor (cpu : CpuState) : BitVec 8 × BitVec 64 × BitVec 64 :=
  (cpu.exclValid, cpu.exclAddr, cpu.exclVal)

theorem monitor_quiet : Quiet monitor where
  gpr _ _ _ := rfl
  flags _ _ := rfl
  vec _ _ _ _ := rfl
  access _ _ _ _ := rfl
  hint _ _ _ := rfl

/-! ## System instructions and exceptions -/

section System

variable (cpu : CpuState)

theorem monitor_writeSpEl (i : Fin 4) (val : BitVec 64) :
    monitor (cpu.writeSpEl i val) = monitor cpu := by
  unfold CpuState.writeSpEl
  split_ifs <;> rfl

theorem monitor_setElSpsel (el : Fin 4) (spsel : Bool) :
    monitor (cpu.setElSpsel el spsel) = monitor cpu := by
  obtain ⟨sp, spEl, heq⟩ := CpuState.setElSpsel_eq cpu el spsel
  rw [heq]
  rfl

theorem monitor_writeSysreg (key : BitVec 32) (val : BitVec 64) :
    monitor (writeSysreg cpu key val) = monitor cpu := by
  have heff := msrEffect_writeSysreg cpu key val
  generalize writeSysreg cpu key val = cpu' at heff
  cases heff with
  | bank h => exact monitor_writeSpEl cpu _ val
  | _ => rfl

theorem monitor_msrImm (op1 op2 : ℕ) (crm : BitVec 4) :
    monitor (msrImm cpu op1 op2 crm) = monitor cpu := by
  unfold msrImm
  split
  · exact monitor_setElSpsel cpu _ _
  all_goals rfl

theorem monitor_psciCall : monitor (psciCall cpu) = monitor cpu := by
  unfold psciCall
  dsimp only
  split_ifs <;> rfl

theorem monitor_enterEl1 (returnAddr vecType : BitVec 64) :
    monitor (enterEl1 cpu returnAddr vecType).2 = monitor cpu := by
  unfold enterEl1
  extract_lets _ _ _ cpu1 cpu2 cpu3
  show monitor cpu3 = monitor cpu
  exact monitor_setElSpsel cpu2 1 true

theorem monitor_takeException (ec iss : BitVec 32) (returnAddr : BitVec 64) :
    monitor (takeException cpu ec iss returnAddr).2 = monitor cpu :=
  monitor_enterEl1 cpu returnAddr vecSync

theorem monitor_dataAbort (faultPc : BitVec 64) (abort : Abort) :
    monitor (dataAbort cpu faultPc abort).2 = monitor cpu :=
  monitor_takeException (insertSysreg cpu keyFarEl1 abort.far) _ _ faultPc

theorem monitor_instAbort (faultPc : BitVec 64) (fsc : BitVec 8) :
    monitor (instAbort cpu faultPc fsc).2 = monitor cpu :=
  monitor_takeException (insertSysreg cpu keyFarEl1 faultPc) _ _ faultPc

theorem monitor_undefined (pc : BitVec 64) : monitor (undefined cpu pc).2 = monitor cpu :=
  monitor_takeException cpu ecUnknown 0 pc

theorem monitor_eret : monitor (eret cpu).2 = monitor cpu := monitor_setElSpsel _ _ _

end System

/-! ## One instruction -/

/-- The address register of a load exclusive. -/
def ldxBase : Insn → Option Reg
  | .loadExclusive _ _ rn | .loadExclusivePair _ _ _ rn => some rn
  | _ => none

/-- STXR and STXP. -/
def IsStx : Insn → Prop
  | .storeExclusive .. | .storeExclusivePair .. => True
  | _ => False

/-- What an instruction leaves of the monitor: it is kept, and an exclusive that keeps
    it has faulted; or a load exclusive arms it with its address; or a store exclusive
    clears it. -/
def MonitorEffect (insn : Insn) (cpu cpu' : CpuState) : Prop :=
  (monitor cpu' = monitor cpu ∧ (IsExclusive insn → cpu'.pendingAbort ≠ none)) ∨
  (∃ rn, ldxBase insn = some rn ∧ cpu'.exclValid = 1 ∧ cpu'.exclAddr = cpu.readGpr rn true) ∨
  (IsStx insn ∧ cpu'.exclValid = 0)

section Execute

variable {M : Type} [GuestMem M] {g g' : Guest M}

omit [GuestMem M] in
theorem pendingAbort_alignCheck {va bytes : BitVec 64} {write : Bool}
    (h : alignCheck g va bytes write = some g') : g'.cpu.pendingAbort ≠ none := by
  unfold alignCheck at h
  split_ifs at h
  obtain rfl := Option.some.inj h
  exact Option.some_ne_none _

omit [GuestMem M] in
theorem aborted_iff : g.aborted = true ↔ g.cpu.pendingAbort ≠ none :=
  Option.isSome_iff_ne_none

omit [GuestMem M] in
/-- An alignment fault keeps the monitor. -/
theorem monitorEffect_alignCheck {insn : Insn} {va bytes : BitVec 64} {write : Bool}
    (h : alignCheck g va bytes write = some g') : MonitorEffect insn g.cpu g'.cpu :=
  .inl ⟨quiet_alignCheck monitor_quiet h, fun _ => pendingAbort_alignCheck h⟩

theorem monitorEffect_loadExclusive (g : Guest M) (size : ℕ) (rt rn : Reg) :
    MonitorEffect (.loadExclusive size rt rn) g.cpu (loadExclusive g size rt rn).cpu := by
  unfold loadExclusive
  dsimp only
  split
  · next halign => exact monitorEffect_alignCheck halign
  · split_ifs with habort
    · exact .inl ⟨quiet_read monitor_quiet _ _ _, fun _ => aborted_iff.mp habort⟩
    · have harm := quiet_writeResult monitor_quiet
        ((MemAccess.read g (g.cpu.readGpr rn true) size).2.cpu.armExcl (g.cpu.readGpr rn true)
          (MemAccess.read g (g.cpu.readGpr rn true) size).1) (size == 3) rt
        (MemAccess.read g (g.cpu.readGpr rn true) size).1
      exact .inr (.inl ⟨rn, rfl, congrArg Prod.fst harm, congrArg (·.2.1) harm⟩)

theorem monitorEffect_loadExclusivePair (g : Guest M) (size : ℕ) (rt rt2 rn : Reg) :
    MonitorEffect (.loadExclusivePair size rt rt2 rn) g.cpu
      (loadExclusivePair g size rt rt2 rn).cpu := by
  unfold loadExclusivePair
  dsimp only
  split
  · next halign => exact monitorEffect_alignCheck halign
  · split_ifs with habort
    · refine .inl ⟨?_, fun _ => aborted_iff.mp habort⟩
      exact (quiet_read monitor_quiet _ _ _).trans (quiet_read monitor_quiet _ _ _)
    · set g1 := (MemAccess.read g (g.cpu.readGpr rn true) size).2
      set v1 := (MemAccess.read g (g.cpu.readGpr rn true) size).1
      set r2 := MemAccess.read g1 (g.cpu.readGpr rn true + 1 <<< size) size
      have harm := (quiet_writeResult monitor_quiet
        (writeResult (r2.2.cpu.armExcl (g.cpu.readGpr rn true) v1) (size == 3) rt v1) (size == 3)
        rt2 r2.1).trans (quiet_writeResult monitor_quiet
          (r2.2.cpu.armExcl (g.cpu.readGpr rn true) v1) (size == 3) rt v1)
      exact .inr (.inl ⟨rn, rfl, congrArg Prod.fst harm, congrArg (·.2.1) harm⟩)

omit [GuestMem M] in
theorem exclValid_exclFinish (g : Guest M) (rs : Reg) (success : Bool) :
    (exclFinish g rs success).cpu.exclValid = 0 :=
  congrArg Prod.fst (quiet_writeGprW monitor_quiet g.cpu.clearExcl rs false _)

theorem monitorEffect_storeExclusive (g : Guest M) (size : ℕ) (rs rt rn : Reg) :
    MonitorEffect (.storeExclusive size rs rt rn) g.cpu (storeExclusive g size rs rt rn).cpu := by
  unfold storeExclusive
  dsimp only
  split
  · next halign => exact monitorEffect_alignCheck halign
  · exact .inr (.inr ⟨trivial, exclValid_exclFinish _ rs _⟩)

theorem monitorEffect_storeExclusivePair (g : Guest M) (size : ℕ) (rs rt rt2 rn : Reg) :
    MonitorEffect (.storeExclusivePair size rs rt rt2 rn) g.cpu
      (storeExclusivePair g size rs rt rt2 rn).cpu := by
  unfold storeExclusivePair
  dsimp only
  split
  · next halign => exact monitorEffect_alignCheck halign
  · exact .inr (.inr ⟨trivial, exclValid_exclFinish _ rs _⟩)

theorem monitorEffect_execute {vu : VecUnit} {insn : Insn} {pc : BitVec 64}
    {next : Option (BitVec 64)} (h : execute vu g insn pc = some (next, g')) :
    MonitorEffect insn g.cpu g'.cpu := by
  by_cases hexcl : IsExclusive insn
  · cases insn with
    | loadExclusive size rt rn =>
      obtain ⟨-, rfl⟩ := Prod.mk.inj (Option.some.inj h)
      exact monitorEffect_loadExclusive g size rt rn
    | storeExclusive size rs rt rn =>
      obtain ⟨-, rfl⟩ := Prod.mk.inj (Option.some.inj h)
      exact monitorEffect_storeExclusive g size rs rt rn
    | loadExclusivePair size rt rt2 rn =>
      obtain ⟨-, rfl⟩ := Prod.mk.inj (Option.some.inj h)
      exact monitorEffect_loadExclusivePair g size rt rt2 rn
    | storeExclusivePair size rs rt rt2 rn =>
      obtain ⟨-, rfl⟩ := Prod.mk.inj (Option.some.inj h)
      exact monitorEffect_storeExclusivePair g size rs rt rt2 rn
    | _ => exact absurd hexcl id
  · refine .inl ⟨?_, fun hexcl' => absurd hexcl' hexcl⟩
    by_cases hsys : IsSystem insn
    · cases insn with
      | sysRegMove read key rt =>
        obtain rfl : read = false := hsys
        obtain ⟨-, rfl⟩ := Prod.mk.inj (Option.some.inj h)
        exact monitor_writeSysreg g.cpu key _
      | msrImm op1 op2 crm =>
        obtain ⟨-, rfl⟩ := Prod.mk.inj (Option.some.inj h)
        exact monitor_msrImm g.cpu op1 op2 crm
      | svc imm16 =>
        obtain ⟨-, rfl⟩ := Prod.mk.inj (Option.some.inj h)
        exact monitor_takeException g.cpu _ _ _
      | hvc imm16 =>
        obtain ⟨-, rfl⟩ := Prod.mk.inj (Option.some.inj h)
        exact monitor_psciCall g.cpu
      | smc imm16 =>
        obtain ⟨-, rfl⟩ := Prod.mk.inj (Option.some.inj h)
        exact monitor_psciCall g.cpu
      | eret =>
        obtain ⟨-, rfl⟩ := Prod.mk.inj (Option.some.inj h)
        exact monitor_eret g.cpu
      | brk imm16 =>
        obtain ⟨-, rfl⟩ := Prod.mk.inj (Option.some.inj h)
        exact monitor_takeException g.cpu _ _ _
      | _ => exact absurd hsys id
    · exact quiet_execute monitor_quiet h hsys fun hexcl' => absurd hexcl' hexcl

omit [GuestMem M] in
theorem monitor_retire (g : Guest M) (next : Option (BitVec 64)) (pc : BitVec 64) :
    monitor (retire g next pc).cpu = monitor g.cpu := by
  unfold retire
  cases g.cpu.pendingAbort with
  | some abort => exact monitor_dataAbort { g.cpu with pendingAbort := none } pc abort
  | none => rfl

end Execute

/-! ## One event -/

section Event

variable {M : Type} [GuestMem M] {vu : VecUnit} {g g' : Guest M}

/-- The word that `step` fetches and the state after the fetch, unless it faults. -/
def fetch (g : Guest M) : Option (BitVec 32 × Guest M) :=
  match translate g g.cpu.pc .exec g.cpu.el with
  | (.error _, _) => none
  | (.ok pa, g) =>
    let r := GuestMem.readU32 g.mem pa
    some (r.1, { g with mem := r.2 })

/-- A fetch changes the TLB only. -/
theorem fetch_cpu {word : BitVec 32} {g1 : Guest M} (h : fetch g = some (word, g1)) :
    ∃ tlb, g1.cpu = { g.cpu with tlb := tlb } := by
  unfold fetch at h
  split at h
  · cases h
  · next pa g2 htrans =>
    obtain ⟨tlb, htlb⟩ := translate_cpu g g.cpu.pc .exec g.cpu.el
    rw [htrans] at htlb
    obtain ⟨-, rfl⟩ := Prod.mk.inj (Option.some.inj h)
    exact ⟨tlb, htlb⟩

theorem step_of_fetch {word : BitVec 32} {g1 : Guest M} (h : fetch g = some (word, g1)) :
    step vu g = stepWord vu g1 word := by
  unfold fetch at h
  unfold step
  dsimp only
  generalize translate g g.cpu.pc .exec g.cpu.el = t at h ⊢
  obtain ⟨r, g2⟩ := t
  cases r with
  | error fsc => cases h
  | ok pa =>
    obtain ⟨rfl, rfl⟩ := Prod.mk.inj (Option.some.inj h)
    rfl

/-- A fetch that faults enters EL1 and keeps the monitor. -/
theorem step_of_fetch_none {s : Step} (h : fetch g = none) (hstep : step vu g = some (s, g')) :
    monitor g'.cpu = monitor g.cpu := by
  have hfetch := quiet_translate monitor_quiet g g.cpu.pc .exec g.cpu.el
  unfold fetch at h
  unfold step at hstep
  dsimp only at hstep
  generalize translate g g.cpu.pc .exec g.cpu.el = t at h hstep hfetch
  obtain ⟨r, g1⟩ := t
  cases r with
  | error fsc =>
    obtain ⟨-, rfl⟩ := Prod.mk.inj (Option.some.inj hstep)
    exact (monitor_instAbort g1.cpu g.cpu.pc fsc).trans hfetch
  | ok pa => cases h

/-- The event takes an exception: an interrupt, an encoding without an implementation,
    a fetch abort, SVC, BRK, or an instruction that leaves a data abort. -/
def TakesException (vu : VecUnit) (g : Guest M) : MachineEvent → Prop
  | .irq | .undefined => True
  | .insn => ∀ word g1, fetch g = some (word, g1) →
      (∃ imm16, decode word = .svc imm16) ∨ (∃ imm16, decode word = .brk imm16) ∨
        ∃ next g2, execute vu g1 (decode word) g1.cpu.pc = some (next, g2) ∧
          g2.cpu.pendingAbort ≠ none
  | .timer | .devices | .wake => False

/-- The event takes an exception or executes an ERET or a CLREX. -/
def Interrupts (vu : VecUnit) (g : Guest M) (e : MachineEvent) : Prop :=
  TakesException vu g e ∨ e = .insn ∧ ∃ word g1, fetch g = some (word, g1) ∧
    (isClrexWord word = true ∨ decode word = .eret)

/-- The event executes an STXR or STXP. -/
def RunsStx (g : Guest M) (e : MachineEvent) : Prop :=
  e = .insn ∧ ∃ word g1, fetch g = some (word, g1) ∧ IsStx (decode word)

/-- The address of the LDXR or LDXP that is next, if one is. -/
def ldxAddr (g : Guest M) : Option (BitVec 64) :=
  (fetch g).bind fun r => (ldxBase (decode r.1)).map fun rn => r.2.cpu.readGpr rn true

/-- What an implemented instruction does to the monitor, exception included. -/
theorem monitor_stepWord {word : BitVec 32} {g1 : Guest M} {pc : BitVec 64}
    (h : stepWord vu g1 word = some (.next pc, g')) :
    (monitor g'.cpu = monitor g1.cpu ∧ (IsExclusive (decode word) → ∃ next g2,
      execute vu g1 (decode word) g1.cpu.pc = some (next, g2) ∧ g2.cpu.pendingAbort ≠ none)) ∨
    (∃ rn, ldxBase (decode word) = some rn ∧ g'.cpu.exclValid = 1 ∧
      g'.cpu.exclAddr = g1.cpu.readGpr rn true) ∨
    g'.cpu.exclValid = 0 := by
  unfold stepWord at h
  dsimp only at h
  split at h
  · cases h
  · obtain ⟨⟨next, g2⟩, hexec, hpair⟩ := Option.map_eq_some_iff.mp h
    obtain ⟨-, rfl⟩ := Prod.mk.inj hpair
    have hretire := monitor_retire g2 next g1.cpu.pc
    obtain ⟨hkept, habort⟩ | ⟨rn, hldx, hvalid, haddr⟩ | ⟨-, hvalid⟩ := monitorEffect_execute hexec
    · exact .inl ⟨hretire.trans hkept, fun hexcl => ⟨next, g2, hexec, habort hexcl⟩⟩
    · exact .inr (.inl ⟨rn, hldx, (congrArg Prod.fst hretire).trans hvalid,
        (congrArg (·.2.1) hretire).trans haddr⟩)
    · exact .inr (.inr ((congrArg Prod.fst hretire).trans hvalid))

theorem isExclusive_of_isStx {insn : Insn} (h : IsStx insn) : IsExclusive insn := by
  cases insn with
  | storeExclusive | storeExclusivePair => trivial
  | _ => exact absurd h id

/-- What one event does to the monitor. -/
theorem MachineStep.exclusive {e : MachineEvent} (h : MachineStep vu g e g') :
    (monitor g'.cpu = monitor g.cpu ∧ (RunsStx g e → TakesException vu g e)) ∨
    (e = .insn ∧ ldxAddr g = some g'.cpu.exclAddr ∧ g'.cpu.exclValid = 1) ∨
      g'.cpu.exclValid = 0 := by
  cases h with
  | insn h =>
    cases hfetch : fetch g with
    | none =>
      refine .inl ⟨step_of_fetch_none hfetch h, fun _ word g1 hsome => ?_⟩
      rw [hfetch] at hsome
      cases hsome
    | some r =>
      obtain ⟨word, g1⟩ := r
      obtain ⟨tlb, hcpu⟩ := fetch_cpu hfetch
      have hfetched : monitor g1.cpu = monitor g.cpu := by
        rw [hcpu]
        rfl
      rw [step_of_fetch hfetch] at h
      obtain ⟨hkept, habort⟩ | ⟨rn, hldx, hvalid, haddr⟩ | hvalid := monitor_stepWord h
      · refine .inl ⟨hkept.trans hfetched, fun hstx word' g1' hsome => ?_⟩
        obtain ⟨-, word'', g1'', hsome', hstx⟩ := hstx
        rw [hfetch] at hsome hsome'
        obtain ⟨rfl, rfl⟩ := Prod.mk.inj (Option.some.inj hsome)
        obtain ⟨rfl, rfl⟩ := Prod.mk.inj (Option.some.inj hsome')
        exact .inr (.inr (habort (isExclusive_of_isStx hstx)))
      · refine .inr (.inl ⟨rfl, ?_, hvalid⟩)
        rw [ldxAddr, hfetch, Option.bind_some, hldx, haddr]
        rfl
      · exact .inr (.inr hvalid)
  | @undefined g1 pc word h =>
    refine .inl ⟨?_, fun h => absurd h.1 (by decide)⟩
    refine (monitor_undefined g1.cpu pc).trans ?_
    cases hfetch : fetch g with
    | none => exact step_of_fetch_none hfetch h
    | some r =>
      obtain ⟨word', g2⟩ := r
      obtain ⟨tlb, hcpu⟩ := fetch_cpu hfetch
      rw [step_of_fetch hfetch] at h
      unfold stepWord at h
      dsimp only at h
      split at h
      · obtain ⟨-, rfl⟩ := Prod.mk.inj (Option.some.inj h)
        rw [hcpu]
        rfl
      · obtain ⟨r, -, hpair⟩ := Option.map_eq_some_iff.mp h
        cases (Prod.mk.inj hpair).1
  | irq h => exact .inl ⟨monitor_enterEl1 g.cpu g.cpu.pc vecIrq, fun _ => trivial⟩
  | timer ticks => exact .inl ⟨rfl, fun h => absurd h.1 (by decide)⟩
  | devices mem => exact .inl ⟨rfl, fun h => absurd h.1 (by decide)⟩
  | wake => exact .inl ⟨rfl, fun h => absurd h.1 (by decide)⟩

/-- The flag of the monitor stays 0 or 1. -/
theorem MachineStep.exclFlag {e : MachineEvent} (h : MachineStep vu g e g')
    (hflag : g.cpu.exclValid = 0 ∨ g.cpu.exclValid = 1) :
    g'.cpu.exclValid = 0 ∨ g'.cpu.exclValid = 1 := by
  obtain ⟨hkept, -⟩ | ⟨-, -, hone⟩ | hzero := h.exclusive
  · have hvalid : g'.cpu.exclValid = g.cpu.exclValid := congrArg Prod.fst hkept
    rw [hvalid]
    exact hflag
  · exact .inr hone
  · exact .inl hzero

/-! ## Every successful store exclusive -/

/-- The address of the STXR or STXP that is next, if it will report success. -/
def stxSuccess (g : Guest M) : Option (BitVec 64) :=
  (fetch g).bind fun r =>
    let succeeds (size : ℕ) (bytes addr : BitVec 64) : Option (BitVec 64) :=
      if (alignCheck r.2 addr bytes true).isNone && (exclMatches r.2 addr size).1 then some addr
      else none
    match decode r.1 with
    | .storeExclusive size _ _ rn => succeeds size (1 <<< size) (r.2.cpu.readGpr rn true)
    | .storeExclusivePair size _ _ _ rn =>
      succeeds size (2 * (1 <<< size)) (r.2.cpu.readGpr rn true)
    | _ => none

/-- `events` end with an LDXR or LDXP of `addr`, whether it faulted or not, and what came after
    it: no exception, ERET or CLREX, and no STXR or STXP. -/
def Paired (vu : VecUnit) (start : Guest M) (events : List MachineEvent) (g : Guest M)
    (addr : BitVec 64) : Prop :=
  ∃ before g0 g1 after, events = before ++ .insn :: after ∧
    Run (MachineStep vu) start before g0 ∧ ldxAddr g0 = some addr ∧ MachineStep vu g0 .insn g1 ∧
    Run (fun g e g' => MachineStep vu g e g' ∧ ¬ Interrupts vu g e ∧ ¬ RunsStx g e) g1 after g

/-- The event does not interrupt an armed monitor. -/
def MonitorOk (vu : VecUnit) (g : Guest M) (e : MachineEvent) : Prop :=
  Interrupts vu g e → g.cpu.exclValid = 0

theorem excl_of_exclMatches {addr : BitVec 64} {size : ℕ} (h : (exclMatches g addr size).1 = true) :
    g.cpu.exclValid ≠ 0 ∧ g.cpu.exclAddr = addr := by
  unfold exclMatches at h
  split at h
  · next a v hexcl =>
    unfold CpuState.excl at hexcl
    split_ifs at hexcl h with hvalid haddr
    · obtain ⟨rfl, -⟩ := Prod.mk.inj (Option.some.inj hexcl)
      exact ⟨hvalid, haddr⟩
  · cases h

/-- A store exclusive that succeeds finds the monitor armed with its address. -/
theorem armed_of_stxSuccess {addr : BitVec 64} (h : stxSuccess g = some addr) :
    g.cpu.exclValid ≠ 0 ∧ g.cpu.exclAddr = addr := by
  obtain ⟨⟨word, g1⟩, hfetch, h⟩ := Option.bind_eq_some_iff.mp h
  obtain ⟨tlb, hcpu⟩ := fetch_cpu hfetch
  have hif {size : ℕ} {bytes addr' : BitVec 64}
      (h : (if (alignCheck g1 addr' bytes true).isNone && (exclMatches g1 addr' size).1
        then some addr' else none) = some addr) :
      g1.cpu.exclValid ≠ 0 ∧ g1.cpu.exclAddr = addr := by
    split_ifs at h with hsuccess
    obtain rfl := Option.some.inj h
    exact excl_of_exclMatches (Bool.and_eq_true_iff.mp hsuccess).2
  have harmed : g1.cpu.exclValid ≠ 0 ∧ g1.cpu.exclAddr = addr := by
    dsimp only at h
    split at h
    · exact hif h
    · exact hif h
    · cases h
  rw [hcpu] at harmed
  exact harmed

/-- In a run whose events do not interrupt an armed monitor, the monitor is armed by an
    LDXR or LDXP of its address that nothing has interrupted. -/
theorem paired_of_run {start : Guest M} {events : List MachineEvent}
    (hstart : start.cpu.exclValid = 0)
    (hrun : Run (fun g e g' => MachineStep vu g e g' ∧ MonitorOk vu g e) start events g) :
    g.cpu.exclValid = 0 ∨ Paired vu start events g g.cpu.exclAddr := by
  induction hrun using Run.induction_last with
  | nil => exact .inl hstart
  | snoc events g e g' hrun h hinv =>
    obtain ⟨hstep, hok⟩ := h
    obtain ⟨hkept, hstx⟩ | ⟨rfl, hldx, -⟩ | hzero := hstep.exclusive
    · -- the monitor is as it was, so it was not interrupted or it was not armed
      have hvalid : g'.cpu.exclValid = g.cpu.exclValid := congrArg Prod.fst hkept
      have haddr : g'.cpu.exclAddr = g.cpu.exclAddr := congrArg (·.2.1) hkept
      by_cases hint : Interrupts vu g e
      · exact .inl (hvalid.trans (hok hint))
      · obtain hzero | ⟨before, g0, g1, after, rfl, hbefore, hldx, hg1, hafter⟩ := hinv
        · exact .inl (hvalid.trans hzero)
        · have hnot : ¬ RunsStx g e := fun h => hint (.inl (hstx h))
          refine .inr ⟨before, g0, g1, after ++ [e], ?_, hbefore, haddr ▸ hldx, hg1, ?_⟩
          · rw [List.append_assoc, List.cons_append]
          · exact hafter.snoc ⟨hstep, hint, hnot⟩
    · -- the event is the LDXR itself
      refine .inr ⟨events, g, g', [], rfl, ?_, hldx, hstep, .nil g'⟩
      exact hrun.mono fun _ _ _ h => h.1
    · exact .inl hzero

end Event

/-! ## Two programs -/

theorem steps_one_of_machineStep {M : Type} [GuestMem M] {vu : VecUnit} {g g' : Guest M}
    (h : MachineStep vu g .insn g') : steps vu 1 g = some g' := by
  cases h with
  | insn h =>
    rw [steps, h]
    rfl

end V64.Interp
