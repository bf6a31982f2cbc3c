import V64.Interp.Monitor

/-!
# Store exclusives that fault

An instruction that takes a data abort is executed again after the handler, so it
has to leave the guest as it was. The store exclusives do not: they compare, write,
clear the monitor and write Ws, and look at the pending abort nowhere.

* `Restartable`: what a faulting instruction may change, the TLB and the pending
  abort only.
* `storeExclusive_of_disarmed`, `storeExclusivePair_of_disarmed`: a disarmed monitor
  is not compared, so such a store cannot fault.
* `not_restartable_of_stx`: hence every STXR or STXP that faults has cleared a
  monitor that was armed, and the second attempt fails.
-/

namespace V64.Interp

open V64.Cpu V64.Decoder V64.Platform

/-- Executed again from `g'`, an instruction finds all that it found in `g`: no register,
    no byte of memory and nothing of the monitor has changed. -/
def Restartable {M : Type} (g g' : Guest M) : Prop := SameRegs g.cpu g'.cpu ∧ g'.mem = g.mem

theorem Restartable.monitor_eq {M : Type} {g g' : Guest M} (h : Restartable g g') :
    monitor g'.cpu = monitor g.cpu := h.1.quiet monitor_quiet

section Disarmed

variable {M : Type} [GuestMem M] {g : Guest M}

theorem exclMatches_of_disarmed (h : g.cpu.exclValid = 0) (addr : BitVec 64) (size : ℕ) :
    exclMatches g addr size = (false, g) := by
  have hexcl : g.cpu.excl = none := if_neg fun hne => hne h
  unfold exclMatches
  rw [hexcl]

theorem storeExclusive_of_disarmed (h : g.cpu.exclValid = 0) {size : ℕ} {rn : Reg}
    (halign : alignCheck g (g.cpu.readGpr rn true) (1 <<< size) true = none) (rs rt : Reg) :
    storeExclusive g size rs rt rn = exclFinish g rs false := by
  unfold storeExclusive
  dsimp only
  rw [halign, exclMatches_of_disarmed h]
  rfl

theorem storeExclusivePair_of_disarmed (h : g.cpu.exclValid = 0) {size : ℕ} {rn : Reg}
    (halign : alignCheck g (g.cpu.readGpr rn true) ((2 : BitVec 64) * (1 <<< size : ℕ)) true = none)
    (rs rt rt2 : Reg) : storeExclusivePair g size rs rt rt2 rn = exclFinish g rs false := by
  unfold storeExclusivePair
  dsimp only
  rw [halign, exclMatches_of_disarmed h]
  rfl

omit [GuestMem M] in
theorem pendingAbort_exclFinish (g : Guest M) (rs : Reg) (success : Bool) :
    (exclFinish g rs success).cpu.pendingAbort = g.cpu.pendingAbort := by
  obtain ⟨x, sp, heq⟩ := CpuState.writeGpr_eq g.cpu.clearExcl rs false
    (bit64 (!success) &&& 0xffffffff#64)
  unfold exclFinish CpuState.writeGprW
  rw [heq]
  rfl

omit [GuestMem M] in
/-- The status of an alignment fault. -/
theorem fsc_alignCheck {g' : Guest M} {va bytes : BitVec 64} {write : Bool} {abort : Abort}
    (h : alignCheck g va bytes write = some g') (habort : g'.cpu.pendingAbort = some abort) :
    abort.fsc = fscAlignment := by
  unfold alignCheck at h
  split_ifs at h
  obtain rfl := Option.some.inj h
  obtain rfl := Option.some.inj habort
  rfl

end Disarmed

/-! ## Both store exclusives -/

section Stx

variable {M : Type} [GuestMem M] {vu : VecUnit} {g g' : Guest M} {insn : Insn} {pc : BitVec 64}
  {next : Option (BitVec 64)} {abort : Abort}

/-- A store exclusive that faults, and not for its alignment, found the monitor armed. -/
theorem armed_of_stx_abort (hstx : IsStx insn) (hpending : g.cpu.pendingAbort = none)
    (hexec : execute vu g insn pc = some (next, g')) (habort : g'.cpu.pendingAbort = some abort)
    (hfsc : abort.fsc ≠ fscAlignment) : g.cpu.exclValid ≠ 0 := by
  intro hzero
  have hnone (rs : Reg) : (exclFinish g rs false).cpu.pendingAbort ≠ some abort := by
    rw [pendingAbort_exclFinish, hpending]
    nofun
  cases insn with
  | storeExclusive size rs rt rn =>
    obtain ⟨-, rfl⟩ := Prod.mk.inj (Option.some.inj hexec)
    cases halign : alignCheck g (g.cpu.readGpr rn true) (1 <<< size) true with
    | none =>
      rw [storeExclusive_of_disarmed hzero halign] at habort
      exact hnone rs habort
    | some g1 =>
      unfold storeExclusive at habort
      dsimp only at habort
      rw [halign] at habort
      exact hfsc (fsc_alignCheck halign habort)
  | storeExclusivePair size rs rt rt2 rn =>
    obtain ⟨-, rfl⟩ := Prod.mk.inj (Option.some.inj hexec)
    cases halign :
        alignCheck g (g.cpu.readGpr rn true) ((2 : BitVec 64) * (1 <<< size : ℕ)) true with
    | none =>
      rw [storeExclusivePair_of_disarmed hzero halign] at habort
      exact hnone rs habort
    | some g1 =>
      unfold storeExclusivePair at habort
      dsimp only at habort
      rw [halign] at habort
      exact hfsc (fsc_alignCheck halign habort)
  | _ => exact absurd hstx id

/-- A store exclusive that faults, and not for its alignment, has cleared the monitor. -/
theorem disarmed_of_stx_abort (hstx : IsStx insn)
    (hexec : execute vu g insn pc = some (next, g')) (habort : g'.cpu.pendingAbort = some abort)
    (hfsc : abort.fsc ≠ fscAlignment) : g'.cpu.exclValid = 0 := by
  cases insn with
  | storeExclusive size rs rt rn =>
    obtain ⟨-, rfl⟩ := Prod.mk.inj (Option.some.inj hexec)
    unfold storeExclusive at habort ⊢
    dsimp only at habort ⊢
    split at habort
    · next halign => exact absurd (fsc_alignCheck halign habort) hfsc
    · exact exclValid_exclFinish _ rs _
  | storeExclusivePair size rs rt rt2 rn =>
    obtain ⟨-, rfl⟩ := Prod.mk.inj (Option.some.inj hexec)
    unfold storeExclusivePair at habort ⊢
    dsimp only at habort ⊢
    split at habort
    · next halign => exact absurd (fsc_alignCheck halign habort) hfsc
    · exact exclValid_exclFinish _ rs _
  | _ => exact absurd hstx id

/-- No STXR or STXP that raises a translation or permission fault can be executed again:
    the monitor was armed and is not any more, so that the next attempt fails. -/
theorem not_restartable_of_stx (hstx : IsStx insn) (hpending : g.cpu.pendingAbort = none)
    (hexec : execute vu g insn pc = some (next, g')) (habort : g'.cpu.pendingAbort = some abort)
    (hfsc : abort.fsc ≠ fscAlignment) : ¬ Restartable g g' := by
  intro hrestart
  have harmed := armed_of_stx_abort hstx hpending hexec habort hfsc
  have hcleared := disarmed_of_stx_abort hstx hexec habort hfsc
  have hkept : g'.cpu.exclValid = g.cpu.exclValid := congrArg Prod.fst hrestart.monitor_eq
  exact harmed (hkept.symm.trans hcleared)

end Stx

/-! ## A read-only page -/

/-- Page 0 is mapped read-only to the page at `0x1000`, and `ldxr w0, [x1]` has armed
    the monitor with address 0. -/
def readOnlyGuest : Guest (Bus Empty) :=
  loadExclusive
    { cpu := writeSysreg (writeSysreg CpuState.new keyTcrEl1 0x330033) keySctlrEl1 1
      mem := {
        ram := { base := 0, size := 0x2000, bytes := Bytes.storeLe (fun _ => 0) 0 8 0x1481#64 }
        devices := [] } }
    2 0 1

/-- `stxr w2, w0, [x1]` to the read-only page. -/
theorem not_restartable_of_stx_readOnly :
    ¬ Restartable readOnlyGuest (storeExclusive readOnlyGuest 2 2 0 1) :=
  @not_restartable_of_stx (Bus Empty) _ (fun _ _ => none) readOnlyGuest _
    (.storeExclusive 2 2 0 1) 0 none ⟨0, true, 0xf⟩ trivial (by decide +kernel) rfl
    (by decide +kernel) (by decide)

/-- The store exclusive to the read-only page disarms the monitor and reports success. -/
theorem not_stx_restartable :
    ¬ ∀ (vu : VecUnit) (g g' : Guest (Bus Empty)) (insn : Insn) (pc : BitVec 64)
      (next : Option (BitVec 64)) (abort : Abort), IsStx insn → g.cpu.pendingAbort = none →
        execute vu g insn pc = some (next, g') → g'.cpu.pendingAbort = some abort →
        abort.fsc ≠ fscAlignment → Restartable g g' := by
  intro h
  have hrestart := h (fun _ _ => none) readOnlyGuest _ (.storeExclusive 2 2 0 1) 0 none
    ⟨0, true, 0xf⟩ trivial (by decide +kernel) rfl (by decide +kernel) (by decide)
  have hvalid : (storeExclusive readOnlyGuest 2 2 0 1).cpu.exclValid =
      readOnlyGuest.cpu.exclValid := congrArg Prod.fst hrestart.monitor_eq
  exact absurd hvalid (by decide +kernel)

end V64.Interp
