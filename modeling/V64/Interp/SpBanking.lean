import V64.Interp.System
import V64.Lib.RegisterFile

/-!
# Banked stack pointers refine independent registers

The live `sp` duplicates the bank that EL and SPSel select, and the bank's own
copy in `sp_el` goes stale while it is selected. Over the operations that touch
a stack pointer, the banks still behave as a file of independent registers.

* `SpOp.step_readSpEl`, `SpOp.step_coherent`: one operation.
* `spBanks_refine`: every sequence of them.
-/

namespace V64.Interp

open V64.Cpu V64.Decoder RegisterFile

/-- An access to a stack pointer: the bank and the value. -/
abbrev SpEvent := Event (Fin 4) (BitVec 64)

/-- The bank that a PSTATE with `el` and `spsel` selects. -/
def selectedBank (el : Fin 4) (spsel : Bool) : Fin 4 := if spsel then el else 0

/-- The operations that switch banks, name a bank or use the active SP. An
ordinary instruction reads and writes its operands through `readGpr` and
`writeGpr`; with `sp` set, register 31 is the active SP. -/
inductive SpOp where
  | exception (e : Exc)
  | eret
  | msrImm (op1 op2 : ℕ) (crm : BitVec 4)
  | mrs (key : BitVec 32) (rt : Reg)
  | msr (key : BitVec 32) (rt : Reg)
  | readReg (idx : Reg) (sp : Bool)
  | writeReg (idx : Reg) (sp : Bool) (val : BitVec 64)

/-- The access to a named bank, if `key` names one. -/
def bankEvent (key : BitVec 32) (event : Fin 4 → SpEvent) : List SpEvent :=
  match spBank key with
  | some i => [event i]
  | none => []

/-- The access to the active SP, if the operand is register 31 in SP context. -/
def activeEvent (cpu : CpuState) (idx : Reg) (sp : Bool) (event : Fin 4 → SpEvent) :
    List SpEvent :=
  if idx.val = 31 ∧ sp = true then [event (selectedBank cpu.el cpu.spsel)] else []

/-- The state after an operation, and the accesses to stack pointers it makes. -/
def SpOp.step (cpu : CpuState) : SpOp → CpuState × List SpEvent
  | exception e => ((e.take cpu).2, [])
  | eret => ((Interp.eret cpu).2, [])
  | msrImm op1 op2 crm => (Interp.msrImm cpu op1 op2 crm, [])
  | mrs key rt => (sysRegMove cpu true key rt, bankEvent key (.read · (readSysreg cpu key)))
  | msr key rt => (sysRegMove cpu false key rt, bankEvent key (.write · (cpu.readGpr rt false)))
  | readReg idx sp => (cpu, activeEvent cpu idx sp (.read · (cpu.readGpr idx sp)))
  | writeReg idx sp val => (cpu.writeGpr idx sp val, activeEvent cpu idx sp (.write · val))

/-! ## One operation -/

theorem readSpEl_writeGpr_x (cpu : CpuState) (rt : Reg) (val : BitVec 64) :
    (cpu.writeGpr rt false val).readSpEl = cpu.readSpEl := by
  unfold CpuState.writeGpr
  split_ifs <;> first | rfl | contradiction

/-- An MRS of a bank reads the bank. -/
theorem readSysreg_of_spBank {cpu : CpuState} {key : BitVec 32} {i : Fin 4}
    (h : spBank key = some i) : readSysreg cpu key = cpu.readSpEl i := by
  have hkey : key = keySpEl0 ∨ key = keySpEl1 := by
    unfold spBank at h
    split_ifs at h with h0 h1
    · exact .inl h0
    · exact .inr h1
  unfold readSysreg
  rcases hkey with rfl | rfl
  · obtain rfl : (0 : Fin 4) = i := Option.some.inj h
    rfl
  · obtain rfl : (1 : Fin 4) = i := Option.some.inj h
    rfl

/-- An MSR of a bank writes the bank. -/
theorem writeSysreg_of_spBank {cpu : CpuState} {key : BitVec 32} {i : Fin 4} {val : BitVec 64}
    (h : spBank key = some i) : writeSysreg cpu key val = cpu.writeSpEl i val := by
  have hkey : key = keySpEl0 ∨ key = keySpEl1 := by
    unfold spBank at h
    split_ifs at h with h0 h1
    · exact .inl h0
    · exact .inr h1
  unfold writeSysreg
  rcases hkey with rfl | rfl
  · obtain rfl : (0 : Fin 4) = i := Option.some.inj h
    rfl
  · obtain rfl : (1 : Fin 4) = i := Option.some.inj h
    rfl

/-- An MSR of any other register leaves every bank alone. -/
theorem readSpEl_writeSysreg {cpu : CpuState} {key : BitVec 32} {val : BitVec 64}
    (h : spBank key = none) : (writeSysreg cpu key val).readSpEl = cpu.readSpEl := by
  unfold writeSysreg writeXlateReg timerWrite
  rw [h]
  split_ifs <;> rfl

theorem readSpEl_writeSp (cpu : CpuState) {idx : Reg} (hidx : idx.val = 31) (val : BitVec 64) :
    (cpu.writeGpr idx true val).readSpEl =
      Function.update cpu.readSpEl (selectedBank cpu.el cpu.spsel) val := by
  have hlive : cpu.writeGpr idx true val = cpu.writeSpEl cpu.spIndex val := by
    rw [CpuState.writeGpr_of_not_lt _ (by omega), if_pos rfl, CpuState.writeSpEl, if_pos rfl]
  funext i
  rw [hlive, CpuState.readSpEl_writeSpEl, Function.update_apply]
  rfl

/-- The banks after an operation are the banks before it with its writes made. -/
theorem SpOp.step_readSpEl (cpu : CpuState) (o : SpOp) :
    (o.step cpu).1.readSpEl = lastWritten cpu.readSpEl (o.step cpu).2 := by
  cases o with
  | exception e =>
    funext i
    exact (e.take_entered cpu).readSpEl i
  | eret =>
    funext i
    exact CpuState.readSpEl_setElSpsel _ _ _ i
  | msrImm op1 op2 crm =>
    simp only [step, Interp.msrImm, lastWritten_nil]
    split
    · funext i
      exact CpuState.readSpEl_setElSpsel _ _ _ i
    all_goals rfl
  | mrs key rt =>
    have hread : (sysRegMove cpu true key rt).readSpEl = cpu.readSpEl := readSpEl_writeGpr_x _ _ _
    simp only [step, bankEvent]
    cases hbank : spBank key with
    | none => exact hread
    | some i => exact hread
  | msr key rt =>
    simp only [step, bankEvent, sysRegMove, Bool.false_eq_true, if_false]
    cases hbank : spBank key with
    | none => exact readSpEl_writeSysreg hbank
    | some i =>
      rw [writeSysreg_of_spBank hbank]
      funext j
      rw [CpuState.readSpEl_writeSpEl]
      exact (Function.update_apply cpu.readSpEl i _ j).symm
  | readReg idx sp =>
    simp only [step, activeEvent]
    split_ifs <;> rfl
  | writeReg idx sp val =>
    simp only [step, activeEvent]
    split_ifs with h
    · obtain ⟨hidx, rfl⟩ := h
      exact readSpEl_writeSp cpu hidx val
    · unfold CpuState.writeGpr
      split_ifs with hlt hsp
      · rfl
      · exact absurd ⟨by omega, hsp⟩ h
      · rfl

/-- Every read that an operation makes gives the value of the bank it reads. -/
theorem SpOp.step_coherent (cpu : CpuState) (o : SpOp) :
    Coherent cpu.readSpEl (o.step cpu).2 := by
  cases o with
  | exception e => exact coherent_nil _
  | eret => exact coherent_nil _
  | msrImm op1 op2 crm => exact coherent_nil _
  | mrs key rt =>
    simp only [step, bankEvent]
    cases hbank : spBank key with
    | none => exact coherent_nil _
    | some i => exact coherent_read (readSysreg_of_spBank hbank)
  | msr key rt =>
    simp only [step, bankEvent]
    cases hbank : spBank key with
    | none => exact coherent_nil _
    | some i => exact coherent_write _ _ _
  | readReg idx sp =>
    simp only [step, activeEvent]
    split_ifs with h
    · obtain ⟨hidx, rfl⟩ := h
      refine coherent_read ?_
      rw [CpuState.readGpr_of_not_lt _ (by omega), if_pos rfl]
      exact (CpuState.readSpEl_spIndex cpu).symm
    · exact coherent_nil _
  | writeReg idx sp val =>
    simp only [step, activeEvent]
    split_ifs
    · exact coherent_write _ _ _
    · exact coherent_nil _

/-! ## Every sequence of operations -/

/-- From any state and over any sequence of operations, reading a bank gives the
last value written to it, whichever names were used, and the live `sp` is the
bank that EL and SPSel select. -/
theorem spBanks_refine (cpu : CpuState) (ops : List SpOp) :
    let cpu' := (run SpOp.step cpu ops).1
    let history := (run SpOp.step cpu ops).2
    Coherent cpu.readSpEl history ∧
      (∀ i, cpu'.readSpEl i = lastWritten cpu.readSpEl history i) ∧
      cpu'.sp = lastWritten cpu.readSpEl history (selectedBank cpu'.el cpu'.spsel) := by
  intro cpu' history
  obtain ⟨hview, hcoh⟩ :=
    run_coherent SpOp.step CpuState.readSpEl SpOp.step_readSpEl SpOp.step_coherent cpu ops
  refine ⟨hcoh, congrFun hview, ?_⟩
  calc cpu'.sp = cpu'.readSpEl cpu'.spIndex := (CpuState.readSpEl_spIndex cpu').symm
    _ = lastWritten cpu.readSpEl history (selectedBank cpu'.el cpu'.spsel) := congrFun hview _

end V64.Interp
