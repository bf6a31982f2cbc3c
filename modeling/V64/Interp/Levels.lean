import V64.Interp.Kernel
import V64.Interp.SpBanking
import V64.Platform.Bus

/-!
# The exception levels of a run

The machine has EL0 and EL1. Every way into an exception level but one enters
EL1 or keeps the level; an ERET takes the two bits of SPSR_EL1.

* `MachineStep.el_le`: one event.
* `el_zero_or_one`: in every run from reset whose ERETs find bit 3 of SPSR_EL1
  clear, the level is 0 or 1.
* `el_two`: a guest that sets that bit enters EL2.
-/

namespace V64.Interp

open V64.Cpu V64.Decoder V64.Platform Runs

/-! ## Writers of the level -/

section Writers

variable (cpu : CpuState)

theorem el_of_kernel {a b : CpuState} (h : kernel a = kernel b) : a.el = b.el :=
  congrArg KernelState.el h

theorem el_writeSpEl (i : Fin 4) (val : BitVec 64) : (cpu.writeSpEl i val).el = cpu.el := by
  unfold CpuState.writeSpEl
  split_ifs <;> rfl

theorem el_writeSysreg (key : BitVec 32) (val : BitVec 64) :
    (writeSysreg cpu key val).el = cpu.el := by
  have heff := msrEffect_writeSysreg cpu key val
  generalize writeSysreg cpu key val = cpu' at heff
  cases heff with
  | bank h => exact el_writeSpEl cpu _ val
  | _ => rfl

theorem el_setElSpsel (el : Fin 4) (spsel : Bool) : (cpu.setElSpsel el spsel).el = el := by
  obtain ⟨sp, spEl, heq⟩ := CpuState.setElSpsel_eq cpu el spsel
  rw [heq]

theorem el_msrImm (op1 op2 : ℕ) (crm : BitVec 4) : (msrImm cpu op1 op2 crm).el = cpu.el := by
  unfold msrImm
  split
  · exact el_setElSpsel cpu _ _
  all_goals rfl

theorem el_psciCall : (psciCall cpu).el = cpu.el := by
  unfold psciCall
  dsimp only
  split_ifs <;> rfl

theorem el_takeException (ec iss : BitVec 32) (returnAddr : BitVec 64) :
    (takeException cpu ec iss returnAddr).2.el = 1 :=
  (takeException_entered cpu ec iss returnAddr).el

theorem el_dataAbort (faultPc : BitVec 64) (abort : Abort) :
    (dataAbort cpu faultPc abort).2.el = 1 :=
  el_takeException (insertSysreg cpu keyFarEl1 abort.far) _ _ faultPc

theorem el_instAbort (faultPc : BitVec 64) (fsc : BitVec 8) :
    (instAbort cpu faultPc fsc).2.el = 1 :=
  el_takeException (insertSysreg cpu keyFarEl1 faultPc) _ _ faultPc

theorem el_undefined (pc : BitVec 64) : (undefined cpu pc).2.el = 1 :=
  el_takeException cpu ecUnknown 0 pc

theorem el_eret : (eret cpu).2.el = CpuState.psrEl (getSysreg cpu keySpsrEl1) :=
  el_setElSpsel _ _ _

end Writers

theorem el_le_of_eq {el : Fin 4} (h : el = 1) : el ≤ 1 := by
  subst h
  decide

/-- The level in SPSR bits 3:2 is 0 or 1 when bit 3 is clear. -/
theorem psrEl_le {v : BitVec 64} (h : v.getLsbD 3 = false) : CpuState.psrEl v ≤ 1 := by
  have hbit : ((v >>> 2).setWidth 2).getLsbD 1 = false := by
    rw [BitVec.getLsbD_setWidth, BitVec.getLsbD_ushiftRight, h, Bool.and_false]
  have hall : ∀ w : BitVec 2, w.getLsbD 1 = false → w.toFin ≤ 1 := by decide
  exact hall _ hbit

/-! ## One event -/

section Step

variable {M : Type} [GuestMem M] {vu : VecUnit}

/-- If the instruction that the event executes is an ERET, SPSR_EL1 has bit 3 clear. -/
def EretOk (g : Guest M) : MachineEvent → Prop
  | .insn => fetched g = some .eret → (getSysreg g.cpu keySpsrEl1).getLsbD 3 = false
  | _ => True

theorem el_execute {g g' : Guest M} {insn : Insn} {pc : BitVec 64} {next : Option (BitVec 64)}
    (h : execute vu g insn pc = some (next, g')) (hel : g.cpu.el ≤ 1)
    (hok : insn = .eret → (getSysreg g.cpu keySpsrEl1).getLsbD 3 = false) : g'.cpu.el ≤ 1 := by
  by_cases hsys : IsSystem insn
  · cases insn with
    | sysRegMove read key rt =>
      obtain rfl : read = false := hsys
      obtain ⟨-, rfl⟩ := Prod.mk.inj (Option.some.inj h)
      exact (el_writeSysreg g.cpu key _).symm ▸ hel
    | msrImm op1 op2 crm =>
      obtain ⟨-, rfl⟩ := Prod.mk.inj (Option.some.inj h)
      exact (el_msrImm g.cpu op1 op2 crm).symm ▸ hel
    | svc imm16 =>
      obtain ⟨-, rfl⟩ := Prod.mk.inj (Option.some.inj h)
      exact el_le_of_eq (el_takeException g.cpu _ _ _)
    | hvc imm16 =>
      obtain ⟨-, rfl⟩ := Prod.mk.inj (Option.some.inj h)
      exact (el_psciCall g.cpu).symm ▸ hel
    | smc imm16 =>
      obtain ⟨-, rfl⟩ := Prod.mk.inj (Option.some.inj h)
      exact (el_psciCall g.cpu).symm ▸ hel
    | eret =>
      obtain ⟨-, rfl⟩ := Prod.mk.inj (Option.some.inj h)
      exact (el_eret g.cpu).symm ▸ psrEl_le (hok rfl)
    | brk imm16 =>
      obtain ⟨-, rfl⟩ := Prod.mk.inj (Option.some.inj h)
      exact el_le_of_eq (el_takeException g.cpu _ _ _)
    | _ => exact absurd hsys id
  · rw [el_of_kernel (kernel_execute h hsys)]
    exact hel

omit [GuestMem M] in
theorem el_retire {g : Guest M} (next : Option (BitVec 64)) (pc : BitVec 64)
    (h : g.cpu.el ≤ 1) : (retire g next pc).cpu.el ≤ 1 := by
  unfold retire
  cases g.cpu.pendingAbort with
  | some abort => exact el_le_of_eq (el_dataAbort { g.cpu with pendingAbort := none } pc abort)
  | none => exact h

theorem el_stepWord {g g' : Guest M} {word : BitVec 32} {s : Step}
    (h : stepWord vu g word = some (s, g')) (hel : g.cpu.el ≤ 1)
    (hok : decode word = .eret → (getSysreg g.cpu keySpsrEl1).getLsbD 3 = false) :
    g'.cpu.el ≤ 1 := by
  unfold stepWord at h
  dsimp only at h
  split at h
  · obtain ⟨-, rfl⟩ := Prod.mk.inj (Option.some.inj h)
    exact hel
  · obtain ⟨⟨next, g''⟩, hexec, hpair⟩ := Option.map_eq_some_iff.mp h
    obtain ⟨-, rfl⟩ := Prod.mk.inj hpair
    exact el_retire next _ (el_execute hexec hel hok)

theorem el_step {g g' : Guest M} {s : Step} (h : step vu g = some (s, g')) (hel : g.cpu.el ≤ 1)
    (hok : EretOk g .insn) : g'.cpu.el ≤ 1 := by
  have hkernel := kernel_translate g g.cpu.pc .exec g.cpu.el
  unfold step at h
  unfold EretOk fetched at hok
  dsimp only at h
  split at h
  · next fsc g1 htrans =>
    obtain ⟨-, rfl⟩ := Prod.mk.inj (Option.some.inj h)
    exact el_le_of_eq (el_instAbort g1.cpu g.cpu.pc fsc)
  · next pa g1 htrans =>
    rw [htrans] at hkernel hok
    have hsysreg : getSysreg g1.cpu keySpsrEl1 = getSysreg g.cpu keySpsrEl1 :=
      congrArg (fun k => (k.sysregs keySpsrEl1).getD 0) hkernel
    refine el_stepWord h ?_ fun heret => ?_
    · show g1.cpu.el ≤ 1
      rw [el_of_kernel hkernel]
      exact hel
    · show (getSysreg g1.cpu keySpsrEl1).getLsbD 3 = false
      rw [hsysreg]
      exact hok (congrArg some heret)

/-- An event keeps the level at 0 or 1, unless it is an ERET that finds SPSR_EL1
    bit 3 set. -/
theorem MachineStep.el_le {g g' : Guest M} {e : MachineEvent} (h : MachineStep vu g e g')
    (hok : EretOk g e) (hel : g.cpu.el ≤ 1) : g'.cpu.el ≤ 1 := by
  cases h with
  | insn h => exact el_step h hel hok
  | @undefined g1 pc word h => exact el_le_of_eq (el_undefined g1.cpu pc)
  | irq h => exact el_le_of_eq (Exc.irq.take_entered g.cpu).el
  | timer ticks => exact hel
  | devices mem => exact hel
  | wake => exact hel

/-- The machine after reset, over any memory. -/
def Guest.reset (mem : M) : Guest M := ⟨CpuState.new, mem⟩

/-- In every run from reset whose ERETs find bit 3 of SPSR_EL1 clear, the exception
    level is 0 or 1 in every state reached. -/
theorem el_zero_or_one {mem : M} {events : List MachineEvent} {g : Guest M}
    (hrun : Run (fun g e g' => MachineStep vu g e g' ∧ EretOk g e) (Guest.reset mem) events g) :
    g.cpu.el = 0 ∨ g.cpu.el = 1 := by
  have hle : g.cpu.el ≤ 1 :=
    hrun.invariant (fun _ _ _ hel h => h.1.el_le h.2 hel) (el_le_of_eq rfl)
  have hall : ∀ el : Fin 4, el ≤ 1 → el = 0 ∨ el = 1 := by decide
  exact hall _ hle

end Step

/-! ## Two programs -/

/-- RAM at 0 that holds three instructions. -/
def codeRam (w0 w1 w2 : BitVec 32) : Bus Empty where
  ram := {
    base := 0
    size := 0x1000
    bytes := Bytes.storeLe (Bytes.storeLe (Bytes.storeLe (fun _ => 0) 0 4 w0) 4 4 w1) 8 4 w2 }
  devices := []

/-- After reset, `eret` goes to EL0. -/
theorem el_zero_or_one_eret :
    ∃ g : Guest (Bus Empty), steps (fun _ _ => none) 1 (Guest.reset (codeRam 0xd69f03e0 0 0)) =
      some g ∧ (g.cpu.el = 0 ∨ g.cpu.el = 1) := by
  have hsome : (steps (fun _ _ => none) 1 (Guest.reset (codeRam 0xd69f03e0 0 0))).isSome := by
    decide +kernel
  obtain ⟨g, hsteps⟩ := Option.isSome_iff_exists.mp hsome
  refine ⟨g, hsteps, ?_⟩
  rw [steps] at hsteps
  split at hsteps
  · next pc g1 hstep =>
    obtain rfl : g1 = g := Option.some.inj hsteps
    have hspsr : (getSysreg (Guest.reset (codeRam 0xd69f03e0 0 0)).cpu keySpsrEl1).getLsbD 3 =
        false := by decide
    exact el_zero_or_one (.cons ⟨.insn hstep, fun _ => hspsr⟩ (.nil _))
  · cases hsteps

/-- `mov x0, #8; msr spsr_el1, x0; eret` enters EL2. -/
theorem el_two :
    ¬ ∀ (vu : VecUnit) (mem : Bus Empty) (events : List MachineEvent) (g : Guest (Bus Empty)),
      Run (MachineStep vu) (Guest.reset mem) events g → g.cpu.el = 0 ∨ g.cpu.el = 1 := by
  intro h
  set start := Guest.reset (codeRam 0xd2800100 0xd5184000 0xd69f03e0)
  have hsome : (steps (fun _ _ => none) 3 start).isSome := by decide +kernel
  obtain ⟨g, hsteps⟩ := Option.isSome_iff_exists.mp hsome
  have hel : (steps (fun _ _ => none) 3 start).map (fun g => g.cpu.el) = some 2 := by
    decide +kernel
  rw [hsteps] at hel
  have htwo : g.cpu.el = 2 := Option.some.inj hel
  have hor := h _ _ _ g (run_of_steps hsteps)
  rw [htwo] at hor
  exact absurd hor (by decide)

end V64.Interp
