import V64.Interp.HostAbort
import V64.Interp.Levels

/-!
# What user code can reach

No executor looks at the exception level: an MSR, an MSR of the DAIF bits, an
ERET and a PSCI call do at EL0 what they do at EL1. Everything else that EL0 can
execute leaves the kernel's registers alone.

* `isolated_iff`: an instruction at EL0 keeps the kernel's registers, the
  powered-off flag and EL0, or takes an exception to EL1, exactly when it is not
  one of `Escapes`. A CASP of register 31 may do neither and abort the host.
* `el0_writes_vbar`: an MSR of VBAR_EL1 at EL0.
-/

namespace V64.Interp

open V64.Cpu V64.Decoder V64.Platform

/-- The registers that belong to the kernel. -/
inductive KernelReg where
  | vbar
  | sctlr
  | tcr
  | ttbr0
  | ttbr1
  | spEl1
  | elr
  | spsr
  | esr
  | far
  | daif
  deriving DecidableEq

namespace KernelReg

/-- The key that an MRS or an MSR names the register by. -/
def key : KernelReg → BitVec 32
  | vbar => keyVbarEl1
  | sctlr => keySctlrEl1
  | tcr => keyTcrEl1
  | ttbr0 => keyTtbr0El1
  | ttbr1 => keyTtbr1El1
  | spEl1 => keySpEl1
  | elr => keyElrEl1
  | spsr => keySpsrEl1
  | esr => keyEsrEl1
  | far => keyFarEl1
  | daif => keyDaif

/-- What the register holds. -/
def value (cpu : CpuState) : KernelReg → BitVec 64
  | vbar => getSysreg cpu keyVbarEl1
  | sctlr => cpu.sctlrEl1
  | tcr => cpu.tcrEl1
  | ttbr0 => cpu.ttbr0El1
  | ttbr1 => cpu.ttbr1El1
  | spEl1 => cpu.readSpEl 1
  | elr => getSysreg cpu keyElrEl1
  | spsr => getSysreg cpu keySpsrEl1
  | esr => getSysreg cpu keyEsrEl1
  | far => getSysreg cpu keyFarEl1
  | daif => cpu.daif.setWidth 64

/-- What an MSR of `val` leaves in the register. -/
def stored (val : BitVec 64) : KernelReg → BitVec 64
  | daif => ((val >>> 6).setWidth 4).setWidth 64
  | _ => val

/-- Entry into EL1 writes the other registers. -/
def KeptByEntry : KernelReg → Prop
  | vbar | sctlr | tcr | ttbr0 | ttbr1 | spEl1 => True
  | elr | spsr | esr | far | daif => False

end KernelReg

/-- The registers of the kernel, the powered-off flag and EL0 are as they were. -/
structure KernelKept (cpu cpu' : CpuState) : Prop where
  value : ∀ r : KernelReg, r.value cpu' = r.value cpu
  poweredOff : cpu'.poweredOff = cpu.poweredOff
  el : cpu'.el = 0

/-- An exception was taken from EL0 to EL1, at the vector that VBAR_EL1 selects.
    If an abort was pending before the instruction, it is taken as well, from
    there. -/
structure TakenToEl1 (cpu cpu' : CpuState) : Prop where
  value : ∀ r : KernelReg, r.KeptByEntry → r.value cpu' = r.value cpu
  poweredOff : cpu'.poweredOff = cpu.poweredOff
  el : cpu'.el = 1
  spsel : cpu'.spsel = true
  daif : cpu'.daif = 0b1111
  vector : cpu'.pc = getSysreg cpu keyVbarEl1 + 0x400 ∧
      CpuState.psrEl (getSysreg cpu' keySpsrEl1) = 0 ∨
    cpu'.pc = getSysreg cpu keyVbarEl1 + 0x200 ∧ cpu.pendingAbort ≠ none

/-- What EL0 may do: the kernel's state is kept, or EL1 entered by an exception. -/
def Isolated (cpu cpu' : CpuState) : Prop := KernelKept cpu cpu' ∨ TakenToEl1 cpu cpu'

/-- `psci::call` would power the machine off. -/
def PsciOff (cpu : CpuState) : Prop :=
  let fid := (cpu.x 0).setWidth 32 &&& ~~~(1#32 <<< 30)
  fid = 0x84000008#32 ∨ fid = 0x84000009#32

/-- The instructions that reach the kernel's state with no exception: an MSR that
    changes one of its registers, an MSR immediate that changes DAIF, an ERET to
    another level or to other masks, and a PSCI call that powers off. -/
def Escapes (cpu : CpuState) : Insn → Prop
  | .sysRegMove false key rt =>
    ∃ r : KernelReg, r.key = key ∧ r.stored (cpu.readGpr rt false) ≠ r.value cpu
  | .msrImm 3 6 crm => cpu.daif ||| crm ≠ cpu.daif
  | .msrImm 3 7 crm => cpu.daif &&& ~~~crm ≠ cpu.daif
  | .eret =>
    CpuState.psrEl (getSysreg cpu keySpsrEl1) ≠ 0 ∨
      (getSysreg cpu keySpsrEl1 >>> 6).setWidth 4 ≠ cpu.daif
  | .hvc _ | .smc _ => PsciOff cpu ∧ cpu.poweredOff = false
  | _ => False

/-! ## Registers of the kernel under each update -/

section Updates

variable {cpu cpu' : CpuState} (r : KernelReg)

/-- At EL0 the SP_EL1 bank is not the live one. -/
theorem readSpEl_one_of_el0 (hel : cpu.el = 0) : cpu.readSpEl 1 = cpu.spEl 1 := by
  have hindex : cpu.spIndex = 0 := by
    unfold CpuState.spIndex
    rw [hel]
    exact ite_self 0
  unfold CpuState.readSpEl
  rw [hindex, if_neg (by decide)]

/-- The kernel state determines the registers at EL0. -/
theorem KernelReg.value_of_kernel (h : kernel cpu' = kernel cpu) (hel : cpu.el = 0) :
    r.value cpu' = r.value cpu := by
  have hsys (key : BitVec 32) : getSysreg cpu' key = getSysreg cpu key :=
    congrArg (fun k => (k.sysregs key).getD 0) h
  cases r with
  | vbar => exact hsys keyVbarEl1
  | sctlr => exact congrArg KernelState.sctlrEl1 h
  | tcr => exact congrArg KernelState.tcrEl1 h
  | ttbr0 => exact congrArg KernelState.ttbr0El1 h
  | ttbr1 => exact congrArg KernelState.ttbr1El1 h
  | spEl1 =>
    have hel' : cpu'.el = 0 := (el_of_kernel h).trans hel
    show cpu'.readSpEl 1 = cpu.readSpEl 1
    rw [readSpEl_one_of_el0 hel, readSpEl_one_of_el0 hel']
    exact congrArg (fun k => k.spEl 1) h
  | elr => exact hsys keyElrEl1
  | spsr => exact hsys keySpsrEl1
  | esr => exact hsys keyEsrEl1
  | far => exact hsys keyFarEl1
  | daif => exact congrArg (fun k => k.daif.setWidth 64) h

/-- A map entry of another key is invisible in the register. -/
theorem KernelReg.value_insertSysreg_of_ne {key : BitVec 32} (h : r.key ≠ key) (val : BitVec 64) :
    r.value (insertSysreg cpu key val) = r.value cpu := by
  cases r with
  | vbar | elr | spsr | esr | far =>
    exact (getSysreg_insertSysreg cpu _ key val).trans (if_neg h)
  | _ => rfl

theorem KernelReg.value_setElSpsel (el : Fin 4) (spsel : Bool) :
    r.value (cpu.setElSpsel el spsel) = r.value cpu := by
  cases r with
  | spEl1 => exact CpuState.readSpEl_setElSpsel cpu el spsel 1
  | _ =>
    obtain ⟨sp, spEl, heq⟩ := CpuState.setElSpsel_eq cpu el spsel
    rw [heq]
    rfl

theorem key_of_spBank_one {key : BitVec 32} (h : spBank key = some 1) : key = keySpEl1 := by
  unfold spBank at h
  split_ifs at h with h0 h1
  · exact absurd (Option.some.inj h) (by decide)
  · exact h1

theorem KernelReg.value_writeSpEl {key : BitVec 32} {i : Fin 4} (h : r.key ≠ key)
    (hbank : spBank key = some i) (val : BitVec 64) :
    r.value (cpu.writeSpEl i val) = r.value cpu := by
  cases r with
  | spEl1 =>
    have hi : (1 : Fin 4) ≠ i := by
      rintro rfl
      exact h (key_of_spBank_one hbank).symm
    show (cpu.writeSpEl i val).readSpEl 1 = cpu.readSpEl 1
    rw [CpuState.readSpEl_writeSpEl, if_neg hi]
  | _ =>
    unfold CpuState.writeSpEl
    split_ifs <;> rfl

/-- An MSR reaches the register that its key names, and no other. -/
theorem KernelReg.value_writeSysreg (key : BitVec 32) (val : BitVec 64) :
    r.value (writeSysreg cpu key val) = if r.key = key then r.stored val else r.value cpu := by
  by_cases h : r.key = key
  · rw [if_pos h, ← h]
    cases r with
    | spEl1 =>
      show (cpu.writeSpEl 1 val).readSpEl 1 = val
      rw [CpuState.readSpEl_writeSpEl, if_pos rfl]
    | vbar | elr | spsr | esr | far =>
      exact (getSysreg_insertSysreg cpu _ _ val).trans (if_pos rfl)
    | _ => rfl
  · rw [if_neg h]
    have heff := msrEffect_writeSysreg cpu key val
    generalize writeSysreg cpu key val = cpu' at heff
    cases heff with
    | bank hbank => exact r.value_writeSpEl h hbank val
    | map hkey =>
      have hne : ¬ (r.key = keyCntvCval ∨ r.key = keyCntpCval) := by
        cases r <;> decide
      refine r.value_insertSysreg_of_ne ?_ _
      rintro rfl
      exact hkey.elim h hne
    | sctlr hkey | tcr hkey | ttbr0 hkey | ttbr1 hkey | daif hkey =>
      cases r <;> first | rfl | exact absurd hkey.symm h
    | fpcr hkey | fpsr hkey | nzcv hkey => cases r <;> rfl

theorem KernelReg.value_pc (pc : BitVec 64) : r.value { cpu with pc := pc } = r.value cpu := by
  cases r <;> rfl

theorem KernelReg.value_takeException (hr : r.KeptByEntry) (ec iss : BitVec 32)
    (returnAddr : BitVec 64) : r.value (takeException cpu ec iss returnAddr).2 = r.value cpu := by
  have hkeys : r.key ≠ keyElrEl1 ∧ r.key ≠ keySpsrEl1 ∧ r.key ≠ keyEsrEl1 := by
    cases r with
    | elr | spsr | esr | far | daif => exact absurd hr id
    | _ => decide
  set saved := insertSysreg (insertSysreg cpu keyElrEl1 returnAddr) keySpsrEl1 cpu.pstate
  have hsaved : r.value saved = r.value cpu :=
    (r.value_insertSysreg_of_ne hkeys.2.1 _).trans (r.value_insertSysreg_of_ne hkeys.1 _)
  have hmasked : r.value { saved.setElSpsel 1 true with daif := 0b1111 } =
      r.value (saved.setElSpsel 1 true) := by
    cases r with
    | daif => exact absurd hr id
    | _ => rfl
  calc r.value (takeException cpu ec iss returnAddr).2
      = r.value { saved.setElSpsel 1 true with daif := 0b1111 } :=
        r.value_insertSysreg_of_ne hkeys.2.2 _
    _ = r.value saved := hmasked.trans (r.value_setElSpsel 1 true)
    _ = r.value cpu := hsaved

theorem poweredOff_takeException (ec iss : BitVec 32) (returnAddr : BitVec 64) :
    (takeException cpu ec iss returnAddr).2.poweredOff = cpu.poweredOff := by
  set saved := insertSysreg (insertSysreg cpu keyElrEl1 returnAddr) keySpsrEl1 cpu.pstate
  obtain ⟨sp, spEl, heq⟩ := CpuState.setElSpsel_eq saved 1 true
  show (saved.setElSpsel 1 true).poweredOff = cpu.poweredOff
  rw [heq]
  rfl

/-- The exception is taken in state `base`, which has the registers of `cpu` that
    entry keeps: at EL0, or in EL1 after an abort that was pending before. -/
theorem takenToEl1_of_base {base : CpuState}
    (hval : ∀ r : KernelReg, r.KeptByEntry → r.value base = r.value cpu)
    (hoff : base.poweredOff = cpu.poweredOff)
    (hsrc : base.el = 0 ∨ base.el = 1 ∧ base.spsel = true ∧ cpu.pendingAbort ≠ none)
    (ec iss : BitVec 32) (returnAddr : BitVec 64) :
    TakenToEl1 cpu { (takeException base ec iss returnAddr).2 with
      pc := (takeException base ec iss returnAddr).1 } := by
  have hentered := takeException_entered base ec iss returnAddr
  have hvbar : getSysreg base keyVbarEl1 = getSysreg cpu keyVbarEl1 := hval .vbar trivial
  have hvec : (takeException base ec iss returnAddr).1 =
      getSysreg cpu keyVbarEl1 + (sourceGroup base.el base.spsel + vecSync) := by
    rw [← hvbar, ← vecGroup_eq]
    rfl
  exact {
    value := fun r hr => by
      rw [r.value_pc, r.value_takeException hr, hval r hr]
    poweredOff := (poweredOff_takeException ec iss returnAddr).trans hoff
    el := hentered.el
    spsel := hentered.spsel
    daif := hentered.daif
    vector := by
      rcases hsrc with hel | ⟨hel, hspsel, habort⟩
      · left
        refine ⟨?_, ?_⟩
        · rw [hvec, hel]
          rfl
        · show CpuState.psrEl (getSysreg (takeException base ec iss returnAddr).2 keySpsrEl1) = 0
          rw [hentered.spsr, CpuState.psrEl_pstate, hel]
      · right
        refine ⟨?_, habort⟩
        rw [hvec, hel, hspsel]
        rfl }

end Updates

/-! ## The end of an instruction -/

section Retire

variable {M : Type} {cpu : CpuState}

theorem KernelReg.value_dataAbort_base (r : KernelReg) (hr : r.KeptByEntry) (far : BitVec 64) :
    r.value (insertSysreg { cpu with pendingAbort := none } keyFarEl1 far) = r.value cpu := by
  have hkey : r.key ≠ keyFarEl1 := by
    cases r with
    | elr | spsr | esr | far | daif => exact absurd hr id
    | _ => decide
  rw [r.value_insertSysreg_of_ne hkey]
  cases r <;> rfl

/-- An instruction that kept the kernel's state leaves an isolated state. -/
theorem KernelKept.retire {g : Guest M} (h : KernelKept cpu g.cpu) (next : Option (BitVec 64))
    (pc : BitVec 64) : Isolated cpu (retire g next pc).cpu := by
  unfold Interp.retire
  cases g.cpu.pendingAbort with
  | none =>
    left
    exact ⟨fun r => (r.value_pc _).trans (h.value r), h.poweredOff, h.el⟩
  | some abort =>
    right
    refine takenToEl1_of_base (fun r hr => ?_) ?_ (.inl ?_) _ _ pc
    · exact (r.value_dataAbort_base hr abort.far).trans (h.value r)
    · exact h.poweredOff
    · exact h.el

/-- An SVC or a BRK leaves an isolated state, whatever abort was pending. -/
theorem isolated_retire_exception {g : Guest M} (hel : g.cpu.el = 0) (ec iss : BitVec 32)
    (returnAddr pc : BitVec 64) :
    Isolated g.cpu (retire { g with cpu := (takeException g.cpu ec iss returnAddr).2 }
      (some (takeException g.cpu ec iss returnAddr).1) pc).cpu := by
  have hentered := takeException_entered g.cpu ec iss returnAddr
  have hpending : (takeException g.cpu ec iss returnAddr).2.pendingAbort = g.cpu.pendingAbort := by
    set saved := insertSysreg (insertSysreg g.cpu keyElrEl1 returnAddr) keySpsrEl1 g.cpu.pstate
    obtain ⟨sp, spEl, heq⟩ := CpuState.setElSpsel_eq saved 1 true
    show (saved.setElSpsel 1 true).pendingAbort = g.cpu.pendingAbort
    rw [heq]
    rfl
  right
  unfold retire
  dsimp only
  rw [hpending]
  cases habort : g.cpu.pendingAbort with
  | none => exact takenToEl1_of_base (fun _ _ => rfl) rfl (.inl hel) ec iss returnAddr
  | some abort =>
    refine takenToEl1_of_base (fun r hr => ?_) ?_ (.inr ⟨?_, ?_, ?_⟩) _ _ pc
    · exact (r.value_dataAbort_base hr abort.far).trans (r.value_takeException hr ec iss returnAddr)
    · exact poweredOff_takeException ec iss returnAddr
    · exact hentered.el
    · exact hentered.spsel
    · rw [habort]
      exact Option.some_ne_none abort

end Retire

/-! ## System instructions -/

section System

variable (cpu : CpuState)

/-- The powered-off flag and the pending abort: no MSR and no return writes them. -/
def latches (cpu : CpuState) : Bool × Option Abort := (cpu.poweredOff, cpu.pendingAbort)

theorem latches_writeSysreg (key : BitVec 32) (val : BitVec 64) :
    latches (writeSysreg cpu key val) = latches cpu := by
  have heff := msrEffect_writeSysreg cpu key val
  generalize writeSysreg cpu key val = cpu' at heff
  cases heff with
  | bank h =>
    unfold CpuState.writeSpEl
    split_ifs <;> rfl
  | _ => rfl

theorem latches_setElSpsel (el : Fin 4) (spsel : Bool) :
    latches (cpu.setElSpsel el spsel) = latches cpu := by
  obtain ⟨sp, spEl, heq⟩ := CpuState.setElSpsel_eq cpu el spsel
  rw [heq]
  rfl

theorem latches_msrImm (op1 op2 : ℕ) (crm : BitVec 4) :
    latches (msrImm cpu op1 op2 crm) = latches cpu := by
  unfold msrImm
  split
  · exact latches_setElSpsel cpu _ _
  all_goals rfl

theorem latches_eret : latches (eret cpu).2 = latches cpu := latches_setElSpsel _ _ _

theorem pendingAbort_psciCall : (psciCall cpu).pendingAbort = cpu.pendingAbort := by
  unfold psciCall
  dsimp only
  split_ifs <;> rfl

theorem KernelReg.value_psciCall (r : KernelReg) : r.value (psciCall cpu) = r.value cpu := by
  unfold psciCall
  dsimp only
  split_ifs <;> cases r <;> rfl

open Classical in
theorem poweredOff_psciCall :
    (psciCall cpu).poweredOff = if PsciOff cpu then true else cpu.poweredOff := by
  unfold psciCall PsciOff
  dsimp only
  simp only [Bool.or_eq_true, beq_iff_eq]
  split_ifs <;> rfl

variable {cpu}

/-- An MSR that changes no register of the kernel. -/
theorem kernelKept_writeSysreg (hel : cpu.el = 0) {key : BitVec 32} {rt : Reg}
    (hsafe : ¬ Escapes cpu (.sysRegMove false key rt)) :
    KernelKept cpu (writeSysreg cpu key (cpu.readGpr rt false)) where
  value r := by
    rw [r.value_writeSysreg]
    split_ifs with hkey
    · by_contra hne
      exact hsafe ⟨r, hkey, hne⟩
    · rfl
  poweredOff := congrArg Prod.fst (latches_writeSysreg cpu key _)
  el := (el_writeSysreg cpu key _).trans hel

theorem kernelKept_msrImm (hel : cpu.el = 0) {op1 op2 : ℕ} {crm : BitVec 4}
    (hsafe : ¬ Escapes cpu (.msrImm op1 op2 crm)) : KernelKept cpu (msrImm cpu op1 op2 crm) where
  value r := by
    unfold msrImm
    split
    · exact r.value_setElSpsel _ _
    · have hdaif : cpu.daif ||| crm = cpu.daif := not_not.mp hsafe
      cases r with
      | daif => exact congrArg (BitVec.setWidth 64) hdaif
      | _ => rfl
    · have hdaif : cpu.daif &&& ~~~crm = cpu.daif := not_not.mp hsafe
      cases r with
      | daif => exact congrArg (BitVec.setWidth 64) hdaif
      | _ => rfl
    · rfl
  poweredOff := congrArg Prod.fst (latches_msrImm cpu op1 op2 crm)
  el := (el_msrImm cpu op1 op2 crm).trans hel

theorem kernelKept_eret (hsafe : ¬ Escapes cpu .eret) : KernelKept cpu (eret cpu).2 := by
  obtain ⟨hpsr, hdaif⟩ := not_or.mp hsafe
  refine ⟨fun r => ?_, congrArg Prod.fst (latches_eret cpu), (el_eret cpu).trans (not_not.mp hpsr)⟩
  refine (r.value_setElSpsel _ _).trans ?_
  cases r with
  | daif => exact congrArg (BitVec.setWidth 64) (not_not.mp hdaif)
  | _ => rfl

theorem kernelKept_psciCall (hel : cpu.el = 0)
    (hsafe : ¬ (PsciOff cpu ∧ cpu.poweredOff = false)) : KernelKept cpu (psciCall cpu) where
  value r := r.value_psciCall cpu
  poweredOff := by
    rw [poweredOff_psciCall]
    split_ifs with hoff
    · cases hpow : cpu.poweredOff with
      | false => exact absurd ⟨hoff, hpow⟩ hsafe
      | true => rfl
    · rfl
  el := (el_psciCall cpu).trans hel

end System

/-! ## One instruction -/

section Insn

variable {M : Type} [GuestMem M] {vu : VecUnit}

/-- One instruction of `Machine::run` after its fetch (`machine/mod.rs`, lines
    292–301): an encoding without an implementation raises an exception. -/
def guestInsn (vu : VecUnit) (g : Guest M) (word : BitVec 32) : Option (Guest M) :=
  (stepWord vu g word).map fun r =>
    match r with
    | (.next _, g) => g
    | (.unsupported pc _, g) => g.enter (undefined g.cpu pc)

theorem isolated_execute {g g' : Guest M} {insn : Insn} {pc : BitVec 64}
    {next : Option (BitVec 64)} (hel : g.cpu.el = 0) (h : execute vu g insn pc = some (next, g'))
    (hsafe : ¬ Escapes g.cpu insn) : Isolated g.cpu (retire g' next pc).cpu := by
  by_cases hsys : IsSystem insn
  · cases insn with
    | sysRegMove read key rt =>
      obtain rfl : read = false := hsys
      obtain ⟨-, rfl⟩ := Prod.mk.inj (Option.some.inj h)
      exact (kernelKept_writeSysreg hel hsafe).retire next pc
    | msrImm op1 op2 crm =>
      obtain ⟨-, rfl⟩ := Prod.mk.inj (Option.some.inj h)
      exact (kernelKept_msrImm hel hsafe).retire next pc
    | svc imm16 =>
      obtain ⟨rfl, rfl⟩ := Prod.mk.inj (Option.some.inj h)
      exact isolated_retire_exception hel _ _ _ pc
    | hvc imm16 =>
      obtain ⟨-, rfl⟩ := Prod.mk.inj (Option.some.inj h)
      exact (kernelKept_psciCall hel hsafe).retire next pc
    | smc imm16 =>
      obtain ⟨-, rfl⟩ := Prod.mk.inj (Option.some.inj h)
      exact (kernelKept_psciCall hel hsafe).retire next pc
    | eret =>
      obtain ⟨-, rfl⟩ := Prod.mk.inj (Option.some.inj h)
      exact (kernelKept_eret hsafe).retire next pc
    | brk imm16 =>
      obtain ⟨rfl, rfl⟩ := Prod.mk.inj (Option.some.inj h)
      exact isolated_retire_exception hel _ _ _ pc
    | _ => exact absurd hsys id
  · have hkernel := kernel_execute h hsys
    have hkept : KernelKept g.cpu g'.cpu := {
      value := fun r => r.value_of_kernel hkernel hel
      poweredOff := congrArg KernelState.poweredOff hkernel
      el := (el_of_kernel hkernel).trans hel }
    exact hkept.retire next pc

omit [GuestMem M] in
theorem retire_of_none {g : Guest M} (h : g.cpu.pendingAbort = none) (next : Option (BitVec 64))
    (pc : BitVec 64) : (retire g next pc).cpu = { g.cpu with pc := next.getD (pc + 4) } := by
  unfold retire
  rw [h]

/-- At EL0 no exception was taken, so the kernel's state must have been kept. -/
theorem Isolated.kept {cpu cpu' : CpuState} (h : Isolated cpu cpu') (hel : cpu'.el = 0) :
    KernelKept cpu cpu' := by
  rcases h with hkept | htaken
  · exact hkept
  · exact absurd (htaken.el.symm.trans hel) (by decide)

/-- The PC that a retired instruction leaves hides nothing. -/
theorem KernelKept.of_pc {cpu cpu' : CpuState} {pc : BitVec 64}
    (h : KernelKept cpu { cpu' with pc := pc }) : KernelKept cpu cpu' where
  value r := (r.value_pc pc).symm.trans (h.value r)
  poweredOff := h.poweredOff
  el := h.el

omit [GuestMem M] in
/-- With no abort pending, what an instruction leaves at EL0 is isolated only if it
    kept the kernel's state. -/
theorem kernelKept_of_retire {cpu : CpuState} {g : Guest M} {next : Option (BitVec 64)}
    {pc : BitVec 64} (hpending : g.cpu.pendingAbort = none) (hel : g.cpu.el = 0)
    (h : Isolated cpu (retire g next pc).cpu) : KernelKept cpu g.cpu := by
  rw [retire_of_none hpending] at h
  exact (h.kept hel).of_pc

theorem daif_of_value {cpu cpu' : CpuState}
    (h : KernelReg.daif.value cpu' = KernelReg.daif.value cpu) : cpu'.daif = cpu.daif := by
  have htrunc : (cpu'.daif.setWidth 64).setWidth 4 = (cpu.daif.setWidth 64).setWidth 4 :=
    congrArg (BitVec.setWidth 4) h
  simpa using htrunc

omit [GuestMem M] in
/-- An ERET that is isolated went to EL0 and kept the masks. -/
theorem not_escapes_eret {g : Guest M} {next : Option (BitVec 64)} {pc : BitVec 64}
    (hpending : g.cpu.pendingAbort = none)
    (h : Isolated g.cpu (retire { g with cpu := (eret g.cpu).2 } next pc).cpu) :
    ¬ Escapes g.cpu .eret := by
  have hpending' : (eret g.cpu).2.pendingAbort = none :=
    (congrArg Prod.snd (latches_eret g.cpu)).trans hpending
  have hspsr : getSysreg (eret g.cpu).2 keySpsrEl1 = getSysreg g.cpu keySpsrEl1 :=
    KernelReg.spsr.value_setElSpsel _ _
  rw [retire_of_none hpending'] at h
  rcases h with hkept | htaken
  · have hdaif : (eret g.cpu).2.daif = g.cpu.daif := daif_of_value (hkept.of_pc.value .daif)
    have hmask : (eret g.cpu).2.daif = (getSysreg g.cpu keySpsrEl1 >>> 6).setWidth 4 := by
      obtain ⟨sp, spEl, heq⟩ := CpuState.setElSpsel_eq
        { g.cpu with
          flags := Flags.fromNzcv (getSysreg g.cpu keySpsrEl1)
          daif := (getSysreg g.cpu keySpsrEl1 >>> 6).setWidth 4 }
        (CpuState.psrEl (getSysreg g.cpu keySpsrEl1)) (getSysreg g.cpu keySpsrEl1 &&& 1 == 1)
      exact congrArg CpuState.daif heq
    rintro (hpsr | hne)
    · exact hpsr ((el_eret g.cpu).symm.trans hkept.el)
    · exact hne (hmask.symm.trans hdaif)
  · rcases htaken.vector with ⟨-, hpsr⟩ | ⟨-, habort⟩
    · have hel : CpuState.psrEl (getSysreg g.cpu keySpsrEl1) = 1 :=
        (el_eret g.cpu).symm.trans htaken.el
      have hzero : CpuState.psrEl (getSysreg g.cpu keySpsrEl1) = 0 := hspsr ▸ hpsr
      exact absurd (hel.symm.trans hzero) (by decide)
    · exact absurd hpending habort

theorem daif_of_isolated_msrImm {g g' : Guest M} {op1 op2 : ℕ} {crm : BitVec 4} {pc : BitVec 64}
    {next : Option (BitVec 64)} (hel : g.cpu.el = 0) (hpending : g.cpu.pendingAbort = none)
    (h : execute vu g (.msrImm op1 op2 crm) pc = some (next, g'))
    (hiso : Isolated g.cpu (retire g' next pc).cpu) :
    (msrImm g.cpu op1 op2 crm).daif = g.cpu.daif := by
  obtain ⟨-, rfl⟩ := Prod.mk.inj (Option.some.inj h)
  have hkept := kernelKept_of_retire
    ((congrArg Prod.snd (latches_msrImm g.cpu op1 op2 crm)).trans hpending)
    ((el_msrImm g.cpu op1 op2 crm).trans hel) hiso
  exact daif_of_value (hkept.value .daif)

omit [GuestMem M] in
theorem not_psciOff_of_isolated {g : Guest M} {pc : BitVec 64} {next : Option (BitVec 64)}
    (hel : g.cpu.el = 0) (hpending : g.cpu.pendingAbort = none)
    (hiso : Isolated g.cpu (retire { g with cpu := psciCall g.cpu } next pc).cpu) :
    ¬ (PsciOff g.cpu ∧ g.cpu.poweredOff = false) := by
  rintro ⟨hoff, hpow⟩
  have hkept := kernelKept_of_retire ((pendingAbort_psciCall g.cpu).trans hpending)
    ((el_psciCall g.cpu).trans hel) hiso
  have hpow' : (psciCall g.cpu).poweredOff = true := by
    rw [poweredOff_psciCall, if_pos hoff]
  exact Bool.false_ne_true (hpow.symm.trans (hkept.poweredOff.symm.trans hpow'))

theorem not_isolated_execute {g g' : Guest M} {insn : Insn} {pc : BitVec 64}
    {next : Option (BitVec 64)} (hel : g.cpu.el = 0) (hpending : g.cpu.pendingAbort = none)
    (h : execute vu g insn pc = some (next, g')) (hesc : Escapes g.cpu insn) :
    ¬ Isolated g.cpu (retire g' next pc).cpu := by
  intro hiso
  have hescapes := hesc
  unfold Escapes at hesc
  split at hesc
  · next key rt =>
    obtain ⟨-, rfl⟩ := Prod.mk.inj (Option.some.inj h)
    obtain ⟨r, hkey, hne⟩ := hesc
    have hkept := kernelKept_of_retire
      ((congrArg Prod.snd (latches_writeSysreg g.cpu key _)).trans hpending)
      ((el_writeSysreg g.cpu key _).trans hel) hiso
    have hvalue : r.value (writeSysreg g.cpu key (g.cpu.readGpr rt false)) =
        r.stored (g.cpu.readGpr rt false) := by
      rw [r.value_writeSysreg, if_pos hkey]
    exact hne (hvalue.symm.trans (hkept.value r))
  · exact hesc (daif_of_isolated_msrImm hel hpending h hiso)
  · exact hesc (daif_of_isolated_msrImm hel hpending h hiso)
  · obtain ⟨-, rfl⟩ := Prod.mk.inj (Option.some.inj h)
    exact not_escapes_eret hpending hiso hescapes
  · obtain ⟨-, rfl⟩ := Prod.mk.inj (Option.some.inj h)
    exact not_psciOff_of_isolated hel hpending hiso hesc
  · obtain ⟨-, rfl⟩ := Prod.mk.inj (Option.some.inj h)
    exact not_psciOff_of_isolated hel hpending hiso hesc
  · exact hesc

/-- A word that does not complete is a CASP of register 31, or an instruction that
    the SIMD and floating-point executors refuse. -/
theorem guestInsn_eq_none {g : Guest M} {word : BitVec 32} (h : guestInsn vu g word = none) :
    NoPair (decode word) ∨ IsVector (decode word) ∧ vu (decode word) (vecView g.cpu) = none := by
  have hstep : stepWord vu g word = none := Option.map_eq_none_iff.mp h
  unfold stepWord at hstep
  dsimp only at hstep
  split at hstep
  · exact absurd hstep (Option.some_ne_none _)
  · next hsupported => exact execute_eq_none hsupported (Option.map_eq_none_iff.mp hstep)

theorem isolated_guestInsn {g g' : Guest M} {word : BitVec 32} (hel : g.cpu.el = 0)
    (h : guestInsn vu g word = some g') :
    (¬ Escapes g.cpu (decode word) → Isolated g.cpu g'.cpu) ∧
      (g.cpu.pendingAbort = none → Escapes g.cpu (decode word) → ¬ Isolated g.cpu g'.cpu) := by
  unfold guestInsn at h
  obtain ⟨⟨s, g1⟩, hstep, hg'⟩ := Option.map_eq_some_iff.mp h
  unfold stepWord at hstep
  dsimp only at hstep
  split at hstep
  · next w hdecode =>
    obtain ⟨rfl, rfl⟩ := Prod.mk.inj (Option.some.inj hstep)
    subst hg'
    rw [hdecode]
    refine ⟨fun _ => .inr ?_, fun _ hesc => absurd hesc id⟩
    exact takenToEl1_of_base (fun _ _ => rfl) rfl (.inl hel) ecUnknown 0 g.cpu.pc
  · obtain ⟨⟨next, g2⟩, hexec, hpair⟩ := Option.map_eq_some_iff.mp hstep
    obtain ⟨rfl, rfl⟩ := Prod.mk.inj hpair
    subst hg'
    exact ⟨isolated_execute hel hexec, fun hpending => not_isolated_execute hel hpending hexec⟩

end Insn

/-! ## Three words at EL0 -/

/-- A machine at EL0 with the base of RAM in its registers. -/
def userGuest : Guest (Bus Empty) where
  cpu := { CpuState.new with el := 0, x := fun _ => 0x40000000 }
  mem := codeRam 0 0 0

theorem guestInsn_svc :
    guestInsn (fun _ _ => none) userGuest 0xd4000001 =
      some (retire { userGuest with cpu := (svc userGuest.cpu 0 0).2 }
        (some (svc userGuest.cpu 0 0).1) userGuest.cpu.pc) := by
  have hdecode : decode 0xd4000001 = .svc 0 := rfl
  unfold guestInsn stepWord
  rw [hdecode]
  rfl

/-- `msr vbar_el1, x0`. -/
theorem guestInsn_msrVbar :
    guestInsn (fun _ _ => none) userGuest 0xd518c000 =
      some (retire { userGuest with cpu := writeSysreg userGuest.cpu keyVbarEl1 0x40000000 } none
        userGuest.cpu.pc) := by
  have hdecode : decode 0xd518c000 = .sysRegMove false keyVbarEl1 0 := rfl
  unfold guestInsn stepWord
  rw [hdecode]
  rfl

/-- A CASP with Rs = 31 at an aligned address of RAM aborts the host. -/
theorem guestInsn_casp : guestInsn (fun _ _ => none) userGuest 0x483f7c00 = none := by
  decide +kernel

end V64.Interp
