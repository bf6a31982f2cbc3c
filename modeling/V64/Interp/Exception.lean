import V64.Decoder.Branch
import V64.Interp.Memory

/-!
# Exception entry and return

Model of `crates/interp/src/exception.rs`. Every function that takes an
exception returns the vector PC and the state after entry.

* `Exc`, `Exc.take`: the ways into EL1, each at the PC the run loop hands it.
* `Entered`, `Exc.take_entered`: what every entry leaves behind.
* `take_eret`: entry selects the vector of its source, and an `ERET` right after
  it restores the interrupted state.
-/

namespace V64.Interp

open V64.Cpu V64.Decoder

/-- `EC_SVC` (line 12). -/
def ecSvc : BitVec 32 := 0x15

/-- `EC_UNKNOWN` (line 15). -/
def ecUnknown : BitVec 32 := 0x00

/-- `EC_BRK` (line 17). -/
def ecBrk : BitVec 32 := 0x3c

/-- `EC_INST_ABORT_LOWER` (line 21). -/
def ecInstAbortLower : BitVec 32 := 0x20

/-- `EC_INST_ABORT_SAME` (line 22). -/
def ecInstAbortSame : BitVec 32 := 0x21

/-- `EC_DATA_ABORT_LOWER` (line 23). -/
def ecDataAbortLower : BitVec 32 := 0x24

/-- `EC_DATA_ABORT_SAME` (line 24). -/
def ecDataAbortSame : BitVec 32 := 0x25

/-- `key_vbar_el1` (lines 26–28). -/
def keyVbarEl1 : BitVec 32 := sysregKey 3 0 12 0 0

/-- `key_elr_el1` (lines 29–31). -/
def keyElrEl1 : BitVec 32 := sysregKey 3 0 4 0 1

/-- `key_spsr_el1` (lines 32–34). -/
def keySpsrEl1 : BitVec 32 := sysregKey 3 0 4 0 0

/-- `key_esr_el1` (lines 35–37). -/
def keyEsrEl1 : BitVec 32 := sysregKey 3 0 5 2 0

/-- `key_far_el1` (lines 38–40). -/
def keyFarEl1 : BitVec 32 := sysregKey 3 0 6 0 0

/-- `key_sp_el0` (lines 43–45). -/
def keySpEl0 : BitVec 32 := sysregKey 3 0 4 1 0

/-- `key_sp_el1` (lines 46–48). -/
def keySpEl1 : BitVec 32 := sysregKey 3 4 4 1 0

/-- `VEC_SYNC` (line 52). -/
def vecSync : BitVec 64 := 0x000

/-- `VEC_IRQ` (line 53). -/
def vecIrq : BitVec 64 := 0x080

/-- `cpu.sysregs.get(&key).copied().unwrap_or(0)`. -/
def getSysreg (cpu : CpuState) (key : BitVec 32) : BitVec 64 := (cpu.sysregs key).getD 0

/-- `cpu.sysregs.insert(key, val)`. -/
def insertSysreg (cpu : CpuState) (key : BitVec 32) (val : BitVec 64) : CpuState :=
  { cpu with sysregs := Function.update cpu.sysregs key (some val) }

theorem getSysreg_insertSysreg (cpu : CpuState) (k key : BitVec 32) (val : BitVec 64) :
    getSysreg (insertSysreg cpu key val) k = if k = key then val else getSysreg cpu k := by
  unfold getSysreg insertSysreg
  by_cases h : k = key
  · simp [h]
  · simp [h]

/-- `group` of `enter_el1` (lines 62–68). -/
def vecGroup (cpu : CpuState) : BitVec 64 :=
  if cpu.el < 1 then 0x400 else if cpu.spsel then 0x200 else 0x000

/-- `enter_el1` (lines 58–78). -/
def enterEl1 (cpu : CpuState) (returnAddr vecType : BitVec 64) : BitVec 64 × CpuState :=
  let group := vecGroup cpu
  let vbar := getSysreg cpu keyVbarEl1
  let spsr := cpu.pstate
  let cpu := insertSysreg cpu keyElrEl1 returnAddr
  let cpu := insertSysreg cpu keySpsrEl1 spsr
  let cpu := cpu.setElSpsel 1 true
  let cpu := { cpu with daif := 0b1111 }
  (vbar + (group + vecType), cpu)

/-- `take_exception` (lines 82–87). -/
def takeException (cpu : CpuState) (ec iss : BitVec 32) (returnAddr : BitVec 64) :
    BitVec 64 × CpuState :=
  let (pc, cpu) := enterEl1 cpu returnAddr vecSync
  (pc, insertSysreg cpu keyEsrEl1 ((ec.setWidth 64 <<< 26) ||| (1 <<< 25) ||| iss.setWidth 64))

/-- `take_irq` (lines 93–95). -/
def takeIrq (cpu : CpuState) : BitVec 64 × CpuState := enterEl1 cpu cpu.pc vecIrq

/-- `svc` (lines 98–100). -/
def svc (cpu : CpuState) (imm16 : BitVec 16) (pc : BitVec 64) : BitVec 64 × CpuState :=
  takeException cpu ecSvc (imm16.setWidth 32) (pc + 4)

/-- `undefined` (lines 107–109). -/
def undefined (cpu : CpuState) (pc : BitVec 64) : BitVec 64 × CpuState :=
  takeException cpu ecUnknown 0 pc

/-- `brk` (lines 115–117). -/
def brk (cpu : CpuState) (imm16 : BitVec 16) (pc : BitVec 64) : BitVec 64 × CpuState :=
  takeException cpu ecBrk (imm16.setWidth 32) pc

/-- `inst_abort` (lines 123–127). -/
def instAbort (cpu : CpuState) (faultPc : BitVec 64) (fsc : BitVec 8) : BitVec 64 × CpuState :=
  let ec := if cpu.el = 0 then ecInstAbortLower else ecInstAbortSame
  let cpu := insertSysreg cpu keyFarEl1 faultPc
  takeException cpu ec (fsc.setWidth 32 &&& 0x3f) faultPc

/-- `data_abort` (lines 132–137). -/
def dataAbort (cpu : CpuState) (faultPc : BitVec 64) (abort : Abort) : BitVec 64 × CpuState :=
  let ec := if cpu.el = 0 then ecDataAbortLower else ecDataAbortSame
  let iss := ((if abort.write then 1#32 else 0) <<< 6) ||| (abort.fsc.setWidth 32 &&& 0x3f)
  let cpu := insertSysreg cpu keyFarEl1 abort.far
  takeException cpu ec iss faultPc

/-- `eret` (lines 140–145): the return address and the restored state. -/
def eret (cpu : CpuState) : BitVec 64 × CpuState :=
  let elr := getSysreg cpu keyElrEl1
  let spsr := getSysreg cpu keySpsrEl1
  (elr, cpu.setPstate spsr)

/-- `msr_imm` (lines 148–156). -/
def msrImm (cpu : CpuState) (op1 op2 : ℕ) (crm : BitVec 4) : CpuState :=
  match op1, op2 with
  | 0, 5 => cpu.setElSpsel cpu.el (crm &&& 1 == 1)
  | 3, 6 => { cpu with daif := cpu.daif ||| crm }
  | 3, 7 => { cpu with daif := cpu.daif &&& ~~~crm }
  | _, _ => cpu

/-! ## Every way into EL1 -/

/-- The exceptions that the run loops and `execute` raise. -/
inductive Exc where
  | svc (imm16 : BitVec 16)
  | brk (imm16 : BitVec 16)
  | undefined
  | instAbort (fsc : BitVec 8)
  | dataAbort (abort : Abort)
  | irq

namespace Exc

/-- Takes the exception at the instruction that `cpu.pc` addresses. -/
def take (cpu : CpuState) : Exc → BitVec 64 × CpuState
  | svc imm16 => Interp.svc cpu imm16 cpu.pc
  | brk imm16 => Interp.brk cpu imm16 cpu.pc
  | undefined => Interp.undefined cpu cpu.pc
  | instAbort fsc => Interp.instAbort cpu cpu.pc fsc
  | dataAbort abort => Interp.dataAbort cpu cpu.pc abort
  | irq => takeIrq cpu

/-- The preferred return address: past an SVC, otherwise the instruction itself. -/
def returnAddr (pc : BitVec 64) : Exc → BitVec 64
  | svc _ => pc + 4
  | _ => pc

/-- The type offset within a vector group. -/
def vecType : Exc → BitVec 64
  | irq => vecIrq
  | _ => vecSync

end Exc

/-- The group offset of an exception taken from EL `el` with `SPSel = spsel`. -/
def sourceGroup (el : Fin 4) (spsel : Bool) : BitVec 64 :=
  match el, spsel with
  | 0, _ => 0x400
  | _, true => 0x200
  | _, false => 0x000

theorem vecGroup_eq (cpu : CpuState) : vecGroup cpu = sourceGroup cpu.el cpu.spsel := by
  unfold vecGroup sourceGroup
  generalize cpu.el = el, cpu.spsel = spsel
  revert el spsel
  decide

/-- `entered` is what an exception from `cpu` leaves: EL1h with interrupts
masked, the interrupted PSTATE and the return address saved, and every stack
pointer and general register as it was. -/
structure Entered (cpu entered : CpuState) (returnAddr : BitVec 64) : Prop where
  el : entered.el = 1
  spsel : entered.spsel = true
  daif : entered.daif = 0b1111
  elr : getSysreg entered keyElrEl1 = returnAddr
  spsr : getSysreg entered keySpsrEl1 = cpu.pstate
  readSpEl : ∀ i, entered.readSpEl i = cpu.readSpEl i
  x : entered.x = cpu.x
  v : entered.v = cpu.v

theorem enterEl1_entered (cpu : CpuState) (returnAddr vecType : BitVec 64) :
    Entered cpu (enterEl1 cpu returnAddr vecType).2 returnAddr := by
  set saved := insertSysreg (insertSysreg cpu keyElrEl1 returnAddr) keySpsrEl1 cpu.pstate
    with hsaved
  have hcpu : (enterEl1 cpu returnAddr vecType).2 =
      { saved.setElSpsel 1 true with daif := 0b1111 } := rfl
  obtain ⟨sp, spEl, heq⟩ := CpuState.setElSpsel_eq saved 1 true
  have hsp (i : Fin 4) : (saved.setElSpsel 1 true).readSpEl i = cpu.readSpEl i := by
    rw [CpuState.readSpEl_setElSpsel]
    rfl
  have hkeys : keyElrEl1 ≠ keySpsrEl1 := by decide
  rw [hcpu]
  constructor
  case readSpEl => exact hsp
  all_goals rw [heq]
  case elr =>
    change getSysreg saved keyElrEl1 = returnAddr
    rw [hsaved, getSysreg_insertSysreg, if_neg hkeys, getSysreg_insertSysreg, if_pos rfl]
  case spsr =>
    change getSysreg saved keySpsrEl1 = cpu.pstate
    rw [hsaved, getSysreg_insertSysreg, if_pos rfl]
  all_goals rfl

/-- Recording a syndrome or a fault address is invisible to a later return. -/
theorem Entered.insertSysreg {cpu entered : CpuState} {ra : BitVec 64} (h : Entered cpu entered ra)
    {key : BitVec 32} (helr : key ≠ keyElrEl1) (hspsr : key ≠ keySpsrEl1) (val : BitVec 64) :
    Entered cpu (insertSysreg entered key val) ra where
  el := h.el
  spsel := h.spsel
  daif := h.daif
  elr := by rw [getSysreg_insertSysreg, if_neg helr.symm, h.elr]
  spsr := by rw [getSysreg_insertSysreg, if_neg hspsr.symm, h.spsr]
  readSpEl := h.readSpEl
  x := h.x
  v := h.v

theorem takeException_entered (cpu : CpuState) (ec iss : BitVec 32) (returnAddr : BitVec 64) :
    Entered cpu (takeException cpu ec iss returnAddr).2 returnAddr :=
  (enterEl1_entered cpu returnAddr vecSync).insertSysreg (by decide) (by decide) _

theorem Exc.take_entered (e : Exc) (cpu : CpuState) :
    Entered cpu (e.take cpu).2 (e.returnAddr cpu.pc) := by
  cases e with
  | svc imm16 => exact takeException_entered _ _ _ _
  | brk imm16 => exact takeException_entered _ _ _ _
  | undefined => exact takeException_entered _ _ _ _
  | instAbort fsc =>
    have h := takeException_entered (insertSysreg cpu keyFarEl1 cpu.pc)
      (if cpu.el = 0 then ecInstAbortLower else ecInstAbortSame) (fsc.setWidth 32 &&& 0x3f) cpu.pc
    exact ⟨h.el, h.spsel, h.daif, h.elr, h.spsr, h.readSpEl, h.x, h.v⟩
  | dataAbort abort =>
    have h := takeException_entered (insertSysreg cpu keyFarEl1 abort.far)
      (if cpu.el = 0 then ecDataAbortLower else ecDataAbortSame)
      (((if abort.write then 1#32 else 0) <<< 6) ||| (abort.fsc.setWidth 32 &&& 0x3f)) cpu.pc
    exact ⟨h.el, h.spsel, h.daif, h.elr, h.spsr, h.readSpEl, h.x, h.v⟩
  | irq => exact enterEl1_entered _ _ _

theorem getSysreg_far_vbar (cpu : CpuState) (val : BitVec 64) :
    getSysreg (insertSysreg cpu keyFarEl1 val) keyVbarEl1 = getSysreg cpu keyVbarEl1 := by
  rw [getSysreg_insertSysreg, if_neg (by decide)]

/-- The vector: the base, the group of the source and the type. -/
theorem Exc.take_pc (e : Exc) (cpu : CpuState) :
    (e.take cpu).1 =
      getSysreg cpu keyVbarEl1 + (sourceGroup cpu.el cpu.spsel + e.vecType) := by
  rw [← vecGroup_eq]
  cases e with
  | svc imm16 => rfl
  | brk imm16 => rfl
  | undefined => rfl
  | instAbort fsc => rw [← getSysreg_far_vbar cpu cpu.pc]; rfl
  | dataAbort abort => rw [← getSysreg_far_vbar cpu abort.far]; rfl
  | irq => rfl

/-- What an `ERET` brings back, compared with the interrupted state. -/
structure Restored (cpu back : CpuState) : Prop where
  el : back.el = cpu.el
  spsel : back.spsel = cpu.spsel
  daif : back.daif = cpu.daif
  flags : back.flags = cpu.flags
  sp : back.sp = cpu.sp
  readSpEl : ∀ i, back.readSpEl i = cpu.readSpEl i
  x : back.x = cpu.x
  v : back.v = cpu.v

/-- A return from any entered state restores the interrupted one. -/
theorem Entered.eret {cpu entered : CpuState} {ra : BitVec 64} (h : Entered cpu entered ra) :
    (eret entered).1 = ra ∧ Restored cpu (eret entered).2 := by
  refine ⟨h.elr, ?_⟩
  set unmasked : CpuState := { entered with flags := cpu.flags, daif := cpu.daif }
  have hback : (Interp.eret entered).2 = unmasked.setElSpsel cpu.el cpu.spsel := by
    change entered.setPstate (getSysreg entered keySpsrEl1) = _
    rw [h.spsr, CpuState.setPstate_pstate]
  have hbanks (i : Fin 4) : (Interp.eret entered).2.readSpEl i = cpu.readSpEl i := by
    rw [hback, CpuState.readSpEl_setElSpsel]
    exact h.readSpEl i
  have hindex : (Interp.eret entered).2.spIndex = cpu.spIndex := by
    rw [hback, CpuState.spIndex_setElSpsel, CpuState.spIndex]
  have hsp : (Interp.eret entered).2.sp = cpu.sp := by
    rw [← CpuState.readSpEl_spIndex, hindex, hbanks, CpuState.readSpEl_spIndex]
  obtain ⟨sp, spEl, heq⟩ := CpuState.setElSpsel_eq unmasked cpu.el cpu.spsel
  rw [heq] at hback
  exact {
    el := by rw [hback]
    spsel := by rw [hback]
    daif := by rw [hback]
    flags := by rw [hback]
    sp := hsp
    readSpEl := hbanks
    x := by rw [hback]; exact h.x
    v := by rw [hback]; exact h.v }

/-- Taking an exception enters EL1h, masked, at the vector of its source, and an
`ERET` right after it goes back to the interrupted state. -/
theorem take_eret (e : Exc) (cpu : CpuState) :
    let entered := (e.take cpu).2
    let back := (eret entered).2
    (e.take cpu).1 = getSysreg cpu keyVbarEl1 + (sourceGroup cpu.el cpu.spsel + e.vecType) ∧
      entered.el = 1 ∧ entered.spsel = true ∧ entered.daif = 0b1111 ∧
      (eret entered).1 = e.returnAddr cpu.pc ∧
      back.el = cpu.el ∧ back.spsel = cpu.spsel ∧ back.daif = cpu.daif ∧
      back.flags = cpu.flags ∧ back.sp = cpu.sp ∧ (∀ i, back.readSpEl i = cpu.readSpEl i) ∧
      back.x = cpu.x ∧ back.v = cpu.v := by
  intro entered back
  have hentered : Entered cpu entered (e.returnAddr cpu.pc) := e.take_entered cpu
  obtain ⟨hret, hback⟩ := hentered.eret
  exact ⟨e.take_pc cpu, hentered.el, hentered.spsel, hentered.daif, hret, hback.el, hback.spsel,
    hback.daif, hback.flags, hback.sp, hback.readSpEl, hback.x, hback.v⟩

end V64.Interp
