import V64.Cpu.Tlb

/-!
# CPU state

Model of `crates/cpu/src/state.rs`. Register numbers are `Fin 32`: the decoder
takes every one of them from a five-bit field. `el` has the two bits that
`set_pstate` gives it, and `daif` the four bits of PSTATE; both are `u8` in the
source. `sysregs` is a partial function of the encoded key.

* `readGpr_writeGpr`: register 31 is SP or the zero register, by context.
* `readSpEl_setElSpsel`, `readSpEl_writeSpEl`: switching banks moves no stack
  pointer, and a write to one bank is read back from that bank only.
* `setPstate_pstate`: `set_pstate` reads back every field that `pstate` packs.
-/

namespace V64.Cpu

/-- A register number: the value of a five-bit instruction field. -/
abbrev Reg := Fin 32

instance neZeroFour : NeZero 4 := ⟨by decide⟩

instance neZeroThirtyOne : NeZero 31 := ⟨by decide⟩

instance neZeroThirtyTwo : NeZero 32 := ⟨by decide⟩

/-- `Abort` (lines 18–25). -/
structure Abort where
  far : BitVec 64
  write : Bool
  fsc : BitVec 8
  deriving DecidableEq

/-- `CpuState` (lines 43–135). -/
structure CpuState where
  x : Fin 31 → BitVec 64
  sp : BitVec 64
  pc : BitVec 64
  nzcv : BitVec 64
  v : Fin 32 → BitVec 128
  jitCount : BitVec 64
  jitExit : BitVec 64
  flags : Flags
  sctlrEl1 : BitVec 64
  tcrEl1 : BitVec 64
  ttbr0El1 : BitVec 64
  ttbr1El1 : BitVec 64
  fpcr : BitVec 64
  fpsr : BitVec 64
  exclValid : BitVec 8
  exclAddr : BitVec 64
  exclVal : BitVec 64
  sysregs : BitVec 32 → Option (BitVec 64)
  el : Fin 4
  spsel : Bool
  daif : BitVec 4
  spEl : Fin 4 → BitVec 64
  poweredOff : Bool
  pendingAbort : Option Abort
  wfi : Bool
  tlb : Tlb
  icInval : Bool
  tlbFlushed : Bool

namespace CpuState

/-- `CpuState::default` (lines 167–198): reset into EL1 with SP_EL1. -/
def new : CpuState where
  x := fun _ => 0
  sp := 0
  pc := 0
  nzcv := 0
  v := fun _ => 0
  jitCount := 0
  jitExit := 0
  flags := Flags.default
  sctlrEl1 := 0
  tcrEl1 := 0
  ttbr0El1 := 0
  ttbr1El1 := 0
  fpcr := 0
  fpsr := 0
  exclValid := 0
  exclAddr := 0
  exclVal := 0
  sysregs := fun _ => none
  el := 1
  spsel := true
  daif := 0
  spEl := fun _ => 0
  poweredOff := false
  pendingAbort := none
  wfi := false
  tlb := Tlb.new
  icInval := false
  tlbFlushed := false

/-- `flush_tlb` (lines 210–213). -/
def flushTlb (cpu : CpuState) : CpuState := { cpu with tlb := cpu.tlb.flush, tlbFlushed := true }

/-- `arm_excl` (lines 216–220). -/
def armExcl (cpu : CpuState) (addr val : BitVec 64) : CpuState :=
  { cpu with exclValid := 1, exclAddr := addr, exclVal := val }

/-- `clear_excl` (lines 223–225). -/
def clearExcl (cpu : CpuState) : CpuState := { cpu with exclValid := 0 }

/-- `excl` (lines 229–231). -/
def excl (cpu : CpuState) : Option (BitVec 64 × BitVec 64) :=
  if cpu.exclValid ≠ 0 then some (cpu.exclAddr, cpu.exclVal) else none

/-! ## General-purpose registers -/

/-- `read_gpr` (lines 236–242). -/
def readGpr (cpu : CpuState) (idx : Reg) (sp : Bool) : BitVec 64 :=
  if h : idx.val < 31 then cpu.x ⟨idx.val, h⟩ else if sp then cpu.sp else 0

/-- `write_gpr` (lines 247–253). -/
def writeGpr (cpu : CpuState) (idx : Reg) (sp : Bool) (val : BitVec 64) : CpuState :=
  if h : idx.val < 31 then { cpu with x := Function.update cpu.x ⟨idx.val, h⟩ val }
  else if sp then { cpu with sp := val } else cpu

/-- `read_gpr_w` (lines 257–259). -/
def readGprW (cpu : CpuState) (idx : Reg) (sp : Bool) : BitVec 64 :=
  cpu.readGpr idx sp &&& 0xffffffff#64

/-- `write_gpr_w` (lines 263–265). -/
def writeGprW (cpu : CpuState) (idx : Reg) (sp : Bool) (val : BitVec 64) : CpuState :=
  cpu.writeGpr idx sp (val &&& 0xffffffff#64)

theorem readGpr_of_lt (cpu : CpuState) {idx : Reg} (h : idx.val < 31) (sp : Bool) :
    cpu.readGpr idx sp = cpu.x ⟨idx.val, h⟩ := dif_pos h

theorem readGpr_of_not_lt (cpu : CpuState) {idx : Reg} (h : ¬ idx.val < 31) (sp : Bool) :
    cpu.readGpr idx sp = if sp then cpu.sp else 0 := dif_neg h

theorem writeGpr_of_lt (cpu : CpuState) {idx : Reg} (h : idx.val < 31) (sp : Bool)
    (val : BitVec 64) :
    cpu.writeGpr idx sp val = { cpu with x := Function.update cpu.x ⟨idx.val, h⟩ val } := dif_pos h

theorem writeGpr_of_not_lt (cpu : CpuState) {idx : Reg} (h : ¬ idx.val < 31) (sp : Bool)
    (val : BitVec 64) :
    cpu.writeGpr idx sp val = if sp then { cpu with sp := val } else cpu := dif_neg h

theorem readGpr_writeGpr (cpu : CpuState) (i j : Reg) (s t : Bool) (val : BitVec 64) :
    (cpu.writeGpr j t val).readGpr i s =
      if i = j ∧ (i.val < 31 ∨ (s = true ∧ t = true)) then val else cpu.readGpr i s := by
  have hext : i = j ↔ i.val = j.val := Fin.ext_iff
  by_cases hi : i.val < 31 <;> by_cases hj : j.val < 31
  · by_cases hij : i.val = j.val
    · simp [readGpr_of_lt _ hi, writeGpr_of_lt _ hj, hj, hext, hij]
    · simp [readGpr_of_lt _ hi, writeGpr_of_lt _ hj, hext, hij]
  · have hij : i.val ≠ j.val := by omega
    cases t <;> simp [readGpr_of_lt _ hi, writeGpr_of_not_lt _ hj, hext, hij]
  · have hij : i.val ≠ j.val := by omega
    simp [readGpr_of_not_lt _ hi, writeGpr_of_lt _ hj, hext, hij]
  · have hij : i.val = j.val := by omega
    cases s <;> cases t <;>
      simp [readGpr_of_not_lt _ hi, writeGpr_of_not_lt _ hj, hj, hext, hij]

/-- `writeGpr` reaches the general registers and the live SP, and nothing else. -/
theorem writeGpr_eq (cpu : CpuState) (idx : Reg) (sp : Bool) (val : BitVec 64) :
    ∃ x sp', cpu.writeGpr idx sp val = { cpu with x := x, sp := sp' } := by
  unfold writeGpr
  split_ifs <;> exact ⟨_, _, rfl⟩

/-! ## Banked stack pointers -/

/-- `sp_index` (lines 269–275). -/
def spIndex (cpu : CpuState) : Fin 4 := if cpu.spsel then cpu.el else 0

/-- `set_el_spsel` (lines 279–288). -/
def setElSpsel (cpu : CpuState) (el : Fin 4) (spsel : Bool) : CpuState :=
  let old := cpu.spIndex
  let cpu := { cpu with el := el, spsel := spsel }
  let new := cpu.spIndex
  if old ≠ new then
    let cpu := { cpu with spEl := Function.update cpu.spEl old cpu.sp }
    { cpu with sp := cpu.spEl new }
  else cpu

/-- `read_sp_el` (lines 292–298). -/
def readSpEl (cpu : CpuState) (idx : Fin 4) : BitVec 64 :=
  if idx = cpu.spIndex then cpu.sp else cpu.spEl idx

/-- `write_sp_el` (lines 301–307). -/
def writeSpEl (cpu : CpuState) (idx : Fin 4) (val : BitVec 64) : CpuState :=
  if idx = cpu.spIndex then { cpu with sp := val }
  else { cpu with spEl := Function.update cpu.spEl idx val }

/-- The live `sp` is the bank the current EL and SPSel select. -/
@[simp] theorem readSpEl_spIndex (cpu : CpuState) : cpu.readSpEl cpu.spIndex = cpu.sp := by
  simp [readSpEl]

@[simp] theorem spIndex_writeSpEl (cpu : CpuState) (i : Fin 4) (val : BitVec 64) :
    (cpu.writeSpEl i val).spIndex = cpu.spIndex := by
  unfold writeSpEl spIndex
  split_ifs <;> rfl

theorem readSpEl_writeSpEl (cpu : CpuState) (i j : Fin 4) (val : BitVec 64) :
    (cpu.writeSpEl j val).readSpEl i = if i = j then val else cpu.readSpEl i := by
  have hidx := spIndex_writeSpEl cpu j val
  unfold readSpEl
  rw [hidx]
  unfold writeSpEl
  by_cases hj : j = cpu.spIndex
  · by_cases hi : i = cpu.spIndex
    · simp [hi, hj]
    · have hij : i ≠ j := fun h => hi (h.trans hj)
      simp [hi, hj]
  · by_cases hij : i = j
    · subst hij; simp [hj]
    · simp [hj, hij]

@[simp] theorem spIndex_setElSpsel (cpu : CpuState) (el : Fin 4) (spsel : Bool) :
    (cpu.setElSpsel el spsel).spIndex = if spsel then el else 0 := by
  unfold setElSpsel spIndex
  dsimp only
  split_ifs <;> rfl

/-- Switching banks saves the old stack pointer and loads the new one, so no
bank changes its value. -/
@[simp] theorem readSpEl_setElSpsel (cpu : CpuState) (el : Fin 4) (spsel : Bool) (i : Fin 4) :
    (cpu.setElSpsel el spsel).readSpEl i = cpu.readSpEl i := by
  have hidx := spIndex_setElSpsel cpu el spsel
  unfold readSpEl
  rw [hidx]
  set new : Fin 4 := if spsel then el else 0 with hnew
  by_cases hold : cpu.spIndex = new
  · have hset : cpu.setElSpsel el spsel = { cpu with el := el, spsel := spsel } := by
      unfold setElSpsel
      rw [if_neg]
      simp only [ne_eq, not_not]
      exact hold
    simp [hset, hold]
  · have hset : cpu.setElSpsel el spsel =
        { cpu with
          el := el, spsel := spsel,
          spEl := Function.update cpu.spEl cpu.spIndex cpu.sp,
          sp := Function.update cpu.spEl cpu.spIndex cpu.sp new } := by
      unfold setElSpsel
      rw [if_pos]
      · rfl
      · exact hold
    rw [hset]
    dsimp only
    rw [Function.update_of_ne (Ne.symm hold)]
    by_cases hi : i = new
    · simp [hi, Ne.symm hold]
    · by_cases hc : i = cpu.spIndex
      · simp [hc, hold]
      · simp [hi, hc]

/-- `setElSpsel` touches EL, SPSel and the stack pointers only. -/
theorem setElSpsel_eq (cpu : CpuState) (el : Fin 4) (spsel : Bool) :
    ∃ sp spEl, cpu.setElSpsel el spsel =
      { cpu with el := el, spsel := spsel, sp := sp, spEl := spEl } := by
  unfold setElSpsel
  dsimp only
  split_ifs <;> exact ⟨_, _, rfl⟩

/-! ## PSTATE -/

/-- `pstate` (lines 312–317). -/
def pstate (cpu : CpuState) : BitVec 64 :=
  cpu.flags.toNzcv ||| (cpu.daif.setWidth 64 <<< 6) |||
    (BitVec.ofNat 64 cpu.el.val <<< 2) ||| bit64 cpu.spsel

/-- The `el` field `((v >> 2) & 0x3) as u8` of a saved PSTATE. -/
def psrEl (v : BitVec 64) : Fin 4 := ((v >>> 2).setWidth 2).toFin

/-- `set_pstate` (lines 320–326). -/
def setPstate (cpu : CpuState) (v : BitVec 64) : CpuState :=
  let cpu := { cpu with flags := Flags.fromNzcv v, daif := (v >>> 6).setWidth 4 }
  cpu.setElSpsel (psrEl v) (v &&& 1 == 1)

/-- The EL field of PSTATE has two bits. -/
theorem getLsbD_elBits (el : Fin 4) {i : ℕ} (h : 2 ≤ i) :
    (BitVec.ofNat 64 el.val).getLsbD i = false := by
  have hlt : el.val < 2 ^ i := Nat.lt_of_lt_of_le el.isLt (Nat.pow_le_pow_right Nat.two_pos h)
  rw [BitVec.getLsbD_ofNat, Nat.testBit_lt_two_pow hlt, Bool.and_false]

theorem getLsbD_pstate (cpu : CpuState) {i : ℕ} (h : i < 64) :
    cpu.pstate.getLsbD i =
      (cpu.flags.toNzcv.getLsbD i || (decide (6 ≤ i) && cpu.daif.getLsbD (i - 6)) ||
        (decide (2 ≤ i) && (BitVec.ofNat 64 cpu.el.val).getLsbD (i - 2)) ||
        (cpu.spsel && decide (i = 0))) := by
  have h6 : i - 6 < 64 := by omega
  simp only [pstate, BitVec.getLsbD_or, BitVec.getLsbD_shiftLeft, BitVec.getLsbD_setWidth,
    getLsbD_bit64, h, h6, decide_true, Bool.true_and, ← decide_not, Nat.not_lt]

/-- `to_nzcv` sets bits 28 to 31 only. -/
theorem getLsbD_toNzcv_low (f : Flags) {i : ℕ} (h : i < 28) : f.toNzcv.getLsbD i = false := by
  have h28 : ¬ 28 ≤ i := by omega
  simp [Flags.toNzcv, show i < 31 by omega, show i < 30 by omega, show i < 29 by omega, h]

theorem fromNzcv_pstate (cpu : CpuState) : Flags.fromNzcv cpu.pstate = cpu.flags := by
  have h := Flags.fromNzcv_toNzcv cpu.flags
  simp only [Flags.fromNzcv, shiftRight_and_one_beq_one] at h ⊢
  have hi (i : ℕ) (hi : 28 ≤ i ∧ i < 64) : cpu.pstate.getLsbD i = cpu.flags.toNzcv.getLsbD i := by
    rw [getLsbD_pstate _ hi.2, getLsbD_elBits _ (by omega),
      BitVec.getLsbD_of_ge cpu.daif _ (by omega)]
    simp [show i ≠ 0 by omega]
  rw [hi 31 (by omega), hi 30 (by omega), hi 29 (by omega), hi 28 (by omega)]
  exact h

theorem daif_pstate (cpu : CpuState) : (cpu.pstate >>> 6).setWidth 4 = cpu.daif := by
  ext i hi
  rw [← BitVec.getLsbD_eq_getElem, BitVec.getLsbD_setWidth, BitVec.getLsbD_ushiftRight,
    getLsbD_pstate _ (by omega), getLsbD_elBits _ (by omega), getLsbD_toNzcv_low _ (by omega)]
  simp [hi]

theorem psrEl_pstate (cpu : CpuState) : psrEl cpu.pstate = cpu.el := by
  have hw : (cpu.pstate >>> 2).setWidth 2 = BitVec.ofNat 2 cpu.el.val := by
    ext i hi
    rw [← BitVec.getLsbD_eq_getElem, BitVec.getLsbD_setWidth, BitVec.getLsbD_ushiftRight,
      getLsbD_pstate _ (by omega), getLsbD_toNzcv_low _ (by omega)]
    simp only [hi, show ¬ 6 ≤ 2 + i by omega, show 2 + i ≠ 0 by omega, BitVec.getLsbD_ofNat,
      show i < 64 by omega, ← BitVec.getLsbD_eq_getElem, Nat.le_add_right, Nat.add_sub_cancel_left,
      decide_true, decide_false, Bool.true_and, Bool.false_and, Bool.false_or, Bool.and_false,
      Bool.or_false]
  rw [psrEl, hw]
  exact Fin.ext (by simp)

theorem spsel_pstate (cpu : CpuState) : (cpu.pstate &&& 1 == 1) = cpu.spsel := by
  rw [and_one_beq_one, getLsbD_pstate _ (by decide), getLsbD_toNzcv_low _ (by decide)]
  simp

theorem setPstate_pstate (cpu cpu' : CpuState) :
    cpu'.setPstate cpu.pstate =
      { cpu' with flags := cpu.flags, daif := cpu.daif }.setElSpsel cpu.el cpu.spsel := by
  simp only [setPstate, fromNzcv_pstate, daif_pstate, psrEl_pstate, spsel_pstate]

end CpuState

end V64.Cpu
