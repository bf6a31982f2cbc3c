import V64.Interp.Quiet

/-!
# What an ordinary instruction cannot reach

`kernel` is the state of the system registers, the exception level, the masks and
the saved stack pointers. It is a quiet view that does not see the monitor.

* `kernel_execute`: every instruction but those of `IsSystem`.
-/

namespace V64.Interp

open V64.Cpu V64.Decoder

/-- The CPU state that only system instructions and exceptions write. -/
structure KernelState where
  sctlrEl1 : BitVec 64
  tcrEl1 : BitVec 64
  ttbr0El1 : BitVec 64
  ttbr1El1 : BitVec 64
  sysregs : BitVec 32 → Option (BitVec 64)
  el : Fin 4
  spsel : Bool
  daif : BitVec 4
  spEl : Fin 4 → BitVec 64
  poweredOff : Bool

/-- The part of a CPU state that is in `KernelState`. -/
def kernel (cpu : CpuState) : KernelState where
  sctlrEl1 := cpu.sctlrEl1
  tcrEl1 := cpu.tcrEl1
  ttbr0El1 := cpu.ttbr0El1
  ttbr1El1 := cpu.ttbr1El1
  sysregs := cpu.sysregs
  el := cpu.el
  spsel := cpu.spsel
  daif := cpu.daif
  spEl := cpu.spEl
  poweredOff := cpu.poweredOff

theorem kernel_quiet : Quiet kernel where
  gpr _ _ _ := rfl
  flags _ _ := rfl
  vec _ _ _ _ := rfl
  access _ _ _ _ := rfl
  hint _ _ _ := rfl

theorem kernel_monitorQuiet : MonitorQuiet kernel := fun _ _ _ _ => rfl

variable {M : Type} [GuestMem M]

/-- Instructions other than system instructions leave the kernel state alone. -/
theorem kernel_execute {vu : VecUnit} {g g' : Guest M} {insn : Insn} {pc : BitVec 64}
    {next : Option (BitVec 64)} (h : execute vu g insn pc = some (next, g'))
    (hsys : ¬ IsSystem insn) : kernel g'.cpu = kernel g.cpu :=
  quiet_execute kernel_quiet h hsys fun _ => kernel_monitorQuiet

/-- A fetch translation leaves the kernel state alone. -/
theorem kernel_translate (g : Guest M) (va : BitVec 64) (access : Access) (el : Fin 4) :
    kernel (translate g va access el).2.cpu = kernel g.cpu :=
  quiet_translate kernel_quiet g va access el

end V64.Interp
