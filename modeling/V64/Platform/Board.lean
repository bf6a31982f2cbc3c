import V64.Lib.Checked
import V64.Cpu.State
import V64.Platform.Bus
import V64.Platform.Fdt.Virt

/-!
# The board

Model of what the loader reads and writes of `Board` in `crates/platform/src/board.rs`, in
a build without overflow checks. A `usize` is as wide as the target says; a panic is
`none`. A `Vec` or slice of bytes has at most `isize::MAX` of them.
-/

namespace V64.Platform

open Checked V64.Cpu V64.Interp

/-- `RAM_BASE` (line 13). -/
def ramBase : BitVec 64 := 0x40000000

/-- `GICD_BASE` (line 14). -/
def gicdBase : BitVec 64 := 0x08000000

/-- `GICC_BASE` (line 15). -/
def giccBase : BitVec 64 := 0x08010000

/-- `UART_BASE` (line 16). -/
def uartBase : BitVec 64 := 0x09000000

/-- `UART_IRQ` (line 18). -/
def uartIrq : BitVec 32 := 33

/-- `DAIF_MASKED` (line 40). -/
def daifMasked : BitVec 4 := 0b1111

/-- The bytes fit a `Vec`. -/
def Fits (t : Target) (bytes : List (BitVec 8)) : Prop := bytes.length < 2 ^ (t.usizeBits - 1)

instance (t : Target) (bytes : List (BitVec 8)) : Decidable (Fits t bytes) :=
  inferInstanceAs (Decidable (_ < _))

/-- The range `off..off + n` of `Memory::write` is one of the image: its sum wraps. -/
def InSlice (t : Target) (ram : Memory) (addr : BitVec 64) (n : ℕ) : Prop :=
  let off : t.Usize := (addr - ram.base).setWidth t.usizeBits
  let stop : t.Usize := off + BitVec.ofNat t.usizeBits n
  off.toNat ≤ stop.toNat ∧ stop.toNat ≤ ram.size.toNat

instance (t : Target) (ram : Memory) (addr : BitVec 64) (n : ℕ) :
    Decidable (InSlice t ram addr n) :=
  inferInstanceAs (Decidable (_ ∧ _))

/-- `Memory::write` of `crates/interp/src/memory.rs` (lines 39–42). A range that is not one
    of the image panics. -/
def writeSlice (t : Target) (ram : Memory) (addr : BitVec 64) (data : List (BitVec 8)) :
    Option Memory :=
  if InSlice t ram addr data.length then
    let off := ((addr - ram.base).setWidth t.usizeBits).toNat
    some { ram with bytes := fun a =>
      if off ≤ a ∧ a < off + data.length then data.getD (a - off) 0 else ram.bytes a }
  else none

/-- `Board` (lines 79–85): the CPU and the bus of its machine, and the virtio slots. -/
structure Board (D : Type) where
  cpu : CpuState
  bus : Bus D
  virtioSlots : List (BitVec 64 × BitVec 32)

namespace Board

variable {D : Type} (board : Board D)

/-- `Board::ram_size` (lines 181–183). -/
def ramSize : BitVec 64 := board.bus.ram.size

/-- `Board::dtb` (lines 187–199). A blob that no `Vec` can hold panics. -/
def dtb (t : Target) (ramSize : BitVec 64) (bootargs : Str)
    (initrd : Option (BitVec 64 × BitVec 64)) : Option (List (BitVec 8)) :=
  let blob := virtDtb {
    memBase := ramBase
    memSize := ramSize
    gicdBase := gicdBase
    giccBase := giccBase
    uartBase := uartBase
    uartIrq := uartIrq
    bootargs := bootargs
    initrd := initrd
    virtio := board.virtioSlots }
  if Fits t blob then some blob else none

/-- `Board::enter` (lines 204–212). -/
def enter (kernelAddr dtbAddr : BitVec 64) : Board D :=
  let cpu := { board.cpu with x := fun i => if i = 0 then dtbAddr else 0, pc := kernelAddr }
  let cpu := cpu.setElSpsel 1 true
  { board with cpu := { cpu with daif := daifMasked, poweredOff := false } }

end Board

end V64.Platform
