import V64.Interp.Memory

/-!
# The physical-address bus

Model of `crates/platform/src/bus.rs`: every sized access goes to RAM, to the
device whose window holds it, or nowhere (reads give 0, writes are dropped).

* `Bus.RamWf`: the RAM window does not wrap, which `Bus::map` relies on too.
* `Bus.InRam`: the accesses that the RAM image serves; they reach no device
  (`load_of_inRam`, `store_of_inRam`).
-/

namespace V64.Platform

open V64.Interp

/-- `MmioDevice` (lines 18–25). -/
class MmioDevice (D : Type) where
  read : D → (offset : BitVec 64) → (size : ℕ) → BitVec 64 × D
  write : D → (offset : BitVec 64) → (size : ℕ) → (val : BitVec 64) → D

/-- A machine without devices. -/
instance : MmioDevice Empty where
  read d := d.elim
  write d := d.elim

/-- `DeviceEntry` (lines 38–42). -/
structure DeviceEntry (D : Type) where
  base : BitVec 64
  size : BitVec 64
  dev : D

/-- `Route` (lines 45–49). -/
inductive Route where
  | ram
  | device (i : ℕ)
  | unmapped
  deriving DecidableEq

/-- `Bus` (lines 54–58). -/
structure Bus (D : Type) where
  ram : Memory
  devices : List (DeviceEntry D)

namespace Bus

variable {D : Type}

/-- `ram_end`, which `route` and `ram_fits` compute. -/
def ramEnd (b : Bus D) : BitVec 64 := b.ram.base + b.ram.size

/-- The condition of `route`'s scan: `addr` lies in the window of `d`. -/
def inWindow (d : DeviceEntry D) (addr : BitVec 64) : Bool :=
  d.base ≤ addr && addr < d.base + d.size

/-- `Bus::route` (lines 107–119). -/
def route (b : Bus D) (addr : BitVec 64) : Route :=
  if b.ram.base ≤ addr ∧ addr < b.ramEnd then .ram
  else
    match b.devices.findIdx? (inWindow · addr) with
    | some i => .device i
    | none => .unmapped

/-- `Bus::ram_fits` (lines 124–127). -/
def ramFits (b : Bus D) (addr : BitVec 64) (size : ℕ) : Bool :=
  addr.toNat + size < 2 ^ 64 && addr + BitVec.ofNat 64 size ≤ b.ramEnd

/-- The device whose window holds all `size` bytes at `addr`. -/
def device? (b : Bus D) (i : ℕ) (addr : BitVec 64) (size : ℕ) : Option (DeviceEntry D) :=
  b.devices[i]?.filter fun d => addr + BitVec.ofNat 64 size ≤ d.base + d.size

/-- `self.devices[i].dev` replaced by `dev`. -/
def setDev (b : Bus D) (i : ℕ) (d : DeviceEntry D) (dev : D) : Bus D :=
  { b with devices := b.devices.set i { d with dev := dev } }

/-- `Bus::load` (lines 129–148). -/
def load [MmioDevice D] (b : Bus D) (addr : BitVec 64) (size : ℕ) : BitVec 64 × Bus D :=
  match b.route addr with
  | .ram => if b.ramFits addr size then (b.ram.read 64 addr size, b) else (0, b)
  | .device i =>
    match b.device? i addr size with
    | some d =>
      let (val, dev) := MmioDevice.read d.dev (addr - d.base) size
      (val, b.setDev i d dev)
    | none => (0, b)
  | .unmapped => (0, b)

/-- `Bus::store` (lines 150–166). -/
def store [MmioDevice D] (b : Bus D) (addr : BitVec 64) (size : ℕ) (val : BitVec 64) : Bus D :=
  match b.route addr with
  | .ram => if b.ramFits addr size then { b with ram := b.ram.write addr size val } else b
  | .device i =>
    match b.device? i addr size with
    | some d => b.setDev i d (MmioDevice.write d.dev (addr - d.base) size val)
    | none => b
  | .unmapped => b

/-- `impl GuestMem for Bus` (lines 169–197). -/
instance [MmioDevice D] : GuestMem (Bus D) where
  readU8 b addr := let r := b.load addr 1; (r.1.setWidth 8, r.2)
  readU16 b addr := let r := b.load addr 2; (r.1.setWidth 16, r.2)
  readU32 b addr := let r := b.load addr 4; (r.1.setWidth 32, r.2)
  readU64 b addr := b.load addr 8
  writeU8 b addr val := b.store addr 1 (val.setWidth 64)
  writeU16 b addr val := b.store addr 2 (val.setWidth 64)
  writeU32 b addr val := b.store addr 4 (val.setWidth 64)
  writeU64 b addr val := b.store addr 8 val

/-! ## RAM -/

/-- The RAM window does not wrap around the 64-bit address space. -/
def RamWf (b : Bus D) : Prop := b.ram.base.toNat + b.ram.size.toNat < 2 ^ 64

/-- The `size` bytes at `addr` lie in RAM. -/
def InRam (b : Bus D) (addr : BitVec 64) (size : ℕ) : Prop :=
  b.ram.base.toNat ≤ addr.toNat ∧ addr.toNat + size ≤ b.ram.base.toNat + b.ram.size.toNat

instance (b : Bus D) (addr : BitVec 64) (size : ℕ) : Decidable (b.InRam addr size) :=
  inferInstanceAs (Decidable (_ ∧ _))

theorem toNat_ramEnd {b : Bus D} (h : b.RamWf) :
    b.ramEnd.toNat = b.ram.base.toNat + b.ram.size.toNat := by
  unfold ramEnd
  rw [BitVec.toNat_add, Nat.mod_eq_of_lt h]

theorem route_of_inRam {b : Bus D} (hwf : b.RamWf) {addr : BitVec 64} {size : ℕ}
    (hsize : 0 < size) (h : b.InRam addr size) : b.route addr = .ram := by
  have hend := toNat_ramEnd hwf
  unfold route
  rw [if_pos]
  rw [BitVec.le_def, BitVec.lt_def, hend]
  exact ⟨h.1, by have := h.2; omega⟩

theorem ramFits_of_inRam {b : Bus D} (hwf : b.RamWf) {addr : BitVec 64} {size : ℕ}
    (h : b.InRam addr size) : b.ramFits addr size = true := by
  have hend := toNat_ramEnd hwf
  have hlt : addr.toNat + size < 2 ^ 64 := Nat.lt_of_le_of_lt h.2 hwf
  have hadd : (addr + BitVec.ofNat 64 size).toNat = addr.toNat + size := by
    rw [BitVec.toNat_add, BitVec.toNat_ofNat, Nat.add_mod_mod, Nat.mod_eq_of_lt hlt]
  simp only [ramFits, BitVec.le_def, hadd, hend, hlt, h.2, decide_true, Bool.and_self]

theorem off_of_inRam {b : Bus D} {addr : BitVec 64} {size : ℕ} (h : b.InRam addr size) :
    b.ram.off addr = addr.toNat - b.ram.base.toNat :=
  BitVec.toNat_sub_of_le (BitVec.le_def.mpr h.1)

variable [MmioDevice D]

/-- A load that RAM serves leaves the bus as it is. -/
theorem load_mem_of_route {b : Bus D} {addr : BitVec 64} (h : b.route addr = .ram) (size : ℕ) :
    (b.load addr size).2 = b := by
  unfold load
  rw [h]
  dsimp only
  split_ifs <;> rfl

theorem load_of_inRam {b : Bus D} (hwf : b.RamWf) {addr : BitVec 64} {size : ℕ}
    (hsize : 0 < size) (h : b.InRam addr size) :
    b.load addr size = (b.ram.read 64 addr size, b) := by
  unfold load
  rw [route_of_inRam hwf hsize h, ramFits_of_inRam hwf h]
  rfl

theorem store_of_inRam {b : Bus D} (hwf : b.RamWf) {addr : BitVec 64} {size : ℕ}
    (hsize : 0 < size) (h : b.InRam addr size) (val : BitVec 64) :
    b.store addr size val = { b with ram := b.ram.write addr size val } := by
  unfold store
  rw [route_of_inRam hwf hsize h, ramFits_of_inRam hwf h]
  rfl

end Bus

end V64.Platform
