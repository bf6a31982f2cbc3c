import V64.Cpu.State
import V64.Lib.Bytes

/-!
# Guest memory

Model of `crates/interp/src/memory.rs`. Reads return the memory too: an MMIO
backing can change on a read. `Memory` is the RAM image; its accesses are total
here, and the `Vec` index checks of the source are the caller's `ramFits`.
-/

namespace V64.Interp

/-- `GuestMem` (lines 13–23). -/
class GuestMem (M : Type) where
  readU8 : M → BitVec 64 → BitVec 8 × M
  readU16 : M → BitVec 64 → BitVec 16 × M
  readU32 : M → BitVec 64 → BitVec 32 × M
  readU64 : M → BitVec 64 → BitVec 64 × M
  writeU8 : M → BitVec 64 → BitVec 8 → M
  writeU16 : M → BitVec 64 → BitVec 16 → M
  writeU32 : M → BitVec 64 → BitVec 32 → M
  writeU64 : M → BitVec 64 → BitVec 64 → M

/-- `Memory` (lines 27–30): `size` is `bytes.len()`. -/
structure Memory where
  base : BitVec 64
  size : BitVec 64
  bytes : ℕ → BitVec 8

namespace Memory

/-- `(addr - self.base) as usize`. -/
def off (m : Memory) (addr : BitVec 64) : ℕ := (addr - m.base).toNat

/-- `read_u8` … `read_u64` (lines 61–75): `from_le_bytes` of `n` bytes at `addr`. -/
def read (w : ℕ) (m : Memory) (addr : BitVec 64) (n : ℕ) : BitVec w :=
  Bytes.loadLe w m.bytes (m.off addr) n

/-- `write_u8` … `write_u64` (lines 76–90): `to_le_bytes` of `val` at `addr`. -/
def write {w : ℕ} (m : Memory) (addr : BitVec 64) (n : ℕ) (val : BitVec w) : Memory :=
  { m with bytes := Bytes.storeLe m.bytes (m.off addr) n val }

@[simp] theorem base_write {w : ℕ} (m : Memory) (addr : BitVec 64) (n : ℕ) (val : BitVec w) :
    (m.write addr n val).base = m.base := rfl

@[simp] theorem size_write {w : ℕ} (m : Memory) (addr : BitVec 64) (n : ℕ) (val : BitVec w) :
    (m.write addr n val).size = m.size := rfl

end Memory

end V64.Interp
