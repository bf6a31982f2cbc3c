import V64.Lib.Wasm.Exec
import V64.Platform.Bus

/-!
# The linear memory that compiled blocks share with the emulator

A block sees the live `CpuState` at `$regs_base`, guest RAM at `$ram_base` and
the boxed TLB array behind the pointer in `CpuState`. `HostMem` is that part of
linear memory as typed objects: an access to one of their fields reads or writes
that field, one of less than 8 bytes inside a vector register reads or writes a lane
of it, an access inside RAM reads or writes its bytes, and any other access traps.
Offsets follow `crates/cpu/src/regs.rs` and the `#[repr(C)]` layout of
`crates/cpu/src/state.rs`; those of `el` and `tlb`, behind a field whose size the
language does not fix, are parameters.

* `Field.ofOffset_offset`: fields do not overlap.
* `load_field`, `store_field`, `load_lane`, `store_lane`, `load_ram`, `store_ram`,
  `load_tlb`: the accesses that emitted code makes.
-/

namespace V64.Jit

open V64.Cpu V64.Interp V64.Platform Wasm

/-! ## The fields of `CpuState` -/

/-- `offsets::x` (`regs.rs`, lines 30–32). -/
def xOff (n : ℕ) : ℕ := n * 8

/-- `offsets::SP`. -/
def spOff : ℕ := 248

/-- `offsets::PC`. -/
def pcOff : ℕ := 256

/-- `offsets::NZCV`. -/
def nzcvOff : ℕ := 264

/-- `offsets::v` (`regs.rs`, lines 35–37). -/
def vOff (n : ℕ) : ℕ := 272 + n * 16

/-- `JIT_COUNT_OFFSET` (`state.rs`, line 146). -/
def jitCountOff : ℕ := 784

/-- `JIT_EXIT_OFFSET` (`state.rs`, line 149). -/
def jitExitOff : ℕ := 792

/-- `EXCL_VALID_OFFSET` (`state.rs`, line 162). -/
def exclValidOff : ℕ := 856

/-- `EXCL_ADDR_OFFSET` (`state.rs`, line 163). -/
def exclAddrOff : ℕ := 864

/-- `EXCL_VAL_OFFSET` (`state.rs`, line 164). -/
def exclValOff : ℕ := 872

/-- The 64-bit fields that emitted code reaches, a vector register as two. -/
inductive Field where
  | x (i : Fin 31)
  | sp
  | pc
  | nzcv
  | v (i : Fin 32) (high : Bool)
  | jitCount
  | jitExit
  | exclAddr
  | exclVal
  deriving DecidableEq

namespace Field

/-- The byte offset of a field. -/
def offset : Field → ℕ
  | x i => xOff i
  | sp => spOff
  | pc => pcOff
  | nzcv => nzcvOff
  | v i high => vOff i + if high then 8 else 0
  | jitCount => jitCountOff
  | jitExit => jitExitOff
  | exclAddr => exclAddrOff
  | exclVal => exclValOff

/-- The field at a byte offset. -/
def ofOffset (off : ℕ) : Option Field :=
  if off % 8 ≠ 0 then none
  else if hx : off < 248 then some (x ⟨off / 8, by omega⟩)
  else if off = 248 then some sp
  else if off = 256 then some pc
  else if off = 264 then some nzcv
  else if hv : 272 ≤ off ∧ off < 784 then
    some (v ⟨(off - 272) / 16, by omega⟩ ((off - 272) % 16 == 8))
  else if off = 784 then some jitCount
  else if off = 792 then some jitExit
  else if off = 864 then some exclAddr
  else if off = 872 then some exclVal
  else none

/-- The value of a field. -/
def get (cpu : CpuState) : Field → BitVec 64
  | x i => cpu.x i
  | sp => cpu.sp
  | pc => cpu.pc
  | nzcv => cpu.nzcv
  | v i high => if high then (cpu.v i >>> 64).setWidth 64 else (cpu.v i).setWidth 64
  | jitCount => cpu.jitCount
  | jitExit => cpu.jitExit
  | exclAddr => cpu.exclAddr
  | exclVal => cpu.exclVal

/-- The state with a field replaced. -/
def set (cpu : CpuState) (val : BitVec 64) : Field → CpuState
  | x i => { cpu with x := Function.update cpu.x i val }
  | sp => { cpu with sp := val }
  | pc => { cpu with pc := val }
  | nzcv => { cpu with nzcv := val }
  | v i high =>
    let word := if high then val ++ (cpu.v i).setWidth 64 else (cpu.v i >>> 64).setWidth 64 ++ val
    { cpu with v := Function.update cpu.v i word }
  | jitCount => { cpu with jitCount := val }
  | jitExit => { cpu with jitExit := val }
  | exclAddr => { cpu with exclAddr := val }
  | exclVal => { cpu with exclVal := val }

theorem ofOffset_offset (f : Field) : ofOffset f.offset = some f := by
  cases f with
  | x i =>
    revert i
    decide
  | v i high =>
    revert i high
    decide
  | _ => rfl

theorem offset_lt (f : Field) : f.offset + 8 ≤ 880 := by
  cases f with
  | x i => have := i.isLt; simp only [offset, xOff]; omega
  | v i high => have := i.isLt; cases high <;> simp only [offset, vOff] <;> grind
  | _ => decide

end Field

/-! ## Layout -/

/-- `TLB_ENTRIES` (`ENTRIES` of `tlb.rs`, line 54). -/
def tlbEntries : ℕ := 1024

/-- `ENTRY_SIZE` (`tlb.rs`, line 52). -/
def entrySize : ℕ := 24

/-- `ENTRY_TAG` (`tlb.rs`, line 49). -/
def entryTag : ℕ := 0

/-- `ENTRY_PA` (`tlb.rs`, line 50). -/
def entryPa : ℕ := 8

/-- `ENTRY_PERMS` (`tlb.rs`, line 51). -/
def entryPerms : ℕ := 16

/-- Where the shared objects are: the address and size of `CpuState`, the
offsets of `el` and of the TLB pointer in it, and the addresses of RAM and of
the TLB array. -/
structure Layout where
  regsBase : BitVec 32
  cpuSize : ℕ
  elOffset : ℕ
  tlbOffset : ℕ
  ramBase : BitVec 32
  tlbBase : BitVec 32

/-- The shared part of linear memory. -/
structure HostMem (D : Type) where
  layout : Layout
  cpu : CpuState
  bus : Bus D

/-- The objects lie in a 32-bit memory and do not overlap. -/
structure Layout.Wf (L : Layout) (ramSize : ℕ) : Prop where
  el : 880 ≤ L.elOffset ∧ L.elOffset < L.cpuSize
  tlb : 880 ≤ L.tlbOffset ∧ L.tlbOffset + 4 ≤ L.cpuSize
  cpuSize : 880 ≤ L.cpuSize
  regs_lt : L.regsBase.toNat + L.cpuSize ≤ 2 ^ 32
  ram_lt : L.ramBase.toNat + ramSize ≤ 2 ^ 32
  tlb_lt : L.tlbBase.toNat + entrySize * tlbEntries ≤ 2 ^ 32
  regs_ram : L.regsBase.toNat + L.cpuSize ≤ L.ramBase.toNat ∨
    L.ramBase.toNat + ramSize ≤ L.regsBase.toNat
  regs_tlb : L.regsBase.toNat + L.cpuSize ≤ L.tlbBase.toNat ∨
    L.tlbBase.toNat + entrySize * tlbEntries ≤ L.regsBase.toNat
  ram_tlb : L.ramBase.toNat + ramSize ≤ L.tlbBase.toNat ∨
    L.tlbBase.toNat + entrySize * tlbEntries ≤ L.ramBase.toNat

namespace HostMem

variable {D : Type}

/-- `bytes` bytes at `addr` lie in the `size` bytes at `base`. -/
def within (base : BitVec 32) (size addr bytes : ℕ) : Bool :=
  base.toNat ≤ addr && addr + bytes ≤ base.toNat + size

/-- The vector register that an access of less than 8 bytes falls into, and its first byte
there. -/
def laneSlot (off bytes : ℕ) : Option (Fin 32 × ℕ) :=
  if h : bytes < 8 ∧ 272 ≤ off ∧ off < 784 ∧ off % 16 + bytes ≤ 16 then
    some (⟨(off - 272) / 16, by omega⟩, off % 16)
  else none

/-- `bytes` bytes of a vector register, from its byte `b` on. -/
def laneBytes (v : BitVec 128) (b bytes : ℕ) : BitVec 64 :=
  ((v >>> (8 * b)).setWidth (8 * bytes)).setWidth 64

/-- The vector register with other bytes there. -/
def withLaneBytes (v : BitVec 128) (b bytes : ℕ) (val : BitVec 64) : BitVec 128 :=
  (v &&& ~~~((BitVec.allOnes (8 * bytes)).setWidth 128 <<< (8 * b))) |||
    ((val.setWidth (8 * bytes)).setWidth 128 <<< (8 * b))

/-- A load from `CpuState` at offset `off`. -/
def loadCpu (L : Layout) (cpu : CpuState) (off bytes : ℕ) : Option (BitVec 64) :=
  if bytes = 8 then (Field.ofOffset off).map (Field.get cpu)
  else if bytes = 4 ∧ off = L.tlbOffset then some (L.tlbBase.setWidth 64)
  else if bytes = 1 ∧ off = exclValidOff then some (cpu.exclValid.setWidth 64)
  else if bytes = 1 ∧ off = L.elOffset then some (BitVec.ofNat 64 cpu.el.val)
  else (laneSlot off bytes).map fun slot => laneBytes (cpu.v slot.1) slot.2 bytes

/-- A store to `CpuState` at offset `off`. -/
def storeCpu (cpu : CpuState) (off bytes : ℕ) (val : BitVec 64) : Option CpuState :=
  if bytes = 8 then (Field.ofOffset off).map (Field.set cpu val)
  else if bytes = 1 ∧ off = exclValidOff then some { cpu with exclValid := val.setWidth 8 }
  else (laneSlot off bytes).map fun slot =>
    let word := withLaneBytes (cpu.v slot.1) slot.2 bytes val
    { cpu with v := Function.update cpu.v slot.1 word }

/-- The TLB entry that covers offset `off` of the array. -/
def entryAt (t : Tlb) (off : ℕ) : Entry := t.entries (Fin.ofNat tlbSize (off / entrySize))

/-- A load from the TLB array at offset `off`. -/
def loadTlb (t : Tlb) (off bytes : ℕ) : Option (BitVec 64) :=
  if bytes = 8 ∧ off % entrySize = entryTag then some (entryAt t off).tag
  else if bytes = 8 ∧ off % entrySize = entryPa then some (entryAt t off).pa
  else if bytes = 1 ∧ off % entrySize = entryPerms then some ((entryAt t off).perms.setWidth 64)
  else none

/-- A load. -/
def load (m : HostMem D) (addr bytes : ℕ) : Option (BitVec 64) :=
  let L := m.layout
  if within L.regsBase L.cpuSize addr bytes then loadCpu L m.cpu (addr - L.regsBase.toNat) bytes
  else if within L.ramBase m.bus.ram.size.toNat addr bytes then
    some (Bytes.loadLe 64 m.bus.ram.bytes (addr - L.ramBase.toNat) bytes)
  else if within L.tlbBase (entrySize * tlbEntries) addr bytes then
    loadTlb m.cpu.tlb (addr - L.tlbBase.toNat) bytes
  else none

/-- The host memory with other RAM bytes. -/
def setRam (m : HostMem D) (bytes : ℕ → BitVec 8) : HostMem D :=
  { m with bus := { m.bus with ram := { m.bus.ram with bytes := bytes } } }

/-- A store; blocks never write the TLB. -/
def store (m : HostMem D) (addr bytes : ℕ) (val : BitVec 64) : Option (HostMem D) :=
  let L := m.layout
  if within L.regsBase L.cpuSize addr bytes then
    (storeCpu m.cpu (addr - L.regsBase.toNat) bytes val).map fun cpu => { m with cpu := cpu }
  else if within L.ramBase m.bus.ram.size.toNat addr bytes then
    some (m.setRam (Bytes.storeLe m.bus.ram.bytes (addr - L.ramBase.toNat) bytes val))
  else none

instance : LinearMemory (HostMem D) where
  load := load
  store := store

/-- The layout of a host memory fits. -/
def Wf (m : HostMem D) : Prop := m.layout.Wf m.bus.ram.size.toNat

/-! ## The accesses that blocks make -/

variable {m : HostMem D}

theorem within_regs {off bytes : ℕ} (hoff : off + bytes ≤ m.layout.cpuSize) :
    within m.layout.regsBase m.layout.cpuSize (m.layout.regsBase.toNat + off) bytes = true := by
  simp only [within, Bool.and_eq_true, decide_eq_true_eq]
  omega

theorem load_field (h : m.Wf) (f : Field) :
    LinearMemory.load m (m.layout.regsBase.toNat + f.offset) 8 = some (f.get m.cpu) := by
  have hoff : f.offset + 8 ≤ m.layout.cpuSize := Nat.le_trans f.offset_lt h.cpuSize
  change load m _ _ = _
  rw [load, if_pos (within_regs hoff), Nat.add_sub_cancel_left, loadCpu, if_pos rfl,
    Field.ofOffset_offset]
  rfl

theorem store_field (h : m.Wf) (f : Field) (val : BitVec 64) :
    LinearMemory.store m (m.layout.regsBase.toNat + f.offset) 8 val =
      some { m with cpu := f.set m.cpu val } := by
  have hoff : f.offset + 8 ≤ m.layout.cpuSize := Nat.le_trans f.offset_lt h.cpuSize
  change store m _ _ _ = _
  rw [store, if_pos (within_regs hoff), Nat.add_sub_cancel_left, storeCpu, if_pos rfl,
    Field.ofOffset_offset]
  rfl

theorem laneSlot_vOff (i : Fin 32) {b bytes : ℕ} (hbytes : bytes < 8) (hpos : 0 < bytes)
    (hb : b + bytes ≤ 16) : laneSlot (vOff i + b) bytes = some (i, b) := by
  have hi := i.isLt
  unfold laneSlot vOff
  rw [dif_pos (by omega)]
  have hreg : (272 + i.val * 16 + b - 272) / 16 = i.val := by omega
  have hbyte : (272 + i.val * 16 + b) % 16 = b := by omega
  simp only [hreg, hbyte]

theorem load_lane (h : m.Wf) (i : Fin 32) {b bytes : ℕ} (hbytes : bytes < 8) (hpos : 0 < bytes)
    (hb : b + bytes ≤ 16) :
    LinearMemory.load m (m.layout.regsBase.toNat + (vOff i + b)) bytes =
      some (laneBytes (m.cpu.v i) b bytes) := by
  have hi := i.isLt
  have hoff : vOff i + b + bytes ≤ 784 := by
    unfold vOff
    omega
  have htlb : ¬ (bytes = 4 ∧ vOff i + b = m.layout.tlbOffset) := by
    have := h.tlb.1
    omega
  have hexcl : ¬ (bytes = 1 ∧ vOff i + b = exclValidOff) := by
    unfold exclValidOff
    omega
  have hel : ¬ (bytes = 1 ∧ vOff i + b = m.layout.elOffset) := by
    have := h.el.1
    omega
  have hsize : vOff i + b + bytes ≤ m.layout.cpuSize := by
    have := h.cpuSize
    omega
  change load m _ _ = _
  rw [load, if_pos (within_regs hsize), Nat.add_sub_cancel_left, loadCpu,
    if_neg (by omega), if_neg htlb, if_neg hexcl, if_neg hel, laneSlot_vOff i hbytes hpos hb]
  rfl

theorem store_lane (h : m.Wf) (i : Fin 32) {b bytes : ℕ} (hbytes : bytes < 8) (hpos : 0 < bytes)
    (hb : b + bytes ≤ 16) (val : BitVec 64) :
    LinearMemory.store m (m.layout.regsBase.toNat + (vOff i + b)) bytes val =
      some { m with cpu := { m.cpu with
        v := Function.update m.cpu.v i (withLaneBytes (m.cpu.v i) b bytes val) } } := by
  have hi := i.isLt
  have hoff : vOff i + b + bytes ≤ 784 := by
    unfold vOff
    omega
  have hexcl : ¬ (bytes = 1 ∧ vOff i + b = exclValidOff) := by
    unfold exclValidOff
    omega
  have hsize : vOff i + b + bytes ≤ m.layout.cpuSize := by
    have := h.cpuSize
    omega
  change store m _ _ _ = _
  rw [store, if_pos (within_regs hsize), Nat.add_sub_cancel_left, storeCpu, if_neg (by omega),
    if_neg hexcl, laneSlot_vOff i hbytes hpos hb]
  rfl

theorem load_el (h : m.Wf) :
    LinearMemory.load m (m.layout.regsBase.toNat + m.layout.elOffset) 1 =
      some (BitVec.ofNat 64 m.cpu.el.val) := by
  have hoff : m.layout.elOffset + 1 ≤ m.layout.cpuSize := h.el.2
  have hexcl : m.layout.elOffset ≠ exclValidOff := by
    have := h.el.1
    unfold exclValidOff
    omega
  change load m _ _ = _
  rw [load, if_pos (within_regs hoff), Nat.add_sub_cancel_left, loadCpu, if_neg (by decide),
    if_neg (by omega), if_neg (by omega), if_pos ⟨rfl, rfl⟩]

theorem load_exclValid (h : m.Wf) :
    LinearMemory.load m (m.layout.regsBase.toNat + exclValidOff) 1 =
      some (m.cpu.exclValid.setWidth 64) := by
  have hoff : exclValidOff + 1 ≤ m.layout.cpuSize := Nat.le_trans (by decide) h.cpuSize
  change load m _ _ = _
  rw [load, if_pos (within_regs hoff), Nat.add_sub_cancel_left, loadCpu, if_neg (by decide),
    if_neg (by omega), if_pos ⟨rfl, rfl⟩]

theorem store_exclValid (h : m.Wf) (val : BitVec 64) :
    LinearMemory.store m (m.layout.regsBase.toNat + exclValidOff) 1 val =
      some { m with cpu := { m.cpu with exclValid := val.setWidth 8 } } := by
  have hoff : exclValidOff + 1 ≤ m.layout.cpuSize := Nat.le_trans (by decide) h.cpuSize
  change store m _ _ _ = _
  rw [store, if_pos (within_regs hoff), Nat.add_sub_cancel_left, storeCpu, if_neg (by decide),
    if_pos ⟨rfl, rfl⟩]
  rfl

theorem load_tlbBase (h : m.Wf) :
    LinearMemory.load m (m.layout.regsBase.toNat + m.layout.tlbOffset) 4 =
      some (m.layout.tlbBase.setWidth 64) := by
  change load m _ _ = _
  rw [load, if_pos (within_regs h.tlb.2), Nat.add_sub_cancel_left, loadCpu, if_neg (by decide),
    if_pos ⟨rfl, rfl⟩]

theorem not_within {base : BitVec 32} {size addr bytes : ℕ} (hbytes : 0 < bytes)
    (h : addr + bytes ≤ base.toNat ∨ base.toNat + size ≤ addr) :
    ¬ within base size addr bytes = true := by
  simp only [within, Bool.and_eq_true, decide_eq_true_eq]
  omega

theorem load_ram (h : m.Wf) {off bytes : ℕ} (hbytes : 0 < bytes)
    (hoff : off + bytes ≤ m.bus.ram.size.toNat) :
    LinearMemory.load m (m.layout.ramBase.toNat + off) bytes =
      some (Bytes.loadLe 64 m.bus.ram.bytes off bytes) := by
  have hregs := h.regs_ram
  have hin : within m.layout.ramBase m.bus.ram.size.toNat (m.layout.ramBase.toNat + off) bytes =
      true := by
    simp only [within, Bool.and_eq_true, decide_eq_true_eq]
    omega
  change load m _ _ = _
  rw [load, if_neg (not_within hbytes (by omega)), if_pos hin, Nat.add_sub_cancel_left]

theorem store_ram (h : m.Wf) {off bytes : ℕ} (hbytes : 0 < bytes)
    (hoff : off + bytes ≤ m.bus.ram.size.toNat) (val : BitVec 64) :
    LinearMemory.store m (m.layout.ramBase.toNat + off) bytes val =
      some (m.setRam (Bytes.storeLe m.bus.ram.bytes off bytes val)) := by
  have hregs := h.regs_ram
  have hin : within m.layout.ramBase m.bus.ram.size.toNat (m.layout.ramBase.toNat + off) bytes =
      true := by
    simp only [within, Bool.and_eq_true, decide_eq_true_eq]
    omega
  change store m _ _ _ = _
  rw [store, if_neg (not_within hbytes (by omega)), if_pos hin, Nat.add_sub_cancel_left]

/-- A load of field `field` of TLB entry `i`. -/
theorem load_tlb (h : m.Wf) {i field bytes : ℕ} (hi : i < tlbEntries) (hbytes : 0 < bytes)
    (hfield : field + bytes ≤ entrySize) :
    LinearMemory.load m (m.layout.tlbBase.toNat + i * entrySize + field) bytes =
      loadTlb m.cpu.tlb (i * entrySize + field) bytes := by
  have hregs := h.regs_tlb
  have hram := h.ram_tlb
  have hoff : i * entrySize + field + bytes ≤ entrySize * tlbEntries := by
    unfold entrySize tlbEntries at *
    omega
  have hin : within m.layout.tlbBase (entrySize * tlbEntries)
      (m.layout.tlbBase.toNat + i * entrySize + field) bytes = true := by
    simp only [within, Bool.and_eq_true, decide_eq_true_eq]
    omega
  have hsub : m.layout.tlbBase.toNat + i * entrySize + field - m.layout.tlbBase.toNat =
      i * entrySize + field := by omega
  change load m _ _ = _
  rw [load, if_neg (not_within hbytes (by omega)), if_neg (not_within hbytes (by omega)),
    if_pos hin, hsub]

theorem entryAt_mul_add (t : Tlb) {i field : ℕ} (hi : i < tlbEntries) (hfield : field < entrySize) :
    entryAt t (i * entrySize + field) = t.entries ⟨i, hi⟩ := by
  have hdiv : (i * entrySize + field) / entrySize = i := by
    unfold entrySize at *
    omega
  unfold entryAt
  rw [hdiv]
  congr 1
  exact Fin.ext (Nat.mod_eq_of_lt hi)

end HostMem

end V64.Jit
