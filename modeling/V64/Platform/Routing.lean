import V64.Lib.Loops
import V64.Lib.Windows
import V64.Platform.Board
import V64.Platform.Ram
import V64.Platform.Virtio.Rng

/-!
# Routing of the bus

Model of `Bus::map` of `crates/platform/src/bus.rs`, and of its routing in a build that may
check for overflow: a panic is `none`, and `tryLoad` and `tryStore` are `load` and `store`
with their panics.

* `Routed`: the windows are sorted, apart from each other and from RAM, and end 8 bytes below
  the top of the address space.
* `Routed.map`, `Routed.step`: what the operations of a bus keep.
* `Routed.tryLoad_eq`, `Routed.tryStore_eq`: no access panics.
* `bus_routing`: where every access of every run goes.
-/

namespace V64.Platform

open Checked V64.Interp

namespace Bus

variable {D : Type} (t : Target)

/-! ## Mapping -/

/-- A window that does not come closer than 8 bytes to the top of the address space. -/
def EndsLow (base size : BitVec 64) : Prop := base.toNat + size.toNat + 8 ≤ 2 ^ 64

/-- `Bus::new` (lines 63–65). -/
def new (ram : Memory) : Bus D := ⟨ram, []⟩

/-- The assertion of `map` against one device (lines 80–85). -/
def assertApart (base stop : BitVec 64) (d : DeviceEntry D) : Option Unit :=
  if stop ≤ d.base then some ()
  else do
    let dEnd ← t.add d.base d.size
    guard (dEnd ≤ base)

/-- The insertion of `map` (lines 87–88). -/
def insertDevice (b : Bus D) (d : DeviceEntry D) : Bus D :=
  let idx := Windows.partitionPoint (fun e => e.base < d.base) b.devices
  { b with devices := b.devices.insertIdx idx d }

/-- `Bus::map` (lines 67–89). A failed assertion panics. -/
def map (b : Bus D) (base size : BitVec 64) (dev : D) : Option (Bus D) := do
  let stop ← t.add base size
  let ramEnd ← t.add b.ram.base b.ram.size
  guard (stop ≤ b.ram.base ∨ ramEnd ≤ base)
  b.devices.forM (assertApart t base stop)
  return b.insertDevice ⟨base, size, dev⟩

/-! ## Accesses -/

/-- The scan of `route` over the devices from number `i` on. -/
def scan (addr : BitVec 64) : List (DeviceEntry D) → ℕ → Option Route
  | [], _ => some .unmapped
  | d :: ds, i =>
    if d.base ≤ addr then do
      let dEnd ← t.add d.base d.size
      if addr < dEnd then return .device i
      scan addr ds (i + 1)
    else scan addr ds (i + 1)

/-- `route` (lines 107–119). -/
def tryRoute (b : Bus D) (addr : BitVec 64) : Option Route := do
  let ramEnd ← t.add b.ram.base b.ram.size
  if b.ram.base ≤ addr ∧ addr < ramEnd then return .ram
  scan t addr b.devices 0

/-- `ram_fits` (lines 124–127). -/
def tryRamFits (b : Bus D) (addr : BitVec 64) (size : ℕ) : Option Bool := do
  let ramEnd ← t.add b.ram.base b.ram.size
  return addr.toNat + size < 2 ^ 64 && addr + BitVec.ofNat 64 size ≤ ramEnd

/-- The guard and the offset of an access to device `i`: `none` inside where the access does not
    fit its window. -/
def tryDevice (b : Bus D) (i : ℕ) (addr : BitVec 64) (size : ℕ) :
    Option (Option (DeviceEntry D × BitVec 64)) := do
  let d ← b.devices[i]?
  let stop ← t.add addr (BitVec.ofNat 64 size)
  let dEnd ← t.add d.base d.size
  if stop ≤ dEnd then
    let off ← t.sub addr d.base
    return some (d, off)
  return none

/-- The offset of an access to the image, and its bounds checks. -/
def tryImage (b : Bus D) (addr : BitVec 64) (size : ℕ) : Option Unit := do
  let _ ← t.sub addr b.ram.base
  guard (InSlice t b.ram addr size)

section Devices

variable [MmioDevice D]

/-- `load` (lines 129–148). -/
def tryLoad (b : Bus D) (addr : BitVec 64) (size : ℕ) : Option (BitVec 64 × Bus D) := do
  match ← b.tryRoute t addr with
  | .ram =>
    if ← b.tryRamFits t addr size then
      b.tryImage t addr size
      return (b.ram.read 64 addr size, b)
    return (0, b)
  | .device i =>
    match ← b.tryDevice t i addr size with
    | some (d, off) =>
      let (val, dev) := MmioDevice.read d.dev off size
      return (val, b.setDev i d dev)
    | none => return (0, b)
  | .unmapped => return (0, b)

/-- `store` (lines 150–166). -/
def tryStore (b : Bus D) (addr : BitVec 64) (size : ℕ) (val : BitVec 64) : Option (Bus D) := do
  match ← b.tryRoute t addr with
  | .ram =>
    if ← b.tryRamFits t addr size then
      b.tryImage t addr size
      return { b with ram := b.ram.write addr size val }
    return b
  | .device i =>
    match ← b.tryDevice t i addr size with
    | some (d, off) => return b.setDev i d (MmioDevice.write d.dev off size val)
    | none => return b
  | .unmapped => return b

/-- What is done to a bus. -/
inductive BusOp (D : Type) where
  | map (base size : BitVec 64) (dev : D)
  | load (addr : BitVec 64) (size : ℕ)
  | store (addr : BitVec 64) (size : ℕ) (val : BitVec 64)

/-- A window that ends low enough, or an access of a width that `GuestMem` has. -/
def BusOp.Ok : BusOp D → Prop
  | .map base size _ => EndsLow base size
  | .load _ size | .store _ size _ => size ∈ [1, 2, 4, 8]

/-- One operation. -/
def step (b : Bus D) : BusOp D → Option (Bus D)
  | .map base size dev => b.map t base size dev
  | .load addr size => do
    let (_, b) ← b.tryLoad t addr size
    return b
  | .store addr size val => b.tryStore t addr size val

end Devices

/-! ## The windows -/

/-- The base of a device's window. -/
def start (d : DeviceEntry D) : ℕ := d.base.toNat

/-- The size of a device's window. -/
def length (d : DeviceEntry D) : ℕ := d.size.toNat

/-- The access lies in the window of `d`. -/
abbrev InDevice (d : DeviceEntry D) (addr : BitVec 64) (size : ℕ) : Prop :=
  Windows.Holds start length d addr.toNat size

/-- The window of `d` and RAM have no address in common. -/
def ApartFromRam (b : Bus D) (d : DeviceEntry D) : Prop :=
  start d + length d ≤ b.ram.base.toNat ∨ b.ram.base.toNat + b.ram.size.toNat ≤ start d

/-- The windows that `map` accepts: sorted, apart from each other and from RAM. -/
structure Routed (b : Bus D) : Prop where
  ram : EndsLow b.ram.base b.ram.size
  ends : ∀ d ∈ b.devices, EndsLow d.base d.size
  table : Windows.Table start length b.devices
  apart : ∀ d ∈ b.devices, b.ApartFromRam d

variable {t} {b : Bus D}

theorem Routed.ramWf (h : b.Routed) : b.RamWf := by
  have := h.ram
  unfold EndsLow at this
  unfold RamWf
  omega

/-- The end of a window, where the source computes it. -/
theorem add_of_endsLow {base size : BitVec 64} (h : EndsLow base size) :
    t.add base size = some (base + size) ∧ (base + size).toNat = base.toNat + size.toNat := by
  have hlt : base.toNat + size.toNat < 2 ^ 64 := by
    unfold EndsLow at h
    omega
  exact ⟨Target.add_of_lt hlt, by rw [BitVec.toNat_add, Nat.mod_eq_of_lt hlt]⟩

/-- A bus without devices. -/
theorem Routed.new {ram : Memory} (h : EndsLow ram.base ram.size) :
    Routed (new ram : Bus D) :=
  ⟨h, nofun, .nil, nofun⟩

/-- The assertion against one device. -/
theorem assertApart_eq_some {base size : BitVec 64} {d : DeviceEntry D} (hd : EndsLow d.base d.size)
    (hnew : EndsLow base size) (dev : D) :
    assertApart t base (base + size) d = some () ↔
      Windows.Apart start length (⟨base, size, dev⟩ : DeviceEntry D) d := by
  obtain ⟨hadd, hend⟩ := add_of_endsLow (t := t) hd
  have hstop := (add_of_endsLow (t := t) hnew).2
  unfold assertApart Windows.Apart start length
  dsimp only
  by_cases hlow : base + size ≤ d.base
  · rw [if_pos hlow]
    rw [BitVec.le_def, hstop] at hlow
    exact iff_of_true rfl (.inl hlow)
  · rw [if_neg hlow, hadd]
    rw [BitVec.le_def, hstop] at hlow
    show guard (d.base + d.size ≤ base) = some () ↔ _
    rw [Option.guard_eq_some', BitVec.le_def, hend]
    exact ⟨.inr, fun h => h.resolve_left hlow⟩
/-- **What `map` accepts** are the windows apart from RAM and from those mapped before. -/
theorem Routed.map_eq_some_iff (h : b.Routed) {base size : BitVec 64} (hnew : EndsLow base size)
    {dev : D} {b' : Bus D} :
    b.map t base size dev = some b' ↔
      b.ApartFromRam ⟨base, size, dev⟩ ∧
      (∀ d ∈ b.devices, Windows.Apart start length (⟨base, size, dev⟩ : DeviceEntry D) d) ∧
      b' = b.insertDevice ⟨base, size, dev⟩ := by
  obtain ⟨hadd, hstop⟩ := add_of_endsLow (t := t) hnew
  obtain ⟨hram, hend⟩ := add_of_endsLow (t := t) h.ram
  have hforM : b.devices.forM (assertApart t base (base + size)) = some () ↔
      ∀ d ∈ b.devices, Windows.Apart start length (⟨base, size, dev⟩ : DeviceEntry D) d := by
    rw [Loops.forM_eq_some_iff]
    exact forall₂_congr fun d hd => assertApart_eq_some (h.ends d hd) hnew dev
  have hguard : base + size ≤ b.ram.base ∨ b.ram.base + b.ram.size ≤ base ↔
      b.ApartFromRam ⟨base, size, dev⟩ := by
    unfold ApartFromRam start length
    rw [BitVec.le_def, BitVec.le_def, hstop, hend]
  unfold map
  rw [hadd, hram, ← hguard, ← hforM]
  simp only [Option.bind_eq_bind, Option.bind_some, Option.bind_eq_some_iff,
    Option.guard_eq_some', Option.pure_def, Option.some.injEq]
  constructor
  · rintro ⟨_, hapart, ⟨⟩, hdev, rfl⟩
    exact ⟨hapart, hdev, rfl⟩
  · rintro ⟨hapart, hdev, rfl⟩
    exact ⟨(), hapart, (), hdev, rfl⟩

/-- Mapping keeps the windows routed. -/
theorem Routed.map (h : b.Routed) {base size : BitVec 64} (hnew : EndsLow base size) {dev : D}
    {b' : Bus D} (hmap : b.map t base size dev = some b') : b'.Routed := by
  obtain ⟨hram, hdev, rfl⟩ := (h.map_eq_some_iff hnew).mp hmap
  have hmem {d : DeviceEntry D} : d ∈ (b.insertDevice ⟨base, size, dev⟩).devices ↔
      d = ⟨base, size, dev⟩ ∨ d ∈ b.devices := Windows.Table.mem_insert _
  refine ⟨h.ram, fun d hd => ?_, h.table.insert hdev, fun d hd => ?_⟩
  · rcases hmem.mp hd with rfl | hd
    · exact hnew
    · exact h.ends d hd
  · rcases hmem.mp hd with rfl | hd
    · exact hram
    · exact h.apart d hd

/-! ## Where an access goes -/

/-- The condition of the scan. -/
theorem Routed.inWindow_iff (h : b.Routed) {d : DeviceEntry D} (hd : d ∈ b.devices)
    (addr : BitVec 64) : inWindow d addr = true ↔ InDevice d addr 1 := by
  have hend := (add_of_endsLow (t := Target.release64) (h.ends d hd)).2
  unfold inWindow InDevice Windows.Holds start length
  rw [Bool.and_eq_true, decide_eq_true_eq, decide_eq_true_eq, BitVec.le_def, BitVec.lt_def, hend]
  exact Iff.rfl

/-- The scan finds the device that `route` finds. -/
theorem scan_eq {addr : BitVec 64} {ds : List (DeviceEntry D)}
    (hds : ∀ d ∈ ds, EndsLow d.base d.size) (i : ℕ) :
    scan t addr ds i = some (match ds.findIdx? (inWindow · addr) with
      | some k => .device (k + i)
      | none => .unmapped) := by
  induction ds generalizing i with
  | nil => rfl
  | cons d ds ih =>
    have hrest := ih (fun d hd => hds d (List.mem_cons_of_mem _ hd)) (i + 1)
    have hskip (hd : inWindow d addr = false) :
        (match (d :: ds).findIdx? (inWindow · addr) with
          | some k => Route.device (k + i)
          | none => .unmapped) =
        match ds.findIdx? (inWindow · addr) with
          | some k => .device (k + (i + 1))
          | none => .unmapped := by
      rw [List.findIdx?_cons, hd, if_neg Bool.false_ne_true]
      cases ds.findIdx? (inWindow · addr) with
      | none => rfl
      | some k =>
        show Route.device (k + 1 + i) = Route.device (k + (i + 1))
        rw [Nat.add_assoc, Nat.add_comm 1 i]
    have hadd := (add_of_endsLow (t := t) (hds d List.mem_cons_self)).1
    rw [scan]
    by_cases hlow : d.base ≤ addr
    · rw [if_pos hlow, hadd]
      show (if addr < d.base + d.size then some (Route.device i) else scan t addr ds (i + 1)) = _
      by_cases hhigh : addr < d.base + d.size
      · have hd : inWindow d addr = true := by
          unfold inWindow
          rw [decide_eq_true hlow, decide_eq_true hhigh]
          rfl
        rw [if_pos hhigh, List.findIdx?_cons, hd, if_pos rfl]
        show _ = some (Route.device (0 + i))
        rw [Nat.zero_add]
      · have hd : inWindow d addr = false := by
          unfold inWindow
          rw [decide_eq_false hhigh, Bool.and_false]
        rw [if_neg hhigh, hskip hd, hrest]
    · have hd : inWindow d addr = false := by
        unfold inWindow
        rw [decide_eq_false hlow, Bool.false_and]
      rw [if_neg hlow, hskip hd, hrest]

theorem Routed.tryRoute_eq (h : b.Routed) (addr : BitVec 64) :
    b.tryRoute t addr = some (b.route addr) := by
  have hadd := (add_of_endsLow (t := t) h.ram).1
  unfold tryRoute route ramEnd
  rw [hadd]
  show (if b.ram.base ≤ addr ∧ addr < b.ram.base + b.ram.size then some Route.ram
    else scan t addr b.devices 0) = _
  by_cases hram : b.ram.base ≤ addr ∧ addr < b.ram.base + b.ram.size
  · rw [if_pos hram, if_pos hram]
  · rw [if_neg hram, if_neg hram, scan_eq h.ends]
    cases b.devices.findIdx? (inWindow · addr) with
    | none => rfl
    | some k => rfl

/-- Where `route` finds a device, the address lies in its window. -/
theorem Routed.inDevice_of_route (h : b.Routed) {addr : BitVec 64} {i : ℕ}
    (hroute : b.route addr = .device i) :
    ∃ d, b.devices[i]? = some d ∧ d ∈ b.devices ∧ InDevice d addr 1 := by
  unfold route at hroute
  split_ifs at hroute
  split at hroute
  · next k hk =>
    obtain rfl : k = i := Route.device.inj hroute
    obtain ⟨hlt, hin, -⟩ := List.findIdx?_eq_some_iff_getElem.mp hk
    have hmem := List.getElem_mem hlt
    exact ⟨_, List.getElem?_eq_getElem hlt, hmem, (h.inWindow_iff hmem addr).mp hin⟩
  · cases hroute

/-- An access in the window of a device is routed to it. -/
theorem Routed.route_of_inDevice (h : b.Routed) {addr : BitVec 64} {size i : ℕ} (hsize : 0 < size)
    {d : DeviceEntry D} (hd : b.devices[i]? = some d) (hin : InDevice d addr size) :
    b.route addr = .device i := by
  have hmem := List.mem_of_getElem? hd
  have hfirst : InDevice d addr 1 := ⟨hin.1, by have := hin.2; omega⟩
  have hram : ¬ (b.ram.base ≤ addr ∧ addr < b.ramEnd) := by
    rintro ⟨hlow, hhigh⟩
    rw [BitVec.le_def] at hlow
    rw [BitVec.lt_def, toNat_ramEnd h.ramWf] at hhigh
    have hapart := h.apart d hmem
    have hlast := hfirst.2
    have hstart := hfirst.1
    unfold ApartFromRam at hapart
    omega
  unfold route
  rw [if_neg hram, h.table.findIdx?_eq (fun e he => h.inWindow_iff he addr) hd hfirst]

/-- An access in a window is not in RAM. -/
theorem Routed.not_inRam (h : b.Routed) {addr : BitVec 64} {size : ℕ} (hsize : 0 < size)
    {d : DeviceEntry D} (hd : d ∈ b.devices) (hin : InDevice d addr size) :
    ¬ b.InRam addr size := by
  intro hram
  have hapart := h.apart d hd
  have hlow := hin.1
  have hhigh := hin.2
  unfold InRam at hram
  unfold ApartFromRam at hapart
  omega

/-- `ram_fits` where the address is in RAM. -/
theorem Routed.tryRamFits_eq (h : b.Routed) (addr : BitVec 64) (size : ℕ) :
    b.tryRamFits t addr size = some (b.ramFits addr size) := by
  unfold tryRamFits
  rw [(add_of_endsLow (t := t) h.ram).1]
  rfl

/-- The accesses of the image stay inside it: a `Vec` has at most `isize::MAX` bytes. -/
theorem tryImage_eq (hvec : b.ram.size.toNat < 2 ^ (t.usizeBits - 1)) {addr : BitVec 64}
    {size : ℕ} (hin : b.InRam addr size) : b.tryImage t addr size = some () := by
  have hlow := hin.1
  have hhigh := hin.2
  have hhalf : 2 ^ (t.usizeBits - 1) ≤ 2 ^ t.usizeBits :=
    Nat.pow_le_pow_right Nat.two_pos (Nat.sub_le _ _)
  have hoff : ((addr - b.ram.base).setWidth t.usizeBits).toNat =
      addr.toNat - b.ram.base.toNat := by
    have hsub : (addr - b.ram.base).toNat = addr.toNat - b.ram.base.toNat :=
      BitVec.toNat_sub_of_le (BitVec.le_def.mpr hlow)
    rw [BitVec.toNat_setWidth, hsub]
    exact Nat.mod_eq_of_lt (by omega)
  have hslice : InSlice t b.ram addr size := by
    have hstop : ((addr - b.ram.base).setWidth t.usizeBits +
        BitVec.ofNat t.usizeBits size).toNat = addr.toNat - b.ram.base.toNat + size := by
      rw [BitVec.toNat_add, BitVec.toNat_ofNat, hoff, Nat.add_mod_mod]
      exact Nat.mod_eq_of_lt (by omega)
    unfold InSlice
    dsimp only
    rw [hstop, hoff]
    omega
  unfold tryImage
  rw [Target.sub_of_le hlow]
  exact (Option.guard_eq_some' ()).mpr hslice

/-- The guard of an access to a device, and its offset. -/
theorem Routed.tryDevice_eq (h : b.Routed) {addr : BitVec 64} {size i : ℕ} (hsize : size ≤ 8)
    (hroute : b.route addr = .device i) :
    b.tryDevice t i addr size =
      some ((b.device? i addr size).map fun d => (d, addr - d.base)) := by
  obtain ⟨d, hd, hmem, hin⟩ := h.inDevice_of_route hroute
  have hends := h.ends d hmem
  have hlow : d.base.toNat ≤ addr.toNat := hin.1
  have hhigh : addr.toNat + 1 ≤ d.base.toNat + d.size.toNat := hin.2
  have hstop : t.add addr (BitVec.ofNat 64 size) = some (addr + BitVec.ofNat 64 size) := by
    refine Target.add_of_lt ?_
    unfold EndsLow at hends
    rw [BitVec.toNat_ofNat]
    omega
  unfold tryDevice device?
  rw [hd]
  show (t.add addr (BitVec.ofNat 64 size) >>= fun stop => t.add d.base d.size >>= fun dEnd =>
    if stop ≤ dEnd then t.sub addr d.base >>= fun off => some (some (d, off)) else some none) = _
  rw [hstop, (add_of_endsLow (t := t) hends).1, Target.sub_of_le hlow]
  show (if addr + BitVec.ofNat 64 size ≤ d.base + d.size then some (some (d, addr - d.base))
    else some none) = _
  by_cases hfits : addr + BitVec.ofNat 64 size ≤ d.base + d.size
  · rw [if_pos hfits, Option.filter_some, decide_eq_true hfits, if_pos rfl]
    rfl
  · rw [if_neg hfits, Option.filter_some, decide_eq_false hfits, if_neg Bool.false_ne_true]
    rfl

/-- The device that holds an access. -/
theorem Routed.device?_eq (h : b.Routed) {addr : BitVec 64} {size i : ℕ} {d : DeviceEntry D}
    (hsize : size ≤ 8) (hd : b.devices[i]? = some d) (hfirst : InDevice d addr 1) :
    (InDevice d addr size → b.device? i addr size = some d) ∧
      (¬ InDevice d addr size → b.device? i addr size = none) := by
  have hends := h.ends d (List.mem_of_getElem? hd)
  have hend := (add_of_endsLow (t := Target.release64) hends).2
  have hlow : d.base.toNat ≤ addr.toNat := hfirst.1
  have hhigh : addr.toNat + 1 ≤ d.base.toNat + d.size.toNat := hfirst.2
  have hiff : addr + BitVec.ofNat 64 size ≤ d.base + d.size ↔ InDevice d addr size := by
    have hstop : (addr + BitVec.ofNat 64 size).toNat = addr.toNat + size := by
      unfold EndsLow at hends
      rw [BitVec.toNat_add, BitVec.toNat_ofNat]
      omega
    rw [BitVec.le_def, hstop, hend]
    exact ⟨fun hle => ⟨hlow, hle⟩, fun hin => hin.2⟩
  unfold device?
  rw [hd, Option.filter_some]
  constructor
  · intro hin
    rw [decide_eq_true (hiff.mpr hin), if_pos rfl]
  · intro hin
    rw [decide_eq_false (mt hiff.mp hin), if_neg Bool.false_ne_true]

/-- The windows of the devices. -/
def windows (b : Bus D) : List (BitVec 64 × BitVec 64) := b.devices.map fun d => (d.base, d.size)

/-- Routing depends on the windows only. -/
theorem Routed.congr (h : b.Routed) {b' : Bus D} (hwin : b'.windows = b.windows)
    (hram : b.SameWindow b') : b'.Routed := by
  have hall {P : BitVec 64 × BitVec 64 → Prop} (hb : ∀ d ∈ b.devices, P (d.base, d.size)) :
      ∀ d ∈ b'.devices, P (d.base, d.size) := by
    intro d hd
    have hmem : (d.base, d.size) ∈ b'.windows := List.mem_map_of_mem hd
    rw [hwin] at hmem
    obtain ⟨e, he, heq⟩ := List.mem_map.mp hmem
    rw [← heq]
    exact hb e he
  have hpair {R : BitVec 64 × BitVec 64 → BitVec 64 × BitVec 64 → Prop}
      (hb : b.devices.Pairwise fun d e => R (d.base, d.size) (e.base, e.size)) :
      b'.devices.Pairwise fun d e => R (d.base, d.size) (e.base, e.size) := by
    rw [← List.pairwise_map (f := fun d : DeviceEntry D => (d.base, d.size)) (R := R)] at hb ⊢
    show b'.windows.Pairwise R
    rw [hwin]
    exact hb
  refine ⟨?_, hall (P := fun p => EndsLow p.1 p.2) h.ends, ⟨?_, ?_⟩, ?_⟩
  · rw [hram.base, hram.size]
    exact h.ram
  · exact hpair (R := fun p q => p.1.toNat ≤ q.1.toNat) h.table.sorted
  · exact hpair (R := fun p q => p.1.toNat + p.2.toNat ≤ q.1.toNat ∨
      q.1.toNat + q.2.toNat ≤ p.1.toNat) h.table.apart
  · unfold ApartFromRam
    rw [hram.base, hram.size]
    exact hall (P := fun p => p.1.toNat + p.2.toNat ≤ b.ram.base.toNat ∨
      b.ram.base.toNat + b.ram.size.toNat ≤ p.1.toNat) h.apart

/-- Replacing the state of a device keeps the windows. -/
theorem windows_setDev {i : ℕ} {d : DeviceEntry D} {addr : BitVec 64} {size : ℕ}
    (hd : b.device? i addr size = some d) (dev : D) : (b.setDev i d dev).windows = b.windows := by
  have hget : b.devices[i]? = some d := (Option.filter_eq_some_iff.mp hd).1
  have hmap : b.windows[i]? = some (d.base, d.size) := by
    unfold windows
    rw [List.getElem?_map, hget]
    rfl
  obtain ⟨hlt, hval⟩ := List.getElem?_eq_some_iff.mp hmap
  unfold setDev windows at *
  rw [List.map_set]
  show (b.devices.map fun d => (d.base, d.size)).set i (d.base, d.size) = _
  rw [← hval, List.set_getElem_self]

variable [MmioDevice D]

/-- **No access panics.** -/
theorem Routed.tryLoad_eq (h : b.Routed) (hvec : b.ram.size.toNat < 2 ^ (t.usizeBits - 1))
    (addr : BitVec 64) {size : ℕ} (hsize : size ≤ 8) :
    b.tryLoad t addr size = some (b.load addr size) := by
  unfold tryLoad load
  rw [h.tryRoute_eq]
  cases hroute : b.route addr with
  | ram =>
    show (b.tryRamFits t addr size >>= _) = _
    rw [h.tryRamFits_eq]
    cases hfits : b.ramFits addr size with
    | true =>
      show (b.tryImage t addr size >>= _) = _
      rw [tryImage_eq hvec (inRam_of_route h.ramWf hroute hfits)]
      rfl
    | false => rfl
  | device i =>
    show (b.tryDevice t i addr size >>= _) = _
    rw [h.tryDevice_eq hsize hroute]
    dsimp only
    cases b.device? i addr size with
    | none => rfl
    | some d => rfl
  | unmapped => rfl

theorem Routed.tryStore_eq (h : b.Routed) (hvec : b.ram.size.toNat < 2 ^ (t.usizeBits - 1))
    (addr : BitVec 64) {size : ℕ} (hsize : size ≤ 8) (val : BitVec 64) :
    b.tryStore t addr size val = some (b.store addr size val) := by
  unfold tryStore store
  rw [h.tryRoute_eq]
  cases hroute : b.route addr with
  | ram =>
    show (b.tryRamFits t addr size >>= _) = _
    rw [h.tryRamFits_eq]
    cases hfits : b.ramFits addr size with
    | true =>
      show (b.tryImage t addr size >>= _) = _
      rw [tryImage_eq hvec (inRam_of_route h.ramWf hroute hfits)]
      rfl
    | false => rfl
  | device i =>
    show (b.tryDevice t i addr size >>= _) = _
    rw [h.tryDevice_eq hsize hroute]
    dsimp only
    cases b.device? i addr size with
    | none => rfl
    | some d => rfl
  | unmapped => rfl

/-! ## Runs -/

theorem windows_load (b : Bus D) (addr : BitVec 64) (size : ℕ) :
    (b.load addr size).2.windows = b.windows := by
  unfold load
  cases b.route addr with
  | ram => dsimp only; split_ifs <;> rfl
  | device i =>
    cases hd : b.device? i addr size with
    | none => simp only [hd]
    | some d =>
      simp only [hd]
      exact windows_setDev hd _
  | unmapped => rfl

theorem windows_store (b : Bus D) (addr : BitVec 64) (size : ℕ) (val : BitVec 64) :
    (b.store addr size val).windows = b.windows := by
  unfold store
  cases b.route addr with
  | ram => dsimp only; split_ifs <;> rfl
  | device i =>
    cases hd : b.device? i addr size with
    | none => simp only [hd]
    | some d =>
      simp only [hd]
      exact windows_setDev hd _
  | unmapped => rfl

/-- What one operation keeps. -/
theorem Routed.step (h : b.Routed) (hvec : b.ram.size.toNat < 2 ^ (t.usizeBits - 1))
    {op : BusOp D} (hop : op.Ok) {b' : Bus D} (hstep : b.step t op = some b') :
    b'.Routed ∧ b.SameWindow b' := by
  have hle {size : ℕ} (hsize : size ∈ [1, 2, 4, 8]) : size ≤ 8 := by
    simp only [List.mem_cons, List.not_mem_nil, or_false] at hsize
    omega
  cases op with
  | map base size dev =>
    obtain ⟨-, -, heq⟩ := (h.map_eq_some_iff hop).mp hstep
    exact ⟨Routed.map h hop hstep, by rw [heq]; exact ⟨rfl, rfl⟩⟩
  | load addr size =>
    have hload := h.tryLoad_eq hvec addr (hle hop)
    rw [Bus.step, hload] at hstep
    obtain rfl := Option.some.inj hstep
    have hram : b.SameWindow (b.load addr size).2 := by
      constructor
      · rw [ram_load]
      · rw [ram_load]
    exact ⟨h.congr (windows_load b addr size) hram, hram⟩
  | store addr size val =>
    have hstore := h.tryStore_eq hvec addr (hle hop) val
    rw [Bus.step, hstore] at hstep
    obtain rfl := Option.some.inj hstep
    have hram := sameWindow_store h.ramWf addr size val
    exact ⟨h.congr (windows_store b addr size val) hram, hram⟩

/-- What a run keeps. -/
theorem Routed.run (h : b.Routed) (hvec : b.ram.size.toNat < 2 ^ (t.usizeBits - 1))
    {ops : List (BusOp D)} (hops : ∀ op ∈ ops, op.Ok) {b' : Bus D}
    (hrun : ops.foldlM (Bus.step t) b = some b') : b'.Routed ∧ b.SameWindow b' := by
  induction ops generalizing b with
  | nil =>
    obtain rfl := Option.some.inj hrun
    exact ⟨h, .refl b⟩
  | cons op ops ih =>
    rw [List.foldlM_cons] at hrun
    obtain ⟨b1, hstep, hrest⟩ := Option.bind_eq_some_iff.mp hrun
    obtain ⟨h1, hwin⟩ := h.step hvec (hops op List.mem_cons_self) hstep
    obtain ⟨h', hwin'⟩ := ih h1 (by rw [hwin.size]; exact hvec)
      (fun op hop => hops op (List.mem_cons_of_mem _ hop)) hrest
    exact ⟨h', hwin.trans hwin'⟩

/-! ## Where every access goes -/

/-- In RAM an access is one of little-endian bytes, and reaches no device. -/
theorem Routed.inRam_access (h : b.Routed) {addr : BitVec 64} {size : ℕ} (hsize : 0 < size)
    (hin : b.InRam addr size) (val : BitVec 64) :
    b.load addr size = (Bytes.loadLe 64 b.view addr.toNat size, b) ∧
      (b.store addr size val).view = Bytes.storeLe b.view addr.toNat size val ∧
      (b.store addr size val).devices = b.devices := by
  refine ⟨?_, view_store_of_inRam h.ramWf hsize hin val, ?_⟩
  · rw [load_of_inRam h.ramWf hsize hin, loadLe_view hin]
  · rw [store_of_inRam h.ramWf hsize hin]

/-- In a window an access reaches the device behind it. -/
theorem Routed.inDevice_access (h : b.Routed) {addr : BitVec 64} {size i : ℕ} (hsize : 0 < size)
    (hle : size ≤ 8) {d : DeviceEntry D} (hd : b.devices[i]? = some d)
    (hin : InDevice d addr size) (val : BitVec 64) :
    b.load addr size = ((MmioDevice.read d.dev (addr - d.base) size).1,
        b.setDev i d (MmioDevice.read d.dev (addr - d.base) size).2) ∧
      b.store addr size val = b.setDev i d (MmioDevice.write d.dev (addr - d.base) size val) := by
  have hfirst : InDevice d addr 1 := ⟨hin.1, by have := hin.2; omega⟩
  have hdev := (h.device?_eq hle hd hfirst).1 hin
  have hroute := h.route_of_inDevice hsize hd hin
  constructor
  · unfold load
    rw [hroute]
    dsimp only
    rw [hdev]
  · unfold store
    rw [hroute]
    dsimp only
    rw [hdev]

/-- Outside RAM and the windows an access reads 0 and writes nothing. -/
theorem Routed.outside_access (h : b.Routed) {addr : BitVec 64} {size : ℕ} (hle : size ≤ 8)
    (hram : ¬ b.InRam addr size) (hdev : ∀ d ∈ b.devices, ¬ InDevice d addr size)
    (val : BitVec 64) : b.load addr size = (0, b) ∧ b.store addr size val = b := by
  unfold load store
  cases hroute : b.route addr with
  | ram =>
    have hfits : b.ramFits addr size ≠ true := fun hfits =>
      hram (inRam_of_route h.ramWf hroute hfits)
    dsimp only
    rw [if_neg hfits, if_neg hfits]
    exact ⟨rfl, rfl⟩
  | device i =>
    obtain ⟨d, hd, hmem, hfirst⟩ := h.inDevice_of_route hroute
    dsimp only
    rw [(h.device?_eq hle hd hfirst).2 (hdev d hmem)]
    exact ⟨rfl, rfl⟩
  | unmapped => exact ⟨rfl, rfl⟩

/-- **Bus routing.** After every run of mappings and accesses the windows are sorted, apart from
    each other and from RAM, and no access panics: one inside RAM is an access of its bytes,
    one inside a window reaches that device alone, at its offset, and any other reads 0 and
    writes nothing. -/
theorem bus_routing {ram : Memory} (hram : EndsLow ram.base ram.size)
    (hvec : ram.size.toNat < 2 ^ (t.usizeBits - 1)) {ops : List (BusOp D)}
    (hops : ∀ op ∈ ops, op.Ok) {b : Bus D} (hrun : ops.foldlM (Bus.step t) (new ram) = some b) :
    b.Routed ∧ ∀ addr, ∀ size ∈ [1, 2, 4, 8], ∀ val,
      (b.InRam addr size → (∀ d ∈ b.devices, ¬ InDevice d addr size) ∧
        b.tryLoad t addr size = some (Bytes.loadLe 64 b.view addr.toNat size, b) ∧
        ∃ b', b.tryStore t addr size val = some b' ∧
          b'.view = Bytes.storeLe b.view addr.toNat size val ∧ b'.devices = b.devices) ∧
      (∀ i d, b.devices[i]? = some d → InDevice d addr size → ¬ b.InRam addr size ∧
        (∀ j e, b.devices[j]? = some e → InDevice e addr size → j = i) ∧
        b.tryLoad t addr size = some ((MmioDevice.read d.dev (addr - d.base) size).1,
          b.setDev i d (MmioDevice.read d.dev (addr - d.base) size).2) ∧
        b.tryStore t addr size val =
          some (b.setDev i d (MmioDevice.write d.dev (addr - d.base) size val))) ∧
      (¬ b.InRam addr size → (∀ d ∈ b.devices, ¬ InDevice d addr size) →
        b.tryLoad t addr size = some (0, b) ∧ b.tryStore t addr size val = some b) := by
  obtain ⟨h, hwin⟩ := (Routed.new hram).run hvec hops hrun
  refine ⟨h, fun addr size hsize val => ?_⟩
  have hbounds : 0 < size ∧ size ≤ 8 := by
    simp only [List.mem_cons, List.not_mem_nil, or_false] at hsize
    omega
  obtain ⟨hpos, hle⟩ := hbounds
  have hvec' : b.ram.size.toNat < 2 ^ (t.usizeBits - 1) := by
    rw [hwin.size]
    exact hvec
  rw [h.tryLoad_eq hvec' addr hle, h.tryStore_eq hvec' addr hle val]
  refine ⟨fun hin => ?_, fun i d hd hin => ?_, fun hout hdev => ?_⟩
  · obtain ⟨hload, hview, hdevices⟩ := h.inRam_access hpos hin val
    exact ⟨fun d hd hdev => h.not_inRam hpos hd hdev hin, congrArg some hload, _, rfl, hview,
      hdevices⟩
  · obtain ⟨hload, hstore⟩ := h.inDevice_access hpos hle hd hin val
    exact ⟨h.not_inRam hpos (List.mem_of_getElem? hd) hin,
      fun j e he hine => h.table.index_unique he hd hpos hine hin, congrArg some hload,
      congrArg some hstore⟩
  · obtain ⟨hload, hstore⟩ := h.outside_access hle hout hdev val
    exact ⟨congrArg some hload, congrArg some hstore⟩

end Bus

/-- `impl MmioDevice for VirtioRngMmio` (lines 167–177 of `virtio/rng.rs`). -/
instance : MmioDevice Rng where
  read d offset _ := (d.read offset, d)
  write d offset _ val := d.write offset val

/-- Two devices mapped below 4096 bytes of RAM, the higher one first, and a read of the version
    register of that one. -/
theorem bus_routing_rng :
    ∃ b : Bus Rng, [Bus.BusOp.map 0x0a000200 0x200 (Rng.new .new 49),
        .map 0x0a000000 0x200 (Rng.new .new 48)].foldlM (Bus.step Target.debug64)
        (Bus.new ⟨0x40000000, 4096, fun _ => 0⟩) = some b ∧
      b.devices.map DeviceEntry.base = [0x0a000000, 0x0a000200] ∧ b.Routed ∧
      b.tryLoad Target.debug64 0x0a000204 4 = some (2, b) ∧
      b.tryStore Target.debug64 0x40000ffe 4 7 = some b := by
  have hops : ∀ op ∈ [Bus.BusOp.map 0x0a000200 0x200 (Rng.new .new 49),
      .map 0x0a000000 0x200 (Rng.new .new 48)], op.Ok := by
    intro op hop
    rcases List.mem_cons.mp hop with rfl | hop
    · show Bus.EndsLow _ _
      unfold Bus.EndsLow
      decide
    · obtain rfl := List.mem_singleton.mp hop
      show Bus.EndsLow _ _
      unfold Bus.EndsLow
      decide
  obtain ⟨hrouted, haccess⟩ := @Bus.bus_routing Rng Target.debug64 _
    ⟨0x40000000, 4096, fun _ => 0⟩ (by unfold Bus.EndsLow; decide) (by decide) _ hops _ rfl
  refine ⟨_, rfl, rfl, hrouted, ?_, ?_⟩
  · exact ((haccess 0x0a000204 4 (by decide) 0).2.1 1 ⟨0x0a000200, 0x200, Rng.new .new 49⟩ rfl
      ⟨by decide, by decide⟩).2.2.1
  · refine ((haccess 0x40000ffe 4 (by decide) 7).2.2 (by decide) fun d hd => ?_).2
    rcases List.mem_cons.mp hd with rfl | hd
    · exact fun hin => absurd hin.2 (by decide)
    · obtain rfl := List.mem_singleton.mp hd
      exact fun hin => absurd hin.2 (by decide)

end V64.Platform
