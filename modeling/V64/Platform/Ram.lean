import V64.Platform.Bus

/-!
# The RAM bytes of a bus

`view` is RAM as a function of the physical address, 0 where there is none. Every
access of the bus is followed on the view: reads keep it, a write changes at most
the bytes it names, and where it lies in RAM it is `Bytes.storeLe`.

* `ram_load`, `readU8_eq` … `readU64_eq`: reads keep RAM; in RAM they are `Bytes.loadLe`.
* `view_store`, `view_store_of_inRam`: what a write does to the view.
-/

namespace V64.Platform

open V64.Interp

/-- The bytes of a RAM image by physical address. -/
def ramView (m : Memory) : ℕ → BitVec 8 := fun a =>
  if m.base.toNat ≤ a then m.bytes (a - m.base.toNat) else 0

namespace Bus

variable {D : Type}

/-- The RAM bytes of a bus by physical address. -/
def view (b : Bus D) : ℕ → BitVec 8 := ramView b.ram

/-- `b'` has the RAM window of `b`. -/
structure SameWindow (b b' : Bus D) : Prop where
  base : b'.ram.base = b.ram.base
  size : b'.ram.size = b.ram.size

theorem SameWindow.refl (b : Bus D) : b.SameWindow b := ⟨rfl, rfl⟩

theorem SameWindow.trans {b b' b'' : Bus D} (h : b.SameWindow b') (h' : b'.SameWindow b'') :
    b.SameWindow b'' := ⟨h'.base.trans h.base, h'.size.trans h.size⟩

theorem SameWindow.ramWf {b b' : Bus D} (h : b.SameWindow b') (hwf : b.RamWf) : b'.RamWf := by
  unfold RamWf
  rw [h.base, h.size]
  exact hwf

theorem SameWindow.inRam {b b' : Bus D} (h : b.SameWindow b') {addr : BitVec 64} {n : ℕ}
    (hin : b.InRam addr n) : b'.InRam addr n := by
  unfold InRam
  rw [h.base, h.size]
  exact hin

/-- A part of an access in RAM lies in RAM. -/
theorem InRam.sub {b : Bus D} (hwf : b.RamWf) {addr o : BitVec 64} {n k : ℕ}
    (h : b.InRam addr n) (hk : o.toNat + k ≤ n) :
    (addr + o).toNat = addr.toNat + o.toNat ∧ b.InRam (addr + o) k := by
  obtain ⟨hlo, hhi⟩ := h
  have hadd : (addr + o).toNat = addr.toNat + o.toNat := by
    rw [BitVec.toNat_add]
    exact Nat.mod_eq_of_lt (by unfold RamWf at hwf; omega)
  refine ⟨hadd, ?_, ?_⟩
  · omega
  · omega

/-- The bytes of an access in RAM. -/
theorem loadLe_view {b : Bus D} {addr : BitVec 64} {n : ℕ} (h : b.InRam addr n) (w : ℕ) :
    Bytes.loadLe w b.view addr.toNat n = b.ram.read w addr n := by
  unfold Memory.read
  rw [off_of_inRam h]
  have hlo := h.1
  have hbytes : ∀ k, k ≤ n →
      Bytes.loadLe w b.view addr.toNat k =
        Bytes.loadLe w b.ram.bytes (addr.toNat - b.ram.base.toNat) k := by
    intro k
    induction k with
    | zero => exact fun _ => rfl
    | succ k ih =>
      intro hk
      have hbase : b.ram.base.toNat ≤ addr.toNat + k := by omega
      have hoff : addr.toNat + k - b.ram.base.toNat = addr.toNat - b.ram.base.toNat + k := by
        omega
      rw [Bytes.loadLe, Bytes.loadLe, ih (by omega), view, ramView, if_pos hbase, hoff]
  exact hbytes n le_rfl

/-- From `b` to `b'` no byte of RAM changes but those of `P`. -/
structure OnlyWrites (P : ℕ → Prop) (b b' : Bus D) : Prop where
  window : b.SameWindow b'
  view : ∀ a, ¬P a → b'.view a = b.view a

namespace OnlyWrites

variable {P Q : ℕ → Prop} {b b' b'' : Bus D}

theorem of_ram (h : b'.ram = b.ram) : OnlyWrites P b b' :=
  ⟨⟨by rw [h], by rw [h]⟩, fun a _ => by unfold Bus.view; rw [h]⟩

theorem refl (b : Bus D) : OnlyWrites P b b := of_ram rfl

theorem trans (h : OnlyWrites P b b') (h' : OnlyWrites P b' b'') : OnlyWrites P b b'' :=
  ⟨h.window.trans h'.window, fun a ha => (h'.view a ha).trans (h.view a ha)⟩

theorem mono (h : OnlyWrites P b b') (hPQ : ∀ a, P a → Q a) : OnlyWrites Q b b' :=
  ⟨h.window, fun a ha => h.view a fun hP => ha (hPQ a hP)⟩

end OnlyWrites

variable [MmioDevice D]

/-! ## Reads -/

/-- A load changes at most the state of a device. -/
theorem ram_load (b : Bus D) (addr : BitVec 64) (size : ℕ) : (b.load addr size).2.ram = b.ram := by
  unfold load
  cases b.route addr with
  | ram => split_ifs <;> rfl
  | device i =>
    cases h : b.device? i addr size with
    | none => simp only [h]
    | some d => simp only [h, setDev]
  | unmapped => rfl

/-- A sized read, by the width of the load behind it. -/
theorem ram_reads (b : Bus D) (addr : BitVec 64) :
    (GuestMem.readU8 b addr).2.ram = b.ram ∧ (GuestMem.readU16 b addr).2.ram = b.ram ∧
    (GuestMem.readU32 b addr).2.ram = b.ram ∧ (GuestMem.readU64 b addr).2.ram = b.ram :=
  ⟨ram_load b addr 1, ram_load b addr 2, ram_load b addr 4, ram_load b addr 8⟩

section InRam

variable {b : Bus D} (hwf : b.RamWf) {addr : BitVec 64}

include hwf

/-- A narrow load in RAM. -/
theorem setWidth_load {w n : ℕ} (hn : 0 < n) (hw : w ≤ 64) (h : b.InRam addr n) :
    ((b.load addr n).1.setWidth w, (b.load addr n).2) =
      (Bytes.loadLe w b.view addr.toNat n, b) := by
  rw [load_of_inRam hwf hn h, loadLe_view h]
  unfold Memory.read
  rw [Bytes.setWidth_loadLe _ _ _ (.inl hw)]

theorem readU8_eq (h : b.InRam addr 1) :
    GuestMem.readU8 b addr = (Bytes.loadLe 8 b.view addr.toNat 1, b) :=
  setWidth_load hwf (by decide) (by decide) h

theorem readU16_eq (h : b.InRam addr 2) :
    GuestMem.readU16 b addr = (Bytes.loadLe 16 b.view addr.toNat 2, b) :=
  setWidth_load hwf (by decide) (by decide) h

theorem readU32_eq (h : b.InRam addr 4) :
    GuestMem.readU32 b addr = (Bytes.loadLe 32 b.view addr.toNat 4, b) :=
  setWidth_load hwf (by decide) (by decide) h

theorem readU64_eq (h : b.InRam addr 8) :
    GuestMem.readU64 b addr = (Bytes.loadLe 64 b.view addr.toNat 8, b) := by
  change b.load addr 8 = _
  rw [load_of_inRam hwf (by decide) h, loadLe_view h]

end InRam

/-! ## Writes -/

omit [MmioDevice D] in
theorem inRam_of_route {b : Bus D} (hwf : b.RamWf) {addr : BitVec 64} {size : ℕ}
    (hroute : b.route addr = .ram) (hfits : b.ramFits addr size = true) : b.InRam addr size := by
  have hend := toNat_ramEnd hwf
  unfold route at hroute
  split_ifs at hroute with hram
  · simp only [ramFits, Bool.and_eq_true, decide_eq_true_eq, BitVec.le_def, hend,
      BitVec.toNat_add, BitVec.toNat_ofNat, Nat.add_mod_mod] at hfits
    rw [Nat.mod_eq_of_lt hfits.1] at hfits
    exact ⟨BitVec.le_def.mp hram.1, hfits.2⟩
  · split at hroute <;> cases hroute

/-- A 16-bit read outside the device windows: RAM, or nothing. -/
theorem readU16_of_not_device {b : Bus D} (hwf : b.RamWf) {addr : BitVec 64}
    (h : ∀ i, b.route addr ≠ .device i) :
    GuestMem.readU16 b addr =
      (if b.InRam addr 2 then Bytes.loadLe 16 b.view addr.toNat 2 else 0, b) := by
  by_cases hin : b.InRam addr 2
  · rw [readU16_eq hwf hin, if_pos hin]
  · rw [if_neg hin]
    change ((b.load addr 2).1.setWidth 16, (b.load addr 2).2) = _
    unfold load
    cases hroute : b.route addr with
    | ram =>
      have hfits : b.ramFits addr 2 ≠ true := fun hfits => hin (inRam_of_route hwf hroute hfits)
      dsimp only
      rw [if_neg hfits]
      rfl
    | device i => exact absurd hroute (h i)
    | unmapped => rfl

/-- A store writes RAM, or changes at most the state of a device. -/
theorem ram_store {b : Bus D} (hwf : b.RamWf) (addr : BitVec 64) (size : ℕ) (val : BitVec 64) :
    (b.store addr size val).ram = b.ram ∨
      b.InRam addr size ∧ (b.store addr size val).ram = b.ram.write addr size val := by
  unfold store
  cases hroute : b.route addr with
  | ram =>
    by_cases hfits : b.ramFits addr size = true
    · exact .inr ⟨inRam_of_route hwf hroute hfits, by rw [if_pos hfits]⟩
    · exact .inl (by rw [if_neg hfits])
  | device i =>
    left
    cases h : b.device? i addr size with
    | none => simp only [h]
    | some d => simp only [h, setDev]
  | unmapped => exact .inl rfl

theorem sameWindow_store {b : Bus D} (hwf : b.RamWf) (addr : BitVec 64) (size : ℕ)
    (val : BitVec 64) : b.SameWindow (b.store addr size val) := by
  rcases ram_store hwf addr size val with h | ⟨-, h⟩
  · exact ⟨by rw [h], by rw [h]⟩
  · exact ⟨by rw [h]; rfl, by rw [h]; rfl⟩

omit [MmioDevice D] in
/-- A write to RAM on the view. -/
theorem ramView_write {b : Bus D} {addr : BitVec 64} {n : ℕ} (h : b.InRam addr n) {w : ℕ}
    (val : BitVec w) :
    ramView (b.ram.write addr n val) = Bytes.storeLe b.view addr.toNat n val := by
  have hlo := h.1
  funext a
  unfold view ramView
  simp only [Memory.write, off_of_inRam h]
  by_cases hbase : b.ram.base.toNat ≤ a
  · rw [if_pos hbase]
    unfold Bytes.storeLe
    by_cases hmem : addr.toNat ≤ a ∧ a < addr.toNat + n
    · have hsub : a - b.ram.base.toNat - (addr.toNat - b.ram.base.toNat) = a - addr.toNat := by
        omega
      rw [if_pos (by omega), if_pos hmem, hsub]
    · rw [if_neg (by omega), if_neg hmem]
      exact (if_pos hbase).symm
  · have hout : a < addr.toNat := by omega
    rw [if_neg hbase, Bytes.storeLe_of_not_mem _ _ _ _ (.inl hout)]
    exact (if_neg hbase).symm

theorem view_store_of_inRam {b : Bus D} (hwf : b.RamWf) {addr : BitVec 64} {n : ℕ} (hn : 0 < n)
    (h : b.InRam addr n) (val : BitVec 64) :
    (b.store addr n val).view = Bytes.storeLe b.view addr.toNat n val := by
  rw [store_of_inRam hwf hn h]
  exact ramView_write h val

/-- A store in RAM reaches no device. -/
theorem devices_store_of_inRam {b : Bus D} (hwf : b.RamWf) {addr : BitVec 64} {n : ℕ}
    (hn : 0 < n) (h : b.InRam addr n) (val : BitVec 64) :
    (b.store addr n val).devices = b.devices := by
  rw [store_of_inRam hwf hn h]

/-- A narrow write in RAM. -/
theorem view_store_setWidth {b : Bus D} (hwf : b.RamWf) {addr : BitVec 64} {n w : ℕ} (hn : 0 < n)
    (hw : 8 * n = w) (hw64 : w ≤ 64) (h : b.InRam addr n) (val : BitVec w) :
    (b.store addr n (val.setWidth 64)).view = Bytes.storeLe b.view addr.toNat n val := by
  rw [view_store_of_inRam hwf hn h]
  refine Bytes.storeLe_congr _ _ _ _ _ fun k hk => ?_
  have hk64 : k < 64 := by omega
  rw [BitVec.getLsbD_setWidth, decide_eq_true hk64, Bool.true_and]

theorem view_writeU16 {b : Bus D} (hwf : b.RamWf) {addr : BitVec 64} (h : b.InRam addr 2)
    (val : BitVec 16) :
    (GuestMem.writeU16 b addr val).view = Bytes.storeLe b.view addr.toNat 2 val :=
  view_store_setWidth hwf (by decide) rfl (by decide) h val

theorem view_writeU32 {b : Bus D} (hwf : b.RamWf) {addr : BitVec 64} (h : b.InRam addr 4)
    (val : BitVec 32) :
    (GuestMem.writeU32 b addr val).view = Bytes.storeLe b.view addr.toNat 4 val :=
  view_store_setWidth hwf (by decide) rfl (by decide) h val

/-- A store changes no byte but those it names. -/
theorem view_store {b : Bus D} (hwf : b.RamWf) {addr : BitVec 64} {n : ℕ} (val : BitVec 64) {a : ℕ}
    (ha : a < addr.toNat ∨ addr.toNat + n ≤ a) : (b.store addr n val).view a = b.view a := by
  rcases ram_store hwf addr n val with h | ⟨hin, h⟩
  · unfold view
    rw [h]
  · have hview : (b.store addr n val).view = ramView (b.ram.write addr n val) := by
      unfold view
      rw [h]
    rw [hview, ramView_write hin]
    exact Bytes.storeLe_of_not_mem _ _ _ _ ha

/-- The bytes of a buffer, by their addresses. -/
def cells (addr : BitVec 64) (n : ℕ) (a : ℕ) : Prop := ∃ k < n, a = (addr + BitVec.ofNat 64 k).toNat

/-- A buffer that does not wrap around is a range. -/
theorem cells_iff {addr : BitVec 64} {n a : ℕ} (h : addr.toNat + n ≤ 2 ^ 64) :
    cells addr n a ↔ addr.toNat ≤ a ∧ a < addr.toNat + n := by
  have hadd : ∀ k < n, (addr + BitVec.ofNat 64 k).toNat = addr.toNat + k := by
    intro k hk
    rw [BitVec.toNat_add, BitVec.toNat_ofNat, Nat.mod_eq_of_lt (by omega),
      Nat.mod_eq_of_lt (by omega)]
  constructor
  · rintro ⟨k, hk, rfl⟩
    rw [hadd k hk]
    omega
  · rintro ⟨hlo, hhi⟩
    exact ⟨a - addr.toNat, by omega, by rw [hadd _ (by omega)]; omega⟩

/-- What a write of `n` bytes at `addr` may change, by the addresses of the bytes. -/
theorem onlyWrites_cells {b : Bus D} (hwf : b.RamWf) (addr : BitVec 64) (n : ℕ) (val : BitVec 64) :
    OnlyWrites (cells addr n) b (b.store addr n val) := by
  refine ⟨sameWindow_store hwf addr n val, fun a ha => ?_⟩
  rcases ram_store hwf addr n val with h | ⟨hin, h⟩
  · unfold view
    rw [h]
  · have hview : (b.store addr n val).view = ramView (b.ram.write addr n val) := by
      unfold view
      rw [h]
    rw [hview, ramView_write hin]
    have hend : addr.toNat + n < 2 ^ 64 := Nat.lt_of_le_of_lt hin.2 hwf
    rw [cells_iff hend.le] at ha
    exact Bytes.storeLe_of_not_mem _ _ _ _ (by omega)

/-- What a write of `n` bytes at `addr` may change. -/
theorem onlyWrites_store {b : Bus D} (hwf : b.RamWf) (addr : BitVec 64) (n : ℕ) (val : BitVec 64) :
    OnlyWrites (fun a => addr.toNat ≤ a ∧ a < addr.toNat + n) b (b.store addr n val) :=
  ⟨sameWindow_store hwf addr n val, fun a ha => view_store hwf val (by omega)⟩

end Bus

end V64.Platform
