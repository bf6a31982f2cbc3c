import V64.Platform.Ram

/-!
# A device's own window

`poll` borrows the device (`virtio/blk.rs`, line 319; the other devices alike), and the
bus that it is given still maps the device's registers. An access that the bus routes to
them borrows the device once more, which panics in every build. The bus of a poll has the
device's own window as an entry that notes such an access; what follows it is void.

* `Bus.ReachesOwn`: the addresses whose accesses the own window takes.
* `Bus.Spares`: a step that leaves the own window alone.
* `Bus.spares_load`, `Bus.spares_store`: an access of any other address does.
-/

namespace V64.Platform

open V64.Interp

variable {D : Type}

/-- A device of the bus: the one that is polled, and whether it has been borrowed
    again, or another. -/
inductive Mapped (D : Type) where
  | own (borrowed : Bool)
  | other (dev : D)

namespace Mapped

/-- An access of the own window panics, which `own true` stands for. -/
def read [MmioDevice D] : Mapped D → BitVec 64 → ℕ → BitVec 64 × Mapped D
  | own _, _, _ => (0, own true)
  | other d, offset, size =>
    let (val, d) := MmioDevice.read d offset size
    (val, other d)

@[inherit_doc read] def write [MmioDevice D] : Mapped D → BitVec 64 → ℕ → BitVec 64 → Mapped D
  | own _, _, _, _ => own true
  | other d, offset, size, val => other (MmioDevice.write d offset size val)

instance [MmioDevice D] : MmioDevice (Mapped D) := ⟨read, write⟩

/-- Whether the polled device, if it is it, has been borrowed again. -/
def own? : Mapped D → Option Bool
  | own borrowed => some borrowed
  | other _ => none

theorem own?_read [MmioDevice D] {d : Mapped D} (h : d.own? = none) (offset : BitVec 64)
    (size : ℕ) : (MmioDevice.read d offset size).2.own? = none := by
  cases d with
  | own borrowed => cases h
  | other d => rfl

theorem own?_write [MmioDevice D] {d : Mapped D} (h : d.own? = none) (offset : BitVec 64)
    (size : ℕ) (val : BitVec 64) : (MmioDevice.write d offset size val).own? = none := by
  cases d with
  | own borrowed => cases h
  | other d => rfl

end Mapped

namespace Bus

/-- The windows of the bus, with the state of the own one. -/
def outline (b : Bus (Mapped D)) : List (BitVec 64 × BitVec 64 × Option Bool) :=
  b.devices.map fun e => (e.base, e.size, e.dev.own?)

/-- The polled device has been borrowed again. -/
def borrowed (b : Bus (Mapped D)) : Bool := b.outline.any (·.2.2 == some true)

/-- An access that starts at `addr` goes to the polled device's own registers. -/
def ReachesOwn (b : Bus (Mapped D)) (addr : BitVec 64) : Prop :=
  ∃ i base size borrowed, b.route addr = .device i ∧
    b.outline[i]? = some (base, size, some borrowed)

/-- From `b` to `b'` the polled device is not borrowed, and the windows stay. -/
structure Spares (b b' : Bus (Mapped D)) : Prop where
  window : b.SameWindow b'
  outline : b'.outline = b.outline

variable {b b' b'' : Bus (Mapped D)}

namespace Spares

theorem refl (b : Bus (Mapped D)) : b.Spares b := ⟨.refl b, rfl⟩

theorem trans (h : b.Spares b') (h' : b'.Spares b'') : b.Spares b'' :=
  ⟨h.window.trans h'.window, h'.outline.trans h.outline⟩

/-- A step that changes the bytes of RAM only. -/
theorem of_devices (hwindow : b.SameWindow b') (h : b'.devices = b.devices) : b.Spares b' :=
  ⟨hwindow, congrArg (List.map _) h⟩

theorem borrowed (h : b.Spares b') : b'.borrowed = b.borrowed :=
  congrArg (List.any · _) h.outline

theorem route (h : b.Spares b') (addr : BitVec 64) : b'.route addr = b.route addr := by
  have hscan : ∀ b : Bus (Mapped D), b.devices.findIdx? (inWindow · addr) =
      b.outline.findIdx? fun w => w.1 ≤ addr && addr < w.1 + w.2.1 := by
    intro b
    unfold Bus.outline
    rw [List.findIdx?_map]
    rfl
  unfold Bus.route ramEnd
  rw [hscan, hscan, h.outline, h.window.base, h.window.size]

theorem reachesOwn (h : b.Spares b') {addr : BitVec 64} (hown : b'.ReachesOwn addr) :
    b.ReachesOwn addr := by
  unfold ReachesOwn at hown ⊢
  rwa [h.route, h.outline] at hown

end Spares

/-- RAM comes first. -/
theorem not_reachesOwn_of_inRam (hwf : b.RamWf) {addr : BitVec 64} {size : ℕ} (hsize : 0 < size)
    (h : b.InRam addr size) : ¬b.ReachesOwn addr := by
  rintro ⟨i, base, size, borrowed, hroute, -⟩
  rw [route_of_inRam hwf hsize h] at hroute
  cases hroute

/-- Another device in the place of one that is not polled. -/
theorem spares_setDev {i : ℕ} {e : DeviceEntry (Mapped D)} {dev : Mapped D}
    (he : b.devices[i]? = some e) (hown : e.dev.own? = none) (hdev : dev.own? = none) :
    b.Spares (b.setDev i e dev) := by
  refine ⟨⟨rfl, rfl⟩, ?_⟩
  obtain ⟨hi, rfl⟩ := List.getElem?_eq_some_iff.mp he
  have hlen : i < b.outline.length := by simpa [Bus.outline] using hi
  have hset : b.outline.set i b.outline[i] = b.outline := List.set_getElem_self hlen
  unfold Bus.outline setDev at *
  rw [List.map_set, hdev, ← hown]
  rwa [List.getElem_map] at hset

/-- The device that an access goes to, unless it is the own one. -/
theorem own?_of_not_reachesOwn {addr : BitVec 64} (h : ¬b.ReachesOwn addr) {i : ℕ}
    (hroute : b.route addr = .device i) {e : DeviceEntry (Mapped D)}
    (he : b.devices[i]? = some e) : e.dev.own? = none := by
  cases hown : e.dev.own? with
  | none => rfl
  | some borrowed =>
    refine absurd ⟨i, e.base, e.size, borrowed, hroute, ?_⟩ h
    unfold outline
    rw [List.getElem?_map, he, ← hown]
    rfl

variable [MmioDevice D]

theorem spares_load {addr : BitVec 64} (h : ¬b.ReachesOwn addr) (size : ℕ) :
    b.Spares (b.load addr size).2 := by
  cases hroute : b.route addr with
  | ram =>
    rw [load_mem_of_route hroute]
    exact .refl b
  | unmapped =>
    unfold load
    rw [hroute]
    exact .refl b
  | device i =>
    unfold load
    rw [hroute]
    dsimp only
    cases hdev : b.device? i addr size with
    | none => exact .refl b
    | some e =>
      have he := (Option.filter_eq_some_iff.mp hdev).1
      have hown := own?_of_not_reachesOwn h hroute he
      exact spares_setDev he hown (Mapped.own?_read hown _ _)

theorem spares_store (hwf : b.RamWf) {addr : BitVec 64} (h : ¬b.ReachesOwn addr) (size : ℕ)
    (val : BitVec 64) : b.Spares (b.store addr size val) := by
  cases hroute : b.route addr with
  | ram =>
    refine .of_devices (sameWindow_store hwf addr size val) ?_
    unfold store
    rw [hroute]
    dsimp only
    split_ifs <;> rfl
  | unmapped =>
    unfold store
    rw [hroute]
    exact .refl b
  | device i =>
    unfold store
    rw [hroute]
    dsimp only
    cases hdev : b.device? i addr size with
    | none => exact .refl b
    | some e =>
      have he := (Option.filter_eq_some_iff.mp hdev).1
      have hown := own?_of_not_reachesOwn h hroute he
      exact spares_setDev he hown (Mapped.own?_write hown _ _ _)

end Bus

end V64.Platform
