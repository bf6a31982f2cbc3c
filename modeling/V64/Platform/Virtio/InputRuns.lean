import Mathlib.Data.List.Pairwise
import V64.Lib.Runs
import V64.Platform.Virtio.InputRing

/-!
# Delivery over whole runs

The input device, the host and the guest's driver, taking steps in any order: the host
injects events and polls the device, the guest accesses the registers, configures the
event queue once, posts chains and stores elsewhere. A poll's new entries of the used
ring are noted with the events that their buffers hold then.

* `InputWorld.Step`: the steps, with what the driver keeps to.
* `statusQueue_writes`: the status queue writes its used ring at most.
* `newlyUsed_delivering`: what a poll adds to the used ring.
* `InputWorld.Inv`, `inv_step`: the invariant.
* `delivered_in_order`: the used buffers hold the injected events, in order and once each.
-/

namespace V64.Platform

open Checked Loops Runs V64.Interp

variable {D : Type}

/-! ## Events -/

namespace Input

/-- The events of `key`. -/
def keyEvents (code : BitVec 16) (down : Bool) : List InputEvent :=
  [⟨evKey, code, (BitVec.ofBool down).setWidth 32⟩, ⟨evSyn, 0, 0⟩]

/-- The events of an axis of the pointer: one if it moved. -/
def axisEvents (code : BitVec 16) (delta : BitVec 32) : List InputEvent :=
  if delta ≠ 0 then [⟨evRel, code, delta⟩] else []

/-- The events of `motion`: those of the axes, and the report. -/
def motionEvents (dx dy wheel : BitVec 32) : List InputEvent :=
  axisEvents 0 dx ++ axisEvents 1 dy ++ axisEvents 8 wheel ++ [⟨evSyn, 0, 0⟩]

theorem pending_key (d : Input) (code : BitVec 16) (down : Bool) :
    (d.key code down).pending = d.pending ++ keyEvents code down := by
  unfold key push keyEvents
  rw [List.append_assoc]
  rfl

theorem pending_axis (d : Input) (code : BitVec 16) (delta : BitVec 32) :
    (if delta ≠ 0 then d.push evRel code delta else d).pending =
      d.pending ++ axisEvents code delta := by
  unfold axisEvents
  split_ifs
  · rfl
  · exact (List.append_nil _).symm

theorem pending_motion (d : Input) (dx dy wheel : BitVec 32) :
    (d.motion dx dy wheel).pending = d.pending ++ motionEvents dx dy wheel := by
  unfold motion motionEvents
  dsimp only [push]
  change (if wheel ≠ 0 then Input.push _ evRel 8 wheel else _).pending ++ _ = _
  rw [pending_axis]
  change ((if dy ≠ 0 then Input.push _ evRel 1 dy else _).pending ++ _) ++ _ = _
  rw [pending_axis]
  change (((if dx ≠ 0 then d.push evRel 0 dx else d).pending ++ _) ++ _) ++ _ = _
  rw [pending_axis]
  simp only [List.append_assoc]

theorem queues_key (d : Input) (code : BitVec 16) (down : Bool) :
    (d.key code down).queues = d.queues := rfl

theorem queues_motion (d : Input) (dx dy wheel : BitVec 32) :
    (d.motion dx dy wheel).queues = d.queues := by
  unfold motion push
  split_ifs <;> rfl

/-- The access is the reset of the device: zero to the status register. -/
def IsReset (offset val : BitVec 64) : Prop :=
  offset.toNat = 0x070 ∧ (val.setWidth 32 : BitVec 32) = 0

/-- A register access that does not reset the device keeps the pending events. -/
theorem pending_write (d : Input) {offset val : BitVec 64} (h : ¬IsReset offset val) :
    (d.write offset val).pending = d.pending := by
  unfold write
  dsimp only
  split
  · rfl
  · split
    · rfl
    · rfl
    · rfl
    · rfl
    · rename_i hoff
      rw [if_neg fun hv => h ⟨hoff, hv⟩]
    · rfl
    · rfl
    · rfl

end Input

/-! ## The status queue -/

namespace Virtq

/-- The queue can have chains. -/
def Active (q : Virtq) : Prop := q.ready = true ∧ q.num ≠ 0

/-- The used ring does not wrap around the address space. -/
def UsedFits (q : Virtq) : Prop := q.used.toNat + (4 + 8 * q.num.toNat) ≤ 2 ^ 64

/-- A completion writes the used ring. -/
theorem inUsed_of_usedWrites [MmioDevice D] {q : Virtq} (hfits : q.UsedFits)
    (hq : q.num.setWidth 16 ≠ (0 : BitVec 16)) {b : Bus D} {a : ℕ}
    (h : usedWrites q.used (q.num.setWidth 16) b a) : q.InUsed a := by
  unfold UsedFits at hfits
  have hnum : (q.num.setWidth 16 : BitVec 16).toNat ≤ q.num.toNat := by
    rw [BitVec.toNat_setWidth]
    exact Nat.mod_le _ _
  have hpos : 0 < (q.num.setWidth 16 : BitVec 16).toNat :=
    Nat.pos_of_ne_zero fun hzero => hq (BitVec.eq_of_toNat_eq hzero)
  unfold usedWrites at h
  dsimp only at h
  generalize hslot : (GuestMem.readU16 b (q.used + 2)).1 % q.num.setWidth 16 = slot at h
  have hlt : slot.toNat < q.num.toNat := by
    have hmod := Nat.mod_lt (GuestMem.readU16 b (q.used + 2)).1.toNat hpos
    rw [← BitVec.toNat_umod, hslot] at hmod
    omega
  have hslot8 : (slot.setWidth 64 * 8 : BitVec 64).toNat = 8 * slot.toNat := by
    have hlt16 := slot.isLt
    rw [BitVec.toNat_mul, BitVec.toNat_setWidth]
    change slot.toNat % 2 ^ 64 * 8 % 2 ^ 64 = _
    omega
  have helem : (q.used + 4 + slot.setWidth 64 * 8).toNat = q.used.toNat + 4 + 8 * slot.toNat := by
    rw [BitVec.toNat_add, BitVec.toNat_add, hslot8]
    change ((q.used.toNat + 4) % 2 ^ 64 + _) % 2 ^ 64 = _
    omega
  have hlen : (q.used + 4 + slot.setWidth 64 * 8 + 4).toNat =
      q.used.toNat + 4 + 8 * slot.toNat + 4 := by
    rw [BitVec.toNat_add, helem]
    change (_ + 4) % 2 ^ 64 = _
    omega
  have hidx : (q.used + 2).toNat = q.used.toNat + 2 := by
    rw [BitVec.toNat_add]
    change (_ + 2) % 2 ^ 64 = _
    omega
  unfold InUsed
  rcases h with h | h | h
  · rw [Bus.cells_iff (by omega)] at h
    omega
  · rw [Bus.cells_iff (by omega)] at h
    omega
  · rw [Bus.cells_iff (by omega)] at h
    omega

variable [MmioDevice D] {t : Target} (ht : t.overflowChecks = false)

include ht

/-- Taking a chain changes at most the state of devices. -/
theorem pop_ram {q q' : Virtq} {b b' : Bus D} {chain : Option (BitVec 16 × List Seg)}
    (h : q.pop t b = some (chain, q', b')) : b'.ram = b.ram := by
  unfold pop at h
  split_ifs at h
  · obtain ⟨-, hrest⟩ := Prod.mk.inj (Option.some.inj h)
    rw [← (Prod.mk.inj hrest).2]
  · simp only [Target.add_of_wrap ht, Option.bind_eq_bind, Option.bind_some] at h
    split_ifs at h
    · obtain ⟨-, hrest⟩ := Prod.mk.inj (Option.some.inj h)
      rw [← (Prod.mk.inj hrest).2]
      exact (Bus.ram_reads _ _).2.1
    · obtain ⟨⟨chain', q1, b1⟩, htake, hout⟩ := Option.bind_eq_some_iff.mp h
      obtain ⟨-, hrest⟩ := Prod.mk.inj (Option.some.inj hout)
      rw [← (Prod.mk.inj hrest).2]
      unfold take at htake
      obtain ⟨slot, -, htake⟩ := Option.bind_eq_some_iff.mp htake
      simp only [Target.add_of_wrap ht, Option.bind_eq_bind, Option.bind_some] at htake
      generalize hread : GuestMem.readU16 (GuestMem.readU16 b (q.avail + 2)).2
        (q.avail + 4 + slot.setWidth 64 * 2) = r at htake
      obtain ⟨segs, b2, hgather, hram⟩ := gather_frame ht q.desc q.num.toNat r.1 r.2
      rw [hgather] at htake
      obtain ⟨-, hpair⟩ := Prod.mk.inj (Option.some.inj htake)
      dsimp only
      rw [← (Prod.mk.inj hpair).2]
      dsimp only
      rw [hram, ← hread, (Bus.ram_reads _ _).2.1, (Bus.ram_reads _ _).2.1]

/-- One pass over the status queue. -/
theorem drainPass_drop {s : Draining Unit (Bus D)} (hwf : s.mem.RamWf)
    (hfits : s.q.Active → s.q.UsedFits) {p : Pass (Draining Unit (Bus D))}
    (h : drainPass t Input.drop s = some p) :
    (∃ s', p = .leave s' ∧ s'.mem.ram = s.mem.ram) ∨
      ∃ s', p = .again s' ∧ s'.q = { s.q with lastAvail := s.q.lastAvail + 1 } ∧
        s.mem.OnlyWrites (fun a => s.q.Active ∧ s.q.InUsed a) s'.mem := by
  unfold drainPass at h
  obtain ⟨⟨chain, q1, b1⟩, hpop, h⟩ := Option.bind_eq_some_iff.mp h
  have hram := pop_ram ht hpop
  cases chain with
  | none =>
    obtain rfl := Option.some.inj h
    exact .inl ⟨_, rfl, hram⟩
  | some chain =>
    obtain ⟨head, segs⟩ := chain
    right
    have hpopFrame : s.mem.OnlyWrites (fun a => s.q.Active ∧ s.q.InUsed a) b1 := .of_ram hram
    obtain ⟨hnum, rfl⟩ := pop_eq_some hpop
    have hactive : s.q.Active := by
      refine ⟨?_, hnum⟩
      by_contra hoff
      rw [pop, if_pos (.inl (Bool.eq_false_iff.mpr hoff))] at hpop
      cases hpop
    dsimp only [Input.drop, Option.bind_eq_bind, Option.bind_some] at h
    obtain ⟨b2, hpush, h⟩ := Option.bind_eq_some_iff.mp h
    obtain rfl := Option.some.inj h
    have hq : s.q.num.setWidth 16 ≠ (0 : BitVec 16) := by
      intro hzero
      unfold pushUsed pushUsedAt rem at hpush
      simp only [Target.add_of_wrap ht, Option.bind_eq_bind, Option.bind_some] at hpush
      rw [if_pos hzero] at hpush
      cases hpush
    obtain ⟨b2', hpush', hwrites⟩ := pushUsedAt_frame ht hq (hpopFrame.window.ramWf hwf) head 0
    unfold pushUsed at hpush
    obtain rfl := Option.some.inj (hpush'.symm.trans hpush)
    refine ⟨_, rfl, rfl, hpopFrame.trans (hwrites.mono fun a ha => ⟨hactive, ?_⟩)⟩
    exact inUsed_of_usedWrites (hfits hactive) hq ha

/-- The status queue writes its used ring at most. -/
theorem run_drop {fuel : ℕ} {s s' : Draining Unit (Bus D)} (hwf : s.mem.RamWf)
    (hfits : s.q.Active → s.q.UsedFits) (h : run (drainPass t Input.drop) fuel s = .done s') :
    s.mem.OnlyWrites (fun a => s.q.Active ∧ s.q.InUsed a) s'.mem := by
  induction fuel generalizing s with
  | zero =>
    unfold run at h
    cases hpass : drainPass t Input.drop s with
    | none => rw [hpass] at h; cases h
    | some p =>
      rw [hpass] at h
      rcases drainPass_drop ht hwf hfits hpass with ⟨s1, rfl, hram⟩ | ⟨s1, rfl, -, -⟩
      · cases h
        exact .of_ram hram
      · cases h
  | succ fuel ih =>
    unfold run at h
    cases hpass : drainPass t Input.drop s with
    | none => rw [hpass] at h; cases h
    | some p =>
      rw [hpass] at h
      rcases drainPass_drop ht hwf hfits hpass with ⟨s1, rfl, hram⟩ | ⟨s1, rfl, hq, hwrites⟩
      · cases h
        exact .of_ram hram
      · have hrest := ih (hwrites.window.ramWf hwf) (by rw [hq]; exact hfits) h
        rw [hq] at hrest
        exact hwrites.trans hrest

end Virtq

/-! ## What a poll adds to the used ring -/

namespace Virtq

/-- The entries that came to the used ring from `b` to `b'`, each with the event that the
    buffer of its chain holds. -/
def newlyUsed (q : Virtq) (b b' : Bus D) : List (BitVec 32 × InputEvent) :=
  (List.range (usedIdx b'.view q.used.toNat - usedIdx b.view q.used.toNat).toNat).map fun i =>
    let id : BitVec 32 := Bytes.loadLe 32 b'.view
      (usedSlot q.used.toNat ((usedIdx b.view q.used.toNat + BitVec.ofNat 16 i) % q.qsz)) 4
    (id, eventAt b'.view (q.buffer b' (id.setWidth 16)).addr.toNat)

theorem newlyUsed_self (q : Virtq) (b : Bus D) : q.newlyUsed b b = [] := by
  unfold newlyUsed
  rw [BitVec.sub_self]
  rfl

/-- The buffer of a chain that was used is where it was. -/
theorem Delivering.buffer {q : Virtq} {b : Bus D} {heads rest : List (BitVec 16)}
    {events : List InputEvent} {s : Draining Unit (Bus D)} (h : q.Outstanding b (heads ++ rest))
    (hs : q.Delivering b heads events s) {head : BitVec 16} (hhead : head ∈ heads) :
    q.buffer s.mem head = q.buffer b head := by
  refine (sameChain fun a ha => hs.writes.view a ?_).2.2
  have hpost := h.postable head (List.mem_append_left _ hhead)
  rintro (hused | ⟨head', hmem, hbuf⟩)
  · exact hpost.descsUsed a ha hused
  · by_cases heq : head' = head
    · subst heq
      exact hpost.bufferDescs a hbuf ha
    · have hsymm : Std.Symm fun h' h'' => q.Separate b h' h'' ∧ q.Separate b h'' h' :=
        ⟨fun _ _ hsep => ⟨hsep.2, hsep.1⟩⟩
      have hsep := (List.pairwise_append.mp h.separate).1.forall hmem hhead heq
      exact (hsep.1 a hbuf).1 ha

/-- A poll adds the chains that it used, with their events. -/
theorem newlyUsed_delivering {q : Virtq} {b b1 : Bus D} {heads rest : List (BitVec 16)}
    {events : List InputEvent} {s : Draining Unit (Bus D)} (h : q.Outstanding b1 (heads ++ rest))
    (hs : q.Delivering b1 heads events s)
    (hidx : usedIdx b1.view q.used.toNat = usedIdx b.view q.used.toNat) :
    (q.newlyUsed b s.mem).map Prod.fst = heads.map (·.setWidth 32) ∧
      (q.newlyUsed b s.mem).map Prod.snd = events := by
  have hroom := h.room
  rw [List.length_append] at hroom
  have hbounds := h.rings.size.bounds
  have hcount : (usedIdx s.mem.view q.used.toNat - usedIdx b.view q.used.toNat).toNat =
      heads.length := by
    rw [hs.completed.idx, hidx, BitVec.add_comm, BitVec.add_sub_cancel, BitVec.toNat_ofNat,
      Nat.mod_eq_of_lt (by omega)]
  have hlist : q.newlyUsed b s.mem = heads.map fun head =>
      (head.setWidth 32, eventAt s.mem.view (q.buffer b1 head).addr.toNat) := by
    unfold newlyUsed
    rw [hcount]
    refine List.ext_getElem (by rw [List.length_map, List.length_map, List.length_range]) ?_
    intro i hi hi'
    rw [List.length_map] at hi'
    have hentry := hs.completed.entries i heads[i] (List.getElem?_eq_getElem hi')
    rw [hidx] at hentry
    rw [List.getElem_map, List.getElem_map, List.getElem_range]
    dsimp only
    rw [hentry, BitVec.setWidth_setWidth_of_le _ (by decide), BitVec.setWidth_eq,
      hs.buffer h (List.getElem_mem hi')]
  rw [hlist, List.map_map, List.map_map, ← hs.events]
  exact ⟨rfl, rfl⟩

end Virtq

/-! ## The system -/

/-- The device and memory, and what has passed between the host and the guest: the heads
    that the driver has posted, and the entries of the used ring with their events. -/
structure InputWorld (D : Type) where
  dev : Input
  bus : Bus D
  posted : List (BitVec 16)
  used : List (BitVec 32 × InputEvent)

/-- What the host and the guest do. -/
inductive InputAction (D : Type) where
  | key (code : BitVec 16) (down : Bool)
  | motion (dx dy wheel : BitVec 32)
  | access (offset val : BitVec 64)
  | configure (offset val : BitVec 64) (heads : List (BitVec 16))
  | post (head : BitVec 16) (b' : Bus D)
  | store (b' : Bus D)
  | poll (fuel : ℕ)

namespace InputAction

/-- The events that the host injects. -/
def events : InputAction D → List InputEvent
  | key code down => Input.keyEvents code down
  | motion dx dy wheel => Input.motionEvents dx dy wheel
  | _ => []

/-- The chains that the driver posts, by their heads. -/
def heads : InputAction D → List (BitVec 16)
  | configure _ _ heads => heads
  | post head _ => [head]
  | _ => []

end InputAction

namespace InputWorld

/-- The event queue. -/
abbrev queue (w : InputWorld D) : Virtq := w.dev.queues queue0

/-- The chains that are posted and not used yet. -/
def outstanding (w : InputWorld D) : List (BitVec 16) := w.posted.drop w.used.length

/-- The driver leaves the slots and the descriptors of the outstanding chains alone. -/
structure Keeps (w : InputWorld D) (b' : Bus D) : Prop where
  window : w.bus.SameWindow b'
  slots : ∀ j < w.outstanding.length,
    availHead b'.view w.queue.avail.toNat ((w.queue.lastAvail + BitVec.ofNat 16 j) % w.queue.qsz) =
      availHead w.bus.view w.queue.avail.toNat
        ((w.queue.lastAvail + BitVec.ofNat 16 j) % w.queue.qsz)
  descs : ∀ head ∈ w.outstanding, ∀ a, w.queue.InDescs w.bus head a → b'.view a = w.bus.view a

/-- The driver posts the chain at `head`: it fills the next slot, which is free, and
    advances the index. -/
structure Posts (w : InputWorld D) (head : BitVec 16) (b' : Bus D) : Prop where
  keeps : w.Keeps b'
  ready : w.queue.ready = true
  room : w.outstanding.length < w.queue.num.toNat
  idx : availIdx b'.view w.queue.avail.toNat = availIdx w.bus.view w.queue.avail.toNat + 1
  slot : availHead b'.view w.queue.avail.toNat
    (availIdx w.bus.view w.queue.avail.toNat % w.queue.qsz) = head
  postable : w.queue.Postable b' head
  apart : ∀ h' ∈ w.outstanding, w.queue.Separate b' h' head ∧ w.queue.Separate b' head h'

/-- The used ring of the status queue, if that has one, is apart from the rings of the event
    queue and from the descriptors of the outstanding chains. -/
def StatusApart (w : InputWorld D) : Prop :=
  (w.dev.queues queue1).Active → (w.dev.queues queue1).UsedFits ∧
    ∀ a, (w.dev.queues queue1).InUsed a → ¬w.queue.InUsed a ∧ ¬w.queue.InAvail a ∧
      ∀ head ∈ w.outstanding, ¬w.queue.InDescs w.bus head a

/-- One step. The driver does not reset the device, and configures the event queue once. -/
inductive Step [MmioDevice D] (t : Target) :
    InputWorld D → InputAction D → InputWorld D → Prop where
  | key {w : InputWorld D} (code : BitVec 16) (down : Bool) :
      Step t w (.key code down) { w with dev := w.dev.key code down }
  | motion {w : InputWorld D} (dx dy wheel : BitVec 32) :
      Step t w (.motion dx dy wheel) { w with dev := w.dev.motion dx dy wheel }
  | access {w : InputWorld D} {offset val : BitVec 64} (hreset : ¬Input.IsReset offset val)
      (hqueue : (w.dev.write offset val).queues queue0 = w.queue ∨
        w.queue.ready = false ∧ ((w.dev.write offset val).queues queue0).ready = false) :
      Step t w (.access offset val) { w with dev := w.dev.write offset val }
  | configure {w : InputWorld D} {offset val : BitVec 64} {heads : List (BitVec 16)}
      (hreset : ¬Input.IsReset offset val) (hold : w.queue.ready = false)
      (hnew : ((w.dev.write offset val).queues queue0).ready = true)
      (hheads : ((w.dev.write offset val).queues queue0).Outstanding w.bus heads) :
      Step t w (.configure offset val heads)
        { w with dev := w.dev.write offset val, posted := heads }
  | post {w : InputWorld D} {head : BitVec 16} {b' : Bus D} (h : w.Posts head b') :
      Step t w (.post head b') { w with bus := b', posted := w.posted ++ [head] }
  | store {w : InputWorld D} {b' : Bus D} (h : w.Keeps b')
      (hidx : w.queue.ready = true →
        availIdx b'.view w.queue.avail.toNat = availIdx w.bus.view w.queue.avail.toNat) :
      Step t w (.store b') { w with bus := b' }
  | poll {w : InputWorld D} {fuel : ℕ} {dev : Input} {b' : Bus D} (hstatus : w.StatusApart)
      (h : w.dev.process t fuel w.bus = .done (dev, b')) :
      Step t w (.poll fuel) { w with
        dev := dev, bus := b'
        used := w.used ++ if w.queue.ready then w.queue.newlyUsed w.bus b' else [] }

/-- A device whose event queue is not configured, without pending events. -/
structure Fresh (w : InputWorld D) : Prop where
  wf : w.bus.RamWf
  ready : w.queue.ready = false
  pending : w.dev.pending = []
  posted : w.posted = []
  used : w.used = []

/-- What holds after the host has injected `injected` and the driver has posted `posted`. -/
structure Inv (injected : List InputEvent) (posted : List (BitVec 16)) (w : InputWorld D) :
    Prop where
  wf : w.bus.RamWf
  events : w.used.map Prod.snd ++ w.dev.pending = injected
  posted : w.posted = posted
  le : w.used.length ≤ w.posted.length
  ids : w.used.map Prod.fst = (w.posted.take w.used.length).map (·.setWidth 32)
  idle : w.queue.ready = false → w.posted = []
  live : w.queue.ready = true → w.queue.Outstanding w.bus w.outstanding

/-! ## The steps keep the invariant -/

variable {w : InputWorld D} {injected : List InputEvent} {posted : List (BitVec 16)}

theorem Fresh.inv (h : w.Fresh) : w.Inv [] [] where
  wf := h.wf
  events := by rw [h.used, h.pending]; rfl
  posted := h.posted
  le := by
    rw [h.used, h.posted]
    exact le_rfl
  ids := by rw [h.used]; rfl
  idle _ := h.posted
  live hready := Bool.noConfusion (h.ready.symm.trans hready)

/-- Injecting events appends them to the pending ones. -/
theorem Inv.inject (h : w.Inv injected posted) {dev : Input} {events : List InputEvent}
    (hqueues : dev.queues = w.dev.queues) (hpending : dev.pending = w.dev.pending ++ events) :
    Inv (injected ++ events) posted { w with dev := dev } := by
  obtain ⟨hwf, hevents, hposted, hle, hids, hidle, hlive⟩ := h
  refine ⟨hwf, ?_, hposted, hle, hids, ?_, ?_⟩
  · dsimp only
    rw [hpending, ← List.append_assoc, hevents]
  · intro hready
    refine hidle ?_
    unfold queue at hready ⊢
    rwa [hqueues] at hready
  · intro hready
    unfold queue at hready ⊢
    rw [hqueues] at hready ⊢
    exact hlive hready

/-- A register access that leaves the event queue alone, or unconfigured. -/
theorem Inv.access (h : w.Inv injected posted) {dev : Input}
    (hqueue : dev.queues queue0 = w.queue ∨
      w.queue.ready = false ∧ (dev.queues queue0).ready = false)
    (hpending : dev.pending = w.dev.pending) : Inv injected posted { w with dev := dev } := by
  obtain ⟨hwf, hevents, hposted, hle, hids, hidle, hlive⟩ := h
  refine ⟨hwf, ?_, hposted, hle, hids, ?_, ?_⟩
  · dsimp only
    rw [hpending, hevents]
  · intro hready
    rcases hqueue with hsame | ⟨hold, -⟩
    · refine hidle ?_
      unfold queue at hready ⊢
      rwa [hsame] at hready
    · exact hidle hold
  · intro hready
    rcases hqueue with hsame | ⟨-, hnew⟩
    · unfold queue at hready ⊢
      rw [hsame] at hready ⊢
      exact hlive hready
    · exact Bool.noConfusion (hnew.symm.trans hready)

/-- Configuring the event queue, with the chains that are on its ring by then. -/
theorem Inv.configure (h : w.Inv injected posted) {dev : Input} {heads : List (BitVec 16)}
    (hold : w.queue.ready = false) (hnew : (dev.queues queue0).ready = true)
    (hheads : (dev.queues queue0).Outstanding w.bus heads)
    (hpending : dev.pending = w.dev.pending) :
    Inv injected (posted ++ heads) { w with dev := dev, posted := heads } := by
  obtain ⟨hwf, hevents, hposted, hle, hids, hidle, -⟩ := h
  have hnone := hidle hold
  rw [hnone] at hposted hle
  have hused : w.used = [] := List.length_eq_zero_iff.mp (Nat.le_zero.mp hle)
  refine ⟨hwf, ?_, ?_, ?_, ?_, ?_, ?_⟩
  · dsimp only
    rw [hpending, hevents]
  · rw [← hposted, List.nil_append]
  · dsimp only
    rw [hused]
    exact Nat.zero_le _
  · dsimp only
    rw [hused]
    rfl
  · intro hready
    exact Bool.noConfusion (hready.symm.trans hnew)
  · intro _
    unfold outstanding
    dsimp only
    rw [hused]
    exact hheads

/-- The driver's other stores. -/
theorem Inv.store (h : w.Inv injected posted) {b' : Bus D} (hkeeps : w.Keeps b')
    (hidx : w.queue.ready = true →
      availIdx b'.view w.queue.avail.toNat = availIdx w.bus.view w.queue.avail.toNat) :
    Inv injected posted { w with bus := b' } := by
  obtain ⟨hwf, hevents, hposted, hle, hids, hidle, hlive⟩ := h
  refine ⟨hkeeps.window.ramWf hwf, hevents, hposted, hle, hids, hidle, fun hready => ?_⟩
  exact (hlive hready).congr hkeeps.window (hidx hready) hkeeps.slots hkeeps.descs

/-- A chain that the driver posts. -/
theorem Inv.post (h : w.Inv injected posted) {head : BitVec 16} {b' : Bus D}
    (hposts : w.Posts head b') :
    Inv injected (posted ++ [head]) { w with bus := b', posted := w.posted ++ [head] } := by
  obtain ⟨hwf, hevents, hposted, hle, hids, -, hlive⟩ := h
  have hkeeps := hposts.keeps
  have hold := hlive hposts.ready
  have houtstanding : (w.posted ++ [head]).drop w.used.length = w.outstanding ++ [head] :=
    List.drop_append_of_le_length hle
  refine ⟨hkeeps.window.ramWf hwf, hevents, ?_, ?_, ?_, ?_, fun _ => ?_⟩
  · dsimp only
    rw [hposted]
  · dsimp only
    rw [List.length_append]
    exact Nat.le_add_right_of_le hle
  · dsimp only
    rw [List.take_append_of_le_length hle]
    exact hids
  · intro hready
    exact Bool.noConfusion (hready.symm.trans hposts.ready)
  · unfold outstanding
    dsimp only
    rw [houtstanding]
    refine Virtq.Outstanding.append ?_ hposts.room ?_ ?_ ?_ ?_ ?_ hposts.postable hposts.apart
    · exact ⟨hkeeps.window.ramWf hwf, hold.rings.size, hkeeps.window.inRam hold.rings.avail,
        hkeeps.window.inRam hold.rings.used, hold.rings.apart⟩
    · rw [hposts.idx, hold.idx]
    · intro j h' hj
      rw [hkeeps.slots j (List.getElem?_eq_some_iff.mp hj).1]
      exact hold.slots j h' hj
    · exact fun h' hmem => (hold.postable h' hmem).congr hkeeps.window (hkeeps.descs h' hmem)
    · refine hold.separate.imp_of_mem ?_
      intro h' h'' hmem hmem' hsep
      exact ⟨hsep.1.congr (hkeeps.descs h' hmem) (hkeeps.descs h'' hmem'),
        hsep.2.congr (hkeeps.descs h'' hmem') (hkeeps.descs h' hmem)⟩
    · rw [← hold.idx]
      exact hposts.slot

section Poll

variable [MmioDevice D] {t : Target}

/-- A poll does nothing, or runs both loops. -/
theorem process_cases {d dev : Input} {b b' : Bus D} {fuel : ℕ}
    (h : d.process t fuel b = .done (dev, b')) :
    (dev = d ∧ b' = b) ∨ ∃ s s', run (drainPass t Input.drop) fuel (d.draining b) = .done s ∧
      Input.deliver t d.pending ⟨d.queues queue0, s.raised, (), s.mem⟩ = some s' ∧
      dev = d.processed s s' ∧ b' = s'.2.mem := by
  unfold Input.process at h
  split_ifs at h
  · cases h
    exact .inl ⟨rfl, rfl⟩
  · obtain ⟨s, hrun, h⟩ := Outcome.bind_eq_done_iff.mp h
    obtain ⟨s', hdeliver, h⟩ := Outcome.bind_eq_done_iff.mp h
    cases h
    exact .inr ⟨s, s', hrun, Outcome.ofOption_eq_done_iff.mp hdeliver, rfl, rfl⟩

omit [MmioDevice D] in
theorem queues_processed (d : Input) (s : Draining Unit (Bus D))
    (s' : List InputEvent × Draining Unit (Bus D)) :
    (d.processed s s').queues queue0 = s'.2.q := by
  change Function.update (Function.update d.queues queue1 s.q) queue0 s'.2.q queue0 = s'.2.q
  exact Function.update_self _ _ _

/-- A poll that a build completes is the same without overflow checks. -/
theorem process_wrapping_of_done {d : Input} {b : Bus D} {fuel : ℕ} {r : Input × Bus D}
    (h : d.process t fuel b = .done r) : d.process t.wrapping fuel b = .done r := by
  cases ht : t.overflowChecks with
  | false => rwa [Target.wrapping_of_unchecked ht]
  | true =>
    have hpass : ∀ s p, drainPass t Input.drop s = some p →
        drainPass (M := Bus D) t.wrapping Input.drop s = some p :=
      fun s p hp => ((drainPass_checked Input.fitting_drop ht s p).mp hp).2
    unfold Input.process at h ⊢
    split_ifs at h ⊢
    · exact h
    · obtain ⟨s, hrun, h⟩ := Outcome.bind_eq_done_iff.mp h
      obtain ⟨s', hdeliver, h⟩ := Outcome.bind_eq_done_iff.mp h
      have hwrapping := ((Input.deliver_checked ht).mp (Outcome.ofOption_eq_done_iff.mp hdeliver)).2
      refine Outcome.bind_eq_done_iff.mpr ⟨s, run_eq_done_of_imp hpass hrun, ?_⟩
      exact Outcome.bind_eq_done_iff.mpr ⟨s', Outcome.ofOption_eq_done_iff.mpr hwrapping, h⟩

/-- A step of a build is one without overflow checks. -/
theorem Step.wrapping {w' : InputWorld D} {action : InputAction D} (h : Step t w action w') :
    Step t.wrapping w action w' := by
  cases h with
  | key code down => exact .key code down
  | motion dx dy wheel => exact .motion dx dy wheel
  | access hreset hqueue => exact .access hreset hqueue
  | configure hreset hold hnew hheads => exact .configure hreset hold hnew hheads
  | post hposts => exact .post hposts
  | store hkeeps hidx => exact .store hkeeps hidx
  | poll hstatus hpoll => exact .poll hstatus (process_wrapping_of_done hpoll)

/-- A queue that is not ready delivers nothing. -/
theorem deliver_of_not_ready {q : Virtq} (hready : q.ready = false) (pending : List InputEvent)
    (raised : Bool) (b : Bus D) :
    Input.deliver t pending ⟨q, raised, (), b⟩ = some (pending, ⟨q, raised, (), b⟩) := by
  cases pending with
  | nil => rfl
  | cons e pending =>
    rw [Input.deliver, Virtq.pop, if_pos (.inl hready)]
    rfl

variable (ht : t.overflowChecks = false)

include ht

/-- The status queue leaves what is outstanding alone. -/
theorem outstanding_status {fuel : ℕ} {s : Draining Unit (Bus D)}
    (hlive : w.queue.Outstanding w.bus w.outstanding) (hstatus : w.StatusApart)
    (hrun : run (drainPass t Input.drop) fuel (w.dev.draining w.bus) = .done s) :
    w.queue.Outstanding s.mem w.outstanding ∧
      usedIdx s.mem.view w.queue.used.toNat = usedIdx w.bus.view w.queue.used.toNat := by
  have hwrites := Virtq.run_drop ht (s := w.dev.draining w.bus) hlive.rings.wf
    (fun hactive => (hstatus hactive).1) hrun
  have husedSame : ∀ a, w.queue.InUsed a → s.mem.view a = w.bus.view a := fun a ha =>
    hwrites.view a fun hw => ((hstatus hw.1).2 a hw.2).1 ha
  have havailSame : ∀ a, w.queue.InAvail a → s.mem.view a = w.bus.view a := fun a ha =>
    hwrites.view a fun hw => ((hstatus hw.1).2 a hw.2).2.1 ha
  have hbounds := hlive.rings.size.bounds
  refine ⟨hlive.congr hwrites.window ?_ ?_ ?_, ?_⟩
  · exact Bytes.loadLe_congr _ _ _ _ fun i hi => havailSame _ ⟨by omega, by omega⟩
  · intro j hj
    have hlt := hlive.rings.size.ringSize.slot_lt (w.queue.lastAvail + BitVec.ofNat 16 j)
    have hqsz := hlive.rings.toNat_qsz
    unfold Virtq.qsz at hqsz ⊢
    exact Bytes.loadLe_congr _ _ _ _ fun i hi => havailSame _ ⟨by omega, by omega⟩
  · exact fun head hmem a ha => hwrites.view a fun hw => ((hstatus hw.1).2 a hw.2).2.2 head hmem ha
  · exact Bytes.loadLe_congr _ _ _ _ fun i hi => husedSame _ ⟨by omega, by omega⟩

/-- A poll of a configured device: it uses the outstanding chains for the pending events, in
    order, until one of the two runs out. -/
theorem Inv.poll_live (h : w.Inv injected posted) (hready : w.queue.ready = true)
    (hstatus : w.StatusApart) {fuel : ℕ} {s : Draining Unit (Bus D)}
    {s' : List InputEvent × Draining Unit (Bus D)}
    (hrun : run (drainPass t Input.drop) fuel (w.dev.draining w.bus) = .done s)
    (hdeliver : Input.deliver t w.dev.pending ⟨w.queue, s.raised, (), s.mem⟩ = some s') :
    Inv injected posted { w with
      dev := w.dev.processed s s', bus := s'.2.mem
      used := w.used ++ w.queue.newlyUsed w.bus s'.2.mem } := by
  obtain ⟨hwf, hevents, hposted, hle, hids, hidle, hlive⟩ := h
  obtain ⟨hout, hidx⟩ := outstanding_status ht (hlive hready) hstatus hrun
  obtain ⟨s1, hdeliver1, hs1⟩ := Virtq.deliver_outstanding ht hready hout w.dev.pending s.raised
  obtain rfl := Option.some.inj (hdeliver1.symm.trans hdeliver)
  generalize hheads : w.outstanding = heads at *
  have hsplit := List.take_append_drop w.dev.pending.length heads
  rw [← hsplit] at hout
  obtain ⟨hfst, hsnd⟩ := Virtq.newlyUsed_delivering hout hs1 hidx
  have hcount := congrArg List.length hfst
  rw [List.length_map, List.length_map] at hcount
  have hlengthHeads : heads.length = w.posted.length - w.used.length := by
    rw [← hheads, outstanding, List.length_drop]
  have hcountLe : (heads.take w.dev.pending.length).length ≤ heads.length :=
    List.length_take_le' _ _
  have htake : heads.take w.dev.pending.length =
      heads.take (heads.take w.dev.pending.length).length := by
    rw [List.length_take]
    rcases Nat.le_total w.dev.pending.length heads.length with hp | hp
    · rw [Nat.min_eq_left hp]
    · rw [Nat.min_eq_right hp, List.take_of_length_le hp, List.take_length]
  have hdrop : heads.drop w.dev.pending.length =
      heads.drop (heads.take w.dev.pending.length).length := by
    rw [List.length_take]
    rcases Nat.le_total w.dev.pending.length heads.length with hp | hp
    · rw [Nat.min_eq_left hp]
    · rw [Nat.min_eq_right hp, List.drop_eq_nil_of_le hp, List.drop_length]
  refine ⟨hs1.writes.window.ramWf hout.rings.wf, ?_, hposted, ?_, ?_, ?_, fun _ => ?_⟩
  · change _ ++ w.dev.pending.drop heads.length = _
    rw [List.map_append, hsnd, List.append_assoc, List.take_append_drop]
    exact hevents
  · dsimp only
    rw [List.length_append, hcount]
    omega
  · dsimp only
    rw [List.map_append, hfst, hids, List.length_append, hcount, List.take_add,
      List.map_append]
    rw [show w.posted.drop w.used.length = heads from hheads, ← htake]
  · intro hoff
    unfold queue at hoff
    rw [queues_processed, hs1.queue] at hoff
    exact Bool.noConfusion (hready.symm.trans hoff)
  · have hnewOut : outstanding { w with
        dev := w.dev.processed s (w.dev.pending.drop heads.length, s1), bus := s1.mem
        used := w.used ++ w.queue.newlyUsed w.bus s1.mem } =
          heads.drop (heads.take w.dev.pending.length).length := by
      unfold outstanding
      dsimp only
      rw [List.length_append, hcount, ← List.drop_drop]
      exact congrArg (List.drop _) hheads
    rw [hnewOut]
    unfold queue
    rw [queues_processed, hs1.queue]
    have hdropped := Virtq.Outstanding.drop (hsplit ▸ hout) hcountLe
    have hbounds := hout.rings.size.bounds
    refine hdropped.congr hs1.writes.window ?_ ?_ ?_
    · dsimp only
      exact Bytes.loadLe_congr _ _ _ _ fun i hi => hs1.inAvail hout ⟨by omega, by omega⟩
    · intro j hj
      have hlt := hout.rings.size.ringSize.slot_lt
        (w.queue.lastAvail + BitVec.ofNat 16 (heads.take w.dev.pending.length).length +
          BitVec.ofNat 16 j)
      have hqsz := hout.rings.toNat_qsz
      unfold Virtq.qsz at hqsz ⊢
      dsimp only
      exact Bytes.loadLe_congr _ _ _ _ fun i hi => hs1.inAvail hout ⟨by omega, by omega⟩
    · intro head hmem a ha
      rw [← hdrop] at hmem
      exact hs1.inDescs hout hmem ha

/-- A poll keeps the invariant. -/
theorem Inv.poll (h : w.Inv injected posted) (hstatus : w.StatusApart) {fuel : ℕ} {dev : Input}
    {b' : Bus D} (hpoll : w.dev.process t fuel w.bus = .done (dev, b')) :
    Inv injected posted { w with
      dev := dev, bus := b'
      used := w.used ++ if w.queue.ready then w.queue.newlyUsed w.bus b' else [] } := by
  rcases process_cases hpoll with ⟨rfl, rfl⟩ | ⟨s, s', hrun, hdeliver, rfl, rfl⟩
  · have hnone : (if w.queue.ready then w.queue.newlyUsed w.bus w.bus else []) = [] := by
      rw [Virtq.newlyUsed_self, ite_self]
    rw [hnone, List.append_nil]
    exact h
  · cases hready : w.queue.ready with
    | true => exact h.poll_live ht hready hstatus hrun hdeliver
    | false =>
      rw [deliver_of_not_ready hready] at hdeliver
      obtain rfl := Option.some.inj hdeliver
      have hwrites := Virtq.run_drop ht (s := w.dev.draining w.bus) h.wf
        (fun hactive => (hstatus hactive).1) hrun
      rw [if_neg Bool.false_ne_true, List.append_nil]
      obtain ⟨hwf, hevents, hposted, hle, hids, hidle, hlive⟩ := h
      have hsame : ∀ s', (w.dev.processed s (w.dev.pending, s')).queues queue0 = s'.q :=
        fun s' => queues_processed _ _ _
      refine ⟨hwrites.window.ramWf hwf, hevents, hposted, hle, hids, fun _ => hidle hready, ?_⟩
      intro hon
      exact Bool.noConfusion (hready.symm.trans hon)

/-- Every step keeps the invariant. -/
theorem inv_step {w' : InputWorld D} {action : InputAction D} (h : w.Inv injected posted)
    (hstep : Step t w action w') :
    w'.Inv (injected ++ action.events) (posted ++ action.heads) := by
  cases hstep with
  | key code down =>
    change Inv _ (posted ++ []) _
    rw [List.append_nil]
    exact h.inject (Input.queues_key _ _ _) (Input.pending_key _ _ _)
  | motion dx dy wheel =>
    change Inv _ (posted ++ []) _
    rw [List.append_nil]
    exact h.inject (Input.queues_motion _ _ _ _) (Input.pending_motion _ _ _ _)
  | access hreset hqueue =>
    change Inv (injected ++ []) (posted ++ []) _
    rw [List.append_nil, List.append_nil]
    exact h.access hqueue (Input.pending_write _ hreset)
  | configure hreset hold hnew hheads =>
    change Inv (injected ++ []) _ _
    rw [List.append_nil]
    exact h.configure hold hnew hheads (Input.pending_write _ hreset)
  | post hposts =>
    change Inv (injected ++ []) _ _
    rw [List.append_nil]
    exact h.post hposts
  | store hkeeps hidx =>
    change Inv (injected ++ []) (posted ++ []) _
    rw [List.append_nil, List.append_nil]
    exact h.store hkeeps hidx
  | poll hstatus hpoll =>
    change Inv (injected ++ []) (posted ++ []) _
    rw [List.append_nil, List.append_nil]
    exact h.poll ht hstatus hpoll

omit ht in
/-- In every build, over every run from a fresh device the events in the used buffers, in the
    order of the used ring, and then the pending ones are the injected events in order; and the
    used ring has the posted chains in order, so no chain twice. -/
theorem delivered_in_order {w0 : InputWorld D} {actions : List (InputAction D)} (hfresh : w0.Fresh)
    (hrun : Run (Step t) w0 actions w) :
    w.used.map Prod.snd ++ w.dev.pending = actions.flatMap InputAction.events ∧
      w.posted = actions.flatMap InputAction.heads ∧
      w.used.map Prod.fst <+: w.posted.map (·.setWidth 32) := by
  have hinv : w.Inv (actions.flatMap InputAction.events) (actions.flatMap InputAction.heads) := by
    induction hrun using Run.induction_last with
    | nil => exact hfresh.inv
    | snoc as w1 a w2 _ hstep ih =>
      rw [List.flatMap_append, List.flatMap_append, List.flatMap_singleton, List.flatMap_singleton]
      exact inv_step (t := t.wrapping) rfl ih hstep.wrapping
  refine ⟨hinv.events, hinv.posted, ?_⟩
  rw [hinv.ids, List.map_take]
  exact List.take_prefix _ _

end Poll

/-- A keyboard whose event queue of one entry is not ready yet, and RAM with one chain
    available: a buffer of 8 bytes for the device. -/
def keyWorld : InputWorld Empty where
  dev := { Input.new GicInner.new 49 .keyboard with
    queues := Function.update (fun _ => .default) queue0
      { num := 1, ready := false, desc := 0x40000000, avail := 0x40000100, used := 0x40000200,
        lastAvail := 0 } }
  bus :=
    { ram := { base := 0x40000000, size := 0x1000, bytes := fun a =>
        match a with
        | 0x001 => 0x03 | 0x003 => 0x40 | 0x008 => 8 | 0x00c => 2
        | 0x102 => 1
        | _ => 0 }
      devices := [] }
  posted := []
  used := []

/-- `keyWorld` with its queue ready, and a key pressed before. -/
def keyPressed : InputWorld Empty where
  dev := (keyWorld.dev.key 30 true).write 0x044 1
  bus := keyWorld.bus
  posted := [0]
  used := []

theorem outstanding_keyPressed : keyPressed.queue.Outstanding keyWorld.bus [0] := by
  have hdescs : keyPressed.queue.descs keyWorld.bus 0 = [0x40000000] := by decide +kernel
  have hbuffer : keyPressed.queue.buffer keyWorld.bus 0 = ⟨0x40000300, 8, true⟩ := by
    decide +kernel
  have hinDescs : ∀ a, keyPressed.queue.InDescs keyWorld.bus 0 a →
      0x40000000 ≤ a ∧ a < 0x40000010 := by
    rintro a ⟨d, hmem, hlo, hhi⟩
    rw [hdescs] at hmem
    obtain rfl := List.mem_singleton.mp hmem
    exact ⟨hlo, hhi⟩
  have hinBuffer : ∀ a, keyPressed.queue.InBuffer keyWorld.bus 0 a →
      0x40000300 ≤ a ∧ a < 0x40000308 := by
    intro a ha
    unfold Virtq.InBuffer at ha
    rw [hbuffer] at ha
    exact ha
  have hused : ∀ a, keyPressed.queue.InUsed a → 0x40000200 ≤ a ∧ a < 0x4000020c := fun a ha => ha
  have havail : ∀ a, keyPressed.queue.InAvail a → 0x40000100 ≤ a ∧ a < 0x40000106 :=
    fun a ha => ha
  refine ⟨⟨by unfold Bus.RamWf; decide, ⟨0, by decide, rfl⟩, by decide, by decide, ?_⟩,
    by decide +kernel, le_rfl, ?_, ?_, List.pairwise_singleton _ _⟩
  · intro a hu ha
    have := hused a hu
    have := havail a ha
    omega
  · intro j head hhead
    obtain ⟨rfl, rfl⟩ : j = 0 ∧ head = 0 := by
      cases j with
      | zero => exact ⟨rfl, (Option.some.inj hhead).symm⟩
      | succ j => cases hhead
    decide +kernel
  · intro head hmem
    obtain rfl := List.mem_singleton.mp hmem
    refine ⟨?_, ?_, ?_, ?_, ?_, ?_, ?_, ?_⟩
    · intro d hd
      rw [hdescs] at hd
      obtain rfl := List.mem_singleton.mp hd
      decide
    · rw [hbuffer]
    · rw [hbuffer]
      decide
    · rw [hbuffer]
      decide
    · intro a hd hu
      have := hinDescs a hd
      have := hused a hu
      omega
    · intro a hb hu
      have := hinBuffer a hb
      have := hused a hu
      omega
    · intro a hb ha
      have := hinBuffer a hb
      have := havail a ha
      omega
    · intro a hb hd
      have := hinBuffer a hb
      have := hinDescs a hd
      omega

theorem process_keyPressed : ∃ dev b',
    keyPressed.dev.process Target.debug64 0 keyPressed.bus = .done (dev, b') ∧
      keyPressed.queue.newlyUsed keyPressed.bus b' = [(0, ⟨evKey, 30, 1⟩)] := by
  have hused : (keyPressed.dev.process Target.debug64 0 keyPressed.bus).map
      (fun s => keyPressed.queue.newlyUsed keyPressed.bus s.2) =
        .done [(0, ⟨evKey, 30, 1⟩)] := by rfl
  obtain ⟨s, hprocess, hs⟩ := Outcome.bind_eq_done_iff.mp hused
  exact ⟨s.1, s.2, hprocess, Outcome.done.inj hs⟩

theorem delivered_in_order_keyWorld : ∃ w, Run (Step Target.debug64) keyWorld
    [.key 30 true, .configure 0x044 1 [0], .poll 0] w ∧ w.used = [(0, ⟨evKey, 30, 1⟩)] ∧
    w.used.map Prod.snd ++ w.dev.pending = [⟨evKey, 30, 1⟩, ⟨evSyn, 0, 0⟩] ∧ w.posted = [0] ∧
    w.used.map Prod.fst <+: w.posted.map (·.setWidth 32) := by
  obtain ⟨dev, b', hprocess, hused⟩ := process_keyPressed
  have hreset : ¬Input.IsReset 0x044 1 := by unfold Input.IsReset; decide
  have hstatus : keyPressed.StatusApart := fun h => absurd h.1 (by decide)
  have hrun : Run (Step Target.debug64) keyWorld [.key 30 true, .configure 0x044 1 [0], .poll 0]
      { dev := dev, bus := b', posted := [0], used := [(0, ⟨evKey, 30, 1⟩)] } := by
    refine .cons (.key 30 true) (.cons (.configure hreset rfl rfl outstanding_keyPressed)
      (.cons ?_ (.nil _)))
    have hpoll := Step.poll hstatus hprocess
    rw [hused] at hpoll
    exact hpoll
  refine ⟨_, hrun, rfl, ?_⟩
  exact delivered_in_order ⟨by unfold Bus.RamWf; decide, rfl, rfl, rfl, rfl⟩ hrun

end InputWorld

end V64.Platform
