import V64.Platform.Virtio.Notify
import V64.Platform.Virtio.Pop

/-!
# The event loop on its ring

The event queue of the input device over rings, descriptors and buffers that are apart
from each other. The loop matches the pending events with the posted chains, in order,
until one of the two runs out.

* `Outstanding`: the chains that are posted and not used yet.
* `view_writeEvent`, `eventAt_storeEvent`: the event in its buffer.
* `Delivering`, `delivering_serve`: the state after some of the events.
* `deliver_outstanding`: the whole loop.
-/

namespace V64.Platform

open Checked Loops V64.Interp

variable {D : Type}

/-! ## Posted chains -/

namespace Virtq

/-- The size of the rings as `pop` and `push_used` take it. -/
def qsz (q : Virtq) : BitVec 16 := q.num.setWidth 16

/-- The byte `a` is in the used ring. -/
def InUsed (q : Virtq) (a : ℕ) : Prop :=
  q.used.toNat ≤ a ∧ a < q.used.toNat + (4 + 8 * q.num.toNat)

/-- The byte `a` is in the available ring. -/
def InAvail (q : Virtq) (a : ℕ) : Prop :=
  q.avail.toNat ≤ a ∧ a < q.avail.toNat + (4 + 2 * q.num.toNat)

/-- The descriptors of the chain at `head`. -/
def descs (q : Virtq) (b : Bus D) (head : BitVec 16) : List (BitVec 64) :=
  visited b.view q.desc q.num.toNat head

/-- The byte `a` is in a descriptor of the chain at `head`. -/
def InDescs (q : Virtq) (b : Bus D) (head : BitVec 16) (a : ℕ) : Prop :=
  ∃ d ∈ q.descs b head, d.toNat ≤ a ∧ a < d.toNat + 16

/-- The buffer of the first descriptor of the chain at `head`. -/
def buffer (q : Virtq) (b : Bus D) (head : BitVec 16) : Seg :=
  descSeg b.view (descAddr q.desc head).toNat

/-- The byte `a` is one of the 8 bytes for an event in the buffer of the chain at `head`. -/
def InBuffer (q : Virtq) (b : Bus D) (head : BitVec 16) (a : ℕ) : Prop :=
  (q.buffer b head).addr.toNat ≤ a ∧ a < (q.buffer b head).addr.toNat + 8

/-- Rings in RAM, apart from each other, of a size that the transport allows. -/
structure Rings (q : Virtq) (b : Bus D) : Prop where
  wf : b.RamWf
  size : IsQueueSize q.num
  avail : b.InRam q.avail (4 + 2 * q.num.toNat)
  used : b.InRam q.used (4 + 8 * q.num.toNat)
  apart : ∀ a, q.InUsed a → ¬q.InAvail a

/-- A chain in RAM whose first descriptor is a device-writable buffer of at least 8 bytes,
    apart from the rings and from its own descriptors. -/
structure Postable (q : Virtq) (b : Bus D) (head : BitVec 16) : Prop where
  descs : ∀ d ∈ q.descs b head, b.InRam d 16
  writable : (q.buffer b head).writable = true
  len : 8 ≤ (q.buffer b head).len.toNat
  buffer : b.InRam (q.buffer b head).addr 8
  descsUsed : ∀ a, q.InDescs b head a → ¬q.InUsed a
  bufferUsed : ∀ a, q.InBuffer b head a → ¬q.InUsed a
  bufferAvail : ∀ a, q.InBuffer b head a → ¬q.InAvail a
  bufferDescs : ∀ a, q.InBuffer b head a → ¬q.InDescs b head a

/-- The buffer of the chain at `head` is apart from the chain at `head'`. -/
def Separate (q : Virtq) (b : Bus D) (head head' : BitVec 16) : Prop :=
  ∀ a, q.InBuffer b head a → ¬q.InDescs b head' a ∧ ¬q.InBuffer b head' a

/-- The chains at `heads` are posted and not used yet, in this order. -/
structure Outstanding (q : Virtq) (b : Bus D) (heads : List (BitVec 16)) : Prop where
  rings : q.Rings b
  idx : availIdx b.view q.avail.toNat = q.lastAvail + BitVec.ofNat 16 heads.length
  room : heads.length ≤ q.num.toNat
  slots : ∀ j head, heads[j]? = some head →
    availHead b.view q.avail.toNat ((q.lastAvail + BitVec.ofNat 16 j) % q.qsz) = head
  postable : ∀ head ∈ heads, q.Postable b head
  separate : heads.Pairwise fun head head' => q.Separate b head head' ∧ q.Separate b head' head

theorem Rings.toNat_qsz {q : Virtq} {b : Bus D} (h : q.Rings b) : q.qsz.toNat = q.num.toNat :=
  h.size.toNat_setWidth

/-- The first descriptor of a chain is that of its head. -/
theorem descAddr_mem_descs (q : Virtq) (b : Bus D) (head : BitVec 16) :
    descAddr q.desc head ∈ q.descs b head := by
  unfold descs
  cases q.num.toNat with
  | zero =>
    rw [visited_zero]
    exact List.mem_cons_self
  | succ fuel =>
    rw [visited_succ]
    exact List.mem_cons_self

theorem chainSegs_eq_cons (q : Virtq) (b : Bus D) (head : BitVec 16) :
    ∃ rest, chainSegs b.view q.desc q.num.toNat head = q.buffer b head :: rest := by
  unfold chainSegs buffer
  cases q.num.toNat with
  | zero =>
    rw [visited_zero]
    exact ⟨_, rfl⟩
  | succ fuel =>
    rw [visited_succ]
    exact ⟨_, rfl⟩

/-- A chain whose descriptors have not changed is the same chain. -/
theorem sameChain {q : Virtq} {b b' : Bus D} {head : BitVec 16}
    (h : ∀ a, q.InDescs b head a → b'.view a = b.view a) :
    q.descs b' head = q.descs b head ∧
      chainSegs b'.view q.desc q.num.toNat head = chainSegs b.view q.desc q.num.toNat head ∧
      q.buffer b' head = q.buffer b head := by
  have hsame : ∀ d ∈ visited b.view q.desc q.num.toNat head, SameDesc b.view b'.view d :=
    fun d hd i hi => h _ ⟨d, hd, by omega, by omega⟩
  obtain ⟨hdescs, hsegs⟩ := chain_congr hsame
  exact ⟨hdescs, hsegs, (descSeg_congr (hsame _ (descAddr_mem_descs q b head))).1⟩

/-- A chain whose descriptors have not changed can still be used. -/
theorem Postable.congr {q : Virtq} {b b' : Bus D} {head : BitVec 16} (h : q.Postable b head)
    (hwindow : b.SameWindow b') (hdescs : ∀ a, q.InDescs b head a → b'.view a = b.view a) :
    q.Postable b' head := by
  obtain ⟨hd, -, hbuf⟩ := sameChain hdescs
  have hin : ∀ a, q.InDescs b' head a → q.InDescs b head a := by
    rintro a ⟨d, hmem, hrange⟩
    exact ⟨d, hd ▸ hmem, hrange⟩
  have hinBuf : ∀ a, q.InBuffer b' head a → q.InBuffer b head a := by
    intro a ha
    unfold InBuffer at ha ⊢
    rwa [hbuf] at ha
  refine ⟨?_, ?_, ?_, ?_, fun a ha => h.descsUsed a (hin a ha), fun a ha =>
    h.bufferUsed a (hinBuf a ha), fun a ha => h.bufferAvail a (hinBuf a ha), fun a ha hda =>
    h.bufferDescs a (hinBuf a ha) (hin a hda)⟩
  · rw [hd]
    exact fun d hmem => hwindow.inRam (h.descs d hmem)
  · rw [hbuf]
    exact h.writable
  · rw [hbuf]
    exact h.len
  · rw [hbuf]
    exact hwindow.inRam h.buffer

theorem Separate.congr {q : Virtq} {b b' : Bus D} {head head' : BitVec 16}
    (h : q.Separate b head head') (hdescs : ∀ a, q.InDescs b head a → b'.view a = b.view a)
    (hdescs' : ∀ a, q.InDescs b head' a → b'.view a = b.view a) : q.Separate b' head head' := by
  obtain ⟨-, -, hbuf⟩ := sameChain hdescs
  obtain ⟨hd', -, hbuf'⟩ := sameChain hdescs'
  intro a ha
  unfold InBuffer at ha
  rw [hbuf] at ha
  have hboth := h a ha
  unfold InDescs InBuffer at hboth ⊢
  rwa [hd', hbuf']

/-- Where the index, the slots and the descriptors of the chains have not changed, they are
    still outstanding. -/
theorem Outstanding.congr {q : Virtq} {b b' : Bus D} {heads : List (BitVec 16)}
    (h : q.Outstanding b heads) (hwindow : b.SameWindow b')
    (hidx : availIdx b'.view q.avail.toNat = availIdx b.view q.avail.toNat)
    (hslots : ∀ j < heads.length,
      availHead b'.view q.avail.toNat ((q.lastAvail + BitVec.ofNat 16 j) % q.qsz) =
        availHead b.view q.avail.toNat ((q.lastAvail + BitVec.ofNat 16 j) % q.qsz))
    (hdescs : ∀ head ∈ heads, ∀ a, q.InDescs b head a → b'.view a = b.view a) :
    q.Outstanding b' heads where
  rings := ⟨hwindow.ramWf h.rings.wf, h.rings.size, hwindow.inRam h.rings.avail,
    hwindow.inRam h.rings.used, h.rings.apart⟩
  idx := hidx.trans h.idx
  room := h.room
  slots j head hhead :=
    (hslots j (List.getElem?_eq_some_iff.mp hhead).1).trans (h.slots j head hhead)
  postable head hmem := (h.postable head hmem).congr hwindow (hdescs head hmem)
  separate := by
    refine h.separate.imp_of_mem ?_
    intro head head' hmem hmem' hsep
    exact ⟨hsep.1.congr (hdescs head hmem) (hdescs head' hmem'),
      hsep.2.congr (hdescs head' hmem') (hdescs head hmem)⟩

/-- After the first `k` chains the others are outstanding. -/
theorem Outstanding.drop {q : Virtq} {b : Bus D} {heads : List (BitVec 16)}
    (h : q.Outstanding b heads) {k : ℕ} (hk : k ≤ heads.length) :
    Outstanding { q with lastAvail := q.lastAvail + BitVec.ofNat 16 k } b (heads.drop k) where
  rings := ⟨h.rings.wf, h.rings.size, h.rings.avail, h.rings.used, h.rings.apart⟩
  idx := by
    dsimp only
    rw [h.idx, List.length_drop, BitVec.add_assoc, ← BitVec.ofNat_add, Nat.add_sub_cancel' hk]
  room := by
    rw [List.length_drop]
    exact (Nat.sub_le _ _).trans h.room
  slots j head hhead := by
    rw [List.getElem?_drop] at hhead
    have hslot := h.slots (k + j) head hhead
    rw [BitVec.ofNat_add, ← BitVec.add_assoc] at hslot
    exact hslot
  postable head hmem :=
    have hpost := h.postable head (List.mem_of_mem_drop hmem)
    ⟨hpost.descs, hpost.writable, hpost.len, hpost.buffer, hpost.descsUsed, hpost.bufferUsed,
      hpost.bufferAvail, hpost.bufferDescs⟩
  separate := h.separate.drop

/-- One chain more, behind the others. -/
theorem Outstanding.append {q : Virtq} {b : Bus D} {heads : List (BitVec 16)} {head : BitVec 16}
    (hrings : q.Rings b) (hroom : heads.length < q.num.toNat)
    (hidx : availIdx b.view q.avail.toNat = q.lastAvail + BitVec.ofNat 16 heads.length + 1)
    (hslots : ∀ j h', heads[j]? = some h' →
      availHead b.view q.avail.toNat ((q.lastAvail + BitVec.ofNat 16 j) % q.qsz) = h')
    (hpostable : ∀ h' ∈ heads, q.Postable b h')
    (hseparate : heads.Pairwise fun h' h'' => q.Separate b h' h'' ∧ q.Separate b h'' h')
    (hslot : availHead b.view q.avail.toNat
      ((q.lastAvail + BitVec.ofNat 16 heads.length) % q.qsz) = head)
    (hhead : q.Postable b head)
    (hapart : ∀ h' ∈ heads, q.Separate b h' head ∧ q.Separate b head h') :
    q.Outstanding b (heads ++ [head]) where
  rings := hrings
  idx := by
    rw [hidx, List.length_append, List.length_singleton, BitVec.ofNat_add, BitVec.add_assoc]
    rfl
  room := by
    rw [List.length_append, List.length_singleton]
    exact hroom
  slots j h' hh' := by
    rcases Nat.lt_or_ge j heads.length with hlt | hge
    · rw [List.getElem?_append_left hlt] at hh'
      exact hslots j h' hh'
    · rw [List.getElem?_append_right hge] at hh'
      obtain rfl : j = heads.length := by
        have hj := (List.getElem?_eq_some_iff.mp hh').1
        rw [List.length_singleton] at hj
        omega
      rw [Nat.sub_self] at hh'
      obtain rfl := Option.some.inj hh'
      exact hslot
  postable h' hmem := by
    rcases List.mem_append.mp hmem with hold | hnew
    · exact hpostable h' hold
    · obtain rfl := List.mem_singleton.mp hnew
      exact hhead
  separate := by
    refine List.pairwise_append.mpr ⟨hseparate, List.pairwise_singleton _ _, ?_⟩
    intro h' hmem h'' hmem'
    obtain rfl := List.mem_singleton.mp hmem'
    exact hapart h' hmem

end Virtq

/-! ## An event in its buffer -/

/-- The event in the 8 bytes at `a`. -/
def eventAt (mem : ℕ → BitVec 8) (a : ℕ) : InputEvent where
  ty := Bytes.loadLe 16 mem a 2
  code := Bytes.loadLe 16 mem (a + 2) 2
  value := Bytes.loadLe 32 mem (a + 4) 4

/-- The bytes of memory with the event `e` at `a`. -/
def storeEvent (mem : ℕ → BitVec 8) (a : ℕ) (e : InputEvent) : ℕ → BitVec 8 :=
  Bytes.storeLe (Bytes.storeLe (Bytes.storeLe mem a 2 e.ty) (a + 2) 2 e.code) (a + 4) 4 e.value

theorem eventAt_storeEvent (mem : ℕ → BitVec 8) (a : ℕ) (e : InputEvent) :
    eventAt (storeEvent mem a e) a = e := by
  unfold eventAt storeEvent
  rw [Bytes.loadLe_storeLe_disjoint _ _ _ _ _ _ (by omega),
    Bytes.loadLe_storeLe_disjoint _ _ _ _ _ _ (by omega), Bytes.loadLe_storeLe _ _ _ _ (by decide),
    Bytes.loadLe_storeLe_disjoint _ _ _ _ _ _ (by omega), Bytes.loadLe_storeLe _ _ _ _ (by decide),
    Bytes.loadLe_storeLe _ _ _ _ (by decide), BitVec.setWidth_eq, BitVec.setWidth_eq,
    BitVec.setWidth_eq]

theorem storeEvent_of_not_mem (mem : ℕ → BitVec 8) {a i : ℕ} (e : InputEvent)
    (h : i < a ∨ a + 8 ≤ i) : storeEvent mem a e i = mem i := by
  unfold storeEvent
  rw [Bytes.storeLe_of_not_mem _ _ _ _ (by omega), Bytes.storeLe_of_not_mem _ _ _ _ (by omega),
    Bytes.storeLe_of_not_mem _ _ _ _ (by omega)]

theorem eventAt_congr {mem mem' : ℕ → BitVec 8} {a : ℕ}
    (h : ∀ i, a ≤ i → i < a + 8 → mem' i = mem i) : eventAt mem' a = eventAt mem a := by
  unfold eventAt
  rw [Bytes.loadLe_congr mem' mem a 2 fun i hi => h _ (by omega) (by omega),
    Bytes.loadLe_congr mem' mem (a + 2) 2 fun i hi => h _ (by omega) (by omega),
    Bytes.loadLe_congr mem' mem (a + 4) 4 fun i hi => h _ (by omega) (by omega)]

namespace Input

variable [MmioDevice D] {t : Target} (ht : t.overflowChecks = false)

include ht

theorem view_writeEvent {b : Bus D} (hwf : b.RamWf) {addr : BitVec 64} (hram : b.InRam addr 8)
    (e : InputEvent) : ∃ b', writeEvent t addr e b = some b' ∧ b.SameWindow b' ∧
      b'.view = storeEvent b.view addr.toNat e := by
  have htypeRam : b.InRam addr 2 := ⟨hram.1, by have := hram.2; omega⟩
  obtain ⟨hcode, hcodeRam⟩ := hram.sub hwf (o := 2) (k := 2) (by decide)
  obtain ⟨hvalue, hvalueRam⟩ := hram.sub hwf (o := 4) (k := 4) (by decide)
  have hcodeNat : (addr + 2).toNat = addr.toNat + 2 := hcode
  have hvalueNat : (addr + 4).toNat = addr.toNat + 4 := hvalue
  unfold writeEvent
  simp only [Target.add_of_wrap ht, Option.bind_eq_bind, Option.bind_some]
  generalize hb1 : GuestMem.writeU16 b addr e.ty = b1
  have hwin1 : b.SameWindow b1 := hb1 ▸ Bus.sameWindow_store hwf _ _ _
  have hview1 := hb1 ▸ Bus.view_writeU16 hwf htypeRam e.ty
  have hwf1 := hwin1.ramWf hwf
  generalize hb2 : GuestMem.writeU16 b1 (addr + 2) e.code = b2
  have hwin2 : b1.SameWindow b2 := hb2 ▸ Bus.sameWindow_store hwf1 _ _ _
  have hview2 := hb2 ▸ Bus.view_writeU16 hwf1 (hwin1.inRam hcodeRam) e.code
  have hwf2 := hwin2.ramWf hwf1
  have hview3 := Bus.view_writeU32 hwf2 (hwin2.inRam (hwin1.inRam hvalueRam)) e.value
  refine ⟨_, rfl, (hwin1.trans hwin2).trans (Bus.sameWindow_store hwf2 _ _ _), ?_⟩
  rw [hview3, hview2, hview1, hcodeNat, hvalueNat]
  rfl

end Input

/-! ## The loop -/

namespace Virtq

/-- The state of the loop after the chains at `heads` were used for `events`. -/
structure Delivering (q : Virtq) (b : Bus D) (heads : List (BitVec 16)) (events : List InputEvent)
    (s : Draining Unit (Bus D)) : Prop where
  queue : s.q = { q with lastAvail := q.lastAvail + BitVec.ofNat 16 heads.length }
  writes : b.OnlyWrites (fun a => q.InUsed a ∨ ∃ head ∈ heads, q.InBuffer b head a) s.mem
  completed : Completed b.view q.used.toNat q.qsz heads s.mem.view
  events : heads.map (fun head => eventAt s.mem.view (q.buffer b head).addr.toNat) = events

theorem delivering_nil {q : Virtq} {b : Bus D} (raised : Bool) :
    q.Delivering b [] [] ⟨q, raised, (), b⟩ where
  queue := by
    rw [List.length_nil]
    exact congrArg (fun l => ({ q with lastAvail := l } : Virtq)) (BitVec.add_zero _).symm
  writes := .refl b
  completed := .nil _ _ _
  events := rfl

section Loop

variable {q : Virtq} {b : Bus D} {done rest : List (BitVec 16)} {events : List InputEvent}
  {s : Draining Unit (Bus D)}

/-- The device leaves the available ring alone. -/
theorem Delivering.inAvail (h : q.Outstanding b (done ++ rest)) (hs : q.Delivering b done events s)
    {a : ℕ} (ha : q.InAvail a) : s.mem.view a = b.view a := by
  refine hs.writes.view a ?_
  rintro (hused | ⟨head, hmem, hbuf⟩)
  · exact h.rings.apart a hused ha
  · exact (h.postable head (List.mem_append_left _ hmem)).bufferAvail a hbuf ha

/-- The device leaves the descriptors of the chains that are not used yet alone. -/
theorem Delivering.inDescs (h : q.Outstanding b (done ++ rest)) (hs : q.Delivering b done events s)
    {head : BitVec 16} (hhead : head ∈ rest) {a : ℕ} (ha : q.InDescs b head a) :
    s.mem.view a = b.view a := by
  refine hs.writes.view a ?_
  rintro (hused | ⟨used, hmem, hbuf⟩)
  · exact (h.postable head (List.mem_append_right _ hhead)).descsUsed a ha hused
  · have hseparate := (List.pairwise_append.mp h.separate).2.2 used hmem head hhead
    exact (hseparate.1 a hbuf).1 ha

variable [MmioDevice D] {t : Target} (ht : t.overflowChecks = false)

include ht

theorem delivering_pop {head : BitVec 16} (hready : q.ready = true)
    (h : q.Outstanding b (done ++ head :: rest)) (hs : q.Delivering b done events s) :
    s.q.pop t s.mem = some (some (head, chainSegs b.view q.desc q.num.toNat head),
      { s.q with lastAvail := s.q.lastAvail + 1 }, s.mem) := by
  have hwf := hs.writes.window.ramWf h.rings.wf
  have hbounds := h.rings.size.bounds
  have havail : s.mem.InRam s.q.avail (4 + 2 * s.q.num.toNat) := by
    rw [hs.queue]
    exact hs.writes.window.inRam h.rings.avail
  have hlength : (done ++ head :: rest).length = done.length + (rest.length + 1) := by
    rw [List.length_append, List.length_cons]
  have hroom := h.room
  rw [hlength] at hroom
  have hidx : availIdx s.mem.view q.avail.toNat = availIdx b.view q.avail.toNat :=
    Bytes.loadLe_congr _ _ _ _ fun i hi =>
      hs.inAvail h ⟨by omega, by omega⟩
  have hnew : s.q.lastAvail ≠ availIdx s.mem.view s.q.avail.toNat := by
    rw [hs.queue]
    dsimp only
    rw [hidx, h.idx, hlength]
    intro heq
    have hnat := congrArg BitVec.toNat ((BitVec.add_right_inj _).mp heq)
    rw [BitVec.toNat_ofNat, BitVec.toNat_ofNat, Nat.mod_eq_of_lt (by omega),
      Nat.mod_eq_of_lt (by omega)] at hnat
    omega
  have hslot :
      availHead s.mem.view s.q.avail.toNat (s.q.lastAvail % s.q.num.setWidth 16) = head := by
    have hentry := h.slots done.length head (by
      rw [List.getElem?_append_right le_rfl, Nat.sub_self, List.getElem?_cons_zero])
    rw [hs.queue]
    dsimp only
    rw [← hentry]
    have hlt := h.rings.size.ringSize.slot_lt (q.lastAvail + BitVec.ofNat 16 done.length)
    have hqsz := h.rings.toNat_qsz
    unfold qsz at hqsz ⊢
    refine Bytes.loadLe_congr _ _ _ _ fun i hi => ?_
    exact hs.inAvail h ⟨by omega, by omega⟩
  obtain ⟨hdescs, hsegs, -⟩ := @sameChain D q b s.mem head fun a ha =>
    hs.inDescs h List.mem_cons_self ha
  have hgather : gather t s.q.desc s.q.num.toNat head s.mem =
      some (chainSegs b.view q.desc q.num.toNat head, s.mem) := by
    rw [hs.queue]
    dsimp only
    rw [← hsegs]
    refine (gathers ht hwf q.desc).of_visited fun d hd => ?_
    have hmem : d ∈ q.descs b head := hdescs ▸ hd
    exact hs.writes.window.inRam
      ((h.postable head (List.mem_append_right _ List.mem_cons_self)).descs d hmem)
  refine pop_of_gather ht hwf ?_ ?_ havail hnew hslot hgather
  · rw [hs.queue]
    exact hready
  · rw [hs.queue]
    exact h.rings.size

/-- One event: the loop takes the next chain and uses its buffer. -/
theorem delivering_serve {head : BitVec 16} (hready : q.ready = true)
    (h : q.Outstanding b (done ++ head :: rest)) (hs : q.Delivering b done events s)
    (e : InputEvent) : ∃ segs s',
      s.q.pop t s.mem =
          some (some (head, segs), { s.q with lastAvail := s.q.lastAvail + 1 }, s.mem) ∧
      Input.serveEvent t e head segs { s with q := { s.q with lastAvail := s.q.lastAvail + 1 } } =
        some s' ∧
      q.Delivering b (done ++ [head]) (events ++ [e]) s' := by
  have hwf := hs.writes.window.ramWf h.rings.wf
  have hpost := h.postable head (List.mem_append_right _ List.mem_cons_self)
  have hqsz := h.rings.toNat_qsz
  have hroom := h.room
  rw [List.length_append, List.length_cons] at hroom
  obtain ⟨rest', hsegs⟩ := chainSegs_eq_cons q b head
  have hpop := delivering_pop ht hready h hs
  rw [hsegs] at hpop
  -- the event in its buffer
  obtain ⟨b1, hevent, hwin1, hview1⟩ := Input.view_writeEvent ht hwf
    (hs.writes.window.inRam hpost.buffer) e
  have hwrites1 : s.mem.OnlyWrites (q.InBuffer b head) b1 := by
    refine ⟨hwin1, fun a ha => ?_⟩
    rw [hview1]
    refine storeEvent_of_not_mem _ _ ?_
    by_contra hcon
    exact ha ⟨by omega, by omega⟩
  have hwf1 := hwin1.ramWf hwf
  have hcompleted1 : Completed b.view q.used.toNat q.qsz done b1.view := by
    refine hs.completed.congr h.rings.size.ringSize fun a hlo hhi => hwrites1.view a fun hbuf => ?_
    exact hpost.bufferUsed a hbuf ⟨hlo, by omega⟩
  -- the completion
  have husedRam : b1.InRam q.used (4 + 8 * q.qsz.toNat) := by
    rw [hqsz]
    exact hwin1.inRam (hs.writes.window.inRam h.rings.used)
  have hne : q.qsz ≠ 0 := h.rings.size.ne_zero
  obtain ⟨b2, hpush, hwin2, hview2, -⟩ := view_pushUsed ht hwf1 hne husedRam head 8
  have hslot : (usedIdx b1.view q.used.toNat % q.qsz).toNat < q.qsz.toNat :=
    h.rings.size.ringSize.slot_lt _
  have hwrites2 : b1.OnlyWrites q.InUsed b2 := by
    refine ⟨hwin2, fun a ha => ?_⟩
    unfold InUsed at ha
    rw [hview2]
    refine pushed_of_not_mem _ _ _ _ _ ?_ ?_
    · omega
    · unfold usedSlot
      omega
  have hcompleted2 := hcompleted1.push h.rings.size.ringSize (by rw [hqsz]; omega) head 8
  rw [← hview2] at hcompleted2
  have hs1 : Input.serveEvent t e head (q.buffer b head :: rest')
      { s with q := { s.q with lastAvail := s.q.lastAvail + 1 } } =
        some ⟨{ s.q with lastAvail := s.q.lastAvail + 1 }, true, (), b2⟩ := by
    unfold Input.serveEvent pushUsed
    dsimp only
    rw [hevent, Option.bind_eq_bind, Option.bind_some]
    rw [hs.queue]
    dsimp only
    unfold qsz at hpush
    rw [hpush]
    rfl
  refine ⟨_, _, hpop, hs1, ?_, ?_, hcompleted2, ?_⟩
  · dsimp only
    rw [hs.queue, List.length_append, List.length_singleton, BitVec.ofNat_add, ← BitVec.add_assoc]
    rfl
  · have hfirst : b.OnlyWrites (fun a => q.InUsed a ∨ ∃ h' ∈ done ++ [head], q.InBuffer b h' a)
        s.mem := by
      refine hs.writes.mono ?_
      rintro a (hused | ⟨h', hmem, hbuf⟩)
      · exact .inl hused
      · exact .inr ⟨h', List.mem_append_left _ hmem, hbuf⟩
    refine (hfirst.trans (hwrites1.mono fun a ha => ?_)).trans (hwrites2.mono fun a ha => .inl ha)
    exact .inr ⟨head, List.mem_append_right _ List.mem_cons_self, ha⟩
  · rw [List.map_append, List.map_singleton]
    have hold : done.map (fun h' => eventAt b2.view (q.buffer b h').addr.toNat) =
        done.map (fun h' => eventAt s.mem.view (q.buffer b h').addr.toNat) := by
      refine List.map_congr_left fun h' hmem => eventAt_congr fun a hlo hhi => ?_
      have hbuf : q.InBuffer b h' a := ⟨hlo, hhi⟩
      have hold := h.postable h' (List.mem_append_left _ hmem)
      have hseparate := (List.pairwise_append.mp h.separate).2.2 h' hmem head List.mem_cons_self
      rw [hwrites2.view a (hold.bufferUsed a hbuf), hwrites1.view a (hseparate.1 a hbuf).2]
    have hnew : eventAt b2.view (q.buffer b head).addr.toNat = e := by
      rw [← eventAt_storeEvent s.mem.view (q.buffer b head).addr.toNat e, ← hview1]
      refine eventAt_congr fun a hlo hhi => hwrites2.view a ?_
      exact hpost.bufferUsed a ⟨hlo, hhi⟩
    rw [hold, hs.events, hnew]

/-- The loop from some point on: it uses as many chains as there are events, or all. -/
theorem deliver_delivering (hready : q.ready = true) (h : q.Outstanding b (done ++ rest))
    (hs : q.Delivering b done events s) (pending : List InputEvent) :
    ∃ s', Input.deliver t pending s = some (pending.drop rest.length, s') ∧
      q.Delivering b (done ++ rest.take pending.length) (events ++ pending.take rest.length)
        s' := by
  induction pending generalizing done rest events s with
  | nil =>
    refine ⟨s, by rw [Input.deliver, List.drop_nil], ?_⟩
    rw [List.length_nil, List.take_zero, List.take_nil, List.append_nil, List.append_nil]
    exact hs
  | cons e pending ih =>
    cases rest with
    | nil =>
      have hwf := hs.writes.window.ramWf h.rings.wf
      have hidle : s.q.lastAvail = availIdx s.mem.view s.q.avail.toNat := by
        have hidx : availIdx s.mem.view q.avail.toNat = availIdx b.view q.avail.toNat :=
          Bytes.loadLe_congr _ _ _ _ fun i hi => hs.inAvail h ⟨by omega, by omega⟩
        rw [hs.queue]
        dsimp only
        rw [hidx, h.idx, List.append_nil]
      have havail : s.mem.InRam s.q.avail (4 + 2 * s.q.num.toNat) := by
        rw [hs.queue]
        exact hs.writes.window.inRam h.rings.avail
      refine ⟨s, ?_, ?_⟩
      · rw [Input.deliver, pop_of_idle ht hwf havail hidle]
        rfl
      · rw [List.take_nil, List.length_nil, List.take_zero, List.append_nil, List.append_nil]
        exact hs
    | cons head rest =>
      obtain ⟨segs, s1, hpop, hserve, hs1⟩ := delivering_serve ht hready h hs e
      have h1 : q.Outstanding b ((done ++ [head]) ++ rest) := by
        rw [List.append_assoc, List.singleton_append]
        exact h
      obtain ⟨s', hdeliver, hs'⟩ := ih h1 hs1
      refine ⟨s', ?_, ?_⟩
      · rw [Input.deliver, hpop, Option.bind_eq_bind, Option.bind_some]
        dsimp only
        rw [hserve, Option.bind_eq_bind, Option.bind_some, hdeliver]
        rfl
      · rw [List.append_assoc, List.append_assoc, List.singleton_append,
          List.singleton_append] at hs'
        exact hs'

/-- The whole loop. -/
theorem deliver_outstanding (hready : q.ready = true) {heads : List (BitVec 16)}
    (h : q.Outstanding b heads) (pending : List InputEvent) (raised : Bool) :
    ∃ s', Input.deliver t pending ⟨q, raised, (), b⟩ = some (pending.drop heads.length, s') ∧
      q.Delivering b (heads.take pending.length) (pending.take heads.length) s' :=
  @deliver_delivering D q b [] heads [] _ _ t ht hready h (delivering_nil raised) pending

end Loop

end Virtq

end V64.Platform
