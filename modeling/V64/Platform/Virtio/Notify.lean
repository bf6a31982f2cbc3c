import V64.Platform.Virtio.Frames
import V64.Platform.Virtio.Rings

/-!
# One notification

Each pass of a draining loop reads the available index again. What the device writes
can land on it, and then nothing bounds the loop.

* `KeepsIndex`: serving the next chain writes no byte of the available index.
* `run_drainPass`: where every chain served keeps the index, the loop ends after fewer
  than `2 ^ 16` chains.
* `Input.deliver_isSome`: the event queue takes no more chains than there are events.
* `ZeroPage.drainPass_eq`: one pass over a page with a queue of one entry.
-/

namespace V64.Platform

open Checked Loops V64.Interp

variable {D : Type} [MmioDevice D] {t : Target} {τ : Type}

/-! ## The available index -/

namespace Virtq

/-- The available index as the device reads it, outside the device windows. -/
def index (q : Virtq) (b : Bus D) : BitVec 16 :=
  if b.InRam (q.avail + 2) 2 then Bytes.loadLe 16 b.view (q.avail + 2).toNat 2 else 0

/-- `a` is a byte of the available index. -/
def InIndex (q : Virtq) (a : ℕ) : Prop := (q.avail + 2).toNat ≤ a ∧ a < (q.avail + 2).toNat + 2

omit [MmioDevice D] in
theorem index_congr {q : Virtq} {P : ℕ → Prop} {b b' : Bus D} (h : b.OnlyWrites P b')
    (hP : ∀ a, q.InIndex a → ¬P a) : q.index b' = q.index b := by
  have hin : b'.InRam (q.avail + 2) 2 ↔ b.InRam (q.avail + 2) 2 := by
    unfold Bus.InRam
    rw [h.window.base, h.window.size]
  have hload : Bytes.loadLe 16 b'.view (q.avail + 2).toNat 2 =
      Bytes.loadLe 16 b.view (q.avail + 2).toNat 2 := by
    refine Bytes.loadLe_congr _ _ _ _ fun i hi => h.view _ (hP _ ?_)
    unfold InIndex
    omega
  unfold index
  simp only [hin, hload]

/-- `pop` takes a chain exactly when the index has moved on. -/
theorem pop_frame (ht : t.overflowChecks = false) {q : Virtq} (hq : q.SizeOk) {b : Bus D}
    (hwf : b.RamWf) (hindex : ∀ i, b.route (q.avail + 2) ≠ .device i) :
    q.pop t b = some (none, q, b) ∨ q.lastAvail ≠ q.index b ∧ ∃ chain b',
      q.pop t b = some (some chain, { q with lastAvail := q.lastAvail + 1 }, b') ∧
        b'.ram = b.ram := by
  have hread : GuestMem.readU16 b (q.avail + 2) = (q.index b, b) :=
    Bus.readU16_of_not_device hwf hindex
  unfold pop
  split_ifs with hoff
  · exact .inl rfl
  · have hnum := hq.num_ne_zero (not_or.mp hoff).2
    simp only [Target.add_of_wrap ht, Option.bind_eq_bind, Option.bind_some, hread]
    split_ifs with hidle
    · exact .inl rfl
    · refine .inr ⟨hidle, ?_⟩
      unfold take
      simp only [Target.add_of_wrap ht, rem_eq_some hnum, Option.bind_eq_bind, Option.bind_some]
      obtain ⟨segs, b', hgather, hram⟩ := gather_frame ht q.desc q.num.toNat
        (GuestMem.readU16 b (q.avail + 4 + (q.lastAvail % q.num.setWidth 16).setWidth 64 * 2)).1
        (GuestMem.readU16 b (q.avail + 4 + (q.lastAvail % q.num.setWidth 16).setWidth 64 * 2)).2
      rw [hgather]
      exact ⟨_, b', rfl, hram.trans (Bus.ram_reads _ _).2.1⟩

end Virtq

/-! ## A draining loop -/

/-- Serving the next chain writes no byte of the available index. `writes` are the
    bytes that serving a chain may write, `allocates` says that the host buffers it
    needs can be allocated. -/
structure KeepsIndex (t : Target) (serve : Serve τ (Bus D))
    (writes : τ → Bus D → List Seg → ℕ → Prop) (allocates : τ → Bus D → List Seg → Prop)
    (s : Draining τ (Bus D)) : Prop where
  ram : ∀ i, s.mem.route (s.q.avail + 2) ≠ .device i
  allocates : ∀ head segs q b, s.q.pop t s.mem = some (some (head, segs), q, b) →
    allocates s.dev b segs
  buffers : ∀ head segs q b, s.q.pop t s.mem = some (some (head, segs), q, b) →
    ∀ a, s.q.InIndex a → ¬writes s.dev b segs a
  used : ∀ head segs q b, s.q.pop t s.mem = some (some (head, segs), q, b) →
    ∀ written dev b', serve s.dev b segs = some (written, dev, b') →
      ∀ a, s.q.InIndex a → ¬usedWrites s.q.used (s.q.num.setWidth 16) b' a

section Drain

variable {serve : Serve τ (Bus D)} {writes : τ → Bus D → List Seg → ℕ → Prop}
  {allocates : τ → Bus D → List Seg → Prop}

/-- A pass leaves the loop, or serves a chain and leaves the available index alone. -/
theorem drainPass_frame (ht : t.overflowChecks = false) (hserve : ServeFrame serve writes allocates)
    {s : Draining τ (Bus D)} (hwf : s.mem.RamWf) (hq : s.q.SizeOk)
    (h : KeepsIndex t serve writes allocates s) :
    drainPass t serve s = some (.leave s) ∨
      s.q.lastAvail ≠ s.q.index s.mem ∧ ∃ dev b', b'.RamWf ∧ s.q.index b' = s.q.index s.mem ∧
        drainPass t serve s =
          some (.again ⟨{ s.q with lastAvail := s.q.lastAvail + 1 }, true, dev, b'⟩) := by
  unfold drainPass
  rcases Virtq.pop_frame ht hq hwf h.ram with hpop | ⟨hne, ⟨head, segs⟩, b1, hpop, hram⟩
  · rw [hpop]
    exact .inl rfl
  · have hpopFrame : s.mem.OnlyWrites (fun _ => False) b1 := .of_ram hram
    have hwf1 := hpopFrame.window.ramWf hwf
    obtain ⟨⟨written, dev, b2⟩, hrun, hserveFrame⟩ :=
      hserve s.dev b1 segs hwf1 (h.allocates _ _ _ _ hpop)
    have hwf2 := hserveFrame.window.ramWf hwf1
    obtain ⟨b3, hpush, hpushFrame⟩ := pushUsedAt_frame ht
      (hq.num_ne_zero (Virtq.pop_eq_some hpop).1) hwf2 head written
    refine .inr ⟨hne, dev, b3, hpushFrame.window.ramWf hwf2, ?_, ?_⟩
    · have hpop1 := Virtq.index_congr (q := s.q) hpopFrame fun _ _ h => h
      have hserve1 := Virtq.index_congr (q := s.q) hserveFrame (h.buffers _ _ _ _ hpop)
      have hpush1 := Virtq.index_congr (q := s.q) hpushFrame (h.used _ _ _ _ hpop _ _ _ hrun)
      exact hpush1.trans (hserve1.trans hpop1)
    · rw [hpop]
      dsimp only [Option.bind_eq_bind, Option.bind_some]
      rw [hrun]
      dsimp only [Option.bind_some]
      unfold Virtq.pushUsed
      rw [hpush]
      rfl

/-- A draining loop whose requests all keep the available index serves as many chains as
    the index was ahead, which is fewer than `2 ^ 16`. It ends as it stands after the last
    of them. -/
theorem run_drainPass (ht : t.overflowChecks = false) (hserve : ServeFrame serve writes allocates)
    {s : Draining τ (Bus D)} (hwf : s.mem.RamWf) (hq : s.q.SizeOk)
    (h : Always (drainPass t serve) (KeepsIndex t serve writes allocates) s) :
    ∃ s', run (drainPass t serve) 65535 s = .done s' ∧ s'.mem.RamWf ∧
      ∃ n, Visits (drainPass t serve) n s s' := by
  have hstep : ∀ s s', KeepsIndex t serve writes allocates s → s.mem.RamWf ∧ s.q.SizeOk →
      drainPass t serve s = some (.again s') → s'.mem.RamWf ∧ s'.q.SizeOk := by
    rintro s s' hkeeps ⟨hwf, hq⟩ hagain
    rcases drainPass_frame ht hserve hwf hq hkeeps with h1 | ⟨-, dev, b', hwf', -, h1⟩
    · rw [hagain] at h1
      cases h1
    · rw [hagain] at h1
      cases h1
      exact ⟨hwf', hq⟩
  have hinv := h.and ⟨hwf, hq⟩ hstep
  have hends : ∃ s', run (drainPass t serve) 65535 s = .done s' ∧ True := by
    refine exists_run_eq_done (Q := fun _ => True)
      (fun s => (s.q.index s.mem - s.q.lastAvail).toNat) ?_ hinv
      (Nat.le_of_lt_succ (BitVec.isLt _))
    intro s hs
    obtain ⟨hkeeps, hwf, hq⟩ := hs.here
    rcases drainPass_frame ht hserve hwf hq hkeeps with
      hleave | ⟨hne, dev, b', -, hindex, hagain⟩
    · exact .inl ⟨s, hleave, trivial⟩
    · refine .inr ⟨_, hagain, ?_⟩
      have hdiff : ({ s.q with lastAvail := s.q.lastAvail + 1 } : Virtq).index b' =
          s.q.index s.mem := hindex
      dsimp only
      rw [hdiff]
      bv_omega
  obtain ⟨s', hrun, -⟩ := hends
  obtain ⟨n, -, s1, hvisits, hleave⟩ := run_eq_done_iff.mp hrun
  -- a pass that leaves the loop changes nothing
  obtain ⟨hkeeps, hwf1, hq1⟩ := hinv n s1 hvisits
  rcases drainPass_frame ht hserve hwf1 hq1 hkeeps with hsame | ⟨-, _, _, -, -, hagain⟩
  · obtain rfl : s' = s1 := by
      cases hleave.symm.trans hsame
      rfl
    exact ⟨s', hrun, hwf1, n, hvisits⟩
  · cases hleave.symm.trans hagain

end Drain

/-! ## The devices -/

/-- Dropping a chain writes nothing, and needs no host buffer. -/
abbrev KeepsIndexDropping (t : Target) (serve : Serve τ (Bus D)) (s : Draining τ (Bus D)) : Prop :=
  KeepsIndex t serve (fun _ _ _ _ => False) (fun _ _ _ => True) s

namespace Input

theorem serveEvent_isSome {M : Type} [GuestMem M] (ht : t.overflowChecks = false) (e : InputEvent)
    (head : BitVec 16) (segs : List Seg) {s : Draining Unit M}
    (hq : s.q.num.setWidth 16 ≠ (0 : BitVec 16)) :
    ∃ s', serveEvent t e head segs s = some s' ∧ s'.q = s.q := by
  unfold serveEvent
  cases segs with
  | nil => exact ⟨s, rfl, rfl⟩
  | cons seg rest =>
    dsimp only
    unfold writeEvent
    simp only [Target.add_of_wrap ht, Option.bind_eq_bind, Option.bind_some, Option.pure_def]
    obtain ⟨mem, hmem⟩ := Virtq.pushUsed_isSome ht hq
      (GuestMem.writeU32 (GuestMem.writeU16 (GuestMem.writeU16 s.mem seg.addr e.ty)
        (seg.addr + 2) e.code) (seg.addr + 4) e.value) head 8
    rw [hmem]
    exact ⟨_, rfl, rfl⟩

/-- The event queue takes at most the pending events. -/
theorem deliver_isSome {M : Type} [GuestMem M] (ht : t.overflowChecks = false)
    (pending : List InputEvent) {s : Draining Unit M} (hq : s.q.SizeOk) :
    ∃ r, deliver t pending s = some r := by
  induction pending generalizing s with
  | nil => exact ⟨_, rfl⟩
  | cons e pending ih =>
    obtain ⟨⟨chain, q, mem⟩, hpop⟩ := @Virtq.pop_isSome _ _ _ ht s.q s.mem
      fun hon _ => hq.num_ne_zero (not_or.mp hon).2
    rw [deliver, hpop, Option.bind_eq_bind, Option.bind_some]
    cases chain with
    | none => exact ⟨_, rfl⟩
    | some chain =>
      obtain ⟨head, segs⟩ := chain
      obtain ⟨hnum, rfl⟩ := Virtq.pop_eq_some hpop
      have hserve := serveEvent_isSome ht e head segs
        (s := { s with q := { s.q with lastAvail := s.q.lastAvail + 1 }, mem := mem })
        (hq.num_ne_zero hnum)
      obtain ⟨s', hs', hq'⟩ := hserve
      dsimp only
      rw [hs', Option.bind_eq_bind, Option.bind_some]
      exact ih (hq' ▸ hq)

end Input

/-- A device whose queues are drained with `Virtq::pop`. -/
inductive Puller where
  | gpu (d : Gpu)
  | rng (d : Rng)
  | input (d : Input)

namespace Puller

/-- The `process` of the device, for at most `fuel` chains of each queue. -/
def process {M : Type} [GuestMem M] (t : Target) (fuel : ℕ) (d : Puller) (mem : M) :
    Outcome (Puller × M) :=
  match d with
  | gpu d => (d.process t fuel mem).map fun r => (gpu r.1, r.2)
  | rng d => (d.process t fuel mem).map fun r => (rng r.1, r.2)
  | input d => (d.process t fuel mem).map fun r => (input r.1, r.2)

/-- Every queue of the device that has entries has at most 32768 of them, and as many
    as a power of two. -/
def SizesOk : Puller → Prop
  | gpu d => ∀ i, (d.queues i).SizeOk
  | rng d => d.queue.SizeOk
  | input d => ∀ i, (d.queues i).SizeOk

end Puller

/-! ## A page with one chain -/

/-- A queue of one entry, with its table and its available ring in one page. -/
def pageQueue (used : BitVec 64) (lastAvail : BitVec 16) : Virtq :=
  ⟨1, true, 0x40000800, 0x40000400, used, lastAvail⟩

theorem sizeOk_pageQueue (used : BitVec 64) (lastAvail : BitVec 16) :
    (pageQueue used lastAvail).SizeOk := by
  intro _
  refine ⟨0, by decide, ?_⟩
  unfold pageQueue
  rfl

/-- A page at `0x40000000` of zeros, but for the available index `idx`. -/
structure ZeroPage (b : Bus D) (idx : BitVec 16) : Prop where
  base : b.ram.base = 0x40000000
  size : b.ram.size = 0x1000
  index : availIdx b.view 0x40000400 = idx
  zeros : ∀ a, a < 0x40000402 ∨ 0x40000404 ≤ a → b.view a = 0

namespace ZeroPage

variable {b : Bus D} {idx : BitVec 16} (h : ZeroPage b idx)

include h

omit [MmioDevice D] in
theorem wf : b.RamWf := by
  unfold Bus.RamWf
  rw [h.base, h.size]
  decide

omit [MmioDevice D] in
theorem inRam {addr : BitVec 64} {n : ℕ} (hlo : 0x40000000 ≤ addr.toNat)
    (hhi : addr.toNat + n ≤ 0x40001000) : b.InRam addr n := by
  unfold Bus.InRam
  rw [h.base, h.size]
  exact ⟨hlo, hhi⟩

omit [MmioDevice D] in
/-- A read next to the index gives zero. -/
theorem loadLe_eq_zero (w : ℕ) {a n : ℕ} (ha : a + n ≤ 0x40000402 ∨ 0x40000404 ≤ a) :
    Bytes.loadLe w b.view a n = 0 := by
  induction n with
  | zero => rfl
  | succ n ih =>
    rw [Bytes.loadLe, ih (by omega), h.zeros (a + n) (by omega)]
    simp

theorem readU16_eq {addr : BitVec 64} (hlo : 0x40000404 ≤ addr.toNat)
    (hhi : addr.toNat + 2 ≤ 0x40001000) : GuestMem.readU16 b addr = (0, b) := by
  rw [Bus.readU16_eq h.wf (h.inRam (by omega) hhi), h.loadLe_eq_zero 16 (.inr hlo)]

/-- The first descriptor is a read-only buffer without bytes. -/
theorem gather_eq (fuel : ℕ) :
    Virtq.gather Target.release64 0x40000800 fuel 0 b = some ([⟨0, 0, false⟩], b) := by
  have hdesc : (0x40000800 : BitVec 64) + (0 : BitVec 16).setWidth 64 * 16 = 0x40000800 := by decide
  have haddr : GuestMem.readU64 b 0x40000800 = (0, b) := by
    rw [Bus.readU64_eq h.wf (h.inRam (by decide) (by decide)),
      h.loadLe_eq_zero 64 (.inr (by decide))]
  have hlen : GuestMem.readU32 b (0x40000800 + 8) = (0, b) := by
    rw [Bus.readU32_eq h.wf (h.inRam (by decide) (by decide)),
      h.loadLe_eq_zero 32 (.inr (by decide))]
  have hflags : GuestMem.readU16 b (0x40000800 + 12) = (0, b) :=
    h.readU16_eq (by decide) (by decide)
  cases fuel <;>
  · unfold Virtq.gather
    simp only [Target.add_of_wrap Target.overflowChecks_release64, Option.bind_eq_bind,
      Option.bind_some, hdesc, hflags, haddr, hlen]
    rfl

/-- The one chain, until the index is reached. -/
theorem pop_eq (used : BitVec 64) (lastAvail : BitVec 16) (hne : lastAvail ≠ idx) :
    (pageQueue used lastAvail).pop Target.release64 b = some (some (0, [⟨0, 0, false⟩]),
      pageQueue used (lastAvail + 1), b) := by
  have ht := Target.overflowChecks_release64
  have hidx : GuestMem.readU16 b (0x40000400 + 2) = (idx, b) := by
    rw [Bus.readU16_eq h.wf (h.inRam (by decide) (by decide)), ← h.index]
    rfl
  have hslot : lastAvail % (1 : BitVec 32).setWidth 16 = 0 := BitVec.umod_one
  have hon : ¬(true = false ∨ (1 : BitVec 32) = 0) := by decide
  have hnum : (1 : BitVec 32).setWidth 16 ≠ (0 : BitVec 16) := by decide
  unfold Virtq.pop pageQueue
  dsimp only
  rw [if_neg hon]
  simp only [Target.add_of_wrap ht, Option.bind_eq_bind, Option.bind_some, hidx]
  rw [if_neg hne]
  unfold Virtq.take
  simp only [Target.add_of_wrap ht, Option.bind_eq_bind, Option.bind_some, rem_eq_some hnum, hslot]
  rw [h.readU16_eq (by decide) (by decide)]
  dsimp only
  rw [h.gather_eq]
  rfl

omit [MmioDevice D] in
/-- The index is in RAM. -/
theorem route_ne_device (i : ℕ) : b.route (0x40000400 + 2) ≠ .device i := by
  have hin : b.InRam (0x40000400 + 2) 2 := h.inRam (by decide) (by decide)
  rw [Bus.route_of_inRam h.wf (by decide) hin]
  exact nofun

/-- The chain is served: an entry of the used ring. -/
theorem drainPass_eq (used : BitVec 64) (hlo : 0x40000000 ≤ used.toNat)
    (hhi : used.toNat + 12 ≤ 0x40001000) (lastAvail : BitVec 16) (hne : lastAvail ≠ idx)
    (raised : Bool) :
    ∃ b', b.SameWindow b' ∧ b'.view = pushed b.view used.toNat 1 0 0 ∧ b'.devices = b.devices ∧
      drainPass Target.release64 (Rng.fill Target.release64)
        ⟨pageQueue used lastAvail, raised, (), b⟩ =
          some (.again ⟨pageQueue used (lastAvail + 1), true, (), b'⟩) := by
  have hone : (1 : BitVec 16) ≠ 0 := by decide
  have hring : b.InRam used 12 := h.inRam hlo hhi
  obtain ⟨b', hpush, hwindow, hview, hdevices⟩ :=
    view_pushUsed Target.overflowChecks_release64 h.wf hone hring 0 0
  refine ⟨b', hwindow, hview, hdevices, ?_⟩
  unfold drainPass
  dsimp only
  have hfill : Rng.fill Target.release64 () b [⟨0, 0, false⟩] = some (0, (), b) := rfl
  have hused : (pageQueue used (lastAvail + 1)).pushUsed Target.release64 b 0 0 = some b' := hpush
  rw [h.pop_eq used lastAvail hne, Option.bind_eq_bind, Option.bind_some]
  dsimp only
  rw [hfill, Option.bind_eq_bind, Option.bind_some]
  dsimp only
  rw [hused]
  rfl

omit [MmioDevice D] in
/-- With the used ring on the available ring a completion is a new chain. -/
theorem pushed (b' : Bus D) (hwindow : b.SameWindow b')
    (hview : b'.view = Platform.pushed b.view 0x40000400 1 0 0) : ZeroPage b' (idx + 1) where
  base := hwindow.base.trans h.base
  size := hwindow.size.trans h.size
  index := by
    rw [hview]
    exact (usedIdx_pushed _ _ _ _ _).trans (congrArg (· + 1) h.index)
  zeros a ha := by
    have hzero : ∀ (mem : ℕ → BitVec 8) o n, mem a = 0 →
        Bytes.storeLe mem o n (0 : BitVec 32) a = 0 := by
      intro mem o n hmem
      unfold Bytes.storeLe
      split_ifs
      · exact congrArg (BitVec.setWidth 8) BitVec.zero_ushiftRight
      · exact hmem
    rw [hview]
    unfold Platform.pushed
    rw [Bytes.storeLe_of_not_mem _ _ _ _ ha]
    exact hzero _ _ _ (hzero _ _ _ (h.zeros a ha))

end ZeroPage

/-- A page with one chain available. -/
def chainPage (devices : List (DeviceEntry D)) : Bus D where
  ram := { base := 0x40000000, size := 0x1000, bytes := fun a => if a = 0x402 then 1 else 0 }
  devices := devices

omit [MmioDevice D] in
theorem zeroPage_chainPage (devices : List (DeviceEntry D)) :
    ZeroPage (chainPage devices) 1 where
  base := rfl
  size := rfl
  index := by
    have hview : (chainPage devices).view = (chainPage ([] : List (DeviceEntry Empty))).view := rfl
    rw [hview]
    decide
  zeros a ha := by
    unfold Bus.view ramView
    by_cases hbase : (chainPage devices).ram.base.toNat ≤ a
    · have hnat : (chainPage devices).ram.base.toNat = 0x40000000 := rfl
      have hbytes : ∀ o, (chainPage devices).ram.bytes o = if o = 0x402 then 1 else 0 :=
        fun _ => rfl
      have hoff : a - (chainPage devices).ram.base.toNat ≠ 0x402 := by omega
      rw [if_pos hbase, hbytes, if_neg hoff]
    · rw [if_neg hbase]

/-- The page with no device on the bus. -/
def oneChain : Bus Empty := chainPage []

theorem zeroPage_oneChain : ZeroPage oneChain 1 := zeroPage_chainPage []

/-- An entropy device with the queue `pageQueue`, notified. -/
def pageRng (used : BitVec 64) : Rng :=
  { Rng.new GicInner.new 50 with queue := pageQueue used 0, notified := true }

end V64.Platform
