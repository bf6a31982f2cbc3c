import V64.Platform.Virtio.BlkData
import V64.Platform.Virtio.OwnWindow

/-!
# Draining the available ring

One notified `process` of the block device over rings, descriptors and buffers that
are apart from each other and from the device's registers. The heads are those of the
available ring as it is when the device starts, and the device's own writes reach
neither the ring nor the descriptors.

* `handleRequest_frame`, `handleRequest_spares`: what a request may write and reach.
* `Progress`, `progress_serve`: the state after some of the requests.
* `process_drained`: all of them are served, in order and once each.
* `process_ring`: so in a poll of any build, unless a checked sum does not fit.
-/

namespace V64.Platform

open Checked V64.Interp

variable {D : Type}

/-! ## Descriptors -/

/-- The buffers of a chain. -/
def chainSegs (mem : ℕ → BitVec 8) (desc : BitVec 64) (fuel : ℕ) (idx : BitVec 16) : List Seg :=
  (visited mem desc fuel idx).map fun d => descSeg mem d.toNat

/-- Two memories agree on the 16 bytes of a descriptor. -/
def SameDesc (mem mem' : ℕ → BitVec 8) (d : BitVec 64) : Prop :=
  ∀ i < 16, mem' (d.toNat + i) = mem (d.toNat + i)

theorem descSeg_congr {mem mem' : ℕ → BitVec 8} {d : BitVec 64} (h : SameDesc mem mem' d) :
    descSeg mem' d.toNat = descSeg mem d.toNat ∧
      descHasNext mem' d.toNat = descHasNext mem d.toNat ∧
      descNext mem' d.toNat = descNext mem d.toNat := by
  have hload : ∀ w o n, o + n ≤ 16 →
      Bytes.loadLe w mem' (d.toNat + o) n = Bytes.loadLe w mem (d.toNat + o) n := by
    intro w o n hn
    refine Bytes.loadLe_congr _ _ _ _ fun i hi => ?_
    rw [Nat.add_assoc]
    exact h (o + i) (by omega)
  have hzero : Bytes.loadLe 64 mem' d.toNat 8 = Bytes.loadLe 64 mem d.toNat 8 :=
    hload 64 0 8 (by decide)
  refine ⟨?_, ?_, ?_⟩
  · rw [descSeg, descSeg, hzero, hload 32 8 4 (by decide), hload 16 12 2 (by decide)]
  · rw [descHasNext, descHasNext, hload 16 12 2 (by decide)]
  · rw [descNext, descNext, hload 16 14 2 (by decide)]

/-- A chain whose descriptors have not changed is the same chain. -/
theorem chain_congr {mem mem' : ℕ → BitVec 8} {desc : BitVec 64} {fuel : ℕ} {idx : BitVec 16}
    (h : ∀ d ∈ visited mem desc fuel idx, SameDesc mem mem' d) :
    visited mem' desc fuel idx = visited mem desc fuel idx ∧
      chainSegs mem' desc fuel idx = chainSegs mem desc fuel idx := by
  have hvisited : visited mem' desc fuel idx = visited mem desc fuel idx := by
    induction fuel generalizing idx with
    | zero => rw [visited_zero, visited_zero]
    | succ fuel ih =>
      rw [visited_succ] at h
      obtain ⟨-, hhas, hnext⟩ := descSeg_congr (h _ List.mem_cons_self)
      rw [visited_succ, visited_succ, hhas]
      split_ifs with hmore
      · rw [if_pos hmore] at h
        rw [hnext, ih fun d hd => h d (List.mem_cons_of_mem _ hd)]
      · rfl
  refine ⟨hvisited, ?_⟩
  unfold chainSegs
  rw [hvisited]
  exact List.map_congr_left fun d hd => (descSeg_congr (h d hd)).1

/-- A chain whose descriptors lie in RAM is gathered without touching memory. -/
theorem Gathers.of_visited {b : Bus D} {desc : BitVec 64}
    {gather : ℕ → BitVec 16 → Option (List Seg × Bus D)} (hgather : Gathers b desc gather)
    {fuel : ℕ} {idx : BitVec 16} (h : ∀ d ∈ visited b.view desc fuel idx, b.InRam d 16) :
    gather fuel idx = some (chainSegs b.view desc fuel idx, b) := by
  induction fuel generalizing idx with
  | zero =>
    rw [visited_zero] at h
    rw [hgather _ (h _ List.mem_cons_self), chainSegs, visited_zero]
    split_ifs <;> rfl
  | succ fuel ih =>
    rw [visited_succ] at h
    rw [hgather _ (h _ List.mem_cons_self), chainSegs, visited_succ]
    split_ifs with hmore
    · rw [if_pos hmore] at h
      dsimp only
      rw [ih fun d hd => h d (List.mem_cons_of_mem _ hd)]
      rfl
    · rfl

section Chain

variable [MmioDevice D] {t : Target} (ht : t.overflowChecks = false) {b : Bus D} (hwf : b.RamWf)

include ht hwf

theorem gather_visited {desc : BitVec 64} {fuel : ℕ} {idx : BitVec 16}
    (h : ∀ d ∈ visited b.view desc fuel idx, b.InRam d 16) :
    Blk.gather t desc fuel idx b = some (chainSegs b.view desc fuel idx, b) :=
  (Blk.gathers ht hwf desc).of_visited h

end Chain

/-! ## Requests -/

/-- The bytes that the request of a chain may write: its data buffers and its status
    byte. -/
def writeCells : List Seg → List ℕ
  | [] => []
  | _ :: rest =>
    match rest.getLast? with
    | none => []
    | some last => last.addr.toNat :: cellsOf (payload rest.dropLast)

/-- The addresses at which the request of a chain accesses memory: its header, its data
    buffers and its status byte. -/
def requestAddrs : List Seg → List (BitVec 64)
  | [] => []
  | hdr :: rest =>
    match rest.getLast? with
    | none => []
    | some last => hdr.addr :: (hdr.addr + 8) :: last.addr :: payload rest.dropLast

namespace Blk

section Frame

variable [MmioDevice D] {t : Target}

theorem onlyWrites_writeU8 {b : Bus D} (hwf : b.RamWf) (a : BitVec 64) (v : BitVec 8) :
    b.OnlyWrites (· = a.toNat) (GuestMem.writeU8 b a v) :=
  (Bus.onlyWrites_store hwf a 1 _).mono fun _ h => by omega

theorem onlyWrites_copyOut {b : Bus D} (hwf : b.RamWf) (disk : List (BitVec 8)) (off : BitVec 64)
    (as : List (BitVec 64)) : b.OnlyWrites (· ∈ cellsOf as) (copyOut t disk off as b) := by
  induction as generalizing b off with
  | nil => exact .refl b
  | cons a as ih =>
    have hfirst := onlyWrites_writeU8 hwf a (diskByte t disk off)
    rw [copyOut]
    refine .trans (hfirst.mono ?_) ((ih (hfirst.window.ramWf hwf) (off + 1)).mono ?_)
    · rintro _ rfl
      exact List.mem_cons_self
    · exact fun c hc => List.mem_cons_of_mem _ hc

theorem ram_copyIn (as : List (BitVec 64)) (s : Writing t (Bus D)) :
    (as.foldl copyInByte s).mem.ram = s.mem.ram := by
  induction as generalizing s with
  | nil => rfl
  | cons a as ih =>
    rw [List.foldl_cons, ih]
    exact (Bus.ram_reads s.mem a).1

variable (ht : t.overflowChecks = false) {b : Bus D} (hwf : b.RamWf)

include ht hwf

/-- Executing a request writes its data buffers and its status byte at most. -/
theorem execute_frame (disk : List (BitVec 8)) (r : Request) :
    ∃ s, execute t disk r b = some s ∧
      b.OnlyWrites (· ∈ r.statusAddr.toNat :: r.cells) s.mem := by
  have hstatus : ∀ b' : Bus D, b.OnlyWrites (· ∈ r.cells) b' → ∀ v,
      b.OnlyWrites (· ∈ r.statusAddr.toNat :: r.cells) (GuestMem.writeU8 b' r.statusAddr v) := by
    intro b' hb' v
    have hlast := onlyWrites_writeU8 (hb'.window.ramWf hwf) r.statusAddr v
    refine .trans (hb'.mono fun c hc => List.mem_cons_of_mem _ hc) (hlast.mono ?_)
    rintro _ rfl
    exact List.mem_cons_self
  by_cases hin : r.reqType = blkTIn
  · exact ⟨_, execute_in ht disk hin b, hstatus _ (onlyWrites_copyOut hwf disk _ _) _⟩
  · by_cases hout : r.reqType = blkTOut
    · refine ⟨_, execute_out ht disk hout b, hstatus _ ?_ _⟩
      exact .of_ram (ram_copyIn _ _)
    · exact ⟨_, execute_unsupported ht disk hin hout b, hstatus _ (.refl b) _⟩

/-- A request whose descriptors lie in RAM writes its data buffers and its status
    byte at most. -/
theorem handleRequest_frame {d : Blk} {head : BitVec 16}
    (h : ∀ a ∈ visited b.view d.desc blkQueueMax head, b.InRam a 16) :
    ∃ s, handleRequest t d b head = some s ∧
      b.OnlyWrites (· ∈ writeCells (chainSegs b.view d.desc blkQueueMax head)) s.mem := by
  have hgather := gather_visited ht hwf h
  unfold handleRequest parse
  rw [hgather]
  simp only [Option.bind_eq_bind, Option.bind_some]
  cases chainSegs b.view d.desc blkQueueMax head with
  | nil => exact ⟨_, rfl, .refl b⟩
  | cons hdr rest =>
    cases hlast : rest.getLast? with
    | none =>
      simp only [hlast]
      exact ⟨_, rfl, .refl b⟩
    | some last =>
      simp only [hlast, Target.add_of_wrap ht, Option.bind_some]
      have hreads : (GuestMem.readU64 (GuestMem.readU32 b hdr.addr).2 (hdr.addr + 8)).2.ram =
          b.ram := (Bus.ram_reads _ _).2.2.2.trans (Bus.ram_reads _ _).2.2.1
      have hframe : b.OnlyWrites (fun _ => False) _ := .of_ram hreads
      obtain ⟨s, hs, hwrites⟩ := execute_frame ht (hframe.window.ramWf hwf) d.disk
        ⟨(GuestMem.readU32 b hdr.addr).1,
          (GuestMem.readU64 (GuestMem.readU32 b hdr.addr).2 (hdr.addr + 8)).1, rest.dropLast,
          last.addr⟩
      refine ⟨s, hs, (hframe.mono fun _ h => h.elim).trans (hwrites.mono fun c hc => ?_)⟩
      rw [writeCells, hlast]
      exact hc

end Frame

section Own

variable [MmioDevice D] {t : Target} {b : Bus (Mapped D)}

theorem spares_copyOut (hwf : b.RamWf) (disk : List (BitVec 8)) (off : BitVec 64)
    {as : List (BitVec 64)} (h : ∀ a ∈ as, ¬b.ReachesOwn a) :
    b.Spares (copyOut t disk off as b) := by
  induction as generalizing b off with
  | nil => exact .refl b
  | cons a as ih =>
    obtain ⟨ha, has⟩ := List.forall_mem_cons.mp h
    have hfirst : b.Spares (GuestMem.writeU8 b a (diskByte t disk off)) :=
      Bus.spares_store hwf ha 1 _
    rw [copyOut]
    exact hfirst.trans (ih (hfirst.window.ramWf hwf) (off + 1)
      fun a' ha' hown => has a' ha' (hfirst.reachesOwn hown))

theorem spares_copyIn {as : List (BitVec 64)} {s : Writing t (Bus (Mapped D))}
    (h : ∀ a ∈ as, ¬s.mem.ReachesOwn a) : s.mem.Spares (as.foldl copyInByte s).mem := by
  induction as generalizing s with
  | nil => exact .refl _
  | cons a as ih =>
    obtain ⟨ha, has⟩ := List.forall_mem_cons.mp h
    have hfirst : s.mem.Spares (copyInByte s a).mem := Bus.spares_load ha 1
    rw [List.foldl_cons]
    exact hfirst.trans (ih fun a' ha' hown => has a' ha' (hfirst.reachesOwn hown))

variable (ht : t.overflowChecks = false) (hwf : b.RamWf)

include ht hwf

theorem execute_spares {disk : List (BitVec 8)} {r : Request} {s : Served (Bus (Mapped D))}
    (hs : execute t disk r b = some s)
    (h : ∀ a ∈ r.statusAddr :: payload r.data, ¬b.ReachesOwn a) : b.Spares s.mem := by
  obtain ⟨hstatus, hdata⟩ := List.forall_mem_cons.mp h
  have hlast : ∀ b' : Bus (Mapped D), b.Spares b' → ∀ v,
      b.Spares (GuestMem.writeU8 b' r.statusAddr v) := fun b' hb' v =>
    hb'.trans (Bus.spares_store (hb'.window.ramWf hwf) (fun hown => hstatus (hb'.reachesOwn hown))
      1 _)
  by_cases hin : r.reqType = blkTIn
  · rw [execute_in ht disk hin] at hs
    obtain rfl := Option.some.inj hs
    exact hlast _ (spares_copyOut hwf disk _ hdata) _
  · by_cases hout : r.reqType = blkTOut
    · rw [execute_out ht disk hout] at hs
      obtain rfl := Option.some.inj hs
      have hcopy : b.Spares _ := spares_copyIn (s := Writing.mk disk
        (((r.sector * BitVec.ofNat 64 sectorSize).setWidth t.usizeBits)) b) hdata
      exact hlast _ hcopy _
    · rw [execute_unsupported ht disk hin hout] at hs
      obtain rfl := Option.some.inj hs
      exact hlast _ (.refl b) _

/-- A request whose descriptors lie in RAM reaches the own window at most where its
    header, its buffers or its status byte does. -/
theorem handleRequest_spares {d : Blk} {head : BitVec 16} {s : Served (Bus (Mapped D))}
    (hram : ∀ a ∈ visited b.view d.desc blkQueueMax head, b.InRam a 16)
    (hs : handleRequest t d b head = some s)
    (h : ∀ a ∈ requestAddrs (chainSegs b.view d.desc blkQueueMax head), ¬b.ReachesOwn a) :
    b.Spares s.mem := by
  unfold handleRequest parse at hs
  rw [gather_visited ht hwf hram] at hs
  simp only [Option.bind_eq_bind, Option.bind_some] at hs
  generalize chainSegs b.view d.desc blkQueueMax head = segs at h hs
  cases segs with
  | nil =>
    obtain rfl := Option.some.inj hs
    exact .refl b
  | cons hdr rest =>
    unfold requestAddrs at h
    cases hlast : rest.getLast? with
    | none =>
      simp only [hlast] at hs
      obtain rfl := Option.some.inj hs
      exact .refl b
    | some last =>
      simp only [hlast, Target.add_of_wrap ht, Option.bind_some] at hs h
      obtain ⟨htype, h⟩ := List.forall_mem_cons.mp h
      obtain ⟨hsector, h⟩ := List.forall_mem_cons.mp h
      have h1 : b.Spares (GuestMem.readU32 b hdr.addr).2 := Bus.spares_load htype 4
      have h2 := h1.trans (Bus.spares_load (fun hown => hsector (h1.reachesOwn hown)) 8)
      refine h2.trans (execute_spares ht (h2.window.ramWf hwf) hs fun a ha hown => ?_)
      exact h a ha (h2.reachesOwn hown)

end Own

/-! ## The loop -/

/-- The size of the rings as `process` takes it. -/
def qsz (d : Blk) : BitVec 16 := d.queueNum.setWidth 16

/-- The head at the `k`-th available slot from `last_avail` on. -/
def headAt (d : Blk) (b : Bus D) (k : ℕ) : BitVec 16 :=
  availHead b.view d.avail.toNat ((d.lastAvail + BitVec.ofNat 16 k) % d.qsz)

/-- The descriptors of the `k`-th request. -/
def descsAt (d : Blk) (b : Bus D) (k : ℕ) : List (BitVec 64) :=
  visited b.view d.desc blkQueueMax (headAt d b k)

/-- The bytes that the `k`-th request may write. -/
def cellsAt (d : Blk) (b : Bus D) (k : ℕ) : List ℕ :=
  writeCells (chainSegs b.view d.desc blkQueueMax (headAt d b k))

/-- The addresses at which the `k`-th request accesses memory. -/
def addrsAt (d : Blk) (b : Bus D) (k : ℕ) : List (BitVec 64) :=
  requestAddrs (chainSegs b.view d.desc blkQueueMax (headAt d b k))

/-- The byte `a` is in the used ring. -/
def InUsed (d : Blk) (a : ℕ) : Prop :=
  d.used.toNat ≤ a ∧ a < d.used.toNat + (4 + 8 * d.queueNum.toNat)

/-- The byte `a` is in the available ring. -/
def InAvail (d : Blk) (a : ℕ) : Prop :=
  d.avail.toNat ≤ a ∧ a < d.avail.toNat + (4 + 2 * d.queueNum.toNat)

/-- The byte `a` is in a descriptor of one of the `n` requests. -/
def InDescs (d : Blk) (b : Bus D) (n a : ℕ) : Prop :=
  ∃ k < n, ∃ desc ∈ descsAt d b k, desc.toNat ≤ a ∧ a < desc.toNat + 16

/-- The byte `a` is in a buffer that one of the `n` requests may write. -/
def InBuffers (d : Blk) (b : Bus D) (n a : ℕ) : Prop := ∃ k < n, a ∈ cellsAt d b k

/-- Rings of a power of two entries and descriptors in RAM, the two rings, the
    descriptors and the buffers of the `n` requests apart from each other, and no header,
    buffer or status byte among the device's own registers. -/
structure Apart (d : Blk) (b : Bus (Mapped D)) (n : ℕ) : Prop where
  wf : b.RamWf
  size : ∃ e ≤ 8, d.queueNum.toNat = 2 ^ e
  avail : b.InRam d.avail (4 + 2 * d.queueNum.toNat)
  used : b.InRam d.used (4 + 8 * d.queueNum.toNat)
  descs : ∀ k < n, ∀ desc ∈ descsAt d b k, b.InRam desc 16
  usedAvail : ∀ a, d.InUsed a → ¬d.InAvail a
  usedDescs : ∀ a, d.InUsed a → ¬d.InDescs b n a
  buffersAvail : ∀ a, d.InBuffers b n a → ¬d.InAvail a
  buffersUsed : ∀ a, d.InBuffers b n a → ¬d.InUsed a
  buffersDescs : ∀ a, d.InBuffers b n a → ¬d.InDescs b n a
  own : ∀ k < n, ∀ a ∈ addrsAt d b k, ¬b.ReachesOwn a

namespace Apart

variable {d : Blk} {b : Bus (Mapped D)} {n : ℕ} (h : d.Apart b n)

include h

theorem queueSize : Virtq.IsQueueSize d.queueNum := by
  obtain ⟨e, he, hsize⟩ := h.size
  exact ⟨e, by omega, hsize⟩

/-- The size of the rings fits `u16`. -/
theorem toNat_qsz : d.qsz.toNat = d.queueNum.toNat := h.queueSize.toNat_setWidth

theorem ringSize : RingSize d.qsz := h.queueSize.ringSize

theorem inUsed_slot (slot : BitVec 16) {i : ℕ} (hi : i < 8) :
    d.InUsed (usedSlot d.used.toNat (slot % d.qsz) + i) := by
  have hlt := h.ringSize.slot_lt slot
  rw [h.toNat_qsz] at hlt
  unfold InUsed usedSlot
  exact ⟨by omega, by omega⟩

end Apart

/-- The state after `k` of the `n` requests: only the used ring and the buffers have
    changed, and the used ring has one entry for each of the `k` heads. -/
structure Progress (d : Blk) (b : Bus (Mapped D)) (n k : ℕ) (s : Blk × Bus (Mapped D)) : Prop where
  dev : s.1 = { d with disk := s.1.disk, lastAvail := d.lastAvail + BitVec.ofNat 16 k }
  writes : b.OnlyWrites (fun a => d.InUsed a ∨ d.InBuffers b n a) s.2
  spares : b.Spares s.2
  completed : Completed b.view d.used.toNat d.qsz ((List.range k).map (headAt d b)) s.2.view

theorem progress_zero (d : Blk) (b : Bus (Mapped D)) (n : ℕ) : Progress d b n 0 (d, b) where
  dev := by rw [BitVec.add_zero]
  writes := .refl b
  spares := .refl b
  completed := .nil _ _ _

section Step

variable [MmioDevice D] {t : Target} (ht : t.overflowChecks = false) {d : Blk}
  {b : Bus (Mapped D)} {n : ℕ} (h : d.Apart b n) {k : ℕ} (hk : k < n)
  (hn : n ≤ d.queueNum.toNat) {s : Blk × Bus (Mapped D)} (hs : Progress d b n k s)

include ht h hs

/-- The available ring is read as it was at the start. -/
theorem nextHead_eq : nextHead t s.1 d.qsz s.2 = some (headAt d b k, s.2) := by
  have hwf := hs.writes.window.ramWf h.wf
  obtain ⟨hring, hringRam⟩ := (hs.writes.window.inRam h.avail).sub hwf (o := 4)
    (k := 2 * d.queueNum.toNat) le_rfl
  generalize hslot : (d.lastAvail + BitVec.ofNat 16 k) % d.qsz = slot
  have hlt : slot.toNat < d.queueNum.toNat := by
    rw [← hslot, ← h.toNat_qsz]
    exact h.ringSize.slot_lt _
  have hslotNat : (slot.setWidth 64 * 2 : BitVec 64).toNat = 2 * slot.toNat := by
    have hlt16 := slot.isLt
    rw [BitVec.toNat_mul, BitVec.toNat_setWidth]
    change slot.toNat % 2 ^ 64 * 2 % 2 ^ 64 = _
    omega
  obtain ⟨haddr, haddrRam⟩ := hringRam.sub hwf (o := slot.setWidth 64 * 2) (k := 2) (by omega)
  have hnat : (d.avail + 4 + slot.setWidth 64 * 2).toNat = d.avail.toNat + 4 + 2 * slot.toNat := by
    rw [haddr, hring, hslotNat]
    rfl
  have hsame : Bytes.loadLe 16 s.2.view (d.avail.toNat + 4 + 2 * slot.toNat) 2 =
      Bytes.loadLe 16 b.view (d.avail.toNat + 4 + 2 * slot.toNat) 2 := by
    refine Bytes.loadLe_congr _ _ _ _ fun i hi => hs.writes.view _ ?_
    have hin : d.InAvail (d.avail.toNat + 4 + 2 * slot.toNat + i) := ⟨by omega, by omega⟩
    rintro (hused | hbuf)
    · exact h.usedAvail _ hused hin
    · exact h.buffersAvail _ hbuf hin
  rw [nextHead, hs.dev]
  simp only [rem_eq_some h.ringSize.ne_zero, Target.add_of_wrap ht, Option.bind_eq_bind,
    Option.bind_some, hslot]
  rw [Bus.readU16_eq hwf haddrRam, hnat, hsame, headAt, hslot]
  rfl

include hk hn

/-- One request: the device serves the next head, and the state is as far. -/
theorem progress_serve : ∃ s', serve t d.qsz s = some s' ∧
    serveHead t d.qsz s (headAt d b k) = some s' ∧ Progress d b n (k + 1) s' := by
  have hwf := hs.writes.window.ramWf h.wf
  have hhead := nextHead_eq ht h hs
  have hdesc : s.1.desc = d.desc := by rw [hs.dev]
  have hused : s.1.used = d.used := by rw [hs.dev]
  -- the chain is the one of the start
  have hsame : ∀ desc ∈ descsAt d b k, SameDesc b.view s.2.view desc := by
    intro desc hmem i hi
    refine hs.writes.view _ ?_
    have hin : d.InDescs b n (desc.toNat + i) := ⟨k, hk, desc, hmem, by omega, by omega⟩
    rintro (hu | hbuf)
    · exact h.usedDescs _ hu hin
    · exact h.buffersDescs _ hbuf hin
  obtain ⟨hvisited, hsegs⟩ := chain_congr hsame
  have hram : ∀ a ∈ visited s.2.view s.1.desc blkQueueMax (headAt d b k), s.2.InRam a 16 := by
    rw [hdesc, hvisited]
    exact fun a ha => hs.writes.window.inRam (h.descs k hk a ha)
  obtain ⟨served, hserved, hwrites⟩ := handleRequest_frame ht hwf (d := s.1) hram
  have hown : s.2.Spares served.mem := by
    refine handleRequest_spares ht hwf hram hserved fun a ha hreach => ?_
    rw [hdesc, hsegs] at ha
    exact h.own k hk a ha (hs.spares.reachesOwn hreach)
  rw [hdesc, hsegs] at hwrites
  -- the used ring is not touched before the completion
  have hsame : ∀ a, d.used.toNat ≤ a → a < d.used.toNat + (4 + 8 * d.qsz.toNat) →
      served.mem.view a = s.2.view a := fun a hlo hhi =>
    hwrites.view a fun hbuf => h.buffersUsed a ⟨k, hk, hbuf⟩ ⟨hlo, by rwa [← h.toNat_qsz]⟩
  have hcompleted := hs.completed.congr h.ringSize hsame
  have hwf' := hwrites.window.ramWf hwf
  have husedRam : served.mem.InRam d.used (4 + 8 * d.qsz.toNat) := by
    rw [h.toNat_qsz]
    exact hwrites.window.inRam (hs.writes.window.inRam h.used)
  obtain ⟨b', hpush, hwindow, hview, hdevices⟩ := view_pushUsed ht hwf' h.ringSize.ne_zero husedRam
    (headAt d b k) served.written
  have hserve : serveHead t d.qsz s (headAt d b k) =
      some ({ s.1 with disk := served.disk, lastAvail := s.1.lastAvail + 1 }, b') := by
    unfold serveHead pushUsed
    rw [hserved]
    simp only [Option.bind_eq_bind, Option.bind_some]
    rw [hused, hpush]
    rfl
  have hpushed : served.mem.OnlyWrites d.InUsed b' := by
    refine ⟨hwindow, fun a ha => ?_⟩
    have hslot := fun i => h.inUsed_slot (usedIdx served.mem.view d.used.toNat) (i := i)
    rw [hview]
    refine pushed_of_not_mem _ _ _ _ _ ?_ ?_
    · by_contra hcon
      exact ha ⟨by omega, by omega⟩
    · by_contra hcon
      refine ha ?_
      have hin := hslot (a - usedSlot d.used.toNat
        (usedIdx served.mem.view d.used.toNat % d.qsz)) (by omega)
      rwa [Nat.add_sub_of_le (by omega)] at hin
  refine ⟨_, ?_, hserve, ?_, ?_, ?_, ?_⟩
  · rw [serve, hhead]
    exact hserve
  · dsimp only
    rw [hs.dev, BitVec.ofNat_add, BitVec.add_assoc]
    rfl
  · refine .trans (hs.writes.trans (hwrites.mono fun a ha => .inr ⟨k, hk, ha⟩))
      (hpushed.mono fun a ha => .inl ha)
  · exact (hs.spares.trans hown).trans (.of_devices hwindow hdevices)
  · rw [List.range_succ, List.map_append, hview]
    refine hcompleted.push h.ringSize ?_ _ _
    rw [List.length_map, List.length_range, h.toNat_qsz]
    omega

omit hk hs

/-- The loop serves the requests that are left. -/
theorem drain_progress {availIdx : BitVec 16} (hidx : availIdx = d.lastAvail + BitVec.ofNat 16 n)
    (hlt : n < 2 ^ 16) {m k : ℕ} (hm : k + m = n) {fuel : ℕ} (hfuel : m ≤ fuel)
    {s : Blk × Bus (Mapped D)} (hs : Progress d b n k s) :
    ∃ s', drain t d.qsz availIdx fuel s = some s' ∧
      ((List.range' k m).map (headAt d b)).foldlM (serveHead t d.qsz) s = some s' ∧
      Progress d b n n s' := by
  have hcount : s.1.lastAvail = d.lastAvail + BitVec.ofNat 16 k := by rw [hs.dev]
  induction m generalizing k fuel s with
  | zero =>
    obtain rfl : k = n := hm
    refine ⟨s, ?_, rfl, hs⟩
    cases fuel with
    | zero => rfl
    | succ fuel => rw [drain, if_pos (hcount.trans hidx.symm)]
  | succ m ih =>
    obtain ⟨fuel, rfl⟩ : ∃ f, fuel = f + 1 := ⟨fuel - 1, by omega⟩
    have hne : s.1.lastAvail ≠ availIdx := by
      rw [hcount, hidx]
      intro heq
      have hnat := congrArg BitVec.toNat ((BitVec.add_right_inj _).mp heq)
      rw [BitVec.toNat_ofNat, BitVec.toNat_ofNat, Nat.mod_eq_of_lt (by omega),
        Nat.mod_eq_of_lt hlt] at hnat
      omega
    obtain ⟨s1, hserve, hhead, hs1⟩ := progress_serve ht h (by omega) hn hs
    obtain ⟨s', hdrain, hfold, hdone⟩ :=
      ih (k := k + 1) (by omega) (Nat.le_of_succ_le_succ hfuel) hs1
      (by rw [hs1.dev])
    refine ⟨s', ?_, ?_, hdone⟩
    · rw [drain, if_neg hne, hserve, Option.bind_some, hdrain]
    · rw [List.range'_succ, List.map_cons, List.foldlM_cons, hhead]
      exact hfold

end Step

/-- What one notified `process` leaves of `n` available requests: it has served the
    heads of the available ring, in order and once each, and told the driver. -/
structure Drained [MmioDevice D] (t : Target) (d : Blk) (b : Bus D) (n : ℕ) (d' : Blk)
    (b' : Bus D) : Prop where
  served : ∃ d1, ((List.range n).map (headAt d b)).foldlM (serveHead t d.qsz)
    ({ d with notified := false }, b) = some (d1, b') ∧ d' = d1.finish (decide (0 < n))
  lastAvail : d'.lastAvail = availIdx b.view d.avail.toNat
  usedIdx : usedIdx b'.view d.used.toNat = usedIdx b.view d.used.toNat + BitVec.ofNat 16 n
  entries : ∀ k < n, Bytes.loadLe 32 b'.view (usedSlot d.used.toNat
    ((V64.Platform.usedIdx b.view d.used.toNat + BitVec.ofNat 16 k) % d.qsz)) 4 =
      (headAt d b k).setWidth 32
  intStatus : d'.intStatus = if 0 < n then d.intStatus ||| 1 else d.intStatus
  gic : d'.gic = if 0 < n then d.gic.setPending d.irq else d.gic

/-- One notified `process` with `n` requests available, without overflow checks. -/
theorem process_drained [MmioDevice D] {t : Target} (ht : t.overflowChecks = false) {d : Blk}
    (hnotified : d.notified = true) (hready : d.queueReady = true) {b : Bus (Mapped D)} {n : ℕ}
    (hidx : (availIdx b.view d.avail.toNat - d.lastAvail).toNat = n)
    (hn : n ≤ d.queueNum.toNat) (h : d.Apart b n) :
    ∃ d' b', process t d b = some (d', b') ∧ Drained t d b n d' b' ∧ b.Spares b' := by
  have h0 : ({ d with notified := false } : Blk).Apart b n :=
    ⟨h.wf, h.size, h.avail, h.used, h.descs, h.usedAvail, h.usedDescs, h.buffersAvail,
      h.buffersUsed, h.buffersDescs, h.own⟩
  have hlt : n < 2 ^ 16 := hidx ▸ BitVec.isLt _
  have hcount : availIdx b.view d.avail.toNat = d.lastAvail + BitVec.ofNat 16 n := by
    rw [← hidx, BitVec.ofNat_toNat, BitVec.setWidth_eq, BitVec.add_comm, BitVec.sub_add_cancel]
  obtain ⟨s', hdrain, hfold, hdone⟩ := drain_progress ht h0 hn hcount hlt (Nat.zero_add n)
    (Nat.le_of_lt hlt) (progress_zero _ b n)
  obtain ⟨hread, hreadRam⟩ := h.avail.sub h.wf (o := 2) (k := 2) (by change 2 + 2 ≤ _; omega)
  have hwork : (d.lastAvail != availIdx b.view d.avail.toNat) = decide (0 < n) := by
    rcases Nat.eq_zero_or_pos n with rfl | hpos
    · rw [hcount, BitVec.add_zero]
      simp
    · have hne : d.lastAvail ≠ availIdx b.view d.avail.toNat := by
        intro heq
        rw [← heq, BitVec.sub_self] at hidx
        exact absurd hidx.symm (Nat.ne_of_gt hpos)
      rw [bne_iff_ne.mpr hne, decide_eq_true hpos]
  have hguard : ¬(d.queueReady = false ∨ d.queueNum = 0) := by
    rintro (hnot | hzero)
    · exact Bool.false_ne_true (hnot.symm.trans hready)
    · refine h.ringSize.ne_zero ?_
      rw [qsz, hzero]
      rfl
  have hloop : drain t d.qsz (availIdx b.view d.avail.toNat) (2 ^ 16)
      ({ d with notified := false }, b) = some s' := hdrain
  have havail : Bytes.loadLe 16 b.view (d.avail + 2).toNat 2 = availIdx b.view d.avail.toNat := by
    rw [hread]
    rfl
  refine ⟨s'.1.finish (decide (0 < n)), s'.2, ?_, ?_, hdone.spares⟩
  · unfold process
    rw [if_neg (by rw [hnotified]; decide)]
    dsimp only
    rw [if_neg hguard]
    simp only [Target.add_of_wrap ht, Option.bind_eq_bind, Option.bind_some]
    rw [Bus.readU16_eq h.wf hreadRam, havail]
    dsimp only
    rw [hwork]
    change (drain t d.qsz _ (2 ^ 16) _).bind _ = _
    rw [hloop]
    rfl
  · have hdev := hdone.dev
    refine ⟨⟨s'.1, ?_, rfl⟩, ?_, ?_, fun k hk => ?_, ?_, ?_⟩
    · rw [List.range_eq_range']
      exact hfold
    · rw [finish, hdev]
      exact hcount.symm
    · have hcompleted := hdone.completed.idx
      rwa [List.length_map, List.length_range] at hcompleted
    · refine hdone.completed.entries k _ ?_
      rw [List.getElem?_map, List.getElem?_range hk]
      rfl
    · rw [finish, hdev]
      simp only [decide_eq_true_eq]
    · rw [finish, hdev]
      simp only [decide_eq_true_eq]

/-- `poll` (lines 317–321). An access of the device's own registers panics. -/
def poll [MmioDevice D] (t : Target) (d : Blk) (b : Bus (Mapped D)) :
    Option (Blk × Bus (Mapped D)) :=
  (process t d b).bind fun r => if r.2.borrowed then none else some r

/-- One notified poll with `n` requests available: it drains the ring, or with overflow
    checks panics where the arithmetic of a request does not fit. -/
theorem process_ring [MmioDevice D] {t : Target} {d : Blk} (hnotified : d.notified = true)
    (hready : d.queueReady = true) {b : Bus (Mapped D)} (hborrowed : b.borrowed = false) {n : ℕ}
    (hidx : (availIdx b.view d.avail.toNat - d.lastAvail).toNat = n)
    (hn : n ≤ d.queueNum.toNat) (h : d.Apart b n) :
    ∃ d' b', Drained t.wrapping d b n d' b' ∧ ∀ r, d.poll t b = some r ↔
      (t.overflowChecks = true → d.ProcessFits t b) ∧ r = (d', b') := by
  obtain ⟨d', b', hprocess, hdrained, hspares⟩ :=
    process_drained (t := t.wrapping) rfl hnotified hready hidx hn h
  have hown : b'.borrowed = false := hspares.borrowed.trans hborrowed
  refine ⟨d', b', hdrained, fun r => ?_⟩
  have hpoll : d.poll t.wrapping b = some (d', b') := by
    unfold poll
    rw [hprocess, Option.bind_some, hown]
    rfl
  cases ht : t.overflowChecks with
  | false =>
    rw [Target.wrapping_of_unchecked ht] at hpoll
    rw [hpoll, Option.some.injEq, eq_comm]
    exact (and_iff_right fun hchecks => absurd hchecks Bool.false_ne_true).symm
  | true =>
    unfold poll at hpoll ⊢
    rw [bind_checked_iff (fun _ => process_checked ht), hpoll, Option.some.injEq, eq_comm (a := r)]
    exact and_congr_left fun _ => ⟨fun hfits _ => hfits, fun hfits => hfits rfl⟩

/-- Rings of eight entries, both indices about to wrap. -/
def ringDisk : Blk :=
  { sectorDisk with
    queueNum := 8, queueReady := true, avail := 0x40000400, used := 0x40000600,
    lastAvail := 0xfffe, notified := true }

/-- An OUT request for the sector 1, an IN request for the same sector and a request of an
    unknown type, at the slots 6, 7 and 0. The registers of the device are at `0x0a000000`. -/
def ringMem : Bus (Mapped Empty) where
  ram := { base := 0x40000000, size := 0x1000, bytes := fun a => (List.lookup a
    [(0x00, 0x10), (0x01, 0x02), (0x03, 0x40), (0x08, 0x10), (0x0c, 0x01), (0x0e, 0x01),
      (0x10, 0x50), (0x11, 0x02), (0x13, 0x40), (0x18, 0x02), (0x1c, 0x03), (0x1e, 0x02),
      (0x20, 0x31), (0x21, 0x02), (0x23, 0x40), (0x28, 0x01), (0x2c, 0x02),
      (0x31, 0x02), (0x33, 0x40), (0x38, 0x10), (0x3c, 0x01), (0x3e, 0x04),
      (0x40, 0x40), (0x41, 0x02), (0x43, 0x40), (0x48, 0x02), (0x4c, 0x01), (0x4e, 0x05),
      (0x50, 0x30), (0x51, 0x02), (0x53, 0x40), (0x58, 0x01), (0x5c, 0x02),
      (0x60, 0x20), (0x61, 0x02), (0x63, 0x40), (0x68, 0x10), (0x6c, 0x01), (0x6e, 0x07),
      (0x70, 0x32), (0x71, 0x02), (0x73, 0x40), (0x78, 0x01), (0x7c, 0x02),
      (0x200, 0x01), (0x208, 0x01), (0x218, 0x01), (0x220, 0x08),
      (0x240, 0xA1), (0x241, 0xA2),
      (0x402, 0x01), (0x404, 0x06), (0x410, 0x03), (0x602, 0xff), (0x603, 0xff)]).getD 0 }
  devices := [⟨0x0a000000, 0x200, .own false⟩]

theorem descsAt_ringMem : descsAt ringDisk ringMem 0 = [0x40000030, 0x40000040, 0x40000050] ∧
    descsAt ringDisk ringMem 1 = [0x40000000, 0x40000010, 0x40000020] ∧
    descsAt ringDisk ringMem 2 = [0x40000060, 0x40000070] := by
  refine ⟨?_, ?_, ?_⟩ <;> decide +kernel

theorem cellsAt_ringMem : cellsAt ringDisk ringMem 0 = [0x40000230, 0x40000240, 0x40000241] ∧
    cellsAt ringDisk ringMem 1 = [0x40000231, 0x40000250, 0x40000251] ∧
    cellsAt ringDisk ringMem 2 = [0x40000232] := by
  refine ⟨?_, ?_, ?_⟩ <;> decide +kernel

theorem addrsAt_ringMem :
    addrsAt ringDisk ringMem 0 =
        [0x40000200, 0x40000208, 0x40000230, 0x40000240, 0x40000241] ∧
      addrsAt ringDisk ringMem 1 =
        [0x40000210, 0x40000218, 0x40000231, 0x40000250, 0x40000251] ∧
      addrsAt ringDisk ringMem 2 = [0x40000220, 0x40000228, 0x40000232] := by
  refine ⟨?_, ?_, ?_⟩ <;> decide +kernel

/-- The regions of `ringMem` follow each other: descriptors, buffers, rings. -/
theorem apart_ringMem : ringDisk.Apart ringMem 3 := by
  obtain ⟨hd0, hd1, hd2⟩ := descsAt_ringMem
  obtain ⟨hc0, hc1, hc2⟩ := cellsAt_ringMem
  obtain ⟨ha0, ha1, ha2⟩ := addrsAt_ringMem
  have hwf : ringMem.RamWf := by
    show 0x40000000 + 0x1000 < 2 ^ 64
    decide
  have hdescs : ∀ k < 3, ∀ desc ∈ descsAt ringDisk ringMem k,
      ringMem.InRam desc 16 ∧ desc.toNat + 16 ≤ 0x40000080 := by
    intro k hk desc hdesc
    obtain rfl | rfl | rfl : k = 0 ∨ k = 1 ∨ k = 2 := by omega
    · rw [hd0] at hdesc
      simp only [List.mem_cons, List.not_mem_nil, or_false] at hdesc
      rcases hdesc with rfl | rfl | rfl <;> decide
    · rw [hd1] at hdesc
      simp only [List.mem_cons, List.not_mem_nil, or_false] at hdesc
      rcases hdesc with rfl | rfl | rfl <;> decide
    · rw [hd2] at hdesc
      simp only [List.mem_cons, List.not_mem_nil, or_false] at hdesc
      rcases hdesc with rfl | rfl <;> decide
  have hbuffers : ∀ a, ringDisk.InBuffers ringMem 3 a → 0x40000200 ≤ a ∧ a < 0x40000260 := by
    rintro a ⟨k, hk, ha⟩
    obtain rfl | rfl | rfl : k = 0 ∨ k = 1 ∨ k = 2 := by omega
    · rw [hc0] at ha
      simp only [List.mem_cons, List.not_mem_nil, or_false] at ha
      omega
    · rw [hc1] at ha
      simp only [List.mem_cons, List.not_mem_nil, or_false] at ha
      omega
    · rw [hc2] at ha
      simp only [List.mem_cons, List.not_mem_nil, or_false] at ha
      omega
  have haddrs : ∀ k < 3, ∀ a ∈ addrsAt ringDisk ringMem k, ringMem.InRam a 1 := by
    intro k hk a ha
    obtain rfl | rfl | rfl : k = 0 ∨ k = 1 ∨ k = 2 := by omega
    · rw [ha0] at ha
      simp only [List.mem_cons, List.not_mem_nil, or_false] at ha
      rcases ha with rfl | rfl | rfl | rfl | rfl <;> decide
    · rw [ha1] at ha
      simp only [List.mem_cons, List.not_mem_nil, or_false] at ha
      rcases ha with rfl | rfl | rfl | rfl | rfl <;> decide
    · rw [ha2] at ha
      simp only [List.mem_cons, List.not_mem_nil, or_false] at ha
      rcases ha with rfl | rfl | rfl <;> decide
  have hindescs : ∀ a, ringDisk.InDescs ringMem 3 a → a < 0x40000080 := by
    rintro a ⟨k, hk, desc, hmem, -, hhi⟩
    have hlast := (hdescs k hk desc hmem).2
    omega
  have hused : ∀ a, ringDisk.InUsed a → 0x40000600 ≤ a := fun a ha => ha.1
  have havail : ∀ a, ringDisk.InAvail a → 0x40000400 ≤ a ∧ a < 0x40000414 := fun a ha => ha
  exact
    { wf := hwf
      size := ⟨3, by decide, by decide⟩
      avail := by decide
      used := by decide
      descs := fun k hk desc hmem => (hdescs k hk desc hmem).1
      usedAvail := fun a hu ha => by
        have := hused a hu
        have := havail a ha
        omega
      usedDescs := fun a hu hd => by
        have := hused a hu
        have := hindescs a hd
        omega
      buffersAvail := fun a hb ha => by
        have := hbuffers a hb
        have := havail a ha
        omega
      buffersUsed := fun a hb hu => by
        have := hbuffers a hb
        have := hused a hu
        omega
      buffersDescs := fun a hb hd => by
        have := hbuffers a hb
        have := hindescs a hd
        omega
      own := fun k hk a ha =>
        Bus.not_reachesOwn_of_inRam hwf (by decide) (haddrs k hk a ha) }

theorem process_ring_ringDisk : ∃ d' b', Drained Target.release64 ringDisk ringMem 3 d' b' ∧
    ringDisk.poll Target.release64 ringMem = some (d', b') := by
  obtain ⟨d', b', hdrained, hpoll⟩ := process_ring (t := Target.release64) (d := ringDisk) rfl rfl
    (b := ringMem) rfl (n := 3) (by decide +kernel) (by decide) apart_ringMem
  exact ⟨d', b', hdrained, (hpoll (d', b')).mpr
    ⟨fun hchecks => absurd hchecks Bool.false_ne_true, rfl⟩⟩

end Blk

end V64.Platform
