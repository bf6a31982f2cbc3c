import V64.Platform.Virtio.BlkFits
import V64.Platform.Virtio.Rings

/-!
# Block requests in RAM

A request whose chain, header and buffers lie in RAM, on the bytes of RAM: its data
buffers are the cells `cells`, and the transfer is `Scatter.gather` from them into a
range of the disk, or `Scatter.scatter` of that range to them.

* `Gathers.of_chainAt`, `HasRequest.parse_eq`: a chain in RAM is gathered as it stands.
* `ChainFits.of_visited`, `HasRequest.handleFits`: where that overflows nothing.
* `OutDone`, `InDone`: what a write and a read leave.
* `data_transfer`: in range, a write does just that in any build, and so does a read,
  or a read of the range just written, whose length fits the used ring.
* `not_data_transfer`: the length of a read of 4 GiB wraps to zero.
-/

namespace V64.Platform

open Checked Scatter V64.Interp

variable {D : Type}

/-! ## Bytes in RAM -/

theorem storeLe_one (mem : ℕ → BitVec 8) (a : ℕ) (v : BitVec 8) :
    Bytes.storeLe mem a 1 (v.setWidth 64) = Function.update mem a v := by
  funext i
  unfold Bytes.storeLe
  rcases eq_or_ne i a with rfl | hne
  · rw [if_pos ⟨le_rfl, Nat.lt_succ_self i⟩, Function.update_self, Nat.sub_self, Nat.mul_zero,
      BitVec.ushiftRight_zero, BitVec.setWidth_setWidth_of_le _ (by decide), BitVec.setWidth_eq]
  · rw [if_neg (by omega), Function.update_of_ne hne]

/-- The cells of a list of addresses. -/
def cellsOf (as : List (BitVec 64)) : List ℕ := as.map BitVec.toNat

section Bytes

variable [MmioDevice D]

theorem view_writeU8 {b : Bus D} (hwf : b.RamWf) {a : BitVec 64} (h : b.InRam a 1) (v : BitVec 8) :
    (GuestMem.writeU8 b a v).view = Function.update b.view a.toNat v :=
  (Bus.view_store_of_inRam hwf (by decide) h _).trans (storeLe_one _ _ v)

theorem sameWindow_writeU8 {b : Bus D} (hwf : b.RamWf) (a : BitVec 64) (v : BitVec 8) :
    b.SameWindow (GuestMem.writeU8 b a v) := Bus.sameWindow_store hwf a 1 _

theorem readBytes_eq {b : Bus D} (hwf : b.RamWf) {as : List (BitVec 64)}
    (h : ∀ a ∈ as, b.InRam a 1) : readBytes b as = (gather b.view (cellsOf as), b) := by
  induction as with
  | nil => rfl
  | cons a as ih =>
    obtain ⟨ha, has⟩ := List.forall_mem_cons.mp h
    rw [readBytes, Bus.readU8_eq hwf ha]
    dsimp only
    rw [ih has, Bytes.loadLe_one]
    rfl

theorem view_writeBytes {b : Bus D} (hwf : b.RamWf) {as : List (BitVec 64)}
    (h : ∀ a ∈ as, b.InRam a 1) (vs : List (BitVec 8)) :
    (writeBytes b as vs).view = scatter b.view (cellsOf as) vs ∧
      b.SameWindow (writeBytes b as vs) := by
  induction as generalizing b vs with
  | nil => exact ⟨rfl, .refl b⟩
  | cons a as ih =>
    obtain ⟨ha, has⟩ := List.forall_mem_cons.mp h
    cases vs with
    | nil => exact ⟨rfl, .refl b⟩
    | cons v vs =>
      have hsame := sameWindow_writeU8 hwf a v
      obtain ⟨hview, hwindow⟩ := ih (hsame.ramWf hwf) (fun a ha => hsame.inRam (has a ha)) vs
      rw [writeBytes]
      refine ⟨?_, hsame.trans hwindow⟩
      rw [hview, view_writeU8 hwf ha]
      rfl

end Bytes

/-! ## Buffers -/

/-- A buffer is empty or lies in RAM. -/
def Seg.InRam (b : Bus D) (s : Seg) : Prop := s.len = 0 ∨ b.InRam s.addr s.len.toNat

/-- The cells of a buffer in RAM. -/
theorem Seg.mem_addrs {b : Bus D} (hwf : b.RamWf) {s : Seg} (h : s.InRam b) {a : BitVec 64}
    (ha : a ∈ s.addrs) :
    b.InRam a 1 ∧ s.addr.toNat ≤ a.toNat ∧ a.toNat < s.addr.toNat + s.len.toNat := by
  obtain ⟨i, hi, rfl⟩ := List.mem_map.mp ha
  have hlt : i < s.len.toNat := List.mem_range.mp hi
  have hram : b.InRam s.addr s.len.toNat := by
    rcases h with hzero | hram
    · rw [hzero] at hlt
      exact absurd hlt (Nat.not_lt_zero i)
    · exact hram
  have hoff : (BitVec.ofNat 64 i).toNat = i := by
    rw [BitVec.toNat_ofNat]
    exact Nat.mod_eq_of_lt (Nat.lt_trans hlt (Nat.lt_trans s.len.isLt (by decide)))
  obtain ⟨hadd, hin⟩ := hram.sub hwf (o := BitVec.ofNat 64 i) (k := 1) (by omega)
  exact ⟨hin, by omega, by omega⟩

theorem Seg.nodup_addrs (s : Seg) : s.addrs.Nodup := by
  refine List.Nodup.map_on ?_ List.nodup_range
  intro i hi j hj heq
  have hlen := s.len.isLt
  have hi' := List.mem_range.mp hi
  have hj' := List.mem_range.mp hj
  have hcancel := (BitVec.add_right_inj s.addr).mp heq
  have hnat := congrArg BitVec.toNat hcancel
  rw [BitVec.toNat_ofNat, BitVec.toNat_ofNat, Nat.mod_eq_of_lt (by omega),
    Nat.mod_eq_of_lt (by omega)] at hnat
  exact hnat

/-- The two buffers have no byte in common. -/
def Seg.Apart (s s' : Seg) : Prop :=
  s.addr.toNat + s.len.toNat ≤ s'.addr.toNat ∨ s'.addr.toNat + s'.len.toNat ≤ s.addr.toNat

/-- Disjoint buffers in RAM have distinct cells. -/
theorem nodup_payload {b : Bus D} (hwf : b.RamWf) {data : List Seg}
    (hram : ∀ s ∈ data, s.InRam b) (hapart : data.Pairwise Seg.Apart) :
    (cellsOf (payload data)).Nodup := by
  refine List.Nodup.map (fun _ _ h => BitVec.eq_of_toNat_eq h) ?_
  induction data with
  | nil => exact List.nodup_nil
  | cons s data ih =>
    obtain ⟨hs, hdata⟩ := List.forall_mem_cons.mp hram
    obtain ⟨hfirst, hrest⟩ := List.pairwise_cons.mp hapart
    rw [payload_cons]
    refine List.nodup_append.mpr ⟨s.nodup_addrs, ih hdata hrest, ?_⟩
    rintro a ha a' ha' rfl
    obtain ⟨s', hs', hmem⟩ := List.mem_flatMap.mp ha'
    obtain ⟨-, hlo, hhi⟩ := Seg.mem_addrs hwf hs ha
    obtain ⟨-, hlo', hhi'⟩ := Seg.mem_addrs hwf (hdata s' hs') hmem
    rcases hfirst s' hs' with hle | hle <;> omega

/-! ## Chains -/

/-- The chain from the descriptor `idx`, in RAM. -/
inductive ChainAt (b : Bus D) (desc : BitVec 64) : BitVec 16 → List Seg → Prop where
  | last {idx : BitVec 16} (hram : b.InRam (descAddr desc idx) 16)
      (hend : descHasNext b.view (descAddr desc idx).toNat = false) :
      ChainAt b desc idx [descSeg b.view (descAddr desc idx).toNat]
  | cons {idx : BitVec 16} {segs : List Seg} (hram : b.InRam (descAddr desc idx) 16)
      (hnext : descHasNext b.view (descAddr desc idx).toNat = true)
      (hrest : ChainAt b desc (descNext b.view (descAddr desc idx).toNat) segs) :
      ChainAt b desc idx (descSeg b.view (descAddr desc idx).toNat :: segs)

/-- `gather` reads a descriptor in RAM and goes on at its successor, if it has one and
    `fuel` is left: one turn of the gathering loop of the block device and of `Virtq::pop`. -/
def Gathers (b : Bus D) (desc : BitVec 64)
    (gather : ℕ → BitVec 16 → Option (List Seg × Bus D)) : Prop :=
  ∀ idx, b.InRam (descAddr desc idx) 16 → ∀ fuel, gather fuel idx =
    if descHasNext b.view (descAddr desc idx).toNat then
      match fuel with
      | 0 => some ([descSeg b.view (descAddr desc idx).toNat], b)
      | fuel + 1 =>
        (gather fuel (descNext b.view (descAddr desc idx).toNat)).map
          fun r => (descSeg b.view (descAddr desc idx).toNat :: r.1, r.2)
    else some ([descSeg b.view (descAddr desc idx).toNat], b)

/-- A chain in RAM is gathered as it stands. -/
theorem Gathers.of_chainAt {b : Bus D} {desc : BitVec 64}
    {gather : ℕ → BitVec 16 → Option (List Seg × Bus D)} (hgather : Gathers b desc gather)
    {idx : BitVec 16} {segs : List Seg} (h : ChainAt b desc idx segs) {fuel : ℕ}
    (hfuel : segs.length ≤ fuel + 1) : gather fuel idx = some (segs, b) := by
  induction h generalizing fuel with
  | last hram hend => rw [hgather _ hram, hend, if_neg Bool.false_ne_true]
  | @cons idx segs hram hnext hrest ih =>
    rw [hgather _ hram, hnext, if_pos rfl]
    rw [List.length_cons] at hfuel
    have hne : 0 < segs.length := by cases hrest <;> exact Nat.succ_pos _
    cases fuel with
    | zero => omega
    | succ fuel =>
      dsimp only
      rw [ih (by omega)]
      rfl

/-- The descriptors of a chain in RAM lie in RAM. -/
theorem ChainAt.inRam_visited {b : Bus D} {desc : BitVec 64} {idx : BitVec 16} {segs : List Seg}
    (h : ChainAt b desc idx segs) (fuel : ℕ) :
    ∀ a ∈ visited b.view desc fuel idx, b.InRam a 16 := by
  induction h generalizing fuel with
  | last hram hend =>
    intro a ha
    rcases mem_visited.mp ha with rfl | ⟨hnext, -⟩
    · exact hram
    · exact absurd (hend.symm.trans hnext) Bool.false_ne_true
  | cons hram hnext hrest ih =>
    intro a ha
    rcases mem_visited.mp ha with rfl | ⟨-, f, -, ha⟩
    · exact hram
    · exact ih f a ha

theorem ChainAt.length_pos {b : Bus D} {desc : BitVec 64} {idx : BitVec 16} {segs : List Seg}
    (h : ChainAt b desc idx segs) : 0 < segs.length := by
  cases h <;> exact Nat.succ_pos _

/-- With enough turns for the chain, more of them visit no more descriptors. -/
theorem ChainAt.mem_visited_of_length {b : Bus D} {desc : BitVec 64} {idx : BitVec 16}
    {segs : List Seg} (h : ChainAt b desc idx segs) {fuel fuel' : ℕ}
    (hfuel : segs.length ≤ fuel + 1) {a : BitVec 64} (ha : a ∈ visited b.view desc fuel' idx) :
    a ∈ visited b.view desc fuel idx := by
  induction h generalizing fuel fuel' with
  | last hram hend =>
    rcases mem_visited.mp ha with rfl | ⟨hnext, -⟩
    · exact mem_visited.mpr (.inl rfl)
    · exact absurd (hend.symm.trans hnext) Bool.false_ne_true
  | @cons idx segs hram hnext hrest ih =>
    rcases mem_visited.mp ha with rfl | ⟨-, f', -, ha⟩
    · exact mem_visited.mpr (.inl rfl)
    · have hpos : 0 < segs.length := hrest.length_pos
      rw [List.length_cons] at hfuel
      obtain ⟨f, rfl⟩ : ∃ f, fuel = f + 1 := ⟨fuel - 1, by omega⟩
      exact mem_visited.mpr (.inr ⟨hnext, f, rfl, ih (by omega) ha⟩)

/-- A chain in RAM fits if the address of none of its descriptors wraps around. -/
theorem ChainFits.of_visited [MmioDevice D] {b : Bus D} (hwf : b.RamWf) {desc : BitVec 64}
    {visit : BitVec 64 → Bus D → Bool × BitVec 16 × Bus D}
    (hvisit : ∀ d, b.InRam d 16 →
      visit d b = (descHasNext b.view d.toNat, descNext b.view d.toNat, b))
    {last : ℕ} (hlast : last ≤ 14) {fuel : ℕ} {idx : BitVec 16}
    (hram : ∀ a ∈ visited b.view desc fuel idx, b.InRam a 16)
    (hwrap : ∀ a ∈ visited b.view desc fuel idx, desc ≤ a) :
    ChainFits visit last desc fuel idx b := by
  have hfirst : ∀ idx : BitVec 16, b.InRam (descAddr desc idx) 16 → desc ≤ descAddr desc idx →
      desc.toNat + 16 * idx.toNat + 14 < 2 ^ 64 ∧
        visit (desc + idx.setWidth 64 * 16) b =
          (descHasNext b.view (descAddr desc idx).toNat,
            descNext b.view (descAddr desc idx).toNat, b) := by
    intro idx hin hle
    have hend := hin.2
    rw [toNat_descAddr hle] at hend
    unfold Bus.RamWf at hwf
    exact ⟨by omega, hvisit _ hin⟩
  induction fuel generalizing idx with
  | zero =>
    have hmem : descAddr desc idx ∈ visited b.view desc 0 idx := mem_visited.mpr (.inl rfl)
    obtain ⟨hend, hread⟩ := hfirst idx (hram _ hmem) (hwrap _ hmem)
    rw [ChainFits, hread]
    exact ⟨by omega, fun _ => trivial⟩
  | succ fuel ih =>
    have hmem : descAddr desc idx ∈ visited b.view desc (fuel + 1) idx :=
      mem_visited.mpr (.inl rfl)
    obtain ⟨hend, hread⟩ := hfirst idx (hram _ hmem) (hwrap _ hmem)
    rw [ChainFits, hread]
    refine ⟨by omega, fun hnext => ⟨hend, ih (fun a ha => ?_) fun a ha => ?_⟩⟩
    · exact hram a (mem_visited.mpr (.inr ⟨hnext, fuel, rfl, ha⟩))
    · exact hwrap a (mem_visited.mpr (.inr ⟨hnext, fuel, rfl, ha⟩))

section Chain

variable [MmioDevice D] {t : Target} (ht : t.overflowChecks = false) {b : Bus D} (hwf : b.RamWf)

include ht hwf

theorem Blk.gathers (desc : BitVec 64) :
    Gathers b desc fun fuel idx => Blk.gather t desc fuel idx b := by
  intro idx hram fuel
  obtain ⟨hlen, hlenRam⟩ := hram.sub hwf (o := 8) (k := 4) (by decide)
  obtain ⟨hflags, hflagsRam⟩ := hram.sub hwf (o := 12) (k := 2) (by decide)
  obtain ⟨hnext, hnextRam⟩ := hram.sub hwf (o := 14) (k := 2) (by decide)
  have haddrRam : b.InRam (descAddr desc idx) 8 := ⟨hram.1, by have := hram.2; omega⟩
  have hd : desc + idx.setWidth 64 * 16 = descAddr desc idx := rfl
  dsimp only
  rw [Blk.gather.eq_def]
  simp only [Target.add_of_wrap ht, Option.bind_eq_bind, Option.bind_some, hd,
    Bus.readU64_eq hwf haddrRam, Bus.readU32_eq hwf hlenRam, Bus.readU16_eq hwf hflagsRam,
    Bus.readU16_eq hwf hnextRam, hlen, hflags, hnext]
  cases fuel with
  | zero => rfl
  | succ fuel =>
    simp only [Option.map_eq_bind]
    rfl

omit ht in
theorem Blk.visit_eq {d : BitVec 64} (hram : b.InRam d 16) :
    Blk.visit d b = (descHasNext b.view d.toNat, descNext b.view d.toNat, b) := by
  obtain ⟨-, hlenRam⟩ := hram.sub hwf (o := 8) (k := 4) (by decide)
  obtain ⟨hflags, hflagsRam⟩ := hram.sub hwf (o := 12) (k := 2) (by decide)
  obtain ⟨hnext, hnextRam⟩ := hram.sub hwf (o := 14) (k := 2) (by decide)
  have haddrRam : b.InRam d 8 := ⟨hram.1, by have := hram.2; omega⟩
  simp only [Blk.visit, Bus.readU64_eq hwf haddrRam, Bus.readU32_eq hwf hlenRam,
    Bus.readU16_eq hwf hflagsRam, Bus.readU16_eq hwf hnextRam, hflags, hnext]
  rfl

end Chain

/-! ## Requests -/

namespace Blk

/-- The chain at `head` holds the request `r` between the descriptors `hdr` of its
    header and `last` of its status byte, with all its parts in RAM and its buffers
    apart from each other and from the status byte. -/
structure HasRequest (b : Bus D) (desc : BitVec 64) (head : BitVec 16) (hdr last : Seg)
    (r : Request) : Prop where
  chain : ChainAt b desc head (hdr :: (r.data ++ [last]))
  length : (hdr :: (r.data ++ [last])).length ≤ blkQueueMax
  header : b.InRam hdr.addr 16
  reqType : Bytes.loadLe 32 b.view hdr.addr.toNat 4 = r.reqType
  sector : Bytes.loadLe 64 b.view (hdr.addr.toNat + 8) 8 = r.sector
  data : ∀ s ∈ r.data, s.InRam b
  apart : r.data.Pairwise Seg.Apart
  status : last.addr = r.statusAddr
  statusRam : b.InRam r.statusAddr 1
  statusApart : ∀ s ∈ r.data, s.addr.toNat + s.len.toNat ≤ r.statusAddr.toNat ∨
    r.statusAddr.toNat + 1 ≤ s.addr.toNat

/-- The cells of the data buffers of a request. -/
def Request.cells (r : Request) : List ℕ := cellsOf (payload r.data)

theorem Request.length_cells (r : Request) : r.cells.length = (payload r.data).length :=
  List.length_map _

namespace HasRequest

variable {b : Bus D} {desc : BitVec 64} {head : BitVec 16} {hdr last : Seg} {r : Request}
  (h : HasRequest b desc head hdr last r) (hwf : b.RamWf)

include h hwf

theorem payload_inRam : ∀ a ∈ payload r.data, b.InRam a 1 := by
  intro a ha
  obtain ⟨s, hs, hmem⟩ := List.mem_flatMap.mp ha
  exact (Seg.mem_addrs hwf (h.data s hs) hmem).1

theorem status_not_mem : r.statusAddr.toNat ∉ r.cells := by
  intro hmem
  obtain ⟨a, ha, heq⟩ := List.mem_map.mp hmem
  obtain ⟨s, hs, hmem⟩ := List.mem_flatMap.mp ha
  obtain ⟨-, hlo, hhi⟩ := Seg.mem_addrs hwf (h.data s hs) hmem
  rcases h.statusApart s hs with hle | hle <;> omega

theorem nodup_cells : r.cells.Nodup := nodup_payload hwf h.data h.apart

variable [MmioDevice D]

theorem parse_eq {t : Target} (ht : t.overflowChecks = false) {d : Blk} (hd : d.desc = desc) :
    parse t d b head = some (some r, b) := by
  obtain ⟨hsector, hsectorRam⟩ := h.header.sub hwf (o := 8) (k := 8) (by decide)
  have htypeRam : b.InRam hdr.addr 4 := ⟨h.header.1, by have := h.header.2; omega⟩
  have hchain := (Blk.gathers ht hwf desc).of_chainAt h.chain (Nat.le_succ_of_le h.length)
  have hoff : (8 : BitVec 64).toNat = 8 := rfl
  unfold parse
  rw [hd, hchain]
  simp only [Option.bind_eq_bind, Option.bind_some, List.getLast?_concat, List.dropLast_concat,
    Target.add_of_wrap ht, Bus.readU32_eq hwf htypeRam, Bus.readU64_eq hwf hsectorRam, hsector,
    h.status, hoff, h.reqType, h.sector]
  rfl

/-- A request in RAM fits where its execution does. -/
theorem handleFits {t : Target} {d : Blk} (hd : d.desc = desc)
    (htable : ∀ a ∈ visited b.view desc blkQueueMax head, desc ≤ a) (hexec : ExecuteFits t r) :
    HandleFits t d b head := by
  have hparse := h.parse_eq hwf (t := t.wrapping) rfl hd
  have hchain := (Blk.gathers (t := t.wrapping) rfl hwf desc).of_chainAt h.chain
    (Nat.le_succ_of_le h.length)
  refine ⟨⟨?_, fun hdr' seg rest mem' hgather => ?_⟩, fun req mem' hreq => ?_⟩
  · rw [hd]
    exact ChainFits.of_visited hwf (fun _ hram => Blk.visit_eq hwf hram) le_rfl
      (h.chain.inRam_visited _) htable
  · rw [hd, hchain] at hgather
    obtain ⟨rfl, -⟩ := List.cons.inj (Prod.mk.inj (Option.some.inj hgather)).1
    have hend := h.header.2
    unfold Bus.RamWf at hwf
    omega
  · rw [hparse] at hreq
    cases hreq
    exact hexec

end HasRequest

/-! ## Transfers -/

/-- The end of the range of a request. -/
def Request.stop (r : Request) : ℕ := r.start + (payload r.data).length

/-- What an OUT request leaves: the range of the disk is the concatenation of the
    buffers, and the rest of the disk is as it was. -/
structure OutDone (img : List (BitVec 8)) (b : Bus D) (r : Request) (s : Served (Bus D)) :
    Prop where
  status : s.status = some blkSOk
  range : slice s.disk r.start (payload r.data).length = Scatter.gather b.view r.cells
  rest : ∀ i, i < r.start ∨ r.stop ≤ i → s.disk[i]? = img[i]?
  length : s.disk.length = img.length

/-- What an IN request leaves: the buffers hold the range of the disk, in order, and
    besides them only the status byte has changed. The length reported is the
    payload's and the status byte's. -/
structure InDone (img : List (BitVec 8)) (b : Bus D) (r : Request) (s : Served (Bus D)) :
    Prop where
  status : s.status = some blkSOk
  disk : s.disk = img
  buffers : Scatter.gather s.mem.view r.cells = slice img r.start (payload r.data).length
  frame : ∀ a, a ∉ r.cells → a ≠ r.statusAddr.toNat → s.mem.view a = b.view a
  written : s.written.toNat = (payload r.data).length + 1

theorem sum_len (data : List Seg) :
    (data.map Seg.len).sum = BitVec.ofNat 32 (payload data).length := by
  induction data with
  | nil => rfl
  | cons s data ih =>
    rw [List.map_cons, List.sum_cons, ih, payload_cons, List.length_append, Seg.length_addrs,
      BitVec.ofNat_add, BitVec.ofNat_toNat, BitVec.setWidth_eq]

theorem reported_in {r : Request} (hr : r.reqType = blkTIn) :
    reported r blkSOk = BitVec.ofNat 32 ((payload r.data).length + 1) := by
  rw [reported, if_pos ⟨rfl, hr⟩, sum_len, BitVec.ofNat_add]
  rfl

section Transfer

variable [MmioDevice D] {t : Target} {img : List (BitVec 8)}
  (hdisk : img.length < 2 ^ (t.usizeBits - 1)) {b : Bus D} (hwf : b.RamWf) {desc : BitVec 64}
  {head : BitVec 16} {hdr last : Seg} {r : Request} (h : HasRequest b desc head hdr last r)
  (hrange : r.stop ≤ img.length)

include hdisk hwf h hrange

omit [MmioDevice D] in
/-- A request in range fits, but for the length that an IN request reports. -/
theorem executeFits_iff :
    ExecuteFits t r ↔ (r.reqType = blkTIn → (payload r.data).length + 1 < 2 ^ 32) := by
  have hpow : 2 ^ (t.usizeBits - 1) < 2 ^ t.usizeBits :=
    Nat.pow_lt_pow_right (by decide) (by have := t.le_usizeBits; omega)
  have hwide : 2 ^ t.usizeBits ≤ 2 ^ 64 :=
    Nat.pow_le_pow_right (by decide) (by rcases t.usize with hw | hw <;> omega)
  have hbuffers : ∀ seg ∈ r.data, BufferFits seg.addr seg.len.toNat := by
    intro seg hseg i hi
    rcases h.data seg hseg with hzero | hram
    · rw [hzero] at hi
      exact absurd hi (Nat.not_lt_zero i)
    · have hend := hram.2
      unfold Bus.RamWf at hwf
      omega
  unfold Request.stop at hrange
  refine ⟨fun hfits => hfits.reported, fun hlen => ⟨fun _ => ⟨by omega, hbuffers⟩, hlen,
    fun _ => ⟨by omega, ?_, hbuffers⟩⟩⟩
  rw [Nat.mod_eq_of_lt (by omega)]
  omega

/-- Handling a request in range is executing it without overflow checks, or with checks
    a panic over the length that an IN request reports. -/
theorem handleRequest_iff {d : Blk} (hd : d.desc = desc)
    (htable : t.overflowChecks = true → ∀ a ∈ visited b.view desc blkQueueMax head, desc ≤ a)
    {s : Served (Bus D)} : handleRequest t d b head = some s ↔
      (t.overflowChecks = true → r.reqType = blkTIn → (payload r.data).length + 1 < 2 ^ 32) ∧
        execute t.wrapping d.disk r b = some s := by
  have hwrapping : handleRequest t.wrapping d b head = execute t.wrapping d.disk r b :=
    handleRequest_eq (h.parse_eq hwf (t := t.wrapping) rfl hd)
  cases ht : t.overflowChecks with
  | false =>
    rw [Target.wrapping_of_unchecked ht] at hwrapping ⊢
    rw [hwrapping]
    exact (and_iff_right fun hchecks => absurd hchecks Bool.false_ne_true).symm
  | true =>
    rw [handleRequest_checked ht, hwrapping]
    refine and_congr_left fun _ => ⟨fun hfits _ => ?_, fun hlen => ?_⟩
    · exact (hfits.2 r b (h.parse_eq hwf (t := t.wrapping) rfl hd)).reported
    · have hexec := (executeFits_iff hdisk hwf h hrange).mpr (hlen rfl)
      exact h.handleFits hwf hd (htable ht) hexec

variable {s : Served (Bus D)} (hs : execute t.wrapping img r b = some s)

include hs

omit hwf h in
theorem transferred : Transferred img r b s := by
  refine transferred_of_inRange (t := t.wrapping) rfl hdisk hs fun i hi => ?_
  unfold Request.stop at hrange
  omega

theorem outDone (hr : r.reqType = blkTOut) : OutDone img b r s := by
  have hdone := (transferred hdisk hrange hs).2 hr
  rw [readBytes_eq hwf (h.payload_inRam hwf)] at hdone
  change s.disk = splice img r.start (Scatter.gather b.view r.cells) at hdone
  have hlen : (Scatter.gather b.view r.cells).length = (payload r.data).length := by
    rw [Scatter.gather, List.length_map, Request.length_cells]
  have hstop : r.start + (Scatter.gather b.view r.cells).length ≤ img.length := by
    rwa [hlen]
  refine ⟨?_, ?_, fun i hi => ?_, ?_⟩
  · rw [execute_out (t := t.wrapping) rfl img hr] at hs
    rw [← Option.some.inj hs]
  · rw [hdone, ← hlen]
    exact slice_splice (by omega)
  · rw [hdone]
    refine getElem?_splice hstop ?_
    rwa [hlen]
  · rw [hdone, length_splice hstop]

/-- An IN request has been served, if the length that it reports is the one expected. -/
theorem inDone_iff (hr : r.reqType = blkTIn) :
    InDone img b r s ↔ (payload r.data).length + 1 < 2 ^ 32 := by
  have hreported : s.written = BitVec.ofNat 32 ((payload r.data).length + 1) := by
    rw [execute_in (t := t.wrapping) rfl img hr] at hs
    rw [← Option.some.inj hs]
    exact reported_in hr
  refine ⟨fun hdone => ?_, fun hlen => ?_⟩
  · rw [← hdone.written]
    exact s.written.isLt
  obtain ⟨himg, hmem⟩ := (transferred hdisk hrange hs).1 hr
  have hin := h.payload_inRam hwf
  obtain ⟨hview, hwindow⟩ := view_writeBytes hwf hin (slice img r.start (payload r.data).length)
  have hstatus := hwindow.inRam h.statusRam
  have hfinal : s.mem.view = Function.update
      (scatter b.view r.cells (slice img r.start (payload r.data).length))
      r.statusAddr.toNat blkSOk := by
    rw [hmem, view_writeU8 (hwindow.ramWf hwf) hstatus, hview]
    rfl
  have hcells : r.cells.length = (slice img r.start (payload r.data).length).length := by
    rw [Request.length_cells, length_slice hrange]
  refine ⟨?_, himg, ?_, fun a ha hne => ?_, ?_⟩
  · rw [execute_in (t := t.wrapping) rfl img hr] at hs
    rw [← Option.some.inj hs]
  · -- the status byte is none of the cells
    have hcongr : Scatter.gather s.mem.view r.cells = Scatter.gather
        (scatter b.view r.cells (slice img r.start (payload r.data).length)) r.cells := by
      refine gather_congr fun a ha => ?_
      have hne : a ≠ r.statusAddr.toNat := by
        rintro rfl
        exact h.status_not_mem hwf ha
      rw [hfinal, Function.update_of_ne hne]
    rw [hcongr, gather_scatter (h.nodup_cells hwf) hcells]
  · rw [hfinal, Function.update_of_ne hne, scatter_of_not_mem ha]
  · rw [hreported, BitVec.toNat_ofNat, Nat.mod_eq_of_lt hlen]

end Transfer

section Requests

variable [MmioDevice D] {t : Target} {d : Blk} (hdisk : d.disk.length < 2 ^ (t.usizeBits - 1))
  {b : Bus D} (hwf : b.RamWf) {head : BitVec 16} {hdr last : Seg} {r : Request}
  (h : HasRequest b d.desc head hdr last r)
  (htable : t.overflowChecks = true → ∀ a ∈ visited b.view d.desc blkQueueMax head, d.desc ≤ a)
  (hrange : r.stop ≤ d.disk.length)

include hdisk hwf h htable hrange

theorem in_transfer (hr : r.reqType = blkTIn) :
    (∃ s, handleRequest t d b head = some s ∧ InDone d.disk b r s) ↔
      (payload r.data).length + 1 < 2 ^ 32 := by
  have hiff := @handleRequest_iff _ _ t _ hdisk _ hwf _ _ _ _ _ h hrange d rfl htable
  constructor
  · rintro ⟨s, hs, hdone⟩
    exact (inDone_iff hdisk hwf h hrange (hiff.mp hs).2 hr).mp hdone
  · intro hlen
    obtain ⟨s, hs⟩ := execute_total (t := t.wrapping) rfl d.disk r b
    exact ⟨s, hiff.mpr ⟨fun _ _ => hlen, hs⟩, (inDone_iff hdisk hwf h hrange hs hr).mpr hlen⟩

theorem out_transfer (hr : r.reqType = blkTOut) :
    ∃ s, handleRequest t d b head = some s ∧ OutDone d.disk b r s := by
  obtain ⟨s, hs⟩ := execute_total (t := t.wrapping) rfl d.disk r b
  have hout : r.reqType ≠ blkTIn := by
    rw [hr]
    decide
  refine ⟨s, ?_, outDone hdisk hwf h hrange hs hr⟩
  exact (handleRequest_iff hdisk hwf h hrange rfl htable).mpr ⟨fun _ hin => absurd hin hout, hs⟩

end Requests

/-- A request in RAM whose range lies inside the disk. A write replaces exactly the
    range. A read fills exactly the buffers and reports its length, and a read of the
    range just written, with whatever buffers, returns what was written, exactly when
    the length to report is below `2 ^ 32`. -/
theorem data_transfer [MmioDevice D] {t : Target} {d : Blk}
    (hdisk : d.disk.length < 2 ^ (t.usizeBits - 1)) {b : Bus D} (hwf : b.RamWf)
    {head : BitVec 16} {hdr last : Seg} {r : Request} (h : HasRequest b d.desc head hdr last r)
    (htable : t.overflowChecks = true → ∀ a ∈ visited b.view d.desc blkQueueMax head, d.desc ≤ a)
    (hrange : r.stop ≤ d.disk.length) :
    (r.reqType = blkTIn →
        ((∃ s, handleRequest t d b head = some s ∧ InDone d.disk b r s) ↔
          (payload r.data).length + 1 < 2 ^ 32)) ∧
      (r.reqType = blkTOut →
        ∃ s, handleRequest t d b head = some s ∧ OutDone d.disk b r s ∧
          ∀ (d' : Blk) (b' : Bus D) (head' : BitVec 16) (hdr' last' : Seg) (r' : Request),
            d'.disk = s.disk → b'.RamWf → HasRequest b' d'.desc head' hdr' last' r' →
            (t.overflowChecks = true →
              ∀ a ∈ visited b'.view d'.desc blkQueueMax head', d'.desc ≤ a) →
            r'.reqType = blkTIn → r'.sector = r.sector →
            (payload r'.data).length = (payload r.data).length →
            ((∃ s', handleRequest t d' b' head' = some s' ∧ InDone s.disk b' r' s' ∧
                Scatter.gather s'.mem.view r'.cells = Scatter.gather b.view r.cells) ↔
              (payload r.data).length + 1 < 2 ^ 32)) := by
  refine ⟨in_transfer hdisk hwf h htable hrange, fun hr => ?_⟩
  obtain ⟨s, hs, hout⟩ := out_transfer hdisk hwf h htable hrange hr
  refine ⟨s, hs, hout, fun d' b' head' hdr' last' r' himg hwf' h' htable' hr' hsector hlen => ?_⟩
  have hstart : r'.start = r.start := by
    unfold Request.start
    rw [hsector]
  have hrange' : r'.stop ≤ d'.disk.length := by
    unfold Request.stop at hrange ⊢
    rwa [hstart, hlen, himg, hout.length]
  have hdisk' : d'.disk.length < 2 ^ (t.usizeBits - 1) := by rwa [himg, hout.length]
  rw [← hlen, ← in_transfer hdisk' hwf' h' htable' hrange' hr', himg]
  constructor
  · rintro ⟨s', hs', hin, -⟩
    exact ⟨s', hs', hin⟩
  · rintro ⟨s', hs', hin⟩
    refine ⟨s', hs', hin, ?_⟩
    rw [hin.buffers, hstart, hlen, hout.range]

/-! ## A sector and a disk too large -/

/-- A page of RAM at `0x40000000` with the bytes of `l`. -/
def requestPage (l : List (ℕ × BitVec 8)) : Bus Empty where
  ram := { base := 0x40000000, size := 0x1000, bytes := fun a => (List.lookup a l).getD 0 }
  devices := []

/-- A device with a disk of two sectors. -/
def sectorDisk : Blk :=
  { Blk.new GicInner.new 48 (List.replicate 1024 0) with desc := 0x40000000 }

/-- An OUT request for the sector 1, of three, no and two bytes. -/
def sectorOut : Bus Empty := requestPage
  [(1, 0x01), (3, 0x40), (8, 0x10), (12, 0x01), (14, 0x01),
    (17, 0x02), (19, 0x40), (24, 0x03), (28, 0x01), (30, 0x02),
    (32, 0x10), (33, 0x02), (35, 0x40), (44, 0x01), (46, 0x03),
    (48, 0x20), (49, 0x02), (51, 0x40), (56, 0x02), (60, 0x01), (62, 0x04),
    (65, 0x03), (67, 0x40), (72, 0x01), (76, 0x02),
    (0x100, 0x01), (0x108, 0x01),
    (0x200, 0xA1), (0x201, 0xA2), (0x202, 0xA3), (0x220, 0xB1), (0x221, 0xB2)]

/-- An IN request for the sector 1, of one and four bytes. -/
def sectorIn : Bus Empty := requestPage
  [(1, 0x01), (3, 0x40), (8, 0x10), (12, 0x01), (14, 0x01),
    (17, 0x02), (19, 0x40), (24, 0x01), (28, 0x03), (30, 0x02),
    (32, 0x40), (33, 0x02), (35, 0x40), (40, 0x04), (44, 0x03), (46, 0x03),
    (49, 0x03), (51, 0x40), (56, 0x01), (60, 0x02),
    (0x108, 0x01)]

/-- The requests of `sectorOut` and `sectorIn`. -/
def outRequest : Request where
  reqType := blkTOut
  sector := 1
  data := [⟨0x40000200, 3, false⟩, ⟨0x40000210, 0, false⟩, ⟨0x40000220, 2, false⟩]
  statusAddr := 0x40000300

@[inherit_doc outRequest] def inRequest : Request where
  reqType := blkTIn
  sector := 1
  data := [⟨0x40000200, 1, true⟩, ⟨0x40000240, 4, true⟩]
  statusAddr := 0x40000300

theorem hasRequest_sectorOut :
    HasRequest sectorOut 0x40000000 0 ⟨0x40000100, 16, false⟩ ⟨0x40000300, 1, true⟩ outRequest where
  chain := by
    have hsegs : [descSeg sectorOut.view 0x40000000, descSeg sectorOut.view 0x40000010,
        descSeg sectorOut.view 0x40000020, descSeg sectorOut.view 0x40000030,
        descSeg sectorOut.view 0x40000040] =
        ⟨0x40000100, 16, false⟩ :: (outRequest.data ++ [⟨0x40000300, 1, true⟩]) := by
      decide +kernel
    rw [← hsegs]
    exact .cons (by decide) (by decide) (.cons (by decide) (by decide) (.cons (by decide)
      (by decide) (.cons (by decide) (by decide) (.last (by decide) (by decide)))))
  length := by decide
  header := by decide
  reqType := by decide +kernel
  sector := by decide +kernel
  data s hs := by
    simp only [outRequest, List.mem_cons, List.not_mem_nil, or_false] at hs
    rcases hs with rfl | rfl | rfl
    · exact .inr (by decide)
    · exact .inl rfl
    · exact .inr (by decide)
  apart := by
    unfold outRequest Seg.Apart
    decide
  status := rfl
  statusRam := by decide
  statusApart := by decide

theorem hasRequest_sectorIn :
    HasRequest sectorIn 0x40000000 0 ⟨0x40000100, 16, false⟩ ⟨0x40000300, 1, true⟩ inRequest where
  chain := by
    have hsegs : [descSeg sectorIn.view 0x40000000, descSeg sectorIn.view 0x40000010,
        descSeg sectorIn.view 0x40000020, descSeg sectorIn.view 0x40000030] =
        ⟨0x40000100, 16, false⟩ :: (inRequest.data ++ [⟨0x40000300, 1, true⟩]) := by
      decide +kernel
    rw [← hsegs]
    exact .cons (by decide) (by decide) (.cons (by decide) (by decide) (.cons (by decide)
      (by decide) (.last (by decide) (by decide))))
  length := by decide
  header := by decide
  reqType := by decide +kernel
  sector := by decide +kernel
  data s hs := by
    simp only [inRequest, List.mem_cons, List.not_mem_nil, or_false] at hs
    rcases hs with rfl | rfl
    · exact .inr (by decide)
    · exact .inr (by decide)
  apart := by
    unfold inRequest Seg.Apart
    decide
  status := rfl
  statusRam := by decide
  statusApart := by decide

theorem table_sectorDisk :
    (∀ a ∈ visited sectorOut.view sectorDisk.desc blkQueueMax 0, sectorDisk.desc ≤ a) ∧
      ∀ a ∈ visited sectorIn.view sectorDisk.desc blkQueueMax 0, sectorDisk.desc ≤ a := by
  have hout : visited sectorOut.view 0x40000000 blkQueueMax 0 =
      [0x40000000, 0x40000010, 0x40000020, 0x40000030, 0x40000040] := by decide +kernel
  have hin : visited sectorIn.view 0x40000000 blkQueueMax 0 =
      [0x40000000, 0x40000010, 0x40000020, 0x40000030] := by decide +kernel
  show (∀ a ∈ visited sectorOut.view 0x40000000 blkQueueMax 0, 0x40000000 ≤ a) ∧
    ∀ a ∈ visited sectorIn.view 0x40000000 blkQueueMax 0, 0x40000000 ≤ a
  rw [hout, hin]
  simp

/-- What `sectorOut` wrote to the sector 1, `sectorIn` reads. -/
theorem data_transfer_sectorDisk :
    ∃ s s', handleRequest Target.debug64 sectorDisk sectorOut 0 = some s ∧
      OutDone sectorDisk.disk sectorOut outRequest s ∧
      handleRequest Target.debug64 { sectorDisk with disk := s.disk } sectorIn 0 = some s' ∧
      InDone s.disk sectorIn inRequest s' ∧
      Scatter.gather s'.mem.view inRequest.cells = [0xA1, 0xA2, 0xA3, 0xB1, 0xB2] := by
  have hwf (l : List (ℕ × BitVec 8)) : (requestPage l).RamWf := by
    show 0x40000000 + 0x1000 < 2 ^ 64
    decide
  have hlen : sectorDisk.disk.length = 1024 := List.length_replicate
  obtain ⟨s, hs, hout, hread⟩ := (data_transfer (t := Target.debug64) (d := sectorDisk)
    (by rw [hlen]; decide) (hwf _) hasRequest_sectorOut
    (fun _ => table_sectorDisk.1) (by rw [hlen]; decide)).2 rfl
  obtain ⟨s', hs', hin, hbytes⟩ := (hread { sectorDisk with disk := s.disk } sectorIn 0 _ _
    inRequest rfl (hwf _) hasRequest_sectorIn (fun _ => table_sectorDisk.2) rfl rfl rfl).mpr
    (by decide)
  refine ⟨s, s', hs, hout, hs', hin, ?_⟩
  rw [hbytes]
  decide +kernel

/-- A device with the disk `img`. -/
def hugeDisk (img : List (BitVec 8)) : Blk :=
  { Blk.new GicInner.new 48 img with desc := 0x40000000 }

/-- 8 GiB of RAM with an IN request for all but the last byte of a disk of 4 GiB. -/
def hugeIn : Bus Empty where
  ram := { base := 0x40000000, size := 0x200000000, bytes := fun a =>
    (List.lookup a [(1, 0x01), (3, 0x40), (8, 0x10), (12, 0x01), (14, 0x01),
      (19, 0x80), (24, 0xff), (25, 0xff), (26, 0xff), (27, 0xff), (28, 0x03), (30, 0x02),
      (33, 0x03), (35, 0x40), (40, 0x01), (44, 0x02)]).getD 0 }
  devices := []

/-- The request of `hugeIn`. -/
def hugeRequest : Request where
  reqType := blkTIn
  sector := 0
  data := [⟨0x80000000, 0xffffffff, true⟩]
  statusAddr := 0x40000300

theorem hasRequest_hugeIn :
    HasRequest hugeIn 0x40000000 0 ⟨0x40000100, 16, false⟩ ⟨0x40000300, 1, true⟩ hugeRequest where
  chain := by
    have hsegs : [descSeg hugeIn.view 0x40000000, descSeg hugeIn.view 0x40000010,
        descSeg hugeIn.view 0x40000020] =
        ⟨0x40000100, 16, false⟩ :: (hugeRequest.data ++ [⟨0x40000300, 1, true⟩]) := by
      decide +kernel
    rw [← hsegs]
    exact .cons (by decide) (by decide) (.cons (by decide) (by decide) (.last (by decide)
      (by decide)))
  length := by decide
  header := by decide
  reqType := by decide +kernel
  sector := by decide +kernel
  data s hs := by
    obtain rfl := List.mem_singleton.mp hs
    exact .inr (by decide)
  apart := List.pairwise_singleton _ _
  status := rfl
  statusRam := by decide
  statusApart := by decide

/-- The length of `hugeRequest` and its status byte does not fit 32 bits. -/
theorem not_inDone_hugeIn {img : List (BitVec 8)} (himg : img.length = 2 ^ 32) :
    (hugeDisk img).disk.length < 2 ^ 63 ∧ hugeRequest.stop ≤ (hugeDisk img).disk.length ∧
      ¬∃ s, handleRequest Target.release64 (hugeDisk img) hugeIn 0 = some s ∧
        InDone (hugeDisk img).disk hugeIn hugeRequest s := by
  have hwf : hugeIn.RamWf := by
    show 0x40000000 + 0x200000000 < 2 ^ 64
    decide
  have hpayload : (payload hugeRequest.data).length = 0xffffffff := by
    rw [length_payload]
    rfl
  have hdisk : (hugeDisk img).disk.length = 2 ^ 32 := himg
  have hsmall : (hugeDisk img).disk.length < 2 ^ 63 := by
    rw [hdisk]
    decide
  have hstop : hugeRequest.stop ≤ (hugeDisk img).disk.length := by
    have hstart : hugeRequest.start = 0 := rfl
    rw [hdisk, Request.stop, hpayload, hstart]
    decide
  refine ⟨hsmall, hstop, fun hdone => ?_⟩
  have hlt := (in_transfer (t := Target.release64) hsmall hwf hasRequest_hugeIn
    (fun hchecks => absurd hchecks Bool.false_ne_true) hstop rfl).mp hdone
  rw [hpayload] at hlt
  exact absurd hlt (by decide)

/-- The device reports zero for `hugeRequest`. -/
theorem not_data_transfer : ¬ ∀ (d : Blk) (b : Bus Empty) (head : BitVec 16) (hdr last : Seg)
    (r : Request), d.disk.length < 2 ^ 63 → b.RamWf → HasRequest b d.desc head hdr last r →
    r.stop ≤ d.disk.length → r.reqType = blkTIn →
      ∃ s, handleRequest Target.release64 d b head = some s ∧ InDone d.disk b r s := by
  intro hall
  have hwf : hugeIn.RamWf := by
    show 0x40000000 + 0x200000000 < 2 ^ 64
    decide
  obtain ⟨hsmall, hstop, hnot⟩ :=
    not_inDone_hugeIn (List.length_replicate (n := 2 ^ 32) (a := (0 : BitVec 8)))
  exact hnot (hall _ _ _ _ _ _ hsmall hwf hasRequest_hugeIn hstop rfl)

end Blk

end V64.Platform
