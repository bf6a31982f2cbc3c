import V64.Platform.Virtio.DeviceFits
import V64.Platform.Virtio.Transfer

/-!
# Where the block device's arithmetic fits

A notification of the block device in a build with overflow checks does what it does
without, where the descriptors, the rings, the buffers and the range on the disk end below
the width of their types. What fits is said with unbounded integers.

* `execute_checked`: a request.
* `drain_checked`, `process_checked`: the requests of a notification.
* `process_isSome`: without overflow checks a notification that fits does not panic.
-/

namespace V64.Platform.Blk

open Checked Loops V64.Interp

variable {M : Type} [GuestMem M]

/-- How `handle_request` reads a descriptor (lines 197–201). -/
def visit (d : BitVec 64) (mem : M) : Bool × BitVec 16 × M :=
  let len := GuestMem.readU32 (GuestMem.readU64 mem d).2 (d + 8)
  let flags := GuestMem.readU16 len.2 (d + 12)
  (hasNext flags.1, GuestMem.readU16 flags.2 (d + 14))

/-- The chain of a request fits. -/
abbrev GatherFits (desc : BitVec 64) (fuel : ℕ) (idx : BitVec 16) (mem : M) : Prop :=
  ChainFits visit 14 desc fuel idx mem

/-- The chain and the header of a request fit. -/
def ParseFits (t : Target) (d : Blk) (mem : M) (head : BitVec 16) : Prop :=
  GatherFits d.desc blkQueueMax head mem ∧ ∀ hdr seg rest mem',
    gather t.wrapping d.desc blkQueueMax head mem = some (hdr :: seg :: rest, mem') →
      hdr.addr.toNat + 8 < 2 ^ 64

/-- The range of a request to read, and the buffers, fit their types. -/
structure ReadFits (r : Request) : Prop where
  range : r.start + (payload r.data).length < 2 ^ 64
  buffers : ∀ seg ∈ r.data, BufferFits seg.addr seg.len.toNat

/-- The range of a request to write, from the offset that is left of it as a `usize`, and
    the buffers fit their types. -/
structure WriteFits (t : Target) (r : Request) : Prop where
  start : r.start < 2 ^ 64
  range : r.start % 2 ^ t.usizeBits + (payload r.data).length < 2 ^ t.usizeBits
  buffers : ∀ seg ∈ r.data, BufferFits seg.addr seg.len.toNat

/-- A request fits, and so does the length that it reports. -/
structure ExecuteFits (t : Target) (r : Request) : Prop where
  read : r.reqType = blkTIn → ReadFits r
  reported : r.reqType = blkTIn → (payload r.data).length + 1 < 2 ^ 32
  write : r.reqType = blkTOut → WriteFits t r

/-- A chain and its request fit. -/
def HandleFits (t : Target) (d : Blk) (mem : M) (head : BitVec 16) : Prop :=
  ParseFits t d mem head ∧ ∀ req mem',
    parse t.wrapping d mem head = some (some req, mem') → ExecuteFits t req

/-- A request and its completion fit. -/
def ServeFits (t : Target) (qsz : BitVec 16) (s : Blk × M) (head : BitVec 16) : Prop :=
  HandleFits t s.1 s.2 head ∧ ∀ served,
    handleRequest t.wrapping s.1 s.2 head = some served → UsedFits s.1.used qsz served.mem

/-- The slot of the next head fits. -/
def HeadFits (d : Blk) (qsz : BitVec 16) : Prop :=
  qsz ≠ 0 ∧ d.avail.toNat + 2 * (d.lastAvail % qsz).toNat + 4 < 2 ^ 64

/-- Every request up to the available index fits. -/
def DrainFits (t : Target) (qsz availIdx : BitVec 16) : (fuel : ℕ) → Blk × M → Prop
  | 0, _ => True
  | fuel + 1, s => s.1.lastAvail ≠ availIdx →
      (HeadFits s.1 qsz ∧ ∀ head mem, nextHead t.wrapping s.1 qsz s.2 = some (head, mem) →
        ServeFits t qsz (s.1, mem) head) ∧
      ∀ s', serve t.wrapping qsz s = some s' → DrainFits t qsz availIdx fuel s'

/-- A notification fits. -/
def ProcessFits (t : Target) (d : Blk) (mem : M) : Prop :=
  d.notified = true → ¬(d.queueReady = false ∨ d.queueNum = 0) →
    d.avail.toNat + 2 < 2 ^ 64 ∧
      DrainFits t (d.queueNum.setWidth 16) (GuestMem.readU16 mem (d.avail + 2)).1 (2 ^ 16)
        ({ d with notified := false }, (GuestMem.readU16 mem (d.avail + 2)).2)

section Checked

variable {t : Target} (ht : t.overflowChecks = true)

include ht

theorem gather_checked {desc : BitVec 64} {fuel : ℕ} {idx : BitVec 16} {mem : M}
    {r : List Seg × M} :
    gather t desc fuel idx mem = some r ↔
      GatherFits desc fuel idx mem ∧ gather t.wrapping desc fuel idx mem = some r := by
  have hscale : ∀ i : BitVec 16, (i.setWidth 64 * 16 : BitVec 64).toNat = i.toNat * 16 :=
    fun i => toNat_scale i le_rfl
  have h8 : (8 : BitVec 64).toNat = 8 := rfl
  have h12 : (12 : BitVec 64).toNat = 12 := rfl
  have h14 : (14 : BitVec 64).toNat = 14 := rfl
  induction fuel generalizing idx mem r with
  | zero =>
    unfold gather ChainFits visit
    simp only [Option.bind_eq_bind, Target.add_bind_eq_some_iff ht, Target.wrapping_add,
      Option.bind_some, BitVec.toNat_add, hscale, h8, h12, h14]
    constructor
    · rintro ⟨hd, hlen, hflags, hnext, hr⟩
      exact ⟨⟨by omega, fun _ => trivial⟩, hr⟩
    · rintro ⟨⟨hd, -⟩, hr⟩
      exact ⟨by omega, by omega, by omega, by omega, hr⟩
  | succ fuel ih =>
    unfold gather ChainFits visit
    simp only [Option.bind_eq_bind, Target.add_bind_eq_some_iff ht, Target.wrapping_add,
      Option.bind_some, BitVec.toNat_add, hscale, h8, h12, h14]
    split_ifs with hnext
    · simp only [bind_checked_iff fun _ => ih, hnext, true_imp_iff]
      constructor
      · rintro ⟨hd, hlen, hflags, hnextAt, hfits, hr⟩
        exact ⟨⟨by omega, by omega, hfits⟩, hr⟩
      · rintro ⟨⟨hd, -, hfits⟩, hr⟩
        exact ⟨by omega, by omega, by omega, by omega, hfits, hr⟩
    · constructor
      · rintro ⟨hd, hlen, hflags, hnextAt, hr⟩
        exact ⟨⟨by omega, fun h => absurd h hnext⟩, hr⟩
      · rintro ⟨⟨hd, -⟩, hr⟩
        exact ⟨by omega, by omega, by omega, by omega, hr⟩

theorem parse_checked {d : Blk} {mem : M} {head : BitVec 16} {r : Option Request × M} :
    parse t d mem head = some r ↔
      ParseFits t d mem head ∧ parse t.wrapping d mem head = some r := by
  have h8 : (8 : BitVec 64).toNat = 8 := rfl
  unfold parse ParseFits
  rw [Option.bind_eq_bind, Option.bind_eq_bind, bind_checked (fun _ => gather_checked ht)
    (G := fun c : List Seg × M => ∀ hdr seg rest, c.1 = hdr :: seg :: rest →
      hdr.addr.toNat + 8 < 2 ^ 64)]
  · refine and_congr_left fun _ => and_congr_right fun _ => ?_
    exact ⟨fun h hdr seg rest mem' hc => h _ hc hdr seg rest rfl,
      fun h c hc hdr seg rest heq => h hdr seg rest c.2 (hc.trans (by rw [← heq]))⟩
  · rintro ⟨chain, mem'⟩ r
    cases chain with
    | nil => exact (and_iff_right nofun).symm
    | cons hdr rest =>
      cases rest with
      | nil => exact (and_iff_right nofun).symm
      | cons seg rest =>
        have hlast : ∃ last, (seg :: rest).getLast? = some last :=
          Option.ne_none_iff_exists'.mp (by simp)
        obtain ⟨last, hlast⟩ := hlast
        simp only [hlast, Target.add_bind_eq_some_iff ht, h8, Target.wrapping_add,
          Option.bind_some, List.cons.injEq, and_imp]
        exact and_congr_left fun _ =>
          ⟨fun h _ _ _ h1 _ _ => h1 ▸ h, fun h => h hdr seg rest rfl rfl rfl⟩

/-! ## Reading the disk -/

theorem readByte_checked {disk : List (BitVec 8)} {off addr : BitVec 64} (mem : M) (i : ℕ) (r : M) :
    readByte t disk off addr mem i = some r ↔
      (off.toNat + (BitVec.ofNat 64 i).toNat < 2 ^ 64 ∧
        addr.toNat + (BitVec.ofNat 64 i).toNat < 2 ^ 64) ∧
          readByte t.wrapping disk off addr mem i = some r := by
  unfold readByte
  simp only [Option.bind_eq_bind, Target.add_bind_eq_some_iff ht, Target.wrapping_add,
    Option.bind_some, and_assoc]

theorem readSeg_checked {disk : List (BitVec 8)} {s r : BitVec 64 × M} {seg : Seg} :
    readSeg t disk s seg = some r ↔
      (BufferFits seg.addr seg.len.toNat ∧ s.1.toNat + seg.len.toNat < 2 ^ 64) ∧
        readSeg t.wrapping disk s seg = some r := by
  have hlen : seg.len.toNat ≤ 2 ^ 64 := Nat.le_of_lt (Nat.lt_trans seg.len.isLt (by decide))
  have hwide : (seg.len.setWidth 64).toNat = seg.len.toNat :=
    BitVec.toNat_setWidth_of_le (by decide)
  unfold readSeg BufferFits
  simp only [Option.bind_eq_bind, Option.bind_eq_some_iff,
    foldlM_checked_iff (readByte_checked ht), Target.add_eq_some_iff ht, hwide]
  constructor
  · rintro ⟨mem, ⟨hbytes, hmem⟩, off, ⟨hrange, hoff⟩, hr⟩
    refine ⟨⟨fun i hi => ?_, hrange⟩, mem, hmem, off, hoff, hr⟩
    have hfits := (hbytes i (List.mem_range.mpr hi)).2
    rwa [toNat_ofNat_of_lt hi hlen] at hfits
  · rintro ⟨⟨hbuffer, hrange⟩, mem, hmem, off, hoff, hr⟩
    refine ⟨mem, ⟨fun i hi => ?_, hmem⟩, off, ⟨hrange, hoff⟩, hr⟩
    have hlt := List.mem_range.mp hi
    rw [toNat_ofNat_of_lt hlt hlen]
    exact ⟨by omega, hbuffer i hlt⟩

omit ht in
/-- The disk offset after a segment. -/
theorem readSeg_off {disk : List (BitVec 8)} {s r : BitVec 64 × M} {seg : Seg}
    (h : readSeg t.wrapping disk s seg = some r) : r.1 = s.1 + seg.len.setWidth 64 := by
  unfold readSeg at h
  simp only [Option.bind_eq_bind, Option.bind_eq_some_iff, Target.wrapping_add] at h
  obtain ⟨_, -, _, hoff, h⟩ := h
  cases hoff
  cases h
  rfl

theorem readSegs_checked {disk : List (BitVec 8)} {data : List Seg} {s r : BitVec 64 × M} :
    data.foldlM (readSeg t disk) s = some r ↔
      ((∀ seg ∈ data, BufferFits seg.addr seg.len.toNat) ∧
        s.1.toNat + (payload data).length < 2 ^ 64) ∧
          data.foldlM (readSeg t.wrapping disk) s = some r := by
  induction data generalizing s with
  | nil => exact ⟨fun hr => ⟨⟨nofun, s.1.isLt⟩, hr⟩, fun hr => hr.2⟩
  | cons seg data ih =>
    have hwide : (seg.len.setWidth 64).toNat = seg.len.toNat :=
      BitVec.toNat_setWidth_of_le (by decide)
    have hoff : ∀ s1, readSeg t.wrapping disk s seg = some s1 →
        s.1.toNat + seg.len.toNat < 2 ^ 64 → s1.1.toNat = s.1.toNat + seg.len.toNat := by
      intro s1 hs1 hfits
      rw [readSeg_off hs1, BitVec.toNat_add_of_lt (by rwa [hwide]), hwide]
    rw [List.foldlM_cons, List.foldlM_cons, payload_cons, List.length_append, Seg.length_addrs]
    simp only [Option.bind_eq_bind, Option.bind_eq_some_iff, ih, List.forall_mem_cons,
      readSeg_checked ht]
    constructor
    · rintro ⟨s1, ⟨⟨hseg, hadd⟩, hs1⟩, ⟨hrest, hsum⟩, hr⟩
      rw [hoff s1 hs1 hadd] at hsum
      exact ⟨⟨⟨hseg, hrest⟩, by omega⟩, s1, hs1, hr⟩
    · rintro ⟨⟨⟨hseg, hrest⟩, hsum⟩, s1, hs1, hr⟩
      have hadd : s.1.toNat + seg.len.toNat < 2 ^ 64 := by omega
      refine ⟨s1, ⟨⟨hseg, hadd⟩, hs1⟩, ⟨hrest, ?_⟩, hr⟩
      rw [hoff s1 hs1 hadd]
      omega

omit ht in
/-- The offset of a sector, and where it fits. -/
theorem toNat_sector {sector : BitVec 64} (h : sector.toNat * sectorSize < 2 ^ 64) :
    (sector * BitVec.ofNat 64 sectorSize).toNat = sector.toNat * sectorSize := by
  have hsize : (BitVec.ofNat 64 sectorSize).toNat = sectorSize := rfl
  rw [BitVec.toNat_mul_of_lt (by rwa [hsize]), hsize]

theorem doRead_checked {disk : List (BitVec 8)} {req : Request} {mem : M} {r : BitVec 8 × M} :
    doRead t disk req.sector req.data mem = some r ↔
      ReadFits req ∧ doRead t.wrapping disk req.sector req.data mem = some r := by
  have hsize : (BitVec.ofNat 64 sectorSize).toNat = sectorSize := rfl
  have hfits : ReadFits req ↔ req.sector.toNat * sectorSize + (payload req.data).length < 2 ^ 64 ∧
      ∀ seg ∈ req.data, BufferFits seg.addr seg.len.toNat :=
  ⟨fun h => ⟨h.1, h.2⟩, fun h => ⟨h.1, h.2⟩⟩
  unfold doRead
  simp only [Option.bind_eq_bind, Target.mul_bind_eq_some_iff ht, Target.wrapping_mul,
    Option.bind_some, bind_checked_iff fun _ => readSegs_checked ht, hsize, hfits]
  constructor
  · rintro ⟨hstart, ⟨hbuffers, hrange⟩, hr⟩
    rw [toNat_sector hstart] at hrange
    exact ⟨⟨hrange, hbuffers⟩, hr⟩
  · rintro ⟨⟨hrange, hbuffers⟩, hr⟩
    have hstart : req.sector.toNat * sectorSize < 2 ^ 64 := by omega
    rw [toNat_sector hstart]
    exact ⟨hstart, ⟨hbuffers, hrange⟩, hr⟩

/-! ## Writing the disk -/

omit ht in
theorem toNat_one (t : Target) : (1 : t.Usize).toNat = 1 := Target.toNat_ofNat_usize (by decide)

theorem writeByte_eq_some {addr : BitVec 64} {s r : Writing t M} {i : ℕ} :
    writeByte t addr s i = some r ↔
      (addr.toNat + (BitVec.ofNat 64 i).toNat < 2 ^ 64 ∧ s.off.toNat + 1 < 2 ^ t.usizeBits) ∧
        copyInByte s (addr + BitVec.ofNat 64 i) = r := by
  unfold writeByte
  simp only [Option.bind_eq_bind, Target.add_bind_eq_some_iff ht, toNat_one, Option.pure_def,
    Option.some.injEq, and_assoc]
  rfl

omit ht in
/-- The disk offset counts the bytes, as far as it fits. -/
theorem toNat_off_copyIn {as : List (BitVec 64)} {s : Writing t M}
    (h : s.off.toNat + as.length < 2 ^ t.usizeBits) :
    (as.foldl copyInByte s).off.toNat = s.off.toNat + as.length := by
  induction as generalizing s with
  | nil => rfl
  | cons a as ih =>
    have hstep : (copyInByte s a).off.toNat = s.off.toNat + 1 := by
      rw [List.length_cons] at h
      unfold copyInByte
      dsimp only
      rw [BitVec.toNat_add_of_lt (by rw [toNat_one]; omega), toNat_one]
    rw [List.length_cons] at h ⊢
    rw [List.foldl_cons, ih (by rw [hstep]; omega), hstep]
    omega

theorem writeBytes_eq_some {addr : BitVec 64} {l : List ℕ} {s r : Writing t M} :
    l.foldlM (writeByte t addr) s = some r ↔
      ((∀ i ∈ l, addr.toNat + (BitVec.ofNat 64 i).toNat < 2 ^ 64) ∧
        s.off.toNat + l.length < 2 ^ t.usizeBits) ∧
          (l.map fun i => addr + BitVec.ofNat 64 i).foldl copyInByte s = r := by
  induction l generalizing s with
  | nil => exact ⟨fun hr => ⟨⟨nofun, s.off.isLt⟩, Option.some.inj hr⟩, fun hr => congrArg some hr.2⟩
  | cons i l ih =>
    have hoff := @toNat_off_copyIn _ _ _ [addr + BitVec.ofNat 64 i] s
    rw [List.foldlM_cons, List.map_cons, List.foldl_cons, List.length_cons]
    simp only [Option.bind_eq_bind, Option.bind_eq_some_iff, writeByte_eq_some ht, ih,
      List.forall_mem_cons]
    constructor
    · rintro ⟨s1, ⟨⟨haddr, hadd⟩, rfl⟩, ⟨hrest, hsum⟩, hr⟩
      have hsum' := hoff hadd
      rw [List.foldl_cons, List.foldl_nil] at hsum'
      rw [hsum', List.length_singleton] at hsum
      exact ⟨⟨⟨haddr, hrest⟩, by omega⟩, hr⟩
    · rintro ⟨⟨⟨haddr, hrest⟩, hsum⟩, hr⟩
      have hadd : s.off.toNat + 1 < 2 ^ t.usizeBits := by omega
      have hsum' := hoff hadd
      rw [List.foldl_cons, List.foldl_nil] at hsum'
      refine ⟨_, ⟨⟨haddr, hadd⟩, rfl⟩, ⟨hrest, ?_⟩, hr⟩
      rw [hsum', List.length_singleton]
      omega

theorem writeSeg_eq_some {s r : Writing t M} {seg : Seg} :
    writeSeg t s seg = some r ↔
      (BufferFits seg.addr seg.len.toNat ∧ s.off.toNat + seg.len.toNat < 2 ^ t.usizeBits) ∧
        seg.addrs.foldl copyInByte s = r := by
  have hlen : seg.len.toNat ≤ 2 ^ 64 := Nat.le_of_lt (Nat.lt_trans seg.len.isLt (by decide))
  have hbytes : (∀ i ∈ List.range seg.len.toNat,
      seg.addr.toNat + (BitVec.ofNat 64 i).toNat < 2 ^ 64) ↔ BufferFits seg.addr seg.len.toNat := by
    refine forall_congr' fun i => ?_
    rw [List.mem_range]
    refine imp_congr_right fun hi => ?_
    rw [toNat_ofNat_of_lt hi hlen]
  unfold writeSeg Seg.addrs
  rw [writeBytes_eq_some ht, hbytes, List.length_range]

theorem writeSegs_eq_some {data : List Seg} {s r : Writing t M} :
    data.foldlM (writeSeg t) s = some r ↔
      ((∀ seg ∈ data, BufferFits seg.addr seg.len.toNat) ∧
        s.off.toNat + (payload data).length < 2 ^ t.usizeBits) ∧
          (payload data).foldl copyInByte s = r := by
  induction data generalizing s with
  | nil => exact ⟨fun hr => ⟨⟨nofun, s.off.isLt⟩, Option.some.inj hr⟩, fun hr => congrArg some hr.2⟩
  | cons seg data ih =>
    have hoff := @toNat_off_copyIn _ _ _ seg.addrs s
    rw [Seg.length_addrs] at hoff
    rw [List.foldlM_cons, payload_cons, List.length_append, Seg.length_addrs, List.foldl_append]
    simp only [Option.bind_eq_bind, Option.bind_eq_some_iff, writeSeg_eq_some ht, ih,
      List.forall_mem_cons]
    constructor
    · rintro ⟨s1, ⟨⟨hseg, hadd⟩, rfl⟩, ⟨hrest, hsum⟩, hr⟩
      rw [hoff hadd] at hsum
      exact ⟨⟨⟨hseg, hrest⟩, by omega⟩, hr⟩
    · rintro ⟨⟨⟨hseg, hrest⟩, hsum⟩, hr⟩
      have hadd : s.off.toNat + seg.len.toNat < 2 ^ t.usizeBits := by omega
      refine ⟨_, ⟨⟨hseg, hadd⟩, rfl⟩, ⟨hrest, ?_⟩, hr⟩
      rw [hoff hadd]
      omega

omit ht in
/-- The copy is the same in a build without overflow checks. -/
theorem copyIn_wrapping (as : List (BitVec 64)) (s : Writing t M) :
    let s' : Writing t.wrapping M := as.foldl copyInByte ⟨s.disk, s.off, s.mem⟩
    (as.foldl copyInByte s).disk = s'.disk ∧ (as.foldl copyInByte s).mem = s'.mem := by
  induction as generalizing s with
  | nil => exact ⟨rfl, rfl⟩
  | cons a as ih => exact ih (copyInByte s a)

theorem doWrite_checked {disk : List (BitVec 8)} {req : Request} {mem : M}
    {r : BitVec 8 × List (BitVec 8) × M} :
    doWrite t disk req.sector req.data mem = some r ↔
      WriteFits t req ∧ doWrite t.wrapping disk req.sector req.data mem = some r := by
  have hsize : (BitVec.ofNat 64 sectorSize).toNat = sectorSize := rfl
  have hfits : WriteFits t req ↔ req.sector.toNat * sectorSize < 2 ^ 64 ∧
      (∀ seg ∈ req.data, BufferFits seg.addr seg.len.toNat) ∧
      req.sector.toNat * sectorSize % 2 ^ t.usizeBits + (payload req.data).length <
        2 ^ t.usizeBits := ⟨fun h => ⟨h.1, h.3, h.2⟩, fun h => ⟨h.1, h.2.2, h.2.1⟩⟩
  have hcopy := copyIn_wrapping (M := M) (payload req.data)
    (⟨disk, (req.sector * BitVec.ofNat 64 sectorSize).setWidth t.usizeBits, mem⟩ : Writing t M)
  rw [doWrite_eq (t := t.wrapping) rfl, hfits]
  unfold doWrite
  simp only [Option.bind_eq_bind, Target.mul_bind_eq_some_iff ht, Option.bind_eq_some_iff,
    writeSegs_eq_some ht, hsize, BitVec.toNat_setWidth]
  constructor
  · rintro ⟨hstart, s, ⟨⟨hbuffers, hrange⟩, rfl⟩, hr⟩
    rw [toNat_sector hstart] at hrange
    rw [hcopy.1, hcopy.2] at hr
    exact ⟨⟨hstart, hbuffers, hrange⟩, hr⟩
  · rintro ⟨⟨hstart, hbuffers, hrange⟩, hr⟩
    rw [← toNat_sector hstart] at hrange
    refine ⟨hstart, _, ⟨⟨hbuffers, hrange⟩, rfl⟩, ?_⟩
    rw [hcopy.1, hcopy.2]
    exact hr

/-! ## Requests -/

theorem perform_checked {disk : List (BitVec 8)} {req : Request} {mem : M}
    {r : BitVec 8 × List (BitVec 8) × M} :
    perform t disk req.reqType req.sector req.data mem = some r ↔
      ((req.reqType = blkTIn → ReadFits req) ∧ (req.reqType = blkTOut → WriteFits t req)) ∧
        perform t.wrapping disk req.reqType req.sector req.data mem = some r := by
  unfold perform
  split_ifs with hin hout
  · have hout : req.reqType ≠ blkTOut := by
      rw [hin]
      decide
    simp only [Option.map_eq_some_iff, doRead_checked ht, hin, true_imp_iff]
    constructor
    · rintro ⟨a, ⟨hfits, ha⟩, hr⟩
      exact ⟨⟨hfits, nofun⟩, a, ha, hr⟩
    · rintro ⟨⟨hfits, -⟩, a, ha, hr⟩
      exact ⟨a, ⟨hfits, ha⟩, hr⟩
  · rw [doWrite_checked ht]
    refine and_congr_left fun _ =>
      ⟨fun h => ⟨fun h' => absurd h' hin, fun _ => h⟩, fun h => h.2 hout⟩
  · exact (and_iff_right ⟨fun h => absurd h hin, fun h => absurd h hout⟩).symm

omit ht in
/-- A request to read is answered OK. -/
theorem perform_in {disk : List (BitVec 8)} {req : Request} (hin : req.reqType = blkTIn) (mem : M) :
    ∃ mem', perform t.wrapping disk req.reqType req.sector req.data mem =
      some (blkSOk, disk, mem') := by
  rw [perform, if_pos hin, doRead_eq (t := t.wrapping) rfl]
  exact ⟨_, rfl⟩

omit [GuestMem M] in
/-- The length of a request as the used ring reports it, where it fits its type. -/
theorem report_checked {data : List Seg} {status : BitVec 8} {reqType : BitVec 32}
    {disk : List (BitVec 8)} {mem : M} {r : Served M} :
    ((if status = blkSOk ∧ reqType = blkTIn then t.sum (data.map Seg.len) else some 0).bind
      fun dataWritten => (t.add dataWritten 1).bind fun written =>
        some ⟨some status, written, disk, mem⟩) = some r ↔
      (status = blkSOk ∧ reqType = blkTIn → (payload data).length + 1 < 2 ^ 32) ∧
        ((if status = blkSOk ∧ reqType = blkTIn then t.wrapping.sum (data.map Seg.len)
          else some 0).bind fun dataWritten => (t.wrapping.add dataWritten 1).bind fun written =>
            some ⟨some status, written, disk, mem⟩) = some r := by
  have hone : (1 : BitVec 32).toNat = 1 := rfl
  have hlens : ((data.map Seg.len).map BitVec.toNat).sum = (payload data).length := by
    rw [length_payload, List.map_map]
    rfl
  split_ifs with h
  · simp only [Option.bind_eq_some_iff, Target.sum_eq_some_iff ht, Target.add_eq_some_iff ht, hlens,
      hone, h, and_self, true_imp_iff]
    constructor
    · rintro ⟨sum, ⟨hfits, hsum⟩, written, ⟨hadd, hwritten⟩, hr⟩
      have hvalue := (Target.sum_of_wrap (t := t.wrapping) rfl _).symm.trans hsum
      rw [← Option.some.inj hvalue, Target.toNat_sum (by rwa [hlens]), hlens] at hadd
      exact ⟨hadd, sum, hsum, written, hwritten, hr⟩
    · rintro ⟨hfits, sum, hsum, written, hwritten, hr⟩
      have hvalue := (Target.sum_of_wrap (t := t.wrapping) rfl _).symm.trans hsum
      have hlt : (payload data).length < 2 ^ 32 := by omega
      refine ⟨sum, ⟨hlt, hsum⟩, written, ⟨?_, hwritten⟩, hr⟩
      rw [← Option.some.inj hvalue, Target.toNat_sum (by rwa [hlens]), hlens]
      exact hfits
  · have hzero : t.add (0 : BitVec 32) 1 = t.wrapping.add 0 1 :=
      (Target.add_of_lt (by decide)).trans Target.wrapping_add.symm
    rw [Option.bind_some, Option.bind_some, hzero]
    exact (and_iff_right fun h' => absurd h' h).symm

omit ht in
/-- `execute` as what it does and what it reports. -/
theorem execute_eq_bind (t : Target) (disk : List (BitVec 8)) (req : Request) (mem : M) :
    execute t disk req mem = (perform t disk req.reqType req.sector req.data mem).bind fun p =>
      (if p.1 = blkSOk ∧ req.reqType = blkTIn then t.sum (req.data.map Seg.len) else some 0).bind
        fun dataWritten => (t.add dataWritten 1).bind fun written =>
          some ⟨some p.1, written, p.2.1, GuestMem.writeU8 p.2.2 req.statusAddr p.1⟩ := by
  unfold execute
  rw [Option.bind_eq_bind]
  congr 1
  funext ⟨status, disk', mem'⟩
  dsimp only
  split_ifs
  · rfl
  · rfl

theorem execute_checked {disk : List (BitVec 8)} {req : Request} {mem : M} {r : Served M} :
    execute t disk req mem = some r ↔
      ExecuteFits t req ∧ execute t.wrapping disk req mem = some r := by
  rw [execute_eq_bind, execute_eq_bind, bind_checked (fun _ => perform_checked ht)
    fun _ _ => report_checked ht]
  refine and_congr_left fun _ => ?_
  constructor
  · rintro ⟨⟨hread, hwrite⟩, hreport⟩
    refine ⟨hread, fun hin => ?_, hwrite⟩
    obtain ⟨mem', hperform⟩ := @perform_in _ _ t disk _ hin mem
    exact hreport _ hperform ⟨rfl, hin⟩
  · rintro ⟨hread, hreport, hwrite⟩
    exact ⟨⟨hread, hwrite⟩, fun _ _ h => hreport h.2⟩

theorem handleRequest_checked {d : Blk} {mem : M} {head : BitVec 16} {r : Served M} :
    handleRequest t d mem head = some r ↔
      HandleFits t d mem head ∧ handleRequest t.wrapping d mem head = some r := by
  unfold handleRequest HandleFits
  rw [Option.bind_eq_bind, bind_checked (fun _ => parse_checked ht)
    (G := fun p : Option Request × M => ∀ req, p.1 = some req → ExecuteFits t req)]
  · refine and_congr_left fun _ => and_congr_right fun _ => ?_
    exact ⟨fun h req mem' hp => h _ hp req rfl, fun h p hp req heq =>
      h req p.2 (hp.trans (by rw [← heq]))⟩
  · rintro ⟨req, mem'⟩ r
    cases req with
    | none => exact (and_iff_right nofun).symm
    | some req =>
      simp only [execute_checked ht, Option.some.injEq, forall_eq']

/-! ## The queue -/

theorem nextHead_checked {d : Blk} {qsz : BitVec 16} {mem : M} {r : BitVec 16 × M} :
    nextHead t d qsz mem = some r ↔
      HeadFits d qsz ∧ nextHead t.wrapping d qsz mem = some r := by
  have h4 : (4 : BitVec 64).toNat = 4 := rfl
  unfold nextHead HeadFits
  simp only [Option.bind_eq_bind, rem_bind_eq_some_iff, Target.add_bind_eq_some_iff ht,
    Target.wrapping_add, Option.bind_some]
  generalize d.lastAvail % qsz = slot
  have hslot := toNat_scale slot (c := 2) (by decide)
  have h2 : (2 : BitVec 64).toNat = 2 := rfl
  simp only [BitVec.toNat_add, hslot, h2, h4]
  constructor
  · rintro ⟨hq, hring, hat, hr⟩
    exact ⟨⟨hq, by omega⟩, hq, hr⟩
  · rintro ⟨⟨hq, hat⟩, -, hr⟩
    exact ⟨hq, by omega, by omega, hr⟩

theorem serveHead_checked {qsz : BitVec 16} {s r : Blk × M} {head : BitVec 16} :
    serveHead t qsz s head = some r ↔
      ServeFits t qsz s head ∧ serveHead t.wrapping qsz s head = some r := by
  unfold serveHead ServeFits pushUsed
  exact bind_checked (fun _ => handleRequest_checked ht)
    fun _ _ => bind_checked_iff fun _ => pushUsedAt_checked ht

theorem serve_checked {qsz : BitVec 16} {s r : Blk × M} :
    serve t qsz s = some r ↔
      (HeadFits s.1 qsz ∧ ∀ head mem, nextHead t.wrapping s.1 qsz s.2 = some (head, mem) →
        ServeFits t qsz (s.1, mem) head) ∧ serve t.wrapping qsz s = some r := by
  unfold serve
  rw [Option.bind_eq_bind,
    bind_checked (fun _ => nextHead_checked ht) fun _ _ => serveHead_checked ht]
  exact and_congr_left fun _ => and_congr_right fun _ =>
    ⟨fun h head mem hn => h _ hn, fun h p hp => h p.1 p.2 hp⟩

theorem drain_checked {qsz availIdx : BitVec 16} {fuel : ℕ} {s r : Blk × M} :
    drain t qsz availIdx fuel s = some r ↔
      DrainFits t qsz availIdx fuel s ∧ drain t.wrapping qsz availIdx fuel s = some r := by
  induction fuel generalizing s r with
  | zero => exact (and_iff_right trivial).symm
  | succ fuel ih =>
    unfold drain DrainFits
    split_ifs with hidle
    · exact (and_iff_right fun h => absurd hidle h).symm
    · rw [bind_checked (fun _ => serve_checked ht) fun _ _ => ih]
      exact and_congr_left fun _ => ⟨fun h _ => h, fun h => h hidle⟩

theorem process_checked {d : Blk} {mem : M} {r : Blk × M} :
    process t d mem = some r ↔ ProcessFits t d mem ∧ process t.wrapping d mem = some r := by
  have h2 : (2 : BitVec 64).toNat = 2 := rfl
  unfold process ProcessFits
  dsimp only
  split_ifs with hquiet hoff
  · exact (and_iff_right fun h => absurd (hquiet.symm.trans h) Bool.false_ne_true).symm
  · exact (and_iff_right fun _ h => absurd hoff h).symm
  · rw [Bool.not_eq_false] at hquiet
    simp only [Option.bind_eq_bind, Target.add_bind_eq_some_iff ht, Target.wrapping_add,
      Option.bind_some, h2, bind_checked_iff fun _ => drain_checked ht, hquiet, hoff,
      not_false_iff, true_imp_iff, and_assoc]

end Checked

/-! ## Without overflow checks -/

section Wrapping

variable {t : Target}

theorem serve_isSome {qsz : BitVec 16} {s : Blk × M} (hq : qsz ≠ 0) :
    ∃ s', serve t.wrapping qsz s = some s' := by
  have ht : t.wrapping.overflowChecks = false := rfl
  unfold serve nextHead serveHead handleRequest pushUsed pushUsedAt
  simp only [Option.bind_eq_bind, rem_eq_some hq, Target.wrapping_add, Option.bind_some]
  generalize GuestMem.readU16 s.2 _ = head
  obtain ⟨⟨req, mem⟩, hparse⟩ := parse_total ht s.1 head.2 head.1
  rw [Option.pure_def, Option.bind_some, hparse, Option.bind_some]
  cases req with
  | none => exact ⟨_, rfl⟩
  | some req =>
    obtain ⟨served, hserved⟩ := execute_total ht s.1.disk req mem
    dsimp only
    rw [hserved]
    exact ⟨_, rfl⟩

theorem drain_isSome {qsz availIdx : BitVec 16} {fuel : ℕ} {s : Blk × M}
    (h : DrainFits t qsz availIdx fuel s) :
    ∃ s', drain t.wrapping qsz availIdx fuel s = some s' := by
  induction fuel generalizing s with
  | zero => exact ⟨s, rfl⟩
  | succ fuel ih =>
    unfold drain
    split_ifs with hidle
    · exact ⟨s, rfl⟩
    · obtain ⟨⟨hhead, -⟩, hrest⟩ := h hidle
      obtain ⟨s1, hs1⟩ := serve_isSome (t := t) (s := s) hhead.1
      rw [hs1]
      exact ih (hrest s1 hs1)

theorem process_isSome {d : Blk} {mem : M} (h : ProcessFits t d mem) :
    ∃ r, process t.wrapping d mem = some r := by
  unfold process
  dsimp only
  split_ifs with hquiet hoff
  · exact ⟨_, rfl⟩
  · exact ⟨_, rfl⟩
  · rw [Bool.not_eq_false] at hquiet
    obtain ⟨s, hs⟩ := drain_isSome (h hquiet hoff).2
    rw [Target.wrapping_add, Option.bind_eq_bind, Option.bind_some, hs]
    exact ⟨_, rfl⟩

end Wrapping

/-- A notification does not panic exactly where it fits. -/
theorem process_ne_none_iff {t : Target} (ht : t.overflowChecks = true) {d : Blk} {mem : M} :
    process t d mem ≠ none ↔ ProcessFits t d mem := by
  rw [Option.ne_none_iff_exists']
  constructor
  · rintro ⟨r, hr⟩
    exact ((process_checked ht).mp hr).1
  · intro hfits
    obtain ⟨r, hr⟩ := process_isSome hfits
    exact ⟨r, (process_checked ht).mpr ⟨hfits, hr⟩⟩

end V64.Platform.Blk
