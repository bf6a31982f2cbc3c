import V64.Lib.Scatter
import V64.Platform.Bus
import V64.Platform.Virtio.Blk

/-!
# The transfer loops of the block device

In a build without overflow checks the loops of `do_read` and `do_write` are one
pass over the addresses of the payload. For a request whose range lies inside the
disk they copy that range; for any other they drop bytes, read zeros or wrap, and
the status is OK all the same.

* `doRead_eq`, `doWrite_eq`: the loops as `copyOut` and `copyIn`.
* `copyOut_of_le`, `copyIn_of_le`: the copies in range.
* `honest_iff`: a request is answered honestly exactly when its type is not
  supported or its range lies inside the disk.
-/

namespace V64.Platform

open Checked Scatter V64.Interp

/-- The addresses of the bytes of a buffer. -/
def Seg.addrs (s : Seg) : List (BitVec 64) :=
  (List.range s.len.toNat).map fun i => s.addr + BitVec.ofNat 64 i

/-- The addresses of the bytes of the payload, in order. -/
def payload (data : List Seg) : List (BitVec 64) := data.flatMap Seg.addrs

@[simp] theorem Seg.length_addrs (s : Seg) : s.addrs.length = s.len.toNat := by
  rw [Seg.addrs, List.length_map, List.length_range]

@[simp] theorem payload_nil : payload [] = [] := rfl

theorem payload_cons (s : Seg) (data : List Seg) : payload (s :: data) = s.addrs ++ payload data :=
  List.flatMap_cons

theorem length_payload (data : List Seg) :
    (payload data).length = (data.map fun s => s.len.toNat).sum := by
  induction data with
  | nil => rfl
  | cons s data ih =>
    rw [payload_cons, List.length_append, Seg.length_addrs, ih, List.map_cons, List.sum_cons]

variable {M : Type} [GuestMem M]

/-- The bytes at `as`, read in order, and the memory after the reads. -/
def readBytes : M → List (BitVec 64) → List (BitVec 8) × M
  | mem, [] => ([], mem)
  | mem, a :: as =>
    let (byte, mem) := GuestMem.readU8 mem a
    let (bytes, mem) := readBytes mem as
    (byte :: bytes, mem)

/-- Memory after the writes of `vs` to `as`, in order. -/
def writeBytes : M → List (BitVec 64) → List (BitVec 8) → M
  | mem, a :: as, v :: vs => writeBytes (GuestMem.writeU8 mem a v) as vs
  | mem, _, _ => mem

namespace Blk

/-- The byte that `do_read` takes for the disk offset `off`. -/
def diskByte (t : Target) (disk : List (BitVec 8)) (off : BitVec 64) : BitVec 8 :=
  disk[(off.setWidth t.usizeBits).toNat]?.getD 0

/-- The writes of `do_read` to `as`, from the disk offset `off` on. -/
def copyOut (t : Target) (disk : List (BitVec 8)) : BitVec 64 → List (BitVec 64) → M → M
  | _, [], mem => mem
  | off, a :: as, mem => copyOut t disk (off + 1) as (GuestMem.writeU8 mem a (diskByte t disk off))

/-- The step of `do_write` for one address. -/
def copyInByte {t : Target} (s : Writing t M) (a : BitVec 64) : Writing t M where
  disk := if s.off.toNat < s.disk.length then
      s.disk.set s.off.toNat (GuestMem.readU8 s.mem a).1
    else s.disk
  off := s.off + 1
  mem := (GuestMem.readU8 s.mem a).2

theorem copyOut_append (t : Target) (disk : List (BitVec 8)) (off : BitVec 64)
    (as bs : List (BitVec 64)) (mem : M) :
    copyOut t disk off (as ++ bs) mem =
      copyOut t disk (off + BitVec.ofNat 64 as.length) bs (copyOut t disk off as mem) := by
  induction as generalizing off mem with
  | nil => rw [List.nil_append, List.length_nil, BitVec.add_zero, copyOut]
  | cons a as ih =>
    have hoff : off + BitVec.ofNat 64 (a :: as).length = off + 1 + BitVec.ofNat 64 as.length := by
      rw [List.length_cons, Nat.add_comm, BitVec.ofNat_add, BitVec.add_assoc]
      rfl
    rw [List.cons_append, copyOut, ih, copyOut, hoff]

section Wrap

variable {t : Target} (ht : t.overflowChecks = false)

include ht

/-! ## The loops as one pass -/

theorem readByte_eq (disk : List (BitVec 8)) (off addr : BitVec 64) (mem : M) (i : ℕ) :
    readByte t disk off addr mem i =
      some (GuestMem.writeU8 mem (addr + BitVec.ofNat 64 i)
        (diskByte t disk (off + BitVec.ofNat 64 i))) := by
  unfold readByte
  rw [Target.add_of_wrap ht, Target.add_of_wrap ht]
  rfl

theorem foldlM_readByte (disk : List (BitVec 8)) (off addr : BitVec 64) (mem : M) (n : ℕ) :
    (List.range n).foldlM (readByte t disk off addr) mem =
      some (copyOut t disk off ((List.range n).map fun i => addr + BitVec.ofNat 64 i) mem) := by
  induction n with
  | zero => rfl
  | succ n ih =>
    rw [List.range_succ, List.foldlM_append, ih, List.map_append, copyOut_append,
      List.length_map, List.length_range]
    simp only [Option.bind_eq_bind, Option.bind_some, List.foldlM_cons, List.foldlM_nil,
      readByte_eq ht, List.map_cons, List.map_nil, copyOut]
    rfl

theorem readSeg_eq (disk : List (BitVec 8)) (off : BitVec 64) (mem : M) (s : Seg) :
    readSeg t disk (off, mem) s =
      some (off + BitVec.ofNat 64 s.addrs.length, copyOut t disk off s.addrs mem) := by
  unfold readSeg
  rw [foldlM_readByte ht, Target.add_of_wrap ht, Seg.length_addrs, BitVec.ofNat_toNat]
  rfl

theorem foldlM_readSeg (disk : List (BitVec 8)) (off : BitVec 64) (data : List Seg) (mem : M) :
    data.foldlM (readSeg t disk) (off, mem) =
      some (off + BitVec.ofNat 64 (payload data).length,
        copyOut t disk off (payload data) mem) := by
  induction data generalizing off mem with
  | nil => simp only [List.foldlM_nil, payload_nil, List.length_nil,
      BitVec.add_zero, copyOut, Option.pure_def]
  | cons s data ih =>
    rw [List.foldlM_cons, readSeg_eq ht]
    simp only [Option.bind_eq_bind, Option.bind_some]
    rw [ih, payload_cons, copyOut_append, List.length_append, BitVec.ofNat_add, BitVec.add_assoc]

theorem doRead_eq (disk : List (BitVec 8)) (sector : BitVec 64) (data : List Seg) (mem : M) :
    doRead t disk sector data mem =
      some (blkSOk, copyOut t disk (sector * BitVec.ofNat 64 sectorSize) (payload data) mem) := by
  unfold doRead
  rw [Target.mul_of_wrap ht]
  simp only [Option.bind_eq_bind, Option.bind_some, foldlM_readSeg ht, Option.pure_def]

theorem writeByte_eq (addr : BitVec 64) (s : Writing t M) (i : ℕ) :
    writeByte t addr s i = some (copyInByte s (addr + BitVec.ofNat 64 i)) := by
  unfold writeByte
  rw [Target.add_of_wrap ht, Target.add_of_wrap ht]
  rfl

theorem writeSeg_eq (s : Writing t M) (seg : Seg) :
    writeSeg t s seg = some (seg.addrs.foldl copyInByte s) := by
  have hpure : writeByte t seg.addr =
      fun (s : Writing t M) i => some (copyInByte s (seg.addr + BitVec.ofNat 64 i)) := by
    funext s i
    exact writeByte_eq ht seg.addr s i
  unfold writeSeg Seg.addrs
  rw [hpure, List.foldl_map]
  exact List.foldlM_pure

theorem doWrite_eq (disk : List (BitVec 8)) (sector : BitVec 64) (data : List Seg) (mem : M) :
    doWrite t disk sector data mem =
      let s : Writing t M := (payload data).foldl copyInByte
        ⟨disk, (sector * BitVec.ofNat 64 sectorSize).setWidth t.usizeBits, mem⟩
      some (blkSOk, s.disk, s.mem) := by
  have hpure : writeSeg (M := M) t = fun s seg => some (seg.addrs.foldl copyInByte s) := by
    funext s seg
    exact writeSeg_eq ht s seg
  unfold doWrite payload
  rw [Target.mul_of_wrap ht, List.foldl_flatMap]
  simp only [Option.bind_eq_bind, Option.bind_some, hpure]
  rw [show (fun (s : Writing t M) (seg : Seg) => some (seg.addrs.foldl copyInByte s)) =
    fun s seg => pure (seg.addrs.foldl copyInByte s) from rfl, List.foldlM_pure]
  rfl

end Wrap

/-! ## Ranges inside the disk -/

section InRange

variable {t : Target} {disk : List (BitVec 8)} (hdisk : disk.length < 2 ^ (t.usizeBits - 1))

include hdisk

/-- An image's length is a `usize`, and an offset below it is not truncated. -/
theorem toNat_offset {off : BitVec 64} (h : off.toNat < disk.length) :
    (off.setWidth t.usizeBits).toNat = off.toNat := by
  rw [BitVec.toNat_setWidth]
  refine Nat.mod_eq_of_lt (Nat.lt_trans h (Nat.lt_of_lt_of_le hdisk ?_))
  exact Nat.pow_le_pow_right (by decide) (Nat.sub_le _ _)

theorem copyOut_of_le {off : BitVec 64} {as : List (BitVec 64)}
    (h : off.toNat + as.length ≤ disk.length) (mem : M) :
    copyOut t disk off as mem = writeBytes mem as (slice disk off.toNat as.length) := by
  induction as generalizing off mem with
  | nil => rfl
  | cons a as ih =>
    rw [List.length_cons] at h ⊢
    have hlt : off.toNat < disk.length := by omega
    have hbyte : diskByte t disk off = disk[off.toNat] := by
      rw [diskByte, toNat_offset hdisk hlt, List.getElem?_eq_getElem hlt, Option.getD_some]
    rw [slice_cons hlt, copyOut, writeBytes, hbyte]
    cases as with
    | nil => rfl
    | cons a' as =>
      rw [List.length_cons] at h
      have hnext : (off + 1).toNat = off.toNat + 1 := by
        rw [BitVec.toNat_add]
        refine Nat.mod_eq_of_lt (Nat.lt_trans (m := disk.length) ?_ ?_)
        · change off.toNat + 1 < disk.length
          omega
        · refine Nat.lt_of_lt_of_le hdisk (Nat.pow_le_pow_right (by decide) ?_)
          rcases t.usize with hw | hw <;> omega
      rw [ih (by rw [hnext, List.length_cons]; omega), hnext]

omit hdisk in
theorem copyIn_of_le {disk : List (BitVec 8)} (hdisk : disk.length < 2 ^ (t.usizeBits - 1))
    {off : t.Usize} {as : List (BitVec 64)} (h : off.toNat + as.length ≤ disk.length) (mem : M) :
    (as.foldl copyInByte (⟨disk, off, mem⟩ : Writing t M)).disk =
      splice disk off.toNat (readBytes mem as).1 := by
  induction as generalizing disk off mem with
  | nil => exact (splice_nil _ _).symm
  | cons a as ih =>
    rw [List.length_cons] at h
    have hlt : off.toNat < disk.length := by omega
    have hnext : (off + 1).toNat = off.toNat + 1 := by
      have hone : (1 : t.Usize).toNat = 1 := by
        change (BitVec.ofNat t.usizeBits 1).toNat = 1
        rw [BitVec.toNat_ofNat]
        exact Nat.mod_eq_of_lt (Nat.one_lt_two_pow (by rcases t.usize with hw | hw <;> omega))
      have hpow : 2 ^ (t.usizeBits - 1) < 2 ^ t.usizeBits :=
        Nat.pow_lt_pow_right (by decide) (by rcases t.usize with hw | hw <;> omega)
      rw [BitVec.toNat_add, hone]
      exact Nat.mod_eq_of_lt (by omega)
    have hstep : copyInByte (⟨disk, off, mem⟩ : Writing t M) a =
        ⟨disk.set off.toNat (GuestMem.readU8 mem a).1, off + 1, (GuestMem.readU8 mem a).2⟩ := by
      unfold copyInByte
      rw [if_pos hlt]
    rw [List.foldl_cons, hstep, ih (by rwa [List.length_set])
      (by rw [hnext, List.length_set]; omega), hnext, splice_set hlt]
    rfl

end InRange

/-! ## Status -/

/-- The first byte of the range of a request, without wrap-around. -/
def Request.start (r : Request) : ℕ := r.sector.toNat * sectorSize

/-- Every byte of `[sector * 512, sector * 512 + total length)` is on the disk. -/
def InRange (disk : List (BitVec 8)) (r : Request) : Prop :=
  ∀ i < (payload r.data).length, r.start + i < disk.length

/-- The range of the request has been copied, from memory `mem` on. -/
def Transferred (disk : List (BitVec 8)) (r : Request) (mem : M) (s : Served M) : Prop :=
  (r.reqType = blkTIn → s.disk = disk ∧
    s.mem = GuestMem.writeU8
      (writeBytes mem (payload r.data) (slice disk r.start (payload r.data).length))
      r.statusAddr blkSOk) ∧
  (r.reqType = blkTOut → s.disk = splice disk r.start (readBytes mem (payload r.data)).1)

/-- The answer to a request is honest: OK means that the whole range is on the disk
    and was transferred, and a request out of range changes no disk byte and is
    not answered OK. -/
def Honest (disk : List (BitVec 8)) (r : Request) (mem : M) (s : Served M) : Prop :=
  (s.status = some blkSOk → InRange disk r ∧ Transferred disk r mem s) ∧
  (¬InRange disk r → s.disk = disk ∧ s.status ≠ some blkSOk)

theorem InRange.le {disk : List (BitVec 8)} {r : Request} (h : InRange disk r)
    (hne : payload r.data ≠ []) : r.start + (payload r.data).length ≤ disk.length := by
  have hpos : 0 < (payload r.data).length := List.length_pos_of_ne_nil hne
  have hlast := h ((payload r.data).length - 1) (by omega)
  omega

section Wrap

variable {t : Target} (ht : t.overflowChecks = false)

include ht

theorem gather_total (desc : BitVec 64) (fuel : ℕ) (idx : BitVec 16) (mem : M) :
    ∃ r, gather t desc fuel idx mem = some r := by
  induction fuel generalizing idx mem with
  | zero =>
    unfold gather
    simp only [Target.add_of_wrap ht, Option.bind_eq_bind, Option.bind_some]
    split_ifs <;> exact ⟨_, rfl⟩
  | succ fuel ih =>
    unfold gather
    simp only [Target.add_of_wrap ht, Option.bind_eq_bind, Option.bind_some]
    split_ifs
    · obtain ⟨r, hr⟩ := ih _ _
      rw [hr]
      exact ⟨_, rfl⟩
    · exact ⟨_, rfl⟩

theorem parse_total (d : Blk) (mem : M) (head : BitVec 16) : ∃ r, parse t d mem head = some r := by
  obtain ⟨⟨chain, mem'⟩, hchain⟩ := gather_total ht d.desc blkQueueMax head mem
  unfold parse
  rw [hchain]
  simp only [Target.add_of_wrap ht, Option.bind_eq_bind, Option.bind_some]
  cases chain with
  | nil => exact ⟨_, rfl⟩
  | cons hdr rest =>
    dsimp only
    cases rest.getLast? with
    | none => exact ⟨_, rfl⟩
    | some last => exact ⟨_, rfl⟩

omit ht in
theorem handleRequest_eq {d : Blk} {mem mem1 : M} {head : BitVec 16} {r : Request}
    (h : parse t d mem head = some (some r, mem1)) :
    handleRequest t d mem head = execute t d.disk r mem1 := by
  rw [handleRequest, h]
  rfl

/-- The length that the used ring reports. -/
def reported (r : Request) (status : BitVec 8) : BitVec 32 :=
  (if status = blkSOk ∧ r.reqType = blkTIn then (r.data.map Seg.len).sum else 0) + 1

theorem execute_eq (disk disk' : List (BitVec 8)) (r : Request) (status : BitVec 8)
    (mem mem' : M)
    (h : perform t disk r.reqType r.sector r.data mem = some (status, disk', mem')) :
    execute t disk r mem = some ⟨some status, reported r status, disk',
      GuestMem.writeU8 mem' r.statusAddr status⟩ := by
  unfold execute reported
  rw [h]
  by_cases hin : status = blkSOk ∧ r.reqType = blkTIn
  · simp only [if_pos hin, Option.bind_eq_bind, Option.bind_some, Target.sum_of_wrap ht,
      Target.add_of_wrap ht, Option.pure_def]
  · simp only [if_neg hin, Option.bind_eq_bind, Option.bind_some, Target.add_of_wrap ht,
      Option.pure_def]

/-- An IN request is answered OK whatever its range is. -/
theorem execute_in (disk : List (BitVec 8)) {r : Request} (hr : r.reqType = blkTIn) (mem : M) :
    execute t disk r mem = some ⟨some blkSOk, reported r blkSOk, disk,
      GuestMem.writeU8
        (copyOut t disk (r.sector * BitVec.ofNat 64 sectorSize) (payload r.data) mem)
        r.statusAddr blkSOk⟩ := by
  refine execute_eq ht disk disk r blkSOk mem _ ?_
  rw [perform, if_pos hr, doRead_eq ht]
  rfl

/-- An OUT request is answered OK whatever its range is. -/
theorem execute_out (disk : List (BitVec 8)) {r : Request} (hr : r.reqType = blkTOut) (mem : M) :
    let s : Writing t M := (payload r.data).foldl copyInByte
      ⟨disk, (r.sector * BitVec.ofNat 64 sectorSize).setWidth t.usizeBits, mem⟩
    execute t disk r mem = some ⟨some blkSOk, reported r blkSOk, s.disk,
      GuestMem.writeU8 s.mem r.statusAddr blkSOk⟩ := by
  refine execute_eq ht disk _ r blkSOk mem _ ?_
  have hne : r.reqType ≠ blkTIn := by
    rw [hr]
    decide
  rw [perform, if_neg hne, if_pos hr, doWrite_eq ht]

/-- A request of another type is answered as not supported, and moves no data. -/
theorem execute_unsupported (disk : List (BitVec 8)) {r : Request} (hin : r.reqType ≠ blkTIn)
    (hout : r.reqType ≠ blkTOut) (mem : M) :
    execute t disk r mem = some ⟨some blkSUnsupp, reported r blkSUnsupp, disk,
      GuestMem.writeU8 mem r.statusAddr blkSUnsupp⟩ := by
  refine execute_eq ht disk disk r blkSUnsupp mem mem ?_
  rw [perform, if_neg hin, if_neg hout]

theorem execute_total (disk : List (BitVec 8)) (r : Request) (mem : M) :
    ∃ s, execute t disk r mem = some s := by
  by_cases hin : r.reqType = blkTIn
  · exact ⟨_, execute_in ht disk hin mem⟩
  · by_cases hout : r.reqType = blkTOut
    · exact ⟨_, execute_out ht disk hout mem⟩
    · exact ⟨_, execute_unsupported ht disk hin hout mem⟩

omit ht in
/-- In range, the offset in bytes does not wrap. -/
theorem toNat_start {disk : List (BitVec 8)} {r : Request}
    (hdisk : disk.length < 2 ^ (t.usizeBits - 1)) (hlt : r.start < disk.length) :
    (r.sector * BitVec.ofNat 64 sectorSize).toNat = r.start := by
  have hpow : 2 ^ (t.usizeBits - 1) ≤ 2 ^ 64 :=
    Nat.pow_le_pow_right (by decide) (by rcases t.usize with hw | hw <;> omega)
  have hsize : (BitVec.ofNat 64 sectorSize).toNat = sectorSize := by decide
  rw [BitVec.toNat_mul, hsize]
  exact Nat.mod_eq_of_lt (by unfold Request.start at hlt; omega)

/-- A request in range is transferred. -/
theorem transferred_of_inRange {disk : List (BitVec 8)}
    (hdisk : disk.length < 2 ^ (t.usizeBits - 1)) {r : Request} {mem : M} {s : Served M}
    (hs : execute t disk r mem = some s) (h : InRange disk r) : Transferred disk r mem s := by
  refine ⟨fun hr => ?_, fun hr => ?_⟩
  · rw [execute_in ht disk hr] at hs
    obtain rfl := Option.some.inj hs
    refine ⟨rfl, ?_⟩
    rcases eq_or_ne (payload r.data) [] with hnil | hne
    · rw [hnil]
      rfl
    · have hle := h.le hne
      have hpos : 0 < (payload r.data).length := List.length_pos_of_ne_nil hne
      have hstart := toNat_start hdisk (show r.start < disk.length by omega)
      dsimp only
      rw [copyOut_of_le hdisk (by rw [hstart]; exact hle), hstart]
  · rw [execute_out ht disk hr] at hs
    obtain rfl := Option.some.inj hs
    dsimp only
    rcases eq_or_ne (payload r.data) [] with hnil | hne
    · rw [hnil]
      exact (splice_nil _ _).symm
    · have hle := h.le hne
      have hpos : 0 < (payload r.data).length := List.length_pos_of_ne_nil hne
      have hlt : r.start < disk.length := by omega
      have hstart := toNat_start hdisk hlt
      have hoff :
          ((r.sector * BitVec.ofNat 64 sectorSize).setWidth t.usizeBits).toNat = r.start := by
        rw [toNat_offset hdisk (by rwa [hstart]), hstart]
      rw [copyIn_of_le hdisk (by rw [hoff]; exact hle), hoff]

/-- A supported request out of range is answered OK. -/
theorem not_honest_of_not_inRange {disk : List (BitVec 8)} {r : Request} {mem : M} {s : Served M}
    (hs : execute t disk r mem = some s) (hr : r.reqType = blkTIn ∨ r.reqType = blkTOut)
    (h : ¬InRange disk r) : ¬Honest disk r mem s := by
  intro hhonest
  refine (hhonest.2 h).2 ?_
  rcases hr with hr | hr
  · rw [execute_in ht disk hr] at hs
    rw [← Option.some.inj hs]
  · rw [execute_out ht disk hr] at hs
    rw [← Option.some.inj hs]

theorem honest_of_unsupported {disk : List (BitVec 8)} {r : Request} {mem : M} {s : Served M}
    (hs : execute t disk r mem = some s) (hin : r.reqType ≠ blkTIn) (hout : r.reqType ≠ blkTOut) :
    Honest disk r mem s := by
  rw [execute_unsupported ht disk hin hout] at hs
  obtain rfl := Option.some.inj hs
  have hne : some blkSUnsupp ≠ some blkSOk := by decide
  exact ⟨fun hok => absurd hok hne, fun _ => ⟨rfl, hne⟩⟩

/-- Every request that a chain in memory holds is answered honestly exactly when its
    type is neither IN nor OUT or its range lies inside the disk. -/
theorem honest_iff (d : Blk) (hdisk : d.disk.length < 2 ^ (t.usizeBits - 1)) (mem : M)
    (head : BitVec 16) :
    ∃ r mem1 s, parse t d mem head = some (r, mem1) ∧ handleRequest t d mem head = some s ∧
      ((∀ req, r = some req → Honest d.disk req mem1 s) ↔
        ∀ req, r = some req →
          (req.reqType ≠ blkTIn ∧ req.reqType ≠ blkTOut) ∨ InRange d.disk req) := by
  obtain ⟨⟨r, mem1⟩, hparse⟩ := parse_total ht d mem head
  cases r with
  | none =>
    refine ⟨none, mem1, ⟨none, 0, d.disk, mem1⟩, hparse, ?_, ?_⟩
    · rw [handleRequest, hparse]
      rfl
    · exact ⟨fun _ _ hreq => absurd hreq nofun, fun _ _ hreq => absurd hreq nofun⟩
  | some r =>
    obtain ⟨s, hs⟩ := execute_total ht d.disk r mem1
    refine ⟨some r, mem1, s, hparse, ?_, ?_⟩
    · rw [handleRequest_eq hparse, hs]
    · constructor
      · intro hhonest req hreq
        obtain rfl := Option.some.inj hreq
        by_contra hnot
        obtain ⟨htype, hrange⟩ := not_or.mp hnot
        refine not_honest_of_not_inRange ht hs ?_ hrange (hhonest r rfl)
        rcases not_and_or.mp htype with hin | hout
        · exact .inl (not_not.mp hin)
        · exact .inr (not_not.mp hout)
      · intro hcond req hreq
        obtain rfl := Option.some.inj hreq
        rcases hcond r rfl with ⟨hin, hout⟩ | hrange
        · exact honest_of_unsupported ht hs hin hout
        · exact ⟨fun _ => ⟨hrange, transferred_of_inRange ht hdisk hs hrange⟩,
            fun hnot => absurd hrange hnot⟩

end Wrap

/-- A device with a disk of one zero byte. -/
def wrapDisk : Blk := { Blk.new GicInner.new 48 [0] with desc := 0x40000000 }

/-- RAM with an OUT request of one byte, `0xAA`, for the sector `hi * 2 ^ 48`. -/
def outMem (hi : BitVec 8) : Bus Empty where
  ram := { base := 0x40000000, size := 0x1000, bytes := fun a =>
    (List.lookup a [(1, 0x01), (3, 0x40), (8, 0x10), (12, 0x01), (14, 0x01),
      (17, 0x02), (19, 0x40), (24, 0x01), (28, 0x01), (30, 0x02),
      (33, 0x03), (35, 0x40), (40, 0x01), (44, 0x02),
      (0x100, 0x01), (0x10e, hi), (0x200, 0xAA)]).getD 0 }
  devices := []

/-- The sector's byte offset wraps to 0. -/
example : (handleRequest Target.release64 wrapDisk (outMem 0x80) 0).map
    (fun s => (s.status, s.disk)) =
    some (some blkSOk, [0xAA]) := by decide +kernel

theorem honest_iff_wrapDisk :
    ∃ r mem1 s, parse Target.release64 wrapDisk (outMem 0x80) 0 = some (r, mem1) ∧
      handleRequest Target.release64 wrapDisk (outMem 0x80) 0 = some s ∧
      ((∀ req, r = some req → Honest wrapDisk.disk req mem1 s) ↔
        ∀ req, r = some req →
          (req.reqType ≠ blkTIn ∧ req.reqType ≠ blkTOut) ∨ InRange wrapDisk.disk req) :=
  honest_iff Target.overflowChecks_release64 wrapDisk (by decide) (outMem 0x80) 0

/-- The request for the sector `2 ^ 55` is answered OK. -/
theorem not_honest_wrapDisk : ¬ ∀ (d : Blk) (mem mem1 : Bus Empty) (head : BitVec 16) (r : Request)
    (s : Served (Bus Empty)), parse Target.release64 d mem head = some (some r, mem1) →
    handleRequest Target.release64 d mem head = some s → Honest d.disk r mem1 s := by
  intro h
  obtain ⟨⟨r, mem1⟩, hparse⟩ := parse_total Target.overflowChecks_release64 wrapDisk (outMem 0x80) 0
  have hfields : (parse Target.release64 wrapDisk (outMem 0x80) 0).map (fun p =>
      p.1.map fun r => (r.reqType, r.sector, (payload r.data).length)) =
      some (some (blkTOut, 0x80000000000000, 1)) := by decide +kernel
  rw [hparse] at hfields
  cases r with
  | none => cases hfields
  | some r =>
    simp only [Option.map_some, Option.some.injEq, Prod.mk.injEq] at hfields
    obtain ⟨htype, hsector, hlen⟩ := hfields
    have hs := execute_out Target.overflowChecks_release64 wrapDisk.disk htype mem1
    have hserve := (handleRequest_eq hparse).trans hs
    have hrange : ¬InRange wrapDisk.disk r := by
      intro hin
      have hbyte := hin 0 (by rw [hlen]; decide)
      rw [Request.start, hsector] at hbyte
      exact absurd hbyte (by decide)
    exact not_honest_of_not_inRange Target.overflowChecks_release64 hs (.inr htype) hrange
      (h _ _ _ _ _ _ hparse hserve)

end Blk

end V64.Platform
