import V64.Platform.Gic
import V64.Platform.Virtio.Queue

/-!
# The block device

Model of `crates/platform/src/virtio/blk.rs`. `disk` is the image; the controller
that the `gic` handle shares is a field. `process` is over any memory; where a guest
buffer lies in the device's own window is seen on the bus of `Virtio/OwnWindow.lean`.

* `handleRequest`, `process`: the request path, in any build.
* `Served`: what one request leaves, with the status byte it wrote.
-/

namespace V64.Platform

open Checked V64.Interp

/-- `QUEUE_MAX` (line 49). -/
def blkQueueMax : ℕ := 256

/-- `SECTOR` (line 64). -/
def sectorSize : ℕ := 512

/-- `BLK_T_IN` and `BLK_T_OUT` (lines 59 and 60). -/
def blkTIn : BitVec 32 := 0

@[inherit_doc blkTIn] def blkTOut : BitVec 32 := 1

/-- `BLK_S_OK` and `BLK_S_UNSUPP` (lines 61 and 62). -/
def blkSOk : BitVec 8 := 0

@[inherit_doc blkSOk] def blkSUnsupp : BitVec 8 := 2

/-- `Inner` (lines 66–83). -/
structure Blk where
  disk : List (BitVec 8)
  gic : GicInner
  irq : BitVec 32
  devFeatSel : BitVec 32
  drvFeatSel : BitVec 32
  status : BitVec 32
  intStatus : BitVec 32
  queueNum : BitVec 32
  queueReady : Bool
  desc : BitVec 64
  avail : BitVec 64
  used : BitVec 64
  lastAvail : BitVec 16
  notified : Bool

namespace Blk

/-- `VirtioBlk::new` (lines 285–302). -/
def new (gic : GicInner) (irq : BitVec 32) (disk : List (BitVec 8)) : Blk where
  disk := disk
  gic := gic
  irq := irq
  devFeatSel := 0
  drvFeatSel := 0
  status := 0
  intStatus := 0
  queueNum := 0
  queueReady := false
  desc := 0
  avail := 0
  used := 0
  lastAvail := 0
  notified := false

/-- `config_read` (lines 107–120): the capacity in sectors, little-endian. -/
def configRead (d : Blk) (coff size : ℕ) : BitVec 64 :=
  let capacity : BitVec 64 := BitVec.ofNat 64 (d.disk.length / sectorSize)
  let bytes : BitVec 64 := if coff < 8 then capacity else 0
  (List.range size).foldl (fun v i =>
    v ||| ((bytes >>> (8 * (coff % 8 + i))).setWidth 8).setWidth 64 <<< (8 * i % 64)) 0

/-- `read` (lines 86–105). -/
def read (d : Blk) (offset : BitVec 64) (size : ℕ) : BitVec 64 :=
  let off := offset.toNat
  if off = 0x000 then 0x74726976
  else if off = 0x004 then 2
  else if off = 0x008 then 2
  else if off = 0x00c then 0x34363676
  else if off = 0x010 then if d.devFeatSel = 1 then 1 else 0
  else if off = 0x034 then BitVec.ofNat 64 blkQueueMax
  else if off = 0x044 then (BitVec.ofBool d.queueReady).setWidth 64
  else if off = 0x060 then d.intStatus.setWidth 64
  else if off = 0x070 then d.status.setWidth 64
  else if off = 0x0b0 ∨ off = 0x0b4 then 0xffffffff
  else if 0x100 ≤ off then d.configRead (off - 0x100) size
  else 0

/-- `reset` (lines 154–160). -/
def reset (d : Blk) : Blk where
  __ := d
  queueReady := false
  intStatus := 0
  lastAvail := 0
  notified := false
  gic := d.gic.clearPending d.irq

/-- `write` (lines 122–152). -/
def write (d : Blk) (offset val : BitVec 64) : Blk :=
  let v : BitVec 32 := val.setWidth 32
  match offset.toNat with
  | 0x014 => { d with devFeatSel := v }
  | 0x024 => { d with drvFeatSel := v }
  | 0x038 => { d with queueNum := v }
  | 0x044 => { d with queueReady := v.getLsbD 0 }
  | 0x050 => { d with notified := true }
  | 0x064 =>
    let intStatus := d.intStatus &&& ~~~v
    { d with
      intStatus := intStatus
      gic := if intStatus = 0 then d.gic.clearPending d.irq else d.gic }
  | 0x070 => if v = 0 then reset { d with status := v } else { d with status := v }
  | 0x080 => { d with desc := Virtq.setLow d.desc v }
  | 0x084 => { d with desc := Virtq.setHigh d.desc v }
  | 0x090 => { d with avail := Virtq.setLow d.avail v }
  | 0x094 => { d with avail := Virtq.setHigh d.avail v }
  | 0x0a0 => { d with used := Virtq.setLow d.used v }
  | 0x0a4 => { d with used := Virtq.setHigh d.used v }
  | _ => d

/-! ## Requests -/

variable {M : Type} [GuestMem M]

/-- The loop that gathers a chain (lines 194–210), from the descriptor `idx` with
    room for `fuel` more. -/
def gather (t : Target) (desc : BitVec 64) : (fuel : ℕ) → (idx : BitVec 16) → (mem : M) →
    Option (List Seg × M)
  | fuel, idx, mem => do
    let d ← t.add desc (idx.setWidth 64 * 16)
    let (addr, mem) := GuestMem.readU64 mem d
    let lenAddr ← t.add d 8
    let (len, mem) := GuestMem.readU32 mem lenAddr
    let flagsAddr ← t.add d 12
    let (flags, mem) := GuestMem.readU16 mem flagsAddr
    let nextAddr ← t.add d 14
    let (next, mem) := GuestMem.readU16 mem nextAddr
    let seg : Seg := ⟨addr, len, isWritable flags⟩
    if hasNext flags then
      match fuel with
      | 0 => return ([seg], mem)
      | fuel + 1 =>
        let (segs, mem) ← gather t desc fuel next mem
        return (seg :: segs, mem)
    else return ([seg], mem)

/-- Byte `i` of a segment in `do_read` (lines 243–244), with the disk offset of the
    segment at `off`. -/
def readByte (t : Target) (disk : List (BitVec 8)) (off addr : BitVec 64) (mem : M) (i : ℕ) :
    Option M := do
  let pos ← t.add off (BitVec.ofNat 64 i)
  let byte := disk[(pos.setWidth t.usizeBits).toNat]?.getD 0
  let a ← t.add addr (BitVec.ofNat 64 i)
  return GuestMem.writeU8 mem a byte

/-- A segment of `do_read` (lines 241–247). -/
def readSeg (t : Target) (disk : List (BitVec 8)) (s : BitVec 64 × M) (seg : Seg) :
    Option (BitVec 64 × M) := do
  let mem ← (List.range seg.len.toNat).foldlM (readByte t disk s.1 seg.addr) s.2
  let off ← t.add s.1 (seg.len.setWidth 64)
  return (off, mem)

/-- `do_read` (lines 239–249). -/
def doRead (t : Target) (disk : List (BitVec 8)) (sector : BitVec 64) (data : List Seg) (mem : M) :
    Option (BitVec 8 × M) := do
  let off ← t.mul sector (BitVec.ofNat 64 sectorSize)
  let s ← data.foldlM (readSeg t disk) (off, mem)
  return (blkSOk, s.2)

/-- The state of the loops of `do_write`: the disk, the disk offset and memory. -/
structure Writing (t : Target) (M : Type) where
  disk : List (BitVec 8)
  off : t.Usize
  mem : M

/-- Byte `i` of a segment in `do_write` (lines 255–259). -/
def writeByte (t : Target) (addr : BitVec 64) (s : Writing t M) (i : ℕ) : Option (Writing t M) := do
  let a ← t.add addr (BitVec.ofNat 64 i)
  let (byte, mem) := GuestMem.readU8 s.mem a
  let disk := if s.off.toNat < s.disk.length then s.disk.set s.off.toNat byte else s.disk
  let off ← t.add s.off 1
  return ⟨disk, off, mem⟩

/-- A segment of `do_write` (lines 253–261). -/
def writeSeg (t : Target) (s : Writing t M) (seg : Seg) : Option (Writing t M) :=
  (List.range seg.len.toNat).foldlM (writeByte t seg.addr) s

/-- `do_write` (lines 251–263). -/
def doWrite (t : Target) (disk : List (BitVec 8)) (sector : BitVec 64) (data : List Seg)
    (mem : M) : Option (BitVec 8 × List (BitVec 8) × M) := do
  let off ← t.mul sector (BitVec.ofNat 64 sectorSize)
  let s ← data.foldlM (writeSeg t) ⟨disk, off.setWidth t.usizeBits, mem⟩
  return (blkSOk, s.disk, s.mem)

/-- The dispatch on the request type (lines 221–225): the status, the disk and
    memory. -/
def perform (t : Target) (disk : List (BitVec 8)) (reqType : BitVec 32) (sector : BitVec 64)
    (data : List Seg) (mem : M) : Option (BitVec 8 × List (BitVec 8) × M) :=
  if reqType = blkTIn then (doRead t disk sector data mem).map fun r => (r.1, disk, r.2)
  else if reqType = blkTOut then doWrite t disk sector data mem
  else some (blkSUnsupp, disk, mem)

/-- A request as its chain and its header give it. -/
structure Request where
  reqType : BitVec 32
  sector : BitVec 64
  data : List Seg
  statusAddr : BitVec 64

/-- The first half of `handle_request` (lines 192–219): the chain, and the header at
    its first descriptor. A chain of one descriptor holds no request. -/
def parse (t : Target) (d : Blk) (mem : M) (head : BitVec 16) : Option (Option Request × M) := do
  let (chain, mem) ← gather t d.desc blkQueueMax head mem
  match chain with
  | hdr :: rest =>
    match rest.getLast? with
    | none => return (none, mem)
    | some last =>
      let (reqType, mem) := GuestMem.readU32 mem hdr.addr
      let sectorAddr ← t.add hdr.addr 8
      let (sector, mem) := GuestMem.readU64 mem sectorAddr
      return (some ⟨reqType, sector, rest.dropLast, last.addr⟩, mem)
  | [] => return (none, mem)

/-- What one request leaves: the status byte it wrote, if its chain has a place for
    one, the length for the used ring, the disk and memory. -/
structure Served (M : Type) where
  status : Option (BitVec 8)
  written : BitVec 32
  disk : List (BitVec 8)
  mem : M

/-- The second half of `handle_request` (lines 221–236). -/
def execute (t : Target) (disk : List (BitVec 8)) (r : Request) (mem : M) :
    Option (Served M) := do
  let (status, disk, mem) ← perform t disk r.reqType r.sector r.data mem
  let mem := GuestMem.writeU8 mem r.statusAddr status
  let dataWritten ← if status = blkSOk ∧ r.reqType = blkTIn then t.sum (r.data.map Seg.len)
    else some 0
  let written ← t.add dataWritten 1
  return ⟨some status, written, disk, mem⟩

/-- `handle_request` (lines 192–237). -/
def handleRequest (t : Target) (d : Blk) (mem : M) (head : BitVec 16) : Option (Served M) := do
  let (r, mem) ← parse t d mem head
  match r with
  | none => return ⟨none, 0, d.disk, mem⟩
  | some r => execute t d.disk r mem

/-! ## The queue -/

/-- `push_used` (lines 266–274). -/
def pushUsed (t : Target) (d : Blk) (qsz : BitVec 16) (mem : M) (head : BitVec 16)
    (len : BitVec 32) : Option M := pushUsedAt t d.used qsz mem head len

/-- The head at the slot of `last_avail` (lines 177–178). -/
def nextHead (t : Target) (d : Blk) (qsz : BitVec 16) (mem : M) : Option (BitVec 16 × M) := do
  let slot ← rem d.lastAvail qsz
  let ring ← t.add d.avail 4
  let slotAddr ← t.add ring (slot.setWidth 64 * 2)
  return GuestMem.readU16 mem slotAddr

/-- The rest of the body of the loop of `process` (lines 179–181). -/
def serveHead (t : Target) (qsz : BitVec 16) (s : Blk × M) (head : BitVec 16) :
    Option (Blk × M) := do
  let served ← handleRequest t s.1 s.2 head
  let mem ← pushUsed t s.1 qsz served.mem head served.written
  return ({ s.1 with disk := served.disk, lastAvail := s.1.lastAvail + 1 }, mem)

/-- The body of the loop of `process` (lines 177–182). -/
def serve (t : Target) (qsz : BitVec 16) (s : Blk × M) : Option (Blk × M) := do
  let (head, mem) ← nextHead t s.1 qsz s.2
  serveHead t qsz (s.1, mem) head

/-- The `while` loop of `process` (lines 176–183), for at most `fuel` requests.
    `availIdx` is read once, so that `2 ^ 16` are enough (`drain_lastAvail`). -/
def drain (t : Target) (qsz availIdx : BitVec 16) : (fuel : ℕ) → Blk × M → Option (Blk × M)
  | 0, s => some s
  | fuel + 1, s => if s.1.lastAvail = availIdx then some s
      else (serve t qsz s).bind (drain t qsz availIdx fuel)

/-- The used-buffer notification after the loop (lines 184–187). -/
def finish (d : Blk) (didWork : Bool) : Blk where
  __ := d
  intStatus := if didWork then d.intStatus ||| 1 else d.intStatus
  gic := if didWork then d.gic.setPending d.irq else d.gic

/-- `process` (lines 164–188). -/
def process (t : Target) (d : Blk) (mem : M) : Option (Blk × M) :=
  if d.notified = false then some (d, mem)
  else
    let d := { d with notified := false }
    if d.queueReady = false ∨ d.queueNum = 0 then some (d, mem)
    else do
      let qsz : BitVec 16 := d.queueNum.setWidth 16
      let idxAddr ← t.add d.avail 2
      let (availIdx, mem) := GuestMem.readU16 mem idxAddr
      let (d', mem) ← drain t qsz availIdx (2 ^ 16) (d, mem)
      return (d'.finish (d.lastAvail != availIdx), mem)

end Blk

end V64.Platform
