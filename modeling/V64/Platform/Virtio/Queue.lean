import V64.Interp.Memory
import V64.Lib.Checked
import V64.Lib.Loops

/-!
# Split virtqueues

Model of `crates/platform/src/virtio/queue.rs`. The arithmetic is that of a build
(`Checked.Target`): a panic is `none`. Every function returns the memory it leaves,
since a read can reach a device too.
-/

namespace V64.Platform

open Checked Loops V64.Interp

/-- `Seg` (lines 14–19): one descriptor of a chain. -/
structure Seg where
  addr : BitVec 64
  len : BitVec 32
  writable : Bool
  deriving DecidableEq

/-- `F_NEXT` (line 10), as the bit of a descriptor's flags. -/
def hasNext (flags : BitVec 16) : Bool := flags.getLsbD 0

/-- `F_WRITE` (line 11). -/
def isWritable (flags : BitVec 16) : Bool := flags.getLsbD 1

variable {M : Type} [GuestMem M]

/-- Append `(head, len)` to the used ring of `qsz` entries at `used` and advance
    its index: `Virtq::push_used` (lines 62–68) and `push_used` of
    `virtio/blk.rs` (lines 266–274). -/
def pushUsedAt (t : Target) (used : BitVec 64) (qsz : BitVec 16) (mem : M) (head : BitVec 16)
    (len : BitVec 32) : Option M := do
  let idxAddr ← t.add used 2
  let (usedIdx, mem) := GuestMem.readU16 mem idxAddr
  let slot ← rem usedIdx qsz
  let ring ← t.add used 4
  let elem ← t.add ring (slot.setWidth 64 * 8)
  let mem := GuestMem.writeU32 mem elem (head.setWidth 32)
  let lenAddr ← t.add elem 4
  let mem := GuestMem.writeU32 mem lenAddr len
  return GuestMem.writeU16 mem idxAddr (usedIdx + 1)

/-- `Virtq` (lines 23–31). -/
structure Virtq where
  num : BitVec 32
  ready : Bool
  desc : BitVec 64
  avail : BitVec 64
  used : BitVec 64
  lastAvail : BitVec 16

namespace Virtq

/-- `Virtq::default`. -/
def default : Virtq where
  num := 0
  ready := false
  desc := 0
  avail := 0
  used := 0
  lastAvail := 0

/-- The `loop` of `pop` (lines 45–57), from the descriptor `idx` with room for
    `fuel` more. -/
def gather (t : Target) (desc : BitVec 64) : (fuel : ℕ) → (idx : BitVec 16) → (mem : M) →
    Option (List Seg × M)
  | fuel, idx, mem => do
    let d ← t.add desc (idx.setWidth 64 * 16)
    let flagsAddr ← t.add d 12
    let (flags, mem) := GuestMem.readU16 mem flagsAddr
    let (addr, mem) := GuestMem.readU64 mem d
    let lenAddr ← t.add d 8
    let (len, mem) := GuestMem.readU32 mem lenAddr
    let seg : Seg := ⟨addr, len, isWritable flags⟩
    if hasNext flags then
      match fuel with
      | 0 => return ([seg], mem)
      | fuel + 1 =>
        let nextAddr ← t.add d 14
        let (next, mem) := GuestMem.readU16 mem nextAddr
        let (segs, mem) ← gather t desc fuel next mem
        return (seg :: segs, mem)
    else return ([seg], mem)

/-- The chain that `pop` takes when `avail.idx` has moved on (lines 41–59). -/
def take (t : Target) (q : Virtq) (mem : M) : Option ((BitVec 16 × List Seg) × Virtq × M) := do
  let slot ← rem q.lastAvail (q.num.setWidth 16)
  let ring ← t.add q.avail 4
  let slotAddr ← t.add ring (slot.setWidth 64 * 2)
  let (head, mem) := GuestMem.readU16 mem slotAddr
  let (segs, mem) ← gather t q.desc q.num.toNat head mem
  return ((head, segs), { q with lastAvail := q.lastAvail + 1 }, mem)

/-- `Virtq::pop` (lines 36–59). -/
def pop (t : Target) (q : Virtq) (mem : M) :
    Option (Option (BitVec 16 × List Seg) × Virtq × M) :=
  if q.ready = false ∨ q.num = 0 then some (none, q, mem)
  else do
    let idxAddr ← t.add q.avail 2
    let (availIdx, mem) := GuestMem.readU16 mem idxAddr
    if q.lastAvail = availIdx then return (none, q, mem)
    else
      let (chain, q, mem) ← take t q mem
      return (some chain, q, mem)

/-- `Virtq::push_used` (lines 62–68). -/
def pushUsed (t : Target) (q : Virtq) (mem : M) (head : BitVec 16) (written : BitVec 32) :
    Option M :=
  pushUsedAt t q.used (q.num.setWidth 16) mem head written

/-- The low word of a ring address replaced. -/
def setLow (addr : BitVec 64) (v : BitVec 32) : BitVec 64 :=
  (addr &&& ~~~0xffffffff) ||| v.setWidth 64

/-- The high word of a ring address replaced. -/
def setHigh (addr : BitVec 64) (v : BitVec 32) : BitVec 64 :=
  (addr &&& 0xffffffff) ||| (v.setWidth 64 <<< 32)

/-- `Virtq::write_reg` (lines 72–85): `none` where it returns `false`. -/
def writeReg (q : Virtq) (off : ℕ) (v : BitVec 32) : Option Virtq :=
  match off with
  | 0x038 => some { q with num := v }
  | 0x044 => some { q with ready := v.getLsbD 0 }
  | 0x080 => some { q with desc := setLow q.desc v }
  | 0x084 => some { q with desc := setHigh q.desc v }
  | 0x090 => some { q with avail := setLow q.avail v }
  | 0x094 => some { q with avail := setHigh q.avail v }
  | 0x0a0 => some { q with used := setLow q.used v }
  | 0x0a4 => some { q with used := setHigh q.used v }
  | _ => none

end Virtq

/-! ## Transfers -/

/-- The 8 bytes at offset `i` in `dma_read` (lines 91–94). -/
def dmaReadWord (t : Target) (addr : BitVec 64) (s : List (BitVec 8) × M) (i : ℕ) :
    Option (List (BitVec 8) × M) := do
  let a ← t.add addr (BitVec.ofNat 64 i)
  let (w, mem) := GuestMem.readU64 s.2 a
  return (s.1 ++ Bytes.toLe 8 w, mem)

/-- The byte at offset `i` in `dma_read` (lines 95–98). -/
def dmaReadByte (t : Target) (addr : BitVec 64) (s : List (BitVec 8) × M) (i : ℕ) :
    Option (List (BitVec 8) × M) := do
  let a ← t.add addr (BitVec.ofNat 64 i)
  let (b, mem) := GuestMem.readU8 s.2 a
  return (s.1 ++ [b], mem)

/-- The offsets of the 8-byte chunks of a transfer of `n` bytes. -/
def wordOffsets (n : ℕ) : List ℕ := (List.range (n / 8)).map (8 * ·)

/-- The offsets of the bytes after them. -/
def byteOffsets (n : ℕ) : List ℕ := List.range' (8 * (n / 8)) (n % 8)

/-- `dma_read` (lines 89–99), with `out` extended. -/
def dmaRead (t : Target) (addr : BitVec 64) (len : BitVec 32) (out : List (BitVec 8)) (mem : M) :
    Option (List (BitVec 8) × M) := do
  let s ← (wordOffsets len.toNat).foldlM (dmaReadWord t addr) (out, mem)
  (byteOffsets len.toNat).foldlM (dmaReadByte t addr) s

/-- The 8 bytes at offset `i` in `dma_write` (lines 104–108). -/
def dmaWriteWord (t : Target) (addr : BitVec 64) (bytes : List (BitVec 8)) (mem : M) (i : ℕ) :
    Option M := do
  let chunk ← subslice bytes i (i + 8)
  let a ← t.add addr (BitVec.ofNat 64 i)
  return GuestMem.writeU64 mem a (Bytes.ofLe 64 chunk)

/-- The byte at offset `i` in `dma_write` (lines 109–112). -/
def dmaWriteByte (t : Target) (addr : BitVec 64) (bytes : List (BitVec 8)) (mem : M) (i : ℕ) :
    Option M := do
  let a ← t.add addr (BitVec.ofNat 64 i)
  let b ← bytes[i]?
  return GuestMem.writeU8 mem a b

/-- `dma_write` (lines 102–113). -/
def dmaWrite (t : Target) (addr : BitVec 64) (bytes : List (BitVec 8)) (mem : M) : Option M := do
  let mem ← (wordOffsets bytes.length).foldlM (dmaWriteWord t addr bytes) mem
  (byteOffsets bytes.length).foldlM (dmaWriteByte t addr bytes) mem

/-- Reading keeps `P`, which holds no state of a device. -/
structure ReadsKeep (P : M → Prop) : Prop where
  u8 : ∀ mem addr, P mem → P (GuestMem.readU8 mem addr).2
  u64 : ∀ mem addr, P mem → P (GuestMem.readU64 mem addr).2

theorem dmaRead_isSome {t : Target} (ht : t.overflowChecks = false) {P : M → Prop}
    (hP : ReadsKeep P) (addr : BitVec 64) (len : BitVec 32) (out : List (BitVec 8)) {mem : M}
    (hmem : P mem) : ∃ r, dmaRead t addr len out mem = some r ∧ P r.2 := by
  have hword : ∀ (s : List (BitVec 8) × M), ∀ i ∈ wordOffsets len.toNat, P s.2 →
      ∃ s', dmaReadWord t addr s i = some s' ∧ P s'.2 := by
    intro s i _ hs
    exact ⟨_, by rw [dmaReadWord, Target.add_of_wrap ht]; rfl, hP.u64 _ _ hs⟩
  have hbyte : ∀ (s : List (BitVec 8) × M), ∀ i ∈ byteOffsets len.toNat, P s.2 →
      ∃ s', dmaReadByte t addr s i = some s' ∧ P s'.2 := by
    intro s i _ hs
    exact ⟨_, by rw [dmaReadByte, Target.add_of_wrap ht]; rfl, hP.u8 _ _ hs⟩
  obtain ⟨s1, h1, hs1⟩ := foldlM_total hword (s := (out, mem)) hmem
  obtain ⟨s2, h2, hs2⟩ := foldlM_total hbyte hs1
  refine ⟨s2, ?_, hs2⟩
  rw [dmaRead, h1]
  exact h2

end V64.Platform
