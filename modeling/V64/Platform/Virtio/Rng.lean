import V64.Platform.Gic
import V64.Platform.Virtio.Drain

/-!
# The entropy device

Model of `crates/platform/src/virtio/rng.rs`. Every chain posted on the one queue is
filled with zeros.

* `fill`: what is done with a chain.
* `process`: one notification, for at most `fuel` chains.
-/

namespace V64.Platform

open Checked Loops V64.Interp

/-- `Inner` (lines 40–48). -/
structure Rng where
  gic : GicInner
  irq : BitVec 32
  devFeatSel : BitVec 32
  status : BitVec 32
  intStatus : BitVec 32
  queue : Virtq
  notified : Bool

namespace Rng

/-- `VirtioRng::new` (lines 139–149). -/
def new (gic : GicInner) (irq : BitVec 32) : Rng where
  gic := gic
  irq := irq
  devFeatSel := 0
  status := 0
  intStatus := 0
  queue := .default
  notified := false

/-- `read` (lines 51–68). -/
def read (d : Rng) (offset : BitVec 64) : BitVec 64 :=
  match offset.toNat with
  | 0x000 => 0x74726976
  | 0x004 => 2
  | 0x008 => 4
  | 0x00c => 0x34363676
  | 0x010 => if d.devFeatSel = 1 then 1 else 0
  | 0x034 => queueMax
  | 0x044 => (BitVec.ofBool d.queue.ready).setWidth 64
  | 0x060 => d.intStatus.setWidth 64
  | 0x070 => d.status.setWidth 64
  | 0x0b0 => 0xffffffff
  | 0x0b4 => 0xffffffff
  | _ => 0

/-- `reset` (lines 97–102). -/
def reset (d : Rng) : Rng where
  __ := d
  queue := .default
  intStatus := 0
  notified := false
  gic := d.gic.clearPending d.irq

/-- `write` (lines 70–95). -/
def write (d : Rng) (offset val : BitVec 64) : Rng :=
  let v : BitVec 32 := val.setWidth 32
  match d.queue.writeReg offset.toNat v with
  | some q => { d with queue := q }
  | none =>
    match offset.toNat with
    | 0x014 => { d with devFeatSel := v }
    | 0x050 => { d with notified := true }
    | 0x064 =>
      let intStatus := d.intStatus &&& ~~~v
      { d with
        intStatus := intStatus
        gic := if intStatus = 0 then d.gic.clearPending d.irq else d.gic }
    | 0x070 => if v = 0 then reset { d with status := v } else { d with status := v }
    | _ => d

variable {M : Type} [GuestMem M]

/-- Byte `i` of a segment (line 117). -/
def fillByte (t : Target) (addr : BitVec 64) (mem : M) (i : ℕ) : Option M := do
  let a ← t.add addr (BitVec.ofNat 64 i)
  return GuestMem.writeU8 mem a 0

/-- A segment (lines 115–120). -/
def fillSeg (t : Target) (s : BitVec 32 × M) (seg : Seg) : Option (BitVec 32 × M) :=
  if seg.writable = true then do
    let mem ← (List.range seg.len.toNat).foldlM (fillByte t seg.addr) s.2
    let written ← t.add s.1 seg.len
    return (written, mem)
  else some s

/-- The chain (lines 113–121). -/
def fill (t : Target) : Serve Unit M := fun _ mem segs => do
  let s ← segs.foldlM (fillSeg t) (0, mem)
  return (s.1, (), s.2)

/-- The used-buffer notification (lines 125–128). -/
def finish (d : Rng) (raised : Bool) : Rng where
  __ := d
  intStatus := if raised then d.intStatus ||| 1 else d.intStatus
  gic := if raised then d.gic.setPending d.irq else d.gic

/-- The draining loop before its first pass. -/
def draining (d : Rng) (mem : M) : Draining Unit M := ⟨d.queue, false, (), mem⟩

/-- `process` (lines 104–129). -/
def process (t : Target) (fuel : ℕ) (d : Rng) (mem : M) : Outcome (Rng × M) :=
  if d.notified = false then .done (d, mem)
  else
    (run (drainPass t (fill t)) fuel (d.draining mem)).bind fun s =>
      .done (finish { d with notified := false, queue := s.q } s.raised, s.mem)

end Rng

end V64.Platform
