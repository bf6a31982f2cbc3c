import V64.Platform.Gic
import V64.Platform.Virtio.Drain

/-!
# The input device

Model of `crates/platform/src/virtio/input.rs`: a keyboard or a mouse. Queue 0 takes
events to the guest, queue 1 status reports from it, which are dropped.

* `process`: one poll; the status queue for at most `fuel` chains.
* `deliver`: the event queue, one pending event for each chain.
-/

namespace V64.Platform

open Checked Loops V64.Interp

/-- `InputKind` (lines 53–56). -/
inductive InputKind where
  | keyboard
  | mouse
  deriving DecidableEq

/-- A pending event `(type, code, value)`. -/
structure InputEvent where
  ty : BitVec 16
  code : BitVec 16
  value : BitVec 32
  deriving DecidableEq

/-- `EV_SYN`, `EV_KEY` and `EV_REL` (lines 38–40). -/
def evSyn : BitVec 16 := 0

@[inherit_doc evSyn] def evKey : BitVec 16 := 1

@[inherit_doc evSyn] def evRel : BitVec 16 := 2

/-- `Inner` (lines 58–72). -/
structure Input where
  kind : InputKind
  gic : GicInner
  irq : BitVec 32
  devFeatSel : BitVec 32
  status : BitVec 32
  intStatus : BitVec 32
  queueSel : Fin 2
  queues : Fin 2 → Virtq
  cfgSelect : BitVec 8
  cfgSubsel : BitVec 8
  pending : List InputEvent
  notified : Bool

namespace Input

/-- `VirtioInput::new` (lines 212–227). -/
def new (gic : GicInner) (irq : BitVec 32) (kind : InputKind) : Input where
  kind := kind
  gic := gic
  irq := irq
  devFeatSel := 0
  status := 0
  intStatus := 0
  queueSel := queue0
  queues := fun _ => .default
  cfgSelect := 0
  cfgSubsel := 0
  pending := []
  notified := false

/-! ## Registers -/

/-- `config_payload` (lines 112–136). -/
def configPayload (d : Input) : List (BitVec 8) :=
  if d.cfgSelect = 0x01 then
    match d.kind with
    -- `v64-keyboard` and `v64-mouse`
    | .keyboard => [0x76, 0x36, 0x34, 0x2d, 0x6b, 0x65, 0x79, 0x62, 0x6f, 0x61, 0x72, 0x64]
    | .mouse => [0x76, 0x36, 0x34, 0x2d, 0x6d, 0x6f, 0x75, 0x73, 0x65]
  else if d.cfgSelect = 0x03 then [0x06, 0x00, 0x64, 0x00, 0x01, 0x00, 0x01, 0x00]
  else if d.cfgSelect = 0x11 ∧ d.cfgSubsel.setWidth 16 = evKey then
    match d.kind with
    | .keyboard => List.replicate 96 0xff
    -- `BTN_LEFT`, `BTN_RIGHT` and `BTN_MIDDLE` from 0x110
    | .mouse => (List.replicate 35 0).set (0x110 / 8) 0x07
  else if d.cfgSelect = 0x11 ∧ d.cfgSubsel.setWidth 16 = evRel ∧ d.kind = .mouse then [0x03, 0x01]
  else []

/-- `config_read` (lines 97–109). -/
def configRead (d : Input) (coff size : ℕ) : BitVec 64 :=
  let payload := d.configPayload
  let bytes := [d.cfgSelect, d.cfgSubsel, BitVec.ofNat 8 payload.length, 0, 0, 0, 0, 0] ++ payload
  (List.range size).foldl (fun v i =>
    v ||| (bytes.getD (coff + i) 0).setWidth 64 <<< (8 * i % 64)) 0

/-- `read` (lines 75–93). -/
def read (d : Input) (offset : BitVec 64) (size : ℕ) : BitVec 64 :=
  let off := offset.toNat
  if off = 0x000 then 0x74726976
  else if off = 0x004 then 2
  else if off = 0x008 then 18
  else if off = 0x00c then 0x34363676
  else if off = 0x010 then if d.devFeatSel = 1 then 1 else 0
  else if off = 0x034 then queueMax
  else if off = 0x044 then (BitVec.ofBool (d.queues d.queueSel).ready).setWidth 64
  else if off = 0x060 then d.intStatus.setWidth 64
  else if off = 0x070 then d.status.setWidth 64
  else if off = 0x0b0 ∨ off = 0x0b4 then 0xffffffff
  else if 0x100 ≤ off then d.configRead (off - 0x100) size
  else 0

/-- `reset` (lines 168–174). -/
def reset (d : Input) : Input where
  __ := d
  queues := fun _ => .default
  intStatus := 0
  pending := []
  notified := false
  gic := d.gic.clearPending d.irq

/-- `write` (lines 138–166). -/
def write (d : Input) (offset val : BitVec 64) : Input :=
  let v : BitVec 32 := val.setWidth 32
  match (d.queues d.queueSel).writeReg offset.toNat v with
  | some q => { d with queues := Function.update d.queues d.queueSel q }
  | none =>
    match offset.toNat with
    | 0x014 => { d with devFeatSel := v }
    | 0x030 => { d with queueSel := selectQueue v }
    | 0x050 => { d with notified := true }
    | 0x064 =>
      let intStatus := d.intStatus &&& ~~~v
      { d with
        intStatus := intStatus
        gic := if intStatus = 0 then d.gic.clearPending d.irq else d.gic }
    | 0x070 => if v = 0 then reset { d with status := v } else { d with status := v }
    | 0x100 => { d with cfgSelect := val.setWidth 8 }
    | 0x101 => { d with cfgSubsel := val.setWidth 8 }
    | _ => d

/-! ## Host events -/

/-- `push` (lines 234–236). -/
def push (d : Input) (ty code : BitVec 16) (value : BitVec 32) : Input where
  __ := d
  pending := d.pending ++ [⟨ty, code, value⟩]

/-- `key` (lines 239–242). -/
def key (d : Input) (code : BitVec 16) (down : Bool) : Input :=
  (d.push evKey code ((BitVec.ofBool down).setWidth 32)).push evSyn 0 0

/-- `motion` (lines 245–256). -/
def motion (d : Input) (dx dy wheel : BitVec 32) : Input :=
  let d := if dx ≠ 0 then d.push evRel 0 dx else d
  let d := if dy ≠ 0 then d.push evRel 1 dy else d
  let d := if wheel ≠ 0 then d.push evRel 8 wheel else d
  d.push evSyn 0 0

/-! ## The queues -/

variable {M : Type} [GuestMem M]

/-- A chain of the status queue is dropped (lines 183–186). -/
def drop : Serve Unit M := fun _ mem _ => some (0, (), mem)

/-- The event in the buffer at `addr` (lines 192–194). -/
def writeEvent (t : Target) (addr : BitVec 64) (e : InputEvent) (mem : M) : Option M := do
  let mem := GuestMem.writeU16 mem addr e.ty
  let codeAddr ← t.add addr 2
  let mem := GuestMem.writeU16 mem codeAddr e.code
  let valueAddr ← t.add addr 4
  return GuestMem.writeU32 mem valueAddr e.value

/-- The body of the event loop (lines 190–197) for the event `e` and a chain. The event
    is taken even where the chain has no buffer. -/
def serveEvent (t : Target) (e : InputEvent) (head : BitVec 16) (segs : List Seg)
    (s : Draining Unit M) : Option (Draining Unit M) :=
  match segs with
  | [] => some s
  | seg :: _ => do
    let mem ← writeEvent t seg.addr e s.mem
    let mem ← s.q.pushUsed t mem head 8
    return { s with raised := true, mem := mem }

/-- The event queue (lines 188–198): the events that are left, and the loop's state. -/
def deliver (t : Target) : List InputEvent → Draining Unit M →
    Option (List InputEvent × Draining Unit M)
  | [], s => some ([], s)
  | e :: pending, s => do
    let (chain, q, mem) ← s.q.pop t s.mem
    match chain with
    | none => return (e :: pending, { s with q := q, mem := mem })
    | some (head, segs) =>
      let s ← serveEvent t e head segs { s with q := q, mem := mem }
      deliver t pending s

/-- The used-buffer notification (lines 199–202). -/
def finish (d : Input) (raised : Bool) : Input where
  __ := d
  intStatus := if raised then d.intStatus ||| 1 else d.intStatus
  gic := if raised then d.gic.setPending d.irq else d.gic

/-- The loop of the status queue before its first pass. -/
def draining (d : Input) (mem : M) : Draining Unit M := ⟨d.queues queue1, false, (), mem⟩

/-- The device after both loops (lines 180 and 199–202). -/
def processed (d : Input) (statusq : Draining Unit M)
    (eventq : List InputEvent × Draining Unit M) : Input :=
  finish { d with
    notified := false
    pending := eventq.1
    queues := Function.update (Function.update d.queues queue1 statusq.q) queue0 eventq.2.q }
    eventq.2.raised

/-- `process` (lines 176–203). -/
def process (t : Target) (fuel : ℕ) (d : Input) (mem : M) : Outcome (Input × M) :=
  if d.notified = false ∧ d.pending = [] then .done (d, mem)
  else
    (run (drainPass t drop) fuel (d.draining mem)).bind fun s =>
      (Outcome.ofOption (deliver t d.pending { s with q := d.queues queue0 })).bind fun s' =>
        .done (d.processed s s', s'.2.mem)

end Input

end V64.Platform
