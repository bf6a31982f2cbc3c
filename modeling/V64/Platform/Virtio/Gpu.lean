import V64.Platform.Gic
import V64.Platform.Virtio.Drain

/-!
# The display device

Model of `crates/platform/src/virtio/gpu.rs`. Queue 0 takes control commands, queue 1
cursor commands, which are dropped. Host allocations succeed, but for `vec![0; n]`
with more bytes than `isize` counts, which panics.

* `handleCmd`: one control command and its response.
* `serveControl`: one chain of the control queue.
* `process`: one notification, for at most `fuel` chains of each queue.
-/

namespace V64.Platform

open Checked Loops V64.Interp

/-- `HDR_LEN` (line 53). -/
def hdrLen : ℕ := 24

/-- `CMD_GET_DISPLAY_INFO` and the commands after it (lines 41–48). -/
def cmdGetDisplayInfo : BitVec 32 := 0x0100

@[inherit_doc cmdGetDisplayInfo] def cmdResourceCreate2d : BitVec 32 := 0x0101

@[inherit_doc cmdGetDisplayInfo] def cmdResourceUnref : BitVec 32 := 0x0102

@[inherit_doc cmdGetDisplayInfo] def cmdSetScanout : BitVec 32 := 0x0103

@[inherit_doc cmdGetDisplayInfo] def cmdResourceFlush : BitVec 32 := 0x0104

@[inherit_doc cmdGetDisplayInfo] def cmdTransferToHost2d : BitVec 32 := 0x0105

@[inherit_doc cmdGetDisplayInfo] def cmdResourceAttachBacking : BitVec 32 := 0x0106

@[inherit_doc cmdGetDisplayInfo] def cmdResourceDetachBacking : BitVec 32 := 0x0107

/-- `RESP_OK_NODATA`, `RESP_OK_DISPLAY_INFO` and `RESP_ERR_UNSPEC` (lines 49–51). -/
def respOkNodata : BitVec 32 := 0x1100

@[inherit_doc respOkNodata] def respOkDisplayInfo : BitVec 32 := 0x1101

@[inherit_doc respOkNodata] def respErrUnspec : BitVec 32 := 0x1200

/-- `Resource` (lines 55–62). -/
structure Resource where
  width : BitVec 32
  height : BitVec 32
  backing : List (BitVec 64 × BitVec 32)
  pixels : List (BitVec 8)

/-- The fields of `Inner` (lines 64–78) that commands work on. -/
structure Display where
  width : BitVec 32
  height : BitVec 32
  resources : BitVec 32 → Option Resource
  scanoutRes : BitVec 32
  dirty : Bool

/-- `Inner` (lines 64–78). -/
structure Gpu extends Display where
  gic : GicInner
  irq : BitVec 32
  devFeatSel : BitVec 32
  status : BitVec 32
  intStatus : BitVec 32
  queueSel : Fin 2
  queues : Fin 2 → Virtq
  notified : Bool

/-! ## Commands -/

/-- `rd_u32` (lines 81–83). -/
def rdU32 (t : Target) (b : List (BitVec 8)) (o : t.Usize) : Option (BitVec 32) := do
  let hi ← t.add o 4
  return ((subslice b o.toNat hi.toNat).map (Bytes.ofLe 32)).getD 0

/-- `rd_u64` (lines 84–86). -/
def rdU64 (t : Target) (b : List (BitVec 8)) (o : t.Usize) : Option (BitVec 64) := do
  let hi ← t.add o 8
  return ((subslice b o.toNat hi.toNat).map (Bytes.ofLe 64)).getD 0

/-- `resp_hdr` (lines 274–279). -/
def respHdr (ty : BitVec 32) : List (BitVec 8) := Bytes.toLe 4 ty ++ List.replicate (hdrLen - 4) 0

namespace Display

/-- `resp_display_info` (lines 257–270): sixteen modes, the first of them enabled. -/
def respDisplayInfo (d : Display) : List (BitVec 8) :=
  respHdr respOkDisplayInfo ++ (List.range 16).flatMap fun i =>
    let (w, h, en) : BitVec 32 × BitVec 32 × BitVec 32 :=
      if i = 0 then (d.width, d.height, 1) else (0, 0, 0)
    List.replicate 8 0 ++ Bytes.toLe 4 w ++ Bytes.toLe 4 h ++ Bytes.toLe 4 en ++ List.replicate 4 0

/-- The resource `id` replaced. -/
def setResource (d : Display) (id : BitVec 32) (r : Option Resource) : Display :=
  { d with resources := Function.update d.resources id r }

/-- `vec![0u8; n]`. -/
def zeroed (t : Target) (n : t.Usize) : Option (List (BitVec 8)) :=
  if n.toNat < 2 ^ (t.usizeBits - 1) then some (List.replicate n.toNat 0) else none

/-- `CMD_RESOURCE_CREATE_2D` (lines 196–203). -/
def create2d (t : Target) (d : Display) (req : List (BitVec 8)) : Option Display := do
  let id ← rdU32 t req (BitVec.ofNat _ hdrLen)
  let width ← rdU32 t req (BitVec.ofNat _ (hdrLen + 8))
  let height ← rdU32 t req (BitVec.ofNat _ (hdrLen + 12))
  let area ← t.mul (width.setWidth t.usizeBits) (height.setWidth t.usizeBits)
  let size ← t.mul area 4
  let pixels ← zeroed t size
  return d.setResource id (some ⟨width, height, [], pixels⟩)

/-- Entry `i` of `CMD_RESOURCE_ATTACH_BACKING` (lines 213–216). -/
def backingEntry (t : Target) (req : List (BitVec 8)) (backing : List (BitVec 64 × BitVec 32))
    (i : ℕ) : Option (List (BitVec 64 × BitVec 32)) := do
  let step ← t.mul (BitVec.ofNat t.usizeBits i) 16
  let base ← t.add (BitVec.ofNat _ (hdrLen + 8)) step
  let addr ← rdU64 t req base
  let lenAt ← t.add base 8
  let len ← rdU32 t req lenAt
  return backing ++ [(addr, len)]

/-- `CMD_RESOURCE_ATTACH_BACKING` (lines 208–219). -/
def attachBacking (t : Target) (d : Display) (req : List (BitVec 8)) : Option Display := do
  let id ← rdU32 t req (BitVec.ofNat _ hdrLen)
  let nr ← rdU32 t req (BitVec.ofNat _ (hdrLen + 4))
  match d.resources id with
  | none => return d
  | some res =>
    let backing ← (List.range nr.toNat).foldlM (backingEntry t req) []
    return d.setResource id (some { res with backing := backing })

/-- `CMD_RESOURCE_DETACH_BACKING` (lines 220–225). -/
def detachBacking (t : Target) (d : Display) (req : List (BitVec 8)) : Option Display := do
  let id ← rdU32 t req (BitVec.ofNat _ hdrLen)
  return d.setResource id ((d.resources id).map fun res => { res with backing := [] })

variable {M : Type} [GuestMem M]

/-- The loop of `transfer` (lines 246–252) over the backing, for `size` bytes. -/
def pull (t : Target) (size : ℕ) : List (BitVec 64 × BitVec 32) → List (BitVec 8) × M →
    Option (List (BitVec 8) × M)
  | [], s => some s
  | (addr, len) :: rest, s => do
    let s ← dmaRead t addr len s.1 s.2
    if size ≤ s.1.length then return s else pull t size rest s

/-- `transfer` (lines 244–255). -/
def transfer (t : Target) (d : Display) (mem : M) (id : BitVec 32) : Option (Display × M) :=
  match d.resources id with
  | none => some (d, mem)
  | some res => do
    let (buf, mem) ← pull t res.pixels.length res.backing ([], mem)
    let n := min buf.length res.pixels.length
    let head ← subslice buf 0 n
    let tail ← subslice res.pixels n res.pixels.length
    return (d.setResource id (some { res with pixels := head ++ tail }), mem)

/-- `handle_cmd` (lines 192–241). -/
def handleCmd (t : Target) (d : Display) (mem : M) (req : List (BitVec 8)) :
    Option (List (BitVec 8) × Display × M) := do
  let cmd ← rdU32 t req 0
  if cmd = cmdGetDisplayInfo then return (d.respDisplayInfo, d, mem)
  else if cmd = cmdResourceCreate2d then
    let d ← create2d t d req
    return (respHdr respOkNodata, d, mem)
  else if cmd = cmdResourceUnref then
    let id ← rdU32 t req (BitVec.ofNat _ hdrLen)
    return (respHdr respOkNodata, d.setResource id none, mem)
  else if cmd = cmdResourceAttachBacking then
    let d ← attachBacking t d req
    return (respHdr respOkNodata, d, mem)
  else if cmd = cmdResourceDetachBacking then
    let d ← detachBacking t d req
    return (respHdr respOkNodata, d, mem)
  else if cmd = cmdSetScanout then
    let res ← rdU32 t req (BitVec.ofNat _ (hdrLen + 20))
    return (respHdr respOkNodata, { d with scanoutRes := res }, mem)
  else if cmd = cmdTransferToHost2d then
    let id ← rdU32 t req (BitVec.ofNat _ (hdrLen + 24))
    let (d, mem) ← transfer t d mem id
    return (respHdr respOkNodata, d, mem)
  else if cmd = cmdResourceFlush then
    return (respHdr respOkNodata, { d with dirty := true }, mem)
  else return (respHdr respErrUnspec, d, mem)

/-! ## What a command needs -/

/-- The 32-bit field of a request at `o`, 0 past its end. -/
def field32 (t : Target) (req : List (BitVec 8)) (o : t.Usize) : BitVec 32 :=
  ((subslice req o.toNat (o + 4).toNat).map (Bytes.ofLe 32)).getD 0

/-- The bytes of pixels that `RESOURCE_CREATE_2D` asks for. -/
def createSize (t : Target) (req : List (BitVec 8)) : t.Usize :=
  (field32 t req (BitVec.ofNat _ (hdrLen + 8))).setWidth t.usizeBits *
    (field32 t req (BitVec.ofNat _ (hdrLen + 12))).setWidth t.usizeBits * 4

/-- A request creates no resource that is too large to allocate. -/
def Allocates (t : Target) (req : List (BitVec 8)) : Prop :=
  field32 t req 0 = cmdResourceCreate2d → (createSize t req).toNat < 2 ^ (t.usizeBits - 1)

section Wrapping

variable {t : Target} (ht : t.overflowChecks = false)

include ht

theorem rdU32_of_wrap (req : List (BitVec 8)) (o : t.Usize) :
    rdU32 t req o = some (field32 t req o) := by
  rw [rdU32, Target.add_of_wrap ht]
  rfl

theorem attachBacking_isSome (d : Display) (req : List (BitVec 8)) :
    ∃ d', attachBacking t d req = some d' := by
  unfold attachBacking
  simp only [rdU32_of_wrap ht, Option.bind_eq_bind, Option.bind_some]
  cases d.resources (field32 t req (BitVec.ofNat _ hdrLen)) with
  | none => exact ⟨_, rfl⟩
  | some res =>
    have hentry : ∀ backing, ∀ i ∈ List.range (field32 t req (BitVec.ofNat _ (hdrLen + 4))).toNat,
        True → ∃ backing', backingEntry t req backing i = some backing' ∧ True := by
      intro backing i _ _
      unfold backingEntry rdU64
      simp only [Target.add_of_wrap ht, Target.mul_of_wrap ht, rdU32_of_wrap ht,
        Option.bind_eq_bind, Option.bind_some]
      exact ⟨_, rfl, trivial⟩
    obtain ⟨backing, hfold, -⟩ := foldlM_total hentry (s := []) trivial
    dsimp only
    rw [hfold]
    exact ⟨_, rfl⟩

end Wrapping

/-! ## The control queue -/

/-- What the loop over the segments of a chain has found: the request so far and the
    first writable segment. -/
structure Collected (M : Type) where
  req : List (BitVec 8)
  respAt : Option (BitVec 64 × BitVec 32)
  mem : M

/-- A segment of a control chain (lines 161–169). -/
def collectSeg (t : Target) (s : Collected M) (seg : Seg) : Option (Collected M) :=
  if seg.writable = true then
    some { s with respAt := s.respAt.or (some (seg.addr, seg.len)) }
  else do
    let (req, mem) ← dmaRead t seg.addr seg.len s.req s.mem
    return { s with req := req, mem := mem }

/-- The response, where the chain has a place for it (lines 171–177). -/
def respond (t : Target) (respAt : Option (BitVec 64 × BitVec 32)) (resp : List (BitVec 8))
    (mem : M) : Option (BitVec 32 × M) :=
  match respAt with
  | none => some (0, mem)
  | some (addr, len) => do
    let n := min resp.length len.toNat
    let bytes ← subslice resp 0 n
    let mem ← dmaWrite t addr bytes mem
    return (BitVec.ofNat 32 n, mem)

/-- A chain of the control queue (lines 159–177). -/
def serveControl (t : Target) : Serve Display M := fun d mem segs => do
  let c ← segs.foldlM (collectSeg t) ⟨[], none, mem⟩
  let (resp, d, mem) ← handleCmd t d c.mem c.req
  let (written, mem) ← respond t c.respAt resp mem
  return (written, d, mem)

/-- A chain of the cursor queue (lines 181–184). -/
def serveCursor : Serve Display M := fun d mem _ => some (0, d, mem)

/-! ## Without overflow checks -/

/-- The length of the response to a command. -/
def responseLength (cmd : BitVec 32) : ℕ := if cmd = cmdGetDisplayInfo then 408 else 24

theorem length_respHdr (ty : BitVec 32) : (respHdr ty).length = 24 := by
  rw [respHdr, List.length_append, Bytes.length_toLe, List.length_replicate]
  rfl

theorem length_respDisplayInfo (d : Display) : d.respDisplayInfo.length = 408 := by
  rw [respDisplayInfo, List.length_append, length_respHdr, List.length_flatMap]
  simp only [List.length_append, List.length_replicate, Bytes.length_toLe]
  rfl

section Wrapping

variable {t : Target} (ht : t.overflowChecks = false) {P : M → Prop} (hP : ReadsKeep P)

include ht hP

theorem pull_isSome (size : ℕ) (backing : List (BitVec 64 × BitVec 32))
    {s : List (BitVec 8) × M} (hs : P s.2) : ∃ r, pull t size backing s = some r ∧ P r.2 := by
  induction backing generalizing s with
  | nil => exact ⟨s, rfl, hs⟩
  | cons seg rest ih =>
    obtain ⟨s1, h1, hs1⟩ := dmaRead_isSome ht hP seg.1 seg.2 s.1 hs
    rw [pull, h1, Option.bind_eq_bind, Option.bind_some]
    split_ifs
    · exact ⟨s1, rfl, hs1⟩
    · exact ih hs1

theorem transfer_isSome (d : Display) {mem : M} (hmem : P mem) (id : BitVec 32) :
    ∃ r, transfer t d mem id = some r ∧ P r.2 := by
  unfold transfer
  cases d.resources id with
  | none => exact ⟨_, rfl, hmem⟩
  | some res =>
    obtain ⟨⟨buf, mem1⟩, h1, hmem1⟩ :=
      pull_isSome ht hP res.pixels.length res.backing (s := ([], mem)) hmem
    dsimp only
    rw [h1, Option.bind_eq_bind, Option.bind_some]
    dsimp only
    rw [subslice_eq_some (Nat.zero_le _) (Nat.min_le_left _ _),
      subslice_eq_some (Nat.min_le_right _ _) le_rfl]
    exact ⟨_, rfl, hmem1⟩

/-- A command ends, reads memory and writes none, and has a response of the length that
    its number says. -/
theorem handleCmd_isSome (d : Display) {mem : M} (hmem : P mem) {req : List (BitVec 8)}
    (h : Allocates t req) :
    ∃ r, handleCmd t d mem req = some r ∧ P r.2.2 ∧
      r.1.length = responseLength (field32 t req 0) := by
  unfold handleCmd responseLength
  unfold Allocates at h
  simp only [rdU32_of_wrap ht, Option.bind_eq_bind, Option.bind_some]
  generalize field32 t req 0 = cmd at h ⊢
  by_cases hinfo : cmd = cmdGetDisplayInfo
  · rw [if_pos hinfo, if_pos hinfo]
    exact ⟨_, rfl, hmem, length_respDisplayInfo d⟩
  rw [if_neg hinfo, if_neg hinfo]
  have hlen := length_respHdr respOkNodata
  split_ifs with hcreate hunref hattach hdetach hscanout htransfer
  · unfold create2d zeroed
    simp only [rdU32_of_wrap ht, Target.mul_of_wrap ht, Option.bind_eq_bind, Option.bind_some]
    have hsize := h hcreate
    unfold createSize at hsize
    rw [if_pos hsize]
    exact ⟨_, rfl, hmem, hlen⟩
  · exact ⟨_, rfl, hmem, hlen⟩
  · obtain ⟨d', hd'⟩ := attachBacking_isSome ht d req
    rw [hd']
    exact ⟨_, rfl, hmem, hlen⟩
  · unfold detachBacking
    simp only [rdU32_of_wrap ht, Option.bind_eq_bind, Option.bind_some]
    exact ⟨_, rfl, hmem, hlen⟩
  · exact ⟨_, rfl, hmem, hlen⟩
  · obtain ⟨r, hr, hkeeps⟩ :=
      transfer_isSome ht hP d hmem (field32 t req (BitVec.ofNat _ (hdrLen + 24)))
    rw [hr]
    exact ⟨_, rfl, hkeeps, hlen⟩
  · exact ⟨_, rfl, hmem, hlen⟩
  · exact ⟨_, rfl, hmem, length_respHdr respErrUnspec⟩

/-- The request of a control chain is read. -/
theorem collect_isSome (segs : List Seg) {mem : M} (hmem : P mem) :
    ∃ c, segs.foldlM (collectSeg t) ⟨[], none, mem⟩ = some c ∧ P c.mem := by
  refine foldlM_total (P := fun c : Collected M => P c.mem) (fun s seg _ hs => ?_) hmem
  unfold collectSeg
  split_ifs
  · exact ⟨_, rfl, hs⟩
  · obtain ⟨r, hr, hkeeps⟩ := dmaRead_isSome ht hP seg.addr seg.len s.req hs
    rw [hr]
    exact ⟨_, rfl, hkeeps⟩

end Wrapping

end Display

/-! ## The device -/

namespace Gpu

/-- `VirtioGpu::new` (lines 288–304). -/
def new (gic : GicInner) (irq width height : BitVec 32) : Gpu where
  width := width
  height := height
  resources := fun _ => none
  scanoutRes := 0
  dirty := false
  gic := gic
  irq := irq
  devFeatSel := 0
  status := 0
  intStatus := 0
  queueSel := queue0
  queues := fun _ => .default
  notified := false

/-- `take_frame` (lines 314–322). -/
def takeFrame (d : Gpu) : Option (BitVec 32 × BitVec 32 × List (BitVec 8)) × Gpu :=
  if d.dirty = false then (none, d)
  else
    ((d.resources d.scanoutRes).map fun res => (res.width, res.height, res.pixels),
      { d with dirty := false })

/-- `read` (lines 89–112). -/
def read (d : Gpu) (offset : BitVec 64) : BitVec 64 :=
  let off := offset.toNat
  if off = 0x000 then 0x74726976
  else if off = 0x004 then 2
  else if off = 0x008 then 16
  else if off = 0x00c then 0x34363676
  else if off = 0x010 then if d.devFeatSel = 1 then 1 else 0
  else if off = 0x034 then queueMax
  else if off = 0x044 then (BitVec.ofBool (d.queues d.queueSel).ready).setWidth 64
  else if off = 0x060 then d.intStatus.setWidth 64
  else if off = 0x070 then d.status.setWidth 64
  else if off = 0x0b0 ∨ off = 0x0b4 then 0xffffffff
  else if off = 0x108 then 1
  else 0

/-- `reset` (lines 140–147). -/
def reset (d : Gpu) : Gpu where
  __ := d
  queues := fun _ => .default
  resources := fun _ => none
  scanoutRes := 0
  intStatus := 0
  notified := false
  gic := d.gic.clearPending d.irq

/-- `write` (lines 114–138). -/
def write (d : Gpu) (offset val : BitVec 64) : Gpu :=
  let v : BitVec 32 := val.setWidth 32
  match (d.queues d.queueSel).writeReg offset.toNat v with
  | some q => { d with queues := Function.update d.queues d.queueSel q }
  | none =>
    match offset.toNat with
    | 0x014 => { d with devFeatSel := v }
    | 0x030 => { d with queueSel := selectQueue v }
    | 0x050 => { d with notified := true }
    | 0x064 =>
      let intStatus := d.intStatus &&& ~~~v
      { d with
        intStatus := intStatus
        gic := if intStatus = 0 then d.gic.clearPending d.irq else d.gic }
    | 0x070 => if v = 0 then reset { d with status := v } else { d with status := v }
    | _ => d

variable {M : Type} [GuestMem M]

/-- The used-buffer notification (lines 185–188). -/
def finish (d : Gpu) (raised : Bool) : Gpu where
  __ := d
  intStatus := if raised then d.intStatus ||| 1 else d.intStatus
  gic := if raised then d.gic.setPending d.irq else d.gic

/-- The loop of the control queue before its first pass. -/
def draining (d : Gpu) (mem : M) : Draining Display M := ⟨d.queues queue0, false, d.toDisplay, mem⟩

/-- The device after both loops (lines 153 and 185–188). -/
def processed (d : Gpu) (control cursor : Draining Display M) : Gpu :=
  finish { d with
    toDisplay := cursor.dev
    notified := false
    queues := Function.update (Function.update d.queues queue0 control.q) queue1 cursor.q }
    cursor.raised

/-- `process` (lines 149–189). -/
def process (t : Target) (fuel : ℕ) (d : Gpu) (mem : M) : Outcome (Gpu × M) :=
  if d.notified = false then .done (d, mem)
  else
    (run (drainPass t (Display.serveControl t)) fuel (d.draining mem)).bind fun s =>
      (run (drainPass t Display.serveCursor) fuel { s with q := d.queues queue1 }).bind fun s' =>
        .done (d.processed s s', s'.mem)

end Gpu

end V64.Platform
