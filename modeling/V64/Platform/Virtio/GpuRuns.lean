import V64.Platform.Virtio.DmaBytes

/-!
# The resources and frames of the display device

Runs of the device: control commands, each with any request and any memory, register
writes of the guest, and captures of the host.

* `Display.Handled`: what a command does.
* `Display.transferred`: the display that a transfer is to leave.
* `Gpu.Meets`: what a step of a run is to do to resources and frames.
* `Gpu.meets_iff`: every step of a run does, exactly where no command creates a resource
  whose size wraps around to one that the host allocates.
* `Gpu.process_commands`: a notification of the guest is a run of commands.
-/

namespace V64.Platform

open Checked Loops V64.Interp

/-- The pixels of a resource are four bytes for each of its `width * height`. -/
def Resource.Exact (r : Resource) : Prop := r.pixels.length = r.width.toNat * r.height.toNat * 4

namespace Display

/-- Every resource has exactly its pixels. -/
def Exact (d : Display) : Prop := ∀ id r, d.resources id = some r → r.Exact

theorem Exact.setResource {d : Display} (h : d.Exact) (id : BitVec 32) {o : Option Resource}
    (ho : ∀ r, o = some r → r.Exact) : (d.setResource id o).Exact := by
  intro id' r hr
  have hr : Function.update d.resources id o id' = some r := hr
  by_cases hid : id' = id
  · rw [hid, Function.update_self] at hr
    exact ho r hr
  · rw [Function.update_of_ne hid] at hr
    exact h id' r hr

/-! ## Creating -/

/-- The bytes of pixels of a resource that a request describes. -/
def pixelBytes (t : Target) (req : List (BitVec 8)) : ℕ :=
  (field32 t req (BitVec.ofNat _ (hdrLen + 8))).toNat *
    (field32 t req (BitVec.ofNat _ (hdrLen + 12))).toNat * 4

/-- The resource that a request describes, with so many bytes of pixels. -/
def described (t : Target) (req : List (BitVec 8)) (n : ℕ) : Resource :=
  ⟨field32 t req (BitVec.ofNat _ (hdrLen + 8)), field32 t req (BitVec.ofNat _ (hdrLen + 12)), [],
    List.replicate n 0⟩

section Create

variable {t : Target} {d d' : Display} {req : List (BitVec 8)}

theorem toNat_createSize (t : Target) (req : List (BitVec 8)) :
    (createSize t req).toNat = pixelBytes t req % 2 ^ t.usizeBits := by
  have hfield (v : BitVec 32) : (v.setWidth t.usizeBits).toNat = v.toNat :=
    BitVec.toNat_setWidth_of_le t.le_usizeBits
  have h4 : (4 : t.Usize).toNat = 4 := Target.toNat_ofNat_usize (by decide)
  unfold createSize pixelBytes
  rw [BitVec.toNat_mul, BitVec.toNat_mul, hfield, hfield, h4, Nat.mod_mul_mod]

/-- Without overflow checks a resource gets the low bits of its size. -/
theorem create2d_of_wrap (ht : t.overflowChecks = false) :
    create2d t d req = some d' ↔
      pixelBytes t req % 2 ^ t.usizeBits < 2 ^ (t.usizeBits - 1) ∧
        d' = d.setResource (field32 t req (BitVec.ofNat _ hdrLen))
          (some (described t req (pixelBytes t req % 2 ^ t.usizeBits))) := by
  have hsize := toNat_createSize t req
  unfold createSize at hsize
  unfold create2d zeroed described
  simp only [rdU32_of_wrap ht, Target.mul_of_wrap ht, Option.bind_eq_bind, Option.bind_some, hsize]
  split_ifs with hfits
  · rw [Option.bind_some, and_iff_right hfits]
    exact ⟨fun h => (Option.some.inj h).symm, fun h => congrArg some h.symm⟩
  · exact ⟨nofun, fun h => absurd h.1 hfits⟩

/-- A build without overflow checks creates what a build with them creates. -/
theorem create2d_wrapping_of_some (h : create2d t d req = some d') :
    create2d t.wrapping d req = some d' ∧
      (t.overflowChecks = true → pixelBytes t req < 2 ^ t.usizeBits) := by
  cases ht : t.overflowChecks with
  | true =>
    obtain ⟨hfits, hwrap⟩ := (create2d_checked ht).mp h
    refine ⟨hwrap, fun _ => Nat.lt_of_lt_of_le hfits ?_⟩
    exact Nat.pow_le_pow_right (by decide) (Nat.sub_le _ _)
  | false =>
    rw [Target.wrapping_of_unchecked ht]
    exact ⟨h, nofun⟩

/-- A request whose size does not wrap around creates an exact resource. -/
theorem Exact.create2d (hd : d.Exact) (h : create2d t d req = some d')
    (hsize : t.overflowChecks = false →
      pixelBytes t req % 2 ^ t.usizeBits < 2 ^ (t.usizeBits - 1) →
        pixelBytes t req < 2 ^ t.usizeBits) : d'.Exact := by
  obtain ⟨hwrap, hchecked⟩ := create2d_wrapping_of_some h
  obtain ⟨halloc, hd'⟩ := (create2d_of_wrap (t := t.wrapping) rfl).mp hwrap
  have hlt : pixelBytes t req < 2 ^ t.usizeBits := by
    cases ht : t.overflowChecks with
    | true => exact hchecked ht
    | false => exact hsize ht halloc
  rw [hd']
  apply hd.setResource
  intro r hr
  cases hr
  show (List.replicate (pixelBytes t req % 2 ^ t.usizeBits) 0).length = pixelBytes t req
  rw [List.length_replicate, Nat.mod_eq_of_lt hlt]

end Create

/-! ## Transfers -/

section Transfer

variable {M : Type} [GuestMem M]

/-- The bytes of all segments of a backing together. -/
def backingLength (backing : List (BitVec 64 × BitVec 32)) : ℕ :=
  (backing.map fun seg => seg.2.toNat).sum

/-- The bytes of all segments of a backing, as `dma_read` finds them one after the other. -/
def fetch (t : Target) : List (BitVec 64 × BitVec 32) → M → List (BitVec 8)
  | [], _ => []
  | (addr, len) :: rest, mem =>
    let (bytes, mem) := (dmaRead t.wrapping addr len [] mem).getD ([], mem)
    bytes ++ fetch t rest mem

/-- The display after a transfer into `id`: as many bytes as the backing has and the pixels
    hold are replaced. -/
def transferred (t : Target) (d : Display) (mem : M) (id : BitVec 32) : Display :=
  match d.resources id with
  | none => d
  | some res =>
    let n := min (backingLength res.backing) res.pixels.length
    d.setResource id
      (some { res with pixels := (fetch t res.backing mem).take n ++ res.pixels.drop n })

theorem length_fetch (t : Target) (backing : List (BitVec 64 × BitVec 32)) (mem : M) :
    (fetch t backing mem).length = backingLength backing := by
  induction backing generalizing mem with
  | nil => rfl
  | cons seg rest ih =>
    have hreads : ReadsKeep fun _ : M => True := ⟨fun _ _ h => h, fun _ _ h => h⟩
    have hread : ∃ r, dmaRead t.wrapping seg.1 seg.2 [] mem = some r ∧ True :=
      dmaRead_isSome (t := t.wrapping) rfl hreads seg.1 seg.2 [] trivial
    obtain ⟨r, hr, -⟩ := hread
    rw [fetch, hr, Option.getD_some, List.length_append, ih, length_dmaRead hr]
    show [].length + seg.2.toNat + backingLength rest = seg.2.toNat + backingLength rest
    rw [List.length_nil, Nat.zero_add]

/-- In readable memory these are its bytes. -/
theorem fetch_of_readable {t : Target} {view : ℕ → BitVec 8} {mem : M}
    {backing : List (BitVec 64 × BitVec 32)}
    (h : ∀ seg ∈ backing, Readable view mem seg.1 seg.2.toNat) :
    fetch t backing mem = backing.flatMap fun seg =>
      (List.range seg.2.toNat).map fun i => view (seg.1.toNat + i) := by
  induction backing with
  | nil => rfl
  | cons seg rest ih =>
    rw [fetch, dmaRead_of_readable (t := t.wrapping) rfl (h seg List.mem_cons_self),
      Option.getD_some, List.flatMap_cons]
    dsimp only
    rw [ih fun seg' hseg => h seg' (List.mem_cons_of_mem _ hseg)]

/-- The loop over the backing stops early only where the pixels are full. -/
theorem pull_spec {t : Target} {size : ℕ} {backing : List (BitVec 64 × BitVec 32)}
    {s r : List (BitVec 8) × M} (h : pull t size backing s = some r) :
    r.1.take size = (s.1 ++ fetch t backing s.2).take size ∧
      min r.1.length size = min (s.1.length + backingLength backing) size := by
  induction backing generalizing s with
  | nil =>
    cases h
    exact ⟨by rw [fetch, List.append_nil], rfl⟩
  | cons seg rest ih =>
    rw [pull] at h
    obtain ⟨s', hs', h⟩ := Option.bind_eq_some_iff.mp h
    have hlen := length_dmaRead hs'
    have hread := dmaRead_wrapping_of_some hs'
    rw [dmaRead_append] at hread
    obtain ⟨⟨bytes, mem⟩, hbytes, hread⟩ := Option.map_eq_some_iff.mp hread
    have hfetch : fetch t (seg :: rest) s.2 = bytes ++ fetch t rest mem := by
      rw [fetch, hbytes]
      rfl
    have htotal : backingLength (seg :: rest) = seg.2.toNat + backingLength rest := rfl
    subst hread
    rw [hfetch, htotal, ← List.append_assoc, ← Nat.add_assoc, ← hlen]
    split_ifs at h with hfull
    · cases h
      rw [List.take_append_of_le_length hfull]
      exact ⟨rfl, by omega⟩
    · exact ih h

/-- A transfer replaces the first bytes of the pixels by those of the backing. -/
theorem transfer_spec {t : Target} {d : Display} {mem : M} {id : BitVec 32} {r : Display × M}
    (h : transfer t d mem id = some r) : r.1 = transferred t d mem id := by
  unfold transfer at h
  unfold transferred
  cases hres : d.resources id with
  | none =>
    rw [hres] at h
    cases h
    rfl
  | some res =>
    rw [hres] at h
    obtain ⟨⟨buf, mem'⟩, hpull, h⟩ := Option.bind_eq_some_iff.mp h
    dsimp only at h
    rw [subslice_eq_some (Nat.zero_le _) (Nat.min_le_left _ _),
      subslice_eq_some (Nat.min_le_right _ _) le_rfl] at h
    cases h
    obtain ⟨htake, hmin⟩ := pull_spec hpull
    rw [List.length_nil, Nat.zero_add] at hmin
    rw [List.nil_append] at htake
    have hhead : buf.take (min (backingLength res.backing) res.pixels.length) =
        (fetch t res.backing mem).take (min (backingLength res.backing) res.pixels.length) := by
      have hcongr := congrArg (List.take (min (backingLength res.backing) res.pixels.length)) htake
      rw [List.take_take, List.take_take, Nat.min_eq_left (Nat.min_le_right _ _)] at hcongr
      exact hcongr
    have htail : (res.pixels.drop (min (backingLength res.backing) res.pixels.length)).take
        (res.pixels.length - min (backingLength res.backing) res.pixels.length) =
          res.pixels.drop (min (backingLength res.backing) res.pixels.length) := by
      rw [← List.length_drop]
      exact List.take_length
    dsimp only
    rw [hmin, List.drop_zero, Nat.sub_zero, hhead, htail]

theorem Exact.transferred {d : Display} (hd : d.Exact) (t : Target) (mem : M) (id : BitVec 32) :
    (transferred t d mem id).Exact := by
  unfold Display.transferred
  cases hres : d.resources id with
  | none => exact hd
  | some res =>
    apply hd.setResource
    intro r hr
    cases hr
    have hlen : res.pixels.length = res.width.toNat * res.height.toNat * 4 := hd id res hres
    unfold Resource.Exact
    dsimp only
    rw [List.length_append, List.length_take, length_fetch, List.length_drop]
    omega

end Transfer

/-! ## Commands -/

section Commands

variable {M : Type} [GuestMem M] {t : Target} {d d' : Display} {mem : M} {req : List (BitVec 8)}

/-- What a completed command does to the display. -/
inductive Handled (t : Target) (d : Display) (mem : M) (req : List (BitVec 8)) : Display → Prop
  | create {created : Display} (hcmd : field32 t req 0 = cmdResourceCreate2d)
      (h : create2d t d req = some created) : Handled t d mem req created
  | unref (hcmd : field32 t req 0 = cmdResourceUnref) (id : BitVec 32) :
      Handled t d mem req (d.setResource id none)
  | back (hcmd : field32 t req 0 = cmdResourceAttachBacking ∨
        field32 t req 0 = cmdResourceDetachBacking) (id : BitVec 32)
      (backing : List (BitVec 64 × BitVec 32)) :
      Handled t d mem req (d.setResource id
        ((d.resources id).map fun res => { res with backing := backing }))
  | scanout (hcmd : field32 t req 0 = cmdSetScanout) (id : BitVec 32) :
      Handled t d mem req { d with scanoutRes := id }
  | transfer (hcmd : field32 t req 0 = cmdTransferToHost2d) :
      Handled t d mem req
        (transferred t d mem (field32 t req (BitVec.ofNat _ (hdrLen + 24))))
  | flush (hcmd : field32 t req 0 = cmdResourceFlush) : Handled t d mem req { d with dirty := true }
  | other (hcreate : field32 t req 0 ≠ cmdResourceCreate2d)
      (htransfer : field32 t req 0 ≠ cmdTransferToHost2d)
      (hflush : field32 t req 0 ≠ cmdResourceFlush) : Handled t d mem req d

theorem attachBacking_spec (h : attachBacking t d req = some d') :
    ∃ id backing, d' = d.setResource id
      ((d.resources id).map fun res => { res with backing := backing }) := by
  unfold attachBacking at h
  obtain ⟨id, -, h⟩ := Option.bind_eq_some_iff.mp h
  obtain ⟨nr, -, h⟩ := Option.bind_eq_some_iff.mp h
  cases hres : d.resources id with
  | none =>
    rw [hres] at h
    cases h
    refine ⟨id, [], ?_⟩
    have hsame : Function.update d.resources id none = d.resources := by
      rw [← hres]
      exact Function.update_eq_self id d.resources
    rw [hres, Option.map_none, setResource, hsame]
  | some res =>
    rw [hres] at h
    obtain ⟨backing, -, h⟩ := Option.bind_eq_some_iff.mp h
    cases h
    exact ⟨id, backing, by rw [hres]; rfl⟩

theorem rdU32_eq_some {o : t.Usize} {v : BitVec 32} (h : rdU32 t req o = some v) :
    v = field32 t req o := by
  unfold rdU32 at h
  obtain ⟨hi, hadd, h⟩ := Option.bind_eq_some_iff.mp h
  cases h
  unfold Target.add at hadd
  split_ifs at hadd
  cases hadd
  rfl

theorem handled_of_handleCmd {r : List (BitVec 8) × Display × M}
    (h : handleCmd t d mem req = some r) : Handled t d mem req r.2.1 := by
  unfold handleCmd at h
  obtain ⟨cmd, hcmd, h⟩ := Option.bind_eq_some_iff.mp h
  obtain rfl := rdU32_eq_some hcmd
  have hne {a b : BitVec 32} (hab : a ≠ b) (ha : field32 t req 0 = a) : field32 t req 0 ≠ b :=
    fun hb => hab (ha.symm.trans hb)
  split_ifs at h with hinfo hcreate hunref hattach hdetach hscanout htransfer hflush
  · cases h
    exact .other (hne (by decide) hinfo) (hne (by decide) hinfo) (hne (by decide) hinfo)
  · obtain ⟨d', hd', h⟩ := Option.bind_eq_some_iff.mp h
    cases h
    exact .create hcreate hd'
  · obtain ⟨id, -, h⟩ := Option.bind_eq_some_iff.mp h
    cases h
    exact .unref hunref id
  · obtain ⟨d', hd', h⟩ := Option.bind_eq_some_iff.mp h
    obtain ⟨id, backing, hspec⟩ := attachBacking_spec hd'
    cases h
    exact hspec ▸ .back (.inl hattach) id backing
  · obtain ⟨d', hd', h⟩ := Option.bind_eq_some_iff.mp h
    obtain ⟨id, -, hd'⟩ := Option.bind_eq_some_iff.mp hd'
    cases hd'
    cases h
    exact .back (.inr hdetach) id []
  · obtain ⟨id, -, h⟩ := Option.bind_eq_some_iff.mp h
    cases h
    exact .scanout hscanout id
  · obtain ⟨id, hid, h⟩ := Option.bind_eq_some_iff.mp h
    obtain ⟨⟨d', mem'⟩, hd', h⟩ := Option.bind_eq_some_iff.mp h
    have hspec : d' = transferred t d mem id := transfer_spec hd'
    cases h
    rw [rdU32_eq_some hid] at hspec
    exact hspec ▸ .transfer htransfer
  · cases h
    exact .flush hflush
  · cases h
    exact .other hcreate htransfer hflush

theorem create2d_spec (h : create2d t d req = some d') :
    ∃ id res, d' = d.setResource id (some res) := by
  obtain ⟨-, hd'⟩ :=
    (create2d_of_wrap (t := t.wrapping) rfl).mp (create2d_wrapping_of_some h).1
  exact ⟨_, _, hd'⟩

/-- Only a flush marks the display as changed. -/
theorem Handled.dirty (h : Handled t d mem req d') :
    d'.dirty = (d.dirty || field32 t req 0 == cmdResourceFlush) := by
  have hne {a : BitVec 32} (hab : a ≠ cmdResourceFlush) (ha : field32 t req 0 = a) :
      d.dirty = (d.dirty || field32 t req 0 == cmdResourceFlush) := by
    rw [ha, beq_eq_false_iff_ne.mpr hab, Bool.or_false]
  cases h with
  | create hcmd hcreate =>
    obtain ⟨id, res, rfl⟩ := create2d_spec hcreate
    exact hne (by decide) hcmd
  | unref hcmd id => exact hne (by decide) hcmd
  | back hcmd id backing =>
    obtain hcmd | hcmd := hcmd
    · exact hne (by decide) hcmd
    · exact hne (by decide) hcmd
  | scanout hcmd id => exact hne (by decide) hcmd
  | transfer hcmd =>
    rw [← hne (by decide) hcmd, transferred]
    cases d.resources (field32 t req (BitVec.ofNat _ (hdrLen + 24))) with
    | none => rfl
    | some res => rfl
  | flush hcmd =>
    rw [hcmd, beq_self_eq_true, Bool.or_true]
  | other hcreate htransfer hflush =>
    rw [beq_eq_false_iff_ne.mpr hflush, Bool.or_false]

/-- Where the size of a created resource does not wrap around, resources stay exact. -/
theorem Handled.exact (h : Handled t d mem req d') (hd : d.Exact)
    (hsize : field32 t req 0 = cmdResourceCreate2d → t.overflowChecks = false →
      pixelBytes t req % 2 ^ t.usizeBits < 2 ^ (t.usizeBits - 1) →
        pixelBytes t req < 2 ^ t.usizeBits) : d'.Exact := by
  cases h with
  | create hcmd hcreate => exact hd.create2d hcreate (hsize hcmd)
  | unref hcmd id => exact hd.setResource id nofun
  | back hcmd id backing =>
    apply hd.setResource
    intro r hr
    obtain ⟨res, hres, rfl⟩ := Option.map_eq_some_iff.mp hr
    exact hd id res hres
  | scanout hcmd id => exact hd
  | transfer hcmd => exact hd.transferred t mem _
  | flush hcmd => exact hd
  | other hcreate htransfer hflush => exact hd

end Commands

end Display

/-! ## Runs -/

/-- What happens to the device: a control command, handled while memory is `mem`, a register
    write of the guest, or a capture of the host. -/
inductive GpuEvent (M : Type) where
  | command (mem : M) (req : List (BitVec 8))
  | write (offset val : BitVec 64)
  | takeFrame

/-- A captured frame: width, height and pixels. -/
abbrev Frame : Type := BitVec 32 × BitVec 32 × List (BitVec 8)

namespace Gpu

variable {M : Type} [GuestMem M]

/-- The device after a command. -/
def setDisplay (d : Gpu) (display : Display) : Gpu := { d with toDisplay := display }

/-- An event, the frame that it captures and the device after it. -/
def step (t : Target) (d : Gpu) : GpuEvent M → Option (Option Frame × Gpu)
  | .command mem req =>
    (Display.handleCmd t d.toDisplay mem req).map fun r => (none, d.setDisplay r.2.1)
  | .write offset val => some (none, d.write offset val)
  | .takeFrame => some d.takeFrame

/-- The device after a run. -/
def runEvents (t : Target) (d : Gpu) (es : List (GpuEvent M)) : Option Gpu :=
  es.foldlM (fun d e => (d.step t e).map Prod.snd) d

/-- Whether there was a flush since the last capture. -/
def flushed (t : Target) (es : List (GpuEvent M)) : Bool :=
  es.foldl (fun f e =>
    match e with
    | .command _ req => f || Display.field32 t req 0 == cmdResourceFlush
    | .write _ _ => f
    | .takeFrame => false) false

/-- What a step is to do: every resource has exactly its pixels, a transfer replaces the
    first bytes of its resource by those of the backing and nothing else, and a frame comes
    after a flush and is the resource of the scanout. -/
structure Meets (t : Target) (flushed : Bool) (d : Gpu) (e : GpuEvent M) : Prop where
  exact : ∀ f d', d.step t e = some (f, d') → d'.Exact
  transfer : ∀ mem req f d', e = .command mem req →
    Display.field32 t req 0 = cmdTransferToHost2d → d.step t e = some (f, d') →
    d' = d.setDisplay (Display.transferred t d.toDisplay mem
      (Display.field32 t req (BitVec.ofNat _ (hdrLen + 24))))
  backing : ∀ mem req, e = .command mem req → ∀ id res view, d.resources id = some res →
    (∀ seg ∈ res.backing, Readable view mem seg.1 seg.2.toNat) →
    Display.fetch t res.backing mem = res.backing.flatMap fun seg =>
      (List.range seg.2.toNat).map fun i => view (seg.1.toNat + i)
  frame : ∀ w h pixels d', d.step t e = some (some (w, h, pixels), d') → flushed = true ∧
    pixels.length = w.toNat * h.toNat * 4 ∧
    ∃ res, d.resources d.scanoutRes = some res ∧
      w = res.width ∧ h = res.height ∧ pixels = res.pixels

/-- A command creates no resource whose size wraps around to one that can be allocated. -/
def SizeFits (t : Target) : GpuEvent M → Prop
  | .command _ req => Display.field32 t req 0 = cmdResourceCreate2d → t.overflowChecks = false →
      Display.pixelBytes t req % 2 ^ t.usizeBits < 2 ^ (t.usizeBits - 1) →
        Display.pixelBytes t req < 2 ^ t.usizeBits
  | _ => True

/-! ### Steps -/

section Step

variable {t : Target} {d d' : Gpu} {e : GpuEvent M} {f : Option Frame}

theorem reset_display (d : Gpu) :
    d.reset.dirty = d.dirty ∧ d.reset.toDisplay.Exact := ⟨rfl, nofun⟩

/-- A register write changes no resource, but that a reset removes them. -/
theorem write_display (d : Gpu) (offset val : BitVec 64) :
    (d.write offset val).dirty = d.dirty ∧ (d.Exact → (d.write offset val).Exact) := by
  unfold write
  dsimp only
  split
  · exact ⟨rfl, id⟩
  · split
    · exact ⟨rfl, id⟩
    · exact ⟨rfl, id⟩
    · exact ⟨rfl, id⟩
    · exact ⟨rfl, id⟩
    · split_ifs
      · exact ⟨rfl, fun _ => (reset_display _).2⟩
      · exact ⟨rfl, id⟩
    · exact ⟨rfl, id⟩

theorem step_command {mem : M} {req : List (BitVec 8)}
    (h : d.step t (.command mem req) = some (f, d')) :
    f = none ∧ ∃ display, Display.Handled t d.toDisplay mem req display ∧
      d' = d.setDisplay display := by
  obtain ⟨r, hr, heq⟩ := Option.map_eq_some_iff.mp h
  cases heq
  exact ⟨rfl, r.2.1, Display.handled_of_handleCmd hr, rfl⟩

theorem takeFrame_eq (d : Gpu) :
    d.takeFrame.2 = { d with dirty := false } ∧
      ∀ w h pixels, d.takeFrame.1 = some (w, h, pixels) → d.dirty = true ∧
        ∃ res, d.resources d.scanoutRes = some res ∧
          w = res.width ∧ h = res.height ∧ pixels = res.pixels := by
  unfold takeFrame
  split_ifs with hdirty
  · refine ⟨?_, nofun⟩
    rw [← hdirty]
  · refine ⟨rfl, fun w h pixels hframe => ⟨Bool.eq_true_of_not_eq_false hdirty, ?_⟩⟩
    obtain ⟨res, hres, heq⟩ := Option.map_eq_some_iff.mp hframe
    cases heq
    exact ⟨res, hres, rfl, rfl, rfl⟩

theorem dirty_step {es : List (GpuEvent M)} (hd : d.dirty = flushed t es)
    (h : d.step t e = some (f, d')) : d'.dirty = flushed t (es ++ [e]) := by
  unfold flushed at hd ⊢
  rw [List.foldl_append, List.foldl_cons, List.foldl_nil, ← hd]
  cases e with
  | command mem req =>
    obtain ⟨-, display, hhandled, rfl⟩ := step_command h
    exact hhandled.dirty
  | write offset val =>
    cases h
    exact (write_display d offset val).1
  | takeFrame =>
    have heq : d.takeFrame = (f, d') := Option.some.inj h
    have hd' : d' = { d with dirty := false } := by rw [← (takeFrame_eq d).1, heq]
    rw [hd']

theorem exact_step (hd : d.Exact) (hsize : SizeFits t e) (h : d.step t e = some (f, d')) :
    d'.Exact := by
  cases e with
  | command mem req =>
    obtain ⟨-, display, hhandled, rfl⟩ := step_command h
    exact hhandled.exact hd hsize
  | write offset val =>
    cases h
    exact (write_display d offset val).2 hd
  | takeFrame =>
    have heq : d.takeFrame = (f, d') := Option.some.inj h
    have hd' : d' = { d with dirty := false } := by rw [← (takeFrame_eq d).1, heq]
    rw [hd']
    exact hd

theorem meets_step {fl : Bool} (hd : d.Exact) (hfl : d.dirty = fl) (hsize : SizeFits t e) :
    Meets t fl d e where
  exact f d' h := exact_step hd hsize h
  transfer mem req f d' he hcmd h := by
    subst he
    obtain ⟨-, display, hhandled, rfl⟩ := step_command h
    cases hhandled with
    | transfer hcmd => rfl
    | create hcmd' => rw [hcmd] at hcmd'; cases hcmd'
    | unref hcmd' => rw [hcmd] at hcmd'; cases hcmd'
    | back hcmd' => rw [hcmd] at hcmd'; obtain hcmd' | hcmd' := hcmd' <;> cases hcmd'
    | scanout hcmd' => rw [hcmd] at hcmd'; cases hcmd'
    | flush hcmd' => rw [hcmd] at hcmd'; cases hcmd'
    | other hcreate htransfer hflush => exact absurd hcmd htransfer
  backing mem req _ id res view _ hread := Display.fetch_of_readable hread
  frame w h pixels d' hstep := by
    cases e with
    | command mem req => cases (step_command hstep).1
    | write offset val => cases hstep
    | takeFrame =>
      have heq : d.takeFrame = (some (w, h, pixels), d') := Option.some.inj hstep
      obtain ⟨hdirty, res, hres, rfl, rfl, rfl⟩ :=
        (takeFrame_eq d).2 w h pixels (by rw [heq])
      exact ⟨hfl ▸ hdirty, hd _ res hres, res, hres, rfl, rfl, rfl⟩

end Step

/-! ### Whole runs -/

section Run

variable {t : Target} {d d' : Gpu}

theorem runEvents_concat {es : List (GpuEvent M)} {e : GpuEvent M} :
    runEvents t d (es ++ [e]) = some d' ↔
      ∃ d1 f, runEvents t d es = some d1 ∧ d1.step t e = some (f, d') := by
  unfold runEvents
  rw [List.foldlM_append]
  constructor
  · intro h
    obtain ⟨d1, hd1, h⟩ := Option.bind_eq_some_iff.mp h
    obtain ⟨d2, hd2, h⟩ := Option.bind_eq_some_iff.mp h
    obtain ⟨⟨f, d3⟩, hstep, rfl⟩ := Option.map_eq_some_iff.mp hd2
    cases h
    exact ⟨d1, f, hd1, hstep⟩
  · rintro ⟨d1, f, hd1, hstep⟩
    rw [hd1, Option.bind_eq_bind, Option.bind_some, List.foldlM_cons, hstep]
    rfl

variable (gic : GicInner) (irq width height : BitVec 32)

/-- The state after a run whose commands create no resource of another size than it says. -/
theorem exact_run {es : List (GpuEvent M)}
    (hsize : ∀ pre e, pre ++ [e] <+: es → (runEvents t (new gic irq width height) pre).isSome →
      SizeFits t e) :
    ∀ d, runEvents t (new gic irq width height) es = some d →
      d.Exact ∧ d.dirty = flushed t es := by
  induction es using List.reverseRecOn with
  | nil =>
    intro d hd
    cases hd
    exact ⟨nofun, rfl⟩
  | append_singleton es e ih =>
    intro d hd
    obtain ⟨d1, f, hd1, hstep⟩ := runEvents_concat.mp hd
    obtain ⟨hexact, hdirty⟩ := ih
      (fun pre e' hpre => hsize pre e' (hpre.trans (List.prefix_append es [e]))) d1 hd1
    refine ⟨exact_step hexact ?_ hstep, dirty_step hdirty hstep⟩
    exact hsize es e (List.prefix_refl _) (by rw [hd1]; rfl)

/-- Without overflow checks a creation ends that can be allocated. -/
theorem exists_step_create (ht : t.overflowChecks = false) (d : Gpu) (mem : M)
    {req : List (BitVec 8)} (hcmd : Display.field32 t req 0 = cmdResourceCreate2d)
    (halloc : Display.pixelBytes t req % 2 ^ t.usizeBits < 2 ^ (t.usizeBits - 1)) :
    ∃ d', d.step t (.command mem req) = some (none, d') ∧
      d'.resources (Display.field32 t req (BitVec.ofNat _ hdrLen)) =
        some (Display.described t req (Display.pixelBytes t req % 2 ^ t.usizeBits)) := by
  have hreads : ReadsKeep fun _ : M => True := ⟨fun _ _ h => h, fun _ _ h => h⟩
  have hallocates : Display.Allocates t req := fun _ => by
    rw [Display.toNat_createSize]
    exact halloc
  have hhandle : ∃ r, Display.handleCmd t d.toDisplay mem req = some r ∧ True ∧ _ :=
    Display.handleCmd_isSome ht hreads d.toDisplay trivial hallocates
  obtain ⟨r, hr, -⟩ := hhandle
  refine ⟨d.setDisplay r.2.1, ?_, ?_⟩
  · rw [step, hr]
    rfl
  · have hhandled := Display.handled_of_handleCmd hr
    generalize r.2.1 = display at hhandled ⊢
    show display.resources _ = _
    cases hhandled with
    | create hcmd' hcreate =>
      rw [((Display.create2d_of_wrap ht).mp hcreate).2]
      exact Function.update_self _ _ _
    | unref hcmd' => rw [hcmd] at hcmd'; cases hcmd'
    | back hcmd' => rw [hcmd] at hcmd'; obtain hcmd' | hcmd' := hcmd' <;> cases hcmd'
    | scanout hcmd' => rw [hcmd] at hcmd'; cases hcmd'
    | transfer hcmd' => rw [hcmd] at hcmd'; cases hcmd'
    | flush hcmd' => rw [hcmd] at hcmd'; cases hcmd'
    | other hcreate htransfer hflush => exact absurd hcmd hcreate

/-- **Resources and frames.** In every run from a fresh device each step keeps every resource
    exact, transfers what it is to transfer and captures only after a flush, if and only if
    no command of the run creates a resource whose size wraps around to one that the host
    allocates. -/
theorem meets_iff (es : List (GpuEvent M)) :
    (∀ pre e, pre ++ [e] <+: es → ∀ d, runEvents t (new gic irq width height) pre = some d →
      Meets t (flushed t pre) d e) ↔
    ∀ pre e, pre ++ [e] <+: es → (runEvents t (new gic irq width height) pre).isSome →
      SizeFits t e := by
  constructor
  · intro h pre e hpre hrun
    obtain ⟨d, hd⟩ := Option.isSome_iff_exists.mp hrun
    cases e with
    | command mem req =>
      intro hcmd ht halloc
      obtain ⟨d', hstep, hres⟩ := exists_step_create ht d mem hcmd halloc
      have hexact := (h pre _ hpre d hd).exact none d' hstep _ _ hres
      have hlen : Display.pixelBytes t req % 2 ^ t.usizeBits = Display.pixelBytes t req := by
        unfold Resource.Exact Display.described at hexact
        rw [List.length_replicate] at hexact
        exact hexact
      rw [← hlen]
      exact Nat.mod_lt _ (Nat.two_pow_pos _)
    | write offset val => trivial
    | takeFrame => trivial
  · intro hsize pre e hpre d hd
    have hbefore (pre' e') (h : pre' ++ [e'] <+: pre) :
        (runEvents t (new gic irq width height) pre').isSome → SizeFits t e' :=
      hsize pre' e' ((h.trans (List.prefix_append pre [e])).trans hpre)
    obtain ⟨hexact, hdirty⟩ := exact_run gic irq width height hbefore d hd
    exact meets_step hexact hdirty (hsize pre e hpre (by rw [hd]; rfl))

end Run

/-- A resource of 2^31 by 2^31 pixels, whose size is 2^64 bytes. -/
def hugeCreate : List (BitVec 8) :=
  Bytes.toLe 4 cmdResourceCreate2d ++ List.replicate 20 0 ++ Bytes.toLe 4 (1 : BitVec 32) ++
    Bytes.toLe 4 (1 : BitVec 32) ++ Bytes.toLe 4 (0x80000000 : BitVec 32) ++
    Bytes.toLe 4 (0x80000000 : BitVec 32)

/-- On a 64-bit host without overflow checks that resource has no pixels. -/
theorem not_meets_hugeCreate : ¬ ∀ (es pre : List (GpuEvent (Bus Empty))) e, pre ++ [e] <+: es →
    ∀ d, runEvents Target.release64 (new GicInner.new 49 1024 768) pre = some d →
      Meets Target.release64 (flushed Target.release64 pre) d e := by
  intro h
  have hmeets := h [.command ⟨⟨0x40000000, 0, fun _ => 0⟩, []⟩ hugeCreate] [] _
    (List.prefix_refl _) _ rfl
  have hexact := hmeets.exact none _ rfl 1 _ rfl
  unfold Resource.Exact at hexact
  exact absurd hexact (by decide)

/-! ### Notifications -/

section Process

variable {t : Target} {d : Gpu}

/-- The commands of a list. -/
def commands (cmds : List (M × List (BitVec 8))) : List (GpuEvent M) :=
  cmds.map fun c => .command c.1 c.2

/-- A chain of the control queue is a command. -/
theorem serveControl_command {display : Display} {mem : M} {segs : List Seg}
    {r : BitVec 32 × Display × M} (h : Display.serveControl t display mem segs = some r) :
    ∃ (mem' : M) (req : List (BitVec 8)), (d.setDisplay display).step t (.command mem' req) =
      some (none, d.setDisplay r.2.1) := by
  unfold Display.serveControl at h
  obtain ⟨c, -, h⟩ := Option.bind_eq_some_iff.mp h
  obtain ⟨⟨resp, display', mem'⟩, hcmd, h⟩ := Option.bind_eq_some_iff.mp h
  obtain ⟨⟨written, mem1⟩, -, h⟩ := Option.bind_eq_some_iff.mp h
  cases h
  refine ⟨c.mem, c.req, ?_⟩
  show (Display.handleCmd t display c.mem c.req).map _ = _
  rw [hcmd]
  rfl

/-- A pass of the control loop is a command, and the pass that leaves it is none. -/
theorem again_command {s s' : Draining Display M}
    (h : drainPass t (Display.serveControl t) s = some (.again s')) :
    ∃ (mem : M) (req : List (BitVec 8)), (d.setDisplay s.dev).step t (.command mem req) =
      some (none, d.setDisplay s'.dev) := by
  unfold drainPass at h
  obtain ⟨⟨chain, q, mem⟩, -, h⟩ := Option.bind_eq_some_iff.mp h
  cases chain with
  | none => cases h
  | some chain =>
    obtain ⟨r, hserve, h⟩ := Option.bind_eq_some_iff.mp h
    obtain ⟨mem', -, h⟩ := Option.bind_eq_some_iff.mp h
    cases h
    exact serveControl_command hserve

theorem leave_dev {serve : Serve Display M} {s s' : Draining Display M}
    (h : drainPass t serve s = some (.leave s')) : s'.dev = s.dev := by
  unfold drainPass at h
  obtain ⟨⟨chain, q, mem⟩, -, h⟩ := Option.bind_eq_some_iff.mp h
  cases chain with
  | none =>
    cases h
    rfl
  | some chain =>
    obtain ⟨r, -, h⟩ := Option.bind_eq_some_iff.mp h
    obtain ⟨mem', -, h⟩ := Option.bind_eq_some_iff.mp h
    cases h

/-- The passes of the control loop are a run of commands. -/
theorem visits_commands {n : ℕ} {s s' : Draining Display M}
    (h : Visits (drainPass t (Display.serveControl t)) n s s') :
    ∃ cmds : List (M × List (BitVec 8)),
      runEvents t (d.setDisplay s.dev) (commands cmds) = some (d.setDisplay s'.dev) := by
  induction h with
  | refl s => exact ⟨[], rfl⟩
  | again hpass _ ih =>
    obtain ⟨mem, req, hstep⟩ := again_command hpass
    obtain ⟨cmds, hrun⟩ := ih
    refine ⟨(mem, req) :: cmds, ?_⟩
    unfold runEvents commands at hrun ⊢
    rw [List.map_cons, List.foldlM_cons, hstep]
    exact hrun

/-- The cursor loop leaves the display as it is. -/
theorem visits_cursor {n : ℕ} {s s' : Draining Display M}
    (h : Visits (drainPass t Display.serveCursor) n s s') : s'.dev = s.dev := by
  induction h with
  | refl s => rfl
  | again hpass _ ih =>
    rw [ih]
    unfold drainPass at hpass
    obtain ⟨⟨chain, q, mem⟩, -, hpass⟩ := Option.bind_eq_some_iff.mp hpass
    cases chain with
    | none => cases hpass
    | some chain =>
      obtain ⟨r, hserve, hpass⟩ := Option.bind_eq_some_iff.mp hpass
      obtain ⟨mem', -, hpass⟩ := Option.bind_eq_some_iff.mp hpass
      cases hserve
      cases hpass
      rfl

/-- What a notification does to the display is a run of commands. -/
theorem process_commands {fuel : ℕ} {mem mem' : M} {d' : Gpu}
    (h : d.process t fuel mem = .done (d', mem')) :
    ∃ cmds : List (M × List (BitVec 8)),
      runEvents t d (commands cmds) = some (d.setDisplay d'.toDisplay) := by
  unfold process at h
  split_ifs at h with hidle
  · cases h
    exact ⟨[], rfl⟩
  · obtain ⟨s, hs, h⟩ := Outcome.bind_eq_done_iff.mp h
    obtain ⟨s', hs', h⟩ := Outcome.bind_eq_done_iff.mp h
    cases h
    obtain ⟨n, -, s1, hvisits, hleave⟩ := run_eq_done_iff.mp hs
    obtain ⟨m, -, s2, hvisits', hleave'⟩ := run_eq_done_iff.mp hs'
    obtain ⟨cmds, hrun⟩ := visits_commands (d := d) hvisits
    have hcontrol : s.dev = s1.dev := leave_dev hleave
    have hdev : s'.dev = s1.dev :=
      (leave_dev hleave').trans ((visits_cursor hvisits').trans hcontrol)
    refine ⟨cmds, ?_⟩
    show runEvents t d (commands cmds) = some (d.setDisplay s'.dev)
    rw [hdev]
    exact hrun

end Process

end Gpu

end V64.Platform
