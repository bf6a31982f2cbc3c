import V64.Platform.Board

/-!
# Loading a kernel

Model of `crates/platform/src/loader.rs`: the header of an arm64 image, and `boot_image`,
which places the kernel, the initrd and the device tree and writes them to RAM.

* `write_bounds`: what is written to RAM starts in it and does not wrap.
* `BootLayout.Placed`: the ranges are apart from each other and inside RAM.
* `placed_iff`: they are after every `boot_image` in which the end of the kernel, with the
  size that its header declares, does not wrap, and after no other.
-/

namespace V64.Platform

open Checked V64.Cpu V64.Interp

/-- `ARM64_IMAGE_MAGIC` (line 7). -/
def arm64ImageMagic : BitVec 32 := 0x644d5241

/-- `ALIGN_2M` (line 9). -/
def align2M : BitVec 64 := 0x200000

/-- `DEFAULT_TEXT_OFFSET` (line 11). -/
def defaultTextOffset : BitVec 64 := 0x80000

/-- `align_up` (lines 13–15). -/
def alignUp (x align : BitVec 64) : BitVec 64 := (x + align - 1) &&& ~~~(align - 1)

/-- `read_u64_le` (lines 17–19). -/
def readU64Le (b : List (BitVec 8)) (off : ℕ) : BitVec 64 := Bytes.ofLe 64 ((b.drop off).take 8)

/-- `ImageHeader` (lines 23–28). -/
structure ImageHeader where
  textOffset : BitVec 64
  imageSize : BitVec 64

/-- `parse_image_header` (lines 33–42). -/
def parseImageHeader (image : List (BitVec 8)) : Option ImageHeader :=
  if image.length < 64 then none
  else
    let magic := Bytes.ofLe 32 ((image.drop 56).take 4)
    if magic ≠ arm64ImageMagic then none
    else some { textOffset := readU64Le image 8, imageSize := readU64Le image 16 }

/-- `BootLayout` (lines 46–50). -/
structure BootLayout where
  kernel : BitVec 64
  initrd : Option (BitVec 64 × BitVec 64)
  dtb : BitVec 64
  deriving DecidableEq

/-- `text_offset` (line 70). -/
def textOffset (image : List (BitVec 8)) : BitVec 64 :=
  match parseImageHeader image with
  | some h => h.textOffset
  | none => defaultTextOffset

/-- `span` (line 72): the larger one of the declared and the actual size. -/
def span (image : List (BitVec 8)) : BitVec 64 :=
  let declared :=
    match parseImageHeader image with
    | some h => h.imageSize
    | none => 0
  let actual := BitVec.ofNat 64 image.length
  if declared ≤ actual then actual else declared

variable {D : Type}

/-- The placement (lines 71–82): the ranges of `boot_image`, before it builds the tree. -/
def place (image : List (BitVec 8)) (initrd : Option (List (BitVec 8))) : BootLayout :=
  let kernelAddr := ramBase + textOffset image
  let kernelEnd := kernelAddr + span image
  let initrdRange := initrd.map fun data =>
    let start := alignUp kernelEnd align2M
    (start, start + BitVec.ofNat 64 data.length)
  let below :=
    match initrdRange with
    | some (_, stop) => stop
    | none => kernelEnd
  { kernel := kernelAddr, initrd := initrdRange, dtb := alignUp below align2M }

/-- The write of the initrd (lines 94–96), where there is one. -/
def writeInitrd (t : Target) (ram : Memory) (initrd : Option (List (BitVec 8)))
    (range : Option (BitVec 64 × BitVec 64)) : Option Memory :=
  match initrd, range with
  | some data, some (start, _) => writeSlice t ram start data
  | _, _ => some ram

/-- `Board::boot_image` (lines 65–101). -/
def bootImage (t : Target) (board : Board D) (image : List (BitVec 8))
    (initrd : Option (List (BitVec 8))) (bootargs : Str) : Option (BootLayout × Board D) := do
  let ramLen := board.ramSize
  let layout := place image initrd
  let dtb ← board.dtb t ramLen bootargs layout.initrd
  let dtbEnd := layout.dtb + BitVec.ofNat 64 dtb.length
  if ¬dtbEnd ≤ ramBase + ramLen then none
  else
    let ram ← writeSlice t board.bus.ram layout.kernel image
    let ram ← writeInitrd t ram initrd layout.initrd
    let ram ← writeSlice t ram layout.dtb dtb
    let board := { board with bus := { board.bus with ram := ram } }
    return (layout, board.enter layout.kernel layout.dtb)

/-! ## Ranges -/

/-- Two ranges of addresses, by their ends, have no address in common. -/
def Apart (r r' : ℕ × ℕ) : Prop := r.2 ≤ r'.1 ∨ r'.2 ≤ r.1

/-- The range of `len` bytes at `addr`. -/
def rangeAt (addr : BitVec 64) (len : ℕ) : ℕ × ℕ := (addr.toNat, addr.toNat + len)

/-- The ranges of a kernel, of an initrd and of a device tree. -/
def BootLayout.ranges (l : BootLayout) (image : List (BitVec 8))
    (initrd : Option (List (BitVec 8))) (dtb : List (BitVec 8)) : List (ℕ × ℕ) :=
  rangeAt l.kernel (span image).toNat ::
    ((match initrd, l.initrd with
      | some data, some (start, _) => [rangeAt start data.length]
      | _, _ => []) ++ [rangeAt l.dtb dtb.length])

/-- The ranges are apart from each other and inside RAM. -/
def Placed (ram : Memory) (ranges : List (ℕ × ℕ)) : Prop :=
  ranges.Pairwise Apart ∧
    ∀ r ∈ ranges, ram.base.toNat ≤ r.1 ∧ r.2 ≤ ram.base.toNat + ram.size.toNat

/-- A board's RAM: at its base, and in a `Vec`. -/
structure Board.RamWf (t : Target) (board : Board D) : Prop where
  base : board.bus.ram.base = ramBase
  size : board.bus.ram.size.toNat < 2 ^ (t.usizeBits - 1)

/-! ## Bounds -/

theorem writeSlice_of_inSlice {t : Target} {ram : Memory} {addr : BitVec 64}
    {data : List (BitVec 8)} {n : ℕ} (h : InSlice t ram addr n) (hn : n = data.length) :
    ∃ ram', writeSlice t ram addr data = some ram' ∧ ram'.base = ram.base ∧
      ram'.size = ram.size := by
  subst hn
  exact ⟨_, if_pos h, rfl, rfl⟩

/-- What is written to RAM starts in it, and its end does not wrap. -/
theorem write_bounds {t : Target} {ram ram' : Memory} {addr : BitVec 64} {data : List (BitVec 8)}
    (hbase : ram.base = ramBase) (hsize : ram.size.toNat < 2 ^ (t.usizeBits - 1))
    (hdata : Fits t data) (h : writeSlice t ram addr data = some ram') :
    (ramBase.toNat ≤ addr.toNat ∧ addr.toNat + data.length < 2 ^ 64) ∧
      ram'.base = ram.base ∧ ram'.size = ram.size := by
  unfold writeSlice at h
  split_ifs at h with hrange
  obtain rfl := Option.some.inj h
  refine ⟨?_, rfl, rfl⟩
  obtain ⟨hle, hin⟩ := hrange
  have hramBase : ramBase.toNat = 0x40000000 := rfl
  rw [BitVec.toNat_add, BitVec.toNat_ofNat, BitVec.toNat_setWidth, BitVec.toNat_sub, hbase]
    at hle hin
  unfold Fits at hdata
  have haddr := addr.isLt
  rcases t.usize with hbits | hbits <;> rw [hbits] at hle hin hsize hdata <;> omega

/-- Without its 21 low bits. -/
theorem and_not_align2M (v : BitVec 64) : v &&& ~~~(align2M - 1) = (v >>> 21) <<< 21 := by
  have hmask : ∀ k : Fin 64, (~~~(align2M - 1)).getLsbD k = decide (21 ≤ k.val) := by decide
  ext k hk
  rw [BitVec.getElem_and, ← BitVec.getLsbD_eq_getElem hk, ← BitVec.getLsbD_eq_getElem hk,
    ← BitVec.getLsbD_eq_getElem hk, hmask ⟨k, hk⟩, BitVec.getLsbD_shiftLeft,
    BitVec.getLsbD_ushiftRight]
  rcases Nat.lt_or_ge k 21 with hlow | hhigh
  · simp [hlow]
  · simp [hk, hhigh, Nat.add_sub_cancel' hhigh, Nat.not_lt.mpr hhigh]

/-- Rounding up does not go below, unless it wraps to zero. -/
theorem le_alignUp (x : BitVec 64) :
    x.toNat ≤ (alignUp x align2M).toNat ∨ (alignUp x align2M).toNat = 0 := by
  have hx := x.isLt
  have hsum : (x + align2M - 1).toNat = (x.toNat + 0x1fffff) % 2 ^ 64 := by
    rw [BitVec.toNat_sub, BitVec.toNat_add]
    change (2 ^ 64 - 1 + (x.toNat + 0x200000) % 2 ^ 64) % 2 ^ 64 = _
    omega
  unfold alignUp
  rw [and_not_align2M, BitVec.toNat_shiftLeft, BitVec.toNat_ushiftRight, hsum, Nat.shiftLeft_eq,
    Nat.shiftRight_eq_div_pow]
  omega

/-- The end of RAM does not wrap. -/
theorem toNat_ramEnd {t : Target} {board : Board D} (hram : board.RamWf t) :
    (ramBase + board.ramSize).toNat = board.bus.ram.base.toNat + board.bus.ram.size.toNat := by
  have hsize := hram.size
  have hwidth : 2 ^ (t.usizeBits - 1) ≤ 2 ^ 63 :=
    Nat.pow_le_pow_right (by decide) (by rcases t.usize with h | h <;> omega)
  have hbase : ramBase.toNat = 0x40000000 := rfl
  rw [Board.ramSize, hram.base, BitVec.toNat_add, Nat.mod_eq_of_lt (by omega)]

/-- What a `boot_image` that completes has checked. -/
structure Loaded (board : Board D) (image : List (BitVec 8)) (initrd : Option (List (BitVec 8)))
    (layout : BootLayout) (dtb : List (BitVec 8)) : Prop where
  placed : layout = place image initrd
  kernel : ramBase.toNat ≤ layout.kernel.toNat
  initrd : ∀ data ∈ initrd, ∀ range ∈ layout.initrd,
    ramBase.toNat ≤ range.1.toNat ∧ range.1.toNat + data.length < 2 ^ 64
  dtb : ramBase.toNat ≤ layout.dtb.toNat ∧ layout.dtb.toNat + dtb.length ≤
    board.bus.ram.base.toNat + board.bus.ram.size.toNat

theorem loaded {t : Target} {board board' : Board D} {image : List (BitVec 8)}
    {initrd : Option (List (BitVec 8))} {bootargs : Str} {layout : BootLayout}
    {dtb : List (BitVec 8)} (hram : board.RamWf t) (himage : Fits t image)
    (hinitrd : ∀ data ∈ initrd, Fits t data)
    (h : bootImage t board image initrd bootargs = some (layout, board'))
    (hdtb : board.dtb t board.ramSize bootargs layout.initrd = some dtb) :
    Loaded board image initrd layout dtb := by
  have hfits : Fits t dtb := by
    unfold Board.dtb at hdtb
    dsimp only at hdtb
    split_ifs at hdtb with hblob
    rw [← Option.some.inj hdtb]
    exact hblob
  unfold bootImage at h
  dsimp only at h
  obtain ⟨dtb', hdtb', h⟩ := Option.bind_eq_some_iff.mp h
  split_ifs at h with hend
  obtain ⟨ram1, hkernel, h⟩ := Option.bind_eq_some_iff.mp h
  obtain ⟨ram2, hsecond, h⟩ := Option.bind_eq_some_iff.mp h
  obtain ⟨ram3, hthird, h⟩ := Option.bind_eq_some_iff.mp h
  obtain ⟨rfl, -⟩ := Prod.mk.inj (Option.some.inj h)
  obtain rfl := Option.some.inj (hdtb.symm.trans hdtb')
  obtain ⟨hkernelBounds, hbase1, hsize1⟩ := write_bounds hram.base hram.size himage hkernel
  rw [hram.base] at hbase1
  have hinitrdBounds : (∀ data ∈ initrd, ∀ range ∈ (place image initrd).initrd,
      ramBase.toNat ≤ range.1.toNat ∧ range.1.toNat + data.length < 2 ^ 64) ∧
      ram2.base = ramBase ∧ ram2.size = board.bus.ram.size := by
    cases initrd with
    | none =>
      obtain rfl := Option.some.inj hsecond
      exact ⟨nofun, hbase1, hsize1⟩
    | some data =>
      obtain ⟨hbounds, hbase2, hsize2⟩ := write_bounds hbase1 (hsize1 ▸ hram.size)
        (hinitrd data rfl) hsecond
      refine ⟨?_, hbase2.trans hbase1, hsize2.trans hsize1⟩
      intro data' hdata range hrange
      obtain rfl := Option.some.inj hdata
      obtain rfl := Option.some.inj hrange
      exact hbounds
  obtain ⟨hinitrdRange, hbase2, hsize2⟩ := hinitrdBounds
  obtain ⟨hdtbBounds, -, -⟩ := write_bounds hbase2 (hsize2 ▸ hram.size) hfits hthird
  refine ⟨rfl, hkernelBounds.1, hinitrdRange, hdtbBounds.1, ?_⟩
  have hle := BitVec.le_def.mp hend
  rw [toNat_ramEnd hram, BitVec.toNat_add, BitVec.toNat_ofNat] at hle
  omega

/-! ## Placement -/

/-- A start that is not below RAM was not rounded up past the address space. -/
theorem le_alignUp_of_ramBase_le {x : BitVec 64}
    (h : ramBase.toNat ≤ (alignUp x align2M).toNat) : x.toNat ≤ (alignUp x align2M).toNat := by
  have hbase : ramBase.toNat = 0x40000000 := rfl
  rcases le_alignUp x with hle | hzero
  · exact hle
  · omega

/-- Below an end of the kernel that does not wrap, the ranges stand in order. -/
theorem placed_of_lt {board : Board D} {image : List (BitVec 8)}
    {initrd : Option (List (BitVec 8))} {layout : BootLayout} {dtb : List (BitVec 8)}
    (hbase : board.bus.ram.base = ramBase) (h : Loaded board image initrd layout dtb)
    (hend : layout.kernel.toNat + (span image).toNat < 2 ^ 64) :
    Placed board.bus.ram (layout.ranges image initrd dtb) := by
  obtain ⟨hplaced, hkernel, hinitrd, hdtbBase, hdtbEnd⟩ := h
  have hkernelEnd : (layout.kernel + span image).toNat =
      layout.kernel.toNat + (span image).toNat := BitVec.toNat_add_of_lt hend
  cases initrd with
  | none =>
    have hdtb : layout.dtb = alignUp (layout.kernel + span image) align2M := by
      rw [hplaced]
      rfl
    rw [hdtb] at hdtbBase
    have hle := le_alignUp_of_ramBase_le hdtbBase
    rw [← hdtb, hkernelEnd] at hle
    have hranges : layout.ranges image none dtb =
        [rangeAt layout.kernel (span image).toNat, rangeAt layout.dtb dtb.length] := rfl
    rw [hranges]
    unfold Placed Apart rangeAt
    simp only [List.pairwise_cons, List.forall_mem_cons, List.not_mem_nil, false_imp_iff,
      implies_true, List.Pairwise.nil, and_true, hbase]
    rw [hbase] at hdtbEnd
    omega
  | some data =>
    obtain ⟨start, stop, hrange⟩ : ∃ start stop, layout.initrd = some (start, stop) := by
      rw [hplaced]
      exact ⟨_, _, rfl⟩
    have hstart : start = alignUp (layout.kernel + span image) align2M := by
      rw [hplaced] at hrange ⊢
      exact (Prod.mk.inj (Option.some.inj hrange)).1.symm
    have hstop : stop = start + BitVec.ofNat 64 data.length := by
      rw [hplaced] at hrange
      obtain ⟨rfl, rfl⟩ := Prod.mk.inj (Option.some.inj hrange)
      rfl
    have hdtb : layout.dtb = alignUp stop align2M := by
      rw [hplaced] at hrange ⊢
      rw [← (Prod.mk.inj (Option.some.inj hrange)).2]
      rfl
    obtain ⟨hstartBase, hstopLt⟩ := hinitrd data rfl (start, stop) hrange
    dsimp only at hstartBase hstopLt
    have hstartLe : layout.kernel.toNat + (span image).toNat ≤ start.toNat := by
      rw [hstart] at hstartBase
      have hle := le_alignUp_of_ramBase_le hstartBase
      rwa [← hstart, hkernelEnd] at hle
    have hstopNat : stop.toNat = start.toNat + data.length := by
      rw [hstop, BitVec.toNat_add, BitVec.toNat_ofNat]
      omega
    have hdtbLe : stop.toNat ≤ layout.dtb.toNat := by
      rw [hdtb] at hdtbBase ⊢
      exact le_alignUp_of_ramBase_le hdtbBase
    have hranges : layout.ranges image (some data) dtb =
        [rangeAt layout.kernel (span image).toNat, rangeAt start data.length,
          rangeAt layout.dtb dtb.length] := by
      unfold BootLayout.ranges
      rw [hrange]
      rfl
    rw [hranges]
    unfold Placed Apart rangeAt
    simp only [List.pairwise_cons, List.forall_mem_cons, List.not_mem_nil, false_imp_iff,
      implies_true, List.Pairwise.nil, and_true, hbase]
    rw [hbase] at hdtbEnd
    omega

/-- After a `boot_image` that completes the ranges are apart and inside RAM, if and only if
    the end of the kernel, as its header declares it, does not wrap. -/
theorem placed_iff {t : Target} {board board' : Board D} {image : List (BitVec 8)}
    {initrd : Option (List (BitVec 8))} {bootargs : Str} {layout : BootLayout}
    {dtb : List (BitVec 8)} (hram : board.RamWf t) (himage : Fits t image)
    (hinitrd : ∀ data ∈ initrd, Fits t data)
    (h : bootImage t board image initrd bootargs = some (layout, board'))
    (hdtb : board.dtb t board.ramSize bootargs layout.initrd = some dtb) :
    Placed board.bus.ram (layout.ranges image initrd dtb) ↔
      ramBase.toNat + (textOffset image).toNat + (span image).toNat < 2 ^ 64 := by
  have hloaded := loaded hram himage hinitrd h hdtb
  have hbase : ramBase.toNat = 0x40000000 := rfl
  have hkernel : layout.kernel.toNat = ramBase.toNat + (textOffset image).toNat := by
    have hle := hloaded.kernel
    have hlayout : layout.kernel = ramBase + textOffset image := by
      rw [hloaded.placed]
      rfl
    have htext := (textOffset image).isLt
    rw [hlayout, BitVec.toNat_add] at hle ⊢
    omega
  rw [← hkernel]
  constructor
  · intro hplaced
    have hend := (hplaced.2 (rangeAt layout.kernel (span image).toNat) List.mem_cons_self).2
    have hwrap := (ramBase + board.ramSize).isLt
    rw [toNat_ramEnd hram] at hwrap
    exact Nat.lt_of_le_of_lt hend hwrap
  · exact placed_of_lt hram.base hloaded

/-- A board with 16 MiB of RAM. -/
def smallBoard : Board Empty where
  cpu := .new
  bus := { ram := { base := ramBase, size := 0x1000000, bytes := fun _ => 0 }, devices := [] }
  virtioSlots := []

/-- An image of 64 bytes whose header declares these values. -/
def headerImage (textOffset imageSize : BitVec 64) : List (BitVec 8) :=
  List.replicate 8 0 ++ Bytes.toLe 8 textOffset ++ Bytes.toLe 8 imageSize ++
    List.replicate 32 0 ++ Bytes.toLe 4 arm64ImageMagic ++ List.replicate 4 0

/-- Without an initrd, where both ranges are of the image, `boot_image` completes. -/
theorem bootImage_eq_some {t : Target} {board : Board D} {image : List (BitVec 8)}
    {bootargs : Str} {dtb : List (BitVec 8)}
    (hdtb : board.dtb t board.ramSize bootargs none = some dtb)
    (hend : (place image none).dtb + BitVec.ofNat 64 dtb.length ≤ ramBase + board.ramSize)
    (hkernel : InSlice t board.bus.ram (place image none).kernel image.length)
    (htree : InSlice t board.bus.ram (place image none).dtb dtb.length) :
    ∃ board', bootImage t board image none bootargs = some (place image none, board') := by
  have hrange : (place image none).initrd = none := rfl
  obtain ⟨ram1, hwrite, hbase, hsize⟩ := writeSlice_of_inSlice hkernel rfl
  have htree1 : InSlice t ram1 (place image none).dtb dtb.length := by
    unfold InSlice at htree ⊢
    rwa [hbase, hsize]
  obtain ⟨ram2, hwrite2, -, -⟩ := writeSlice_of_inSlice htree1 rfl
  have hnone : writeInitrd t ram1 none none = some ram1 := rfl
  unfold bootImage
  dsimp only
  rw [hrange, hdtb, Option.bind_eq_bind, Option.bind_some, if_neg (not_not.mpr hend), hwrite,
    Option.bind_eq_bind, Option.bind_some, hnone, Option.bind_some, hwrite2]
  exact ⟨_, rfl⟩

/-- The length of the device tree of `smallBoard`. -/
theorem dtb_smallBoard : ∃ dtb,
    smallBoard.dtb Target.release64 smallBoard.ramSize [] none = some dtb ∧ dtb.length = 1323 := by
  have hlength : (smallBoard.dtb Target.release64 smallBoard.ramSize [] none).any
      (fun dtb => Nat.beq dtb.length 1323) = true := by decide +kernel
  obtain ⟨dtb, hdtb, hlen⟩ := (Option.any_eq_true _ _).mp hlength
  exact ⟨dtb, hdtb, Nat.eq_of_beq_eq_true hlen⟩

theorem placed_iff_smallBoard : ∃ layout board' dtb,
    bootImage Target.release64 smallBoard (headerImage 0x80000 0x200000) none [] =
      some (layout, board') ∧
    smallBoard.dtb Target.release64 smallBoard.ramSize [] layout.initrd = some dtb ∧
    Placed smallBoard.bus.ram (layout.ranges (headerImage 0x80000 0x200000) none dtb) := by
  obtain ⟨dtb, hdtb, hlength⟩ := dtb_smallBoard
  obtain ⟨board', hboot⟩ := @bootImage_eq_some _ _ _ (headerImage 0x80000 0x200000) _ _
    hdtb (by rw [hlength]; decide +kernel) (by decide +kernel) (by rw [hlength]; decide +kernel)
  refine ⟨_, board', dtb, hboot, hdtb, ?_⟩
  have hinitrd : ∀ data ∈ (none : Option (List (BitVec 8))), Fits Target.release64 data := by
    rintro data ⟨⟩
  exact (placed_iff ⟨rfl, by decide⟩ (by decide +kernel) hinitrd hboot hdtb).mpr
    (by decide +kernel)

/-- A declared size of nearly the whole address space wraps the end of the kernel to just
    below its start, and the device tree is written over the kernel. -/
theorem not_placed_headerImage : ∃ layout board' dtb,
    bootImage Target.release64 smallBoard (headerImage 0 (-1)) none [] = some (layout, board') ∧
    smallBoard.dtb Target.release64 smallBoard.ramSize [] layout.initrd = some dtb ∧
    layout.dtb = layout.kernel ∧
    ¬Placed smallBoard.bus.ram (layout.ranges (headerImage 0 (-1)) none dtb) := by
  obtain ⟨dtb, hdtb, hlength⟩ := dtb_smallBoard
  obtain ⟨board', hboot⟩ := @bootImage_eq_some _ _ _ (headerImage 0 (-1)) _ _ hdtb
    (by rw [hlength]; decide +kernel) (by decide +kernel) (by rw [hlength]; decide +kernel)
  refine ⟨_, board', dtb, hboot, hdtb, by decide +kernel, fun hplaced => ?_⟩
  have hend := (hplaced.2 (rangeAt (place (headerImage 0 (-1)) none).kernel
    (span (headerImage 0 (-1))).toNat) List.mem_cons_self).2
  revert hend
  decide +kernel

end V64.Platform
