import V64.Interp.MemAccess
import V64.Platform.Bus

/-!
# Accesses to a cached page of RAM

When the TLB has the page of an address, its leaf permits the access and the page
lies in RAM, an access inside the page is an access to the RAM image: nothing is
walked, nothing faults and no device is reached.

* `RamHit`: such a page.
* `RamHit.readMem`, `RamHit.writeMem`: the sized accesses.
* `RamHit.gather`, `RamHit.scatter`: the byte loops of vector accesses.
-/

namespace V64.Interp

open V64.Cpu V64.Platform

variable {D : Type}

/-- The guest with other RAM bytes. -/
def Guest.setRam (g : Guest (Bus D)) (bytes : ℕ → BitVec 8) : Guest (Bus D) :=
  { g with mem := { g.mem with ram := { g.mem.ram with bytes := bytes } } }

/-- The TLB maps `page` to the RAM page `pa`, and `perms` permit a read, and a write
    if `write`. -/
structure RamHit (g : Guest (Bus D)) (page pa : BitVec 64) (perms : BitVec 8) (write : Bool) :
    Prop where
  wf : g.mem.RamWf
  mmu : mmuEnabled g.cpu = true
  lookup : g.cpu.tlb.lookup page = some (pa, perms)
  aligned : pa.toNat % 4096 = 0
  inRam : g.mem.InRam pa 4096
  read : checkPerms g.cpu.el (Leaf.unpack pa perms) .read = true
  write : write = true → checkPerms g.cpu.el (Leaf.unpack pa perms) .write = true

/-- The offset in RAM of an address whose page is at `pa`. -/
def ramOffset (g : Guest (Bus D)) (pa va : BitVec 64) : ℕ :=
  pa.toNat - g.mem.ram.base.toNat + (va &&& 0xfff).toNat

/-- The physical address of an address whose page is at `pa`. -/
theorem toNat_or_pageOffset {pa : BitVec 64} (h : pa.toNat % 4096 = 0) (va : BitVec 64) :
    (pa ||| (va &&& 0xfff)).toNat = pa.toNat + (va &&& 0xfff).toNat := by
  have hlt : (va &&& 0xfff).toNat < 2 ^ 12 := by
    rw [BitVec.toNat_and]
    exact Nat.lt_of_le_of_lt Nat.and_le_right (by decide)
  have hpa : pa.toNat = 2 ^ 12 * (pa.toNat / 4096) := by
    omega
  rw [BitVec.toNat_or, hpa, Nat.two_pow_add_eq_or_of_lt hlt]

/-- A narrow load of bytes, widened again. -/
theorem setWidth_setWidth_loadLe {w n : ℕ} (hw : w ≤ 64) (hn : 8 * n ≤ w) (bytes : ℕ → BitVec 8)
    (o : ℕ) : ((Bytes.loadLe 64 bytes o n).setWidth w).setWidth 64 = Bytes.loadLe 64 bytes o n := by
  rw [Bytes.setWidth_loadLe _ _ _ (.inl hw), Bytes.setWidth_loadLe _ _ _ (.inr hn)]

/-- A store of the low bits of a word. -/
theorem storeLe_setWidth {w v n : ℕ} (hw : 8 * n ≤ w) (bytes : ℕ → BitVec 8) (o : ℕ)
    (val : BitVec v) : Bytes.storeLe bytes o n ((val.setWidth w).setWidth 64) =
      Bytes.storeLe bytes o n (val.setWidth 64) := by
  apply Bytes.storeLe_congr
  intro k hk
  have hkw : k < w := by omega
  simp [BitVec.getLsbD_setWidth, hkw]

/-- A store of one byte at the end of a store. -/
theorem storeLe_succ (bytes : ℕ → BitVec 8) (o k : ℕ) (val : BitVec 128) :
    Bytes.storeLe (Bytes.storeLe bytes o k val) (o + k) 1
        (((val >>> (k * 8)).setWidth 8).setWidth 64) = Bytes.storeLe bytes o (k + 1) val := by
  rw [← Bytes.storeLe_storeLe_append]
  apply Bytes.storeLe_congr
  intro i hi
  have hi8 : i < 8 := by omega
  have hi64 : i < 64 := by omega
  simp [hi8, hi64, Nat.mul_comm]

variable [MmioDevice D]

/-! ## Sized accesses in RAM -/

section Sized

variable {b : Bus D} {addr : BitVec 64}

theorem readSized_of_inRam (hwf : b.RamWf) {size : ℕ} (hsize : size ≤ 3)
    (h : b.InRam addr (1 <<< size)) :
    readSized b addr size =
      (Bytes.loadLe 64 b.ram.bytes (addr.toNat - b.ram.base.toNat) (1 <<< size), b) := by
  have hload : b.load addr (1 <<< size) =
      (Bytes.loadLe 64 b.ram.bytes (addr.toNat - b.ram.base.toNat) (1 <<< size), b) := by
    rw [Bus.load_of_inRam hwf (by rw [Nat.one_shiftLeft]; exact Nat.two_pow_pos size) h,
      Memory.read, Bus.off_of_inRam h]
  obtain rfl | rfl | rfl | rfl : size = 0 ∨ size = 1 ∨ size = 2 ∨ size = 3 := by omega
  · show (((b.load addr (1 <<< 0)).1.setWidth 8).setWidth 64, (b.load addr (1 <<< 0)).2) = _
    rw [hload, setWidth_setWidth_loadLe (by decide) (by decide)]
  · show (((b.load addr (1 <<< 1)).1.setWidth 16).setWidth 64, (b.load addr (1 <<< 1)).2) = _
    rw [hload, setWidth_setWidth_loadLe (by decide) (by decide)]
  · show (((b.load addr (1 <<< 2)).1.setWidth 32).setWidth 64, (b.load addr (1 <<< 2)).2) = _
    rw [hload, setWidth_setWidth_loadLe (by decide) (by decide)]
  · exact hload

theorem writeSized_of_inRam (hwf : b.RamWf) {size : ℕ} (hsize : size ≤ 3)
    (h : b.InRam addr (1 <<< size)) (val : BitVec 64) :
    writeSized b addr size val =
      { b with ram := { b.ram with
        bytes :=
          Bytes.storeLe b.ram.bytes (addr.toNat - b.ram.base.toNat) (1 <<< size) val } } := by
  have hstore (v : BitVec 64) : b.store addr (1 <<< size) v =
      { b with ram := { b.ram with
        bytes := Bytes.storeLe b.ram.bytes (addr.toNat - b.ram.base.toNat) (1 <<< size) v } } := by
    rw [Bus.store_of_inRam hwf (by rw [Nat.one_shiftLeft]; exact Nat.two_pow_pos size) h,
      Memory.write, Bus.off_of_inRam h]
  obtain rfl | rfl | rfl | rfl : size = 0 ∨ size = 1 ∨ size = 2 ∨ size = 3 := by omega
  · show b.store addr (1 <<< 0) ((val.setWidth 8).setWidth 64) = _
    rw [hstore, storeLe_setWidth (by decide), BitVec.setWidth_eq]
  · show b.store addr (1 <<< 1) ((val.setWidth 16).setWidth 64) = _
    rw [hstore, storeLe_setWidth (by decide), BitVec.setWidth_eq]
  · show b.store addr (1 <<< 2) ((val.setWidth 32).setWidth 64) = _
    rw [hstore, storeLe_setWidth (by decide), BitVec.setWidth_eq]
  · exact hstore val

omit [MmioDevice D] in
/-- One byte of a span of RAM. -/
theorem inRam_byte (hwf : b.RamWf) {n i : ℕ} (h : b.InRam addr n) (hi : i < n) :
    b.InRam (addr + BitVec.ofNat 64 i) 1 := by
  have hwf' : b.ram.base.toNat + b.ram.size.toNat < 2 ^ 64 := hwf
  unfold Bus.InRam at h ⊢
  rw [BitVec.toNat_add, BitVec.toNat_ofNat]
  omega

omit [MmioDevice D] in
theorem off_byte (hwf : b.RamWf) {n i : ℕ} (h : b.InRam addr n) (hi : i < n) :
    b.ram.off (addr + BitVec.ofNat 64 i) = addr.toNat - b.ram.base.toNat + i := by
  have hwf' : b.ram.base.toNat + b.ram.size.toNat < 2 ^ 64 := hwf
  rw [Bus.off_of_inRam (inRam_byte hwf h hi), BitVec.toNat_add, BitVec.toNat_ofNat]
  unfold Bus.InRam at h
  omega

theorem load_byte (hwf : b.RamWf) {n i : ℕ} (h : b.InRam addr n) (hi : i < n) :
    GuestMem.readU8 b (addr + BitVec.ofNat 64 i) =
      (b.ram.bytes (addr.toNat - b.ram.base.toNat + i), b) := by
  have hload := Bus.load_of_inRam hwf Nat.one_pos (inRam_byte hwf h hi)
  show ((b.load (addr + BitVec.ofNat 64 i) 1).1.setWidth 8,
    (b.load (addr + BitVec.ofNat 64 i) 1).2) = _
  rw [hload, Memory.read, off_byte hwf h hi]
  simp [Bytes.loadLe]

/-- The first `k` bytes of a vector load. -/
theorem gatherChunk_of_inRam (hwf : b.RamWf) {n k : ℕ} (h : b.InRam addr n) (hk : k ≤ n) :
    gatherChunk addr 0 k 0 b =
      (Bytes.loadLe 128 b.ram.bytes (addr.toNat - b.ram.base.toNat) k, b) := by
  induction k with
  | zero => rfl
  | succ k ih =>
    rw [gatherChunk, ih (by omega)]
    dsimp only
    rw [load_byte hwf h hk, Bytes.loadLe, Nat.zero_add, Nat.mul_comm]

/-- The first `k` bytes of a vector store. -/
theorem scatterChunk_of_inRam (hwf : b.RamWf) {n k : ℕ} (h : b.InRam addr n) (hk : k ≤ n)
    (val : BitVec 128) :
    scatterChunk addr 0 val k b = { b with ram := { b.ram with
      bytes := Bytes.storeLe b.ram.bytes (addr.toNat - b.ram.base.toNat) k val } } := by
  induction k with
  | zero =>
    rw [Bytes.storeLe_zero]
    rfl
  | succ k ih =>
    set bytes := Bytes.storeLe b.ram.bytes (addr.toNat - b.ram.base.toNat) k val
    set b' : Bus D := { b with ram := { b.ram with bytes := bytes } } with hb'
    have hwf' : b'.RamWf := hwf
    have h' : b'.InRam addr n := h
    have hstore := Bus.store_of_inRam hwf' Nat.one_pos (inRam_byte hwf' h' hk)
      ((((val >>> (k * 8)).setWidth 8)).setWidth 64)
    rw [scatterChunk, ih (by omega), Nat.zero_add]
    show b'.store (addr + BitVec.ofNat 64 k) 1 (((val >>> (k * 8)).setWidth 8).setWidth 64) = _
    rw [hstore, Memory.write, off_byte hwf' h' hk, ← storeLe_succ]

end Sized

/-! ## Accesses to a cached page -/

section Hit

variable {g : Guest (Bus D)} {page pa va : BitVec 64} {perms : BitVec 8} {write : Bool}

omit [MmioDevice D] in
/-- A hit does not read memory, so a store to RAM keeps it. -/
theorem RamHit.setRam (h : RamHit g page pa perms write) (bytes : ℕ → BitVec 8) :
    RamHit (g.setRam bytes) page pa perms write :=
  ⟨h.wf, h.mmu, h.lookup, h.aligned, h.inRam, h.read, h.write⟩

theorem RamHit.translate_read (h : RamHit g page pa perms write) (hva : pageOf va = page) :
    translate g va .read g.cpu.el = (.ok (pa ||| (va &&& pageMask)), g) := by
  subst hva
  rw [translate_of_hit h.mmu h.lookup, leafResult, if_pos h.read]
  rfl

theorem RamHit.translate_write (h : RamHit g page pa perms true) (hva : pageOf va = page) :
    translate g va .write g.cpu.el = (.ok (pa ||| (va &&& pageMask)), g) := by
  subst hva
  rw [translate_of_hit h.mmu h.lookup, leafResult, if_pos (h.write rfl)]
  rfl

theorem RamHit.xlate_read (h : RamHit g page pa perms write) (hva : pageOf va = page) :
    xlate g va false g.cpu.el = (some (pa ||| (va &&& pageMask)), g) := by
  unfold xlate
  dsimp only
  rw [if_neg Bool.false_ne_true, h.translate_read hva]

theorem RamHit.xlate_write (h : RamHit g page pa perms true) (hva : pageOf va = page) :
    xlate g va true g.cpu.el = (some (pa ||| (va &&& pageMask)), g) := by
  unfold xlate
  dsimp only
  rw [if_pos rfl, h.translate_write hva]

omit [MmioDevice D] in
/-- The bytes of an access inside the page lie in RAM. -/
theorem RamHit.inRam_of_span (h : RamHit g page pa perms write) {n : ℕ}
    (hspan : (va &&& 0xfff).toNat + n ≤ 4096) : g.mem.InRam (pa ||| (va &&& pageMask)) n := by
  have haddr : (pa ||| (va &&& pageMask)).toNat = pa.toNat + (va &&& 0xfff).toNat :=
    toNat_or_pageOffset h.aligned va
  have hpage := h.inRam
  unfold Bus.InRam at hpage ⊢
  omega

omit [MmioDevice D] in
theorem RamHit.toNat_sub (h : RamHit g page pa perms write) :
    (pa ||| (va &&& pageMask)).toNat - g.mem.ram.base.toNat = ramOffset g pa va := by
  have haddr : (pa ||| (va &&& pageMask)).toNat = pa.toNat + (va &&& 0xfff).toNat :=
    toNat_or_pageOffset h.aligned va
  have hpage := h.inRam.1
  unfold ramOffset
  omega

theorem RamHit.readMem (h : RamHit g page pa perms write) (hva : pageOf va = page) {size : ℕ}
    (hsize : size ≤ 3) (hspan : (va &&& 0xfff).toNat + 1 <<< size ≤ 4096) :
    MemAccess.read g va size =
      (Bytes.loadLe 64 g.mem.ram.bytes (ramOffset g pa va) (1 <<< size), g) := by
  have hone : inOnePage va (1 <<< size) = true := decide_eq_true hspan
  unfold MemAccess.read readAt
  rw [if_pos hone, h.xlate_read hva]
  dsimp only
  rw [readSized_of_inRam h.wf hsize (h.inRam_of_span hspan), h.toNat_sub]

theorem RamHit.writeMem (h : RamHit g page pa perms true) (hva : pageOf va = page) {size : ℕ}
    (hsize : size ≤ 3) (hspan : (va &&& 0xfff).toNat + 1 <<< size ≤ 4096) (val : BitVec 64) :
    MemAccess.write g va size val =
      g.setRam (Bytes.storeLe g.mem.ram.bytes (ramOffset g pa va) (1 <<< size) val) := by
  have hone : inOnePage va (1 <<< size) = true := decide_eq_true hspan
  unfold MemAccess.write writeAt
  rw [if_pos hone, h.xlate_write hva]
  dsimp only
  rw [writeSized_of_inRam h.wf hsize (h.inRam_of_span hspan), h.toNat_sub]
  rfl

/-! ## Byte loops -/

/-- An address is its page and its offset in it. -/
theorem page_add_offset (va : BitVec 64) : (va &&& ~~~0xfff) + (va &&& 0xfff) = va := by
  have hdisjoint : (va &&& ~~~0xfff) &&& (va &&& 0xfff) = 0 := by
    ext i hi
    simp only [BitVec.getElem_and, BitVec.getElem_not]
    cases va[i] <;> simp
  rw [BitVec.add_eq_or_of_and_eq_zero _ _ hdisjoint]
  ext i hi
  simp only [BitVec.getElem_or, BitVec.getElem_and, BitVec.getElem_not]
  cases va[i] <;> simp

theorem toNat_pageOffset (va : BitVec 64) : (va &&& 0xfff).toNat = va.toNat % 4096 := by
  rw [BitVec.toNat_and]
  exact Nat.and_two_pow_sub_one_eq_mod _ 12

/-- The offset of a later address in the same page. -/
theorem toNat_add_pageOffset {k : BitVec 64} (h : (va &&& 0xfff).toNat + k.toNat < 4096) :
    ((va + k) &&& 0xfff).toNat = (va &&& 0xfff).toNat + k.toNat := by
  rw [toNat_pageOffset] at h ⊢
  rw [toNat_pageOffset, BitVec.toNat_add]
  omega

theorem pageOf_add {k : BitVec 64} (h : (va &&& 0xfff).toNat + k.toNat < 4096) :
    pageOf (va + k) = pageOf va := by
  have hoff : (va + k) &&& 0xfff = (va &&& 0xfff) + k := by
    apply BitVec.eq_of_toNat_eq
    rw [toNat_add_pageOffset h, BitVec.toNat_add]
    omega
  have hpage := page_add_offset va
  have hpage' := page_add_offset (va + k)
  rw [hoff] at hpage'
  unfold pageOf
  generalize (va + k) &&& ~~~0xfff#64 = page', va &&& ~~~0xfff#64 = page, va &&& 0xfff = off at *
  bv_omega

/-- What is left of the page of an address. -/
theorem toNat_pageEnd_sub (va : BitVec 64) :
    (((va &&& ~~~0xfff) + 0x1000) - va).toNat = 4096 - (va &&& 0xfff).toNat := by
  have hlt : (va &&& 0xfff).toNat < 4096 := by
    rw [BitVec.toNat_and]
    exact Nat.lt_of_le_of_lt Nat.and_le_right (by decide)
  have hva := page_add_offset va
  generalize va &&& ~~~0xfff = page, va &&& 0xfff = off at hva hlt ⊢
  subst hva
  bv_omega

theorem chunkLen_eq (va : BitVec 64) (done n : ℕ) :
    chunkLen va done n = min (n - done) (4096 - (va &&& 0xfff).toNat) := by
  unfold chunkLen
  dsimp only
  rw [toNat_pageEnd_sub]

/-- One chunk holds an access that ends inside its page. -/
theorem chunkLen_of_span {n : ℕ} (hspan : (va &&& 0xfff).toNat + n ≤ 4096) :
    chunkLen va 0 n = n := by
  rw [chunkLen_eq]
  omega

/-- The first `k` bytes of a vector load. -/
theorem RamHit.gatherChunk (h : RamHit g page pa perms write) {n : ℕ}
    (hspan : (va &&& 0xfff).toNat + n ≤ 4096) {k : ℕ} (hk : k ≤ n) :
    Interp.gatherChunk (pa ||| (va &&& pageMask)) 0 k 0 g.mem =
      (Bytes.loadLe 128 g.mem.ram.bytes (ramOffset g pa va) k, g.mem) := by
  rw [gatherChunk_of_inRam h.wf (h.inRam_of_span hspan) hk, h.toNat_sub]

theorem RamHit.gather (h : RamHit g page pa perms write) (hva : pageOf va = page) {n : ℕ}
    (hn : 0 < n) (hspan : (va &&& 0xfff).toNat + n ≤ 4096) :
    Interp.gather g va n g.cpu.el =
      (Bytes.loadLe 128 g.mem.ram.bytes (ramOffset g pa va) n, g) := by
  obtain ⟨fuel, rfl⟩ : ∃ fuel, n = fuel + 1 := ⟨n - 1, by omega⟩
  have hdone (val : BitVec 128) :
      gatherLoop va (fuel + 1) g.cpu.el fuel val (fuel + 1) g = (val, g) := by
    cases fuel with
    | zero => rfl
    | succ fuel =>
      rw [gatherLoop, if_neg (by omega)]
  unfold Interp.gather
  rw [gatherLoop, if_pos (by omega)]
  dsimp only
  rw [BitVec.add_zero, h.xlate_read hva, chunkLen_of_span hspan]
  dsimp only
  rw [h.gatherChunk hspan (Nat.le_refl _), Nat.zero_add]
  exact hdone _

/-- The first `k` bytes of a vector store. -/
theorem RamHit.scatterChunk (h : RamHit g page pa perms write) {n : ℕ}
    (hspan : (va &&& 0xfff).toNat + n ≤ 4096) (val : BitVec 128) {k : ℕ} (hk : k ≤ n) :
    Interp.scatterChunk (pa ||| (va &&& pageMask)) 0 val k g.mem =
      (g.setRam (Bytes.storeLe g.mem.ram.bytes (ramOffset g pa va) k val)).mem := by
  rw [scatterChunk_of_inRam h.wf (h.inRam_of_span hspan) hk, h.toNat_sub]
  rfl

theorem RamHit.scatter (h : RamHit g page pa perms true) (hva : pageOf va = page) {n : ℕ}
    (hn : 0 < n) (hspan : (va &&& 0xfff).toNat + n ≤ 4096) (val : BitVec 128) :
    Interp.scatter g va n val g.cpu.el =
      g.setRam (Bytes.storeLe g.mem.ram.bytes (ramOffset g pa va) n val) := by
  obtain ⟨fuel, rfl⟩ : ∃ fuel, n = fuel + 1 := ⟨n - 1, by omega⟩
  have hdone (g' : Guest (Bus D)) :
      scatterLoop va (fuel + 1) val g.cpu.el fuel (fuel + 1) g' = g' := by
    cases fuel with
    | zero => rfl
    | succ fuel =>
      rw [scatterLoop, if_neg (by omega)]
  unfold Interp.scatter
  rw [scatterLoop, if_pos (by omega)]
  dsimp only
  rw [BitVec.add_zero, h.xlate_write hva, chunkLen_of_span hspan]
  dsimp only
  rw [h.scatterChunk hspan val (Nat.le_refl _), Nat.zero_add]
  exact hdone _

end Hit

end V64.Interp
