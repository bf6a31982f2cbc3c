import V64.Interp.Perms
import V64.Interp.RamHit
import V64.Platform.Ram

/-!
# Accesses byte by byte

What a virtual access of several bytes means: its bytes in order, each at the
translation of its own address, up to the first that does not translate. The
chunked loops and the single-page path of `crates/interp/src/mem_access.rs` do
that, over any memory where they move bytes and over RAM where they move words.

* `translate_sameUp`: once an address is translated, the rest of its page is.
* `eachByte`, `loadBytes`, `storeBytes`: the accesses one byte at a time.
* `gather_eq`, `scatter_eq`, `readAt_eq`, `writeAt_eq`: the accesses of the code.
* `faultsAt_loadBytes`, `faultsAt_storeBytes`: the first byte that does not translate
  is the first of the access or the first of a page.
-/

namespace V64.Cpu

/-- Every cached translation is to the start of a page. -/
def Tlb.PagesAligned (t : Tlb) : Prop :=
  ∀ va pa perms, t.lookup (pageOf va) = some (pa, perms) → pa.toNat % 4096 = 0

/-- So it is after reset and after a flush. -/
theorem Tlb.IsEmpty.pagesAligned {t : Tlb} (h : t.IsEmpty) : t.PagesAligned := by
  intro va pa perms hlookup
  rw [h.lookup va] at hlookup
  cases hlookup

theorem Tlb.PagesAligned.insert {t : Tlb} (h : t.PagesAligned) {pa : BitVec 64}
    (hpa : pa.toNat % 4096 = 0) (page : BitVec 64) (perms : BitVec 8) :
    (t.insert page pa perms).PagesAligned := by
  intro va pa' perms' hlookup
  obtain ⟨-, heq⟩ | hold := Tlb.lookup_insert_cases hlookup
  · obtain ⟨rfl, -⟩ := Prod.mk.inj heq
    exact hpa
  · exact h va pa' perms' hold

end V64.Cpu

namespace V64.Interp

open V64.Cpu V64.Platform

/-! ## One page is one translation -/

section Page

variable {M : Type} [GuestMem M]

theorem toNat_and_not_pageMask (v : BitVec 64) : (v &&& ~~~pageMask).toNat % 4096 = 0 := by
  have hsum : (v &&& ~~~pageMask) + (v &&& 0xfff) = v := page_add_offset v
  have hoff : (v &&& 0xfff).toNat = v.toNat % 4096 := toNat_pageOffset v
  have hle : (v &&& ~~~pageMask).toNat ≤ v.toNat := by
    rw [BitVec.toNat_and]
    exact Nat.and_le_left
  generalize v &&& ~~~pageMask = page, v &&& 0xfff = off at hsum hoff hle ⊢
  have hnat := congrArg BitVec.toNat hsum
  rw [BitVec.toNat_add] at hnat
  omega

theorem paPage_walkStep {level : BitVec 32} {desc va : BitVec 64} {tp : TablePerms} {leaf : Leaf}
    (h : walkStep level desc va tp = .leaf leaf) : leaf.paPage.toNat % 4096 = 0 := by
  unfold walkStep at h
  split_ifs at h
  cases h
  exact toNat_and_not_pageMask _

/-- A walk resolves to the start of a page. -/
theorem paPage_walkLoop {va : BitVec 64} {left : ℕ} {mem : M} {tableBase : BitVec 64}
    {tp : TablePerms} {leaf : Leaf} (h : (walkLoop va left mem tableBase tp).1 = .ok leaf) :
    leaf.paPage.toNat % 4096 = 0 := by
  induction left generalizing mem tableBase tp with
  | zero =>
    rw [walkLoop] at h
    dsimp only at h
    split at h
    · cases h
    · next hleaf =>
      cases h
      exact paPage_walkStep hleaf
    · cases h
  | succ left ih =>
    rw [walkLoop] at h
    dsimp only at h
    split at h
    · cases h
    · next hleaf =>
      cases h
      exact paPage_walkStep hleaf
    · exact ih h

theorem pagesAligned_translate {g : Guest M} (h : g.cpu.tlb.PagesAligned) (va : BitVec 64)
    (access : Access) (el : Fin 4) : (translate g va access el).2.cpu.tlb.PagesAligned := by
  unfold translate
  split_ifs
  · exact h
  · split
    · exact h
    · unfold translateMiss
      dsimp only
      split
      · exact h
      · next leaf mem hwalk => exact h.insert (paPage_walkLoop (congrArg Prod.fst hwalk)) _ _

/-- Further up in the page the frame is the same. -/
theorem or_offset_add {page va k : BitVec 64} (h : page.toNat % 4096 = 0)
    (hk : (va &&& 0xfff).toNat + k.toNat < 4096) :
    page ||| ((va + k) &&& pageMask) = (page ||| (va &&& pageMask)) + k := by
  apply BitVec.eq_of_toNat_eq
  have hlow : (page ||| (va &&& pageMask)).toNat = page.toNat + (va &&& 0xfff).toNat :=
    toNat_or_pageOffset h va
  have hhigh : (page ||| ((va + k) &&& pageMask)).toNat =
      page.toNat + ((va + k) &&& 0xfff).toNat := toNat_or_pageOffset h (va + k)
  have hoff := toNat_add_pageOffset hk
  have hlt := page.isLt
  rw [hhigh, BitVec.toNat_add, hlow, hoff]
  omega

theorem leafResult_add {el : Fin 4} {leaf : Leaf} {va pa k : BitVec 64} {access : Access}
    (h : leafResult el leaf va access = .ok pa) (halign : leaf.paPage.toNat % 4096 = 0)
    (hk : (va &&& 0xfff).toNat + k.toNat < 4096) :
    leafResult el leaf (va + k) access = .ok (pa + k) := by
  unfold leafResult at h ⊢
  split_ifs at h ⊢ with hperms
  obtain rfl := Except.ok.inj h
  rw [or_offset_add halign hk]

/-- A permitted leaf is permitted from the TLB too. -/
theorem leafResult_unpack {el : Fin 4} {leaf : Leaf} {va pa : BitVec 64} {access : Access}
    (h : leafResult el leaf va access = .ok pa) :
    leafResult el (Leaf.unpack leaf.paPage leaf.pack) va access = .ok pa := by
  unfold leafResult at h ⊢
  rw [checkPerms_unpack_pack]
  split_ifs at h ⊢
  exact h

/-- Once an address is translated, the later addresses of its page are: the TLB holds the
    page, or the MMU is off. Memory has no part in it. -/
theorem translate_sameUp {g g1 : Guest M} {va pa : BitVec 64} {access : Access} {el : Fin 4}
    (halign : g.cpu.tlb.PagesAligned) (h : translate g va access el = (.ok pa, g1)) (mem : M)
    {k : BitVec 64} (hk : (va &&& 0xfff).toNat + k.toNat < 4096) :
    translate { g1 with mem := mem } (va + k) access el =
      (.ok (pa + k), { g1 with mem := mem }) := by
  cases hmmu : mmuEnabled g.cpu with
  | false =>
    rw [translate_of_off hmmu] at h
    obtain ⟨hpa, rfl⟩ := Prod.mk.inj h
    obtain rfl := Except.ok.inj hpa
    have hoff : mmuEnabled ({ g with mem := mem } : Guest M).cpu = false := hmmu
    exact translate_of_off hoff _ _ _
  | true =>
    -- whatever the state after the first translation, the TLB has its page
    have hhit {g2 : Guest M} {paPage : BitVec 64} {perms : BitVec 8}
        (hmmu : mmuEnabled g2.cpu = true)
        (hlookup : g2.cpu.tlb.lookup (pageOf va) = some (paPage, perms))
        (hpage : paPage.toNat % 4096 = 0)
        (hleaf : leafResult el (Leaf.unpack paPage perms) va access = .ok pa) :
        translate g2 (va + k) access el = (.ok (pa + k), g2) := by
      rw [← pageOf_add hk] at hlookup
      rw [translate_of_hit hmmu hlookup, leafResult_add hleaf hpage hk]
    cases hlookup : g.cpu.tlb.lookup (pageOf va) with
    | some entry =>
      obtain ⟨paPage, perms⟩ := entry
      rw [translate_of_hit hmmu hlookup] at h
      obtain ⟨hleaf, rfl⟩ := Prod.mk.inj h
      exact hhit hmmu hlookup (halign _ _ _ hlookup) hleaf
    | none =>
      rw [translate_of_miss hmmu hlookup] at h
      unfold translateMiss at h
      dsimp only at h
      split at h
      · cases (Prod.mk.inj h).1
      · next leaf mem' hwalk =>
        obtain ⟨hleaf, rfl⟩ := Prod.mk.inj h
        exact hhit hmmu (Tlb.lookup_insert_self _ _ _ _)
          (paPage_walkLoop (congrArg Prod.fst hwalk)) (leafResult_unpack hleaf)

theorem xlate_eq_some {g g1 : Guest M} {va pa : BitVec 64} {write : Bool} {el : Fin 4} :
    xlate g va write el = (some pa, g1) ↔
      translate g va (if write then .write else .read) el = (.ok pa, g1) := by
  unfold xlate
  dsimp only
  split
  · next pa' g2 heq => rw [heq]; simp
  · next fsc g2 heq => rw [heq]; simp

theorem xlate_eq_none {g g1 : Guest M} {va : BitVec 64} {write : Bool} {el : Fin 4} :
    xlate g va write el = (none, g1) ↔
      ∃ fsc g2, translate g va (if write then .write else .read) el = (.error fsc, g2) ∧
        g1 = g2.abort { far := va, write := write, fsc := fsc } := by
  unfold xlate
  dsimp only
  split
  · next pa' g2 heq => rw [heq]; simp
  · next fsc g2 heq => rw [heq]; simp [eq_comm]

theorem xlate_sameUp {g g1 : Guest M} {va pa : BitVec 64} {write : Bool} {el : Fin 4}
    (halign : g.cpu.tlb.PagesAligned) (h : xlate g va write el = (some pa, g1)) (mem : M)
    {k : BitVec 64} (hk : (va &&& 0xfff).toNat + k.toNat < 4096) :
    xlate { g1 with mem := mem } (va + k) write el = (some (pa + k), { g1 with mem := mem }) :=
  xlate_eq_some.mpr (translate_sameUp halign (xlate_eq_some.mp h) mem hk)

theorem pagesAligned_xlate {g : Guest M} (h : g.cpu.tlb.PagesAligned) (va : BitVec 64)
    (write : Bool) (el : Fin 4) : (xlate g va write el).2.cpu.tlb.PagesAligned := by
  have htranslate := pagesAligned_translate h va (if write then .write else .read) el
  unfold xlate
  dsimp only
  split
  · next heq =>
    rw [heq] at htranslate
    exact htranslate
  · next heq =>
    rw [heq] at htranslate
    exact htranslate

end Page

/-! ## One byte at a time -/

section Bytes

variable {M : Type} {α : Type}

/-- The accesses `0, …, n - 1` in order, until one faults: what they give, unless one does. -/
def eachByte (access : ℕ → Guest M → Option α × Guest M) : ℕ → Guest M → Option (List α) × Guest M
  | 0, g => (some [], g)
  | n + 1, g =>
    match eachByte access n g with
    | (none, g) => (none, g)
    | (some done, g) =>
      match access n g with
      | (none, g) => (none, g)
      | (some a, g) => (some (done ++ [a]), g)

variable {access : ℕ → Guest M → Option α × Guest M}

theorem eachByte_succ {n : ℕ} {g g1 g2 : Guest M} {done : List α} {a : α}
    (h : eachByte access n g = (some done, g1)) (ha : access n g1 = (some a, g2)) :
    eachByte access (n + 1) g = (some (done ++ [a]), g2) := by
  rw [eachByte, h]
  dsimp only
  rw [ha]

theorem eachByte_succ_none {n : ℕ} {g g1 g2 : Guest M} {done : List α}
    (h : eachByte access n g = (some done, g1)) (ha : access n g1 = (none, g2)) :
    eachByte access (n + 1) g = (none, g2) := by
  rw [eachByte, h]
  dsimp only
  rw [ha]

/-- After a fault nothing more happens. -/
theorem eachByte_none {n : ℕ} {g g' : Guest M} (h : eachByte access n g = (none, g')) {m : ℕ}
    (hm : n ≤ m) : eachByte access m g = (none, g') := by
  induction m, hm using Nat.le_induction with
  | base => exact h
  | succ m hm ih => rw [eachByte, ih]

theorem length_eachByte {n : ℕ} {g g' : Guest M} {done : List α}
    (h : eachByte access n g = (some done, g')) : done.length = n := by
  induction n generalizing done g' with
  | zero =>
    obtain ⟨hdone, -⟩ := Prod.mk.inj h
    rw [← Option.some.inj hdone, List.length_nil]
  | succ n ih =>
    rw [eachByte] at h
    split at h
    · cases (Prod.mk.inj h).1
    · next done' g1 heq =>
      split at h
      · cases (Prod.mk.inj h).1
      · next a g2 ha =>
        obtain ⟨hdone, -⟩ := Prod.mk.inj h
        rw [← Option.some.inj hdone, List.length_append, ih heq, List.length_singleton]

/-- The access that faulted and the ones before it. -/
theorem exists_fault_eachByte {n : ℕ} {g g' : Guest M} (h : eachByte access n g = (none, g')) :
    ∃ k < n, ∃ done gk, eachByte access k g = (some done, gk) ∧ access k gk = (none, g') := by
  induction n generalizing g' with
  | zero => cases (Prod.mk.inj h).1
  | succ n ih =>
    rw [eachByte] at h
    split at h
    · next g1 heq =>
      obtain ⟨-, rfl⟩ := Prod.mk.inj h
      obtain ⟨k, hk, hfault⟩ := ih heq
      exact ⟨k, Nat.lt_succ_of_lt hk, hfault⟩
    · next done g1 heq =>
      split at h
      · next g2 ha =>
        obtain ⟨-, rfl⟩ := Prod.mk.inj h
        exact ⟨n, Nat.lt_succ_self n, done, g1, heq, ha⟩
      · cases (Prod.mk.inj h).1

variable [GuestMem M]

/-- One byte of an access: its address is translated, and `act` is done there. -/
def byteAccess (va : BitVec 64) (write : Bool) (el : Fin 4) (act : ℕ → BitVec 64 → M → α × M)
    (k : ℕ) (g : Guest M) : Option α × Guest M :=
  match xlate g (va + BitVec.ofNat 64 k) write el with
  | (none, g) => (none, g)
  | (some pa, g) =>
    let (a, mem) := act k pa g.mem
    (some a, { g with mem := mem })

/-- Byte `k` from `va` on, read. -/
def loadByte (va : BitVec 64) (el : Fin 4) : ℕ → Guest M → Option (BitVec 8) × Guest M :=
  byteAccess va false el fun _ pa mem => GuestMem.readU8 mem pa

/-- Byte `k` from `va` on, written with byte `k` of `val`. -/
def storeByte {w : ℕ} (va : BitVec 64) (el : Fin 4) (val : BitVec w) :
    ℕ → Guest M → Option Unit × Guest M :=
  byteAccess va true el fun k pa mem =>
    ((), GuestMem.writeU8 mem pa ((val >>> (8 * k)).setWidth 8))

/-- The `n` bytes from `va` on, each read at its own translation. -/
def loadBytes (va : BitVec 64) (el : Fin 4) (n : ℕ) (g : Guest M) :
    Option (List (BitVec 8)) × Guest M := eachByte (loadByte va el) n g

/-- The low `n` bytes of `val` from `va` on, each written at its own translation. -/
def storeBytes {w : ℕ} (va : BitVec 64) (el : Fin 4) (val : BitVec w) (n : ℕ) (g : Guest M) :
    Option (List Unit) × Guest M := eachByte (storeByte va el val) n g

variable {va pa : BitVec 64} {write : Bool} {el : Fin 4} {act : ℕ → BitVec 64 → M → α × M}
  {g g1 : Guest M}

theorem byteAccess_of_some {k : ℕ}
    (h : xlate g (va + BitVec.ofNat 64 k) write el = (some pa, g1)) :
    byteAccess va write el act k g =
      (some (act k pa g1.mem).1, { g1 with mem := (act k pa g1.mem).2 }) := by
  unfold byteAccess
  rw [h]

theorem byteAccess_of_none {k : ℕ}
    (h : xlate g (va + BitVec.ofNat 64 k) write el = (none, g1)) :
    byteAccess va write el act k g = (none, g1) := by
  unfold byteAccess
  rw [h]

/-- `act` on `c` addresses of a page from `pa` on. -/
def eachOfPage (act : ℕ → BitVec 64 → M → α × M) (pa : BitVec 64) (done : ℕ) :
    ℕ → M → List α × M
  | 0, mem => ([], mem)
  | i + 1, mem =>
    let (as, mem) := eachOfPage act pa done i mem
    let (a, mem) := act (done + i) (pa + BitVec.ofNat 64 i) mem
    (as ++ [a], mem)

theorem addr_add (va : BitVec 64) (i j : ℕ) :
    va + BitVec.ofNat 64 (i + j) = va + BitVec.ofNat 64 i + BitVec.ofNat 64 j := by
  rw [BitVec.ofNat_add, BitVec.add_assoc]

/-- A chunk in one page: one translation stands for those of its bytes. -/
theorem eachByte_chunk {done c : ℕ} {g0 : Guest M} {bs : List α}
    (hdone : eachByte (byteAccess va write el act) done g0 = (some bs, g))
    (halign : g.cpu.tlb.PagesAligned)
    (hx : xlate g (va + BitVec.ofNat 64 done) write el = (some pa, g1)) (hc : 1 ≤ c)
    (hspan : ((va + BitVec.ofNat 64 done) &&& 0xfff).toNat + c ≤ 4096) :
    eachByte (byteAccess va write el act) (done + c) g0 =
      (some (bs ++ (eachOfPage act pa done c g1.mem).1),
        { g1 with mem := (eachOfPage act pa done c g1.mem).2 }) := by
  induction c, hc using Nat.le_induction with
  | base =>
    have hzero : pa + BitVec.ofNat 64 0 = pa := BitVec.add_zero pa
    rw [eachByte_succ hdone (byteAccess_of_some hx)]
    unfold eachOfPage eachOfPage
    dsimp only
    rw [hzero, List.nil_append, Nat.add_zero]
  | succ c hc ih =>
    have hprev := ih (by omega)
    have hlt :
        ((va + BitVec.ofNat 64 done) &&& 0xfff).toNat + (BitVec.ofNat 64 c).toNat < 4096 := by
      rw [BitVec.toNat_ofNat]
      omega
    have hnext := xlate_sameUp halign hx (eachOfPage act pa done c g1.mem).2 hlt
    rw [← addr_add] at hnext
    rw [← Nat.add_assoc, eachByte_succ hprev (byteAccess_of_some hnext), eachOfPage,
      List.append_assoc]

/-- An access inside one page. -/
theorem eachByte_page {n : ℕ} (act : ℕ → BitVec 64 → M → α × M)
    (halign : g.cpu.tlb.PagesAligned) (hx : xlate g va write el = (some pa, g1)) (hn : 1 ≤ n)
    (hspan : (va &&& 0xfff).toNat + n ≤ 4096) :
    eachByte (byteAccess va write el act) n g =
      (some (eachOfPage act pa 0 n g1.mem).1,
        { g1 with mem := (eachOfPage act pa 0 n g1.mem).2 }) := by
  have hzero : va + BitVec.ofNat 64 0 = va := BitVec.add_zero va
  have hempty : eachByte (byteAccess va write el act) 0 g = (some [], g) := rfl
  rw [← hzero] at hx hspan
  have hchunk := eachByte_chunk hempty halign hx hn hspan
  rw [Nat.zero_add, List.nil_append] at hchunk
  exact hchunk

/-- An access whose first byte faults. -/
theorem eachByte_first_none {n : ℕ} (act : ℕ → BitVec 64 → M → α × M)
    (hx : xlate g va write el = (none, g1)) (hn : 1 ≤ n) :
    eachByte (byteAccess va write el act) n g = (none, g1) := by
  have hzero : va + BitVec.ofNat 64 0 = va := BitVec.add_zero va
  have hempty : eachByte (byteAccess va write el act) 0 g = (some [], g) := rfl
  rw [← hzero] at hx
  exact eachByte_none (eachByte_succ_none hempty (byteAccess_of_none hx)) hn

/-! ## The byte loops of the code -/

theorem gatherChunk_eq {done : ℕ} {bs : List (BitVec 8)} (hlen : bs.length = done) (c : ℕ)
    (mem : M) :
    let r := eachOfPage (fun _ pa mem => GuestMem.readU8 mem pa) pa done c mem
    gatherChunk pa done c (Bytes.ofLe 128 bs) mem = (Bytes.ofLe 128 (bs ++ r.1), r.2) ∧
      r.1.length = c := by
  induction c with
  | zero =>
    refine ⟨?_, rfl⟩
    rw [gatherChunk, eachOfPage, List.append_nil]
  | succ c ih =>
    obtain ⟨ih, ihlen⟩ := ih
    dsimp only at ih ihlen ⊢
    rw [gatherChunk, ih, eachOfPage]
    dsimp only
    constructor
    · rw [← List.append_assoc, Bytes.ofLe_append_singleton, List.length_append, hlen, ihlen,
        Nat.mul_comm]
    · rw [List.length_append, ihlen, List.length_singleton]

/-- What a read gives: nothing but 0 if it faults. -/
def loaded (w : ℕ) (r : Option (List (BitVec 8)) × Guest M) : BitVec w × Guest M :=
  ((r.1.map (Bytes.ofLe w)).getD 0, r.2)

theorem gatherLoop_eq {n fuel done : ℕ} {g0 : Guest M} {bs : List (BitVec 8)}
    (hdone : loadBytes va el done g0 = (some bs, g)) (halign : g.cpu.tlb.PagesAligned)
    (hle : done ≤ n) (hfuel : n ≤ done + fuel) :
    gatherLoop va n el fuel (Bytes.ofLe 128 bs) done g = loaded 128 (loadBytes va el n g0) := by
  have hend {done : ℕ} {g : Guest M} {bs : List (BitVec 8)}
      (hdone : loadBytes va el done g0 = (some bs, g)) (h : done = n) :
      (Bytes.ofLe 128 bs, g) = loaded 128 (loadBytes va el n g0) := by
    rw [← h, hdone]
    rfl
  induction fuel generalizing done g bs with
  | zero => exact hend hdone (by omega)
  | succ fuel ih =>
    rw [gatherLoop]
    split_ifs with hlt
    · have hlen := length_eachByte hdone
      have haligned := pagesAligned_xlate halign (va + BitVec.ofNat 64 done) false el
      dsimp only
      split
      · next g1 hx =>
        have hfault := eachByte_succ_none hdone (byteAccess_of_none hx)
        have hall : loadBytes va el n g0 = (none, g1) := eachByte_none hfault hlt
        rw [hall]
        rfl
      · next pa g1 hx =>
        rw [hx] at haligned
        rw [chunkLen_eq]
        have hoff : ((va + BitVec.ofNat 64 done) &&& 0xfff).toNat < 4096 := by
          rw [toNat_pageOffset]
          omega
        generalize hchunk : min (n - done) (4096 - ((va + BitVec.ofNat 64 done) &&& 0xfff).toNat) =
          chunk
        have hstep :=
          @eachByte_chunk M _ _ va pa false el _ g g1 done chunk g0 bs hdone halign hx (by omega)
          (by omega)
        obtain ⟨hgather, -⟩ := @gatherChunk_eq M _ pa done bs hlen chunk g1.mem
        rw [hgather]
        exact ih hstep haligned (by omega) (by omega)
    · exact hend hdone (by omega)

/-- A read is its bytes, each at its own translation. -/
theorem gather_eq (halign : g.cpu.tlb.PagesAligned) (va : BitVec 64) (n : ℕ) (el : Fin 4) :
    gather g va n el = loaded 128 (loadBytes va el n g) :=
  @gatherLoop_eq M _ va el g n n 0 g [] rfl halign (Nat.zero_le n) (by omega)

theorem scatterChunk_eq {done : ℕ} (val : BitVec 128) (c : ℕ) (mem : M) :
    scatterChunk pa done val c mem =
      (eachOfPage (fun k pa mem => ((), GuestMem.writeU8 mem pa ((val >>> (8 * k)).setWidth 8)))
        pa done c mem).2 := by
  induction c with
  | zero => rfl
  | succ c ih =>
    rw [scatterChunk, ih, eachOfPage, Nat.mul_comm]

theorem scatterLoop_eq {n fuel done : ℕ} {val : BitVec 128} {g0 : Guest M} {bs : List Unit}
    (hdone : storeBytes va el val done g0 = (some bs, g)) (halign : g.cpu.tlb.PagesAligned)
    (hle : done ≤ n) (hfuel : n ≤ done + fuel) :
    scatterLoop va n val el fuel done g = (storeBytes va el val n g0).2 := by
  induction fuel generalizing done g bs with
  | zero =>
    obtain rfl : done = n := by omega
    rw [hdone]
    rfl
  | succ fuel ih =>
    rw [scatterLoop]
    split_ifs with hlt
    · have haligned := pagesAligned_xlate halign (va + BitVec.ofNat 64 done) true el
      dsimp only
      split
      · next g1 hx =>
        have hfault := eachByte_succ_none hdone (byteAccess_of_none hx)
        have hall : storeBytes va el val n g0 = (none, g1) := eachByte_none hfault hlt
        rw [hall]
      · next pa g1 hx =>
        rw [hx] at haligned
        rw [chunkLen_eq]
        have hoff : ((va + BitVec.ofNat 64 done) &&& 0xfff).toNat < 4096 := by
          rw [toNat_pageOffset]
          omega
        generalize hchunk : min (n - done) (4096 - ((va + BitVec.ofNat 64 done) &&& 0xfff).toNat) =
          chunk
        have hstep := @eachByte_chunk M _ _ va pa true el _ g g1 done chunk g0 bs hdone halign hx
          (by omega) (by omega)
        rw [scatterChunk_eq]
        exact ih hstep haligned (by omega) (by omega)
    · obtain rfl : done = n := by omega
      rw [hdone]

/-- A write is its bytes, each at its own translation. -/
theorem scatter_eq (halign : g.cpu.tlb.PagesAligned) (va : BitVec 64) (n : ℕ) (val : BitVec 128)
    (el : Fin 4) : scatter g va n val el = (storeBytes va el val n g).2 :=
  @scatterLoop_eq M _ va el g n n 0 val g [] rfl halign (Nat.zero_le n) (by omega)

end Bytes

/-! ## Words in RAM -/

section Ram

variable {D : Type} [MmioDevice D]

/-- A walk reads memory, and no read changes RAM. -/
theorem ram_walkLoop (va : BitVec 64) (left : ℕ) (b : Bus D) (tableBase : BitVec 64)
    (tp : TablePerms) : (walkLoop va left b tableBase tp).2.ram = b.ram := by
  have hread (addr : BitVec 64) : (GuestMem.readU64 b addr).2.ram = b.ram := Bus.ram_load b addr 8
  induction left generalizing b tableBase tp with
  | zero =>
    rw [walkLoop]
    dsimp only
    split <;> exact hread _
  | succ left ih =>
    rw [walkLoop]
    dsimp only
    split
    · exact hread _
    · exact hread _
    · exact (ih _ _ _ fun addr => Bus.ram_load _ addr 8).trans (hread _)

theorem ram_translate (g : Guest (Bus D)) (va : BitVec 64) (access : Access) (el : Fin 4) :
    (translate g va access el).2.mem.ram = g.mem.ram := by
  unfold translate
  split_ifs
  · rfl
  · split
    · rfl
    · have hwalk := ram_walkLoop va (3 - startingLevel (region g.cpu va).2).toNat g.mem
        (region g.cpu va).1 TablePerms.default
      unfold translateMiss walk
      dsimp only
      split
      · next heq =>
        rw [heq] at hwalk
        exact hwalk
      · next heq =>
        rw [heq] at hwalk
        exact hwalk

theorem toNat_pageOf (va : BitVec 64) : (pageOf va).toNat = va.toNat - va.toNat % 4096 := by
  have hsum : pageOf va + (va &&& 0xfff) = va := page_add_offset va
  have hoff := toNat_pageOffset va
  have hmod : (pageOf va).toNat % 4096 = 0 := toNat_and_not_pageMask va
  have hnat := congrArg BitVec.toNat hsum
  rw [BitVec.toNat_add, hoff] at hnat
  omega

/-- A translation keeps the offset in the page. -/
theorem offset_of_translate {M : Type} [GuestMem M] {g g1 : Guest M} {va pa : BitVec 64}
    {access : Access} {el : Fin 4} (halign : g.cpu.tlb.PagesAligned)
    (h : translate g va access el = (.ok pa, g1)) : pa.toNat % 4096 = va.toNat % 4096 := by
  have hleaf {leaf : Leaf} (hpage : leaf.paPage.toNat % 4096 = 0)
      (h : leafResult el leaf va access = .ok pa) : pa.toNat % 4096 = va.toNat % 4096 := by
    unfold leafResult at h
    split_ifs at h
    obtain rfl := Except.ok.inj h
    have hsum : (leaf.paPage ||| (va &&& pageMask)).toNat =
        leaf.paPage.toNat + (va &&& 0xfff).toNat := toNat_or_pageOffset hpage va
    rw [hsum, toNat_pageOffset]
    omega
  cases hmmu : mmuEnabled g.cpu with
  | false =>
    rw [translate_of_off hmmu] at h
    obtain rfl := Except.ok.inj (Prod.mk.inj h).1
    rfl
  | true =>
    cases hlookup : g.cpu.tlb.lookup (pageOf va) with
    | some entry =>
      rw [translate_of_hit hmmu hlookup] at h
      exact hleaf (halign _ _ _ hlookup) (Prod.mk.inj h).1
    | none =>
      rw [translate_of_miss hmmu hlookup] at h
      unfold translateMiss at h
      dsimp only at h
      split at h
      · cases (Prod.mk.inj h).1
      · next hwalk =>
        exact hleaf (paPage_walkLoop (congrArg Prod.fst hwalk)) (Prod.mk.inj h).1

/-- The frame that the access finds under `va`, if it finds one, lies in RAM. -/
def FrameInRam (g : Guest (Bus D)) (va : BitVec 64) (access : Access) (el : Fin 4) : Prop :=
  ∀ pa, (translate g va access el).1 = .ok pa → g.mem.InRam (pageOf pa) 4096

/-- Then the bytes of an access inside the page lie in RAM after its translation. -/
theorem FrameInRam.inRam {g g1 : Guest (Bus D)} {va pa : BitVec 64} {access : Access} {el : Fin 4}
    (h : FrameInRam g va access el) (halign : g.cpu.tlb.PagesAligned)
    (hx : translate g va access el = (.ok pa, g1)) {n : ℕ}
    (hspan : (va &&& 0xfff).toNat + n ≤ 4096) : g1.mem.InRam pa n := by
  have hram : g1.mem.ram = g.mem.ram := by
    rw [← ram_translate g va access el, hx]
  have hframe := h pa (by rw [hx])
  have hoff := offset_of_translate halign hx
  have hpage := toNat_pageOf pa
  rw [toNat_pageOffset] at hspan
  unfold Bus.InRam at hframe ⊢
  rw [hram]
  omega

theorem ramWf_translate {g g1 : Guest (Bus D)} {va pa : BitVec 64} {access : Access} {el : Fin 4}
    (hwf : g.mem.RamWf) (hx : translate g va access el = (.ok pa, g1)) : g1.mem.RamWf := by
  have hram : g1.mem.ram = g.mem.ram := by
    rw [← ram_translate g va access el, hx]
  unfold Bus.RamWf
  rw [hram]
  exact hwf

variable {g : Guest (Bus D)} {va : BitVec 64} {size : ℕ} {el : Fin 4}

theorem one_le_shiftLeft (size : ℕ) : 1 ≤ 1 <<< size := by
  rw [Nat.one_shiftLeft]
  exact Nat.two_pow_pos size

/-- A sized read, by either path, is its bytes, each at its own translation, where those of
    one page lie in RAM. -/
theorem readAt_eq_of_inRam (halign : g.cpu.tlb.PagesAligned) (hwf : g.mem.RamWf)
    (hram : ∀ pa g1, translate g va .read el = (.ok pa, g1) →
      (va &&& 0xfff).toNat + 1 <<< size ≤ 4096 → g1.mem.InRam pa (1 <<< size)) (hsize : size ≤ 3) :
    readAt g va size el = loaded 64 (loadBytes va el (1 <<< size) g) := by
  have hpos := one_le_shiftLeft size
  unfold readAt
  dsimp only
  split_ifs with hone
  · have hspan : (va &&& 0xfff).toNat + 1 <<< size ≤ 4096 := of_decide_eq_true hone
    split
    · next g1 hx =>
      have hfault : loadBytes va el (1 <<< size) g = (none, g1) := eachByte_first_none _ hx hpos
      rw [hfault]
      rfl
    · next pa g1 hx =>
      have htranslate := xlate_eq_some.mp hx
      have hram := hram pa g1 htranslate hspan
      have hwf1 := ramWf_translate hwf htranslate
      have hbytes : loadBytes va el (1 <<< size) g = _ := eachByte_page _ halign hx hpos hspan
      obtain ⟨hgather, -⟩ := @gatherChunk_eq (Bus D) _ pa 0 [] rfl (1 <<< size) g1.mem
      rw [show Bytes.ofLe 128 [] = 0 from rfl,
        gatherChunk_of_inRam hwf1 hram (Nat.le_refl _)] at hgather
      obtain ⟨hval, hmem⟩ := Prod.mk.inj hgather
      rw [hbytes, readSized_of_inRam hwf1 hsize hram, ← hmem]
      have h64 := congrArg (BitVec.setWidth 64) hval
      rw [Bytes.setWidth_loadLe _ _ _ (.inl (by decide)), Bytes.setWidth_ofLe (by decide)] at h64
      rw [h64]
      rfl
  · rw [gather_eq halign]
    unfold loaded
    cases (loadBytes va el (1 <<< size) g).1 with
    | none => rfl
    | some bs =>
      show ((Bytes.ofLe 128 bs).setWidth 64, _) = (Bytes.ofLe 64 bs, _)
      rw [Bytes.setWidth_ofLe (by decide)]

/-- A sized read of a page in RAM. -/
theorem readAt_eq (halign : g.cpu.tlb.PagesAligned) (hwf : g.mem.RamWf)
    (hframe : FrameInRam g va .read el) (hsize : size ≤ 3) :
    readAt g va size el = loaded 64 (loadBytes va el (1 <<< size) g) :=
  readAt_eq_of_inRam halign hwf (fun _ _ hx hspan => hframe.inRam halign hx hspan) hsize

/-- A sized write, by either path, is its bytes, each at its own translation, where those of
    one page lie in RAM. -/
theorem writeAt_eq_of_inRam (halign : g.cpu.tlb.PagesAligned) (hwf : g.mem.RamWf)
    (hram : ∀ pa g1, translate g va .write el = (.ok pa, g1) →
      (va &&& 0xfff).toNat + 1 <<< size ≤ 4096 → g1.mem.InRam pa (1 <<< size)) (hsize : size ≤ 3)
    (val : BitVec 64) :
    writeAt g va size val el = (storeBytes va el (val.setWidth 128) (1 <<< size) g).2 := by
  have hpos := one_le_shiftLeft size
  unfold writeAt
  dsimp only
  split_ifs with hone
  · have hspan : (va &&& 0xfff).toNat + 1 <<< size ≤ 4096 := of_decide_eq_true hone
    split
    · next g1 hx =>
      have hfault : storeBytes va el (val.setWidth 128) (1 <<< size) g = (none, g1) :=
        eachByte_first_none _ hx hpos
      rw [hfault]
    · next pa g1 hx =>
      have htranslate := xlate_eq_some.mp hx
      have hram := hram pa g1 htranslate hspan
      have hwf1 := ramWf_translate hwf htranslate
      have hbytes : storeBytes va el (val.setWidth 128) (1 <<< size) g = _ :=
        eachByte_page _ halign hx hpos hspan
      have hlow : Bytes.storeLe g1.mem.ram.bytes (pa.toNat - g1.mem.ram.base.toNat) (1 <<< size)
          val = Bytes.storeLe g1.mem.ram.bytes (pa.toNat - g1.mem.ram.base.toNat) (1 <<< size)
            (val.setWidth 128) := by
        have hbits : 8 * 1 <<< size ≤ 64 := by
          rw [Nat.one_shiftLeft]
          have := Nat.pow_le_pow_right Nat.two_pos hsize
          omega
        refine Bytes.storeLe_congr _ _ _ _ _ fun k hk => ?_
        have hk128 : k < 128 := by omega
        rw [BitVec.getLsbD_setWidth, decide_eq_true hk128, Bool.true_and]
      rw [hbytes, writeSized_of_inRam hwf1 hsize hram, ← scatterChunk_eq,
        scatterChunk_of_inRam hwf1 hram (Nat.le_refl _), hlow]
  · rw [scatter_eq halign]

/-- A sized write to a page in RAM. -/
theorem writeAt_eq (halign : g.cpu.tlb.PagesAligned) (hwf : g.mem.RamWf)
    (hframe : FrameInRam g va .write el) (hsize : size ≤ 3) (val : BitVec 64) :
    writeAt g va size val el = (storeBytes va el (val.setWidth 128) (1 <<< size) g).2 :=
  writeAt_eq_of_inRam halign hwf (fun _ _ hx hspan => hframe.inRam halign hx hspan) hsize val

end Ram

/-! ## The first fault -/

section Fault

variable {M : Type} [GuestMem M] {α : Type} {va : BitVec 64} {write : Bool} {el : Fin 4}
  {act : ℕ → BitVec 64 → M → α × M} {g g' : Guest M}

theorem xlate_of_byteAccess_none {k : ℕ} (h : byteAccess va write el act k g = (none, g')) :
    xlate g (va + BitVec.ofNat 64 k) write el = (none, g') := by
  unfold byteAccess at h
  split at h
  · next g1 hx =>
    obtain ⟨-, rfl⟩ := Prod.mk.inj h
    exact hx
  · cases (Prod.mk.inj h).1

theorem xlate_of_byteAccess_some {k : ℕ} {a : α}
    (h : byteAccess va write el act k g = (some a, g')) :
    ∃ pa g1, xlate g (va + BitVec.ofNat 64 k) write el = (some pa, g1) ∧
      g' = { g1 with mem := g'.mem } := by
  unfold byteAccess at h
  split at h
  · cases (Prod.mk.inj h).1
  · next pa g1 hx =>
    obtain ⟨-, rfl⟩ := Prod.mk.inj h
    exact ⟨pa, g1, hx, rfl⟩

omit [GuestMem M] in
/-- The bytes before the last, and the last. -/
theorem eachByte_succ_some {access : ℕ → Guest M → Option α × Guest M} {n : ℕ} {done : List α}
    (h : eachByte access (n + 1) g = (some done, g')) :
    ∃ done' g1 a, eachByte access n g = (some done', g1) ∧ access n g1 = (some a, g') := by
  rw [eachByte] at h
  split at h
  · cases (Prod.mk.inj h).1
  · next done' g1 heq =>
    split at h
    · cases (Prod.mk.inj h).1
    · next a g2 ha =>
      obtain ⟨-, rfl⟩ := Prod.mk.inj h
      exact ⟨done', g1, a, heq, ha⟩

/-- Bytes that all translate leave the TLB with page starts and the abort as it was. -/
theorem eachByte_some {n : ℕ} {done : List α}
    (h : eachByte (byteAccess va write el act) n g = (some done, g'))
    (halign : g.cpu.tlb.PagesAligned) :
    g'.cpu.tlb.PagesAligned ∧ g'.cpu.pendingAbort = g.cpu.pendingAbort := by
  induction n generalizing done g' with
  | zero =>
    obtain ⟨-, rfl⟩ := Prod.mk.inj h
    exact ⟨halign, rfl⟩
  | succ n ih =>
    obtain ⟨done', g1, a, hprev, hlast⟩ := eachByte_succ_some h
    obtain ⟨hg1, habort⟩ := ih hprev
    obtain ⟨pa, g2, hx, hg'⟩ := xlate_of_byteAccess_some hlast
    have halign2 := pagesAligned_xlate hg1 (va + BitVec.ofNat 64 n) write el
    obtain ⟨tlb, htlb⟩ := translate_cpu g1 (va + BitVec.ofNat 64 n)
      (if write then .write else .read) el
    rw [hx] at halign2
    rw [xlate_eq_some.mp hx] at htlb
    rw [hg']
    refine ⟨halign2, Eq.trans ?_ habort⟩
    show g2.cpu.pendingAbort = g1.cpu.pendingAbort
    rw [htlb]

/-- A byte that does not translate after one that did begins a page. -/
theorem page_of_fault {k : ℕ} {done : List α}
    (hdone : eachByte (byteAccess va write el act) (k + 1) g = (some done, g'))
    (halign : g.cpu.tlb.PagesAligned) {g2 : Guest M}
    (hfault : byteAccess va write el act (k + 1) g' = (none, g2)) :
    (va + BitVec.ofNat 64 (k + 1)).toNat % 4096 = 0 := by
  obtain ⟨done', g1, a, hprev, hlast⟩ := eachByte_succ_some hdone
  obtain ⟨pa, g3, hx, hg'⟩ := xlate_of_byteAccess_some hlast
  have hnone := xlate_of_byteAccess_none hfault
  by_contra hne
  have hlt : ((va + BitVec.ofNat 64 k) &&& 0xfff).toNat + (BitVec.ofNat 64 1).toNat < 4096 := by
    rw [addr_add, BitVec.toNat_add] at hne
    rw [toNat_pageOffset]
    show (va + BitVec.ofNat 64 k).toNat % 4096 + 1 < 4096
    have hone : (BitVec.ofNat 64 1).toNat = 1 := rfl
    rw [hone] at hne
    omega
  have hsome := xlate_sameUp (eachByte_some hprev halign).1 hx g'.mem hlt
  rw [← addr_add, ← hg', hnone] at hsome
  cases (Prod.mk.inj hsome).1

end Fault

section Exact

variable {D : Type} [MmioDevice D]

/-- `g'` is the guest after the first `k` bytes of an access, where byte `k` did not
    translate and left the abort: it is the first byte of the access or of a page. -/
def FaultsAt {α : Type} (access : ℕ → Guest (Bus D) → Option α × Guest (Bus D)) (va : BitVec 64)
    (write : Bool) (el : Fin 4) (n : ℕ) (g g' : Guest (Bus D)) : Prop :=
  ∃ k < n, ∃ done gk fsc, eachByte access k g = (some done, gk) ∧
    (translate gk (va + BitVec.ofNat 64 k) (if write then .write else .read) el).1 = .error fsc ∧
    (k = 0 ∨ (va + BitVec.ofNat 64 k).toNat % 4096 = 0) ∧ g'.mem.ram = gk.mem.ram ∧
    g'.cpu.pendingAbort = some { far := va + BitVec.ofNat 64 k, write := write, fsc := fsc }

variable {g g' : Guest (Bus D)} {va : BitVec 64} {el : Fin 4}

theorem faultsAt_of_none {α : Type} {write : Bool} {act : ℕ → BitVec 64 → Bus D → α × Bus D}
    {n : ℕ} (halign : g.cpu.tlb.PagesAligned)
    (h : eachByte (byteAccess va write el act) n g = (none, g')) :
    FaultsAt (byteAccess va write el act) va write el n g g' := by
  obtain ⟨k, hk, done, gk, hdone, hfault⟩ := exists_fault_eachByte h
  obtain ⟨fsc, g2, htranslate, rfl⟩ := xlate_eq_none.mp (xlate_of_byteAccess_none hfault)
  have hram : g2.mem.ram = gk.mem.ram := by
    rw [← ram_translate gk (va + BitVec.ofNat 64 k) (if write then .write else .read) el,
      htranslate]
  refine ⟨k, hk, done, gk, fsc, hdone, by rw [htranslate], ?_, hram, rfl⟩
  cases k with
  | zero => exact .inl rfl
  | succ k => exact .inr (page_of_fault hdone halign hfault)

end Exact

/-- A table whose first page is at `0x1000` and whose second page is not mapped. -/
def pagedGuest : Guest (Bus Empty) where
  cpu := writeSysreg (writeSysreg CpuState.new keyTcrEl1 0x330033) keySctlrEl1 1
  mem := {
    ram := { base := 0, size := 0x3000, bytes := Bytes.storeLe (fun _ => 0) 0 8 0x1401#64 }
    devices := [] }

end V64.Interp
