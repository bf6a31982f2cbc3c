import V64.Interp.Mmu
import V64.Interp.System
import V64.Lib.Runs
import V64.Platform.Bus

/-!
# The TLB is transparent while a page is one translation

A run is a sequence of translations, writes of the translation registers, TLB
invalidations and memory changes. A change of the tables makes the TLB stale,
and translations wait for the next flush.

* `walkAt_congr`: with a region size in `16..=51` the walk depends on the page of
  its address only.
* `Valid.step`: every such step keeps each cached entry equal to the leaf that a
  walk would give now, and the TLB empty while the MMU is off.
* `tlb_transparent`: so `translate` and the uncached path agree in every run.
* `tlb_not_transparent`: a region size of 52 starts the walk at level 4, whose
  index bits lie inside the page, and they do not agree.
-/

namespace V64.Interp

open V64.Cpu V64.Decoder V64.Platform Runs

/-! ## The uncached path -/

section Uncached

variable {M : Type} [GuestMem M]

/-- The leaf that a walk for `va` gives now. -/
def walkAt (cpu : CpuState) (mem : M) (va : BitVec 64) : Except (BitVec 8) Leaf :=
  (walk mem (region cpu va).1 va (region cpu va).2).1

/-- `translate` without a TLB. -/
def translateUncached (g : Guest M) (va : BitVec 64) (access : Access) (el : Fin 4) :
    Except (BitVec 8) (BitVec 64) :=
  if !mmuEnabled g.cpu then .ok va
  else
    match walkAt g.cpu g.mem va with
    | .error fsc => .error fsc
    | .ok leaf => leafResult el leaf va access

/-- The region size (T0SZ or T1SZ) that `va` selects is in `16..=51`. -/
def RegionOk (cpu : CpuState) (va : BitVec 64) : Prop :=
  16 ≤ (region cpu va).2.toNat ∧ (region cpu va).2.toNat ≤ 51

end Uncached

/-! ## A walk sees a page -/

theorem levelShift_levelOf {left : ℕ} (h : left ≤ 3) :
    levelShift (levelOf left) = 12 + 9 * left := by
  have hall : ∀ left : Fin 4, levelShift (levelOf left) = 12 + 9 * left.val := by decide
  exact hall ⟨left, by omega⟩

/-- Bits from 12 up are those of the page. -/
theorem getLsbD_pageOf (va : BitVec 64) {i : ℕ} (h : 12 ≤ i) :
    (pageOf va).getLsbD i = va.getLsbD i := by
  have hmask : i < 64 → (~~~0xfff#64).getLsbD i = true := by
    have hall : ∀ i : Fin 64, 12 ≤ i.val → (~~~0xfff#64).getLsbD i.val = true := by decide
    exact fun hi => hall ⟨i, hi⟩ h
  unfold pageOf
  rw [BitVec.getLsbD_and]
  by_cases hi : i < 64
  · rw [hmask hi, Bool.and_true]
  · rw [BitVec.getLsbD_of_ge va i (by omega), Bool.false_and]

theorem getLsbD_of_pageOf_eq {va va' : BitVec 64} (h : pageOf va = pageOf va') {i : ℕ}
    (hi : 12 ≤ i) : va.getLsbD i = va'.getLsbD i := by
  rw [← getLsbD_pageOf va hi, h, getLsbD_pageOf va' hi]

theorem ushiftRight_of_pageOf_eq {va va' : BitVec 64} (h : pageOf va = pageOf va') {k : ℕ}
    (hk : 12 ≤ k) : va >>> k = va' >>> k := by
  ext i hi
  rw [← BitVec.getLsbD_eq_getElem, ← BitVec.getLsbD_eq_getElem, BitVec.getLsbD_ushiftRight,
    BitVec.getLsbD_ushiftRight, getLsbD_of_pageOf_eq h (by omega)]

/-- The page offset does not reach the page of an address. -/
theorem and_not_pageMask_congr {va va' : BitVec 64} (h : pageOf va = pageOf va')
    (out mask : BitVec 64) :
    (out ||| (va &&& mask)) &&& ~~~pageMask = (out ||| (va' &&& mask)) &&& ~~~pageMask := by
  have hva : va &&& ~~~pageMask = va' &&& ~~~pageMask := h
  calc (out ||| (va &&& mask)) &&& ~~~pageMask
      = (out &&& ~~~pageMask) ||| ((va &&& ~~~pageMask) &&& mask) := by
        ext i hi
        simp only [BitVec.getElem_and, BitVec.getElem_or, BitVec.getElem_not]
        grind
    _ = (out &&& ~~~pageMask) ||| ((va' &&& ~~~pageMask) &&& mask) := by rw [hva]
    _ = (out ||| (va' &&& mask)) &&& ~~~pageMask := by
        ext i hi
        simp only [BitVec.getElem_and, BitVec.getElem_or, BitVec.getElem_not]
        grind

theorem walkStep_congr {va va' : BitVec 64} (h : pageOf va = pageOf va') (level : BitVec 32)
    (desc : BitVec 64) (tp : TablePerms) :
    walkStep level desc va tp = walkStep level desc va' tp := by
  unfold walkStep
  dsimp only
  rw [and_not_pageMask_congr h]

theorem walkLoop_congr {M : Type} [GuestMem M] {va va' : BitVec 64} (h : pageOf va = pageOf va')
    {left : ℕ} (hleft : left ≤ 3) (mem : M) (tableBase : BitVec 64) (tp : TablePerms) :
    walkLoop va left mem tableBase tp = walkLoop va' left mem tableBase tp := by
  induction left generalizing mem tableBase tp with
  | zero =>
    have haddr : descAddr (levelOf 0) tableBase va = descAddr (levelOf 0) tableBase va' := by
      unfold descAddr
      rw [levelShift_levelOf hleft, ushiftRight_of_pageOf_eq h (by omega)]
    rw [walkLoop, walkLoop, haddr, walkStep_congr h]
  | succ left ih =>
    have haddr : descAddr (levelOf (left + 1)) tableBase va =
        descAddr (levelOf (left + 1)) tableBase va' := by
      unfold descAddr
      rw [levelShift_levelOf hleft, ushiftRight_of_pageOf_eq h (by omega)]
    rw [walkLoop, walkLoop, haddr, walkStep_congr h]
    simp only [ih (by omega)]

theorem left_of_regionOk {tsz : BitVec 32} (h : 16 ≤ tsz.toNat ∧ tsz.toNat ≤ 51) :
    (3 - startingLevel tsz).toNat ≤ 3 := by
  have hall : ∀ n : Fin 52, 16 ≤ n.val → (3 - startingLevel (BitVec.ofNat 32 n.val)).toNat ≤ 3 := by
    decide
  have htsz : tsz = BitVec.ofNat 32 tsz.toNat := by simp
  rw [htsz]
  exact hall ⟨tsz.toNat, by omega⟩ h.1

theorem region_congr (cpu : CpuState) {va va' : BitVec 64} (h : pageOf va = pageOf va') :
    region cpu va = region cpu va' := by
  unfold region
  rw [ushiftRight_of_pageOf_eq h (by omega)]

section Walk

variable {M : Type} [GuestMem M]

/-- Addresses of one page have one walk. -/
theorem walkAt_congr {cpu : CpuState} {va va' : BitVec 64} (hok : RegionOk cpu va)
    (h : pageOf va = pageOf va') (mem : M) : walkAt cpu mem va = walkAt cpu mem va' := by
  unfold walkAt
  rw [← region_congr cpu h]
  unfold walk
  rw [walkLoop_congr h (left_of_regionOk hok)]

theorem level_walkStep {level : BitVec 32} {desc va : BitVec 64} {tp : TablePerms} {leaf : Leaf}
    (h : walkStep level desc va tp = .leaf leaf) : leaf.level = level.setWidth 8 := by
  unfold walkStep at h
  split_ifs at h
  cases h
  rfl

theorem level_walkLoop {va : BitVec 64} {left : ℕ} (hleft : left ≤ 3) {mem : M}
    {tableBase : BitVec 64} {tp : TablePerms} {leaf : Leaf}
    (h : (walkLoop va left mem tableBase tp).1 = .ok leaf) : leaf.level < 16 := by
  have hlevel : ∀ left : Fin 4, (levelOf left).setWidth 8 < 16#8 := by decide
  induction left generalizing mem tableBase tp with
  | zero =>
    rw [walkLoop] at h
    dsimp only at h
    split at h
    · cases h
    · next hleaf =>
      cases h
      rw [level_walkStep hleaf]
      exact hlevel 0
    · cases h
  | succ left ih =>
    rw [walkLoop] at h
    dsimp only at h
    split at h
    · cases h
    · next hleaf =>
      cases h
      rw [level_walkStep hleaf]
      exact hlevel ⟨left + 1, by omega⟩
    · exact ih (by omega) h

/-- The TLB's byte keeps the level of every leaf of such a region. -/
theorem level_walkAt {cpu : CpuState} {mem : M} {va : BitVec 64} (hok : RegionOk cpu va)
    {leaf : Leaf} (h : walkAt cpu mem va = .ok leaf) : leaf.level < 16 :=
  level_walkLoop (left_of_regionOk hok) h

end Walk

/-! ## Tables in RAM -/

variable {D : Type} [MmioDevice D]

/-- Every descriptor that the walk reads is in RAM. -/
def WalkInRam (va : BitVec 64) : ℕ → Bus D → BitVec 64 → TablePerms → Prop
  | left, mem, tableBase, tp =>
    mem.route (descAddr (levelOf left) tableBase va) = .ram ∧
      match walkStep (levelOf left)
        (GuestMem.readU64 mem (descAddr (levelOf left) tableBase va)).1 va tp with
      | .table base tp =>
        match left with
        | 0 => True
        | left + 1 => WalkInRam va left mem base tp
      | _ => True

/-- The tables that translate `va` are in RAM. -/
def TablesInRam (g : Guest (Bus D)) (va : BitVec 64) : Prop :=
  WalkInRam va (3 - startingLevel (region g.cpu va).2).toNat g.mem (region g.cpu va).1
    TablePerms.default

/-- A walk that ends at its first descriptor reads nothing else. -/
theorem walkInRam_of_first {va : BitVec 64} {left : ℕ} {mem : Bus D} {tableBase : BitVec 64}
    {tp : TablePerms} (leaf : Leaf)
    (hroute : mem.route (descAddr (levelOf left) tableBase va) = .ram)
    (hleaf : walkStep (levelOf left)
      (GuestMem.readU64 mem (descAddr (levelOf left) tableBase va)).1 va tp = .leaf leaf) :
    WalkInRam va left mem tableBase tp := by
  rw [WalkInRam, hleaf]
  exact ⟨hroute, trivial⟩

theorem walkLoop_mem {va : BitVec 64} {left : ℕ} {mem : Bus D} {tableBase : BitVec 64}
    {tp : TablePerms} (h : WalkInRam va left mem tableBase tp) :
    (walkLoop va left mem tableBase tp).2 = mem := by
  induction left generalizing tableBase tp with
  | zero =>
    rw [WalkInRam] at h
    have hread := Bus.load_mem_of_route h.1 8
    rw [walkLoop]
    dsimp only
    split <;> exact hread
  | succ left ih =>
    rw [WalkInRam] at h
    have hread : (GuestMem.readU64 mem _).2 = mem := Bus.load_mem_of_route h.1 8
    rw [walkLoop]
    dsimp only
    split
    · exact hread
    · exact hread
    · next base tp' hstep =>
      rw [hread]
      rw [hstep] at h
      exact ih h.2

/-! ## Runs -/

/-- A state of a run; `stale` holds from a change of the tables to the next flush. -/
structure XlateState (D : Type) where
  guest : Guest (Bus D)
  stale : Bool

/-- The steps of a run. `data` is a change of memory that no walk sees. -/
inductive XlateOp where
  | translate (va : BitVec 64) (access : Access) (el : Fin 4)
  | msr (key : BitVec 32) (val : BitVec 64)
  | tlbi
  | tables
  | data
  deriving DecidableEq

/-- The translation-control registers. -/
def isXlateKey (key : BitVec 32) : Prop :=
  key = keySctlrEl1 ∨ key = keyTcrEl1 ∨ key = keyTtbr0El1 ∨ key = keyTtbr1El1

/-- A TCR value with both region sizes in `16..=52`. -/
def TcrSizes (tcr : BitVec 64) : Prop :=
  (16 ≤ (tcr &&& 0x3f).toNat ∧ (tcr &&& 0x3f).toNat ≤ 52) ∧
    16 ≤ ((tcr >>> 16) &&& 0x3f).toNat ∧ ((tcr >>> 16) &&& 0x3f).toNat ≤ 52

instance (tcr : BitVec 64) : Decidable (TcrSizes tcr) := inferInstanceAs (Decidable (_ ∧ _))

/-- One step of a run. -/
inductive XlateStep : XlateState D → XlateOp → XlateState D → Prop where
  | translate (g : Guest (Bus D)) (va : BitVec 64) (access : Access) (el : Fin 4)
      (htables : mmuEnabled g.cpu = true → TablesInRam g va) :
      XlateStep ⟨g, false⟩ (.translate va access el) ⟨(translate g va access el).2, false⟩
  | msr (g : Guest (Bus D)) (stale : Bool) (key : BitVec 32) (val : BitVec 64)
      (hkey : isXlateKey key) (htcr : key = keyTcrEl1 → TcrSizes val) :
      XlateStep ⟨g, stale⟩ (.msr key val) ⟨{ g with cpu := writeSysreg g.cpu key val }, false⟩
  | tlbi (g : Guest (Bus D)) (stale : Bool) :
      XlateStep ⟨g, stale⟩ .tlbi ⟨{ g with cpu := g.cpu.flushTlb }, false⟩
  | tables (g : Guest (Bus D)) (stale : Bool) (mem : Bus D) :
      XlateStep ⟨g, stale⟩ .tables ⟨{ g with mem := mem }, true⟩
  | data (g : Guest (Bus D)) (stale : Bool) (mem : Bus D)
      (hsame : ∀ va, walkAt g.cpu mem va = walkAt g.cpu g.mem va) :
      XlateStep ⟨g, stale⟩ .data ⟨{ g with mem := mem }, stale⟩

/-- The state after reset, over any memory. -/
def XlateState.reset (mem : Bus D) : XlateState D := ⟨⟨CpuState.new, mem⟩, false⟩

/-- `translate` agrees with the uncached path, every cached entry is the packed
leaf of a walk made now, and nothing is cached while the MMU is off. -/
structure Transparent (s : XlateState D) : Prop where
  translate_eq : s.stale = false → ∀ va access el,
    (translate s.guest va access el).1 = translateUncached s.guest va access el
  entries : s.stale = false → ∀ va pa perms,
    s.guest.cpu.tlb.lookup (pageOf va) = some (pa, perms) →
      ∃ leaf, walkAt s.guest.cpu s.guest.mem va = .ok leaf ∧ pa = leaf.paPage ∧ perms = leaf.pack
  off : mmuEnabled s.guest.cpu = false → s.guest.cpu.tlb.IsEmpty

/-- The translation of the step, if it is one and the MMU is on, falls in a
region of size `16..=51`. -/
def XlateOp.RegionOk (s : XlateState D) : XlateOp → Prop
  | .translate va _ _ => mmuEnabled s.guest.cpu = true → Interp.RegionOk s.guest.cpu va
  | _ => True

/-! ## The invariant -/

/-- What `Transparent` says of the TLB, and that only regions of size `16..=51`
have been cached. -/
structure Valid (s : XlateState D) : Prop where
  off : mmuEnabled s.guest.cpu = false → s.guest.cpu.tlb.IsEmpty
  entries : s.stale = false → ∀ va pa perms,
    s.guest.cpu.tlb.lookup (pageOf va) = some (pa, perms) →
      RegionOk s.guest.cpu va ∧
        ∃ leaf, walkAt s.guest.cpu s.guest.mem va = .ok leaf ∧ pa = leaf.paPage ∧ perms = leaf.pack

theorem Valid.of_isEmpty {s : XlateState D} (h : s.guest.cpu.tlb.IsEmpty) : Valid s where
  off _ := h
  entries _ va pa perms hit := by
    rw [h.lookup] at hit
    cases hit

theorem writeSysreg_isEmpty {cpu : CpuState} {key : BitVec 32} {val : BitVec 64}
    (hkey : isXlateKey key) : (writeSysreg cpu key val).tlb.IsEmpty := by
  rcases hkey with rfl | rfl | rfl | rfl <;> exact Tlb.isEmpty_flush _

theorem Valid.translate {g : Guest (Bus D)} (hv : Valid ⟨g, false⟩) {va : BitVec 64}
    {access : Access} {el : Fin 4} (htables : mmuEnabled g.cpu = true → TablesInRam g va)
    (hok : mmuEnabled g.cpu = true → RegionOk g.cpu va) :
    Valid ⟨(Interp.translate g va access el).2, false⟩ := by
  cases hmmu : mmuEnabled g.cpu with
  | false => rwa [translate_of_off hmmu]
  | true =>
    cases hlook : g.cpu.tlb.lookup (pageOf va) with
    | some hit => rwa [translate_of_hit hmmu hlook]
    | none =>
      have hmem : (walk g.mem (region g.cpu va).1 va (region g.cpu va).2).2 = g.mem :=
        walkLoop_mem (htables hmmu)
      rw [translate_of_miss hmmu hlook]
      unfold translateMiss
      dsimp only
      split
      · next fsc mem hwalk =>
        rw [hwalk] at hmem
        obtain rfl : mem = g.mem := hmem
        exact hv
      · next leaf mem hwalk =>
        rw [hwalk] at hmem
        obtain rfl : mem = g.mem := hmem
        have hleaf : walkAt g.cpu g.mem va = .ok leaf := by
          unfold walkAt
          rw [hwalk]
        refine ⟨fun hoff => ?_, fun _ va' pa perms hit => ?_⟩
        · exact absurd (hoff.symm.trans hmmu) Bool.false_ne_true
        · -- the entry just inserted, or one that was valid before
          rcases Tlb.lookup_insert_cases hit with ⟨hpage, hentry⟩ | hold
          · obtain ⟨rfl, rfl⟩ := Prod.mk.inj hentry
            have hregion : RegionOk g.cpu va' := by
              unfold RegionOk
              rw [region_congr g.cpu hpage]
              exact hok hmmu
            exact ⟨hregion, leaf, (walkAt_congr hregion hpage g.mem).trans hleaf, rfl, rfl⟩
          · exact hv.entries rfl va' pa perms hold

theorem Valid.step {s s' : XlateState D} {op : XlateOp} (hv : Valid s) (h : XlateStep s op s')
    (hok : op.RegionOk s) : Valid s' := by
  cases h with
  | translate g va access el htables => exact hv.translate htables hok
  | msr g stale key val hkey htcr => exact Valid.of_isEmpty (writeSysreg_isEmpty hkey)
  | tlbi g stale => exact Valid.of_isEmpty (Tlb.isEmpty_flush _)
  | tables g stale mem => exact ⟨hv.off, fun h => absurd h.symm Bool.false_ne_true⟩
  | data g stale mem hsame =>
    refine ⟨hv.off, fun hstale va pa perms hit => ?_⟩
    obtain ⟨hregion, leaf, hleaf, hpa, hperms⟩ := hv.entries hstale va pa perms hit
    exact ⟨hregion, leaf, (hsame va).trans hleaf, hpa, hperms⟩

theorem Valid.transparent {s : XlateState D} (hv : Valid s) : Transparent s where
  off := hv.off
  entries hstale va pa perms hit := (hv.entries hstale va pa perms hit).2
  translate_eq hstale va access el := by
    unfold translateUncached
    cases hmmu : mmuEnabled s.guest.cpu with
    | false => rw [translate_of_off hmmu]; rfl
    | true =>
      cases hlook : s.guest.cpu.tlb.lookup (pageOf va) with
      | some hit =>
        obtain ⟨pa, perms⟩ := hit
        obtain ⟨hregion, leaf, hleaf, rfl, rfl⟩ := hv.entries hstale va pa perms hlook
        rw [translate_of_hit hmmu hlook, Leaf.unpack_pack leaf (level_walkAt hregion hleaf), hleaf]
        rfl
      | none =>
        rw [translate_of_miss hmmu hlook]
        unfold translateMiss walkAt
        dsimp only
        split
        · next hwalk => rw [hwalk]; rfl
        · next hwalk => rw [hwalk]; rfl

/-- In every run whose translations with the MMU on fall in regions of size
`16..=51`, the TLB is transparent in every state reached. -/
theorem tlb_transparent {mem : Bus D} {ops : List XlateOp} {s : XlateState D}
    (hrun : Run (fun s op s' => XlateStep s op s' ∧ op.RegionOk s) (XlateState.reset mem) ops s) :
    Transparent s := by
  have hreset : Valid (XlateState.reset mem) := Valid.of_isEmpty Tlb.isEmpty_new
  exact (hrun.invariant (fun _ _ _ hv h => hv.step h.1 h.2) hreset).transparent

/-! ## Two runs -/

/-- RAM at 0 whose first two descriptors are blocks at `0x1000` and `0x2000`. -/
def tableRam : Bus Empty where
  ram := {
    base := 0
    size := 0x1000
    bytes := Bytes.storeLe (Bytes.storeLe (fun _ => 0) 0 8 0x1401#64) 8 8 0x2401#64 }
  devices := []

/-- The guest after writing both region sizes and then turning the MMU on. -/
def tableGuest (tcr : BitVec 64) : Guest (Bus Empty) where
  cpu := writeSysreg (writeSysreg CpuState.new keyTcrEl1 tcr) keySctlrEl1 1
  mem := tableRam

/-- The writes that lead to `tableGuest`, then a translation of address 0. -/
def tableOps (tcr : BitVec 64) : List XlateOp :=
  [.msr keyTcrEl1 tcr, .msr keySctlrEl1 1, .translate 0 .read 1]

theorem tableOps_run (tcr : BitVec 64) (P : XlateState Empty → XlateOp → Prop)
    (htcr : TcrSizes tcr) (htables : TablesInRam (tableGuest tcr) 0)
    (hmsr : ∀ s key val, P s (.msr key val))
    (htranslate : P ⟨tableGuest tcr, false⟩ (.translate 0 .read 1)) :
    Run (fun s op s' => XlateStep s op s' ∧ P s op) (XlateState.reset tableRam) (tableOps tcr)
      ⟨(translate (tableGuest tcr) 0 .read 1).2, false⟩ :=
  .cons ⟨.msr _ _ keyTcrEl1 tcr (.inr (.inl rfl)) fun _ => htcr, hmsr _ _ _⟩
    (.cons ⟨.msr _ _ keySctlrEl1 1 (.inl rfl) fun h => absurd h (by decide), hmsr _ _ _⟩
      (.cons ⟨.translate _ 0 .read 1 fun _ => htables, htranslate⟩ (.nil _)))

/-- With `T0SZ = 51` the walk starts at level 3, and the page it caches is one translation. -/
theorem tlb_transparent_t0sz51 :
    Transparent ⟨(translate (tableGuest 0x330033) 0 .read 1).2, false⟩ := by
  have htables : TablesInRam (tableGuest 0x330033) 0 :=
    walkInRam_of_first ⟨0x1000, false, false, false, false, 3⟩ (by decide +kernel)
      (by decide +kernel)
  exact tlb_transparent (tableOps_run _ _ (by decide) htables (fun _ _ _ => trivial)
    fun _ => ⟨by decide +kernel, by decide +kernel⟩)

/-- With `T0SZ = 52` the walk starts at level 4, where addresses 0 and 8 of one
page have two descriptors; the second translation gets the first one's. -/
theorem tlb_not_transparent :
    ¬ ∀ (mem : Bus Empty) (ops : List XlateOp) (s : XlateState Empty),
      Run XlateStep (XlateState.reset mem) ops s → Transparent s := by
  intro h
  have htables : TablesInRam (tableGuest 0x340034) 0 :=
    walkInRam_of_first ⟨0x1000, false, false, false, false, 4⟩ (by decide +kernel)
      (by decide +kernel)
  have hrun := tableOps_run 0x340034 (fun _ _ => True) (by decide) htables
    (fun _ _ _ => trivial) trivial
  have htransparent := h _ _ _ (hrun.mono fun _ _ _ hs => hs.1)
  have heq := htransparent.translate_eq rfl 8 .read 1
  have hpa := congrArg (fun r : Except (BitVec 8) (BitVec 64) => r.toOption) heq
  exact absurd hpa (by decide +kernel)

end V64.Interp
