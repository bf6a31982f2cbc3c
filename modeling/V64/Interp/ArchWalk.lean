import V64.Interp.Descriptor

/-!
# The walk and the architected translation tables

`archWalk` reads the tables as the architecture defines them for the 4 KiB
granule: each level is indexed by the bits of the address below the configured
width, and the meaning of a descriptor depends on its level. `walk`
(`crates/interp/src/mmu.rs`) differs from it in two ways.

* `walk_architected`: they agree on every memory without a reserved descriptor on
  the way exactly when the top-level index is not partial, or is, in the lower
  half; and then they agree on a memory exactly when it has none.
* `not_walk_architected`: a reserved descriptor at level 3 maps a page.
-/

namespace V64.Interp

open V64.Cpu V64.Decoder V64.Platform

/-! ## The architected walk -/

/-- What the architecture makes of a descriptor. -/
inductive DescKind where
  | invalid
  | table
  | leaf
  deriving DecidableEq

/-- The kind of a descriptor with `left` levels below its own (level `3 - left`),
    by its bits[1:0]: 11 is a page at level 3 and a table above it, 01 a block at
    levels 1 and 2 and reserved at levels 0 and 3. -/
def archKind (left : ℕ) (desc : BitVec 64) : DescKind :=
  match desc.getLsbD 1, desc.getLsbD 0 with
  | _, false => .invalid
  | true, true => if left = 0 then .leaf else .table
  | false, true => if left = 1 ∨ left = 2 then .leaf else .invalid

/-- The lowest bit of the index at that level. -/
def archShift (left : ℕ) : ℕ := 12 + 9 * left

/-- The index at that level: at most nine bits, none from bit `width` up. -/
def archIndex (width left : ℕ) (va : BitVec 64) : BitVec 64 :=
  (va.extractLsb' (archShift left) (min 9 (width - archShift left))).setWidth 64

/-- The output address of a leaf, joined with the address bits inside its block:
    `desc<47:shift> : va<shift-1:12> : Zeros(12)`. -/
def archPage (left : ℕ) (desc va : BitVec 64) : BitVec 64 :=
  (desc.extractLsb' (archShift left) (48 - archShift left) ++
    (va.extractLsb' 12 (9 * left) ++ 0#12)).setWidth 64

/-- The next table of a table descriptor: `desc<47:12> : Zeros(12)`. -/
def archTable (desc : BitVec 64) : BitVec 64 := (desc.extractLsb' 12 36 ++ 0#12).setWidth 64

/-- The fault status code of a fault at that level. -/
def archFault (fsc : BitVec 8) (left : ℕ) : BitVec 8 := fsc ||| BitVec.ofNat 8 (3 - left)

/-- The levels below the first one of a region of `64 - tsz` bits. -/
def archLeft (tsz : ℕ) : ℕ := (51 - tsz) / 9

variable {M : Type} [GuestMem M]

/-- The page address that the tables at `tableBase` give `va`, or a fault. -/
def archLoop (width : ℕ) (va : BitVec 64) :
    ℕ → M → BitVec 64 → Except (BitVec 8) (BitVec 64)
  | left, mem, tableBase =>
    let r := GuestMem.readU64 mem (tableBase + archIndex width left va * 8)
    match archKind left r.1 with
    | .invalid => .error (archFault fscTranslation left)
    | .leaf =>
      if r.1.getLsbD 10 then .ok (archPage left r.1 va)
      else .error (archFault fscAccessFlag left)
    | .table =>
      match left with
      | 0 => .error 0
      | left + 1 => archLoop width va left r.2 (archTable r.1)

/-- The architected walk of a region of size `tsz` from the root in `ttbr`. -/
def archWalk (mem : M) (ttbr va : BitVec 64) (tsz : ℕ) : Except (BitVec 8) (BitVec 64) :=
  archLoop (64 - tsz) va (archLeft tsz) mem (archTable ttbr)

/-- Bits[1:0] of the descriptor are 01, at level 0 or at level 3. -/
def Reserved (left : ℕ) (desc : BitVec 64) : Prop :=
  (desc.getLsbD 0 = true ∧ desc.getLsbD 1 = false) ∧ (left = 0 ∨ left = 3)

/-- The architected walk comes to a reserved descriptor. -/
def ReservedLoop (width : ℕ) (va : BitVec 64) : ℕ → M → BitVec 64 → Prop
  | left, mem, tableBase =>
    let r := GuestMem.readU64 mem (tableBase + archIndex width left va * 8)
    Reserved left r.1 ∨
      match left with
      | 0 => False
      | left + 1 =>
        archKind (left + 1) r.1 = .table ∧ ReservedLoop width va left r.2 (archTable r.1)

/-- A reserved descriptor lies on the way of the architected walk. -/
def ReservedOnWay (mem : M) (ttbr va : BitVec 64) (tsz : ℕ) : Prop :=
  ReservedLoop (64 - tsz) va (archLeft tsz) mem (archTable ttbr)

/-- `walk` gives the architected page address, or the architected fault. -/
def Architected (mem : M) (ttbr va : BitVec 64) (tsz : ℕ) : Prop :=
  (walk mem (ttbr &&& oaMask) va (BitVec.ofNat 32 tsz)).1.map Leaf.paPage = archWalk mem ttbr va tsz

/-- `va` is in range for its half: from bit `64 - tsz` up all bits are bit 55. -/
def InRange (va : BitVec 64) (tsz : ℕ) : Prop :=
  ∀ i, 64 - tsz ≤ i → i < 64 → va.getLsbD i = va.getLsbD 55

/-- The lower half, or a region size whose top-level index has all nine bits. -/
def FullIndex (va : BitVec 64) (tsz : ℕ) : Prop := va.getLsbD 55 = false ∨ (52 - tsz) % 9 = 0

/-! ## Addresses -/

theorem getLsbD_oaMask {i : ℕ} (h : i < 64) : oaMask.getLsbD i = decide (12 ≤ i ∧ i < 48) := by
  have hall : ∀ i : Fin 64, oaMask.getLsbD i.val = decide (12 ≤ i.val ∧ i.val < 48) := by decide
  exact hall ⟨i, h⟩

theorem getLsbD_archTable (desc : BitVec 64) {i : ℕ} (h : i < 64) :
    (archTable desc).getLsbD i = (decide (12 ≤ i ∧ i < 48) && desc.getLsbD i) := by
  rw [archTable, BitVec.getLsbD_setWidth, BitVec.getLsbD_append, BitVec.getLsbD_extractLsb']
  by_cases h12 : i < 12
  · simp [h12, Nat.not_le.mpr h12]
  · have hsum : 12 + (i - 12) = i := by omega
    have hiff : i - 12 < 36 ↔ i < 48 := by omega
    simp [h, h12, Nat.le_of_not_lt h12, hsum, hiff]

theorem and_oaMask (desc : BitVec 64) : desc &&& oaMask = archTable desc := by
  ext i hi
  rw [← BitVec.getLsbD_eq_getElem, ← BitVec.getLsbD_eq_getElem, getLsbD_archTable desc hi,
    BitVec.getLsbD_and, getLsbD_oaMask hi, Bool.and_comm]

theorem toNat_archTable_lt (desc : BitVec 64) : (archTable desc).toNat < 2 ^ 48 := by
  rw [archTable, BitVec.toNat_setWidth]
  exact Nat.lt_of_le_of_lt (Nat.mod_le _ _) (BitVec.isLt _)

theorem getLsbD_blockMask {left i : ℕ} (hleft : left ≤ 3) (hi : i < 64) :
    (((1 <<< levelShift (levelOf left) : ℕ) : BitVec 64) - 1).getLsbD i =
      decide (i < archShift left) := by
  have hall : ∀ (left : Fin 4) (i : Fin 64),
      (((1 <<< levelShift (levelOf left.val) : ℕ) : BitVec 64) - 1).getLsbD i.val =
        decide (i.val < archShift left.val) := by decide
  exact hall ⟨left, by omega⟩ ⟨i, hi⟩

theorem getLsbD_pageMask {i : ℕ} (h : i < 64) : (~~~pageMask).getLsbD i = decide (12 ≤ i) := by
  have hall : ∀ i : Fin 64, (~~~pageMask).getLsbD i.val = decide (12 ≤ i.val) := by decide
  exact hall ⟨i, h⟩

theorem getLsbD_archPage (left : ℕ) (desc va : BitVec 64) {i : ℕ} (h : i < 64) :
    (archPage left desc va).getLsbD i =
      (decide (12 ≤ i) && if i < archShift left then va.getLsbD i
        else decide (i < 48) && desc.getLsbD i) := by
  rw [archPage, BitVec.getLsbD_setWidth, BitVec.getLsbD_append, BitVec.getLsbD_append,
    BitVec.getLsbD_extractLsb', BitVec.getLsbD_extractLsb']
  unfold archShift
  rcases Nat.lt_or_ge i 12 with h12 | h12
  · simp [h12, Nat.not_le.mpr h12, show i < 9 * left + 12 by omega]
  · rcases Nat.lt_or_ge i (12 + 9 * left) with hshift | hshift
    · simp [h, h12, Nat.not_lt.mpr h12, hshift, show i < 9 * left + 12 by omega,
        show i - 12 < 9 * left by omega, show 12 + (i - 12) = i by omega]
    · simp [h, h12, Nat.not_lt.mpr hshift, show ¬ i < 9 * left + 12 by omega,
        show 12 + 9 * left + (i - (9 * left + 12)) = i by omega,
        show i - (9 * left + 12) < 48 - (12 + 9 * left) ↔ i < 48 by omega]

theorem leafPage_eq {left : ℕ} (hleft : left ≤ 3) (desc va : BitVec 64) :
    leafPage (levelOf left) desc va = archPage left desc va := by
  ext i hi
  rw [← BitVec.getLsbD_eq_getElem, ← BitVec.getLsbD_eq_getElem, getLsbD_archPage _ _ _ hi,
    leafPage]
  simp only [BitVec.getLsbD_and, BitVec.getLsbD_or, BitVec.getLsbD_not, getLsbD_pageMask hi,
    getLsbD_oaMask hi, getLsbD_blockMask hleft hi, hi]
  by_cases hshift : i < archShift left
  · simp [hshift, Bool.and_comm]
  · by_cases h12 : 12 ≤ i <;> simp [hshift, h12, Bool.and_comm]

/-- The nine bits that `walk` takes are the architected index where no address bit
    above the width is among them. -/
theorem and_0x1ff_eq {width left : ℕ} {va : BitVec 64}
    (h : ∀ i, width ≤ i → i < archShift left + 9 → va.getLsbD i = false) :
    (va >>> archShift left) &&& 0x1ff = archIndex width left va := by
  ext i hi
  have hmask : ∀ i : Fin 64, (0x1ff#64).getLsbD i.val = decide (i.val < 9) := by decide
  have hm : (0x1ff : BitVec 64).getLsbD i = decide (i < 9) := hmask ⟨i, hi⟩
  rw [← BitVec.getLsbD_eq_getElem, ← BitVec.getLsbD_eq_getElem, BitVec.getLsbD_and, hm,
    BitVec.getLsbD_ushiftRight, archIndex, BitVec.getLsbD_setWidth, BitVec.getLsbD_extractLsb']
  by_cases h9 : i < 9
  · by_cases hw : archShift left + i < width
    · simp [h9, hi, show i < width - archShift left by omega]
    · simp [h9, h (archShift left + i) (by omega) (by omega)]
  · simp [h9]

theorem descAddr_eq {width left : ℕ} {va : BitVec 64} (hleft : left ≤ 3)
    (hindex : (va >>> archShift left) &&& 0x1ff = archIndex width left va)
    (tableBase : BitVec 64) :
    descAddr (levelOf left) tableBase va = tableBase + archIndex width left va * 8 := by
  rw [descAddr, levelShift_levelOf hleft, ← hindex]
  rfl

/-! ## One descriptor -/

theorem endsWalk_iff {left : ℕ} (hleft : left ≤ 3) (desc : BitVec 64) :
    EndsWalk (levelOf left) desc ↔ left = 0 ∨ desc.getLsbD 1 = false := by
  have hall : ∀ left : Fin 4, levelOf left.val = 3 ↔ left.val = 0 := by decide
  have h := hall ⟨left, by omega⟩
  rw [EndsWalk, h]

theorem fault_eq {left : ℕ} (hleft : left ≤ 3) (fsc : BitVec 8) :
    fsc ||| (levelOf left).setWidth 8 = archFault fsc left := by
  have hall : ∀ left : Fin 4, (levelOf left.val).setWidth 8 = BitVec.ofNat 8 (3 - left.val) := by
    decide
  have h := hall ⟨left, by omega⟩
  rw [archFault, ← h]

/-- No access-flag fault has the code of a translation fault. -/
theorem archFault_ne {left : ℕ} (hleft : left ≤ 3) :
    archFault fscAccessFlag left ≠ archFault fscTranslation left := by
  have hall : ∀ left : Fin 4,
      archFault fscAccessFlag left.val ≠ archFault fscTranslation left.val := by decide
  exact hall ⟨left, by omega⟩

theorem archKind_invalid {left : ℕ} {desc : BitVec 64} (h : desc.getLsbD 0 = false) :
    archKind left desc = .invalid := by
  rw [archKind, h]

theorem archKind_reserved {left : ℕ} {desc : BitVec 64} (h : Reserved left desc) :
    archKind left desc = .invalid := by
  obtain ⟨⟨h0, h1⟩, hleft⟩ := h
  have hblock : ¬ (left = 1 ∨ left = 2) := by omega
  rw [archKind, h0, h1]
  exact if_neg hblock

theorem archKind_leaf {left : ℕ} (hleft : left ≤ 3) {desc : BitVec 64}
    (h0 : desc.getLsbD 0 = true) (hends : left = 0 ∨ desc.getLsbD 1 = false)
    (hres : ¬ Reserved left desc) : archKind left desc = .leaf := by
  rw [archKind, h0]
  cases h1 : desc.getLsbD 1 with
  | true =>
    have hzero : left = 0 := hends.resolve_right (by simp [h1])
    exact if_pos hzero
  | false =>
    have hne : ¬ (left = 0 ∨ left = 3) := fun h => hres ⟨⟨h0, h1⟩, h⟩
    have hblock : left = 1 ∨ left = 2 := by omega
    exact if_pos hblock

theorem archKind_table {left : ℕ} {desc : BitVec 64} (h0 : desc.getLsbD 0 = true)
    (hends : ¬ (left = 0 ∨ desc.getLsbD 1 = false)) : archKind left desc = .table := by
  have h1 : desc.getLsbD 1 = true := by
    rw [← Bool.not_eq_false]
    exact fun h => hends (.inr h)
  rw [archKind, h0, h1]
  exact if_neg fun h => hends (.inl h)

/-- How `walkStep` and the architecture see one descriptor. -/
inductive StepCase (left : ℕ) (desc va : BitVec 64) (tp : TablePerms) : Prop where
  | reserved (hres : Reserved left desc) (hkind : archKind left desc = .invalid)
      (hstep : walkStep (levelOf left) desc va tp = .fault (archFault fscAccessFlag left) ∨
        ∃ leaf, walkStep (levelOf left) desc va tp = .leaf leaf)
  | invalid (hres : ¬ Reserved left desc) (hkind : archKind left desc = .invalid)
      (hstep : walkStep (levelOf left) desc va tp = .fault (archFault fscTranslation left))
  | noAccess (hres : ¬ Reserved left desc) (hkind : archKind left desc = .leaf)
      (haf : desc.getLsbD 10 = false)
      (hstep : walkStep (levelOf left) desc va tp = .fault (archFault fscAccessFlag left))
  | leaf (hres : ¬ Reserved left desc) (hkind : archKind left desc = .leaf)
      (haf : desc.getLsbD 10 = true) (leaf : Leaf) (hpage : leaf.paPage = archPage left desc va)
      (hstep : walkStep (levelOf left) desc va tp = .leaf leaf)
  | table (hres : ¬ Reserved left desc) (hleft : left ≠ 0) (hkind : archKind left desc = .table)
      (hstep : walkStep (levelOf left) desc va tp = .table (archTable desc) (tp.below desc))

theorem stepCase {left : ℕ} (hleft : left ≤ 3) (desc va : BitVec 64) (tp : TablePerms) :
    StepCase left desc va tp := by
  cases h0 : desc.getLsbD 0 with
  | false =>
    have hres : ¬ Reserved left desc := fun h => Bool.false_ne_true (h0.symm.trans h.1.1)
    refine .invalid hres (archKind_invalid h0) ?_
    rw [walkStep_invalid h0, fault_eq hleft]
  | true =>
    by_cases hends : left = 0 ∨ desc.getLsbD 1 = false
    · have hends' : EndsWalk (levelOf left) desc := (endsWalk_iff hleft desc).mpr hends
      cases haf : desc.getLsbD 10 with
      | false =>
        have hstep := walkStep_noAccess h0 hends' haf va tp
        rw [fault_eq hleft] at hstep
        by_cases hres : Reserved left desc
        · exact .reserved hres (archKind_reserved hres) (.inl hstep)
        · exact .noAccess hres (archKind_leaf hleft h0 hends hres) haf hstep
      | true =>
        have hstep := walkStep_leaf h0 hends' haf va tp
        by_cases hres : Reserved left desc
        · exact .reserved hres (archKind_reserved hres) (.inr ⟨_, hstep⟩)
        · exact .leaf hres (archKind_leaf hleft h0 hends hres) haf _ (leafPage_eq hleft desc va)
            hstep
    · have hres : ¬ Reserved left desc := fun h => hends (.inr h.1.2)
      have hends' := fun h => hends ((endsWalk_iff hleft desc).mp h)
      refine .table hres (fun h => hends (.inl h)) (archKind_table h0 hends) ?_
      rw [walkStep_table h0 hends', and_oaMask]

/-! ## Every chain -/

/-- Indexed alike, the two walks agree exactly when no reserved descriptor is on the way. -/
theorem map_walkLoop {width left : ℕ} {va : BitVec 64} (hleft : left ≤ 3)
    (hindex : ∀ k ≤ left, (va >>> archShift k) &&& 0x1ff = archIndex width k va) (mem : M)
    (tableBase : BitVec 64) (tp : TablePerms) :
    (walkLoop va left mem tableBase tp).1.map Leaf.paPage = archLoop width va left mem tableBase ↔
      ¬ ReservedLoop width va left mem tableBase := by
  induction left generalizing mem tableBase tp with
  | zero =>
    rw [walkLoop, archLoop, ReservedLoop, descAddr_eq hleft (hindex 0 (Nat.le_refl _))]
    dsimp only
    generalize GuestMem.readU64 mem (tableBase + archIndex width 0 va * 8) = r
    cases stepCase hleft r.1 va tp with
    | reserved hres hkind hstep =>
      rcases hstep with hstep | ⟨leaf, hstep⟩ <;> rw [hstep, hkind] <;>
        simp [hres, Except.map, archFault_ne hleft]
    | invalid hres hkind hstep =>
      rw [hstep, hkind]
      simp [hres, Except.map]
    | noAccess hres hkind haf hstep =>
      rw [hstep, hkind, haf]
      simp [hres, Except.map]
    | leaf hres hkind haf leaf hpage hstep =>
      rw [hstep, hkind, haf]
      simp [hres, Except.map, hpage]
    | table hres hne hkind hstep => exact absurd rfl hne
  | succ left ih =>
    rw [walkLoop, archLoop, ReservedLoop, descAddr_eq hleft (hindex (left + 1) (Nat.le_refl _))]
    dsimp only
    generalize GuestMem.readU64 mem (tableBase + archIndex width (left + 1) va * 8) = r
    cases stepCase hleft r.1 va tp with
    | reserved hres hkind hstep =>
      rcases hstep with hstep | ⟨leaf, hstep⟩ <;> rw [hstep, hkind] <;>
        simp [hres, Except.map, archFault_ne hleft]
    | invalid hres hkind hstep =>
      rw [hstep, hkind]
      simp [hres, Except.map]
    | noAccess hres hkind haf hstep =>
      rw [hstep, hkind, haf]
      simp [hres, Except.map]
    | leaf hres hkind haf leaf hpage hstep =>
      rw [hstep, hkind, haf]
      simp [hres, Except.map, hpage]
    | table hres hne hkind hstep =>
      rw [hstep, hkind]
      simp only [hres, false_or, true_and]
      exact ih (by omega) (fun k hk => hindex k (by omega)) _ _ _

/-! ## Every region -/

theorem left_eq {tsz : ℕ} (h : 16 ≤ tsz ∧ tsz ≤ 39) :
    (3 - startingLevel (BitVec.ofNat 32 tsz)).toNat = archLeft tsz := by
  have hall : ∀ n : Fin 40, 16 ≤ n.val →
      (3 - startingLevel (BitVec.ofNat 32 n.val)).toNat = archLeft n.val := by decide
  exact hall ⟨tsz, by omega⟩ h.1

theorem archLeft_le {tsz : ℕ} (h : 16 ≤ tsz) : archLeft tsz ≤ 3 := by
  unfold archLeft
  omega

/-- With a full index at the top, no index takes bits from the width up. -/
theorem index_of_fullIndex {tsz : ℕ} (htsz : 16 ≤ tsz ∧ tsz ≤ 39) {va : BitVec 64}
    (hrange : InRange va tsz) (hfull : FullIndex va tsz) {k : ℕ} (hk : k ≤ archLeft tsz) :
    (va >>> archShift k) &&& 0x1ff = archIndex (64 - tsz) k va := by
  refine and_0x1ff_eq fun i hwidth hi => ?_
  unfold archLeft at hk
  unfold archShift at hi
  rcases hfull with hlow | hnine
  · rw [hrange i hwidth (by omega), hlow]
  · omega

/-- RAM over the table at `tableBase` whose only descriptor is `desc`, in slot `j`. -/
def slotRam (tableBase j desc : BitVec 64) : Bus Empty where
  ram := {
    base := tableBase
    size := 0x1000
    bytes := Bytes.storeLe (fun _ => 0) (j.toNat * 8) 8 desc }
  devices := []

theorem readU64_slotRam {tableBase j desc : BitVec 64} (hbase : tableBase.toNat < 2 ^ 48)
    {i : BitVec 64} (hi : i.toNat < 512) :
    (GuestMem.readU64 (slotRam tableBase j desc) (tableBase + i * 8)).1 =
      if i = j then desc else 0 := by
  have hmul : (i * 8).toNat = i.toNat * 8 := by
    rw [BitVec.toNat_mul]
    exact Nat.mod_eq_of_lt (by show i.toNat * 8 < 2 ^ 64; omega)
  have hadd : (tableBase + i * 8).toNat = tableBase.toNat + i.toNat * 8 := by
    rw [BitVec.toNat_add, hmul]
    exact Nat.mod_eq_of_lt (by omega)
  have hwf : (slotRam tableBase j desc).RamWf := by
    show tableBase.toNat + 0x1000 < 2 ^ 64
    omega
  have hin : (slotRam tableBase j desc).InRam (tableBase + i * 8) 8 := by
    refine ⟨?_, ?_⟩
    · rw [hadd]
      exact Nat.le_add_right _ _
    · rw [hadd]
      show tableBase.toNat + i.toNat * 8 + 8 ≤ tableBase.toNat + 0x1000
      omega
  have hoff : (slotRam tableBase j desc).ram.off (tableBase + i * 8) = i.toNat * 8 := by
    show (tableBase + i * 8 - tableBase).toNat = _
    rw [BitVec.add_comm, BitVec.add_sub_cancel, hmul]
  have hload := Bus.load_of_inRam hwf (Nat.succ_pos 7) hin
  show ((slotRam tableBase j desc).load (tableBase + i * 8) 8).1 = _
  rw [hload, Memory.read, hoff]
  show Bytes.loadLe 64 (Bytes.storeLe (fun _ => 0) (j.toNat * 8) 8 desc) (i.toNat * 8) 8 = _
  split_ifs with hij
  · rw [hij, Bytes.loadLe_storeLe _ _ _ _ (by decide)]
    exact BitVec.setWidth_eq desc
  · have hne : i.toNat ≠ j.toNat := fun h => hij (BitVec.eq_of_toNat_eq h)
    rw [Bytes.loadLe_storeLe_disjoint _ _ _ _ _ _ (by omega)]
    ext k hk
    rw [← BitVec.getLsbD_eq_getElem, Bytes.getLsbD_loadLe]
    simp

theorem toNat_archIndex_lt (width left : ℕ) (va : BitVec 64) :
    (archIndex width left va).toNat < 512 := by
  rw [archIndex, BitVec.toNat_setWidth]
  refine Nat.lt_of_le_of_lt (Nat.mod_le _ _) (Nat.lt_of_lt_of_le (BitVec.isLt _) ?_)
  exact Nat.pow_le_pow_right (by decide) (Nat.min_le_left _ _)

/-- In the upper half a partial index differs from the nine bits that `walk` takes. -/
theorem index_ne {tsz : ℕ} (htsz : 16 ≤ tsz ∧ tsz ≤ 39) {va : BitVec 64} (hrange : InRange va tsz)
    (hfull : ¬ FullIndex va tsz) :
    archIndex (64 - tsz) (archLeft tsz) va ≠ (va >>> archShift (archLeft tsz)) &&& 0x1ff := by
  have hhigh : va.getLsbD 55 = true := by
    rw [← Bool.not_eq_false]
    exact fun h => hfull (.inl h)
  have hnine : (52 - tsz) % 9 ≠ 0 := fun h => hfull (.inr h)
  intro heq
  -- bit 8 of the nine lies above the width, where the address has ones
  have hbit := congrArg (fun v : BitVec 64 => v.getLsbD 8) heq
  have hva : va.getLsbD (archShift (archLeft tsz) + 8) = true := by
    rw [hrange _ (by unfold archShift archLeft; omega) (by unfold archShift archLeft; omega), hhigh]
  have hout : ¬ 8 < 64 - tsz - archShift (archLeft tsz) := by
    unfold archShift archLeft
    omega
  simp [archIndex, hva, hout] at hbit

theorem not_architected_slotRam {tsz : ℕ} (htsz : 16 ≤ tsz ∧ tsz ≤ 39) {va : BitVec 64}
    (hrange : InRange va tsz) (hfull : ¬ FullIndex va tsz) (ttbr : BitVec 64) :
    ∃ mem : Bus Empty, ¬ ReservedOnWay mem ttbr va tsz ∧ ¬ Architected mem ttbr va tsz := by
  set j := (va >>> archShift (archLeft tsz)) &&& 0x1ff with hj
  have hbase := toNat_archTable_lt ttbr
  have hleft := archLeft_le htsz.1
  have hjlt : j.toNat < 512 := by
    rw [hj, BitVec.toNat_and]
    exact Nat.lt_of_le_of_lt Nat.and_le_right (by decide)
  -- the architected walk reads an empty slot
  have harch : (GuestMem.readU64 (slotRam (archTable ttbr) j 0x401)
      (archTable ttbr + archIndex (64 - tsz) (archLeft tsz) va * 8)).1 = 0 := by
    rw [readU64_slotRam hbase (toNat_archIndex_lt _ _ _), if_neg (index_ne htsz hrange hfull)]
  -- `walk` reads the block
  have hwalk : (GuestMem.readU64 (slotRam (archTable ttbr) j 0x401)
      (descAddr (levelOf (archLeft tsz)) (archTable ttbr) va)).1 = 0x401 := by
    rw [descAddr, levelShift_levelOf hleft]
    change (GuestMem.readU64 _ (archTable ttbr + j * 8)).1 = _
    rw [readU64_slotRam hbase hjlt, if_pos rfl]
  refine ⟨slotRam (archTable ttbr) j 0x401, ?_, ?_⟩
  · rw [ReservedOnWay, ReservedLoop.eq_def]
    dsimp only
    rw [harch]
    cases archLeft tsz with
    | zero => simp [Reserved]
    | succ left => simp [Reserved, archKind]
  · intro h
    unfold Architected archWalk walk at h
    rw [left_eq htsz, and_oaMask, walkLoop, archLoop.eq_def] at h
    dsimp only at h
    have hends : EndsWalk (levelOf (archLeft tsz)) 0x401 := .inr (by decide)
    rw [hwalk, harch, walkStep_leaf (by decide) hends (by decide),
      archKind_invalid (by decide)] at h
    cases h

/-- For every root, region size in `16..=39` and address in range, `walk` is the
    architected walk on every memory without a reserved descriptor on the way if
    and only if the top-level index is full, and is it then on no other memory. -/
theorem walk_architected (ttbr : BitVec 64) {va : BitVec 64} {tsz : ℕ} (htsz : 16 ≤ tsz ∧ tsz ≤ 39)
    (hrange : InRange va tsz) :
    (FullIndex va tsz ↔
      ∀ (D : Type) [MmioDevice D] (mem : Bus D), ¬ ReservedOnWay mem ttbr va tsz →
        Architected mem ttbr va tsz) ∧
      (FullIndex va tsz →
        ∀ (D : Type) [MmioDevice D] (mem : Bus D),
          Architected mem ttbr va tsz ↔ ¬ ReservedOnWay mem ttbr va tsz) := by
  have hiff (hfull : FullIndex va tsz) (D : Type) [MmioDevice D] (mem : Bus D) :
      Architected mem ttbr va tsz ↔ ¬ ReservedOnWay mem ttbr va tsz := by
    have hmap := map_walkLoop (archLeft_le htsz.1)
      (fun k hk => index_of_fullIndex htsz hrange hfull hk) mem (archTable ttbr) TablePerms.default
    unfold Architected archWalk walk ReservedOnWay
    rw [left_eq htsz, and_oaMask]
    exact hmap
  refine ⟨⟨fun hfull D _ mem => (hiff hfull D mem).mpr, fun h => ?_⟩, hiff⟩
  by_contra hfull
  obtain ⟨mem, hres, hnot⟩ := not_architected_slotRam htsz hrange hfull ttbr
  exact hnot (h Empty mem hres)

/-- In the lower half every index is full, also of the smallest region. -/
theorem walk_architected_low :
    (FullIndex 0 39 ↔
      ∀ (D : Type) [MmioDevice D] (mem : Bus D), ¬ ReservedOnWay mem 0 0 39 →
        Architected mem 0 0 39) ∧
      (FullIndex 0 39 →
        ∀ (D : Type) [MmioDevice D] (mem : Bus D),
          Architected mem 0 0 39 ↔ ¬ ReservedOnWay mem 0 0 39) :=
  walk_architected 0 (by decide) fun i _ _ => by simp

/-- RAM at 0 with a level-2 table at 0 and a level-3 table at 0x1000, whose first
    descriptor has bits[1:0] = 01. -/
def reservedRam : Bus Empty where
  ram := {
    base := 0
    size := 0x2000
    bytes := Bytes.storeLe (Bytes.storeLe (fun _ => 0) 0 8 0x1003#64) 0x1000 8 0x401#64 }
  devices := []

/-- `walk` takes a reserved descriptor at level 3 for a page. -/
theorem not_walk_architected :
    ¬ ∀ (mem : Bus Empty) (ttbr va : BitVec 64) (tsz : ℕ), 16 ≤ tsz ∧ tsz ≤ 39 → InRange va tsz →
      Architected mem ttbr va tsz := by
  intro h
  have heq := h reservedRam 0 0 39 (by decide) fun i _ _ => by simp
  have hpage := congrArg (fun r : Except (BitVec 8) (BitVec 64) => r.toOption) heq
  exact absurd hpage (by decide +kernel)

end V64.Interp
