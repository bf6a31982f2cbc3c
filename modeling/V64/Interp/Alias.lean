import V64.Interp.ArchWalk

/-!
# Addresses out of range alias

`translate` picks the table root by bit 55 of the address and indexes the tables
by the bits below the top of the first index. It never looks at the bits between.

* `translate_alias`: two addresses that agree on those bits translate alike, with
  or without a TLB, in every state of a run whose TLB is not stale.
* `not_fault_out_of_range`: so an address out of range for its half may translate.
-/

namespace V64.Interp

open V64.Cpu V64.Decoder V64.Platform Runs

/-- `va` and `va'` are in one half and have the same bits below the top of the
    first index of a region of size `tsz`. -/
def SameIndex (tsz : ℕ) (va va' : BitVec 64) : Prop :=
  va.getLsbD 55 = va'.getLsbD 55 ∧
    ∀ i < archShift (archLeft tsz) + 9, va.getLsbD i = va'.getLsbD i

/-! ## A walk sees the index fields -/

theorem blockOffset_congr {left : ℕ} (hleft : left ≤ 3) {va va' : BitVec 64}
    (h : ∀ i < archShift left, va.getLsbD i = va'.getLsbD i) :
    va &&& (((1 <<< levelShift (levelOf left) : ℕ) : BitVec 64) - (1 : BitVec 64)) =
      va' &&& (((1 <<< levelShift (levelOf left) : ℕ) : BitVec 64) - (1 : BitVec 64)) := by
  ext i hi
  have hblock := getLsbD_blockMask hleft hi
  rw [← BitVec.getLsbD_eq_getElem, ← BitVec.getLsbD_eq_getElem, BitVec.getLsbD_and,
    BitVec.getLsbD_and, hblock]
  by_cases hshift : i < archShift left
  · rw [h i hshift]
  · simp [hshift]

theorem walkStep_congr_low {left : ℕ} (hleft : left ≤ 3) {va va' : BitVec 64}
    (h : ∀ i < archShift left, va.getLsbD i = va'.getLsbD i) (desc : BitVec 64) (tp : TablePerms) :
    walkStep (levelOf left) desc va tp = walkStep (levelOf left) desc va' tp := by
  unfold walkStep
  dsimp only
  rw [blockOffset_congr hleft h]

theorem descAddr_congr_low {left : ℕ} (hleft : left ≤ 3) {va va' : BitVec 64}
    (h : ∀ i < archShift left + 9, va.getLsbD i = va'.getLsbD i) (tableBase : BitVec 64) :
    descAddr (levelOf left) tableBase va = descAddr (levelOf left) tableBase va' := by
  have hindex : (va >>> archShift left) &&& 0x1ff = (va' >>> archShift left) &&& 0x1ff := by
    ext i hi
    have hmask : ∀ i : Fin 64, (0x1ff#64).getLsbD i.val = decide (i.val < 9) := by decide
    have hm : (0x1ff : BitVec 64).getLsbD i = decide (i < 9) := hmask ⟨i, hi⟩
    rw [← BitVec.getLsbD_eq_getElem, ← BitVec.getLsbD_eq_getElem, BitVec.getLsbD_and,
      BitVec.getLsbD_and, hm, BitVec.getLsbD_ushiftRight, BitVec.getLsbD_ushiftRight]
    by_cases h9 : i < 9
    · rw [h (archShift left + i) (by omega)]
    · simp [h9]
  rw [descAddr, descAddr, levelShift_levelOf hleft]
  exact congrArg (fun idx => tableBase + idx * 8) hindex

theorem walkLoop_congr_low {M : Type} [GuestMem M] {left : ℕ} (hleft : left ≤ 3)
    {va va' : BitVec 64} (h : ∀ i < archShift left + 9, va.getLsbD i = va'.getLsbD i) (mem : M)
    (tableBase : BitVec 64) (tp : TablePerms) :
    walkLoop va left mem tableBase tp = walkLoop va' left mem tableBase tp := by
  induction left generalizing mem tableBase tp with
  | zero =>
    rw [walkLoop, walkLoop, descAddr_congr_low hleft h,
      walkStep_congr_low hleft fun i hi => h i (by omega)]
  | succ left ih =>
    have hlow : ∀ i < archShift left + 9, va.getLsbD i = va'.getLsbD i :=
      fun i hi => h i (by unfold archShift at hi ⊢; omega)
    rw [walkLoop, walkLoop, descAddr_congr_low hleft h,
      walkStep_congr_low hleft fun i hi => h i (by omega)]
    simp only [ih (by omega) hlow]

/-! ## A translation -/

/-- The region size that `va` selects is in `16..=39`. -/
def RegionWide (cpu : CpuState) (va : BitVec 64) : Prop :=
  16 ≤ (region cpu va).2.toNat ∧ (region cpu va).2.toNat ≤ 39

theorem region_congr_half (cpu : CpuState) {va va' : BitVec 64}
    (h : va.getLsbD 55 = va'.getLsbD 55) : region cpu va = region cpu va' := by
  unfold region
  rw [shiftRight_and_one_beq_one, shiftRight_and_one_beq_one, h]

variable {M : Type} [GuestMem M]

theorem walkAt_alias {cpu : CpuState} {va va' : BitVec 64} (hwide : RegionWide cpu va)
    (h : SameIndex (region cpu va).2.toNat va va') (mem : M) :
    walkAt cpu mem va = walkAt cpu mem va' := by
  have hleft : (3 - startingLevel (region cpu va).2).toNat =
      archLeft (region cpu va).2.toNat := by
    rw [← left_eq hwide, BitVec.ofNat_toNat, BitVec.setWidth_eq]
  unfold walkAt walk
  rw [← region_congr_half cpu h.1, hleft, walkLoop_congr_low (archLeft_le hwide.1) h.2]

theorem leafResult_alias {tsz : ℕ} {va va' : BitVec 64} (h : SameIndex tsz va va') (el : Fin 4)
    (leaf : Leaf) (access : Access) :
    leafResult el leaf va access = leafResult el leaf va' access := by
  have hoffset : va &&& pageMask = va' &&& pageMask := by
    ext i hi
    have hmask : ∀ i : Fin 64, pageMask.getLsbD i.val = decide (i.val < 12) := by decide
    rw [← BitVec.getLsbD_eq_getElem, ← BitVec.getLsbD_eq_getElem, BitVec.getLsbD_and,
      BitVec.getLsbD_and, hmask ⟨i, hi⟩]
    by_cases h12 : i < 12
    · rw [h.2 i (by unfold archShift; omega)]
    · simp [h12]
  rw [leafResult, leafResult, hoffset]

theorem translateUncached_alias {g : Guest M} (hon : mmuEnabled g.cpu = true) {va va' : BitVec 64}
    (hwide : RegionWide g.cpu va) (h : SameIndex (region g.cpu va).2.toNat va va')
    (access : Access) (el : Fin 4) :
    translateUncached g va access el = translateUncached g va' access el := by
  unfold translateUncached
  rw [walkAt_alias hwide h, hon]
  cases walkAt g.cpu g.mem va' with
  | error fsc => rfl
  | ok leaf => exact leafResult_alias h el leaf access

/-- In every state of a run whose translations fall in regions of size `16..=51`,
    with the MMU on and no change of the tables since the last invalidation,
    addresses that agree on bit 55 and below the top of the first index translate
    alike, whatever was translated before. -/
theorem translate_alias {D : Type} [MmioDevice D] {mem : Bus D} {ops : List XlateOp}
    {s : XlateState D}
    (hrun : Run (fun s op s' => XlateStep s op s' ∧ op.RegionOk s) (XlateState.reset mem) ops s)
    (hfresh : s.stale = false) (hon : mmuEnabled s.guest.cpu = true) {va va' : BitVec 64}
    (hwide : RegionWide s.guest.cpu va) (h : SameIndex (region s.guest.cpu va).2.toNat va va')
    (access : Access) (el : Fin 4) :
    (translate s.guest va access el).1 = (translate s.guest va' access el).1 := by
  have hreset : Valid (XlateState.reset mem) := Valid.of_isEmpty Tlb.isEmpty_new
  have hvalid : Valid s := hrun.invariant (fun _ _ _ hv h => hv.step h.1 h.2) hreset
  have heq := hvalid.transparent.translate_eq hfresh
  rw [heq, heq]
  exact translateUncached_alias hon hwide h access el

/-! ## A run -/

/-- The guest with both region sizes 39 that has translated address 0. -/
def aliasState : XlateState Empty := ⟨(translate (tableGuest 0x270027) 0 .read 1).2, false⟩

theorem aliasState_run :
    Run (fun s op s' => XlateStep s op s' ∧ op.RegionOk s) (XlateState.reset tableRam)
      (tableOps 0x270027) aliasState := by
  have htables : TablesInRam (tableGuest 0x270027) 0 :=
    walkInRam_of_first ⟨0, false, false, false, false, 2⟩ (by decide +kernel) (by decide +kernel)
  exact tableOps_run _ _ (by decide) htables (fun _ _ _ => trivial)
    fun _ => ⟨by decide +kernel, by decide +kernel⟩

/-- The address with bit 60 set translates as address 0 does. -/
theorem translate_alias_bit60 :
    (translate aliasState.guest 0x1000000000000000 .read 1).1 =
      (translate aliasState.guest 0 .read 1).1 := by
  refine translate_alias aliasState_run rfl (by decide +kernel)
    ⟨by decide +kernel, by decide +kernel⟩ ⟨by decide, fun i hi => ?_⟩ .read 1
  have hlow : i < 60 := by
    have hsize : (region aliasState.guest.cpu 0x1000000000000000).2.toNat = 39 := by
      decide +kernel
    rw [hsize] at hi
    exact Nat.lt_of_lt_of_le hi (by decide)
  have hall : ∀ i : Fin 60, (0x1000000000000000#64).getLsbD i.val = (0#64).getLsbD i.val := by
    decide
  exact hall ⟨i, hlow⟩

/-- A translation fault, at any level. -/
def IsTranslationFault (r : Except (BitVec 8) (BitVec 64)) : Prop :=
  ∃ level : BitVec 8, level ≤ 3 ∧ r = .error (fscTranslation ||| level)

/-- An address out of range for its half need not fault. -/
theorem not_fault_out_of_range :
    ¬ ∀ (mem : Bus Empty) (ops : List XlateOp) (s : XlateState Empty),
      Run (fun s op s' => XlateStep s op s' ∧ op.RegionOk s) (XlateState.reset mem) ops s →
        s.stale = false → mmuEnabled s.guest.cpu = true → ∀ va, RegionWide s.guest.cpu va →
          ¬ InRange va (region s.guest.cpu va).2.toNat → ∀ access el,
            IsTranslationFault (translate s.guest va access el).1 := by
  intro h
  have hrange : ¬ InRange 0x1000000000000000
      (region aliasState.guest.cpu 0x1000000000000000).2.toNat := by
    intro hrange
    have hsize : (region aliasState.guest.cpu 0x1000000000000000).2.toNat = 39 := by
      decide +kernel
    rw [hsize] at hrange
    exact absurd (hrange 60 (by decide) (by decide)) (by decide)
  obtain ⟨level, -, hfault⟩ := h tableRam _ aliasState aliasState_run rfl (by decide +kernel)
    0x1000000000000000 ⟨by decide +kernel, by decide +kernel⟩ hrange .read 1
  have hnone : (translate aliasState.guest 0x1000000000000000 .read 1).1.toOption = none :=
    congrArg (fun r : Except (BitVec 8) (BitVec 64) => r.toOption) hfault
  exact absurd hnone (by decide +kernel)

end V64.Interp
