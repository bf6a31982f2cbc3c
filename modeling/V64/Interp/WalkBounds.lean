import V64.Interp.TlbTransparency

/-!
# How far a table walk goes

The starting level and the shift amounts of a walk come from unsigned
subtractions of T0SZ or T1SZ, which the guest writes freely.

* `walkBounded_iff_regionOk`: a walk stays within four reads, at levels 0 to 3
  and without wrapping, exactly when its region size is in `16..=51`.
* `not_walkBounded`: with T0SZ = 53 the subtractions wrap.
* `walk_counted`: counting the reads does not change the walk.
-/

namespace V64.Interp

open V64.Cpu V64.Platform

/-! ## Counting reads -/

/-- A memory with the number of descriptors read from it. -/
structure Counted (M : Type) where
  mem : M
  reads : ℕ

section Counting

variable {M : Type} [GuestMem M]

/-- Only 64-bit reads are counted: a walk makes no other access. -/
instance : GuestMem (Counted M) where
  readU8 c addr := let r := GuestMem.readU8 c.mem addr; (r.1, { c with mem := r.2 })
  readU16 c addr := let r := GuestMem.readU16 c.mem addr; (r.1, { c with mem := r.2 })
  readU32 c addr := let r := GuestMem.readU32 c.mem addr; (r.1, { c with mem := r.2 })
  readU64 c addr := let r := GuestMem.readU64 c.mem addr; (r.1, ⟨r.2, c.reads + 1⟩)
  writeU8 c addr val := { c with mem := GuestMem.writeU8 c.mem addr val }
  writeU16 c addr val := { c with mem := GuestMem.writeU16 c.mem addr val }
  writeU32 c addr val := { c with mem := GuestMem.writeU32 c.mem addr val }
  writeU64 c addr val := { c with mem := GuestMem.writeU64 c.mem addr val }

theorem walkLoop_counted (va : BitVec 64) (left : ℕ) (c : Counted M) (tableBase : BitVec 64)
    (tp : TablePerms) :
    (walkLoop va left c tableBase tp).1 = (walkLoop va left c.mem tableBase tp).1 ∧
      (walkLoop va left c tableBase tp).2.mem = (walkLoop va left c.mem tableBase tp).2 := by
  induction left generalizing c tableBase tp with
  | zero =>
    rw [walkLoop, walkLoop]
    dsimp only [GuestMem.readU64]
    split <;> exact ⟨rfl, rfl⟩
  | succ left ih =>
    rw [walkLoop, walkLoop]
    dsimp only [GuestMem.readU64]
    split
    · exact ⟨rfl, rfl⟩
    · exact ⟨rfl, rfl⟩
    · exact ih _ _ _

/-- The walk of a counted memory is the walk of the memory. -/
theorem walk_counted (mem : M) (tableBase va : BitVec 64) (tsz : BitVec 32) :
    (walk (Counted.mk mem 0) tableBase va tsz).1 = (walk mem tableBase va tsz).1 ∧
      (walk (Counted.mk mem 0) tableBase va tsz).2.mem = (walk mem tableBase va tsz).2 :=
  walkLoop_counted _ _ _ _ _

/-! ## The bounds -/

/-- The levels at which `walkLoop` reads a descriptor, in order. -/
def walkLevels (va : BitVec 64) : ℕ → M → BitVec 64 → TablePerms → List (BitVec 32)
  | left, mem, tableBase, tp =>
    let r := GuestMem.readU64 mem (descAddr (levelOf left) tableBase va)
    levelOf left ::
      match walkStep (levelOf left) r.1 va tp with
      | .table base tp =>
        match left with
        | 0 => []
        | left + 1 => walkLevels va left r.2 base tp
      | _ => []

/-- The subtractions of `starting_level` do not wrap. -/
def StartOk (tsz : BitVec 32) : Prop :=
  tsz ≤ 64 ∧ 12 ≤ 64 - tsz ∧ divCeil (64 - tsz - 12) 9 ≤ 4

instance (tsz : BitVec 32) : Decidable (StartOk tsz) := inferInstanceAs (Decidable (_ ∧ _))

/-- Neither `39 - level * 9` nor the shifts by it under- or overflow. -/
def ShiftOk (level : BitVec 32) : Prop :=
  level.toNat * 9 ≤ 39 ∧ levelShift level = 39 - level.toNat * 9

instance (level : BitVec 32) : Decidable (ShiftOk level) := inferInstanceAs (Decidable (_ ∧ _))

/-- A walk reads at most four descriptors, at levels 0 to 3, and no subtraction
    or shift of it wraps. -/
structure WalkBounded (mem : M) (tableBase va : BitVec 64) (tsz : BitVec 32) : Prop where
  start : StartOk tsz
  reads : (walk (Counted.mk mem 0) tableBase va tsz).2.reads ≤ 4
  levels : ∀ level ∈ walkLevels va (3 - startingLevel tsz).toNat mem tableBase TablePerms.default,
    level ≤ 3 ∧ ShiftOk level

theorem reads_walkLoop (va : BitVec 64) (left : ℕ) (c : Counted M) (tableBase : BitVec 64)
    (tp : TablePerms) :
    (walkLoop va left c tableBase tp).2.reads ≤ c.reads + (left + 1) := by
  induction left generalizing c tableBase tp with
  | zero =>
    rw [walkLoop]
    dsimp only [GuestMem.readU64]
    split <;> exact Nat.le_refl _
  | succ left ih =>
    rw [walkLoop]
    dsimp only [GuestMem.readU64]
    split
    · exact Nat.add_le_add_left (by omega) _
    · exact Nat.add_le_add_left (by omega) _
    · refine Nat.le_trans (ih _ _ _) ?_
      show c.reads + 1 + (left + 1) ≤ c.reads + (left + 1 + 1)
      omega

theorem mem_walkLevels {va : BitVec 64} {left : ℕ} {mem : M} {tableBase : BitVec 64}
    {tp : TablePerms} {level : BitVec 32} (h : level ∈ walkLevels va left mem tableBase tp) :
    ∃ k, k ≤ left ∧ level = levelOf k := by
  induction left generalizing mem tableBase tp with
  | zero =>
    rw [walkLevels] at h
    dsimp only at h
    rcases List.mem_cons.mp h with rfl | htail
    · exact ⟨0, Nat.le_refl _, rfl⟩
    · split at htail <;> cases htail
  | succ left ih =>
    rw [walkLevels] at h
    dsimp only at h
    rcases List.mem_cons.mp h with rfl | htail
    · exact ⟨left + 1, Nat.le_refl _, rfl⟩
    · split at htail
      · obtain ⟨k, hk, rfl⟩ := ih htail
        exact ⟨k, Nat.le_succ_of_le hk, rfl⟩
      · cases htail

theorem levelOf_bounded {k : ℕ} (h : k ≤ 3) : levelOf k ≤ 3 ∧ ShiftOk (levelOf k) := by
  have hall : ∀ k : Fin 4, levelOf k ≤ 3 ∧ ShiftOk (levelOf k) := by decide
  exact hall ⟨k, by omega⟩

theorem startOk_of_regionOk {tsz : BitVec 32} (h : 16 ≤ tsz.toNat ∧ tsz.toNat ≤ 51) :
    StartOk tsz := by
  have hall : ∀ n : Fin 52, 16 ≤ n.val → StartOk (BitVec.ofNat 32 n.val) := by decide
  have htsz : tsz = BitVec.ofNat 32 tsz.toNat := by simp
  rw [htsz]
  exact hall ⟨tsz.toNat, by omega⟩ h.1

/-- Of the six-bit sizes, those that start without wrapping at level 3 or above. -/
theorem regionOk_of_start {tsz : BitVec 32} (hlt : tsz.toNat < 64) (hstart : StartOk tsz)
    (hlevel : levelOf (3 - startingLevel tsz).toNat ≤ 3) : 16 ≤ tsz.toNat ∧ tsz.toNat ≤ 51 := by
  have hall : ∀ n : Fin 64, StartOk (BitVec.ofNat 32 n.val) →
      levelOf (3 - startingLevel (BitVec.ofNat 32 n.val)).toNat ≤ 3 →
        16 ≤ n.val ∧ n.val ≤ 51 := by decide
  have htsz : tsz = BitVec.ofNat 32 tsz.toNat := by simp
  rw [htsz] at hstart hlevel
  exact hall ⟨tsz.toNat, hlt⟩ hstart hlevel

/-- A region size is a six-bit field of TCR_EL1. -/
theorem region_size_lt (cpu : CpuState) (va : BitVec 64) : (region cpu va).2.toNat < 64 := by
  have hmask (v : BitVec 64) : ((v &&& 0x3f).setWidth 32).toNat < 64 := by
    rw [BitVec.toNat_setWidth, BitVec.toNat_and]
    exact Nat.lt_of_le_of_lt (Nat.mod_le _ _) (Nat.lt_of_le_of_lt Nat.and_le_right (by decide))
  unfold region
  split_ifs
  · exact hmask _
  · exact hmask _

/-- A walk is bounded exactly when the region size that its address selects is
    in `16..=51`, whatever the tables hold. -/
theorem walkBounded_iff_regionOk (cpu : CpuState) (mem : M) (va : BitVec 64) :
    WalkBounded mem (region cpu va).1 va (region cpu va).2 ↔ RegionOk cpu va := by
  constructor
  · intro h
    have hfirst := h.levels (levelOf (3 - startingLevel (region cpu va).2).toNat)
      (by rw [walkLevels]; exact List.mem_cons_self)
    exact regionOk_of_start (region_size_lt cpu va) h.start hfirst.1
  · intro h
    have hleft := left_of_regionOk h
    refine ⟨startOk_of_regionOk h, ?_, ?_⟩
    · have hreads := reads_walkLoop va (3 - startingLevel (region cpu va).2).toNat
        (Counted.mk mem 0) (region cpu va).1 TablePerms.default
      refine Nat.le_trans hreads ?_
      show 0 + ((3 - startingLevel (region cpu va).2).toNat + 1) ≤ 4
      omega
    · intro level hlevel
      obtain ⟨k, hk, rfl⟩ := mem_walkLevels hlevel
      exact levelOf_bounded (Nat.le_trans hk hleft)

end Counting

/-- The guest may write T0SZ = 53, for which `va_bits - 12` wraps. -/
theorem not_walkBounded :
    ¬ ∀ (tcr : BitVec 64) (mem : Bus Empty) (va : BitVec 64),
      let cpu := writeSysreg CpuState.new keyTcrEl1 tcr
      WalkBounded mem (region cpu va).1 va (region cpu va).2 := by
  intro h
  exact absurd (h 53 tableRam 0).start (by decide)

end V64.Interp
