import V64.Interp.TlbTransparency

/-!
# Descriptors by their bits

The masks of `walk` (`crates/interp/src/mmu.rs`, lines 164 to 198) test single
bits of a descriptor. The names below are those of the comments there.

* `walkStep_invalid`, `walkStep_noAccess`, `walkStep_leaf`, `walkStep_table`: the four
  outcomes of a descriptor, each under a condition on its bits.
-/

namespace V64.Interp

open V64.Cpu

/-! ## Bits and masks -/

theorem and_bit_beq_zero (v : BitVec 64) (k : ℕ) (hk : k < 64) :
    (v &&& (1#64 <<< k) == 0) = !v.getLsbD k := by
  have hbit (i : ℕ) (hi : i < 64) : (v &&& (1#64 <<< k)).getLsbD i = (v.getLsbD i && (i == k)) := by
    rw [BitVec.getLsbD_and, BitVec.getLsbD_shiftLeft]
    by_cases h : i = k
    · subst h
      simp [hi]
    · rcases Nat.lt_or_gt_of_ne h with hlt | hgt
      · simp [hlt, h]
      · have hne : i - k ≠ 0 := by omega
        simp [h, hne]
  cases hv : v.getLsbD k with
  | false =>
    have hzero : v &&& (1#64 <<< k) = 0 := by
      ext i hi
      rw [← BitVec.getLsbD_eq_getElem, hbit i hi]
      by_cases h : i = k
      · subst h
        simp [hv]
      · simp [h]
    rw [hzero]
    rfl
  | true =>
    have hne : v &&& (1#64 <<< k) ≠ 0 := by
      intro h
      have h' := congrArg (fun w : BitVec 64 => w.getLsbD k) h
      simp [hbit k hk, hv] at h'
    exact beq_false_of_ne hne

theorem and_bit_bne_zero (v : BitVec 64) (k : ℕ) (hk : k < 64) :
    (v &&& (1#64 <<< k) != 0) = v.getLsbD k := by
  rw [bne, and_bit_beq_zero v k hk, Bool.not_not]

/-- `(desc >> 61) & 0b11`, one bit of it. -/
theorem apTable_bit (desc : BitVec 64) :
    ((desc >>> 61) &&& 0b11 &&& 0b01 != 0) = desc.getLsbD 61 ∧
      ((desc >>> 61) &&& 0b11 &&& 0b10 != 0) = desc.getLsbD 62 := by
  constructor
  · calc ((desc >>> 61) &&& 0b11 &&& 0b01 != 0)
        = ((desc >>> 61) &&& (1#64 <<< 0) != 0) := by rw [BitVec.and_assoc]; rfl
      _ = desc.getLsbD 61 := by
        rw [and_bit_bne_zero _ _ (by decide), BitVec.getLsbD_ushiftRight]
  · calc ((desc >>> 61) &&& 0b11 &&& 0b10 != 0)
        = ((desc >>> 61) &&& (1#64 <<< 1) != 0) := by rw [BitVec.and_assoc]; rfl
      _ = desc.getLsbD 62 := by
        rw [and_bit_bne_zero _ _ (by decide), BitVec.getLsbD_ushiftRight]

/-! ## The outcomes of a descriptor -/

/-- The page that a leaf at `level` maps `va` to. -/
def leafPage (level : BitVec 32) (desc va : BitVec 64) : BitVec 64 :=
  let blockMask : BitVec 64 := (1 <<< levelShift level) - 1
  ((desc &&& oaMask &&& ~~~blockMask) ||| (va &&& blockMask)) &&& ~~~pageMask

/-- The leaf that a descriptor describes below tables with restrictions `tp`. -/
def leafOf (level : BitVec 32) (desc va : BitVec 64) (tp : TablePerms) : Leaf where
  paPage := leafPage level desc va
  el0Access := desc.getLsbD 6 && !tp.noEl0
  readOnly := desc.getLsbD 7 || tp.noWrite
  uxn := desc.getLsbD 54 || tp.uxn
  pxn := desc.getLsbD 53 || tp.pxn
  level := level.setWidth 8

/-- The restrictions below one more table. -/
def TablePerms.below (tp : TablePerms) (desc : BitVec 64) : TablePerms where
  noEl0 := tp.noEl0 || desc.getLsbD 61
  noWrite := tp.noWrite || desc.getLsbD 62
  uxn := tp.uxn || desc.getLsbD 60
  pxn := tp.pxn || desc.getLsbD 59

/-- A descriptor that ends the walk: a page at level 3, a block elsewhere. -/
def EndsWalk (level : BitVec 32) (desc : BitVec 64) : Prop := level = 3 ∨ desc.getLsbD 1 = false

instance (level : BitVec 32) (desc : BitVec 64) : Decidable (EndsWalk level desc) :=
  inferInstanceAs (Decidable (_ ∨ _))

theorem isLeaf_eq (level : BitVec 32) (desc : BitVec 64) :
    (level == 3 || desc &&& 0b10 == 0) = decide (EndsWalk level desc) := by
  have hbit : (desc &&& 0b10 == 0) = !desc.getLsbD 1 := and_bit_beq_zero desc 1 (by decide)
  rw [hbit]
  cases hlevel : (level == 3) <;> cases h1 : desc.getLsbD 1 <;>
    simp_all [EndsWalk]

theorem walkStep_invalid {desc : BitVec 64} (h : desc.getLsbD 0 = false) (level : BitVec 32)
    (va : BitVec 64) (tp : TablePerms) :
    walkStep level desc va tp = .fault (fscTranslation ||| level.setWidth 8) := by
  have h0 : (desc &&& 1 == 0) = !desc.getLsbD 0 := and_bit_beq_zero desc 0 (by decide)
  unfold walkStep
  rw [if_pos (by rw [h0, h]; rfl)]

theorem walkStep_noAccess {level : BitVec 32} {desc : BitVec 64} (h : desc.getLsbD 0 = true)
    (hends : EndsWalk level desc) (haf : desc.getLsbD 10 = false) (va : BitVec 64)
    (tp : TablePerms) :
    walkStep level desc va tp = .fault (fscAccessFlag ||| level.setWidth 8) := by
  have h0 : (desc &&& 1 == 0) = !desc.getLsbD 0 := and_bit_beq_zero desc 0 (by decide)
  have h10 : (desc &&& (1 <<< 10) == 0) = !desc.getLsbD 10 := and_bit_beq_zero desc 10 (by decide)
  unfold walkStep
  rw [if_neg (by rw [h0, h]; decide), if_pos (by rw [isLeaf_eq, decide_eq_true hends]),
    if_pos (by rw [h10, haf]; rfl)]

theorem walkStep_leaf {level : BitVec 32} {desc : BitVec 64} (h : desc.getLsbD 0 = true)
    (hends : EndsWalk level desc) (haf : desc.getLsbD 10 = true) (va : BitVec 64)
    (tp : TablePerms) :
    walkStep level desc va tp = .leaf (leafOf level desc va tp) := by
  have h0 : (desc &&& 1 == 0) = !desc.getLsbD 0 := and_bit_beq_zero desc 0 (by decide)
  have h10 : (desc &&& (1 <<< 10) == 0) = !desc.getLsbD 10 := and_bit_beq_zero desc 10 (by decide)
  have h6 : (desc &&& (1 <<< 6) != 0) = desc.getLsbD 6 := and_bit_bne_zero desc 6 (by decide)
  have h7 : (desc &&& (1 <<< 7) != 0) = desc.getLsbD 7 := and_bit_bne_zero desc 7 (by decide)
  have h54 : (desc &&& (1 <<< 54) != 0) = desc.getLsbD 54 := and_bit_bne_zero desc 54 (by decide)
  have h53 : (desc &&& (1 <<< 53) != 0) = desc.getLsbD 53 := and_bit_bne_zero desc 53 (by decide)
  unfold walkStep
  rw [if_neg (by rw [h0, h]; decide), if_pos (by rw [isLeaf_eq, decide_eq_true hends]),
    if_neg (by rw [h10, haf]; decide)]
  dsimp only
  rw [h6, h7, h54, h53]
  rfl

theorem walkStep_table {level : BitVec 32} {desc : BitVec 64} (h : desc.getLsbD 0 = true)
    (hends : ¬ EndsWalk level desc) (va : BitVec 64) (tp : TablePerms) :
    walkStep level desc va tp = .table (desc &&& oaMask) (tp.below desc) := by
  have h0 : (desc &&& 1 == 0) = !desc.getLsbD 0 := and_bit_beq_zero desc 0 (by decide)
  have h60 : (desc &&& (1 <<< 60) != 0) = desc.getLsbD 60 := and_bit_bne_zero desc 60 (by decide)
  have h59 : (desc &&& (1 <<< 59) != 0) = desc.getLsbD 59 := and_bit_bne_zero desc 59 (by decide)
  unfold walkStep
  rw [if_neg (by rw [h0, h]; decide),
    if_neg (by rw [isLeaf_eq, decide_eq_false hends]; exact Bool.false_ne_true)]
  dsimp only
  rw [(apTable_bit desc).1, (apTable_bit desc).2, h60, h59]
  rfl

end V64.Interp
