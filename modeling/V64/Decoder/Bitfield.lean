import V64.Decoder.Group
import V64.Lib.Words

/-!
# The words of the bitfield moves

The masks that `bitfield::decode` computes, one bit at a time, and the words that it
is reached with.

* `getLsbD_rorWithin`, `getLsbD_replicate`: the bits of a rotated run of ones.
* `decodeBitMasks_eq`: `DecodeBitMasks` for positions in the range of the width.
* `decode_eq_bitfield`: SBFM, BFM and UBFM come from this decoder only.
-/

namespace V64.Decoder

/-! ## The masks of the decoder -/

theorem getLsbD_ones {len : ℕ} (hlen : len ≤ 64) (i : ℕ) :
    (ones len).getLsbD i = decide (i < len) := by
  unfold ones
  split_ifs with hfull
  · obtain rfl : len = 64 := by omega
    rw [BitVec.getLsbD_allOnes]
  · exact Words.getLsbD_ones (by omega) i

/-- The rotation of a run of `s + 1` ones: bit `i` comes from bit `(i + r) % esize`. -/
theorem getLsbD_rorWithin {s r esize i : ℕ} (hesize : esize ≤ 64) (hs : s < esize) (hr : r < esize)
    (hi : i < esize) :
    (rorWithin (ones (s + 1)) r esize).getLsbD i = decide ((i + r) % esize ≤ s) := by
  unfold rorWithin
  split_ifs with hzero
  · subst hzero
    rw [getLsbD_ones (by omega), Nat.add_zero i, Nat.mod_eq_of_lt hi]
    exact decide_eq_decide.mpr Nat.lt_succ_iff
  · rw [BitVec.getLsbD_and, BitVec.getLsbD_or, BitVec.getLsbD_ushiftRight, BitVec.getLsbD_shiftLeft,
      getLsbD_ones (by omega), getLsbD_ones (by omega), getLsbD_ones hesize]
    by_cases hwrap : i + r < esize
    · rw [Nat.mod_eq_of_lt hwrap]
      grind
    · have hmod : (i + r) % esize = i + r - esize := by
        rw [Nat.mod_eq_sub_mod (by omega), Nat.mod_eq_of_lt (by omega)]
      rw [hmod]
      grind

/-- The low element of a replicated mask is the element. -/
theorem getLsbD_replicate (sf : Bool) (elem : BitVec 64) {i : ℕ}
    (hi : i < if sf then 64 else 32) :
    (replicate elem (if sf then 64 else 32)).getLsbD i = elem.getLsbD i := by
  cases sf with
  | true => rfl
  | false =>
    have hi : i < 32 := hi
    show (elem ||| elem <<< 32).getLsbD i = elem.getLsbD i
    rw [BitVec.getLsbD_or, BitVec.getLsbD_shiftLeft, decide_eq_true hi, Bool.not_true,
      Bool.and_false, Bool.false_and, Bool.or_false]

/-- `DecodeBitMasks` where N is the width and the positions are in range. -/
theorem decodeBitMasks_eq (sf : Bool) {imms immr : ℕ} (hs : imms < if sf then 64 else 32)
    (hr : immr < if sf then 64 else 32) :
    decodeBitMasks (if sf then 1 else 0) imms immr false =
      some (replicate (rorWithin (ones (imms + 1)) immr (if sf then 64 else 32))
          (if sf then 64 else 32),
        replicate (ones ((imms + 2 ^ 32 - immr) % (if sf then 64 else 32) + 1))
          (if sf then 64 else 32)) := by
  cases sf with
  | true =>
    have hlen : ∀ s < 64, (1 <<< 6) ||| (s ^^^ 0x3f) ≠ 0 ∧
        Nat.log2 ((1 <<< 6) ||| (s ^^^ 0x3f)) = 6 := by decide
    obtain ⟨hne, hlog⟩ := hlen imms hs
    have hand (n : ℕ) : n &&& 63 = n % 64 := Nat.and_two_pow_sub_one_eq_mod n 6
    have hsmod : imms % 64 = imms := Nat.mod_eq_of_lt hs
    have hrmod : immr % 64 = immr := Nat.mod_eq_of_lt hr
    show decodeBitMasks 1 imms immr false = some
      (replicate (rorWithin (ones (imms + 1)) immr 64) 64,
      replicate (ones ((imms + 2 ^ 32 - immr) % 64 + 1)) 64)
    unfold decodeBitMasks
    dsimp only
    rw [if_neg hne, hlog, if_neg (by decide), Bool.false_and, if_neg Bool.false_ne_true]
    show some (replicate (rorWithin (ones ((imms &&& 63) + 1)) (immr &&& 63) 64) 64,
      replicate (ones (((imms &&& 63) + 2 ^ 32 - (immr &&& 63) &&& 63) + 1)) 64) = _
    rw [hand, hand, hand, hsmod, hrmod]
  | false =>
    have hlen : ∀ s < 32, (0 <<< 6) ||| (s ^^^ 0x3f) ≠ 0 ∧
        Nat.log2 ((0 <<< 6) ||| (s ^^^ 0x3f)) = 5 := by decide
    obtain ⟨hne, hlog⟩ := hlen imms hs
    have hand (n : ℕ) : n &&& 31 = n % 32 := Nat.and_two_pow_sub_one_eq_mod n 5
    have hsmod : imms % 32 = imms := Nat.mod_eq_of_lt hs
    have hrmod : immr % 32 = immr := Nat.mod_eq_of_lt hr
    show decodeBitMasks 0 imms immr false = some
      (replicate (rorWithin (ones (imms + 1)) immr 32) 32,
      replicate (ones ((imms + 2 ^ 32 - immr) % 32 + 1)) 32)
    unfold decodeBitMasks
    dsimp only
    rw [if_neg hne, hlog, if_neg (by decide), Bool.false_and, if_neg Bool.false_ne_true]
    show some (replicate (rorWithin (ones ((imms &&& 31) + 1)) (immr &&& 31) 32) 32,
      replicate (ones (((imms &&& 31) + 2 ^ 32 - (immr &&& 31) &&& 31) + 1)) 32) = _
    rw [hand, hand, hand, hsmod, hrmod]

/-! ## The words of the class -/

/-- SBFM, BFM or UBFM. -/
def Insn.isBitfield : Insn → Bool
  | .bitfield .. => true
  | _ => false

theorem isBitfield_ite {c : Prop} [Decidable c] {a b : Insn} (ha : a.isBitfield = false)
    (hb : b.isBitfield = false) : (if c then a else b).isBitfield = false := by
  split_ifs
  · exact ha
  · exact hb

theorem decodeDpImm_eq_bitfield {word : BitVec 32} (h : (decodeDpImm word).isBitfield = true) :
    decodeDpImm word = decodeBitfield word := by
  have hnot {insn : Insn} (hfalse : insn.isBitfield = false) : ¬ insn.isBitfield = true :=
    Bool.eq_false_iff.mp hfalse
  unfold decodeDpImm at h ⊢
  split at h
  · exact absurd h (hnot rfl)
  · exact absurd h (hnot rfl)
  · exact absurd h (hnot (isBitfield_ite rfl rfl))
  · refine absurd h (hnot (isBitfield_ite rfl ?_))
    split <;> rfl
  · exact absurd h (hnot (isBitfield_ite rfl (isBitfield_ite rfl rfl)))
  · rfl
  · exact absurd h (hnot (isBitfield_ite rfl rfl))
  · exact absurd h (hnot rfl)

theorem group_of_isBitfield {insn : Insn} (h : insn.isBitfield = true) :
    insn.group = some .dpImm := by
  cases insn with
  | bitfield sf opc wmask tmask immr imms rn rd => rfl
  | _ => exact Bool.noConfusion h

/-- SBFM, BFM and UBFM come from `bitfield::decode`. -/
theorem decode_eq_bitfield {word : BitVec 32} (h : (decode word).isBitfield = true) :
    decode word = decodeBitfield word := by
  have hgroup : decode word = decodeDpImm word := decode_eq_groupDecoder (group_of_isBitfield h)
  rw [hgroup] at h ⊢
  exact decodeDpImm_eq_bitfield h

end V64.Decoder
