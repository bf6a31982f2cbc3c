import V64.Decoder.Decode

/-!
# The exclusive group

The words with `[29:24] = 001000`: load and store exclusive, single and pair, the
ordered accesses, and compare and swap, single and pair. `exclForm` says what each word
of a form is. In a pair encoding (`o2 = 0`, `o1 = 1`) bit 31 alone tells an exclusive
pair, whose second register is `Rt2`, from a compare and swap, where `Rt2` is 31; the
decoder tests `Rt2` alone.

* `decode_eq_decodeExcl`: the group has one decoder.
* `decode_eq_exclForm_iff`: every word of a form decodes to it, but for pair encodings.
-/

namespace V64.Decoder

/-- The exclusive group. -/
def InExclGroup (word : BitVec 32) : Prop := field word 24 6 = 0b001000

instance (word : BitVec 32) : Decidable (InExclGroup word) :=
  inferInstanceAs (Decidable (_ = _))

/-- A pair encoding of the group. -/
def isPairWord (word : BitVec 32) : Bool := field word 23 1 == 0 && field word 21 1 == 1

/-- The pair encodings: with bit 31 an exclusive pair of registers, without it a compare
    and swap of two pairs of consecutive registers, and nothing else. -/
def pairForm (word : BitVec 32) : Insn :=
  let rs := regField word 16
  let rt := regField word 0
  let rn := regField word 5
  if field word 31 1 = 1 then
    if field word 22 1 = 1 then .loadExclusivePair (field word 30 2) rt (regField word 10) rn
    else .storeExclusivePair (field word 30 2) rs rt (regField word 10) rn
  else if field word 10 5 = 31 ∧ field word 16 5 % 2 = 0 ∧ field word 0 5 % 2 = 0 then
    .compareSwapPair (field word 30 1) rs rn rt
  else .unsupported word

/-- What a word of the group is, where it is of a form. The registers that a form does
    not have are 31. -/
def exclForm (word : BitVec 32) : Option Insn :=
  let size := field word 30 2
  let rs := regField word 16
  let rt := regField word 0
  let rn := regField word 5
  if isPairWord word = true then some (pairForm word)
  else if field word 10 5 ≠ 31 then none
  else if field word 23 1 = 0 then
    some (if field word 22 1 = 1 then .loadExclusive size rt rn else .storeExclusive size rs rt rn)
  else if field word 21 1 = 1 then some (.compareSwap size rs rn rt)
  else if field word 15 1 = 1 ∧ field word 16 5 = 31 then
    some (.loadStore size (field word 22 1 == 1) false (size == 3) false false rt
      (.unsignedImm rn 0))
  else none

/-- `Rt2` agrees with bit 31, and a compare and swap has even registers. -/
def PairFields (word : BitVec 32) : Prop :=
  if field word 31 1 = 1 then field word 10 5 ≠ 31
  else field word 10 5 = 31 ∧ field word 16 5 % 2 = 0 ∧ field word 0 5 % 2 = 0

theorem field_one_cases (word : BitVec 32) (lsb : ℕ) :
    field word lsb 1 = 0 ∨ field word lsb 1 = 1 := by
  have hlt := field_lt word lsb 1
  omega

/-- The words of the group reach `excl::decode`. -/
theorem decode_eq_decodeExcl {word : BitVec 32} (h : InExclGroup word) :
    decode word = decodeExcl word := by
  have hop0 : field word 25 4 = 4 := by
    unfold InExclGroup field at h
    unfold field
    rw [BitVec.toNat_ushiftRight, Nat.shiftRight_eq_div_pow] at h ⊢
    omega
  have hldst : decode word = decodeLdst word := by
    unfold decode
    rw [hop0]
    rfl
  rw [hldst]
  exact if_pos h

/-- A pair encoding is told apart by `Rt2` alone. -/
theorem decodeExcl_pairWord {word : BitVec 32} (h : isPairWord word = true) :
    decodeExcl word =
      if field word 10 5 = 31 then
        .compareSwapPair (field word 30 1) (regField word 16) (regField word 5) (regField word 0)
      else if field word 22 1 = 1 then
        .loadExclusivePair (field word 30 2) (regField word 0) (regField word 10) (regField word 5)
      else
        .storeExclusivePair (field word 30 2) (regField word 16) (regField word 0)
          (regField word 10) (regField word 5) := by
  obtain ⟨ho2, ho1⟩ := Bool.and_eq_true_iff.mp h
  rw [beq_iff_eq] at ho2 ho1
  unfold decodeExcl
  simp only [ho2, ho1, Nat.zero_ne_one, Nat.one_ne_zero, false_and, true_and, and_false, if_false,
    if_true]

/-- A pair encoding decodes to its form exactly where `Rt2` agrees with bit 31. -/
theorem decodeExcl_eq_pairForm_iff {word : BitVec 32} (h : isPairWord word = true) :
    decodeExcl word = pairForm word ↔ PairFields word := by
  rw [decodeExcl_pairWord h]
  unfold pairForm PairFields
  by_cases hbit : field word 31 1 = 1
  · simp only [if_pos hbit]
    by_cases hrt2 : field word 10 5 = 31
    · rw [if_pos hrt2]
      constructor
      · intro heq
        split_ifs at heq
      · exact fun hne => absurd hrt2 hne
    · rw [if_neg hrt2]
      exact iff_of_true rfl hrt2
  · simp only [if_neg hbit]
    by_cases hrt2 : field word 10 5 = 31
    · rw [if_pos hrt2]
      constructor
      · intro heq
        by_contra heven
        rw [if_neg heven] at heq
        cases heq
      · intro heven
        rw [if_pos heven]
    · have hodd : ¬(field word 10 5 = 31 ∧ field word 16 5 % 2 = 0 ∧ field word 0 5 % 2 = 0) :=
        fun heven => hrt2 heven.1
      rw [if_neg hrt2, if_neg hodd]
      constructor
      · intro heq
        split_ifs at heq
      · exact fun heven => absurd heven.1 hrt2

/-- The other words of a form decode to it. -/
theorem decodeExcl_eq_exclForm {word : BitVec 32} (h : isPairWord word = false) {insn : Insn}
    (hform : exclForm word = some insn) : decodeExcl word = insn := by
  unfold exclForm at hform
  rw [h, if_neg Bool.false_ne_true] at hform
  by_cases hrt2 : field word 10 5 = 31
  · rw [if_neg (not_not.mpr hrt2)] at hform
    unfold decodeExcl
    simp only [hrt2, and_true]
    rcases field_one_cases word 23 with ho2 | ho2
    · have ho1 : field word 21 1 = 0 := by
        refine (field_one_cases word 21).resolve_right fun ho1 => ?_
        rw [isPairWord, ho2, ho1] at h
        cases h
      simp only [ho2, ho1, Nat.zero_ne_one, false_and, and_false, if_false, if_true,
        and_self] at hform ⊢
      exact Option.some.inj hform
    · simp only [ho2, Nat.one_ne_zero, false_and, if_false, true_and] at hform ⊢
      rcases field_one_cases word 21 with ho1 | ho1
      · simp only [ho1, Nat.zero_ne_one, if_false, true_and] at hform ⊢
        split_ifs at hform with hldar
        rw [if_pos hldar]
        exact Option.some.inj hform
      · simp only [ho1, if_true] at hform ⊢
        exact Option.some.inj hform
  · rw [if_pos hrt2] at hform
    cases hform

/-- Every word of a form decodes to that form, but for a pair encoding whose `Rt2` does
    not agree with its bit 31. -/
theorem decode_eq_exclForm_iff {word : BitVec 32} (hgroup : InExclGroup word) {insn : Insn}
    (hform : exclForm word = some insn) :
    decode word = insn ↔ (isPairWord word = true → PairFields word) := by
  rw [decode_eq_decodeExcl hgroup]
  cases hpair : isPairWord word with
  | true =>
    unfold exclForm at hform
    rw [hpair, if_pos rfl] at hform
    cases hform
    rw [decodeExcl_eq_pairForm_iff hpair]
    exact ⟨fun h _ => h, fun h => h rfl⟩
  | false =>
    exact iff_of_true (decodeExcl_eq_exclForm hpair hform) nofun

-- `ldxp x0, x1, [x2]`
theorem decode_eq_exclForm_iff_ldxp : decode 0xc87f0440#32 = .loadExclusivePair 3 0 1 2 ↔
    (isPairWord 0xc87f0440#32 = true → PairFields 0xc87f0440#32) :=
  decode_eq_exclForm_iff (by decide) rfl

-- `ldxp x0, xzr, [x2]`
theorem not_decode_eq_exclForm : ¬ ∀ (word : BitVec 32) (insn : Insn), InExclGroup word →
    exclForm word = some insn → decode word = insn := by
  intro h
  have hldxp : decode 0xc87f7c40#32 = .loadExclusivePair 3 0 31 2 := h _ _ (by decide) rfl
  have hcasp : decode 0xc87f7c40#32 = .compareSwapPair 1 31 2 0 := rfl
  cases hcasp.symm.trans hldxp

end V64.Decoder
