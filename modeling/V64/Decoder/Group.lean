import V64.Decoder.Decode

/-!
# The groups of the encoding space

Every class of instructions belongs to one of the groups that `decode` selects by bits
28..25, and each group's decoder makes only its own classes.

* `decode_eq_groupDecoder`: a word that decodes to an instruction of a group went through
  the decoder of that group.
* `offsetAligned_decode`: a branch is decoded to a displacement of whole words.
-/

namespace V64.Decoder

/-- The groups of `decode`; its SIMD and floating-point encodings have three decoders. -/
inductive Group where
  | dpImm
  | branch
  | ldst
  | dpReg
  | fp
  | scalar
  | neon
  deriving DecidableEq

/-- The decoder of a group. -/
def groupDecoder : Group → BitVec 32 → Insn
  | .dpImm => decodeDpImm
  | .branch => decodeBranch
  | .ldst => decodeLdst
  | .dpReg => decodeDpReg
  | .fp => decodeFp
  | .scalar => decodeScalar
  | .neon => decodeNeon

/-- The group of an instruction; `unsupported` is in none. -/
def Insn.group : Insn → Option Group
  | .moveWide .. | .addSubImm .. | .logicalImm .. | .bitfield .. | .extract .. | .pcRel .. =>
    some .dpImm
  | .addSubShiftedReg .. | .addSubCarry .. | .addSubExtReg .. | .logicalShiftedReg ..
  | .condSelect .. | .condCompare .. | .dataProc1Src .. | .dataProc2Src ..
  | .dataProc3Src .. => some .dpReg
  | .branchImm .. | .condBranch .. | .compareBranch .. | .testBranch .. | .branchReg ..
  | .sysRegMove .. | .msrImm .. | .svc .. | .hvc .. | .smc .. | .eret | .nop | .wfi | .wfe
  | .dcZva .. | .tlbi | .ic | .brk .. => some .branch
  | .loadStore .. | .atomicRmw .. | .compareSwap .. | .loadExclusive .. | .storeExclusive ..
  | .loadExclusivePair .. | .storeExclusivePair .. | .compareSwapPair .. | .loadStorePair ..
  | .simdLdStMulti .. | .simdLdStSingle .. | .prfm => some .ldst
  | .fpDataProc1 .. | .fpDataProc2 .. | .fpDataProc3 .. | .fpCondCompare .. | .fpCompare ..
  | .fpCondSelect .. | .fpCvtInt .. | .fpImm .. | .fpCvtFixed .. => some .fp
  | .simdScalarThreeSame .. | .simdScalarTwoRegMisc .. | .simdScalarPairwise ..
  | .simdScalarThreeDiff .. | .simdScalarCopy .. | .simdScalarShiftImm ..
  | .simdScalarIndexed .. | .cryptoSha3 .. | .cryptoSha2 .. => some .scalar
  | .simdThreeSame .. | .simdThreeSameFp .. | .simdThreeDiff .. | .simdIndexed ..
  | .simdTableLookup .. | .cryptoAes .. | .simdThreeSameExtra .. | .simdZipTrn .. | .simdExt ..
  | .simdShiftImm .. | .simdAcrossLanes .. | .simdTwoRegMisc .. | .simdTwoRegMiscFp ..
  | .simdModImm .. | .simdDupGeneral .. | .simdDupElement .. | .simdInsGeneral ..
  | .simdInsElement .. | .simdMovToGpr .. => some .neon
  | .unsupported .. => none

/-- In the group or not allocated. -/
def Insn.inGroup (g : Group) (insn : Insn) : Bool := insn.group.all (· == g)

/-! ## What each decoder makes -/

theorem inGroup_ite {g : Group} {c : Prop} [Decidable c] {a b : Insn} (ha : a.inGroup g = true)
    (hb : b.inGroup g = true) : (if c then a else b).inGroup g = true := by
  split_ifs
  · exact ha
  · exact hb

theorem inGroup_decodeDpImm (word : BitVec 32) : (decodeDpImm word).inGroup .dpImm = true := by
  unfold decodeDpImm decodePcRel decodeAddSubImm decodeLogicalImm decodeMoveWide decodeBitfield
    decodeExtract
  dsimp only
  repeat' first | rfl | apply inGroup_ite | split

theorem inGroup_decodeBranch (word : BitVec 32) :
    (decodeBranch word).inGroup .branch = true := by
  unfold decodeBranch decodeSystem decodeBranchReg decodeCondBranch
  dsimp only
  repeat' first | rfl | apply inGroup_ite | split

theorem inGroup_decodeLdst (word : BitVec 32) : (decodeLdst word).inGroup .ldst = true := by
  unfold decodeLdst decodeExcl decodeStructs decodeStructMultiple decodeStructSingle
    decodeRegisterForm decodeAtomic decodePair decodeLiteral decodeUimm decodeUnscaled decodePost
    decodePre decodeReg loadStoreOf
  dsimp only
  repeat' first | rfl | apply inGroup_ite | split

theorem inGroup_decodeDpReg (word : BitVec 32) : (decodeDpReg word).inGroup .dpReg = true := by
  unfold decodeDpReg decodeLogicalReg decodeAddSubShiftedReg decodeAddSubExtReg decodeAddSubCarry
    decodeCondCompare decodeCondSelect decodeDataProc1Src decodeDataProc2Src decodeDataProc3Src
  dsimp only
  repeat' first | rfl | apply inGroup_ite | split

theorem inGroup_decodeFp (word : BitVec 32) : (decodeFp word).inGroup .fp = true := by
  unfold decodeFp decodeFpCcmp decodeFpCompare decodeFpCsel decodeFpCvt decodeFpDp1 decodeFpDp2
    decodeFpDp3 decodeFpFixed decodeFpImm
  dsimp only
  repeat' first | rfl | apply inGroup_ite | split

theorem inGroup_decodeScalar (word : BitVec 32) :
    (decodeScalar word).inGroup .scalar = true := by
  unfold decodeScalar decodeScalarThreeSame decodeScalarTwoRegMisc decodeScalarPairwise
    decodeScalarThreeDiff decodeScalarCopy decodeScalarIndexed decodeScalarShiftImm
  dsimp only
  repeat' first | rfl | apply inGroup_ite | split

theorem inGroup_decodeMovToGpr (word : BitVec 32) (signed q : Bool) (imm5 : ℕ) :
    (decodeMovToGpr word signed q imm5).inGroup .neon = true := by
  unfold decodeMovToGpr
  dsimp only
  repeat' first | rfl | apply inGroup_ite | split

theorem inGroup_decodeNeon (word : BitVec 32) : (decodeNeon word).inGroup .neon = true := by
  unfold decodeNeon decodeThreeSame decodeThreeSameFp decodeThreeSameExtra decodeThreeDiff
    decodeTwoRegMisc decodeIndexed decodeAcross decodeShiftImm decodeCopy decodeModImm decodeZipTrn
    decodeTbl decodeExt decodeAes
  dsimp only
  repeat' first | rfl | apply inGroup_decodeMovToGpr | apply inGroup_ite | split

/-! ## The group of a word -/

/-- Every word goes through the decoder of a group that holds its instruction. -/
theorem exists_groupDecoder (word : BitVec 32) :
    (decode word).group = none ∨
      ∃ g, (decode word).inGroup g = true ∧ decode word = groupDecoder g word := by
  unfold decode
  dsimp only
  by_cases hldst : field word 25 4 &&& 0b0101 = 0b0100
  · rw [if_pos hldst]
    exact .inr ⟨.ldst, inGroup_decodeLdst word, rfl⟩
  · rw [if_neg hldst]
    split
    · exact .inr ⟨.dpImm, inGroup_decodeDpImm word, rfl⟩
    · exact .inr ⟨.dpImm, inGroup_decodeDpImm word, rfl⟩
    · exact .inr ⟨.branch, inGroup_decodeBranch word, rfl⟩
    · exact .inr ⟨.branch, inGroup_decodeBranch word, rfl⟩
    · exact .inr ⟨.dpReg, inGroup_decodeDpReg word, rfl⟩
    · exact .inr ⟨.dpReg, inGroup_decodeDpReg word, rfl⟩
    · split_ifs with hscalar
      · exact .inr ⟨.scalar, inGroup_decodeScalar word, rfl⟩
      · exact .inr ⟨.fp, inGroup_decodeFp word, rfl⟩
    · exact .inr ⟨.neon, inGroup_decodeNeon word, rfl⟩
    · exact .inl rfl

theorem decode_eq_groupDecoder {word : BitVec 32} {g : Group}
    (h : (decode word).group = some g) : decode word = groupDecoder g word := by
  obtain hnone | ⟨g', hgroup, heq⟩ := exists_groupDecoder word
  · rw [hnone] at h
    cases h
  · unfold Insn.inGroup at hgroup
    rw [h, Option.all_some, beq_iff_eq] at hgroup
    rw [hgroup]
    exact heq

/-! ## The displacements of branches -/

/-- The displacement of a direct branch is one of whole words. -/
def OffsetAligned : Insn → Prop
  | .branchImm _ offset | .condBranch _ offset | .compareBranch _ _ _ offset
  | .testBranch _ _ _ offset => offset.toNat % 4 = 0
  | _ => True

theorem toNat_mul_four (x : BitVec 64) : (x * 4).toNat % 4 = 0 := by
  rw [BitVec.toNat_mul]
  show x.toNat * 4 % 2 ^ 64 % 4 = 0
  omega

theorem offsetAligned_ite {c : Prop} [Decidable c] {a b : Insn} (ha : OffsetAligned a)
    (hb : OffsetAligned b) : OffsetAligned (if c then a else b) := by
  split_ifs
  · exact ha
  · exact hb

theorem offsetAligned_decodeBranch (word : BitVec 32) : OffsetAligned (decodeBranch word) := by
  unfold decodeBranch decodeSystem decodeBranchReg decodeCondBranch
  dsimp only
  repeat' first | trivial | exact toNat_mul_four _ | apply offsetAligned_ite | split

theorem offsetAligned_of_group {insn : Insn} (h : insn.group ≠ some .branch) :
    OffsetAligned insn := by
  cases insn with
  | branchImm link offset => exact absurd rfl h
  | condBranch cond offset => exact absurd rfl h
  | compareBranch sf negate rt offset => exact absurd rfl h
  | testBranch bit negate rt offset => exact absurd rfl h
  | _ => trivial

theorem offsetAligned_decode (word : BitVec 32) : OffsetAligned (decode word) := by
  by_cases hgroup : (decode word).group = some .branch
  · rw [decode_eq_groupDecoder hgroup]
    exact offsetAligned_decodeBranch word
  · exact offsetAligned_of_group hgroup

end V64.Decoder
