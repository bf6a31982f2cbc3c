import V64.Decoder.Fields

/-!
# The lanes of a decoded vector instruction

The sizes and lane indices that the executors and the compiler rely on in the vector
instructions that `FieldsOk` leaves open.

* `laneFieldsOk_decode`: they hold of the decoding of every word.
-/

namespace V64.Decoder

/-- The lane is one of a register. -/
def LaneIndex (size index : ℕ) : Prop := size ≤ 3 ∧ (index + 1) * (1 <<< size) ≤ 16

/-- The lane fits its destination. -/
def MovSize (signed dst64 : Bool) (size : ℕ) : Prop :=
  if signed then size ≤ 2 else dst64 = true ∨ size ≤ 2

/-- The element sizes of an opcode on one register. -/
def MiscSize (u : Bool) (size opcode : ℕ) : Prop :=
  size ≤ 3 ∧ (u = false → opcode = 0b00101 → size = 0) ∧
    (opcode ∈ [0b00010, 0b00110, 0b10010, 0b10011, 0b10100] → size ≤ 2)

/-- The lanes that the decoder gives one vector instruction. -/
def LaneFieldsOk : Insn → Prop
  | .simdTwoRegMisc _ u size opcode _ _ => MiscSize u size opcode
  | .simdThreeDiff _ _ size _ _ _ _ | .simdAcrossLanes _ _ size _ _ _ => size ≤ 2
  | .simdDupGeneral _ size _ _ => size ≤ 3
  | .simdDupElement _ size index _ _ | .simdInsGeneral size index _ _ => LaneIndex size index
  | .simdInsElement size dst src _ _ => LaneIndex size dst ∧ LaneIndex size src
  | .simdMovToGpr signed dst64 size index _ _ => LaneIndex size index ∧ MovSize signed dst64 size
  | .simdExt q imm4 _ _ _ => imm4 < if q then 16 else 8
  | _ => True

theorem laneFieldsOk_ite {c : Prop} [Decidable c] {a b : Insn} (ha : c → LaneFieldsOk a)
    (hb : ¬ c → LaneFieldsOk b) : LaneFieldsOk (if c then a else b) := by
  split_ifs with h
  · exact ha h
  · exact hb h

/-! ## Classes without such instructions -/

theorem laneFieldsOk_decodeBranch (word : BitVec 32) : LaneFieldsOk (decodeBranch word) := by
  unfold decodeBranch decodeSystem decodeBranchReg
  dsimp only
  repeat' first | trivial | refine laneFieldsOk_ite (fun _ => ?_) (fun _ => ?_) | split

theorem laneFieldsOk_decodeDpImm (word : BitVec 32) : LaneFieldsOk (decodeDpImm word) := by
  unfold decodeDpImm decodePcRel decodeAddSubImm decodeLogicalImm decodeMoveWide decodeBitfield
    decodeExtract
  dsimp only
  repeat' first | trivial | refine laneFieldsOk_ite (fun _ => ?_) (fun _ => ?_) | split

theorem laneFieldsOk_decodeDpReg (word : BitVec 32) : LaneFieldsOk (decodeDpReg word) := by
  unfold decodeDpReg decodeLogicalReg decodeAddSubShiftedReg decodeAddSubExtReg decodeAddSubCarry
    decodeCondCompare decodeCondSelect decodeDataProc1Src decodeDataProc2Src decodeDataProc3Src
  dsimp only
  repeat' first | trivial | refine laneFieldsOk_ite (fun _ => ?_) (fun _ => ?_) | split

theorem laneFieldsOk_decodeFp (word : BitVec 32) : LaneFieldsOk (decodeFp word) := by
  unfold decodeFp decodeFpCcmp decodeFpCompare decodeFpCsel decodeFpCvt decodeFpDp1 decodeFpDp2
    decodeFpDp3 decodeFpFixed decodeFpImm
  dsimp only
  repeat' first | trivial | refine laneFieldsOk_ite (fun _ => ?_) (fun _ => ?_) | split

theorem laneFieldsOk_decodeLdst (word : BitVec 32) : LaneFieldsOk (decodeLdst word) := by
  unfold decodeLdst decodeExcl decodeStructs decodeStructMultiple decodeStructSingle
    decodeRegisterForm decodeAtomic decodePair decodeLiteral decodeUimm decodeUnscaled decodePost
    decodePre decodeReg loadStoreOf
  dsimp only
  repeat' first | trivial | refine laneFieldsOk_ite (fun _ => ?_) (fun _ => ?_) | split

theorem laneFieldsOk_decodeScalar (word : BitVec 32) : LaneFieldsOk (decodeScalar word) := by
  unfold decodeScalar decodeSha3 decodeSha2 decodeScalarThreeDiff decodeScalarTwoRegMisc
    decodeScalarPairwise decodeScalarCopy decodeScalarThreeSame decodeScalarIndexed
    decodeScalarShiftImm
  dsimp only
  repeat' first | trivial | refine laneFieldsOk_ite (fun _ => ?_) (fun _ => ?_) | split

/-! ## Copies -/

theorem laneIndex_of_sizeIndex {imm5 size index : ℕ} (himm5 : imm5 < 32)
    (h : sizeIndex imm5 = some (size, index)) : LaneIndex size index := by
  have hall : ∀ imm5 < 32, ∀ p ∈ sizeIndex imm5, p.1 ≤ 3 ∧ (p.2 + 1) * (1 <<< p.1) ≤ 16 := by
    decide
  exact hall imm5 himm5 (size, index) h

theorem laneIndex_source {size imm4 : ℕ} (hsize : size ≤ 3) (himm4 : imm4 < 16) :
    LaneIndex size (imm4 >>> size) := by
  have hall : ∀ size ≤ 3, ∀ imm4 < 16, (imm4 >>> size + 1) * (1 <<< size) ≤ 16 := by decide
  exact ⟨hsize, hall size hsize imm4 himm4⟩

theorem laneFieldsOk_decodeMovToGpr (word : BitVec 32) (signed q : Bool) {imm5 : ℕ}
    (himm5 : imm5 < 32) : LaneFieldsOk (decodeMovToGpr word signed q imm5) := by
  unfold decodeMovToGpr
  split
  · trivial
  · next size index h =>
    refine laneFieldsOk_ite (fun _ => trivial) fun hvalid => ?_
    refine ⟨laneIndex_of_sizeIndex himm5 h, ?_⟩
    rw [Bool.not_eq_true', Bool.not_eq_false] at hvalid
    unfold MovSize
    cases signed with
    | true =>
      cases q with
      | true => exact of_decide_eq_true hvalid
      | false => exact Nat.le_succ_of_le (of_decide_eq_true hvalid)
    | false =>
      cases q with
      | true => exact .inl rfl
      | false => exact .inr (of_decide_eq_true hvalid)

theorem laneFieldsOk_decodeCopy (word : BitVec 32) : LaneFieldsOk (decodeCopy word) := by
  have himm5 : field word 16 5 < 32 := field_lt word 16 5
  have himm4 : field word 11 4 < 16 := field_lt word 11 4
  refine laneFieldsOk_ite (fun _ => ?_) fun _ => ?_
  · refine laneFieldsOk_ite (fun _ => trivial) fun _ => ?_
    split
    · trivial
    · next size dst h =>
      have hdst := laneIndex_of_sizeIndex himm5 h
      exact ⟨hdst, laneIndex_source hdst.1 himm4⟩
  · split
    · split
      · trivial
      · next size index h =>
        exact laneFieldsOk_ite (fun _ => trivial) fun _ => laneIndex_of_sizeIndex himm5 h
    · split
      · trivial
      · next size index h =>
        exact laneFieldsOk_ite (fun _ => trivial) fun _ => (laneIndex_of_sizeIndex himm5 h).1
    · refine laneFieldsOk_ite (fun _ => ?_) fun _ => trivial
      split
      · trivial
      · next size index h => exact laneIndex_of_sizeIndex himm5 h
    · exact laneFieldsOk_decodeMovToGpr word _ _ himm5
    · exact laneFieldsOk_decodeMovToGpr word _ _ himm5
    · trivial

/-! ## The other vector classes -/

theorem laneFieldsOk_decodeTwoRegMisc (word : BitVec 32) :
    LaneFieldsOk (decodeTwoRegMisc word) := by
  refine laneFieldsOk_ite (fun _ => laneFieldsOk_ite (fun _ => trivial) fun _ => trivial)
    fun _ => ?_
  refine laneFieldsOk_ite (fun _ => trivial) fun hvalid => ?_
  rw [Bool.not_eq_true', Bool.not_eq_false] at hvalid
  refine ⟨Nat.le_of_lt_succ (field_lt word 22 2), fun hu hop => ?_, fun hop => ?_⟩
  · rw [hu, hop] at hvalid
    simpa using hvalid
  · simp only [List.mem_cons, List.not_mem_nil, or_false] at hop
    obtain hop | hop | hop | hop | hop := hop
    · rw [hop] at hvalid
      exact of_decide_eq_true hvalid
    · rw [hop] at hvalid
      exact of_decide_eq_true hvalid
    · rw [hop] at hvalid
      exact of_decide_eq_true hvalid
    · rw [hop] at hvalid
      exact of_decide_eq_true (Bool.and_eq_true_iff.mp hvalid).2
    · rw [hop] at hvalid
      exact of_decide_eq_true hvalid

theorem laneFieldsOk_decodeExt (word : BitVec 32) : LaneFieldsOk (decodeExt word) := by
  have hsmall : ∀ imm4 < 16, imm4 &&& 0b1000 = 0 → imm4 < 8 := by decide
  have himm4 : field word 11 4 < 16 := field_lt word 11 4
  refine laneFieldsOk_ite (fun _ => trivial) fun h => ?_
  show field word 11 4 < if flag word 30 then 16 else 8
  cases hq : flag word 30 with
  | true => exact himm4
  | false =>
    rw [hq] at h
    exact hsmall _ himm4 (by simpa using h)

theorem laneFieldsOk_decodeThreeDiff (word : BitVec 32) : LaneFieldsOk (decodeThreeDiff word) := by
  refine laneFieldsOk_ite (fun _ => trivial) fun h => ?_
  rw [Bool.not_eq_true', Bool.not_eq_false] at h
  show field word 22 2 ≤ 2
  exact of_decide_eq_true (Bool.and_eq_true_iff.mp h).1

theorem laneFieldsOk_decodeAcross (word : BitVec 32) : LaneFieldsOk (decodeAcross word) := by
  refine laneFieldsOk_ite (fun _ => trivial) fun h => ?_
  rw [Bool.not_eq_true', Bool.not_eq_false] at h
  show field word 22 2 ≤ 2
  exact of_decide_eq_true (Bool.and_eq_true_iff.mp (Bool.and_eq_true_iff.mp h).1).1

theorem laneFieldsOk_decodeNeon (word : BitVec 32) : LaneFieldsOk (decodeNeon word) := by
  unfold decodeNeon
  refine laneFieldsOk_ite (fun _ => ?_) fun _ => ?_
  · unfold decodeModImm decodeIndexed decodeShiftImm
    dsimp only
    repeat' first | trivial | refine laneFieldsOk_ite (fun _ => ?_) (fun _ => ?_) | split
  · unfold decodeZipTrn decodeTbl decodeAes decodeThreeSameExtra decodeThreeSameFp decodeThreeSame
    dsimp only
    repeat' first
      | trivial
      | exact laneFieldsOk_decodeExt word
      | exact laneFieldsOk_decodeAcross word
      | exact laneFieldsOk_decodeTwoRegMisc word
      | exact laneFieldsOk_decodeCopy word
      | exact laneFieldsOk_decodeThreeDiff word
      | refine laneFieldsOk_ite (fun _ => ?_) (fun _ => ?_)

/-- Every decoded vector instruction has lanes of its registers. -/
theorem laneFieldsOk_decode (word : BitVec 32) : LaneFieldsOk (decode word) := by
  refine laneFieldsOk_ite (fun _ => laneFieldsOk_decodeLdst word) fun _ => ?_
  split
  · exact laneFieldsOk_decodeDpImm word
  · exact laneFieldsOk_decodeDpImm word
  · exact laneFieldsOk_decodeBranch word
  · exact laneFieldsOk_decodeBranch word
  · exact laneFieldsOk_decodeDpReg word
  · exact laneFieldsOk_decodeDpReg word
  · exact laneFieldsOk_ite (fun _ => laneFieldsOk_decodeScalar word) fun _ =>
      laneFieldsOk_decodeFp word
  · exact laneFieldsOk_decodeNeon word
  · trivial

end V64.Decoder
