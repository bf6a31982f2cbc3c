import V64.Decoder.Fields

/-!
# The fields of a decoded vector instruction

Which selectors, sizes and indices meet in an integer vector instruction, as `FieldsOk`
says it of the other classes.

* `vecFieldsOk_decode`: it holds of the decoding of every word.
-/

namespace V64.Decoder

/-- The keys of the integer forms by element, other than the dot products. -/
def elementKeys : List ℕ :=
  [0x08, 0x10, 0x14, 0x02, 0x12, 0x06, 0x16, 0x0a, 0x1a, 0x03, 0x07, 0x0b, 0x0c, 0x0d, 0x1d, 0x1f]

/-- `16 * U + opcode`, which selects the form by element. -/
def elementKey (u : Bool) (opcode : ℕ) : ℕ := 16 * (if u then 1 else 0) + opcode

/-- The element sizes that go with a key: floating-point forms have others. -/
def ElementSize (key size : ℕ) : Prop :=
  key ∈ [0x01, 0x05, 0x09, 0x19] ∨ (key ∈ [0x0e, 0x1e] ∧ size = 2) ∨
    (key ∈ elementKeys ∧ (size = 1 ∨ size = 2))

/-- The same in the scalar forms, of which there are fewer. -/
def ScalarElementSize (key size : ℕ) : Prop :=
  key ∈ [0x01, 0x05, 0x09, 0x19] ∨
    (key ∈ [0x03, 0x07, 0x0b, 0x0c, 0x0d] ∧ (size = 1 ∨ size = 2))

/-- The index is one of an element of the register. -/
def IndexInRange (size index : ℕ) : Prop := (size = 1 → index < 8) ∧ (size = 2 → index < 4)

/-- The opcodes of the shifts by immediate: insertion and SQSHLU exist with U only, and the
    narrow forms for elements below 64 bits. -/
def ShiftOpcode (u : Bool) (immh opcode : ℕ) : Prop :=
  opcode ∈ [0b00000, 0b00010, 0b00100, 0b00110, 0b01010, 0b01110, 0b11100, 0b11111] ∨
    (opcode ∈ [0b01000, 0b01100] ∧ u = true) ∨
    (opcode ∈ [0b10000, 0b10001, 0b10010, 0b10011, 0b10100] ∧ immh < 8)

/-- A narrowing shift has elements below 64 bits. -/
theorem ShiftOpcode.lt_of_narrow {u : Bool} {immh opcode : ℕ} (h : ShiftOpcode u immh opcode)
    (hop : opcode ∈ [0b10000, 0b10001, 0b10010, 0b10011]) : immh < 8 := by
  unfold ShiftOpcode at h
  simp only [List.mem_cons, List.not_mem_nil, or_false] at h hop
  omega

/-- The fields that the decoder gives one vector instruction. -/
def VecFieldsOk : Insn → Prop
  | .simdThreeSame _ _ size _ _ _ _ | .simdScalarThreeSame _ size _ _ _ _ => size ≤ 3
  | .simdIndexed _ u size opcode index _ _ _ =>
    ElementSize (elementKey u opcode) size ∧ IndexInRange size index
  | .simdScalarIndexed u size opcode index _ _ _ =>
    ScalarElementSize (elementKey u opcode) size ∧ IndexInRange size index
  | .simdShiftImm _ u immh immb opcode _ _ | .simdScalarShiftImm u immh immb opcode _ _ =>
    0 < immh ∧ immh < 16 ∧ immb < 8 ∧ ShiftOpcode u immh opcode
  | _ => True

theorem vecFieldsOk_ite {c : Prop} [Decidable c] {a b : Insn} (ha : c → VecFieldsOk a)
    (hb : ¬ c → VecFieldsOk b) : VecFieldsOk (if c then a else b) := by
  split_ifs with h
  · exact ha h
  · exact hb h

/-! ## Classes without vector instructions of these kinds -/

theorem vecFieldsOk_decodeBranch (word : BitVec 32) : VecFieldsOk (decodeBranch word) := by
  unfold decodeBranch decodeSystem decodeBranchReg
  dsimp only
  repeat' first | trivial | refine vecFieldsOk_ite (fun _ => ?_) (fun _ => ?_) | split

theorem vecFieldsOk_decodeDpImm (word : BitVec 32) : VecFieldsOk (decodeDpImm word) := by
  unfold decodeDpImm decodePcRel decodeAddSubImm decodeLogicalImm decodeMoveWide decodeBitfield
    decodeExtract
  dsimp only
  repeat' first | trivial | refine vecFieldsOk_ite (fun _ => ?_) (fun _ => ?_) | split

theorem vecFieldsOk_decodeDpReg (word : BitVec 32) : VecFieldsOk (decodeDpReg word) := by
  unfold decodeDpReg decodeLogicalReg decodeAddSubShiftedReg decodeAddSubExtReg decodeAddSubCarry
    decodeCondCompare decodeCondSelect decodeDataProc1Src decodeDataProc2Src decodeDataProc3Src
  dsimp only
  repeat' first | trivial | refine vecFieldsOk_ite (fun _ => ?_) (fun _ => ?_) | split

theorem vecFieldsOk_decodeFp (word : BitVec 32) : VecFieldsOk (decodeFp word) := by
  unfold decodeFp decodeFpCcmp decodeFpCompare decodeFpCsel decodeFpCvt decodeFpDp1 decodeFpDp2
    decodeFpDp3 decodeFpFixed decodeFpImm
  dsimp only
  repeat' first | trivial | refine vecFieldsOk_ite (fun _ => ?_) (fun _ => ?_) | split

theorem vecFieldsOk_decodeLdst (word : BitVec 32) : VecFieldsOk (decodeLdst word) := by
  unfold decodeLdst decodeExcl decodeStructs decodeStructMultiple decodeStructSingle
    decodeRegisterForm decodeAtomic decodePair decodeLiteral decodeUimm decodeUnscaled decodePost
    decodePre decodeReg loadStoreOf
  dsimp only
  repeat' first | trivial | refine vecFieldsOk_ite (fun _ => ?_) (fun _ => ?_) | split

theorem vecFieldsOk_decodeMovToGpr (word : BitVec 32) (signed q : Bool) (imm5 : ℕ) :
    VecFieldsOk (decodeMovToGpr word signed q imm5) := by
  unfold decodeMovToGpr
  dsimp only
  repeat' first | trivial | refine vecFieldsOk_ite (fun _ => ?_) (fun _ => ?_) | split

/-! ## The vector classes -/

theorem size_le_three (word : BitVec 32) : field word 22 2 ≤ 3 :=
  Nat.le_of_lt_succ (field_lt word 22 2)

theorem vecFieldsOk_decodeThreeSame (word : BitVec 32) : VecFieldsOk (decodeThreeSame word) :=
  vecFieldsOk_ite (fun _ => trivial) fun _ => size_le_three word

theorem vecFieldsOk_decodeScalarThreeSame (word : BitVec 32) :
    VecFieldsOk (decodeScalarThreeSame word) :=
  vecFieldsOk_ite (fun _ => trivial) fun _ => size_le_three word

theorem indexInRange_of_indexAndRm {size h l m rm4 index rm : ℕ} {d64 : Bool} (hh : h < 2)
    (hl : l < 2) (hm : m < 2) (heq : indexAndRm size h l m rm4 d64 = some (index, rm)) :
    IndexInRange size index := by
  have h1 : ∀ h < 2, ∀ l < 2, ∀ m < 2, (h <<< 2) ||| (l <<< 1) ||| m < 8 := by decide
  have h2 : ∀ h < 2, ∀ l < 2, (h <<< 1) ||| l < 4 := by decide
  constructor
  · rintro rfl
    cases heq
    exact h1 h hh l hl m hm
  · rintro rfl
    cases heq
    exact h2 h hh l hl

theorem elementKey_field (word : BitVec 32) (opcode : ℕ) :
    elementKey (field word 29 1 == 1) opcode = 16 * field word 29 1 + opcode := by
  have hlt := field_lt word 29 1
  obtain hu | hu : field word 29 1 = 0 ∨ field word 29 1 = 1 := by omega
  · rw [hu]
    rfl
  · rw [hu]
    rfl

theorem vecFieldsOk_decodeIndexed (word : BitVec 32) : VecFieldsOk (decodeIndexed word) := by
  refine vecFieldsOk_ite (fun _ => trivial) fun hok => ?_
  split
  · trivial
  case h_2 index rm heq =>
    refine ⟨?_, indexInRange_of_indexAndRm (field_lt word 11 1) (field_lt word 21 1)
      (field_lt word 20 1) heq⟩
    rw [elementKey_field]
    generalize 16 * field word 29 1 + field word 12 4 = key at hok
    generalize field word 22 2 = size at hok
    unfold ElementSize elementKeys
    simp only [List.contains_eq_mem, List.mem_cons, List.not_mem_nil, or_false] at hok ⊢
    grind

theorem vecFieldsOk_decodeScalarIndexed (word : BitVec 32) :
    VecFieldsOk (decodeScalarIndexed word) := by
  refine vecFieldsOk_ite (fun _ => trivial) fun hok => ?_
  split
  · trivial
  case h_2 index rm heq =>
    refine ⟨?_, indexInRange_of_indexAndRm (field_lt word 11 1) (field_lt word 21 1)
      (field_lt word 20 1) heq⟩
    rw [elementKey_field]
    generalize 16 * field word 29 1 + field word 12 4 = key at hok
    generalize field word 22 2 = size at hok
    unfold ScalarElementSize
    simp only [List.contains_eq_mem, List.mem_cons, List.not_mem_nil, or_false] at hok ⊢
    grind

theorem vecFieldsOk_decodeShiftImm {word : BitVec 32} (himmh : field word 19 4 ≠ 0) :
    VecFieldsOk (decodeShiftImm word) := by
  have hsmall : ∀ immh < 16, immh &&& 0b1000 = 0 → immh < 8 := by decide
  refine vecFieldsOk_ite (fun _ => trivial) fun hok => ?_
  refine ⟨Nat.pos_of_ne_zero himmh, field_lt word 19 4, field_lt word 16 3, ?_⟩
  have hlt := hsmall (field word 19 4) (field_lt word 19 4)
  generalize field word 19 4 = immh at hok hlt
  generalize field word 11 5 = opcode at hok
  generalize flag word 29 = u at hok
  unfold ShiftOpcode
  simp only [List.mem_cons, List.not_mem_nil, or_false]
  split at hok <;> grind

theorem vecFieldsOk_decodeScalarShiftImm (word : BitVec 32) :
    VecFieldsOk (decodeScalarShiftImm word) := by
  have hsmall : ∀ immh < 16, immh &&& 0b1000 = 0 → immh < 8 := by decide
  refine vecFieldsOk_ite (fun _ => trivial) fun himmh => ?_
  refine vecFieldsOk_ite (fun _ => trivial) fun hok => ?_
  refine ⟨Nat.pos_of_ne_zero himmh, field_lt word 19 4, field_lt word 16 3, ?_⟩
  have hlt := hsmall (field word 19 4) (field_lt word 19 4)
  generalize field word 19 4 = immh at hok hlt
  generalize field word 11 5 = opcode at hok
  generalize flag word 29 = u at hok
  unfold ShiftOpcode
  simp only [List.mem_cons, List.not_mem_nil, or_false]
  split at hok <;> grind

theorem vecFieldsOk_decodeNeon (word : BitVec 32) : VecFieldsOk (decodeNeon word) := by
  unfold decodeNeon
  refine vecFieldsOk_ite (fun _ => ?_) fun _ => ?_
  · refine vecFieldsOk_ite (fun _ => vecFieldsOk_decodeIndexed word) fun _ => ?_
    refine vecFieldsOk_ite (fun _ => ?_) fun himmh => vecFieldsOk_decodeShiftImm himmh
    unfold decodeModImm
    repeat' first | trivial | refine vecFieldsOk_ite (fun _ => ?_) (fun _ => ?_)
  · unfold decodeZipTrn decodeTbl decodeAes decodeThreeSameExtra decodeExt decodeAcross
      decodeTwoRegMisc decodeCopy decodeThreeDiff decodeThreeSameFp
    dsimp only
    repeat' first
      | trivial
      | exact vecFieldsOk_decodeThreeSame word
      | exact vecFieldsOk_decodeMovToGpr word _ _ _
      | refine vecFieldsOk_ite (fun _ => ?_) (fun _ => ?_)
      | split

theorem vecFieldsOk_decodeScalar (word : BitVec 32) : VecFieldsOk (decodeScalar word) := by
  unfold decodeScalar decodeSha3 decodeSha2 decodeScalarThreeDiff decodeScalarTwoRegMisc
    decodeScalarPairwise decodeScalarCopy
  dsimp only
  repeat' first
    | trivial
    | exact vecFieldsOk_decodeScalarThreeSame word
    | exact vecFieldsOk_decodeScalarIndexed word
    | exact vecFieldsOk_decodeScalarShiftImm word
    | refine vecFieldsOk_ite (fun _ => ?_) (fun _ => ?_)

/-- Every decoded vector instruction has fields that go together. -/
theorem vecFieldsOk_decode (word : BitVec 32) : VecFieldsOk (decode word) := by
  refine vecFieldsOk_ite (fun _ => vecFieldsOk_decodeLdst word) fun _ => ?_
  split
  · exact vecFieldsOk_decodeDpImm word
  · exact vecFieldsOk_decodeDpImm word
  · exact vecFieldsOk_decodeBranch word
  · exact vecFieldsOk_decodeBranch word
  · exact vecFieldsOk_decodeDpReg word
  · exact vecFieldsOk_decodeDpReg word
  · exact vecFieldsOk_ite (fun _ => vecFieldsOk_decodeScalar word) fun _ =>
      vecFieldsOk_decodeFp word
  · exact vecFieldsOk_decodeNeon word
  · trivial

end V64.Decoder
