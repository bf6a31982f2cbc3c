import V64.Decoder.Decode

/-!
# The fields of a decoded instruction

An instruction type has more values than the decoder makes. `FieldsOk` says which
selectors, widths and amounts can meet in one instruction.

* `fieldsOk_decode`: it holds of the decoding of every word.
-/

namespace V64.Decoder

/-- The fields that the decoder gives one instruction. -/
def FieldsOk : Insn → Prop
  | .moveWide _ opc _ _ _ => opc = 0 ∨ opc = 2 ∨ opc = 3
  | .addSubExtReg _ _ _ option imm3 _ _ _ => option < 8 ∧ imm3 ≤ 4
  | .logicalImm _ opc _ _ _ => opc ≤ 3
  | .logicalShiftedReg _ opc _ _ _ _ _ _ => opc ≤ 3
  | .bitfield _ opc _ _ _ _ _ _ => opc ≤ 2
  | .extract sf _ _ lsb _ => lsb.toNat < if sf then 64 else 32
  | .dataProc3Src sf op31 _ _ _ _ _ => op31 ≠ 0 → sf = true
  | .branchReg opc _ => opc ≤ 2
  | .loadStore size _ _ dst64 vec _ _ addr =>
    size ≤ (if vec then 4 else 3) ∧ (vec = false → size = 3 → dst64 = true) ∧
      ∀ rn rm option shift, addr = .regOffset rn rm option shift → shift = 0 ∨ shift = size
  | .loadStorePair _ signed width8 vec vesize _ _ _ _ _ =>
    if vec then 2 ≤ vesize ∧ vesize ≤ 4
    else (signed = true → width8 = false) ∧ vesize = if width8 then 3 else 2
  | .atomicRmw size op _ _ _ => size ≤ 3 ∧ op ≤ 8
  | .compareSwap size _ _ _ | .loadExclusive size _ _ | .storeExclusive size _ _ _
  | .loadExclusivePair size _ _ _ | .storeExclusivePair size _ _ _ _ => size ≤ 3
  | .simdLdStMulti _ _ _ _ _ _ size rpt selem =>
    size ≤ 3 ∧ 1 ≤ rpt ∧ 1 ≤ selem ∧ rpt + selem ≤ 5 ∧ (rpt = 1 ∨ selem = 1)
  | .simdLdStSingle isLoad replicate _ _ _ _ size selem _ _ =>
    size ≤ 3 ∧ 1 ≤ selem ∧ selem ≤ 4 ∧ (replicate = true → isLoad = true)
  | .simdTwoRegMisc _ u size opcode _ _ =>
    (opcode = 0 → size ≤ if u then 1 else 2) ∧ (opcode = 1 → size = 0)
  | .simdShiftImm _ _ immh immb _ _ _ => 0 < immh ∧ immh < 16 ∧ immb < 8
  | .simdZipTrn q size _ _ _ _ => size ≤ if q then 3 else 2
  | _ => True

theorem fieldsOk_ite {c : Prop} [Decidable c] {a b : Insn} (ha : c → FieldsOk a)
    (hb : ¬ c → FieldsOk b) : FieldsOk (if c then a else b) := by
  split_ifs with h
  · exact ha h
  · exact hb h

/-! ## Data processing -/

theorem fieldsOk_decodeDpImm (word : BitVec 32) : FieldsOk (decodeDpImm word) := by
  unfold decodeDpImm
  split
  · trivial
  · trivial
  · exact fieldsOk_ite (fun _ => trivial) fun _ => trivial
  · refine fieldsOk_ite (fun _ => trivial) fun _ => ?_
    split
    · trivial
    · exact Nat.le_of_lt_succ (field_lt word 29 2)
  · refine fieldsOk_ite (fun _ => trivial) fun hopc => ?_
    refine fieldsOk_ite (fun _ => trivial) fun _ => ?_
    have hlt := field_lt word 29 2
    simp only [FieldsOk]
    omega
  · refine fieldsOk_ite (fun _ => trivial) fun h => ?_
    split
    · trivial
    · simp only [FieldsOk]
      omega
  · refine fieldsOk_ite (fun _ => trivial) fun h => ?_
    have hlt := field_lt word 10 6
    have hlsb : (rawField word 10 6).toNat = field word 10 6 := by
      rw [rawField, BitVec.toNat_ofNat, Nat.mod_eq_of_lt hlt]
    simp only [FieldsOk, hlsb]
    omega
  · trivial

theorem fieldsOk_decodeDataProc3Src (word : BitVec 32) : FieldsOk (decodeDataProc3Src word) := by
  refine fieldsOk_ite (fun _ => trivial) fun _ => ?_
  refine fieldsOk_ite (fun _ => trivial) fun hvalid hop => ?_
  split at hvalid
  · next h0 => exact absurd h0 hop
  · simpa using hvalid
  · simpa using hvalid
  · simp_all
  · simp_all
  · simp at hvalid

theorem fieldsOk_decodeDpReg (word : BitVec 32) : FieldsOk (decodeDpReg word) := by
  unfold decodeDpReg
  split
  · refine fieldsOk_ite (fun _ => trivial) fun _ => ?_
    exact Nat.le_of_lt_succ (field_lt word 29 2)
  · refine fieldsOk_ite (fun _ => ?_) fun _ => ?_
    · unfold decodeAddSubShiftedReg
      dsimp only
      split
      · exact fieldsOk_ite (fun _ => trivial) fun _ => trivial
      · exact fieldsOk_ite (fun _ => trivial) fun _ => trivial
      · exact fieldsOk_ite (fun _ => trivial) fun _ => trivial
      · trivial
    · refine fieldsOk_ite (fun _ => trivial) fun h => ?_
      exact ⟨field_lt word 13 3, Nat.le_of_not_lt h⟩
  · exact fieldsOk_decodeDataProc3Src word
  · split
    · exact fieldsOk_ite (fun _ => trivial) fun _ => trivial
    · exact fieldsOk_ite (fun _ => trivial) fun _ => trivial
    · exact fieldsOk_ite (fun _ => trivial) fun _ => trivial
    · refine fieldsOk_ite (fun _ => ?_) fun _ => ?_
      · refine fieldsOk_ite (fun _ => trivial) fun _ => ?_
        exact fieldsOk_ite (fun _ => trivial) fun _ => trivial
      · exact fieldsOk_ite (fun _ => trivial) fun _ => trivial
    · trivial
  · trivial

/-! ## Branches and system instructions -/

theorem fieldsOk_decodeSystem (word : BitVec 32) : FieldsOk (decodeSystem word) := by
  refine fieldsOk_ite (fun _ => ?_) fun _ => ?_
  · refine fieldsOk_ite (fun _ => trivial) fun _ => ?_
    split
    · split <;> trivial
    · trivial
    · trivial
    · trivial
  · refine fieldsOk_ite (fun _ => ?_) fun _ => trivial
    refine fieldsOk_ite (fun _ => trivial) fun _ => ?_
    refine fieldsOk_ite (fun _ => trivial) fun _ => ?_
    exact fieldsOk_ite (fun _ => trivial) fun _ => trivial

theorem fieldsOk_decodeBranchReg (word : BitVec 32) : FieldsOk (decodeBranchReg word) := by
  refine fieldsOk_ite (fun _ => trivial) fun _ => ?_
  refine fieldsOk_ite (fun _ => trivial) fun _ => ?_
  refine fieldsOk_ite (fun _ => trivial) fun h => ?_
  exact Nat.le_of_not_lt h

theorem fieldsOk_decodeBranch (word : BitVec 32) : FieldsOk (decodeBranch word) := by
  refine fieldsOk_ite (fun _ => trivial) fun _ => ?_
  refine fieldsOk_ite (fun _ => trivial) fun _ => ?_
  refine fieldsOk_ite (fun _ => trivial) fun _ => ?_
  refine fieldsOk_ite (fun _ => fieldsOk_ite (fun _ => trivial) fun _ => trivial) fun _ => ?_
  refine fieldsOk_ite (fun _ => fieldsOk_decodeBranchReg word) fun _ => ?_
  refine fieldsOk_ite (fun _ => fieldsOk_decodeSystem word) fun _ => ?_
  refine fieldsOk_ite (fun _ => ?_) fun _ => trivial
  refine fieldsOk_ite (fun _ => trivial) fun _ => ?_
  refine fieldsOk_ite (fun _ => trivial) fun _ => ?_
  refine fieldsOk_ite (fun _ => trivial) fun _ => ?_
  exact fieldsOk_ite (fun _ => trivial) fun _ => trivial

/-! ## Loads and stores -/

/-- A doubleword goes to an X register. -/
theorem dst64_of_kind {opc : ℕ} {isLoad signed dst64 : Bool}
    (h : kind 3 opc = some (isLoad, signed, dst64)) : dst64 = true := by
  rcases opc with _ | _ | _ | _ | opc
  · cases h
    rfl
  · cases h
    rfl
  · cases h
  · cases h
  · cases h

theorem regKind_ok {word : BitVec 32} {size : ℕ} {isLoad signed dst64 vec : Bool}
    (h : regKind word = some (size, isLoad, signed, dst64, vec)) :
    size ≤ (if vec then 4 else 3) ∧ (vec = false → size = 3 → dst64 = true) := by
  have hsize := field_lt word 30 2
  unfold regKind vecKind at h
  dsimp only at h
  split_ifs at h with hvec hq h0
  · rw [Option.map_some, Option.some.injEq] at h
    cases h
    exact ⟨Nat.le_refl 4, fun hv => Bool.noConfusion hv⟩
  · cases h
  · rw [Option.map_some, Option.some.injEq] at h
    cases h
    refine ⟨?_, fun hv => Bool.noConfusion hv⟩
    simp only [if_true]
    omega
  · obtain ⟨k, hkind, hk⟩ := Option.map_eq_some_iff.mp h
    cases hk
    refine ⟨?_, fun _ h3 => dst64_of_kind (h3 ▸ hkind)⟩
    simp only [Bool.false_eq_true, if_false]
    omega

/-- A class that shares `loadStoreOf` and has no register offset. -/
theorem fieldsOk_loadStoreOf (word : BitVec 32) (unpriv : Bool) {addr : ℕ → AddrMode}
    (haddr : ∀ size rn rm option shift, addr size = .regOffset rn rm option shift →
      shift = 0 ∨ shift = size) : FieldsOk (loadStoreOf word unpriv addr) := by
  unfold loadStoreOf
  split
  · trivial
  · next h => exact ⟨(regKind_ok h).1, (regKind_ok h).2, haddr _⟩

theorem fieldsOk_decodeAtomic (word : BitVec 32) : FieldsOk (decodeAtomic word) := by
  have hsize := field_lt word 30 2
  have hopc := field_lt word 12 3
  unfold decodeAtomic
  dsimp only
  split_ifs
  · refine ⟨?_, fun _ => beq_iff_eq.mpr, fun rn rm option shift h => AddrMode.noConfusion h⟩
    simp only [Bool.false_eq_true, if_false]
    omega
  · split
    · simp only [FieldsOk]
      omega
    · simp only [FieldsOk]
      omega
    · trivial

theorem fieldsOk_decodeRegisterForm (word : BitVec 32) : FieldsOk (decodeRegisterForm word) := by
  unfold decodeRegisterForm
  split
  · unfold decodeUimm
    split_ifs
    · trivial
    · exact fieldsOk_loadStoreOf word false fun _ _ _ _ _ h => AddrMode.noConfusion h
  · split
    · unfold decodeReg
      dsimp only
      split_ifs
      · trivial
      · trivial
      · apply fieldsOk_loadStoreOf
        intro size rn rm option shift h
        obtain ⟨-, -, -, rfl⟩ := AddrMode.regOffset.inj h
        exact .inr rfl
      · apply fieldsOk_loadStoreOf
        intro size rn rm option shift h
        obtain ⟨-, -, -, rfl⟩ := AddrMode.regOffset.inj h
        exact .inl rfl
    · exact fieldsOk_decodeAtomic word
    · unfold decodeUnscaled
      split_ifs
      · trivial
      · exact fieldsOk_loadStoreOf word false fun _ _ _ _ _ h => AddrMode.noConfusion h
    · exact fieldsOk_loadStoreOf word false fun _ _ _ _ _ h => AddrMode.noConfusion h
    · exact fieldsOk_loadStoreOf word false fun _ _ _ _ _ h => AddrMode.noConfusion h
    · unfold decodeUnscaled
      split_ifs
      · trivial
      · exact fieldsOk_loadStoreOf word true fun _ _ _ _ _ h => AddrMode.noConfusion h
    · trivial
  · trivial

theorem fieldsOk_decodeLiteral (word : BitVec 32) : FieldsOk (decodeLiteral word) := by
  have hload (size : ℕ) (signed dst64 vec : Bool) (hsize : size ≤ if vec then 4 else 3)
      (hdst : vec = false → size = 3 → dst64 = true) :
      FieldsOk (.loadStore size true signed dst64 vec false (regField word 0)
        (.literal (sfield word 5 19 * 4))) :=
    ⟨hsize, hdst, fun _ _ _ _ h => AddrMode.noConfusion h⟩
  unfold decodeLiteral
  dsimp only
  split_ifs
  · split
    · exact hload _ _ _ _ (by decide) (by decide)
    · exact hload _ _ _ _ (by decide) (by decide)
    · exact hload _ _ _ _ (by decide) (by decide)
    · trivial
  · split
    · exact hload _ _ _ _ (by decide) (by decide)
    · exact hload _ _ _ _ (by decide) (by decide)
    · exact hload _ _ _ _ (by decide) (by decide)
    · trivial

theorem fieldsOk_decodePair (word : BitVec 32) : FieldsOk (decodePair word) := by
  unfold decodePair
  dsimp only
  split
  · next width8 signed vesize _ hshape =>
    simp only [FieldsOk]
    cases hvec : flag word 26
    · rw [hvec] at hshape
      simp only [Bool.false_eq_true, if_false] at hshape ⊢
      split at hshape
      · cases hshape
        decide
      · cases hshape
        decide
      · split_ifs at hshape
        cases hshape
        decide
      · cases hshape
    · rw [hvec] at hshape
      simp only [if_true] at hshape ⊢
      split at hshape
      · cases hshape
        decide
      · cases hshape
        decide
      · cases hshape
        decide
      · cases hshape
  · trivial

theorem fieldsOk_decodeExcl (word : BitVec 32) : FieldsOk (decodeExcl word) := by
  have hsize : field word 30 2 ≤ 3 := Nat.le_of_lt_succ (field_lt word 30 2)
  unfold decodeExcl
  dsimp only
  split_ifs
  · exact hsize
  · trivial
  · exact ⟨hsize, fun _ => beq_iff_eq.mpr, fun _ _ _ _ h => AddrMode.noConfusion h⟩
  · exact hsize
  · exact hsize
  · exact hsize
  · exact hsize
  · trivial

theorem fieldsOk_decodeStructMultiple (word : BitVec 32) :
    FieldsOk (decodeStructMultiple word) := by
  have hsize := field_lt word 10 2
  refine fieldsOk_ite (fun _ => trivial) fun _ => ?_
  refine fieldsOk_ite (fun _ => trivial) fun _ => ?_
  split
  · trivial
  · next rpt selem hshape =>
    refine fieldsOk_ite (fun _ => trivial) fun _ => ?_
    simp only [FieldsOk]
    split at hshape <;> cases hshape <;> omega

theorem fieldsOk_decodeStructSingle (word : BitVec 32) : FieldsOk (decodeStructSingle word) := by
  have hsize := field_lt word 10 2
  have hselem : (((field word 13 3 &&& 1) <<< 1) ||| field word 21 1) + 1 ≤ 4 := by
    have hhigh : (field word 13 3 &&& 1) <<< 1 < 2 ^ 2 := by
      have hle : field word 13 3 &&& 1 ≤ 1 := Nat.and_le_right
      rw [Nat.shiftLeft_eq]
      omega
    have hlow : field word 21 1 < 2 ^ 2 := Nat.lt_of_lt_of_le (field_lt word 21 1) (by decide)
    exact Nat.or_lt_two_pow hhigh hlow
  have hsingle (scale index : ℕ) (hscale : scale ≤ 3) :
      FieldsOk (.simdLdStSingle (flag word 22) false (flag word 23) (regField word 16)
        (regField word 5) (regField word 0) scale
        ((((field word 13 3 &&& 1) <<< 1) ||| field word 21 1) + 1) index (flag word 30)) :=
    ⟨hscale, Nat.succ_pos _, hselem, fun h => Bool.noConfusion h⟩
  refine fieldsOk_ite (fun _ => trivial) fun _ => ?_
  refine fieldsOk_ite (fun _ => trivial) fun _ => ?_
  dsimp only
  split
  · refine fieldsOk_ite (fun _ => trivial) fun hload => ?_
    simp only [Bool.or_eq_true, not_or] at hload
    exact ⟨by omega, Nat.succ_pos _, hselem, fun _ => by simpa using hload.1⟩
  · exact hsingle 0 _ (by decide)
  · exact fieldsOk_ite (fun _ => trivial) fun _ => hsingle 1 _ (by decide)
  · refine fieldsOk_ite (fun _ => trivial) fun _ => ?_
    refine fieldsOk_ite (fun _ => hsingle 2 _ (by decide)) fun _ => ?_
    exact fieldsOk_ite (fun _ => trivial) fun _ => hsingle 3 _ (by decide)

theorem fieldsOk_decodeStructs (word : BitVec 32) : FieldsOk (decodeStructs word) :=
  fieldsOk_ite (fun _ => fieldsOk_decodeStructMultiple word)
    fun _ => fieldsOk_decodeStructSingle word

theorem fieldsOk_decodeLdst (word : BitVec 32) : FieldsOk (decodeLdst word) := by
  refine fieldsOk_ite (fun _ => fieldsOk_decodeExcl word) fun _ => ?_
  refine fieldsOk_ite (fun _ => fieldsOk_decodeStructs word) fun _ => ?_
  split
  · exact fieldsOk_decodeRegisterForm word
  · exact fieldsOk_ite (fun _ => fieldsOk_decodeLiteral word) fun _ => trivial
  · exact fieldsOk_decodePair word
  · trivial

/-! ## SIMD and floating point -/

theorem fieldsOk_decodeFp (word : BitVec 32) : FieldsOk (decodeFp word) := by
  refine fieldsOk_ite (fun _ => fieldsOk_ite (fun _ => trivial) fun _ => trivial) fun _ => ?_
  refine fieldsOk_ite (fun _ => trivial) fun _ => ?_
  refine fieldsOk_ite (fun _ => ?_) fun _ => ?_
  · refine fieldsOk_ite (fun _ => trivial) fun _ => ?_
    exact fieldsOk_ite (fun _ => trivial) fun _ => trivial
  · split
    · refine fieldsOk_ite (fun _ => ?_) fun _ => ?_
      · refine fieldsOk_ite (fun _ => trivial) fun _ => ?_
        refine fieldsOk_ite (fun _ => trivial) fun _ => ?_
        exact fieldsOk_ite (fun _ => trivial) fun _ => trivial
      · refine fieldsOk_ite (fun _ => fieldsOk_ite (fun _ => trivial) fun _ => trivial) fun _ => ?_
        refine fieldsOk_ite (fun _ => fieldsOk_ite (fun _ => trivial) fun _ => trivial) fun _ => ?_
        refine fieldsOk_ite (fun _ => fieldsOk_ite (fun _ => trivial) fun _ => trivial) fun _ => ?_
        trivial
    · exact fieldsOk_ite (fun _ => trivial) fun _ => trivial
    · exact fieldsOk_ite (fun _ => trivial) fun _ => trivial
    · exact fieldsOk_ite (fun _ => trivial) fun _ => trivial

theorem fieldsOk_decodeIndexed (word : BitVec 32) : FieldsOk (decodeIndexed word) := by
  refine fieldsOk_ite (fun _ => trivial) fun _ => ?_
  split <;> trivial

theorem fieldsOk_decodeTwoRegMisc (word : BitVec 32) : FieldsOk (decodeTwoRegMisc word) := by
  refine fieldsOk_ite (fun _ => fieldsOk_ite (fun _ => trivial) fun _ => trivial) fun _ => ?_
  refine fieldsOk_ite (fun _ => trivial) fun hvalid => ?_
  rw [Bool.not_eq_true', Bool.not_eq_false] at hvalid
  constructor
  · intro hop
    rw [hop] at hvalid
    cases hu : flag word 29
    · simpa [hu] using hvalid
    · simpa [hu] using hvalid
  · intro hop
    rw [hop] at hvalid
    simp only [Bool.and_eq_true, beq_iff_eq] at hvalid
    exact hvalid.2

theorem fieldsOk_decodeShiftImm {word : BitVec 32} (himmh : field word 19 4 ≠ 0) :
    FieldsOk (decodeShiftImm word) := by
  refine fieldsOk_ite (fun _ => trivial) fun _ => ?_
  exact ⟨Nat.pos_of_ne_zero himmh, field_lt word 19 4, field_lt word 16 3⟩

theorem fieldsOk_decodeZipTrn (word : BitVec 32) : FieldsOk (decodeZipTrn word) := by
  refine fieldsOk_ite (fun _ => trivial) fun _ => ?_
  refine fieldsOk_ite (fun _ => trivial) fun hsize => ?_
  have hlt := field_lt word 22 2
  show field word 22 2 ≤ if flag word 30 then 3 else 2
  cases hq : flag word 30
  · simp only [hq, Bool.not_false, Bool.and_true, beq_iff_eq] at hsize
    simp only [Bool.false_eq_true, if_false]
    omega
  · simp only [if_true]
    omega

theorem fieldsOk_decodeMovToGpr (word : BitVec 32) (signed q : Bool) (imm5 : ℕ) :
    FieldsOk (decodeMovToGpr word signed q imm5) := by
  unfold decodeMovToGpr
  split
  · trivial
  · exact fieldsOk_ite (fun _ => trivial) fun _ => trivial

theorem fieldsOk_decodeCopy (word : BitVec 32) : FieldsOk (decodeCopy word) := by
  refine fieldsOk_ite (fun _ => ?_) fun _ => ?_
  · refine fieldsOk_ite (fun _ => trivial) fun _ => ?_
    split <;> trivial
  · split
    · split
      · trivial
      · exact fieldsOk_ite (fun _ => trivial) fun _ => trivial
    · split
      · trivial
      · exact fieldsOk_ite (fun _ => trivial) fun _ => trivial
    · refine fieldsOk_ite (fun _ => ?_) fun _ => trivial
      split <;> trivial
    · exact fieldsOk_decodeMovToGpr word _ _ _
    · exact fieldsOk_decodeMovToGpr word _ _ _
    · trivial

theorem fieldsOk_decodeNeon (word : BitVec 32) : FieldsOk (decodeNeon word) := by
  refine fieldsOk_ite (fun _ => ?_) fun _ => ?_
  · refine fieldsOk_ite (fun _ => fieldsOk_decodeIndexed word) fun _ => ?_
    refine fieldsOk_ite (fun _ => ?_) fun himmh => fieldsOk_decodeShiftImm himmh
    refine fieldsOk_ite (fun _ => trivial) fun _ => ?_
    exact fieldsOk_ite (fun _ => trivial) fun _ => trivial
  · refine fieldsOk_ite (fun _ => fieldsOk_decodeZipTrn word) fun _ => ?_
    refine fieldsOk_ite (fun _ => trivial) fun _ => ?_
    refine fieldsOk_ite (fun _ => ?_) fun _ => ?_
    · refine fieldsOk_ite (fun _ => trivial) fun _ => ?_
      exact fieldsOk_ite (fun _ => trivial) fun _ => trivial
    refine fieldsOk_ite (fun _ => fieldsOk_ite (fun _ => trivial) fun _ => trivial) fun _ => ?_
    refine fieldsOk_ite (fun _ => fieldsOk_ite (fun _ => trivial) fun _ => trivial) fun _ => ?_
    refine fieldsOk_ite (fun _ => fieldsOk_ite (fun _ => trivial) fun _ => trivial) fun _ => ?_
    refine fieldsOk_ite (fun _ => fieldsOk_decodeTwoRegMisc word) fun _ => ?_
    refine fieldsOk_ite (fun _ => fieldsOk_decodeCopy word) fun _ => ?_
    refine fieldsOk_ite (fun _ => fieldsOk_ite (fun _ => trivial) fun _ => trivial) fun _ => ?_
    refine fieldsOk_ite (fun _ => ?_) fun _ => trivial
    refine fieldsOk_ite (fun _ => ?_) fun _ => ?_
    · refine fieldsOk_ite (fun _ => trivial) fun _ => ?_
      exact fieldsOk_ite (fun _ => trivial) fun _ => trivial
    · exact fieldsOk_ite (fun _ => trivial) fun _ => trivial

theorem fieldsOk_decodeScalarIndexed (word : BitVec 32) :
    FieldsOk (decodeScalarIndexed word) := by
  refine fieldsOk_ite (fun _ => trivial) fun _ => ?_
  split <;> trivial

theorem fieldsOk_decodeScalar (word : BitVec 32) : FieldsOk (decodeScalar word) := by
  refine fieldsOk_ite (fun _ => fieldsOk_ite (fun _ => trivial) fun _ => trivial) fun _ => ?_
  refine fieldsOk_ite (fun _ => fieldsOk_ite (fun _ => trivial) fun _ => trivial) fun _ => ?_
  refine fieldsOk_ite (fun _ => fieldsOk_ite (fun _ => trivial) fun _ => trivial) fun _ => ?_
  refine fieldsOk_ite (fun _ => fieldsOk_ite (fun _ => trivial) fun _ => trivial) fun _ => ?_
  refine fieldsOk_ite (fun _ => fieldsOk_ite (fun _ => trivial) fun _ => trivial) fun _ => ?_
  refine fieldsOk_ite (fun _ => fieldsOk_ite (fun _ => trivial) fun _ => trivial) fun _ => ?_
  refine fieldsOk_ite (fun _ => fieldsOk_ite (fun _ => trivial) fun _ => trivial) fun _ => ?_
  refine fieldsOk_ite (fun _ => fieldsOk_decodeScalarIndexed word) fun _ => ?_
  refine fieldsOk_ite (fun _ => ?_) fun _ => trivial
  refine fieldsOk_ite (fun _ => trivial) fun _ => ?_
  exact fieldsOk_ite (fun _ => trivial) fun _ => trivial

/-! ## Every word -/

theorem fieldsOk_decode (word : BitVec 32) : FieldsOk (decode word) := by
  refine fieldsOk_ite (fun _ => fieldsOk_decodeLdst word) fun _ => ?_
  split
  · exact fieldsOk_decodeDpImm word
  · exact fieldsOk_decodeDpImm word
  · exact fieldsOk_decodeBranch word
  · exact fieldsOk_decodeBranch word
  · exact fieldsOk_decodeDpReg word
  · exact fieldsOk_decodeDpReg word
  · exact fieldsOk_ite (fun _ => fieldsOk_decodeScalar word) fun _ => fieldsOk_decodeFp word
  · exact fieldsOk_decodeNeon word
  · trivial

end V64.Decoder
