import Mathlib.Tactic.IntervalCases
import V64.Decoder.Fields
import V64.Decoder.Group
import V64.Interp.Execute

/-!
# Instructions that abort the host

A decoded word has an executor, and the executors of the integer and memory
instructions return, but for one: `cas_pair` indexes the register after Rs, and
the one after Rt if it stores, with no test (`cas.rs`, lines 69, 72). Register 31
has none, so the index is out of bounds there and the host panics.

* `execute_eq_none`: a decoded word whose execution panics is such a CASP, or an
  instruction that the SIMD and floating-point executors refuse.
-/

namespace V64.Interp

open V64.Cpu V64.Decoder

/-! ## Selectors -/

/-- The selector is one that the executor matches; `unreachable!` is for the others. -/
def Implemented : Insn → Prop
  | .dataProc1Src _ opcode _ _ => opcode ≤ 5
  | .dataProc2Src _ opcode _ _ _ =>
    opcode = 2 ∨ opcode = 3 ∨ 8 ≤ opcode ∧ opcode ≤ 11 ∨ 0x10 ≤ opcode ∧ opcode ≤ 0x17
  | .dataProc3Src _ op31 _ _ _ _ _ => op31 ≤ 2 ∨ op31 = 5 ∨ op31 = 6
  | _ => True

theorem implemented_ite {c : Prop} [Decidable c] {a b : Insn} (ha : c → Implemented a)
    (hb : ¬ c → Implemented b) : Implemented (if c then a else b) := by
  split_ifs with h
  · exact ha h
  · exact hb h

theorem implemented_decodeDataProc1Src (word : BitVec 32) :
    Implemented (decodeDataProc1Src word) := by
  refine implemented_ite (fun _ => trivial) fun _ => ?_
  refine implemented_ite (fun _ => trivial) fun h => ?_
  show field word 10 6 ≤ 5
  omega

theorem implemented_decodeDataProc2Src (word : BitVec 32) :
    Implemented (decodeDataProc2Src word) := by
  refine implemented_ite (fun _ => trivial) fun hok => ?_
  show field word 10 6 = 2 ∨ field word 10 6 = 3 ∨ 8 ≤ field word 10 6 ∧ field word 10 6 ≤ 11 ∨
    0x10 ≤ field word 10 6 ∧ field word 10 6 ≤ 0x17
  generalize field word 10 6 = opcode at hok ⊢
  split at hok
  all_goals first | omega | exact absurd rfl hok

theorem implemented_decodeDataProc3Src (word : BitVec 32) :
    Implemented (decodeDataProc3Src word) := by
  refine implemented_ite (fun _ => trivial) fun _ => ?_
  refine implemented_ite (fun _ => trivial) fun hvalid => ?_
  show field word 21 3 ≤ 2 ∨ field word 21 3 = 5 ∨ field word 21 3 = 6
  generalize field word 21 3 = op31 at hvalid ⊢
  split at hvalid
  all_goals first | omega | exact absurd rfl hvalid

theorem implemented_decodeDpReg (word : BitVec 32) : Implemented (decodeDpReg word) := by
  unfold decodeDpReg
  split
  · exact implemented_ite (fun _ => trivial) fun _ => trivial
  · refine implemented_ite (fun _ => ?_) fun _ => implemented_ite (fun _ => trivial)
      fun _ => trivial
    unfold decodeAddSubShiftedReg
    dsimp only
    split
    · exact implemented_ite (fun _ => trivial) fun _ => trivial
    · exact implemented_ite (fun _ => trivial) fun _ => trivial
    · exact implemented_ite (fun _ => trivial) fun _ => trivial
    · trivial
  · exact implemented_decodeDataProc3Src word
  · split
    · exact implemented_ite (fun _ => trivial) fun _ => trivial
    · exact implemented_ite (fun _ => trivial) fun _ => trivial
    · exact implemented_ite (fun _ => trivial) fun _ => trivial
    · exact implemented_ite (fun _ => implemented_decodeDataProc1Src word)
        fun _ => implemented_decodeDataProc2Src word
    · trivial
  · trivial

theorem implemented_of_group {insn : Insn} (h : insn.group ≠ some .dpReg) : Implemented insn := by
  cases insn with
  | dataProc1Src sf opcode rn rd => exact absurd rfl h
  | dataProc2Src sf opcode rm rn rd => exact absurd rfl h
  | dataProc3Src sf op31 o0 rm ra rn rd => exact absurd rfl h
  | _ => trivial

theorem implemented_decode (word : BitVec 32) : Implemented (decode word) := by
  by_cases hgroup : (decode word).group = some .dpReg
  · rw [decode_eq_groupDecoder hgroup]
    exact implemented_decodeDpReg word
  · exact implemented_of_group hgroup

/-! ## Data processing -/

section DataProc

variable {cpu : CpuState} {sf : Bool} {rd : Reg}

theorem moveWide_isSome {opc : ℕ} (hopc : opc = 0 ∨ opc = 2 ∨ opc = 3) (hw : BitVec 2)
    (imm16 : BitVec 16) : (moveWide cpu sf opc hw imm16 rd).isSome := by
  rcases hopc with rfl | rfl | rfl
  · rfl
  · rfl
  · rfl

theorem logicalOp_isSome {opc : ℕ} (hopc : opc ≤ 3) (a b : BitVec 64) :
    (logicalOp opc a b).isSome := by
  interval_cases opc
  · rfl
  · rfl
  · rfl
  · rfl

theorem logicalImm_isSome {opc : ℕ} (hopc : opc ≤ 3) (imm : BitVec 64) (rn : Reg) :
    (logicalImm cpu sf opc imm rn rd).isSome := by
  unfold logicalImm
  rw [Option.isSome_map]
  exact logicalOp_isSome hopc _ _

theorem logicalReg_isSome {opc : ℕ} (hopc : opc ≤ 3) (negate : Bool) (shift : ShiftType)
    (amount : BitVec 6) (rm rn : Reg) :
    (logicalReg cpu sf opc negate shift amount rm rn rd).isSome := by
  unfold logicalReg
  rw [Option.isSome_map]
  exact logicalOp_isSome hopc _ _

theorem dataProc1Src_isSome {opcode : ℕ} {rn : Reg}
    (h : Implemented (.dataProc1Src sf opcode rn rd)) :
    (dataProc1Src cpu sf opcode rn rd).isSome := by
  have hopcode : opcode ≤ 5 := h
  unfold dataProc1Src
  rw [Option.isSome_map]
  interval_cases opcode <;> rfl

theorem dataProc2Src_isSome {opcode : ℕ} {rm rn : Reg}
    (h : Implemented (.dataProc2Src sf opcode rm rn rd)) :
    (dataProc2Src cpu sf opcode rm rn rd).isSome := by
  unfold dataProc2Src
  dsimp only
  by_cases hcrc : 0x10 ≤ opcode ∧ opcode ≤ 0x17
  · rw [if_pos hcrc]
    rfl
  · rw [if_neg hcrc, Option.isSome_map]
    rcases h with rfl | rfl | ⟨hlo, hhi⟩ | hcrc'
    · rfl
    · rfl
    · interval_cases opcode <;> rfl
    · exact absurd hcrc' hcrc

theorem dataProc3Src_isSome {op31 : ℕ} {o0 : Bool} {rm ra rn : Reg}
    (h : Implemented (.dataProc3Src sf op31 o0 rm ra rn rd)) :
    (dataProc3Src cpu sf op31 o0 rm ra rn rd).isSome := by
  unfold dataProc3Src
  rw [Option.isSome_map]
  rcases h with hle | rfl | rfl
  · interval_cases op31 <;> rfl
  · rfl
  · rfl

end DataProc

/-! ## Compare and swap of a pair -/

/-- A CASP that names register 31, which begins no pair. -/
def NoPair : Insn → Prop
  | .compareSwapPair _ rs _ rt => rs = 31 ∨ rt = 31
  | _ => False

theorem nextReg_isSome {r : Reg} (h : r ≠ 31) : (nextReg r).isSome := by
  have hlt : r.val + 1 < 32 := by
    have hne : r.val ≠ 31 := fun hval => h (Fin.ext hval)
    omega
  unfold nextReg
  rw [dif_pos hlt]
  rfl

section Casp

variable {M : Type} [GuestMem M]

theorem compareSwapPair_isSome (g : Guest M) (sz : ℕ) {rs rt : Reg} (hrs : rs ≠ 31)
    (hrt : rt ≠ 31) (rn : Reg) : (compareSwapPair g sz rs rn rt).isSome := by
  obtain ⟨rs2, hrs2⟩ := Option.isSome_iff_exists.mp (nextReg_isSome hrs)
  obtain ⟨rt2, hrt2⟩ := Option.isSome_iff_exists.mp (nextReg_isSome hrt)
  unfold compareSwapPair
  dsimp only
  rw [hrs2, hrt2]
  simp only [Option.bind_eq_bind, Option.bind_some]
  split
  · rfl
  · split_ifs <;> rfl

end Casp

/-! ## Every word -/

/-- The instructions that `execute` hands to the SIMD and floating-point executors. -/
def IsVector (insn : Insn) : Prop :=
  insn.group = some .fp ∨ insn.group = some .scalar ∨ insn.group = some .neon

instance (insn : Insn) : Decidable (IsVector insn) := inferInstanceAs (Decidable (_ ∨ _ ∨ _))

section Execute

variable {M : Type} [GuestMem M] {vu : VecUnit} {g : Guest M} {insn : Insn} {pc : BitVec 64}

omit [GuestMem M] in
theorem bind_seq_ne_none {cpu : Option CpuState} (h : cpu.isSome) : cpu.bind (seq g) ≠ none := by
  obtain ⟨c, rfl⟩ := Option.isSome_iff_exists.mp h
  exact Option.some_ne_none _

theorem execute_of_isVector (hvec : IsVector insn) :
    execute vu g insn pc = (vu insn (vecView g.cpu)).bind fun w => seq g (setVecView g.cpu w) := by
  cases insn <;> first | rfl | exact absurd hvec (by rintro (h | h | h) <;> cases h)

theorem refused_of_none (hvec : IsVector insn) (h : execute vu g insn pc = none) :
    vu insn (vecView g.cpu) = none := by
  rw [execute_of_isVector hvec] at h
  cases hvu : vu insn (vecView g.cpu) with
  | none => rfl
  | some w =>
    rw [hvu] at h
    exact absurd h (Option.some_ne_none _)

theorem noPair_of_none {sz : ℕ} {rs rn rt : Reg}
    (h : execute vu g (.compareSwapPair sz rs rn rt) pc = none) :
    NoPair (.compareSwapPair sz rs rn rt) := by
  have hexecute : execute vu g (.compareSwapPair sz rs rn rt) pc =
      (compareSwapPair g sz rs rn rt).map fun g => (none, g) := rfl
  by_contra hpair
  obtain ⟨hrs, hrt⟩ := not_or.mp hpair
  obtain ⟨g', hg'⟩ := Option.isSome_iff_exists.mp (compareSwapPair_isSome g sz hrs hrt rn)
  rw [hexecute, hg'] at h
  exact Option.some_ne_none _ h

/-- An instruction with the selectors of a decoded word panics only as a CASP of
    register 31 or in the vector executors. -/
theorem noPair_or_refused (hfields : FieldsOk insn) (himpl : Implemented insn)
    (hsupported : insn.group ≠ none) (h : execute vu g insn pc = none) :
    NoPair insn ∨ IsVector insn ∧ vu insn (vecView g.cpu) = none := by
  by_cases hvec : IsVector insn
  · exact .inr ⟨hvec, refused_of_none hvec h⟩
  left
  cases insn with
  | moveWide sf opc hw imm16 rd => exact absurd h (bind_seq_ne_none (moveWide_isSome hfields _ _))
  | logicalImm sf opc imm rn rd =>
    exact absurd h (bind_seq_ne_none (logicalImm_isSome hfields _ _))
  | logicalShiftedReg sf opc negate shift amount rm rn rd =>
    exact absurd h (bind_seq_ne_none (logicalReg_isSome hfields _ _ _ _ _))
  | dataProc1Src sf opcode rn rd => exact absurd h (bind_seq_ne_none (dataProc1Src_isSome himpl))
  | dataProc2Src sf opcode rm rn rd =>
    exact absurd h (bind_seq_ne_none (dataProc2Src_isSome himpl))
  | dataProc3Src sf op31 o0 rm ra rn rd =>
    exact absurd h (bind_seq_ne_none (dataProc3Src_isSome himpl))
  | compareSwapPair sz rs rn rt => exact noPair_of_none h
  | unsupported word => exact absurd rfl hsupported
  | fpDataProc1 | fpDataProc2 | fpDataProc3 | fpCondCompare | fpCompare | fpCondSelect | fpCvtInt
  | fpImm | fpCvtFixed => exact absurd (.inl rfl) hvec
  | simdScalarThreeSame | simdScalarTwoRegMisc | simdScalarPairwise | simdScalarThreeDiff
  | simdScalarCopy | simdScalarShiftImm | simdScalarIndexed | cryptoSha3 | cryptoSha2 =>
    exact absurd (.inr (.inl rfl)) hvec
  | simdThreeSame | simdThreeSameFp | simdThreeDiff | simdIndexed | simdTableLookup | cryptoAes
  | simdThreeSameExtra | simdZipTrn | simdExt | simdShiftImm | simdAcrossLanes | simdTwoRegMisc
  | simdTwoRegMiscFp | simdModImm | simdDupGeneral | simdDupElement | simdInsGeneral
  | simdInsElement | simdMovToGpr => exact absurd (.inr (.inr rfl)) hvec
  | _ => exact absurd h (Option.some_ne_none _)

/-- The panics of `execute` on a decoded word. -/
theorem execute_eq_none {word : BitVec 32} (hsupported : ∀ w, decode word ≠ .unsupported w)
    (h : execute vu g (decode word) pc = none) :
    NoPair (decode word) ∨ IsVector (decode word) ∧ vu (decode word) (vecView g.cpu) = none := by
  refine noPair_or_refused (fieldsOk_decode word) (implemented_decode word) ?_ h
  generalize decode word = insn at hsupported ⊢
  cases insn with
  | unsupported w => exact absurd rfl (hsupported w)
  | _ => exact Option.some_ne_none _

end Execute

end V64.Interp
