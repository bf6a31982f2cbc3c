import Mathlib.Tactic.IntervalCases
import V64.Jit.Lower.Fp
import V64.Jit.Lower.Region

/-!
# Emitting a block or a region

Model of `crates/jit/src/emit.rs`, short of the module around the function: `none`
is a lowering that reports failure, which is only asserted against, or a panic.

* `lowerInsn_isSome`: what `canInline` admits and the decoder makes is lowered.
* `emit_lockstep`: so is every block that discovery yields, by both emitters.
-/

namespace V64.Jit

open V64.Cpu V64.Decoder V64.Interp Wasm
open Wasm.Instr

/-- The loop of `emit_body` (lines 121–163), from index `i`. -/
def blockInsns (L : Layout) (vl : VecLowering) (entryPc ramPhys ramSize : BitVec 64) :
    ℕ → List (BitVec 64 × Insn) → Option (List Instr)
  | _, [] => some []
  | i, (pc, insn) :: rest => do
    let isLast := rest.isEmpty
    if isLast && isTerminator insn then lowerTerminator insn pc entryPc
    else
      let code ← lowerInsn L vl insn ⟨pc, entryPc, BitVec.ofNat 64 i, ramPhys, ramSize, none⟩
      let codes ← blockInsns L vl entryPc ramPhys ramSize (i + 1) rest
      return code ++ (if isLast then genRelPc (pc + 4) entryPc else []) ++ codes

/-- `emit_body` (lines 104–166). -/
def emitBody (L : Layout) (vl : VecLowering) (block : Block) (ramPhys ramSize : BitVec 64) :
    Option (List Instr) := do
  let code ← blockInsns L vl block.start ramPhys ramSize 0 block.insns
  return loadEntryPc ++ storeCountConst (BitVec.ofNat 64 block.insns.length) ++ code

/-- `is_self_loop` (lines 51–56). -/
def isSelfLoop (block : Block) : Bool :=
  match block.insns.getLast? with
  | some (pc, insn) => takenTarget insn pc == some block.start
  | none => false

/-- `emit_region` (lines 39–46). -/
def emitRegion (L : Layout) (vl : VecLowering) (region : Region) (ramPhys ramSize : BitVec 64) :
    Option (List Instr) :=
  match region.blocks with
  | [b] =>
    if isSelfLoop b then emitRegionBody L vl region ramPhys ramSize
    else emitBody L vl b ramPhys ramSize
  | _ => emitRegionBody L vl region ramPhys ramSize

/-! ## One instruction -/

theorem lowerMem_isSome (L : Layout) {insn : Insn} (h : isInlineLoadStore insn = true)
    (site : Site) : (lowerMem L insn site).isSome := by
  cases insn with
  | loadStore size isLoad signed dst64 vec unpriv rt mode =>
    dsimp only [isInlineLoadStore] at h
    have hunpriv : ¬ unpriv = true := by
      intro hunpriv
      rw [if_pos hunpriv] at h
      exact Bool.noConfusion h
    rw [if_neg hunpriv] at h
    have hsize : ¬ size > if vec = true then 4 else 3 := by
      intro hsize
      rw [if_pos hsize] at h
      exact Bool.noConfusion h
    rw [if_neg hsize] at h
    have haddress : (memAddress mode).isSome := by
      cases mode with
      | unsignedImm rn imm => rfl
      | unscaled rn imm => rfl
      | preIndex rn imm => rfl
      | postIndex rn imm => rfl
      | literal offset => exact Bool.noConfusion h
      | regOffset rn rm option shift =>
        have hoption : option = 2 ∨ option = 3 ∨ option = 6 ∨ option = 7 := by
          simpa [or_assoc] using h
        rw [memAddress, if_pos hoption]
        rfl
    rw [lowerMem, if_neg (not_or_intro hunpriv hsize), Option.isSome_map]
    exact haddress
  | _ => exact Bool.noConfusion h

theorem lowerMemPair_isSome (L : Layout) {insn : Insn} (h : isInlineLoadStorePair insn = true)
    (site : Site) : (lowerMemPair L insn site).isSome := by
  cases insn with
  | loadStorePair isLoad signed width8 vec vesize rt rt2 rn offset index => rfl
  | _ => exact Bool.noConfusion h

theorem lowerAtomic_isSome (L : Layout) {insn : Insn} (h : isInlineAtomic insn = true)
    (site : Site) : (lowerAtomic L insn site).isSome := by
  cases insn with
  | atomicRmw size op rs rn rt =>
    simp only [isInlineAtomic, Bool.and_eq_true, decide_eq_true_eq] at h
    rw [lowerAtomic, if_neg (by omega)]
    rfl
  | compareSwap size rs rn rt =>
    simp only [isInlineAtomic, decide_eq_true_eq] at h
    rw [lowerAtomic, if_neg (by omega)]
    rfl
  | loadExclusive size rt rn =>
    simp only [isInlineAtomic, decide_eq_true_eq] at h
    rw [lowerAtomic, if_neg (by omega)]
    rfl
  | storeExclusive size rs rt rn =>
    simp only [isInlineAtomic, decide_eq_true_eq] at h
    rw [lowerAtomic, if_neg (by omega)]
    rfl
  | _ => exact Bool.noConfusion h

theorem moveWide_isSome (sf : Bool) {opc : ℕ} (hopc : opc = 0 ∨ opc = 2 ∨ opc = 3) (hw : BitVec 2)
    (imm16 : BitVec 16) (rd : Reg) : (moveWide sf opc hw imm16 rd).isSome := by
  unfold moveWide
  cases destOff rd false with
  | none => rfl
  | some off =>
    obtain rfl | rfl | rfl := hopc
    · rfl
    · rfl
    · rfl

theorem logical_isSome (sf : Bool) {opc : ℕ} (hopc : opc ≤ 3) (b : BOp) (rn rd : Reg)
    (dstSp : Bool) : (logical sf opc b rn rd dstSp).isSome := by
  interval_cases opc <;> rfl

theorem dataProc1Src_isSome {sf : Bool} {opcode : ℕ} (h : isInlineDp1 sf opcode = true)
    (rn rd : Reg) : (dataProc1Src sf opcode rn rd).isSome := by
  obtain rfl | rfl | rfl | ⟨hop, hgroup⟩ := isInlineDp1_cases h
  · rfl
  · rfl
  · rfl
  · cases sf with
    | true => obtain rfl | rfl | rfl := hop <;> rfl
    | false =>
      obtain rfl | rfl | rfl := hop
      · rfl
      · rfl
      -- REV64 has no W form
      · exact absurd hgroup (by decide)

theorem dataProc2Src_isSome (sf : Bool) {opcode : ℕ} (h : isInlineDp2 opcode = true)
    (rm rn rd : Reg) : (dataProc2Src sf opcode rm rn rd).isSome := by
  have hop : opcode = 2 ∨ opcode = 3 ∨ opcode = 8 ∨ opcode = 9 ∨ opcode = 10 ∨ opcode = 11 := by
    simpa [isInlineDp2] using h
  obtain rfl | rfl | rfl | rfl | rfl | rfl := hop
  · rfl
  · rfl
  · rfl
  · rfl
  · rfl
  · rfl

theorem dataProc3Src_isSome (sf : Bool) {op31 : ℕ} (h : isInlineDp3 op31 = true) (o0 : Bool)
    (rm ra rn rd : Reg) : (dataProc3Src sf op31 o0 rm ra rn rd).isSome := by
  have hop : op31 = 0 ∨ op31 = 1 ∨ op31 = 2 ∨ op31 = 5 ∨ op31 = 6 := by
    simpa [isInlineDp3] using h
  obtain rfl | rfl | rfl | rfl | rfl := hop
  · rfl
  · rfl
  · rfl
  · rfl
  · rfl

/-- A register instruction: the three selectors the decoder restricts, the three
    classes admitted in part, and the vector unit. -/
theorem lowerSequential_isSome {insn : Insn} (hfields : FieldsOk insn)
    (hmem : isInlineMem insn = false) (hinline : canInline vecLowering insn = true)
    (pc entryPc : BitVec 64) : (lowerSequential vecLowering insn pc entryPc).isSome := by
  have hvec (h : vecLowering.isInline insn = true) : (vecLowering.lower insn).isSome :=
    vecLowering_isSome hfields h
  unfold canInline at hinline
  rw [hmem, Bool.false_or] at hinline
  cases insn with
  | moveWide sf opc hw imm16 rd => exact moveWide_isSome sf hfields hw imm16 rd
  | logicalImm sf opc imm rn rd => exact logical_isSome sf hfields _ rn rd _
  | logicalShiftedReg sf opc negate shift amount rm rn rd =>
    exact logical_isSome sf hfields _ rn rd _
  | dataProc1Src sf opcode rn rd => exact dataProc1Src_isSome hinline rn rd
  | dataProc2Src sf opcode rm rn rd => exact dataProc2Src_isSome sf hinline rm rn rd
  | dataProc3Src sf op31 o0 rm ra rn rd => exact dataProc3Src_isSome sf hinline o0 rm ra rn rd
  | addSubImm sf sub setFlags shift12 imm12 rn rd => rfl
  | addSubShiftedReg sf sub setFlags shift amount rm rn rd => rfl
  | addSubExtReg sf sub setFlags option imm3 rm rn rd => rfl
  | addSubCarry sf sub setFlags rm rn rd => rfl
  | bitfield sf opc wmask tmask immr imms rn rd => rfl
  | extract sf rm rn lsb rd => rfl
  | pcRel page imm rd => rfl
  | condSelect sf op o2 cond rm rn rd => rfl
  | condCompare sf sub isImm immY rm cond nzcv rn => rfl
  | nop => rfl
  | prfm => rfl
  | _ => exact hvec hinline

theorem lowerInsn_isSome (L : Layout) {insn : Insn} (hfields : FieldsOk insn)
    (hinline : canInline vecLowering insn = true) (site : Site) :
    (lowerInsn L vecLowering insn site).isSome := by
  unfold lowerInsn
  split_ifs with hsingle hpair hatomic
  · exact lowerMem_isSome L hsingle site
  · exact lowerMemPair_isSome L hpair site
  · exact lowerAtomic_isSome L hatomic site
  · have hmem : isInlineMem insn = false := by
      simp only [isInlineMem, hsingle, hpair, hatomic, Bool.or_self]
    exact lowerSequential_isSome hfields hmem hinline site.pc site.entryPc

/-! ## Blocks -/

theorem isTerminator_of_isBranch {insn : Insn} (h : isBranch insn = true) :
    isTerminator insn = true := by
  cases insn with
  | branchImm link offset => rfl
  | branchReg opc rn => rfl
  | condBranch cond offset => rfl
  | compareBranch sf negate rt offset => rfl
  | testBranch bit negate rt offset => rfl
  | _ => exact Bool.noConfusion h

/-- No terminator is admitted as a body instruction. -/
theorem isTerminator_of_canInline {insn : Insn} (h : canInline vecLowering insn = true) :
    isTerminator insn = false := by
  cases insn with
  | branchImm link offset => exact Bool.noConfusion h
  | branchReg opc rn => exact Bool.noConfusion h
  | condBranch cond offset => exact Bool.noConfusion h
  | compareBranch sf negate rt offset => exact Bool.noConfusion h
  | testBranch bit negate rt offset => exact Bool.noConfusion h
  | svc imm16 => exact Bool.noConfusion h
  | eret => exact Bool.noConfusion h
  | unsupported word => exact Bool.noConfusion h
  | _ => rfl

theorem isBranch_of_canInline {insn : Insn} (h : canInline vecLowering insn = true) :
    isBranch insn = false := by
  cases hbranch : isBranch insn with
  | false => rfl
  | true =>
    have hterm := isTerminator_of_isBranch hbranch
    rw [isTerminator_of_canInline h] at hterm
    exact Bool.noConfusion hterm

/-- An instruction that `canInline` admits and the decoder makes. -/
def Admitted (insn : Insn) : Prop := FieldsOk insn ∧ canInline vecLowering insn = true

/-- A compilable block is admitted instructions, then one more or a branch. -/
theorem Compilable.eq_concat {block : Block} (h : Compilable vecLowering block) :
    ∃ init p, block.insns = init ++ [p] ∧ (∀ q ∈ init, Admitted q.2) ∧
      (Admitted p.2 ∨ isBranch p.2 = true) := by
  have hfields (q) (hq : q ∈ block.insns) : FieldsOk q.2 := by
    obtain ⟨word, hword⟩ := h.decoded q hq
    rw [hword]
    exact fieldsOk_decode word
  obtain hnil | ⟨init, p, hcat⟩ := List.eq_nil_or_concat block.insns
  · exact absurd hnil h.nonempty
  · rw [List.concat_eq_append] at hcat
    refine ⟨init, p, hcat, ?_, ?_⟩
    · intro q hq
      have hmem : q ∈ block.insns := hcat ▸ List.mem_append_left [p] hq
      have hdrop : q ∈ block.insns.dropLast := by
        rw [hcat, List.dropLast_concat]
        exact hq
      exact ⟨hfields q hmem, h.admitted q hdrop⟩
    · have hmem : p ∈ block.insns := hcat ▸ List.mem_append_right init (List.mem_singleton_self p)
      have hlast : p ∈ block.insns.getLast? := by
        rw [hcat, List.getLast?_concat]
        rfl
      exact (h.last p hlast).imp_left fun hinline => ⟨hfields p hmem, hinline⟩

section Blocks

variable (L : Layout) (ramPhys ramSize : BitVec 64)

theorem blockInsns_isSome (entryPc : BitVec 64) {init : List (BitVec 64 × Insn)}
    {p : BitVec 64 × Insn} (hinit : ∀ q ∈ init, Admitted q.2)
    (hlast : Admitted p.2 ∨ isBranch p.2 = true) (i : ℕ) :
    (blockInsns L vecLowering entryPc ramPhys ramSize i (init ++ [p])).isSome := by
  induction init generalizing i with
  | nil =>
    obtain ⟨pc, insn⟩ := p
    show (if isTerminator insn then _ else _ : Option (List Instr)).isSome
    obtain hadm | hbranch := hlast
    · obtain ⟨code, hcode⟩ := Option.isSome_iff_exists.mp (lowerInsn_isSome L hadm.1 hadm.2
        ⟨pc, entryPc, BitVec.ofNat 64 i, ramPhys, ramSize, none⟩)
      rw [if_neg (Bool.not_eq_true _ ▸ isTerminator_of_canInline hadm.2), hcode]
      rfl
    · rw [if_pos (isTerminator_of_isBranch hbranch)]
      exact lowerTerminator_isSome hbranch pc entryPc
  | cons q init ih =>
    obtain ⟨pc, insn⟩ := q
    have hadm : Admitted insn := hinit (pc, insn) (List.mem_cons_self ..)
    obtain ⟨code, hcode⟩ := Option.isSome_iff_exists.mp (lowerInsn_isSome L hadm.1 hadm.2
      ⟨pc, entryPc, BitVec.ofNat 64 i, ramPhys, ramSize, none⟩)
    obtain ⟨codes, hcodes⟩ := Option.isSome_iff_exists.mp
      (ih (fun q' hq' => hinit q' (List.mem_cons_of_mem _ hq')) (i + 1))
    have hmore : (init ++ [p]).isEmpty = false := by
      rw [List.isEmpty_eq_false_iff]
      exact List.append_ne_nil_of_right_ne_nil init (List.cons_ne_nil p [])
    rw [List.cons_append, blockInsns, hmore, Bool.false_and, if_neg Bool.false_ne_true, hcode,
      Option.bind_eq_bind, Option.bind_some, hcodes]
    rfl

/-- `emit_body` lowers every instruction of a compilable block. -/
theorem emitBody_isSome {block : Block} (h : Compilable vecLowering block) :
    (emitBody L vecLowering block ramPhys ramSize).isSome := by
  obtain ⟨init, p, hcat, hinit, hlast⟩ := h.eq_concat
  obtain ⟨code, hcode⟩ := Option.isSome_iff_exists.mp
    (blockInsns_isSome L ramPhys ramSize block.start hinit hlast 0)
  rw [emitBody, hcat, hcode]
  rfl

theorem regionBody_isSome (region : Region) {insns : List (BitVec 64 × Insn)}
    (h : ∀ q ∈ insns, Admitted q.2) (i : ℕ) :
    (regionBody L vecLowering region ramPhys ramSize i insns).isSome := by
  induction insns generalizing i with
  | nil => rfl
  | cons q insns ih =>
    obtain ⟨pc, insn⟩ := q
    have hadm : Admitted insn := h (pc, insn) (List.mem_cons_self ..)
    obtain ⟨code, hcode⟩ := Option.isSome_iff_exists.mp (lowerInsn_isSome L hadm.1 hadm.2
      ⟨pc, region.entry, BitVec.ofNat 64 i, ramPhys, ramSize, some rcount⟩)
    obtain ⟨codes, hcodes⟩ := Option.isSome_iff_exists.mp
      (ih (fun q' hq' => h q' (List.mem_cons_of_mem _ hq')) (i + 1))
    rw [regionBody, hcode, Option.bind_eq_bind, Option.bind_some, hcodes]
    rfl

theorem regionTerminator_isSome (region : Region) (loopDepth : ℕ) (term : Insn)
    (pc : BitVec 64) : (regionTerminator region loopDepth term pc).isSome := by
  cases term with
  | branchImm link offset => cases link <;> rfl
  | _ => rfl

/-- `emit_region_block` lowers every instruction of a compilable block, in any region. -/
theorem emitRegionBlock_isSome (region : Region) (loopDepth : ℕ) {block : Block}
    (h : Compilable vecLowering block) :
    (emitRegionBlock L vecLowering region ramPhys ramSize loopDepth block).isSome := by
  obtain ⟨init, ⟨pc, term⟩, hcat, hinit, hlast⟩ := h.eq_concat
  rw [emitRegionBlock, hcat, List.getLast?_concat, Option.bind_eq_bind, Option.bind_some,
    List.dropLast_concat]
  dsimp only
  obtain hadm | hbranch := hlast
  · have hall : ∀ q ∈ init ++ [(pc, term)], Admitted q.2 := by
      intro q hq
      obtain hq | hq := List.mem_append.mp hq
      · exact hinit q hq
      · rw [List.mem_singleton.mp hq]
        exact hadm
    obtain ⟨body, hbody⟩ := Option.isSome_iff_exists.mp
      (regionBody_isSome L ramPhys ramSize region hall 0)
    rw [isBranch_of_canInline hadm.2, if_neg Bool.false_ne_true, hbody]
    rfl
  · obtain ⟨body, hbody⟩ := Option.isSome_iff_exists.mp
      (regionBody_isSome L ramPhys ramSize region hinit 0)
    obtain ⟨code, hcode⟩ := Option.isSome_iff_exists.mp
      (regionTerminator_isSome region loopDepth term pc)
    rw [hbranch, if_pos rfl, hbody, hcode]
    rfl

theorem regionBlocks_isSome (region : Region) {blocks : List Block}
    (h : ∀ b ∈ blocks, Compilable vecLowering b) (k i : ℕ) (code : List Instr) :
    (regionBlocks L vecLowering region ramPhys ramSize k i blocks code).isSome := by
  induction blocks generalizing i code with
  | nil => rfl
  | cons b blocks ih =>
    obtain ⟨blockCode, hblock⟩ := Option.isSome_iff_exists.mp
      (emitRegionBlock_isSome L ramPhys ramSize region (k - i) (h b (List.mem_cons_self ..)))
    rw [regionBlocks, hblock, Option.bind_eq_bind, Option.bind_some]
    exact ih (fun b' hb' => h b' (List.mem_cons_of_mem b hb')) (i + 1) _

theorem emitRegionBody_isSome {region : Region}
    (h : ∀ b ∈ region.blocks, Compilable vecLowering b) :
    (emitRegionBody L vecLowering region ramPhys ramSize).isSome := by
  obtain ⟨code, hcode⟩ := Option.isSome_iff_exists.mp
    (regionBlocks_isSome L ramPhys ramSize region h region.blocks.length 0
      [localGet ridx, brTable (List.range region.blocks.length) region.blocks.length])
  rw [emitRegionBody, hcode]
  rfl

theorem emitRegion_isSome {region : Region}
    (h : ∀ b ∈ region.blocks, Compilable vecLowering b) :
    (emitRegion L vecLowering region ramPhys ramSize).isSome := by
  unfold emitRegion
  split
  · next b hb =>
    split_ifs
    · exact emitRegionBody_isSome L ramPhys ramSize h
    · exact emitBody_isSome L ramPhys ramSize (h b (hb ▸ List.mem_singleton_self b))
  · exact emitRegionBody_isSome L ramPhys ramSize h

end Blocks

/-! ## Lockstep -/

/-- Eligibility and lowering agree on every word, and so does everything built on them:
    an admitted word is lowered wherever it stands, a branch ends either kind of
    function, and every region that discovery yields is emitted. -/
theorem emit_lockstep (L : Layout) (ramPhys ramSize : BitVec 64) :
    (∀ word site, canInline vecLowering (decode word) = true →
      (lowerInsn L vecLowering (decode word) site).isSome) ∧
    (∀ word pc entryPc region loopDepth, isBranch (decode word) = true →
      (lowerTerminator (decode word) pc entryPc).isSome ∧
      (regionTerminator region loopDepth (decode word) pc).isSome) ∧
    (∀ block region loopDepth, Compilable vecLowering block →
      (emitBody L vecLowering block ramPhys ramSize).isSome ∧
      (emitRegionBlock L vecLowering region ramPhys ramSize loopDepth block).isSome) ∧
    ∀ start maxBlocks maxBlockLen read,
      (emitRegion L vecLowering (formRegion vecLowering start maxBlocks maxBlockLen read)
        ramPhys ramSize).isSome :=
  ⟨fun word site hinline => lowerInsn_isSome L (fieldsOk_decode word) hinline site,
    fun _ pc entryPc region loopDepth hbranch =>
      ⟨lowerTerminator_isSome hbranch pc entryPc, regionTerminator_isSome region loopDepth _ pc⟩,
    fun _ region loopDepth h =>
      ⟨emitBody_isSome L ramPhys ramSize h,
        emitRegionBlock_isSome L ramPhys ramSize region loopDepth h⟩,
    fun start maxBlocks maxBlockLen _ =>
      emitRegion_isSome L ramPhys ramSize (compilable_formRegion start maxBlocks maxBlockLen)⟩

/-- `rev64 v0.8b, v1.8b`, then `uzp1 v0.4h, v1.4h, v2.4h`: the two divisions of the
    emitter, by a container and by a half. -/
theorem emit_lockstep_rev :
    (lowerInsn layoutAt0 vecLowering (decode 0x0e200820#32) ⟨0, 0, 0, 0, 0, none⟩).isSome ∧
    (lowerInsn layoutAt0 vecLowering (decode 0x0e421820#32) ⟨4, 0, 1, 0, 0, none⟩).isSome :=
  ⟨(emit_lockstep layoutAt0 0 0).1 _ _ (by decide), (emit_lockstep layoutAt0 0 0).1 _ _ (by decide)⟩

end V64.Jit
