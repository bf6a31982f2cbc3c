import V64.Decoder.VecFields
import V64.Interp.Simd.IntUnit
import V64.Jit.Lower.Fp
import V64.Jit.Lower.Sequential
import V64.Jit.Lower.SimdCopy
import V64.Jit.Lower.SimdMisc

/-!
# Integer vector code agrees with the interpreter

* `agree_simd`: every form that the compiler admits, over any memory with the vector registers.
* `inlineSimd_agrees`: the same against the interpreter's instruction.
* `lowerSimd_agrees`: the same for every instruction word.
-/

namespace V64.Jit

open V64.Cpu V64.Decoder V64.Interp V64.Interp.Simd V64.Platform Checked Wasm

section Agree

variable {M : Type} [LinearMemory M] {base : BitVec 32} {H : CpuState → M} {cpu : CpuState}

variable (cpu) in
/-- The code of an admitted form and its executor, whatever the floating-point executors
    `rest` are. -/
theorem agree_simd (himage : LaneImage base H) (t : Target) (rest : VecUnit) {insn : Insn}
    (hfields : FieldsOk insn) (hvec : VecFieldsOk insn) (hlanes : LaneFieldsOk insn)
    (hinline : isInlineSimd insn = true) :
    VecAgree base H cpu (lowerSimd insn) (intUnit t rest insn (vecView cpu)) := by
  have hregs : VecImage base H := himage.toVecImage
  cases insn with
  | simdThreeSame q u size opcode rm rn rd =>
    have hsize : size ≤ 3 := hvec
    exact agree_threeSame hsize hregs t q hinline rm rn rd
  | simdTwoRegMisc q u size opcode rn rd =>
    exact agree_twoRegMisc hlanes.1 hregs t q u hfields hlanes.2.1 hinline rn rd
  | simdThreeDiff q u size opcode rm rn rd => exact agree_threeDiff hregs t q u hinline rm rn rd
  | simdModImm q op cmode imm8 rd => exact agree_modImm hregs q hinline rd
  | simdDupGeneral q size rn rd => exact agree_dupGeneral hlanes hregs q rn rd
  | simdDupElement q size index rn rd => exact agree_dupElement himage q hlanes rn rd
  | simdInsGeneral size index rn rd => exact agree_insGeneral himage hlanes rn rd
  | simdInsElement size dst src rn rd => exact agree_insElement himage hlanes.1 hlanes.2 rn rd
  | simdMovToGpr signed dst64 size index vn rd =>
    exact agree_movToGpr himage hlanes.1 hlanes.2 vn rd
  | simdZipTrn q size opcode rm rn rd => exact agree_zipTrn hregs hfields opcode rm rn rd
  | simdExt q imm4 rm rn rd => exact agree_ext hregs hlanes rm rn rd
  | simdTableLookup q isTbx len rm rn rd => exact agree_tbl hregs q hinline rm rn rd
  | simdShiftImm q u immh immb opcode rn rd =>
    have hint : ¬ (opcode = 0b11100 ∨ opcode = 0b11111) := by
      rintro (rfl | rfl)
      · exact Bool.false_ne_true hinline
      · exact Bool.false_ne_true hinline
    have hunit : intUnit t rest (.simdShiftImm q u immh immb opcode rn rd) (vecView cpu) =
        shiftImm t (vecView cpu) q u immh immb opcode rn rd := if_neg hint
    rw [hunit]
    exact agree_shiftImm hregs t q hfields hinline rn rd
  | _ => exact Bool.noConfusion hinline

end Agree

/-! ## Every word -/

section Words

variable {D : Type} [MmioDevice D] (t : Target) (rest : VecUnit)

/-- An admitted form and its executor in the interpreter. -/
theorem inlineSimd_agrees {insn : Insn} (hfields : FieldsOk insn) (hvec : VecFieldsOk insn)
    (hlanes : LaneFieldsOk insn) (hinline : isInlineSimd insn = true) (g : Guest (Bus D))
    (L : Layout) (hwf : L.Wf g.mem.ram.size.toNat) (stale : Flags) (pc entryPc : BitVec 64) :
    ∃ code w, (∀ at_, lowerSequential vecLowering insn at_ entryPc = some code) ∧
      execute (intUnit t rest) g insn pc = some (none, { g with cpu := setVecView g.cpu w }) ∧
      VecEmits L.regsBase (host L stale g.mem) code g.cpu (setVecView g.cpu w) := by
  obtain ⟨code, w, hcode, hresult, hemits⟩ := agree_simd g.cpu (laneImage_host stale hwf)
    t rest hfields hvec hlanes hinline
  have hlower : vecLowering.lower insn = some code := by
    show (lowerSimd insn).or (lowerFp insn) = some code
    rw [hcode, Option.some_or]
  have hexecute : (intUnit t rest insn (vecView g.cpu)).bind (fun w => seq g (setVecView g.cpu w)) =
      some (none, { g with cpu := setVecView g.cpu w }) := by
    rw [hresult]
    rfl
  refine ⟨code, w, fun at_ => ?_, ?_, hemits⟩
  · cases insn <;> first | exact hlower | exact Bool.noConfusion hinline
  · cases insn <;> first | exact hexecute | exact Bool.noConfusion hinline

/-- For every word whose vector form is compiled inline, the compiler emits code and the
    interpreter has a result; run over the register image of a CPU, the code leaves the image
    of that result, and touches nothing else. -/
theorem lowerSimd_agrees (word : BitVec 32) (hinline : isInlineSimd (decode word) = true)
    (g : Guest (Bus D)) (L : Layout) (hwf : L.Wf g.mem.ram.size.toNat) (stale : Flags)
    (pc entryPc : BitVec 64) :
    ∃ code w, lowerSequential vecLowering (decode word) pc entryPc = some code ∧
      execute (intUnit t rest) g (decode word) pc =
        some (none, { g with cpu := setVecView g.cpu w }) ∧
      VecEmits L.regsBase (host L stale g.mem) code g.cpu (setVecView g.cpu w) := by
  obtain ⟨code, w, hlower, hexecute, hemits⟩ := inlineSimd_agrees t rest (fieldsOk_decode word)
    (vecFieldsOk_decode word) (laneFieldsOk_decode word) hinline g L hwf stale pc entryPc
  exact ⟨code, w, hlower pc, hexecute, hemits⟩

end Words

/-- Some lanes for the instance. -/
def byteGuest : Guest (Bus Empty) :=
  ⟨{ CpuState.new with v := fun r => BitVec.ofNat 128 (0x0706050403020100 + 16 * r.val) }, emptyBus⟩

/-- `zip2 v1.8h, v1.8h, v2.8h`, whose destination is one of its sources. -/
theorem lowerSimd_agrees_zip2 :
    ∃ code w, lowerSequential vecLowering (decode 0x4e427821#32) 0x4000 0x4000 = some code ∧
      execute (intUnit Target.release64 noVecUnit) byteGuest (decode 0x4e427821#32) 0x4000 =
        some (none, { byteGuest with cpu := setVecView byteGuest.cpu w }) ∧
      VecEmits layoutAt0.regsBase (host layoutAt0 Flags.default byteGuest.mem) code
        byteGuest.cpu (setVecView byteGuest.cpu w) :=
  lowerSimd_agrees Target.release64 noVecUnit 0x4e427821#32 rfl byteGuest layoutAt0 wf_layoutAt0
    Flags.default 0x4000 0x4000

end V64.Jit
