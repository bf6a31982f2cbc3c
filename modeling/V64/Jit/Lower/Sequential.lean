import V64.Decoder.Fields
import V64.Interp.Execute
import V64.Jit.Eligible
import V64.Jit.Lower.Cond
import V64.Jit.Lower.DataProc1Src

/-!
# Lowering a sequential instruction

`lower_sequential` of `crates/jit/src/lower/mod.rs`.

* `IsIntDataProc`: the integer data-processing instructions.
* `lowerSequential_emits`: for each of them that `canInline` admits, the emitted
  code does to the register image what the executor does to the CPU.
-/

namespace V64.Jit

open V64.Cpu V64.Decoder V64.Interp V64.Platform Wasm

/-- `lower_sequential` (`lower/mod.rs`, lines 251–342): `none` is `false`. -/
def lowerSequential (vl : VecLowering) (insn : Insn) (pc entryPc : BitVec 64) :
    Option (List Instr) :=
  match insn with
  | .nop | .prfm => some []
  | .moveWide sf opc hw imm16 rd => moveWide sf opc hw imm16 rd
  | .logicalImm sf opc imm rn rd => logical sf opc (.imm imm) rn rd (opc != 3)
  | .logicalShiftedReg sf opc negate shift amount rm rn rd =>
    logical sf opc (.shifted rm shift amount negate) rn rd false
  | .addSubImm sf sub setFlags shift12 imm12 rn rd =>
    let imm := imm12.setWidth 64 <<< (if shift12 then 12 else 0)
    some (addSub sf sub setFlags (.imm imm) rn true rd !setFlags)
  | .addSubShiftedReg sf sub setFlags shift amount rm rn rd =>
    some (addSub sf sub setFlags (.shifted rm shift amount false) rn false rd false)
  | .addSubExtReg sf sub setFlags option imm3 rm rn rd =>
    some (addSub sf sub setFlags (.ext rm option imm3) rn true rd !setFlags)
  | .addSubCarry sf sub setFlags rm rn rd => some (addSubCarry sf sub setFlags rm rn rd)
  | .extract sf rm rn lsb rd => some (extract sf rm rn lsb rd)
  | .pcRel page imm rd => some (pcRel page imm rd pc entryPc)
  | .condSelect sf op o2 cond rm rn rd => some (condSelect sf op o2 cond rm rn rd)
  | .condCompare sf sub isImm immY rm cond nzcv rn =>
    some (condCompare sf sub isImm immY rm cond nzcv rn)
  | .bitfield sf opc wmask tmask immr imms rn rd =>
    some (bitfield sf opc wmask tmask immr imms rn rd)
  | .dataProc1Src sf opcode rn rd => dataProc1Src sf opcode rn rd
  | .dataProc2Src sf opcode rm rn rd => dataProc2Src sf opcode rm rn rd
  | .dataProc3Src sf op31 o0 rm ra rn rd => dataProc3Src sf op31 o0 rm ra rn rd
  | insn => vl.lower insn

/-- The integer data-processing classes. -/
def IsIntDataProc : Insn → Prop
  | .moveWide .. | .addSubImm .. | .addSubShiftedReg .. | .addSubExtReg .. | .addSubCarry ..
  | .logicalImm .. | .logicalShiftedReg .. | .bitfield .. | .extract .. | .pcRel ..
  | .condSelect .. | .condCompare .. | .dataProc1Src .. | .dataProc2Src .. | .dataProc3Src .. =>
    True
  | _ => False

/-! ## Agreement with the executors -/

/-- `cpu'` is `cpu` up to the general registers, SP and the flags. -/
def GprsOnly (cpu cpu' : CpuState) : Prop :=
  ∃ x sp flags, cpu' = { cpu with x := x, sp := sp, flags := flags }

theorem gprsOnly_write (cpu : CpuState) (idx : Reg) (sf : Bool) (val : BitVec 64) (sp : Bool) :
    GprsOnly cpu (write cpu idx sf val sp) := by
  rw [write_eq]
  obtain ⟨x, sp', heq⟩ := cpu.writeGpr_eq idx sp (val &&& widthMask sf)
  exact ⟨x, sp', cpu.flags, heq⟩

theorem gprsOnly_write_setFlagsIf (cpu : CpuState) (setFlags : Bool) (flags : Flags) (idx : Reg)
    (sf : Bool) (val : BitVec 64) (sp : Bool) :
    GprsOnly cpu (write (setFlagsIf cpu setFlags flags) idx sf val sp) := by
  obtain ⟨x, sp', flags', heq⟩ := gprsOnly_write (setFlagsIf cpu setFlags flags) idx sf val sp
  rw [heq]
  unfold setFlagsIf
  split_ifs <;> exact ⟨x, sp', flags', rfl⟩

section Exec

variable {D : Type} [MmioDevice D] {L : Layout} {stale : Flags} {bus : Bus D} {cpu : CpuState}
  {l : ℕ → Val}

/-- What the lowering and the executor of an instruction have to agree on. -/
def Agree (L : Layout) (stale : Flags) (bus : Bus D) (cpu : CpuState) (l : ℕ → Val)
    (code : Option (List Instr)) (result : Option (Option (BitVec 64) × Guest (Bus D))) : Prop :=
  ∃ code' cpu', code = some code' ∧ result = some (none, ⟨cpu', bus⟩) ∧ GprsOnly cpu cpu' ∧
    Emits L stale bus l code' cpu cpu'

omit [MmioDevice D] in
/-- An executor that fails on some selectors, and a lowering that fails on others. -/
theorem Agree.of_option {code : Option (List Instr)} {result : Option CpuState}
    (hframe : ∀ cpu', result = some cpu' → GprsOnly cpu cpu')
    (hemits : ∃ code' cpu', code = some code' ∧ result = some cpu' ∧
      Emits L stale bus l code' cpu cpu') :
    Agree L stale bus cpu l code (result.bind (seq ⟨cpu, bus⟩)) := by
  obtain ⟨code', cpu', hcode, hresult, hemits⟩ := hemits
  refine ⟨code', cpu', hcode, ?_, hframe cpu' hresult, hemits⟩
  rw [hresult]
  rfl

theorem isInlineDp1_cases {sf : Bool} {opcode : ℕ} (h : isInlineDp1 sf opcode = true) :
    opcode = 0 ∨ opcode = 4 ∨ opcode = 5 ∨
      (opcode = 1 ∨ opcode = 2 ∨ opcode = 3) ∧ 1 <<< opcode ≤ datasize sf / 8 := by
  have hbytes : (if sf then 8 else 4) = datasize sf / 8 := by cases sf <;> rfl
  unfold isInlineDp1 at h
  rw [hbytes] at h
  split at h
  · simp
  · simp
  · simp
  · simpa using h
  · simpa using h
  · simpa using h
  · cases h

theorem lowerSequential_agree (vl : VecLowering) (vu : VecUnit) {insn : Insn}
    (hfields : FieldsOk insn) (hclass : IsIntDataProc insn) (hinline : canInline vl insn = true)
    (h : Ready L bus.ram.size.toNat l) {base : BitVec 64} (hbase : l 7 = .i64 base)
    (pc entryPc : BitVec 64) :
    Agree L stale bus cpu l (lowerSequential vl insn pc entryPc)
      (execute vu ⟨cpu, bus⟩ insn (base + (pc - entryPc))) := by
  cases insn with
  | moveWide sf opc hw imm16 rd =>
    apply Agree.of_option
    · intro cpu' hcpu'
      unfold Interp.moveWide at hcpu'
      obtain ⟨v, -, rfl⟩ := Option.map_eq_some_iff.mp hcpu'
      exact gprsOnly_write cpu rd sf v false
    · exact emits_moveWide h sf hfields hw imm16 rd
  | addSubImm sf sub setFlags shift12 imm12 rn rd =>
    have hok : (BOp.imm (addSubImmediate shift12 imm12)).Ok := trivial
    exact ⟨_, _, rfl, rfl, gprsOnly_write_setFlagsIf _ _ _ _ _ _ _,
      emits_addSub h hok sf sub setFlags rn true rd !setFlags⟩
  | addSubShiftedReg sf sub setFlags shift amount rm rn rd =>
    have hok : (BOp.shifted rm shift amount false).Ok := trivial
    exact ⟨_, _, rfl, rfl, gprsOnly_write_setFlagsIf _ _ _ _ _ _ _,
      emits_addSub h hok sf sub setFlags rn false rd false⟩
  | addSubExtReg sf sub setFlags option imm3 rm rn rd =>
    have hok : (BOp.ext rm option imm3).Ok := Nat.lt_of_le_of_lt hfields.2 (by decide)
    exact ⟨_, _, rfl, rfl, gprsOnly_write_setFlagsIf _ _ _ _ _ _ _,
      emits_addSub h hok sf sub setFlags rn true rd !setFlags⟩
  | addSubCarry sf sub setFlags rm rn rd =>
    exact ⟨_, _, rfl, rfl, gprsOnly_write_setFlagsIf _ _ _ _ _ _ _,
      emits_addSubCarry h sf sub setFlags rm rn rd⟩
  | logicalImm sf opc imm rn rd =>
    have hok : (BOp.imm imm).Ok := trivial
    obtain ⟨code, result, hcode, hresult, hemits⟩ :
        ∃ code result, logical sf opc (.imm imm) rn rd (opc != 3) = some code ∧
          logicalOp opc (read cpu rn sf false) imm = some result ∧ Emits L stale bus l code cpu
            (write (setFlagsIf cpu (opc == 3) (logicalFlags sf result)) rd sf result (opc != 3)) :=
      emits_logical h hok sf hfields rn rd (opc != 3)
    have hinterp : Interp.logicalImm cpu sf opc imm rn rd = some _ :=
      Option.map_eq_some_iff.mpr ⟨result, hresult, rfl⟩
    refine Agree.of_option ?_ ⟨code, _, hcode, hinterp, hemits⟩
    intro cpu' hcpu'
    obtain ⟨result', -, rfl⟩ := Option.map_eq_some_iff.mp hcpu'
    exact gprsOnly_write_setFlagsIf cpu _ _ rd sf result' _
  | logicalShiftedReg sf opc negate shift amount rm rn rd =>
    have hok : (BOp.shifted rm shift amount negate).Ok := trivial
    obtain ⟨code, result, hcode, hresult, hemits⟩ :
        ∃ code result, logical sf opc (.shifted rm shift amount negate) rn rd false = some code ∧
          logicalOp opc (read cpu rn sf false)
            ((BOp.shifted rm shift amount negate).value cpu sf) = some result ∧
          Emits L stale bus l code cpu
            (write (setFlagsIf cpu (opc == 3) (logicalFlags sf result)) rd sf result false) :=
      emits_logical h hok sf hfields rn rd false
    have hinterp : Interp.logicalReg cpu sf opc negate shift amount rm rn rd = some _ :=
      Option.map_eq_some_iff.mpr ⟨result, hresult, rfl⟩
    refine Agree.of_option ?_ ⟨code, _, hcode, hinterp, hemits⟩
    intro cpu' hcpu'
    obtain ⟨result', -, rfl⟩ := Option.map_eq_some_iff.mp hcpu'
    exact gprsOnly_write_setFlagsIf cpu _ _ rd sf result' _
  | bitfield sf opc wmask tmask immr imms rn rd =>
    exact ⟨_, _, rfl, rfl, gprsOnly_write _ _ _ _ _, emits_bitfield h sf hfields _ _ _ _ rn rd⟩
  | extract sf rm rn lsb rd =>
    exact ⟨_, _, rfl, rfl, gprsOnly_write _ _ _ _ _, emits_extract h rm rn hfields rd⟩
  | condSelect sf op o2 cond rm rn rd =>
    exact ⟨_, _, rfl, rfl, gprsOnly_write _ _ _ _ _, emits_condSelect h sf op o2 cond rm rn rd⟩
  | condCompare sf sub isImm immY rm cond nzcv rn =>
    refine ⟨_, _, rfl, rfl, ?_, emits_condCompare h sf sub isImm immY rm cond nzcv rn⟩
    unfold Interp.condCompare
    split_ifs <;> exact ⟨cpu.x, cpu.sp, _, rfl⟩
  | dataProc1Src sf opcode rn rd =>
    apply Agree.of_option
    · intro cpu' hcpu'
      obtain ⟨v, -, rfl⟩ := Option.map_eq_some_iff.mp hcpu'
      exact gprsOnly_write cpu rd sf v false
    · exact emits_dataProc1Src h sf (isInlineDp1_cases hinline) rn rd
  | dataProc2Src sf opcode rm rn rd =>
    have hop : opcode = 2 ∨ opcode = 3 ∨ opcode = 8 ∨ opcode = 9 ∨ opcode = 10 ∨ opcode = 11 := by
      have hmem : [2, 3, 8, 9, 10, 11].contains opcode = true := hinline
      simpa using hmem
    apply Agree.of_option
    · intro cpu' hcpu'
      have hcrc : ¬ (0x10 ≤ opcode ∧ opcode ≤ 0x17) := by omega
      unfold Interp.dataProc2Src at hcpu'
      rw [if_neg hcrc] at hcpu'
      obtain ⟨v, -, rfl⟩ := Option.map_eq_some_iff.mp hcpu'
      exact gprsOnly_write cpu rd sf v false
    · exact emits_dataProc2Src h sf hop rm rn rd
  | dataProc3Src sf op31 o0 rm ra rn rd =>
    have hop : op31 = 0 ∨ op31 = 1 ∨ op31 = 2 ∨ op31 = 5 ∨ op31 = 6 := by
      have hmem : [0b000, 0b001, 0b010, 0b101, 0b110].contains op31 = true := hinline
      simpa using hmem
    apply Agree.of_option
    · intro cpu' hcpu'
      obtain ⟨v, -, rfl⟩ := Option.map_eq_some_iff.mp hcpu'
      exact gprsOnly_write cpu rd sf v false
    · exact emits_dataProc3Src h hop hfields o0 rm ra rn rd
  | pcRel page imm rd =>
    exact ⟨_, _, rfl, rfl, gprsOnly_write _ _ _ _ _, emits_pcRel h hbase page imm rd pc entryPc⟩
  | _ => exact absurd hclass id

/-- Every integer data-processing word that is compiled inline: the emitted code
leaves what the executor leaves, and no more than registers, SP and flags change. -/
theorem lowerSequential_emits (vl : VecLowering) (vu : VecUnit) (word : BitVec 32)
    (hclass : IsIntDataProc (decode word)) (hinline : canInline vl (decode word) = true)
    (h : Ready L bus.ram.size.toNat l) {base : BitVec 64} (hbase : l 7 = .i64 base)
    (pc entryPc : BitVec 64) :
    ∃ code cpu', lowerSequential vl (decode word) pc entryPc = some code ∧
      execute vu ⟨cpu, bus⟩ (decode word) (base + (pc - entryPc)) = some (none, ⟨cpu', bus⟩) ∧
      GprsOnly cpu cpu' ∧ Emits L stale bus l code cpu cpu' :=
  lowerSequential_agree vl vu (fieldsOk_decode word) hclass hinline h hbase pc entryPc

end Exec

/-! ## An instance -/

/-- `CpuState` at 0, an empty RAM and then the TLB behind it. -/
def layoutAt0 : Layout where
  regsBase := 0
  cpuSize := 1024
  elOffset := 896
  tlbOffset := 900
  ramBase := 1024
  tlbBase := 1024

/-- A bus with no RAM and no device. -/
def emptyBus : Bus Empty := ⟨⟨0, 0, fun _ => 0⟩, []⟩

/-- The parameters of a block at entry PC `pc`. -/
def localsAt (L : Layout) (pc : BitVec 64) : ℕ → Val
  | 0 => .i32 L.regsBase
  | 1 => .i32 L.ramBase
  | _ => .i64 pc

theorem wf_layoutAt0 : layoutAt0.Wf emptyBus.ram.size.toNat where
  el := by decide
  tlb := by decide
  cpuSize := by decide
  regs_lt := by decide
  ram_lt := by decide
  tlb_lt := by decide
  regs_ram := by decide
  regs_tlb := by decide
  ram_tlb := by decide

/-- No vector instruction is executed. -/
def noVecUnit : VecUnit := fun _ _ => none

/-- No vector instruction is compiled. -/
def noVecLowering : VecLowering := ⟨fun _ => false, fun _ => none⟩

/-- `sdiv x0, x1, x2` at `0x4000`, run at `0x7000`. -/
theorem lowerSequential_emits_sdiv :
    ∃ code cpu', lowerSequential noVecLowering (decode 0x9ac20c20#32) 0x4000 0x4000 = some code ∧
      execute noVecUnit ⟨CpuState.new, emptyBus⟩ (decode 0x9ac20c20#32) 0x7000 =
        some (none, ⟨cpu', emptyBus⟩) ∧
      GprsOnly CpuState.new cpu' ∧
      Emits layoutAt0 Flags.default emptyBus (localsAt layoutAt0 0x7000) code CpuState.new cpu' :=
  lowerSequential_emits noVecLowering noVecUnit 0x9ac20c20#32 trivial rfl ⟨wf_layoutAt0, rfl, rfl⟩
    rfl 0x4000 0x4000

end V64.Jit
