import V64.Interp.Atomic
import V64.Interp.Branch
import V64.Interp.DataProc
import V64.Interp.LdstStruct
import V64.Interp.System

/-!
# Dispatch

Model of `crates/interp/src/execute.rs`. `none` is a panic of the host. The SIMD
and floating-point executors, which neither use memory nor branch, are a
parameter: they see the registers of `VecView` and no others.
-/

namespace V64.Interp

open V64.Cpu V64.Decoder

/-- The part of the CPU that `fp.rs` and the modules of `simd/` other than
`ldst_struct.rs` read and write. -/
structure VecView where
  x : Fin 31 → BitVec 64
  v : Fin 32 → BitVec 128
  flags : Flags
  fpcr : BitVec 64
  fpsr : BitVec 64

/-- The SIMD and floating-point executors. -/
abbrev VecUnit := Insn → VecView → Option VecView

/-- The view of a CPU state. -/
def vecView (cpu : CpuState) : VecView := ⟨cpu.x, cpu.v, cpu.flags, cpu.fpcr, cpu.fpsr⟩

/-- The state with another view. -/
def setVecView (cpu : CpuState) (w : VecView) : CpuState :=
  { cpu with x := w.x, v := w.v, flags := w.flags, fpcr := w.fpcr, fpsr := w.fpsr }

variable {M : Type} [GuestMem M]

/-- A sequential instruction that leaves the CPU in state `cpu`. -/
def seq (g : Guest M) (cpu : CpuState) : Option (Option (BitVec 64) × Guest M) :=
  some (none, { g with cpu := cpu })

/-- A taken or untaken branch. -/
def jump (g : Guest M) (r : Option (BitVec 64) × CpuState) :
    Option (Option (BitVec 64) × Guest M) := some (r.1, { g with cpu := r.2 })

/-- An exception entry or return. -/
def vector (g : Guest M) (r : BitVec 64 × CpuState) : Option (Option (BitVec 64) × Guest M) :=
  some (some r.1, { g with cpu := r.2 })

/-- `execute` (lines 18–217). -/
def execute (vu : VecUnit) (g : Guest M) (insn : Insn) (pc : BitVec 64) :
    Option (Option (BitVec 64) × Guest M) :=
  match insn with
  | .moveWide sf opc hw imm16 rd => (moveWide g.cpu sf opc hw imm16 rd).bind (seq g)
  | .addSubImm sf sub setFlags shift12 imm12 rn rd =>
    seq g (addSubImm g.cpu sf sub setFlags shift12 imm12 rn rd)
  | .addSubShiftedReg sf sub setFlags shift amount rm rn rd =>
    seq g (addSubShiftedReg g.cpu sf sub setFlags shift amount rm rn rd)
  | .addSubCarry sf sub setFlags rm rn rd => seq g (addSubCarry g.cpu sf sub setFlags rm rn rd)
  | .addSubExtReg sf sub setFlags option imm3 rm rn rd =>
    seq g (addSubExtReg g.cpu sf sub setFlags option imm3 rm rn rd)
  | .logicalImm sf opc imm rn rd => (logicalImm g.cpu sf opc imm rn rd).bind (seq g)
  | .logicalShiftedReg sf opc negate shift amount rm rn rd =>
    (logicalReg g.cpu sf opc negate shift amount rm rn rd).bind (seq g)
  | .bitfield sf opc wmask tmask immr imms rn rd =>
    seq g (bitfield g.cpu sf opc wmask tmask immr imms rn rd)
  | .extract sf rm rn lsb rd => seq g (extract g.cpu sf rm rn lsb rd)
  | .condSelect sf op o2 cond rm rn rd => seq g (condSelect g.cpu sf op o2 cond rm rn rd)
  | .condCompare sf sub isImm immY rm cond nzcv rn =>
    seq g (condCompare g.cpu sf sub isImm immY rm cond nzcv rn)
  | .dataProc1Src sf opcode rn rd => (dataProc1Src g.cpu sf opcode rn rd).bind (seq g)
  | .dataProc2Src sf opcode rm rn rd => (dataProc2Src g.cpu sf opcode rm rn rd).bind (seq g)
  | .dataProc3Src sf op31 o0 rm ra rn rd =>
    (dataProc3Src g.cpu sf op31 o0 rm ra rn rd).bind (seq g)
  | .pcRel page imm rd => seq g (pcRel g.cpu page imm rd pc)
  | .branchImm link offset => jump g (branchImm g.cpu link offset pc)
  | .condBranch cond offset => jump g (condBranch g.cpu cond offset pc, g.cpu)
  | .compareBranch sf negate rt offset => jump g (compareBranch g.cpu sf negate rt offset pc, g.cpu)
  | .testBranch bit negate rt offset => jump g (testBranch g.cpu bit negate rt offset pc, g.cpu)
  | .branchReg opc rn => jump g (branchReg g.cpu opc rn pc)
  | .loadStore size isLoad signed dst64 vec unpriv rt addr =>
    some (none, loadStore g size isLoad signed dst64 vec unpriv rt addr pc)
  | .loadStorePair isLoad signed width8 vec vesize rt rt2 rn offset index =>
    some (none, loadStorePair g isLoad signed width8 vec vesize rt rt2 rn offset index)
  | .atomicRmw size op rs rn rt => some (none, atomicRmw g size op rs rn rt)
  | .compareSwap size rs rn rt => some (none, compareSwap g size rs rn rt)
  | .loadExclusive size rt rn => some (none, loadExclusive g size rt rn)
  | .storeExclusive size rs rt rn => some (none, storeExclusive g size rs rt rn)
  | .loadExclusivePair size rt rt2 rn => some (none, loadExclusivePair g size rt rt2 rn)
  | .storeExclusivePair size rs rt rt2 rn => some (none, storeExclusivePair g size rs rt rt2 rn)
  | .compareSwapPair sz rs rn rt => (compareSwapPair g sz rs rn rt).map fun g => (none, g)
  | .simdLdStMulti isLoad q postidx rm rn rt size rpt selem =>
    some (none, simdLdStMulti g isLoad q postidx rm rn rt size rpt selem)
  | .simdLdStSingle isLoad replicate postidx rm rn rt size selem index q =>
    some (none, simdLdStSingle g isLoad replicate postidx rm rn rt size selem index q)
  | .sysRegMove read key rt => seq g (sysRegMove g.cpu read key rt)
  | .msrImm op1 op2 crm => seq g (msrImm g.cpu op1 op2 crm)
  | .svc imm16 => vector g (svc g.cpu imm16 pc)
  | .hvc _ | .smc _ => seq g (psciCall g.cpu)
  | .eret => vector g (eret g.cpu)
  | .brk imm16 => vector g (brk g.cpu imm16 pc)
  | .dcZva rt => some (none, dcZva g rt)
  | .tlbi => seq g g.cpu.flushTlb
  | .ic => seq g { g.cpu with icInval := true }
  | .nop | .prfm => seq g g.cpu
  | .wfi | .wfe => seq g { g.cpu with wfi := true }
  | .unsupported _ => none
  | insn => (vu insn (vecView g.cpu)).bind fun w => seq g (setVecView g.cpu w)

end V64.Interp
