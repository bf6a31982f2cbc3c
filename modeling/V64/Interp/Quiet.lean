import V64.Interp.Run

/-!
# What an ordinary instruction cannot reach

A view of the CPU state is quiet if it does not see the registers, the flags, the
TLB, a pending abort or a hint. Executors that are not system instructions leave
what such a view sees as it is; those of the exclusives also write the monitor.

* `Quiet`, `MonitorQuiet`: the views.
* `quiet_execute`: every instruction but those of `IsSystem`.
-/

namespace V64.Interp

open V64.Cpu V64.Decoder

/-- A view that no ordinary instruction but an exclusive can change. -/
structure Quiet {α : Type} (π : CpuState → α) : Prop where
  gpr : ∀ cpu x sp, π { cpu with x := x, sp := sp } = π cpu
  flags : ∀ cpu flags, π { cpu with flags := flags } = π cpu
  vec : ∀ cpu v fpcr fpsr, π { cpu with v := v, fpcr := fpcr, fpsr := fpsr } = π cpu
  access : ∀ cpu tlb tlbFlushed pendingAbort,
    π { cpu with tlb := tlb, tlbFlushed := tlbFlushed, pendingAbort := pendingAbort } = π cpu
  hint : ∀ cpu wfi icInval, π { cpu with wfi := wfi, icInval := icInval } = π cpu

/-- A view that does not see the monitor. -/
def MonitorQuiet {α : Type} (π : CpuState → α) : Prop :=
  ∀ cpu valid addr val,
    π { cpu with exclValid := valid, exclAddr := addr, exclVal := val } = π cpu

/-- MSR, exception generation and return, and the PSCI conduit. -/
def IsSystem : Insn → Prop
  | .sysRegMove read _ _ => read = false
  | .msrImm .. | .svc _ | .hvc _ | .smc _ | .eret | .brk _ => True
  | _ => False

/-- Load and store exclusive, and their pairs. -/
def IsExclusive : Insn → Prop
  | .loadExclusive .. | .storeExclusive .. | .loadExclusivePair .. | .storeExclusivePair .. => True
  | _ => False

variable {α : Type} {π : CpuState → α} (hπ : Quiet π)
include hπ

/-! ## State updates -/

section Updates

variable (cpu : CpuState)

theorem quiet_writeGpr (idx : Reg) (sp : Bool) (val : BitVec 64) :
    π (cpu.writeGpr idx sp val) = π cpu := by
  obtain ⟨x, sp', heq⟩ := cpu.writeGpr_eq idx sp val
  rw [heq, hπ.gpr]

theorem quiet_writeGprW (idx : Reg) (sp : Bool) (val : BitVec 64) :
    π (cpu.writeGprW idx sp val) = π cpu := quiet_writeGpr hπ cpu idx sp _

theorem quiet_write (idx : Reg) (sf : Bool) (val : BitVec 64) (sp : Bool) :
    π (write cpu idx sf val sp) = π cpu := by
  rw [write_eq, quiet_writeGpr hπ]

theorem quiet_setFlagsIf (setFlags : Bool) (flags : Flags) :
    π (setFlagsIf cpu setFlags flags) = π cpu := by
  unfold setFlagsIf
  split_ifs
  · exact hπ.flags cpu flags
  · rfl

theorem quiet_writeResult (dst64 : Bool) (rt : Reg) (value : BitVec 64) :
    π (writeResult cpu dst64 rt value) = π cpu := by
  unfold writeResult
  split_ifs
  · exact quiet_writeGpr hπ cpu rt false value
  · exact quiet_writeGprW hπ cpu rt false value

theorem quiet_setVecView (w : VecView) : π (setVecView cpu w) = π cpu :=
  calc π (setVecView cpu w)
      = π { cpu with x := w.x, flags := w.flags } :=
        hπ.vec { cpu with x := w.x, flags := w.flags } w.v w.fpcr w.fpsr
    _ = π { cpu with x := w.x } := hπ.flags { cpu with x := w.x } w.flags
    _ = π cpu := hπ.gpr cpu w.x cpu.sp

theorem quiet_flushTlb : π cpu.flushTlb = π cpu :=
  hπ.access cpu cpu.tlb.flush true cpu.pendingAbort

theorem quiet_postIndex (postidx : Bool) (rm rn : Reg) (start total : BitVec 64) :
    π (postIndex cpu postidx rm rn start total) = π cpu := by
  unfold postIndex
  split_ifs
  · exact quiet_writeGpr hπ cpu rn true _
  · exact quiet_writeGpr hπ cpu rn true _
  · rfl

theorem quiet_zeroUpper (rt : Reg) (count : ℕ) :
    π (zeroUpper cpu rt count) = π cpu := by
  unfold zeroUpper
  induction List.range count generalizing cpu with
  | nil => rfl
  | cons k ks ih =>
    rw [List.foldl_cons, ih]
    exact hπ.vec cpu _ cpu.fpcr cpu.fpsr

end Updates

/-- An access to memory changes the TLB and the pending abort only. -/
theorem SameRegs.quiet {a b : CpuState} (h : SameRegs a b) : π b = π a := by
  obtain ⟨tlb, pendingAbort, rfl⟩ := h
  exact hπ.access a tlb a.tlbFlushed pendingAbort

/-! ## Memory -/

section Memory

variable {M : Type} [GuestMem M]

theorem quiet_read (g : Guest M) (va : BitVec 64) (size : ℕ) :
    π (MemAccess.read g va size).2.cpu = π g.cpu := (sameRegs_readAt g va size _).quiet hπ

theorem quiet_write_mem (g : Guest M) (va : BitVec 64) (size : ℕ) (val : BitVec 64) :
    π (MemAccess.write g va size val).cpu = π g.cpu :=
  (sameRegs_writeAt g va size val _).quiet hπ

theorem quiet_readUnpriv (g : Guest M) (va : BitVec 64) (size : ℕ) :
    π (MemAccess.readUnpriv g va size).2.cpu = π g.cpu :=
  (sameRegs_readAt g va size _).quiet hπ

theorem quiet_writeUnpriv (g : Guest M) (va : BitVec 64) (size : ℕ) (val : BitVec 64) :
    π (MemAccess.writeUnpriv g va size val).cpu = π g.cpu :=
  (sameRegs_writeAt g va size val _).quiet hπ

theorem quiet_readVec (g : Guest M) (va : BitVec 64) (log2 : ℕ) :
    π (MemAccess.readVec g va log2).2.cpu = π g.cpu := (sameRegs_gather g va _ _).quiet hπ

theorem quiet_writeVec (g : Guest M) (va : BitVec 64) (log2 : ℕ) (val : BitVec 128) :
    π (MemAccess.writeVec g va log2 val).cpu = π g.cpu :=
  (sameRegs_scatter g va _ _ _).quiet hπ

omit [GuestMem M] in
theorem quiet_alignCheck {g g' : Guest M} {va bytes : BitVec 64} {write : Bool}
    (h : alignCheck g va bytes write = some g') : π g'.cpu = π g.cpu :=
  (sameRegs_alignCheck h).quiet hπ

omit [GuestMem M] in
theorem quiet_setV (g : Guest M) (tt : Reg) (v : BitVec 128) :
    π (g.setV tt v).cpu = π g.cpu := hπ.vec g.cpu _ g.cpu.fpcr g.cpu.fpsr

omit [GuestMem M] in
theorem quiet_writebackBase (g : Guest M) (writeback : Option (Reg × BitVec 64)) :
    π (writebackBase g writeback).cpu = π g.cpu := by
  unfold writebackBase
  split_ifs
  · rfl
  · split
    · exact quiet_writeGpr hπ _ _ _ _
    · rfl

omit hπ [GuestMem M] in
/-- An executor that has run up to a fault test, and writes registers if none is pending. -/
theorem unlessAborted {k : α} {g g' : Guest M} (h : π g.cpu = k)
    (h' : π g'.cpu = k) : π (if g.aborted then g else g').cpu = k := by
  split_ifs
  · exact h
  · exact h'

theorem quiet_loadStore (g : Guest M) (size : ℕ) (isLoad signed dst64 vec unpriv : Bool)
    (rt : Reg) (addr : AddrMode) (pc : BitVec 64) :
    π (loadStore g size isLoad signed dst64 vec unpriv rt addr pc).cpu = π g.cpu := by
  unfold loadStore
  obtain ⟨ea, writeback⟩ := effectiveAddress g.cpu addr pc
  cases vec with
  | true =>
    cases isLoad with
    | true =>
      have hread := quiet_readVec hπ g ea size
      refine unlessAborted hread ((quiet_writebackBase hπ _ _).trans ?_)
      exact (quiet_setV hπ (MemAccess.readVec g ea size).2 rt _).trans hread
    | false =>
      have hwrite := quiet_writeVec hπ g ea size (g.cpu.v rt)
      exact unlessAborted hwrite ((quiet_writebackBase hπ _ _).trans hwrite)
  | false =>
    cases isLoad with
    | true =>
      have hread : π (if unpriv then MemAccess.readUnpriv g ea size
          else MemAccess.read g ea size).2.cpu = π g.cpu := by
        split_ifs
        · exact quiet_readUnpriv hπ g ea size
        · exact quiet_read hπ g ea size
      refine unlessAborted hread ((quiet_writebackBase hπ _ _).trans ?_)
      exact (quiet_writeResult hπ _ _ _ _).trans hread
    | false =>
      have hwrite : π (if unpriv then MemAccess.writeUnpriv g ea size (g.cpu.readGpr rt false)
          else MemAccess.write g ea size (g.cpu.readGpr rt false)).cpu = π g.cpu := by
        split_ifs
        · exact quiet_writeUnpriv hπ g ea size _
        · exact quiet_write_mem hπ g ea size _
      exact unlessAborted hwrite ((quiet_writebackBase hπ _ _).trans hwrite)

theorem quiet_loadElem (g : Guest M) (addr : BitVec 64) (width8 signed : Bool) :
    π (loadElem g addr width8 signed).2.cpu = π g.cpu := quiet_read hπ g addr _

theorem quiet_loadStorePair (g : Guest M) (isLoad signed width8 vec : Bool) (vesize : ℕ)
    (rt rt2 rn : Reg) (offset : BitVec 64) (index : PairIndex) :
    π (loadStorePair g isLoad signed width8 vec vesize rt rt2 rn offset index).cpu =
      π g.cpu := by
  unfold loadStorePair
  extract_lets base ea writeback
  clear_value ea
  cases vec with
  | true =>
    cases isLoad with
    | true =>
      have hread := (quiet_readVec hπ (MemAccess.readVec g ea vesize).2 (ea + 1 <<< vesize)
        vesize).trans (quiet_readVec hπ g ea vesize)
      refine unlessAborted hread ((quiet_writebackBase hπ _ _).trans ?_)
      refine (quiet_setV hπ (Guest.setV _ rt _) rt2 _).trans ?_
      exact (quiet_setV hπ _ rt _).trans hread
    | false =>
      have hwrite := (quiet_writeVec hπ (MemAccess.writeVec g ea vesize (g.cpu.v rt))
        (ea + 1 <<< vesize) vesize (g.cpu.v rt2)).trans
        (quiet_writeVec hπ g ea vesize (g.cpu.v rt))
      exact unlessAborted hwrite ((quiet_writebackBase hπ _ _).trans hwrite)
  | false =>
    set esize : BitVec 64 := if width8 then 8 else 4
    cases isLoad with
    | true =>
      have hread := (quiet_loadElem hπ (loadElem g ea width8 signed).2 (ea + esize) width8
        signed).trans (quiet_loadElem hπ g ea width8 signed)
      refine unlessAborted hread ((quiet_writebackBase hπ _ _).trans ?_)
      exact (quiet_writeResult hπ _ _ _ _).trans ((quiet_writeResult hπ _ _ _ _).trans hread)
    | false =>
      set size := if width8 then 3 else 2
      have hwrite := (quiet_write_mem hπ (MemAccess.write g ea size (g.cpu.readGpr rt false))
        (ea + esize) size (g.cpu.readGpr rt2 false)).trans
        (quiet_write_mem hπ g ea size (g.cpu.readGpr rt false))
      exact unlessAborted hwrite ((quiet_writebackBase hπ _ _).trans hwrite)

/-! ## Exclusives and atomics -/

theorem quiet_loadExclusive (hm : MonitorQuiet π) (g : Guest M) (size : ℕ) (rt rn : Reg) :
    π (loadExclusive g size rt rn).cpu = π g.cpu := by
  unfold loadExclusive
  dsimp only
  split
  · next halign => exact quiet_alignCheck hπ halign
  · have hread := quiet_read hπ g (g.cpu.readGpr rn true) size
    exact unlessAborted hread ((quiet_writeResult hπ _ _ _ _).trans ((hm _ _ _ _).trans hread))

theorem quiet_exclMatches (g : Guest M) (addr : BitVec 64) (size : ℕ) :
    π (exclMatches g addr size).2.cpu = π g.cpu := by
  unfold exclMatches
  split
  · split_ifs
    · exact quiet_read hπ g addr size
    · rfl
  · rfl

omit [GuestMem M] in
theorem quiet_exclFinish (hm : MonitorQuiet π) (g : Guest M) (rs : Reg) (success : Bool) :
    π (exclFinish g rs success).cpu = π g.cpu :=
  (quiet_writeGprW hπ _ _ _ _).trans (hm g.cpu 0 g.cpu.exclAddr g.cpu.exclVal)

theorem quiet_storeExclusive (hm : MonitorQuiet π) (g : Guest M) (size : ℕ) (rs rt rn : Reg) :
    π (storeExclusive g size rs rt rn).cpu = π g.cpu := by
  unfold storeExclusive
  dsimp only
  split
  · next halign => exact quiet_alignCheck hπ halign
  · have hmatch := quiet_exclMatches hπ g (g.cpu.readGpr rn true) size
    refine (quiet_exclFinish hπ hm _ _ _).trans ?_
    split_ifs
    · exact (quiet_write_mem hπ _ _ _ _).trans hmatch
    · exact hmatch

theorem quiet_loadExclusivePair (hm : MonitorQuiet π) (g : Guest M) (size : ℕ)
    (rt rt2 rn : Reg) :
    π (loadExclusivePair g size rt rt2 rn).cpu = π g.cpu := by
  unfold loadExclusivePair
  dsimp only
  split
  · next halign => exact quiet_alignCheck hπ halign
  · have hread := (quiet_read hπ (MemAccess.read g (g.cpu.readGpr rn true) size).2
      (g.cpu.readGpr rn true + 1 <<< size) size).trans
      (quiet_read hπ g (g.cpu.readGpr rn true) size)
    refine unlessAborted hread ?_
    exact (quiet_writeResult hπ _ _ _ _).trans
      ((quiet_writeResult hπ _ _ _ _).trans ((hm _ _ _ _).trans hread))

theorem quiet_storeExclusivePair (hm : MonitorQuiet π) (g : Guest M) (size : ℕ)
    (rs rt rt2 rn : Reg) :
    π (storeExclusivePair g size rs rt rt2 rn).cpu = π g.cpu := by
  unfold storeExclusivePair
  dsimp only
  split
  · next halign => exact quiet_alignCheck hπ halign
  · have hmatch := quiet_exclMatches hπ g (g.cpu.readGpr rn true) size
    refine (quiet_exclFinish hπ hm _ _ _).trans ?_
    split_ifs
    · exact (quiet_write_mem hπ _ _ _ _).trans ((quiet_write_mem hπ _ _ _ _).trans hmatch)
    · exact hmatch

theorem quiet_atomicRmw (g : Guest M) (size op : ℕ) (rs rn rt : Reg) :
    π (atomicRmw g size op rs rn rt).cpu = π g.cpu := by
  unfold atomicRmw
  dsimp only
  split
  · next halign => exact quiet_alignCheck hπ halign
  · have hread := quiet_read hπ g (g.cpu.readGpr rn true) size
    refine unlessAborted hread ?_
    have hwrite (val : BitVec 64) :=
      (quiet_write_mem hπ (MemAccess.read g (g.cpu.readGpr rn true) size).2
        (g.cpu.readGpr rn true) size val).trans hread
    exact unlessAborted (hwrite _) ((quiet_writeResult hπ _ _ _ _).trans (hwrite _))

theorem quiet_compareSwap (g : Guest M) (size : ℕ) (rs rn rt : Reg) :
    π (compareSwap g size rs rn rt).cpu = π g.cpu := by
  unfold compareSwap
  dsimp only
  split
  · next halign => exact quiet_alignCheck hπ halign
  · have hread := quiet_read hπ g (g.cpu.readGpr rn true) size
    refine unlessAborted hread ?_
    have hwrite (p : Prop) [Decidable p] (val : BitVec 64) :
        π (if p then MemAccess.write (MemAccess.read g (g.cpu.readGpr rn true) size).2
          (g.cpu.readGpr rn true) size val
          else (MemAccess.read g (g.cpu.readGpr rn true) size).2).cpu = π g.cpu := by
      split_ifs
      · exact (quiet_write_mem hπ _ _ _ _).trans hread
      · exact hread
    exact unlessAborted (hwrite _ _) ((quiet_writeResult hπ _ _ _ _).trans (hwrite _ _))

omit [GuestMem M] in
/-- The last part of `cas_pair`, once the memory has its new values. -/
theorem quiet_casPairFinish {k : α} {g g' : Guest M} {size : ℕ} {rs rs2 : Reg}
    {old1 old2 : BitVec 64} (hg : π g.cpu = k)
    (h : (if g.aborted then some g
      else some { g with
        cpu := writeResult (writeResult g.cpu (size == 3) rs old1) (size == 3) rs2 old2 }) =
      some g') : π g'.cpu = k := by
  split_ifs at h
  · obtain rfl := Option.some.inj h
    exact hg
  · obtain rfl := Option.some.inj h
    exact (quiet_writeResult hπ _ _ _ _).trans ((quiet_writeResult hπ _ _ _ _).trans hg)

theorem quiet_compareSwapPair {g g' : Guest M} {sz : ℕ} {rs rn rt : Reg}
    (h : compareSwapPair g sz rs rn rt = some g') : π g'.cpu = π g.cpu := by
  unfold compareSwapPair at h
  extract_lets size esize addr mask at h
  split at h
  · next halign =>
    obtain rfl := Option.some.inj h
    exact quiet_alignCheck hπ halign
  · dsimp only at h
    set read1 := (MemAccess.read g addr size).2
    set read2 := (MemAccess.read read1 (addr + esize) size).2
    have hread : π read2.cpu = π g.cpu :=
      (quiet_read hπ read1 (addr + esize) size).trans (quiet_read hπ g addr size)
    split at h
    · obtain rfl := Option.some.inj h
      exact hread
    · cases hrs : nextReg rs with
      | none =>
        rw [hrs] at h
        cases h
      | some rs2 =>
        rw [hrs] at h
        simp only [Option.bind_eq_bind, Option.bind_some] at h
        split at h
        · cases hrt : nextReg rt with
          | none =>
            rw [hrt] at h
            cases h
          | some rt2 =>
            rw [hrt] at h
            refine quiet_casPairFinish hπ ?_ h
            exact (quiet_write_mem hπ _ _ _ _).trans ((quiet_write_mem hπ _ _ _ _).trans hread)
        · obtain rfl := Option.some.inj h
          exact (quiet_writeResult hπ _ _ _ _).trans ((quiet_writeResult hπ _ _ _ _).trans hread)

/-! ## Structure loads and stores -/

theorem quiet_elemStep (isLoad : Bool) (size : ℕ) (tt : Reg) (off : ℕ) (addr : BitVec 64)
    (g : Guest M) : π (elemStep isLoad size tt off addr g).cpu = π g.cpu := by
  unfold elemStep
  split_ifs
  · have hread := quiet_read hπ g addr size
    exact unlessAborted hread ((quiet_setV hπ _ _ _).trans hread)
  · exact quiet_write_mem hπ _ _ _ _

theorem quiet_replicateStep (size : ℕ) (q : Bool) (tt : Reg) (addr : BitVec 64) (g : Guest M) :
    π (replicateStep size q tt addr g).cpu = π g.cpu := by
  have hread := quiet_read hπ g addr size
  exact unlessAborted hread ((quiet_setV hπ _ _ _).trans hread)

omit hπ [GuestMem M] in
theorem structLoop_eq {step : Reg → ℕ → BitVec 64 → Guest M → Guest M}
    (hstep : ∀ tt off addr g, π (step tt off addr g).cpu = π g.cpu) (ebytes : BitVec 64)
    (elems : List (Reg × ℕ)) (addr : BitVec 64) (g : Guest M) :
    π (structLoop step ebytes elems addr g).cpu = π g.cpu := by
  induction elems generalizing addr g with
  | nil => rfl
  | cons elem rest ih =>
    obtain ⟨tt, off⟩ := elem
    exact unlessAborted (hstep tt off addr g) ((ih _ _).trans (hstep tt off addr g))

theorem quiet_simdLdStMulti (g : Guest M) (isLoad q postidx : Bool) (rm rn rt : Reg)
    (size rpt selem : ℕ) :
    π (simdLdStMulti g isLoad q postidx rm rn rt size rpt selem).cpu = π g.cpu := by
  unfold simdLdStMulti
  extract_lets ebytes elements start g'
  have hloop : π g'.cpu = π g.cpu :=
    structLoop_eq (quiet_elemStep hπ isLoad size) ebytes _ start g
  refine unlessAborted hloop ((quiet_postIndex hπ _ _ _ _ _ _).trans ?_)
  split_ifs
  · exact (quiet_zeroUpper hπ _ _ _).trans hloop
  · exact hloop

theorem quiet_simdLdStSingle (g : Guest M) (isLoad replicate postidx : Bool) (rm rn rt : Reg)
    (size selem index : ℕ) (q : Bool) :
    π (simdLdStSingle g isLoad replicate postidx rm rn rt size selem index q).cpu =
      π g.cpu := by
  unfold simdLdStSingle
  extract_lets ebytes start step g'
  have hstep (tt : Reg) (off : ℕ) (addr : BitVec 64) (g : Guest M) :
      π (step tt off addr g).cpu = π g.cpu := by
    show π (if replicate then replicateStep size q tt addr g
      else elemStep isLoad size tt off addr g).cpu = π g.cpu
    split_ifs
    · exact quiet_replicateStep hπ _ _ _ _ _
    · exact quiet_elemStep hπ _ _ _ _ _ _
  have hloop : π g'.cpu = π g.cpu := structLoop_eq hstep ebytes _ start g
  exact unlessAborted hloop ((quiet_postIndex hπ _ _ _ _ _ _).trans hloop)

end Memory

/-! ## Data processing -/

section DataProc

variable (cpu : CpuState)

theorem quiet_moveWide {sf : Bool} {opc : ℕ} {hw : BitVec 2} {imm16 : BitVec 16} {rd : Reg}
    {cpu' : CpuState} (h : moveWide cpu sf opc hw imm16 rd = some cpu') :
    π cpu' = π cpu := by
  obtain ⟨result, -, rfl⟩ := Option.map_eq_some_iff.mp h
  exact quiet_write hπ _ _ _ _ _

theorem quiet_logicalImm {sf : Bool} {opc : ℕ} {imm : BitVec 64} {rn rd : Reg} {cpu' : CpuState}
    (h : logicalImm cpu sf opc imm rn rd = some cpu') : π cpu' = π cpu := by
  obtain ⟨result, -, rfl⟩ := Option.map_eq_some_iff.mp h
  exact (quiet_write hπ _ _ _ _ _).trans (quiet_setFlagsIf hπ _ _ _)

theorem quiet_logicalReg {sf : Bool} {opc : ℕ} {negate : Bool} {shift : ShiftType}
    {amount : BitVec 6} {rm rn rd : Reg} {cpu' : CpuState}
    (h : logicalReg cpu sf opc negate shift amount rm rn rd = some cpu') :
    π cpu' = π cpu := by
  obtain ⟨result, -, rfl⟩ := Option.map_eq_some_iff.mp h
  exact (quiet_write hπ _ _ _ _ _).trans (quiet_setFlagsIf hπ _ _ _)

theorem quiet_dataProc1Src {sf : Bool} {opcode : ℕ} {rn rd : Reg} {cpu' : CpuState}
    (h : dataProc1Src cpu sf opcode rn rd = some cpu') : π cpu' = π cpu := by
  obtain ⟨result, -, rfl⟩ := Option.map_eq_some_iff.mp h
  exact quiet_write hπ _ _ _ _ _

theorem quiet_dataProc2Src {sf : Bool} {opcode : ℕ} {rm rn rd : Reg} {cpu' : CpuState}
    (h : dataProc2Src cpu sf opcode rm rn rd = some cpu') : π cpu' = π cpu := by
  unfold dataProc2Src at h
  dsimp only at h
  split at h
  · obtain rfl := Option.some.inj h
    exact quiet_write hπ _ _ _ _ _
  · obtain ⟨result, -, rfl⟩ := Option.map_eq_some_iff.mp h
    exact quiet_write hπ _ _ _ _ _

theorem quiet_dataProc3Src {sf : Bool} {op31 : ℕ} {o0 : Bool} {rm ra rn rd : Reg}
    {cpu' : CpuState} (h : dataProc3Src cpu sf op31 o0 rm ra rn rd = some cpu') :
    π cpu' = π cpu := by
  obtain ⟨result, -, rfl⟩ := Option.map_eq_some_iff.mp h
  exact quiet_write hπ _ _ _ _ _

theorem quiet_condCompare (sf sub isImm : Bool) (immY : BitVec 5) (rm : Reg) (cond nzcv : BitVec 4)
    (rn : Reg) : π (condCompare cpu sf sub isImm immY rm cond nzcv rn) = π cpu := by
  unfold condCompare
  split_ifs
  all_goals exact hπ.flags cpu _

theorem quiet_branchImm (link : Bool) (offset pc : BitVec 64) :
    π (branchImm cpu link offset pc).2 = π cpu := by
  unfold branchImm
  dsimp only
  split_ifs
  · exact quiet_writeGpr hπ _ _ _ _
  · rfl

theorem quiet_branchReg (opc : ℕ) (rn : Reg) (pc : BitVec 64) :
    π (branchReg cpu opc rn pc).2 = π cpu := by
  unfold branchReg
  dsimp only
  split_ifs
  · exact quiet_writeGpr hπ _ _ _ _
  · rfl

end DataProc

/-! ## Every instruction -/

section Execute

variable {M : Type} [GuestMem M]

/-- Whatever state the executor leaves looks as `g` does. -/
def KeepsView (π : CpuState → α) (g : Guest M)
    (r : Option (Option (BitVec 64) × Guest M)) : Prop :=
  ∀ next g', r = some (next, g') → π g'.cpu = π g.cpu

omit hπ [GuestMem M] in
theorem keepsView_none (g : Guest M) : KeepsView π g none := by
  intro next g' heq
  cases heq

omit hπ [GuestMem M] in
theorem keepsView_some {g g' : Guest M} (next : Option (BitVec 64))
    (h : π g'.cpu = π g.cpu) : KeepsView π g (some (next, g')) := by
  intro next' g'' heq
  obtain ⟨-, rfl⟩ := Prod.mk.inj (Option.some.inj heq)
  exact h

omit hπ [GuestMem M] in
theorem keepsView_seq {g : Guest M} {cpu : CpuState} (h : π cpu = π g.cpu) :
    KeepsView π g (seq g cpu) := keepsView_some none h

omit hπ [GuestMem M] in
theorem keepsView_bind {g : Guest M} {r : Option CpuState}
    (h : ∀ cpu, r = some cpu → π cpu = π g.cpu) : KeepsView π g (r.bind (seq g)) := by
  cases r with
  | none => exact keepsView_none g
  | some cpu => exact keepsView_seq (h cpu rfl)

omit [GuestMem M] in
theorem keepsView_vec (vu : VecUnit) (g : Guest M) (insn : Insn) :
    KeepsView π g ((vu insn (vecView g.cpu)).bind fun w => seq g (setVecView g.cpu w)) := by
  cases vu insn (vecView g.cpu) with
  | none => exact keepsView_none g
  | some w => exact keepsView_seq (quiet_setVecView hπ g.cpu w)

/-- Instructions other than system instructions leave a quiet view alone. -/
theorem keepsView_execute (vu : VecUnit) (g : Guest M) (insn : Insn) (pc : BitVec 64)
    (hsys : ¬ IsSystem insn) (hm : IsExclusive insn → MonitorQuiet π) :
    KeepsView π g (execute vu g insn pc) := by
  cases insn with
  -- data processing
  | moveWide => exact keepsView_bind fun cpu h => quiet_moveWide hπ _ h
  | addSubImm | addSubShiftedReg | addSubCarry | addSubExtReg =>
    exact keepsView_seq ((quiet_write hπ _ _ _ _ _).trans (quiet_setFlagsIf hπ _ _ _))
  | logicalImm => exact keepsView_bind fun cpu h => quiet_logicalImm hπ _ h
  | logicalShiftedReg => exact keepsView_bind fun cpu h => quiet_logicalReg hπ _ h
  | bitfield | extract | condSelect | pcRel => exact keepsView_seq (quiet_write hπ _ _ _ _ _)
  | condCompare => exact keepsView_seq (quiet_condCompare hπ _ _ _ _ _ _ _ _ _)
  | dataProc1Src => exact keepsView_bind fun cpu h => quiet_dataProc1Src hπ _ h
  | dataProc2Src => exact keepsView_bind fun cpu h => quiet_dataProc2Src hπ _ h
  | dataProc3Src => exact keepsView_bind fun cpu h => quiet_dataProc3Src hπ _ h
  -- branches
  | branchImm link offset => exact keepsView_some _ (quiet_branchImm hπ g.cpu link offset pc)
  | condBranch | compareBranch | testBranch => exact keepsView_some _ rfl
  | branchReg opc rn => exact keepsView_some _ (quiet_branchReg hπ g.cpu opc rn pc)
  -- loads and stores
  | loadStore => exact keepsView_some _ (quiet_loadStore hπ _ _ _ _ _ _ _ _ _ _)
  | loadStorePair => exact keepsView_some _ (quiet_loadStorePair hπ _ _ _ _ _ _ _ _ _ _ _)
  | atomicRmw => exact keepsView_some _ (quiet_atomicRmw hπ _ _ _ _ _ _)
  | compareSwap => exact keepsView_some _ (quiet_compareSwap hπ _ _ _ _ _)
  | loadExclusive => exact keepsView_some _ (quiet_loadExclusive hπ (hm trivial) _ _ _ _)
  | storeExclusive => exact keepsView_some _ (quiet_storeExclusive hπ (hm trivial) _ _ _ _ _)
  | loadExclusivePair => exact keepsView_some _ (quiet_loadExclusivePair hπ (hm trivial) _ _ _ _ _)
  | storeExclusivePair =>
    exact keepsView_some _ (quiet_storeExclusivePair hπ (hm trivial) _ _ _ _ _ _)
  | compareSwapPair =>
    intro next g' heq
    obtain ⟨g'', hcas, hpair⟩ := Option.map_eq_some_iff.mp heq
    obtain ⟨-, rfl⟩ := Prod.mk.inj hpair
    exact quiet_compareSwapPair hπ hcas
  | simdLdStMulti => exact keepsView_some _ (quiet_simdLdStMulti hπ _ _ _ _ _ _ _ _ _ _)
  | simdLdStSingle => exact keepsView_some _ (quiet_simdLdStSingle hπ _ _ _ _ _ _ _ _ _ _ _)
  | dcZva => exact keepsView_some _ ((sameRegs_dcZva _ _).quiet hπ)
  -- system instructions: of them, an MRS writes a general register only
  | sysRegMove read key rt =>
    cases read with
    | true => exact keepsView_seq (quiet_writeGpr hπ _ _ _ _)
    | false => exact absurd rfl hsys
  | msrImm | svc | hvc | smc | eret | brk => exact absurd trivial hsys
  -- maintenance, hints and waits
  | tlbi => exact keepsView_seq (quiet_flushTlb hπ _)
  | ic => exact keepsView_seq (hπ.hint g.cpu g.cpu.wfi true)
  | wfi | wfe => exact keepsView_seq (hπ.hint g.cpu true g.cpu.icInval)
  | nop | prfm => exact keepsView_seq rfl
  | unsupported => exact keepsView_none g
  -- SIMD and floating point
  | _ => exact keepsView_vec hπ vu g _

theorem quiet_execute {vu : VecUnit} {g g' : Guest M} {insn : Insn} {pc : BitVec 64}
    {next : Option (BitVec 64)} (h : execute vu g insn pc = some (next, g'))
    (hsys : ¬ IsSystem insn) (hm : IsExclusive insn → MonitorQuiet π) : π g'.cpu = π g.cpu :=
  keepsView_execute hπ vu g insn pc hsys hm next g' h

/-- A fetch translation leaves a quiet view alone. -/
theorem quiet_translate (g : Guest M) (va : BitVec 64) (access : Access) (el : Fin 4) :
    π (translate g va access el).2.cpu = π g.cpu := by
  obtain ⟨tlb, htlb⟩ := translate_cpu g va access el
  rw [htlb]
  exact hπ.access g.cpu tlb g.cpu.tlbFlushed g.cpu.pendingAbort

end Execute

end V64.Interp
