import V64.Interp.ByteAccess
import V64.Interp.CodeRun
import V64.Interp.Monitor

/-!
# What every step keeps

The TLB caches whole pages, and nothing while translation is off; an invariant of the
memory that its accesses keep holds as long. No instruction, exception or interrupt
breaks any of that, whatever the guest has written to its tables since.

* `MemKept`: an invariant that every access of a memory keeps.
* `Steady`: the invariant; `Steady.execute`, `Steady.step`, `Steady.codeSteps`.
* `between_of_run`: it holds in every state of a run; `memKept_sameRam`: RAM stays in place.
-/

namespace V64.Interp

open V64.Cpu V64.Decoder V64.Platform Runs

/-- The state that translates, apart from the tables. -/
def xlateState (cpu : CpuState) : Tlb × BitVec 64 := (cpu.tlb, cpu.sctlrEl1)

/-! ## State updates -/

section Updates

variable (cpu : CpuState)

theorem xlateState_writeGpr (idx : Reg) (sp : Bool) (val : BitVec 64) :
    xlateState (cpu.writeGpr idx sp val) = xlateState cpu := by
  obtain ⟨x, sp', heq⟩ := cpu.writeGpr_eq idx sp val
  rw [heq]
  rfl

theorem xlateState_write (idx : Reg) (sf : Bool) (val : BitVec 64) (sp : Bool) :
    xlateState (write cpu idx sf val sp) = xlateState cpu := by
  rw [write_eq, xlateState_writeGpr]

theorem xlateState_setFlagsIf (setFlags : Bool) (flags : Flags) :
    xlateState (setFlagsIf cpu setFlags flags) = xlateState cpu := by
  unfold setFlagsIf
  split_ifs <;> rfl

theorem xlateState_writeResult (dst64 : Bool) (rt : Reg) (value : BitVec 64) :
    xlateState (writeResult cpu dst64 rt value) = xlateState cpu := by
  unfold writeResult
  split_ifs
  · exact xlateState_writeGpr cpu rt false value
  · exact xlateState_writeGpr cpu rt false _

theorem xlateState_postIndex (postidx : Bool) (rm rn : Reg) (start total : BitVec 64) :
    xlateState (postIndex cpu postidx rm rn start total) = xlateState cpu := by
  unfold postIndex
  split_ifs
  · exact xlateState_writeGpr cpu rn true _
  · exact xlateState_writeGpr cpu rn true _
  · rfl

theorem xlateState_zeroUpper (rt : Reg) (count : ℕ) :
    xlateState (zeroUpper cpu rt count) = xlateState cpu := by
  unfold zeroUpper
  induction List.range count generalizing cpu with
  | nil => rfl
  | cons k ks ih =>
    rw [List.foldl_cons, ih]
    rfl

theorem xlateState_writeSpEl (i : Fin 4) (val : BitVec 64) :
    xlateState (cpu.writeSpEl i val) = xlateState cpu := by
  unfold CpuState.writeSpEl
  split_ifs <;> rfl

theorem xlateState_setElSpsel (el : Fin 4) (spsel : Bool) :
    xlateState (cpu.setElSpsel el spsel) = xlateState cpu := by
  obtain ⟨sp, spEl, heq⟩ := CpuState.setElSpsel_eq cpu el spsel
  rw [heq]
  rfl

theorem xlateState_msrImm (op1 op2 : ℕ) (crm : BitVec 4) :
    xlateState (msrImm cpu op1 op2 crm) = xlateState cpu := by
  unfold msrImm
  split
  · exact xlateState_setElSpsel cpu _ _
  all_goals rfl

theorem xlateState_psciCall : xlateState (psciCall cpu) = xlateState cpu := by
  unfold psciCall
  dsimp only
  split_ifs <;> rfl

theorem xlateState_enterEl1 (returnAddr vecType : BitVec 64) :
    xlateState (enterEl1 cpu returnAddr vecType).2 = xlateState cpu := by
  unfold enterEl1
  extract_lets _ _ _ cpu1 cpu2 cpu3
  show xlateState cpu3 = xlateState cpu
  exact xlateState_setElSpsel cpu2 1 true

theorem xlateState_takeException (ec iss : BitVec 32) (returnAddr : BitVec 64) :
    xlateState (takeException cpu ec iss returnAddr).2 = xlateState cpu :=
  xlateState_enterEl1 cpu returnAddr vecSync

theorem xlateState_dataAbort (faultPc : BitVec 64) (abort : Abort) :
    xlateState (dataAbort cpu faultPc abort).2 = xlateState cpu :=
  xlateState_takeException (insertSysreg cpu keyFarEl1 abort.far) _ _ faultPc

theorem xlateState_instAbort (faultPc : BitVec 64) (fsc : BitVec 8) :
    xlateState (instAbort cpu faultPc fsc).2 = xlateState cpu :=
  xlateState_takeException (insertSysreg cpu keyFarEl1 faultPc) _ _ faultPc

theorem xlateState_undefined (pc : BitVec 64) :
    xlateState (undefined cpu pc).2 = xlateState cpu := xlateState_takeException cpu ecUnknown 0 pc

theorem xlateState_condCompare (sf sub isImm : Bool) (immY : BitVec 5) (rm : Reg)
    (cond nzcv : BitVec 4) (rn : Reg) :
    xlateState (condCompare cpu sf sub isImm immY rm cond nzcv rn) = xlateState cpu := by
  unfold condCompare
  split_ifs <;> rfl

theorem xlateState_branchImm (link : Bool) (offset pc : BitVec 64) :
    xlateState (branchImm cpu link offset pc).2 = xlateState cpu := by
  unfold branchImm
  dsimp only
  split_ifs
  · exact xlateState_writeGpr _ _ _ _
  · rfl

theorem xlateState_branchReg (opc : ℕ) (rn : Reg) (pc : BitVec 64) :
    xlateState (branchReg cpu opc rn pc).2 = xlateState cpu := by
  unfold branchReg
  dsimp only
  split_ifs
  · exact xlateState_writeGpr _ _ _ _
  · rfl

theorem xlateState_dataProc2Src {sf : Bool} {opcode : ℕ} {rm rn rd : Reg} {cpu' : CpuState}
    (h : dataProc2Src cpu sf opcode rm rn rd = some cpu') : xlateState cpu' = xlateState cpu := by
  unfold dataProc2Src at h
  dsimp only at h
  split at h
  · obtain rfl := Option.some.inj h
    exact xlateState_write _ _ _ _ _
  · obtain ⟨result, -, rfl⟩ := Option.map_eq_some_iff.mp h
    exact xlateState_write _ _ _ _ _

/-- The executors that write one result, where they find one. -/
theorem xlateState_of_map {result : Option (BitVec 64)} {f : BitVec 64 → CpuState}
    (hf : ∀ v, xlateState (f v) = xlateState cpu) {cpu' : CpuState}
    (h : result.map f = some cpu') : xlateState cpu' = xlateState cpu := by
  obtain ⟨v, -, rfl⟩ := Option.map_eq_some_iff.mp h
  exact hf v

end Updates

/-! ## The invariant -/

variable {M : Type} [GuestMem M]

/-- Every access to a memory keeps `P`. -/
structure MemKept (P : M → Prop) : Prop where
  readU8 : ∀ m a, P m → P (GuestMem.readU8 m a).2
  readU16 : ∀ m a, P m → P (GuestMem.readU16 m a).2
  readU32 : ∀ m a, P m → P (GuestMem.readU32 m a).2
  readU64 : ∀ m a, P m → P (GuestMem.readU64 m a).2
  writeU8 : ∀ m a v, P m → P (GuestMem.writeU8 m a v)
  writeU16 : ∀ m a v, P m → P (GuestMem.writeU16 m a v)
  writeU32 : ∀ m a v, P m → P (GuestMem.writeU32 m a v)
  writeU64 : ∀ m a v, P m → P (GuestMem.writeU64 m a v)

/-- The memory keeps `P`, cached translations are to whole pages, and there are none while
    the MMU is off. -/
structure Steady (P : M → Prop) (g : Guest M) : Prop where
  mem : P g.mem
  aligned : g.cpu.tlb.PagesAligned
  off : mmuEnabled g.cpu = false → g.cpu.tlb.IsEmpty

variable {P : M → Prop} {g g' : Guest M}

omit [GuestMem M] in
theorem Steady.cpu (h : Steady P g) {cpu : CpuState} (hx : xlateState cpu = xlateState g.cpu) :
    Steady P { g with cpu := cpu } := by
  obtain ⟨htlb, hsctlr⟩ := Prod.mk.inj hx
  refine ⟨h.mem, ?_, ?_⟩
  · show cpu.tlb.PagesAligned
    rw [htlb]
    exact h.aligned
  · show (cpu.sctlrEl1 &&& 1 == 1) = false → cpu.tlb.IsEmpty
    rw [htlb, hsctlr]
    exact h.off

omit [GuestMem M] in
theorem Steady.withMem (h : Steady P g) {mem : M} (hmem : P mem) :
    Steady P { g with mem := mem } := ⟨hmem, h.aligned, h.off⟩

omit [GuestMem M] in
/-- A flush, with or without a write to SCTLR_EL1. -/
theorem Steady.flush (h : Steady P g) {cpu : CpuState} (hempty : cpu.tlb.IsEmpty) :
    Steady P { g with cpu := cpu } := ⟨h.mem, hempty.pagesAligned, fun _ => hempty⟩

omit [GuestMem M] in
theorem Steady.abort (h : Steady P g) (abort : Abort) : Steady P (g.abort abort) := h.cpu rfl

omit [GuestMem M] in
theorem Steady.unlessAborted (h : Steady P g) (h' : Steady P g') :
    Steady P (if g.aborted then g else g') := by
  split_ifs
  · exact h
  · exact h'

omit [GuestMem M] in
theorem Steady.alignCheck (h : Steady P g) {va bytes : BitVec 64} {write : Bool}
    (hcheck : Interp.alignCheck g va bytes write = some g') : Steady P g' := by
  unfold Interp.alignCheck at hcheck
  split_ifs at hcheck
  obtain rfl := Option.some.inj hcheck
  exact h.abort _

/-! ## Memory -/

section Memory

variable (hP : MemKept P)
include hP

theorem MemKept.walkLoop (va : BitVec 64) (left : ℕ) {mem : M} (h : P mem)
    (tableBase : BitVec 64) (tp : TablePerms) : P (Interp.walkLoop va left mem tableBase tp).2 := by
  induction left generalizing mem tableBase tp with
  | zero =>
    rw [Interp.walkLoop]
    dsimp only
    split <;> exact hP.readU64 _ _ h
  | succ left ih =>
    rw [Interp.walkLoop]
    dsimp only
    split
    · exact hP.readU64 _ _ h
    · exact hP.readU64 _ _ h
    · exact ih (hP.readU64 _ _ h) _ _

theorem Steady.translate (h : Steady P g) (va : BitVec 64) (access : Access) (el : Fin 4) :
    Steady P (Interp.translate g va access el).2 := by
  refine ⟨?_, pagesAligned_translate h.aligned va access el, ?_⟩
  · unfold Interp.translate
    split_ifs
    · exact h.mem
    · split
      · exact h.mem
      · have hwalk := hP.walkLoop va
          (3 - startingLevel (region g.cpu va).2).toNat h.mem (region g.cpu va).1 TablePerms.default
        unfold translateMiss
        dsimp only
        split
        · next heq =>
          rw [show walkLoop va _ _ _ _ = _ from heq] at hwalk
          exact hwalk
        · next heq =>
          rw [show walkLoop va _ _ _ _ = _ from heq] at hwalk
          exact hwalk
  · intro hoff
    obtain ⟨tlb, htlb⟩ := translate_cpu g va access el
    have hoff' : mmuEnabled g.cpu = false := by
      rw [htlb] at hoff
      exact hoff
    rw [translate_of_off hoff']
    exact h.off hoff'

theorem Steady.xlate (h : Steady P g) {va : BitVec 64} {write : Bool} {el : Fin 4}
    {pa : Option (BitVec 64)} (heq : Interp.xlate g va write el = (pa, g')) : Steady P g' := by
  have htranslate := h.translate hP va (if write then .write else .read) el
  unfold Interp.xlate at heq
  dsimp only at heq
  split at heq
  · next htr =>
    obtain ⟨-, rfl⟩ := Prod.mk.inj heq
    rw [htr] at htranslate
    exact htranslate
  · next htr =>
    obtain ⟨-, rfl⟩ := Prod.mk.inj heq
    rw [htr] at htranslate
    exact htranslate.abort _

theorem MemKept.gatherChunk (pa : BitVec 64) (done chunk : ℕ) (val : BitVec 128) {mem : M}
    (h : P mem) : P (Interp.gatherChunk pa done chunk val mem).2 := by
  induction chunk with
  | zero => exact h
  | succ i ih => exact hP.readU8 _ _ ih

theorem MemKept.scatterChunk (pa : BitVec 64) (done chunk : ℕ) (val : BitVec 128) {mem : M}
    (h : P mem) : P (Interp.scatterChunk pa done val chunk mem) := by
  induction chunk with
  | zero => exact h
  | succ i ih => exact hP.writeU8 _ _ _ ih

theorem MemKept.readSized {mem : M} (h : P mem) (pa : BitVec 64) (size : ℕ) :
    P (Interp.readSized mem pa size).2 := by
  unfold Interp.readSized
  split
  · exact hP.readU8 _ _ h
  · exact hP.readU16 _ _ h
  · exact hP.readU32 _ _ h
  · exact hP.readU64 _ _ h

theorem MemKept.writeSized {mem : M} (h : P mem) (pa : BitVec 64) (size : ℕ) (val : BitVec 64) :
    P (Interp.writeSized mem pa size val) := by
  unfold Interp.writeSized
  split
  · exact hP.writeU8 _ _ _ h
  · exact hP.writeU16 _ _ _ h
  · exact hP.writeU32 _ _ _ h
  · exact hP.writeU64 _ _ _ h

theorem Steady.gatherLoop (va : BitVec 64) (n : ℕ) (el : Fin 4) (fuel : ℕ) (val : BitVec 128)
    (done : ℕ) (h : Steady P g) : Steady P (Interp.gatherLoop va n el fuel val done g).2 := by
  induction fuel generalizing val done g with
  | zero => exact h
  | succ fuel ih =>
    rw [Interp.gatherLoop]
    split_ifs
    · dsimp only
      split
      · next heq => exact h.xlate hP heq
      · next heq =>
        have hx := h.xlate hP heq
        exact ih _ _ (hx.withMem (hP.gatherChunk _ _ _ _ hx.mem))
    · exact h

theorem Steady.scatterLoop (va : BitVec 64) (n : ℕ) (val : BitVec 128) (el : Fin 4) (fuel done : ℕ)
    (h : Steady P g) : Steady P (Interp.scatterLoop va n val el fuel done g) := by
  induction fuel generalizing done g with
  | zero => exact h
  | succ fuel ih =>
    rw [Interp.scatterLoop]
    split_ifs
    · dsimp only
      split
      · next heq => exact h.xlate hP heq
      · next heq =>
        have hx := h.xlate hP heq
        exact ih _ (hx.withMem (hP.scatterChunk _ _ _ _ hx.mem))
    · exact h

theorem Steady.gather (h : Steady P g) (va : BitVec 64) (n : ℕ) (el : Fin 4) :
    Steady P (Interp.gather g va n el).2 := h.gatherLoop hP va n el n 0 0

theorem Steady.scatter (h : Steady P g) (va : BitVec 64) (n : ℕ) (val : BitVec 128) (el : Fin 4) :
    Steady P (Interp.scatter g va n val el) := h.scatterLoop hP va n val el n 0

theorem Steady.readAt (h : Steady P g) (va : BitVec 64) (size : ℕ) (el : Fin 4) :
    Steady P (Interp.readAt g va size el).2 := by
  unfold Interp.readAt
  dsimp only
  split_ifs
  · split
    · next heq => exact h.xlate hP heq
    · next heq =>
      have hx := h.xlate hP heq
      exact hx.withMem (hP.readSized hx.mem _ _)
  · exact h.gather hP va _ el

theorem Steady.writeAt (h : Steady P g) (va : BitVec 64) (size : ℕ) (val : BitVec 64)
    (el : Fin 4) : Steady P (Interp.writeAt g va size val el) := by
  unfold Interp.writeAt
  dsimp only
  split_ifs
  · split
    · next heq => exact h.xlate hP heq
    · next heq =>
      have hx := h.xlate hP heq
      exact hx.withMem (hP.writeSized hx.mem _ _ _)
  · exact h.scatter hP va _ _ el

theorem Steady.read (h : Steady P g) (va : BitVec 64) (size : ℕ) :
    Steady P (MemAccess.read g va size).2 := h.readAt hP va size g.cpu.el

theorem Steady.write (h : Steady P g) (va : BitVec 64) (size : ℕ) (val : BitVec 64) :
    Steady P (MemAccess.write g va size val) := h.writeAt hP va size val g.cpu.el

theorem Steady.readVec (h : Steady P g) (va : BitVec 64) (log2 : ℕ) :
    Steady P (MemAccess.readVec g va log2).2 := h.gather hP va _ _

theorem Steady.writeVec (h : Steady P g) (va : BitVec 64) (log2 : ℕ) (val : BitVec 128) :
    Steady P (MemAccess.writeVec g va log2 val) := h.scatter hP va _ _ _

theorem Steady.dcZvaLoop (base : BitVec 64) (left off : ℕ) (h : Steady P g) :
    Steady P (Interp.dcZvaLoop base left off g) := by
  induction left generalizing off g with
  | zero => exact h
  | succ left ih =>
    have hwrite := h.write hP (base + BitVec.ofNat 64 off) 0 0
    exact hwrite.unlessAborted (ih _ hwrite)

omit hP [GuestMem M] in
theorem Steady.writebackBase (h : Steady P g) (writeback : Option (Reg × BitVec 64)) :
    Steady P (Interp.writebackBase g writeback) := by
  unfold Interp.writebackBase
  split_ifs
  · exact h
  · split
    · exact h.cpu (xlateState_writeGpr _ _ _ _)
    · exact h

omit hP [GuestMem M] in
theorem Steady.setV (h : Steady P g) (tt : Reg) (v : BitVec 128) : Steady P (g.setV tt v) :=
  h.cpu rfl

omit hP [GuestMem M] in
theorem Steady.writeResult (h : Steady P g) (dst64 : Bool) (rt : Reg) (value : BitVec 64) :
    Steady P { g with cpu := Interp.writeResult g.cpu dst64 rt value } :=
  h.cpu (xlateState_writeResult _ _ _ _)

/-! ## Loads and stores -/

theorem Steady.loadStore (h : Steady P g) (size : ℕ) (isLoad signed dst64 vec unpriv : Bool)
    (rt : Reg) (addr : AddrMode) (pc : BitVec 64) :
    Steady P (Interp.loadStore g size isLoad signed dst64 vec unpriv rt addr pc) := by
  unfold Interp.loadStore
  obtain ⟨ea, writeback⟩ := effectiveAddress g.cpu addr pc
  cases vec with
  | true =>
    cases isLoad with
    | true =>
      have hread := h.readVec hP ea size
      exact hread.unlessAborted ((hread.setV rt _).writebackBase _)
    | false =>
      have hwrite := h.writeVec hP ea size (g.cpu.v rt)
      exact hwrite.unlessAborted (hwrite.writebackBase _)
  | false =>
    cases isLoad with
    | true =>
      have hread : Steady P (if unpriv then MemAccess.readUnpriv g ea size
          else MemAccess.read g ea size).2 := by
        split_ifs
        · exact h.readAt hP ea size 0
        · exact h.read hP ea size
      exact hread.unlessAborted ((hread.writeResult dst64 rt _).writebackBase _)
    | false =>
      have hwrite : Steady P (if unpriv then MemAccess.writeUnpriv g ea size
          (g.cpu.readGpr rt false) else MemAccess.write g ea size (g.cpu.readGpr rt false)) := by
        split_ifs
        · exact h.writeAt hP ea size _ 0
        · exact h.write hP ea size _
      exact hwrite.unlessAborted (hwrite.writebackBase _)

theorem Steady.loadElem (h : Steady P g) (addr : BitVec 64) (width8 signed : Bool) :
    Steady P (Interp.loadElem g addr width8 signed).2 := h.read hP addr _

theorem Steady.loadStorePair (h : Steady P g) (isLoad signed width8 vec : Bool) (vesize : ℕ)
    (rt rt2 rn : Reg) (offset : BitVec 64) (index : PairIndex) :
    Steady P (Interp.loadStorePair g isLoad signed width8 vec vesize rt rt2 rn offset index) := by
  unfold Interp.loadStorePair
  extract_lets base ea writeback
  clear_value ea
  cases vec with
  | true =>
    cases isLoad with
    | true =>
      have hread := (h.readVec hP ea vesize).readVec hP (ea + 1 <<< vesize) vesize
      exact hread.unlessAborted (((hread.setV rt _).setV rt2 _).writebackBase _)
    | false =>
      have hwrite := (h.writeVec hP ea vesize (g.cpu.v rt)).writeVec hP (ea + 1 <<< vesize) vesize
        (g.cpu.v rt2)
      exact hwrite.unlessAborted (hwrite.writebackBase _)
  | false =>
    set esize : BitVec 64 := if width8 then 8 else 4
    cases isLoad with
    | true =>
      have hread := (h.loadElem hP ea width8 signed).loadElem hP (ea + esize) width8 signed
      exact hread.unlessAborted
        (((hread.writeResult _ rt _).writeResult _ rt2 _).writebackBase _)
    | false =>
      set size := if width8 then 3 else 2
      have hwrite := (h.write hP ea size (g.cpu.readGpr rt false)).write hP (ea + esize) size
        (g.cpu.readGpr rt2 false)
      exact hwrite.unlessAborted (hwrite.writebackBase _)

/-! ## Exclusives and atomics -/

theorem Steady.loadExclusive (h : Steady P g) (size : ℕ) (rt rn : Reg) :
    Steady P (Interp.loadExclusive g size rt rn) := by
  unfold Interp.loadExclusive
  dsimp only
  split
  · next halign => exact h.alignCheck halign
  · have hread := h.read hP (g.cpu.readGpr rn true) size
    exact hread.unlessAborted (hread.cpu (xlateState_writeResult _ _ _ _))

theorem Steady.exclMatches (h : Steady P g) (addr : BitVec 64) (size : ℕ) :
    Steady P (Interp.exclMatches g addr size).2 := by
  unfold Interp.exclMatches
  split
  · split_ifs
    · exact h.read hP addr size
    · exact h
  · exact h

omit hP [GuestMem M] in
theorem Steady.exclFinish (h : Steady P g) (rs : Reg) (success : Bool) :
    Steady P (Interp.exclFinish g rs success) := h.cpu (xlateState_writeGpr _ _ _ _)

theorem Steady.storeExclusive (h : Steady P g) (size : ℕ) (rs rt rn : Reg) :
    Steady P (Interp.storeExclusive g size rs rt rn) := by
  unfold Interp.storeExclusive
  dsimp only
  split
  · next halign => exact h.alignCheck halign
  · have hmatch := h.exclMatches hP (g.cpu.readGpr rn true) size
    refine Steady.exclFinish ?_ rs _
    split_ifs
    · exact hmatch.write hP _ _ _
    · exact hmatch

theorem Steady.loadExclusivePair (h : Steady P g) (size : ℕ) (rt rt2 rn : Reg) :
    Steady P (Interp.loadExclusivePair g size rt rt2 rn) := by
  unfold Interp.loadExclusivePair
  dsimp only
  split
  · next halign => exact h.alignCheck halign
  · have hread := (h.read hP (g.cpu.readGpr rn true) size).read hP
      (g.cpu.readGpr rn true + 1 <<< size) size
    refine hread.unlessAborted (hread.cpu ?_)
    exact (xlateState_writeResult _ _ _ _).trans (xlateState_writeResult _ _ _ _)

theorem Steady.storeExclusivePair (h : Steady P g) (size : ℕ) (rs rt rt2 rn : Reg) :
    Steady P (Interp.storeExclusivePair g size rs rt rt2 rn) := by
  unfold Interp.storeExclusivePair
  dsimp only
  split
  · next halign => exact h.alignCheck halign
  · have hmatch := h.exclMatches hP (g.cpu.readGpr rn true) size
    refine Steady.exclFinish ?_ rs _
    split_ifs
    · exact (hmatch.write hP _ _ _).write hP _ _ _
    · exact hmatch

theorem Steady.atomicRmw (h : Steady P g) (size op : ℕ) (rs rn rt : Reg) :
    Steady P (Interp.atomicRmw g size op rs rn rt) := by
  unfold Interp.atomicRmw
  dsimp only
  split
  · next halign => exact h.alignCheck halign
  · have hread := h.read hP (g.cpu.readGpr rn true) size
    refine hread.unlessAborted ?_
    have hwrite (val : BitVec 64) := hread.write hP (g.cpu.readGpr rn true) size val
    exact (hwrite _).unlessAborted ((hwrite _).writeResult _ rt _)

theorem Steady.compareSwap (h : Steady P g) (size : ℕ) (rs rn rt : Reg) :
    Steady P (Interp.compareSwap g size rs rn rt) := by
  unfold Interp.compareSwap
  dsimp only
  split
  · next halign => exact h.alignCheck halign
  · have hread := h.read hP (g.cpu.readGpr rn true) size
    refine hread.unlessAborted ?_
    have hwrite (p : Prop) [Decidable p] (val : BitVec 64) :
        Steady P (if p then MemAccess.write (MemAccess.read g (g.cpu.readGpr rn true) size).2
          (g.cpu.readGpr rn true) size val
          else (MemAccess.read g (g.cpu.readGpr rn true) size).2) := by
      split_ifs
      · exact hread.write hP _ _ _
      · exact hread
    exact (hwrite _ _).unlessAborted ((hwrite _ _).writeResult _ rs _)

omit hP [GuestMem M] in
/-- The last part of `cas_pair`, once the memory has its new values. -/
theorem Steady.casPairFinish (h : Steady P g) {size : ℕ} {rs rs2 : Reg} {old1 old2 : BitVec 64}
    (heq : (if g.aborted then some g
      else some { g with
        cpu := Interp.writeResult (Interp.writeResult g.cpu (size == 3) rs old1) (size == 3) rs2
          old2 }) = some g') : Steady P g' := by
  split_ifs at heq
  · obtain rfl := Option.some.inj heq
    exact h
  · obtain rfl := Option.some.inj heq
    exact h.cpu ((xlateState_writeResult _ _ _ _).trans (xlateState_writeResult _ _ _ _))

theorem Steady.compareSwapPair (h : Steady P g) {sz : ℕ} {rs rn rt : Reg}
    (heq : Interp.compareSwapPair g sz rs rn rt = some g') : Steady P g' := by
  unfold Interp.compareSwapPair at heq
  extract_lets size esize addr mask at heq
  split at heq
  · next halign =>
    obtain rfl := Option.some.inj heq
    exact h.alignCheck halign
  · dsimp only at heq
    set read1 := (MemAccess.read g addr size).2
    set read2 := (MemAccess.read read1 (addr + esize) size).2
    have hread : Steady P read2 := (h.read hP addr size).read hP (addr + esize) size
    split at heq
    · obtain rfl := Option.some.inj heq
      exact hread
    · cases hrs : nextReg rs with
      | none =>
        rw [hrs] at heq
        cases heq
      | some rs2 =>
        rw [hrs] at heq
        simp only [Option.bind_eq_bind, Option.bind_some] at heq
        split at heq
        · cases hrt : nextReg rt with
          | none =>
            rw [hrt] at heq
            cases heq
          | some rt2 =>
            rw [hrt] at heq
            exact ((hread.write hP _ _ _).write hP _ _ _).casPairFinish heq
        · obtain rfl := Option.some.inj heq
          exact (hread.writeResult _ rs _).writeResult _ rs2 _

/-! ## Structure loads and stores -/

theorem Steady.elemStep (h : Steady P g) (isLoad : Bool) (size : ℕ) (tt : Reg) (off : ℕ)
    (addr : BitVec 64) : Steady P (Interp.elemStep isLoad size tt off addr g) := by
  unfold Interp.elemStep
  split_ifs
  · have hread := h.read hP addr size
    exact hread.unlessAborted (hread.setV _ _)
  · exact h.write hP _ _ _

theorem Steady.replicateStep (h : Steady P g) (size : ℕ) (q : Bool) (tt : Reg)
    (addr : BitVec 64) : Steady P (Interp.replicateStep size q tt addr g) := by
  have hread := h.read hP addr size
  exact hread.unlessAborted (hread.setV _ _)

omit hP [GuestMem M] in
theorem Steady.structLoop {step : Reg → ℕ → BitVec 64 → Guest M → Guest M}
    (hstep : ∀ tt off addr g, Steady P g → Steady P (step tt off addr g)) (ebytes : BitVec 64)
    (elems : List (Reg × ℕ)) (addr : BitVec 64) (h : Steady P g) :
    Steady P (Interp.structLoop step ebytes elems addr g) := by
  induction elems generalizing addr g with
  | nil => exact h
  | cons elem rest ih =>
    obtain ⟨tt, off⟩ := elem
    have hone := hstep tt off addr g h
    exact hone.unlessAborted (ih _ hone)

theorem Steady.simdLdStMulti (h : Steady P g) (isLoad q postidx : Bool) (rm rn rt : Reg)
    (size rpt selem : ℕ) :
    Steady P (Interp.simdLdStMulti g isLoad q postidx rm rn rt size rpt selem) := by
  unfold Interp.simdLdStMulti
  extract_lets ebytes elements start g'
  have hloop : Steady P g' := Steady.structLoop
    (fun tt off addr g hg => hg.elemStep hP isLoad size tt off addr) ebytes _ start h
  refine hloop.unlessAborted (hloop.cpu ((xlateState_postIndex _ _ _ _ _ _).trans ?_))
  show xlateState (if isLoad && !q then Interp.zeroUpper g'.cpu rt (rpt * selem) else g'.cpu) = _
  split_ifs
  · exact xlateState_zeroUpper _ _ _
  · rfl

theorem Steady.simdLdStSingle (h : Steady P g) (isLoad replicate postidx : Bool) (rm rn rt : Reg)
    (size selem index : ℕ) (q : Bool) :
    Steady P (Interp.simdLdStSingle g isLoad replicate postidx rm rn rt size selem index q) := by
  unfold Interp.simdLdStSingle
  extract_lets ebytes start step g'
  have hstep (tt : Reg) (off : ℕ) (addr : BitVec 64) (g : Guest M) (hg : Steady P g) :
      Steady P (step tt off addr g) := by
    show Steady P (if replicate then Interp.replicateStep size q tt addr g
      else Interp.elemStep isLoad size tt off addr g)
    split_ifs
    · exact hg.replicateStep hP _ _ _ _
    · exact hg.elemStep hP _ _ _ _ _
  have hloop : Steady P g' := Steady.structLoop hstep ebytes _ start h
  exact hloop.unlessAborted (hloop.cpu (xlateState_postIndex _ _ _ _ _ _))

end Memory

/-! ## Every instruction -/

omit [GuestMem M] in
theorem Steady.sysRegMove (h : Steady P g) (read : Bool) (key : BitVec 32) (rt : Reg) :
    Steady P { g with cpu := Interp.sysRegMove g.cpu read key rt } := by
  cases read with
  | true => exact h.cpu (xlateState_writeGpr _ _ _ _)
  | false =>
    have heff := msrEffect_writeSysreg g.cpu key (g.cpu.readGpr rt false)
    show Steady P { g with cpu := writeSysreg g.cpu key (g.cpu.readGpr rt false) }
    generalize writeSysreg g.cpu key (g.cpu.readGpr rt false) = cpu' at heff
    cases heff with
    | sctlr | tcr | ttbr0 | ttbr1 => exact h.flush (Tlb.isEmpty_flush _)
    | bank => exact h.cpu (xlateState_writeSpEl _ _ _)
    | _ => exact h.cpu rfl

section Execute

variable {vu : VecUnit} {insn : Insn} {pc : BitVec 64} {next : Option (BitVec 64)}

omit [GuestMem M] in
theorem Steady.seq (h : Steady P g) {cpu : CpuState} (hx : xlateState cpu = xlateState g.cpu)
    (heq : Interp.seq g cpu = some (next, g')) : Steady P g' := by
  obtain ⟨-, rfl⟩ := Prod.mk.inj (Option.some.inj heq)
  exact h.cpu hx

omit [GuestMem M] in
theorem Steady.bind (h : Steady P g) {r : Option CpuState}
    (hx : ∀ cpu, r = some cpu → xlateState cpu = xlateState g.cpu)
    (heq : r.bind (Interp.seq g) = some (next, g')) : Steady P g' := by
  obtain ⟨cpu, hr, heq⟩ := Option.bind_eq_some_iff.mp heq
  exact h.seq (hx cpu hr) heq

omit [GuestMem M] in
theorem Steady.vec (h : Steady P g)
    (heq : ((vu insn (vecView g.cpu)).bind fun w => Interp.seq g (setVecView g.cpu w)) =
      some (next, g')) : Steady P g' := by
  obtain ⟨w, -, heq⟩ := Option.bind_eq_some_iff.mp heq
  refine h.seq ?_ heq
  rfl

theorem Steady.execute (hP : MemKept P) (h : Steady P g)
    (heq : Interp.execute vu g insn pc = some (next, g')) : Steady P g' := by
  have haccess {g₁ : Guest M} (hg₁ : Steady P g₁) (heq : some (none, g₁) = some (next, g')) :
      Steady P g' := by
    obtain ⟨-, rfl⟩ := Prod.mk.inj (Option.some.inj heq)
    exact hg₁
  have hjump {r : Option (BitVec 64) × CpuState} (hx : xlateState r.2 = xlateState g.cpu)
      (heq : jump g r = some (next, g')) : Steady P g' := by
    obtain ⟨-, rfl⟩ := Prod.mk.inj (Option.some.inj heq)
    exact h.cpu hx
  have hvector {r : BitVec 64 × CpuState} (hx : xlateState r.2 = xlateState g.cpu)
      (heq : vector g r = some (next, g')) : Steady P g' := by
    obtain ⟨-, rfl⟩ := Prod.mk.inj (Option.some.inj heq)
    exact h.cpu hx
  cases insn with
  -- data processing
  | moveWide | dataProc1Src | dataProc3Src =>
    exact h.bind (fun cpu hr => xlateState_of_map _ (fun v => xlateState_write _ _ _ _ _) hr) heq
  | logicalImm | logicalShiftedReg =>
    refine h.bind (fun cpu hr => xlateState_of_map _ (fun v => ?_) hr) heq
    exact (xlateState_write _ _ _ _ _).trans (xlateState_setFlagsIf _ _ _)
  | dataProc2Src => exact h.bind (fun cpu hr => xlateState_dataProc2Src _ hr) heq
  | addSubImm | addSubShiftedReg | addSubCarry | addSubExtReg =>
    exact h.seq ((xlateState_write _ _ _ _ _).trans (xlateState_setFlagsIf _ _ _)) heq
  | bitfield | extract | condSelect | pcRel => exact h.seq (xlateState_write _ _ _ _ _) heq
  | condCompare => exact h.seq (xlateState_condCompare _ _ _ _ _ _ _ _ _) heq
  -- branches
  | branchImm link offset => exact hjump (xlateState_branchImm _ _ _ _) heq
  | condBranch | compareBranch | testBranch => exact hjump rfl heq
  | branchReg opc rn => exact hjump (xlateState_branchReg _ _ _ _) heq
  -- loads and stores
  | loadStore => exact haccess (h.loadStore hP _ _ _ _ _ _ _ _ _) heq
  | loadStorePair => exact haccess (h.loadStorePair hP _ _ _ _ _ _ _ _ _ _) heq
  | atomicRmw => exact haccess (h.atomicRmw hP _ _ _ _ _) heq
  | compareSwap => exact haccess (h.compareSwap hP _ _ _ _) heq
  | loadExclusive => exact haccess (h.loadExclusive hP _ _ _) heq
  | storeExclusive => exact haccess (h.storeExclusive hP _ _ _ _) heq
  | loadExclusivePair => exact haccess (h.loadExclusivePair hP _ _ _ _) heq
  | storeExclusivePair => exact haccess (h.storeExclusivePair hP _ _ _ _ _) heq
  | compareSwapPair =>
    obtain ⟨g'', hcas, hpair⟩ := Option.map_eq_some_iff.mp heq
    obtain ⟨-, rfl⟩ := Prod.mk.inj hpair
    exact h.compareSwapPair hP hcas
  | simdLdStMulti => exact haccess (h.simdLdStMulti hP _ _ _ _ _ _ _ _ _) heq
  | simdLdStSingle => exact haccess (h.simdLdStSingle hP _ _ _ _ _ _ _ _ _ _) heq
  | dcZva => exact haccess (h.dcZvaLoop hP _ _ _) heq
  -- system instructions
  | sysRegMove read key rt =>
    obtain ⟨-, rfl⟩ := Prod.mk.inj (Option.some.inj heq)
    exact h.sysRegMove read key rt
  | msrImm => exact h.seq (xlateState_msrImm _ _ _ _) heq
  | svc | brk => exact hvector (xlateState_takeException _ _ _ _) heq
  | hvc | smc => exact h.seq (xlateState_psciCall _) heq
  | eret => exact hvector (xlateState_setElSpsel _ _ _) heq
  -- maintenance, hints and waits
  | tlbi =>
    obtain ⟨-, rfl⟩ := Prod.mk.inj (Option.some.inj heq)
    exact h.flush (Tlb.isEmpty_flush _)
  | ic | wfi | wfe | nop | prfm =>
    refine h.seq ?_ heq
    rfl
  | unsupported => cases heq
  -- SIMD and floating point
  | _ => exact h.vec heq

omit [GuestMem M] in
theorem Steady.retire (h : Steady P g) (next : Option (BitVec 64)) (pc : BitVec 64) :
    Steady P (Interp.retire g next pc) := by
  unfold Interp.retire
  split
  · next abort _ => exact h.cpu (xlateState_dataAbort { g.cpu with pendingAbort := none } pc abort)
  · exact h.cpu rfl

theorem Steady.stepWord (hP : MemKept P) (h : Steady P g) {word : BitVec 32} {s : Step}
    (heq : Interp.stepWord vu g word = some (s, g')) : Steady P g' := by
  unfold Interp.stepWord at heq
  dsimp only at heq
  split at heq
  · obtain ⟨-, rfl⟩ := Prod.mk.inj (Option.some.inj heq)
    exact h
  · obtain ⟨⟨next, g''⟩, hexec, hpair⟩ := Option.map_eq_some_iff.mp heq
    obtain ⟨-, rfl⟩ := Prod.mk.inj hpair
    exact (h.execute hP hexec).retire next _

theorem Steady.step (hP : MemKept P) (h : Steady P g) {s : Step}
    (heq : Interp.step vu g = some (s, g')) : Steady P g' := by
  have htranslate := h.translate hP g.cpu.pc .exec g.cpu.el
  unfold Interp.step at heq
  dsimp only at heq
  split at heq
  · next fsc g₁ htr =>
    rw [htr] at htranslate
    obtain ⟨-, rfl⟩ := Prod.mk.inj (Option.some.inj heq)
    exact htranslate.cpu (xlateState_instAbort g₁.cpu g.cpu.pc fsc)
  · next pa g₁ htr =>
    rw [htr] at htranslate
    exact (htranslate.withMem (hP.readU32 _ _ htranslate.mem)).stepWord hP heq

theorem Steady.codeSteps (hP : MemKept P) (h : Steady P g) {code : BitVec 64 → BitVec 32} {n : ℕ}
    (heq : Interp.codeSteps vu code n g = some g') : Steady P g' := by
  induction n generalizing g' with
  | zero =>
    obtain rfl := Option.some.inj heq
    exact h
  | succ n ih =>
    obtain ⟨g₁, hn, hstep⟩ := Option.bind_eq_some_iff.mp heq
    unfold codeStep at hstep
    split at hstep
    · next hword =>
      obtain rfl := Option.some.inj hstep
      exact (ih hn).stepWord hP hword
    · cases hstep

/-- One event of the machine, whose devices leave `P` as it is. -/
theorem Steady.machineStep (hP : MemKept P) (h : Steady P g) {e : MachineEvent}
    (hstep : MachineStep vu g e g') (hdma : e = .devices → P g'.mem) : Steady P g' := by
  cases hstep with
  | insn hinsn => exact h.step hP hinsn
  | @undefined g₁ pc word hinsn =>
    exact (h.step hP hinsn).cpu (xlateState_undefined g₁.cpu pc)
  | irq => exact h.cpu (xlateState_enterEl1 g.cpu g.cpu.pc vecIrq)
  | timer ticks => exact h.cpu rfl
  | devices mem => exact h.withMem (hdma rfl)
  | wake => exact h.cpu rfl

end Execute

/-! ## Runs -/

/-- What holds between two events: besides, no abort is pending, and the flag of the exclusive
    monitor is 0 or 1. -/
structure Between (P : M → Prop) (g : Guest M) : Prop extends Steady P g where
  noAbort : g.cpu.pendingAbort = none
  exclFlag : g.cpu.exclValid = 0 ∨ g.cpu.exclValid = 1

omit [GuestMem M] in
theorem between_reset {mem : M} (h : P mem) : Between P (Guest.reset mem) where
  mem := h
  aligned := Tlb.isEmpty_new.pagesAligned
  off _ := Tlb.isEmpty_new
  noAbort := rfl
  exclFlag := .inl rfl

section Events

variable {vu : VecUnit} (hP : MemKept P)

include hP

/-- One event of the machine, whose devices keep `P`. -/
theorem Between.keptStep (h : Between P g) {e : MachineEvent} (hstep : KeptStep P vu g e g') :
    Between P g' where
  toSteady := h.machineStep hP hstep.1 fun hdevices => hstep.2 hdevices h.mem
  noAbort := noAbort_machineStep hstep.1 h.noAbort
  exclFlag := hstep.1.exclFlag h.exclFlag

/-- One instruction, also one without an implementation. -/
theorem Between.step (h : Between P g) {s : Step} (heq : Interp.step vu g = some (s, g')) :
    Between P g' where
  toSteady := h.toSteady.step hP heq
  noAbort := noAbort_step heq h.noAbort
  exclFlag := by
    cases s with
    | next pc => exact (MachineStep.insn heq).exclFlag h.exclFlag
    | unsupported pc word =>
      -- the exception, were it taken, would leave the monitor as it is
      have hflag := (MachineStep.undefined heq).exclFlag h.exclFlag
      have hkept := congrArg Prod.fst (monitor_undefined g'.cpu pc)
      rw [← show (undefined g'.cpu pc).2.exclValid = g'.cpu.exclValid from hkept]
      exact hflag

/-- **What every step keeps.** Along every run of the machine, of any instructions, exceptions
    and interrupts and with any device traffic that keeps `P`: the TLB maps to whole pages, it
    is empty while the MMU is off, and the monitor's flag is 0 or 1. -/
theorem between_of_run {g₀ : Guest M} (h : Between P g₀) {events : List MachineEvent}
    (hrun : Run (KeptStep P vu) g₀ events g) : Between P g :=
  hrun.invariant (fun _ _ _ hg hstep => hg.keptStep hP hstep) h

/-- The same along the instructions of an image. -/
theorem Between.codeSteps {g₀ : Guest M} (h : Between P g₀) {code : BitVec 64 → BitVec 32} {n : ℕ}
    (heq : Interp.codeSteps vu code n g₀ = some g) : Between P g := by
  refine ⟨h.toSteady.codeSteps hP heq, noAbort_codeSteps heq h.noAbort, ?_⟩
  induction n generalizing g with
  | zero =>
    obtain rfl := Option.some.inj heq
    exact h.exclFlag
  | succ n ih =>
    obtain ⟨g₁, hn, hstep⟩ := Option.bind_eq_some_iff.mp heq
    unfold codeStep at hstep
    split at hstep
    · next pc g₂ hword =>
      obtain rfl := Option.some.inj hstep
      obtain ⟨hkept, -⟩ | ⟨-, -, hone, -⟩ | hzero := monitor_stepWord hword
      · have hvalid : g₂.cpu.exclValid = g₁.cpu.exclValid := congrArg Prod.fst hkept
        rw [hvalid]
        exact ih hn
      · exact .inr hone
      · exact .inl hzero
    · cases hstep

end Events

section Ram

variable {D : Type} [MmioDevice D]

/-- RAM where it is in `b`. -/
def SameRam (b b' : Bus D) : Prop := b'.ram.base = b.ram.base ∧ b'.ram.size = b.ram.size

theorem sameRam_load (b b' : Bus D) (addr : BitVec 64) (size : ℕ) (h : SameRam b b') :
    SameRam b (b'.load addr size).2 := by
  unfold SameRam
  rw [Bus.ram_load]
  exact h

theorem sameRam_store (b b' : Bus D) (addr : BitVec 64) (size : ℕ) (val : BitVec 64)
    (h : SameRam b b') : SameRam b (b'.store addr size val) := by
  unfold Bus.store
  split
  · split_ifs
    · exact h
    · exact h
  · split
    · exact h
    · exact h
  · exact h

/-- No access of the bus moves RAM. -/
theorem memKept_sameRam (b : Bus D) : MemKept (SameRam b) where
  readU8 m a := sameRam_load b m a 1
  readU16 m a := sameRam_load b m a 2
  readU32 m a := sameRam_load b m a 4
  readU64 m a := sameRam_load b m a 8
  writeU8 m a _ := sameRam_store b m a 1 _
  writeU16 m a _ := sameRam_store b m a 2 _
  writeU32 m a _ := sameRam_store b m a 4 _
  writeU64 m a v := sameRam_store b m a 8 v

end Ram

end V64.Interp
