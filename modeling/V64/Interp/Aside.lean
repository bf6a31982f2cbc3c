import V64.Interp.Run

/-!
# What no executor reads

PC, the mailbox of compiled code and the two flags that the run loop of compiled code
takes: no executor reads them, and of them only the flags are written, to be set.

* `Aside`: a change of these fields.
* `execute_aside`: an instruction does the same before and after the change.
-/

namespace V64.Interp

open V64.Cpu V64.Decoder

/-- A change of the fields that no executor reads. -/
structure Aside where
  pc : BitVec 64 → BitVec 64
  nzcv : BitVec 64 → BitVec 64
  jitCount : BitVec 64 → BitVec 64
  jitExit : BitVec 64 → BitVec 64
  icInval : Bool
  tlbFlushed : Bool

/-- The change, of a CPU; a flag that is set stays set. -/
def Aside.put (s : Aside) (cpu : CpuState) : CpuState :=
  { cpu with
    pc := s.pc cpu.pc, nzcv := s.nzcv cpu.nzcv, jitCount := s.jitCount cpu.jitCount,
    jitExit := s.jitExit cpu.jitExit, icInval := s.icInval || cpu.icInval,
    tlbFlushed := s.tlbFlushed || cpu.tlbFlushed }

/-- The change, of a guest. -/
def Guest.aside {M : Type} (s : Aside) (g : Guest M) : Guest M := { g with cpu := s.put g.cpu }

/-- The change, of what an operation returns besides a value. -/
def onGuest {α M : Type} (s : Aside) (r : α × Guest M) : α × Guest M := (r.1, r.2.aside s)

variable (s : Aside)

theorem onGuest_snd {α M : Type} (r : α × Guest M) : (onGuest s r).2 = r.2.aside s := rfl

theorem onGuest_mk {α M : Type} (a : α) (g : Guest M) : onGuest s (a, g) = (a, g.aside s) := rfl

/-! ## Registers -/

section Registers

variable (cpu : CpuState)

theorem aside_writeGpr (idx : Reg) (sp : Bool) (val : BitVec 64) :
    (s.put cpu).writeGpr idx sp val = s.put (cpu.writeGpr idx sp val) := by
  unfold CpuState.writeGpr
  split_ifs <;> rfl

theorem aside_write (idx : Reg) (sf : Bool) (val : BitVec 64) (sp : Bool) :
    write (s.put cpu) idx sf val sp = s.put (write cpu idx sf val sp) := by
  rw [write_eq, write_eq, aside_writeGpr]

theorem aside_setFlagsIf (setFlags : Bool) (flags : Flags) :
    setFlagsIf (s.put cpu) setFlags flags = s.put (setFlagsIf cpu setFlags flags) := by
  unfold setFlagsIf
  split_ifs <;> rfl

theorem aside_writeResult (dst64 : Bool) (rt : Reg) (value : BitVec 64) :
    writeResult (s.put cpu) dst64 rt value = s.put (writeResult cpu dst64 rt value) := by
  unfold writeResult
  split_ifs
  · exact aside_writeGpr s cpu rt false value
  · exact aside_writeGpr s cpu rt false _

theorem aside_setElSpsel (el : Fin 4) (spsel : Bool) :
    (s.put cpu).setElSpsel el spsel = s.put (cpu.setElSpsel el spsel) := by
  unfold CpuState.setElSpsel
  change (if cpu.spIndex ≠ (if spsel then el else 0) then _ else _) =
    s.put (if cpu.spIndex ≠ (if spsel then el else 0) then _ else _)
  split_ifs <;> rfl

theorem aside_writeSpEl (idx : Fin 4) (val : BitVec 64) :
    (s.put cpu).writeSpEl idx val = s.put (cpu.writeSpEl idx val) := by
  unfold CpuState.writeSpEl
  change (if idx = cpu.spIndex then _ else _) = s.put (if idx = cpu.spIndex then _ else _)
  split_ifs <;> rfl

theorem aside_flushTlb : (s.put cpu).flushTlb = s.put cpu.flushTlb := by
  unfold CpuState.flushTlb Aside.put
  dsimp only
  rw [Bool.or_true]

theorem aside_zeroUpper (rt : Reg) (count : ℕ) :
    zeroUpper (s.put cpu) rt count = s.put (zeroUpper cpu rt count) := by
  unfold zeroUpper
  induction List.range count generalizing cpu with
  | nil => rfl
  | cons k ks ih =>
    rw [List.foldl_cons, List.foldl_cons, ← ih]
    rfl

theorem aside_postIndex (postidx : Bool) (rm rn : Reg) (start total : BitVec 64) :
    postIndex (s.put cpu) postidx rm rn start total =
      s.put (postIndex cpu postidx rm rn start total) := by
  unfold postIndex
  split_ifs
  · exact aside_writeGpr s cpu rn true _
  · exact aside_writeGpr s cpu rn true _
  · rfl

end Registers

/-! ## Translation and memory -/

section Memory

variable {M : Type} [GuestMem M]

theorem aside_translateMiss (g : Guest M) (va : BitVec 64) (access : Access) (el : Fin 4) :
    translateMiss (g.aside s) va access el = onGuest s (translateMiss g va access el) := by
  unfold translateMiss
  have hwalk : walk (g.aside s).mem (region (g.aside s).cpu va).1 va (region (g.aside s).cpu va).2 =
      walk g.mem (region g.cpu va).1 va (region g.cpu va).2 := rfl
  dsimp only
  rw [hwalk]
  obtain ⟨r, mem⟩ := walk g.mem (region g.cpu va).1 va (region g.cpu va).2
  cases r <;> rfl

theorem aside_translate (g : Guest M) (va : BitVec 64) (access : Access) (el : Fin 4) :
    translate (g.aside s) va access el = onGuest s (translate g va access el) := by
  cases hmmu : mmuEnabled g.cpu with
  | false => rw [translate_of_off hmmu, translate_of_off (g := g.aside s) hmmu]; rfl
  | true =>
    cases hhit : g.cpu.tlb.lookup (pageOf va) with
    | some e =>
      rw [translate_of_hit hmmu hhit, translate_of_hit (g := g.aside s) hmmu hhit]
      rfl
    | none =>
      rw [translate_of_miss hmmu hhit, translate_of_miss (g := g.aside s) hmmu hhit,
        aside_translateMiss]

theorem aside_xlate (g : Guest M) (va : BitVec 64) (write : Bool) (el : Fin 4) :
    xlate (g.aside s) va write el = onGuest s (xlate g va write el) := by
  unfold xlate
  dsimp only
  rw [aside_translate]
  obtain ⟨r, g'⟩ := translate g va (if write then .write else .read) el
  cases r <;> rfl

theorem aside_gatherLoop (va : BitVec 64) (n : ℕ) (el : Fin 4) (fuel : ℕ) (val : BitVec 128)
    (done : ℕ) (g : Guest M) :
    gatherLoop va n el fuel val done (g.aside s) =
      onGuest s (gatherLoop va n el fuel val done g) := by
  induction fuel generalizing val done g with
  | zero => rfl
  | succ fuel ih =>
    rw [gatherLoop, gatherLoop]
    split_ifs
    · dsimp only
      rw [aside_xlate]
      obtain ⟨r, g'⟩ := xlate g (va + BitVec.ofNat 64 done) false el
      cases r with
      | none => rfl
      | some pa =>
        exact ih _ _ { g' with mem := (gatherChunk pa done _ val g'.mem).2 }
    · rfl

theorem aside_gather (g : Guest M) (va : BitVec 64) (n : ℕ) (el : Fin 4) :
    gather (g.aside s) va n el = onGuest s (gather g va n el) := aside_gatherLoop s va n el n 0 0 g

theorem aside_scatterLoop (va : BitVec 64) (n : ℕ) (val : BitVec 128) (el : Fin 4) (fuel : ℕ)
    (done : ℕ) (g : Guest M) :
    scatterLoop va n val el fuel done (g.aside s) =
      (scatterLoop va n val el fuel done g).aside s := by
  induction fuel generalizing done g with
  | zero => rfl
  | succ fuel ih =>
    rw [scatterLoop, scatterLoop]
    split_ifs
    · dsimp only
      rw [aside_xlate]
      obtain ⟨r, g'⟩ := xlate g (va + BitVec.ofNat 64 done) true el
      cases r with
      | none => rfl
      | some pa => exact ih _ { g' with mem := scatterChunk pa done val _ g'.mem }
    · rfl

theorem aside_scatter (g : Guest M) (va : BitVec 64) (n : ℕ) (val : BitVec 128) (el : Fin 4) :
    scatter (g.aside s) va n val el = (scatter g va n val el).aside s :=
  aside_scatterLoop s va n val el n 0 g

theorem aside_readAt (g : Guest M) (va : BitVec 64) (size : ℕ) (el : Fin 4) :
    readAt (g.aside s) va size el = onGuest s (readAt g va size el) := by
  unfold readAt
  dsimp only
  split_ifs
  · rw [aside_xlate]
    obtain ⟨r, g'⟩ := xlate g va false el
    cases r <;> rfl
  · rw [aside_gather]
    rfl

theorem aside_writeAt (g : Guest M) (va : BitVec 64) (size : ℕ) (val : BitVec 64) (el : Fin 4) :
    writeAt (g.aside s) va size val el = (writeAt g va size val el).aside s := by
  unfold writeAt
  dsimp only
  split_ifs
  · rw [aside_xlate]
    obtain ⟨r, g'⟩ := xlate g va true el
    cases r <;> rfl
  · exact aside_scatter s g va _ _ el

theorem aside_read (g : Guest M) (va : BitVec 64) (size : ℕ) :
    MemAccess.read (g.aside s) va size = onGuest s (MemAccess.read g va size) :=
  aside_readAt s g va size g.cpu.el

theorem aside_memWrite (g : Guest M) (va : BitVec 64) (size : ℕ) (val : BitVec 64) :
    MemAccess.write (g.aside s) va size val = (MemAccess.write g va size val).aside s :=
  aside_writeAt s g va size val g.cpu.el

omit [GuestMem M] in
theorem aside_alignCheck (g : Guest M) (va bytes : BitVec 64) (write : Bool) :
    alignCheck (g.aside s) va bytes write = (alignCheck g va bytes write).map (Guest.aside s) := by
  unfold alignCheck
  split_ifs <;> rfl

omit [GuestMem M] in
theorem aside_writebackBase (g : Guest M) (writeback : Option (Reg × BitVec 64)) :
    writebackBase (g.aside s) writeback = (writebackBase g writeback).aside s := by
  unfold writebackBase
  change (if g.aborted then _ else _) = Guest.aside s (if g.aborted then _ else _)
  split_ifs
  · rfl
  · cases writeback with
    | none => rfl
    | some w =>
      obtain ⟨rn, newBase⟩ := w
      exact congrArg (Guest.mk · g.mem) (aside_writeGpr s g.cpu rn true newBase)

omit [GuestMem M] in
/-- An executor that has run up to a fault test, and goes on if no fault is pending. -/
theorem aside_unlessAborted {g g₁ g₂ : Guest M} (h : g₁ = g₂.aside s) :
    (if (g.aside s).aborted then g.aside s else g₁) = (if g.aborted then g else g₂).aside s := by
  rw [h]
  change (if g.aborted then _ else _) = Guest.aside s (if g.aborted then _ else _)
  split_ifs <;> rfl

theorem aside_dcZvaLoop (base : BitVec 64) (left off : ℕ) (g : Guest M) :
    dcZvaLoop base left off (g.aside s) = (dcZvaLoop base left off g).aside s := by
  induction left generalizing off g with
  | zero => rfl
  | succ left ih =>
    rw [dcZvaLoop, dcZvaLoop, aside_memWrite]
    exact aside_unlessAborted s (ih _ _)

theorem aside_readVec (g : Guest M) (va : BitVec 64) (log2 : ℕ) :
    MemAccess.readVec (g.aside s) va log2 = onGuest s (MemAccess.readVec g va log2) :=
  aside_gather s g va _ _

theorem aside_writeVec (g : Guest M) (va : BitVec 64) (log2 : ℕ) (val : BitVec 128) :
    MemAccess.writeVec (g.aside s) va log2 val = (MemAccess.writeVec g va log2 val).aside s :=
  aside_scatter s g va _ val _

theorem aside_loadStore (g : Guest M) (size : ℕ) (isLoad signed dst64 vec unpriv : Bool)
    (rt : Reg) (addr : AddrMode) (pc : BitVec 64) :
    loadStore (g.aside s) size isLoad signed dst64 vec unpriv rt addr pc =
      (loadStore g size isLoad signed dst64 vec unpriv rt addr pc).aside s := by
  have haddress : effectiveAddress (g.aside s).cpu addr pc = effectiveAddress g.cpu addr pc := by
    cases addr <;> rfl
  unfold loadStore
  rw [haddress]
  obtain ⟨ea, writeback⟩ := effectiveAddress g.cpu addr pc
  dsimp only
  cases vec with
  | true =>
    cases isLoad with
    | true =>
      rw [if_pos rfl, if_pos rfl, if_pos rfl, if_pos rfl, aside_readVec]
      exact aside_unlessAborted s (aside_writebackBase s
        ((MemAccess.readVec g ea size).2.setV rt (MemAccess.readVec g ea size).1) writeback)
    | false =>
      rw [if_pos rfl, if_pos rfl, if_neg Bool.false_ne_true, if_neg Bool.false_ne_true,
        aside_writeVec]
      exact aside_unlessAborted s (aside_writebackBase s _ writeback)
  | false =>
    cases isLoad with
    | true =>
      have hread : (if unpriv then MemAccess.readUnpriv (g.aside s) ea size
            else MemAccess.read (g.aside s) ea size) =
          onGuest s
            (if unpriv then MemAccess.readUnpriv g ea size else MemAccess.read g ea size) := by
        split_ifs
        · exact aside_readAt s g ea size 0
        · exact aside_read s g ea size
      rw [if_neg Bool.false_ne_true, if_neg Bool.false_ne_true, if_pos rfl, if_pos rfl, hread]
      obtain ⟨raw, g'⟩ :=
        (if unpriv then MemAccess.readUnpriv g ea size else MemAccess.read g ea size)
      rw [onGuest_mk]
      refine aside_unlessAborted s ?_
      rw [← aside_writebackBase]
      exact congrArg (fun cpu => writebackBase ⟨cpu, g'.mem⟩ writeback)
        (aside_writeResult s g'.cpu dst64 rt _)
    | false =>
      have hwrite (val : BitVec 64) : (if unpriv then MemAccess.writeUnpriv (g.aside s) ea size val
            else MemAccess.write (g.aside s) ea size val) =
          (if unpriv then MemAccess.writeUnpriv g ea size val
            else MemAccess.write g ea size val).aside s := by
        split_ifs
        · exact aside_writeAt s g ea size val 0
        · exact aside_memWrite s g ea size val
      rw [if_neg Bool.false_ne_true, if_neg Bool.false_ne_true, if_neg Bool.false_ne_true,
        if_neg Bool.false_ne_true, hwrite]
      exact aside_unlessAborted s (aside_writebackBase s _ writeback)

theorem aside_loadElem (g : Guest M) (addr : BitVec 64) (width8 signed : Bool) :
    loadElem (g.aside s) addr width8 signed = onGuest s (loadElem g addr width8 signed) := by
  unfold loadElem
  dsimp only
  rw [aside_read]
  rfl

theorem aside_loadStorePair (g : Guest M) (isLoad signed width8 vec : Bool) (vesize : ℕ)
    (rt rt2 rn : Reg) (offset : BitVec 64) (index : PairIndex) :
    loadStorePair (g.aside s) isLoad signed width8 vec vesize rt rt2 rn offset index =
      (loadStorePair g isLoad signed width8 vec vesize rt rt2 rn offset index).aside s := by
  unfold loadStorePair
  have hbase : (g.aside s).cpu.readGpr rn true = g.cpu.readGpr rn true := rfl
  dsimp only
  rw [hbase]
  generalize pairWriteback index rn (g.cpu.readGpr rn true + offset) = writeback
  cases vec with
  | true =>
    cases isLoad with
    | true =>
      rw [if_pos rfl, if_pos rfl, if_pos rfl, if_pos rfl, aside_readVec, onGuest_snd,
        aside_readVec, onGuest_snd]
      exact aside_unlessAborted s
        (aside_writebackBase s (Guest.setV (Guest.setV _ rt _) rt2 _) writeback)
    | false =>
      rw [if_pos rfl, if_pos rfl, if_neg Bool.false_ne_true, if_neg Bool.false_ne_true,
        aside_writeVec, aside_writeVec]
      exact aside_unlessAborted s (aside_writebackBase s _ writeback)
  | false =>
    cases isLoad with
    | true =>
      rw [if_neg Bool.false_ne_true, if_neg Bool.false_ne_true, if_pos rfl, if_pos rfl,
        aside_loadElem, onGuest_snd, aside_loadElem, onGuest_snd]
      refine aside_unlessAborted s ?_
      rw [← aside_writebackBase]
      refine congrArg (fun cpu => writebackBase ⟨cpu, _⟩ writeback) ?_
      exact (congrArg (writeResult · _ rt2 _) (aside_writeResult s _ _ rt _)).trans
        (aside_writeResult s _ _ rt2 _)
    | false =>
      rw [if_neg Bool.false_ne_true, if_neg Bool.false_ne_true, if_neg Bool.false_ne_true,
        if_neg Bool.false_ne_true, aside_memWrite, aside_memWrite]
      exact aside_unlessAborted s (aside_writebackBase s _ writeback)

/-! ## Exclusives and atomics -/

theorem aside_loadExclusive (g : Guest M) (size : ℕ) (rt rn : Reg) :
    loadExclusive (g.aside s) size rt rn = (loadExclusive g size rt rn).aside s := by
  unfold loadExclusive
  have haddr : (g.aside s).cpu.readGpr rn true = g.cpu.readGpr rn true := rfl
  rw [haddr]
  dsimp only
  rw [aside_alignCheck]
  cases alignCheck g (g.cpu.readGpr rn true) (1 <<< size) false with
  | some g' => rfl
  | none =>
    dsimp only [Option.map_none]
    rw [aside_read]
    obtain ⟨val, g'⟩ := MemAccess.read g (g.cpu.readGpr rn true) size
    exact aside_unlessAborted s (congrArg (Guest.mk · g'.mem)
      (aside_writeResult s (g'.cpu.armExcl _ val) (size == 3) rt val))

theorem aside_exclMatches (g : Guest M) (addr : BitVec 64) (size : ℕ) :
    exclMatches (g.aside s) addr size = onGuest s (exclMatches g addr size) := by
  unfold exclMatches
  have hexcl : (g.aside s).cpu.excl = g.cpu.excl := rfl
  rw [hexcl]
  cases g.cpu.excl with
  | none => rfl
  | some e =>
    obtain ⟨a, v⟩ := e
    dsimp only
    split_ifs
    · rw [aside_read]
      rfl
    · rfl

omit [GuestMem M] in
theorem aside_exclFinish (g : Guest M) (rs : Reg) (success : Bool) :
    exclFinish (g.aside s) rs success = (exclFinish g rs success).aside s :=
  congrArg (Guest.mk · g.mem) (aside_writeGpr s g.cpu.clearExcl rs false _)

theorem aside_storeExclusive (g : Guest M) (size : ℕ) (rs rt rn : Reg) :
    storeExclusive (g.aside s) size rs rt rn = (storeExclusive g size rs rt rn).aside s := by
  unfold storeExclusive
  have haddr : (g.aside s).cpu.readGpr rn true = g.cpu.readGpr rn true := rfl
  rw [haddr]
  dsimp only
  rw [aside_alignCheck]
  cases alignCheck g (g.cpu.readGpr rn true) (1 <<< size) true with
  | some g' => rfl
  | none =>
    dsimp only [Option.map_none]
    rw [aside_exclMatches]
    obtain ⟨success, g'⟩ := exclMatches g (g.cpu.readGpr rn true) size
    rw [onGuest_mk]
    dsimp only
    rw [aside_memWrite]
    cases success <;> exact aside_exclFinish s _ rs _

theorem aside_loadExclusivePair (g : Guest M) (size : ℕ) (rt rt2 rn : Reg) :
    loadExclusivePair (g.aside s) size rt rt2 rn =
      (loadExclusivePair g size rt rt2 rn).aside s := by
  unfold loadExclusivePair
  have haddr : (g.aside s).cpu.readGpr rn true = g.cpu.readGpr rn true := rfl
  rw [haddr]
  dsimp only
  rw [aside_alignCheck]
  cases alignCheck g (g.cpu.readGpr rn true) (2 * 1 <<< size) false with
  | some g' => rfl
  | none =>
    dsimp only [Option.map_none]
    rw [aside_read]
    obtain ⟨v1, g₁⟩ := MemAccess.read g (g.cpu.readGpr rn true) size
    rw [onGuest_mk]
    dsimp only
    rw [aside_read]
    obtain ⟨v2, g₂⟩ := MemAccess.read g₁ (g.cpu.readGpr rn true + 1 <<< size) size
    refine aside_unlessAborted s (congrArg (Guest.mk · g₂.mem) ?_)
    exact (congrArg (writeResult · _ rt2 v2)
      (aside_writeResult s (g₂.cpu.armExcl _ v1) (size == 3) rt v1)).trans
        (aside_writeResult s _ _ rt2 v2)

theorem aside_storeExclusivePair (g : Guest M) (size : ℕ) (rs rt rt2 rn : Reg) :
    storeExclusivePair (g.aside s) size rs rt rt2 rn =
      (storeExclusivePair g size rs rt rt2 rn).aside s := by
  unfold storeExclusivePair
  have haddr : (g.aside s).cpu.readGpr rn true = g.cpu.readGpr rn true := rfl
  rw [haddr]
  dsimp only
  rw [aside_alignCheck]
  cases alignCheck g (g.cpu.readGpr rn true) (2 * 1 <<< size) true with
  | some g' => rfl
  | none =>
    dsimp only [Option.map_none]
    rw [aside_exclMatches]
    obtain ⟨success, g'⟩ := exclMatches g (g.cpu.readGpr rn true) size
    rw [onGuest_mk]
    dsimp only
    rw [aside_memWrite, aside_memWrite]
    cases success <;> exact aside_exclFinish s _ rs _

theorem aside_atomicRmw (g : Guest M) (size op : ℕ) (rs rn rt : Reg) :
    atomicRmw (g.aside s) size op rs rn rt = (atomicRmw g size op rs rn rt).aside s := by
  unfold atomicRmw
  have haddr : (g.aside s).cpu.readGpr rn true = g.cpu.readGpr rn true := rfl
  rw [haddr]
  dsimp only
  rw [aside_alignCheck]
  cases alignCheck g (g.cpu.readGpr rn true) (1 <<< size) true with
  | some g' => rfl
  | none =>
    dsimp only [Option.map_none]
    rw [aside_read]
    obtain ⟨old, g'⟩ := MemAccess.read g (g.cpu.readGpr rn true) size
    rw [onGuest_mk]
    refine aside_unlessAborted s ?_
    rw [aside_memWrite]
    exact aside_unlessAborted s (congrArg (Guest.mk · _) (aside_writeResult s _ (size == 3) rt old))

theorem aside_compareSwap (g : Guest M) (size : ℕ) (rs rn rt : Reg) :
    compareSwap (g.aside s) size rs rn rt = (compareSwap g size rs rn rt).aside s := by
  unfold compareSwap
  have haddr : (g.aside s).cpu.readGpr rn true = g.cpu.readGpr rn true := rfl
  rw [haddr]
  dsimp only
  rw [aside_alignCheck]
  cases alignCheck g (g.cpu.readGpr rn true) (1 <<< size) true with
  | some g' => rfl
  | none =>
    dsimp only [Option.map_none]
    rw [aside_read]
    obtain ⟨old, g'⟩ := MemAccess.read g (g.cpu.readGpr rn true) size
    rw [onGuest_mk]
    refine aside_unlessAborted s ?_
    have hstored : (if old = (g'.aside s).cpu.readGpr rs false &&& sizeMask size then
          MemAccess.write (g'.aside s) (g.cpu.readGpr rn true) size
            ((g'.aside s).cpu.readGpr rt false &&& sizeMask size)
        else g'.aside s) =
        (if old = g'.cpu.readGpr rs false &&& sizeMask size then
          MemAccess.write g' (g.cpu.readGpr rn true) size
            (g'.cpu.readGpr rt false &&& sizeMask size)
        else g').aside s := by
      change (if old = g'.cpu.readGpr rs false &&& sizeMask size then _ else _) = _
      split_ifs
      · exact aside_memWrite s g' _ size _
      · rfl
    dsimp only
    rw [hstored]
    exact aside_unlessAborted s (congrArg (Guest.mk · _) (aside_writeResult s _ (size == 3) rs old))

omit [GuestMem M] in
/-- The last part of `cas_pair`. -/
theorem aside_casPairFinish (g : Guest M) (size : ℕ) (rs rs2 : Reg) (old1 old2 : BitVec 64) :
    (if (g.aside s).aborted then some (g.aside s)
      else some { g.aside s with
        cpu := writeResult (writeResult (s.put g.cpu) (size == 3) rs old1) (size == 3) rs2 old2 }) =
    (if g.aborted then some g
      else some { g with
        cpu := writeResult (writeResult g.cpu (size == 3) rs old1) (size == 3) rs2 old2 }).map
      (Guest.aside s) := by
  have hwrite : writeResult (writeResult (s.put g.cpu) (size == 3) rs old1) (size == 3) rs2 old2 =
      s.put (writeResult (writeResult g.cpu (size == 3) rs old1) (size == 3) rs2 old2) := by
    rw [aside_writeResult, aside_writeResult]
  change (if g.aborted then _ else _) = Option.map _ (if g.aborted then _ else _)
  split_ifs
  · rfl
  · exact congrArg (fun cpu => some (Guest.mk cpu g.mem)) hwrite

theorem aside_compareSwapPair (g : Guest M) (sz : ℕ) (rs rn rt : Reg) :
    compareSwapPair (g.aside s) sz rs rn rt =
      (compareSwapPair g sz rs rn rt).map (Guest.aside s) := by
  unfold compareSwapPair
  have haddr : (g.aside s).cpu.readGpr rn true = g.cpu.readGpr rn true := rfl
  rw [haddr]
  dsimp only
  rw [aside_alignCheck]
  generalize (if sz = 1 then 3 else 2) = size
  cases alignCheck g (g.cpu.readGpr rn true) (2 * 1 <<< size) true with
  | some g' => rfl
  | none =>
    dsimp only [Option.map_none]
    rw [aside_read, onGuest_snd, aside_read, onGuest_snd]
    set r1 := MemAccess.read g (g.cpu.readGpr rn true) size with hr1
    set r2 := MemAccess.read r1.2 (g.cpu.readGpr rn true + 1 <<< size) size with hr2
    set mask : BitVec 64 := if size = 3 then BitVec.allOnes 64 else 0xffffffff with hmask
    by_cases habort : r2.2.aborted
    · have habort' : (r2.2.aside s).aborted = true := habort
      rw [if_pos habort, if_pos habort']
      rfl
    · have habort' : ¬(r2.2.aside s).aborted = true := habort
      rw [if_neg habort, if_neg habort']
      cases nextReg rs with
      | none => rfl
      | some rs2 =>
        simp only [Option.bind_eq_bind, Option.bind_some]
        by_cases hcmp : r1.1 = r2.2.cpu.readGpr rs false &&& mask ∧
            r2.1 = r2.2.cpu.readGpr rs2 false &&& mask
        · have hcmp' : (onGuest s r1).1 = (r2.2.aside s).cpu.readGpr rs false &&& mask ∧
              (onGuest s r2).1 = (r2.2.aside s).cpu.readGpr rs2 false &&& mask := hcmp
          rw [if_pos hcmp, if_pos hcmp']
          cases nextReg rt with
          | none => rfl
          | some rt2 =>
            simp only [Option.bind_some]
            rw [aside_memWrite, aside_memWrite]
            exact aside_casPairFinish s _ size rs rs2 r1.1 r2.1
        · have hcmp' : ¬((onGuest s r1).1 = (r2.2.aside s).cpu.readGpr rs false &&& mask ∧
              (onGuest s r2).1 = (r2.2.aside s).cpu.readGpr rs2 false &&& mask) := hcmp
          rw [if_neg hcmp, if_neg hcmp']
          exact aside_casPairFinish s r2.2 size rs rs2 r1.1 r2.1

/-! ## Structure loads and stores -/

theorem aside_elemStep (isLoad : Bool) (size : ℕ) (tt : Reg) (off : ℕ) (addr : BitVec 64)
    (g : Guest M) :
    elemStep isLoad size tt off addr (g.aside s) =
      (elemStep isLoad size tt off addr g).aside s := by
  unfold elemStep
  split_ifs
  · rw [aside_read]
    exact aside_unlessAborted s rfl
  · exact aside_memWrite s g addr size _

theorem aside_replicateStep (size : ℕ) (q : Bool) (tt : Reg) (addr : BitVec 64) (g : Guest M) :
    replicateStep size q tt addr (g.aside s) = (replicateStep size q tt addr g).aside s := by
  unfold replicateStep
  rw [aside_read]
  exact aside_unlessAborted s rfl

omit [GuestMem M] in
theorem aside_structLoop {step : Reg → ℕ → BitVec 64 → Guest M → Guest M}
    (hstep : ∀ tt off addr g, step tt off addr (g.aside s) = (step tt off addr g).aside s)
    (ebytes : BitVec 64) (elems : List (Reg × ℕ)) (addr : BitVec 64) (g : Guest M) :
    structLoop step ebytes elems addr (g.aside s) =
      (structLoop step ebytes elems addr g).aside s := by
  induction elems generalizing addr g with
  | nil => rfl
  | cons elem rest ih =>
    obtain ⟨tt, off⟩ := elem
    rw [structLoop, structLoop, hstep]
    exact aside_unlessAborted s (ih _ _)

theorem aside_simdLdStMulti (g : Guest M) (isLoad q postidx : Bool) (rm rn rt : Reg)
    (size rpt selem : ℕ) :
    simdLdStMulti (g.aside s) isLoad q postidx rm rn rt size rpt selem =
      (simdLdStMulti g isLoad q postidx rm rn rt size rpt selem).aside s := by
  have hstart : (g.aside s).cpu.readGpr rn true = g.cpu.readGpr rn true := rfl
  have hupper (cpu : CpuState) :
      (if isLoad && !q then zeroUpper (s.put cpu) rt (rpt * selem) else s.put cpu) =
        s.put (if isLoad && !q then zeroUpper cpu rt (rpt * selem) else cpu) := by
    rw [aside_zeroUpper]
    exact (apply_ite s.put _ _ _).symm
  unfold simdLdStMulti
  rw [hstart]
  dsimp only
  rw [aside_structLoop s (aside_elemStep s isLoad size)]
  refine aside_unlessAborted s (congrArg (Guest.mk · _) ?_)
  exact (congrArg (postIndex · postidx rm rn _ _) (hupper _)).trans (aside_postIndex s _ _ _ _ _ _)

theorem aside_simdLdStSingle (g : Guest M) (isLoad replicate postidx : Bool) (rm rn rt : Reg)
    (size selem index : ℕ) (q : Bool) :
    simdLdStSingle (g.aside s) isLoad replicate postidx rm rn rt size selem index q =
      (simdLdStSingle g isLoad replicate postidx rm rn rt size selem index q).aside s := by
  have hstart : (g.aside s).cpu.readGpr rn true = g.cpu.readGpr rn true := rfl
  have hstep (tt : Reg) (off : ℕ) (addr : BitVec 64) (g : Guest M) :
      (if replicate then replicateStep size q tt addr (g.aside s)
        else elemStep isLoad size tt off addr (g.aside s)) =
      (if replicate then replicateStep size q tt addr g
        else elemStep isLoad size tt off addr g).aside s := by
    split_ifs
    · exact aside_replicateStep s size q tt addr g
    · exact aside_elemStep s isLoad size tt off addr g
  unfold simdLdStSingle
  rw [hstart]
  dsimp only
  rw [aside_structLoop s hstep]
  exact aside_unlessAborted s (congrArg (Guest.mk · _) (aside_postIndex s _ postidx rm rn _ _))

end Memory

/-! ## System instructions -/

section System

variable (cpu : CpuState)

theorem aside_writeXlateReg (key : BitVec 32) (val : BitVec 64) :
    writeXlateReg (s.put cpu) key val = (writeXlateReg cpu key val).map s.put := by
  unfold writeXlateReg
  split_ifs
  · exact congrArg some (aside_flushTlb s { cpu with sctlrEl1 := val })
  · exact congrArg some (aside_flushTlb s { cpu with tcrEl1 := val })
  · exact congrArg some (aside_flushTlb s { cpu with ttbr0El1 := val })
  · exact congrArg some (aside_flushTlb s { cpu with ttbr1El1 := val })
  · rfl

theorem aside_timerWrite (key : BitVec 32) (val : BitVec 64) :
    timerWrite (s.put cpu) key val = (timerWrite cpu key val).map s.put := by
  unfold timerWrite
  split_ifs <;> rfl

theorem aside_writeSysreg (key : BitVec 32) (val : BitVec 64) :
    writeSysreg (s.put cpu) key val = s.put (writeSysreg cpu key val) := by
  unfold writeSysreg
  rw [aside_writeXlateReg, aside_timerWrite]
  split_ifs
  · rfl
  · rfl
  · rfl
  · rfl
  · cases writeXlateReg cpu key val with
    | some cpu' => rfl
    | none =>
      cases spBank key with
      | some idx => exact aside_writeSpEl s cpu idx val
      | none => cases timerWrite cpu key val <;> rfl

theorem aside_sysRegMove (read : Bool) (key : BitVec 32) (rt : Reg) :
    sysRegMove (s.put cpu) read key rt = s.put (sysRegMove cpu read key rt) := by
  unfold sysRegMove
  split_ifs
  · exact aside_writeGpr s cpu rt false _
  · exact aside_writeSysreg s cpu key _

theorem aside_msrImm (op1 op2 : ℕ) (crm : BitVec 4) :
    msrImm (s.put cpu) op1 op2 crm = s.put (msrImm cpu op1 op2 crm) := by
  unfold msrImm
  split
  · exact aside_setElSpsel s cpu _ _
  · rfl
  · rfl
  · rfl

theorem aside_enterEl1 (returnAddr vecType : BitVec 64) :
    enterEl1 (s.put cpu) returnAddr vecType =
      ((enterEl1 cpu returnAddr vecType).1, s.put (enterEl1 cpu returnAddr vecType).2) := by
  unfold enterEl1
  refine Prod.ext rfl ?_
  have hel := aside_setElSpsel s
    (insertSysreg (insertSysreg cpu keyElrEl1 returnAddr) keySpsrEl1 cpu.pstate) 1 true
  exact congrArg (fun cpu : CpuState => { cpu with daif := 0b1111 }) hel

theorem aside_takeException (ec iss : BitVec 32) (returnAddr : BitVec 64) :
    takeException (s.put cpu) ec iss returnAddr =
      ((takeException cpu ec iss returnAddr).1, s.put (takeException cpu ec iss returnAddr).2) := by
  unfold takeException
  rw [aside_enterEl1]
  rfl

theorem aside_eret : eret (s.put cpu) = ((eret cpu).1, s.put (eret cpu).2) := by
  refine Prod.ext rfl ?_
  exact aside_setElSpsel s { cpu with
    flags := Flags.fromNzcv (getSysreg cpu keySpsrEl1)
    daif := (getSysreg cpu keySpsrEl1 >>> 6).setWidth 4 } _ _

theorem aside_psciCall : psciCall (s.put cpu) = s.put (psciCall cpu) := by
  have hx : (s.put cpu).x = cpu.x := rfl
  unfold psciCall
  rw [hx]
  dsimp only
  split_ifs <;> rfl

theorem aside_dataAbort (faultPc : BitVec 64) (abort : Abort) :
    dataAbort (s.put cpu) faultPc abort =
      ((dataAbort cpu faultPc abort).1, s.put (dataAbort cpu faultPc abort).2) :=
  aside_takeException s (insertSysreg cpu keyFarEl1 abort.far) _ _ _

theorem aside_instAbort (faultPc : BitVec 64) (fsc : BitVec 8) :
    instAbort (s.put cpu) faultPc fsc =
      ((instAbort cpu faultPc fsc).1, s.put (instAbort cpu faultPc fsc).2) :=
  aside_takeException s (insertSysreg cpu keyFarEl1 faultPc) _ _ _


end System

/-! ## Data processing -/

section DataProc

variable (cpu : CpuState)

/-- The write of a result that may be missing. -/
theorem aside_map_write (result : Option (BitVec 64)) (rd : Reg) (sf sp : Bool) :
    result.map (fun v => write (s.put cpu) rd sf v sp) =
      (result.map fun v => write cpu rd sf v sp).map s.put := by
  cases result with
  | none => rfl
  | some v => exact congrArg some (aside_write s cpu rd sf v sp)

theorem aside_write_setFlagsIf (setFlags : Bool) (flags : Flags) (rd : Reg) (sf : Bool)
    (val : BitVec 64) (sp : Bool) :
    write (setFlagsIf (s.put cpu) setFlags flags) rd sf val sp =
      s.put (write (setFlagsIf cpu setFlags flags) rd sf val sp) := by
  rw [aside_setFlagsIf, aside_write]

theorem aside_map_logical (result : Option (BitVec 64)) (setFlags : Bool) (rd : Reg)
    (sf sp : Bool) :
    result.map (fun v => write (setFlagsIf (s.put cpu) setFlags (logicalFlags sf v)) rd sf v sp) =
      (result.map fun v => write (setFlagsIf cpu setFlags (logicalFlags sf v)) rd sf v sp).map
        s.put := by
  cases result with
  | none => rfl
  | some v => exact congrArg some (aside_write_setFlagsIf s cpu setFlags _ rd sf v sp)

theorem aside_moveWide (sf : Bool) (opc : ℕ) (hw : BitVec 2) (imm16 : BitVec 16) (rd : Reg) :
    moveWide (s.put cpu) sf opc hw imm16 rd = (moveWide cpu sf opc hw imm16 rd).map s.put :=
  aside_map_write s cpu _ rd sf false

theorem aside_condCompare (sf sub isImm : Bool) (immY : BitVec 5) (rm : Reg) (cond nzcv : BitVec 4)
    (rn : Reg) :
    condCompare (s.put cpu) sf sub isImm immY rm cond nzcv rn =
      s.put (condCompare cpu sf sub isImm immY rm cond nzcv rn) := by
  unfold condCompare
  change (if evalCond cond cpu.flags then _ else _) =
    s.put (if evalCond cond cpu.flags then _ else _)
  split_ifs <;> rfl

theorem aside_dataProc2Src (sf : Bool) (opcode : ℕ) (rm rn rd : Reg) :
    dataProc2Src (s.put cpu) sf opcode rm rn rd =
      (dataProc2Src cpu sf opcode rm rn rd).map s.put := by
  unfold dataProc2Src
  dsimp only
  split_ifs
  · exact congrArg some (aside_write s cpu rd false _ false)
  · exact congrArg some (aside_write s cpu rd false _ false)
  · exact aside_map_write s cpu _ rd sf false

theorem aside_branchImm (link : Bool) (offset pc : BitVec 64) :
    branchImm (s.put cpu) link offset pc =
      ((branchImm cpu link offset pc).1, s.put (branchImm cpu link offset pc).2) := by
  unfold branchImm
  rw [aside_writeGpr]
  split_ifs <;> rfl

theorem aside_branchReg (opc : ℕ) (rn : Reg) (pc : BitVec 64) :
    branchReg (s.put cpu) opc rn pc =
      ((branchReg cpu opc rn pc).1, s.put (branchReg cpu opc rn pc).2) := by
  unfold branchReg
  rw [aside_writeGpr]
  split_ifs <;> rfl

end DataProc

/-! ## Every instruction -/

section Execute

variable {M : Type} [GuestMem M]

omit [GuestMem M] in
theorem aside_seq (g : Guest M) {cpu cpu' : CpuState} (h : cpu' = s.put cpu) :
    seq (g.aside s) cpu' = (seq g cpu).map (onGuest s) := by
  rw [h]
  rfl

omit [GuestMem M] in
theorem aside_bind_seq (g : Guest M) {r r' : Option CpuState} (h : r' = r.map s.put) :
    r'.bind (seq (g.aside s)) = (r.bind (seq g)).map (onGuest s) := by
  rw [h]
  cases r <;> rfl

omit [GuestMem M] in
theorem aside_access {g g' : Guest M} (h : g' = g.aside s) :
    (some (none, g') : Option (Option (BitVec 64) × Guest M)) =
      (some (none, g)).map (onGuest s) := by
  rw [h]
  rfl

omit [GuestMem M] in
theorem aside_vec (vu : VecUnit) (g : Guest M) (insn : Insn) :
    ((vu insn (vecView (g.aside s).cpu)).bind
        fun w => seq (g.aside s) (setVecView (g.aside s).cpu w)) =
      ((vu insn (vecView g.cpu)).bind fun w => seq g (setVecView g.cpu w)).map (onGuest s) := by
  have hview : vecView (g.aside s).cpu = vecView g.cpu := rfl
  rw [hview]
  cases vu insn (vecView g.cpu) <;> rfl

/-- An instruction does the same before and after the change. -/
theorem execute_aside (vu : VecUnit) (g : Guest M) (insn : Insn) (pc : BitVec 64) :
    execute vu (g.aside s) insn pc = (execute vu g insn pc).map (onGuest s) := by
  cases insn with
  -- data processing
  | moveWide => exact aside_bind_seq s g (aside_moveWide s _ _ _ _ _ _)
  | addSubImm | addSubShiftedReg | addSubCarry | addSubExtReg =>
    exact aside_seq s g (aside_write_setFlagsIf s _ _ _ _ _ _ _)
  | logicalImm | logicalShiftedReg => exact aside_bind_seq s g (aside_map_logical s _ _ _ _ _ _)
  | bitfield | extract | condSelect | pcRel => exact aside_seq s g (aside_write s _ _ _ _ _)
  | condCompare => exact aside_seq s g (aside_condCompare s _ _ _ _ _ _ _ _ _)
  | dataProc1Src | dataProc3Src => exact aside_bind_seq s g (aside_map_write s _ _ _ _ _)
  | dataProc2Src => exact aside_bind_seq s g (aside_dataProc2Src s _ _ _ _ _ _)
  -- branches
  | branchImm => exact congrArg (jump (g.aside s)) (aside_branchImm s g.cpu _ _ pc)
  | condBranch | compareBranch | testBranch => rfl
  | branchReg => exact congrArg (jump (g.aside s)) (aside_branchReg s g.cpu _ _ pc)
  -- loads and stores
  | loadStore => exact aside_access s (aside_loadStore s _ _ _ _ _ _ _ _ _ _)
  | loadStorePair => exact aside_access s (aside_loadStorePair s _ _ _ _ _ _ _ _ _ _ _)
  | atomicRmw => exact aside_access s (aside_atomicRmw s _ _ _ _ _ _)
  | compareSwap => exact aside_access s (aside_compareSwap s _ _ _ _ _)
  | loadExclusive => exact aside_access s (aside_loadExclusive s _ _ _ _)
  | storeExclusive => exact aside_access s (aside_storeExclusive s _ _ _ _ _)
  | loadExclusivePair => exact aside_access s (aside_loadExclusivePair s _ _ _ _ _)
  | storeExclusivePair => exact aside_access s (aside_storeExclusivePair s _ _ _ _ _ _)
  | compareSwapPair sz rs rn rt =>
    show (compareSwapPair (g.aside s) sz rs rn rt).map _ =
      ((compareSwapPair g sz rs rn rt).map _).map _
    rw [aside_compareSwapPair]
    cases compareSwapPair g sz rs rn rt <;> rfl
  | simdLdStMulti => exact aside_access s (aside_simdLdStMulti s _ _ _ _ _ _ _ _ _ _)
  | simdLdStSingle => exact aside_access s (aside_simdLdStSingle s _ _ _ _ _ _ _ _ _ _ _)
  | dcZva rt => exact aside_access s (aside_dcZvaLoop s _ _ _ g)
  -- system instructions
  | sysRegMove => exact aside_seq s g (aside_sysRegMove s _ _ _ _)
  | msrImm => exact aside_seq s g (aside_msrImm s _ _ _ _)
  | svc | brk => exact congrArg (vector (g.aside s)) (aside_takeException s g.cpu _ _ _)
  | hvc | smc => exact aside_seq s g (aside_psciCall s g.cpu)
  | eret => exact congrArg (vector (g.aside s)) (aside_eret s g.cpu)
  | tlbi => exact aside_seq s g (aside_flushTlb s g.cpu)
  | ic =>
    refine aside_seq s g ?_
    show { s.put g.cpu with icInval := true } =
      { s.put g.cpu with icInval := s.icInval || true }
    rw [Bool.or_true]
  | wfi | wfe | nop | prfm => exact aside_seq s g rfl
  | unsupported => rfl
  -- SIMD and floating point
  | _ => exact aside_vec s vu g _

theorem aside_setPc (hpc : s.pc = id) (cpu : CpuState) (pc : BitVec 64) :
    { s.put cpu with pc := pc } = s.put { cpu with pc := pc } := by
  unfold Aside.put
  rw [hpc]
  rfl

omit [GuestMem M] in
/-- The end of an instruction, of a change that leaves PC alone. -/
theorem aside_retire (hpc : s.pc = id) (g : Guest M) (next : Option (BitVec 64))
    (pc : BitVec 64) : retire (g.aside s) next pc = (retire g next pc).aside s := by
  have habort : (g.aside s).cpu.pendingAbort = g.cpu.pendingAbort := rfl
  unfold retire
  rw [habort]
  cases g.cpu.pendingAbort with
  | none => exact congrArg (Guest.mk · g.mem) (aside_setPc s hpc g.cpu _)
  | some abort =>
    have hentry := aside_dataAbort s { g.cpu with pendingAbort := none } pc abort
    refine congrArg (Guest.mk · g.mem) (Eq.trans ?_ (aside_setPc s hpc _ _))
    exact congrArg (fun r : BitVec 64 × CpuState => { r.2 with pc := r.1 }) hentry

theorem aside_stepWord (hpc : s.pc = id) (vu : VecUnit) (g : Guest M) (word : BitVec 32) :
    stepWord vu (g.aside s) word = (stepWord vu g word).map (onGuest s) := by
  have hat : (g.aside s).cpu.pc = g.cpu.pc := congrFun hpc g.cpu.pc
  have hrun (insn : Insn) :
      ((execute vu (g.aside s) insn g.cpu.pc).map fun r =>
          let g' := retire r.2 r.1 g.cpu.pc
          (Step.next g'.cpu.pc, g')) =
        ((execute vu g insn g.cpu.pc).map fun r =>
          let g' := retire r.2 r.1 g.cpu.pc
          (Step.next g'.cpu.pc, g')).map (onGuest s) := by
    rw [execute_aside]
    cases execute vu g insn g.cpu.pc with
    | none => rfl
    | some r =>
      obtain ⟨next, g'⟩ := r
      show some (Step.next (retire (g'.aside s) next g.cpu.pc).cpu.pc,
        retire (g'.aside s) next g.cpu.pc) = _
      rw [aside_retire s hpc]
      exact congrArg (fun pc => some (Step.next pc, _)) (congrFun hpc _)
  unfold stepWord
  rw [hat]
  dsimp only
  split
  · rfl
  · exact hrun _

/-- A step does the same before and after a change that leaves PC alone. -/
theorem step_aside (hpc : s.pc = id) (vu : VecUnit) (g : Guest M) :
    step vu (g.aside s) = (step vu g).map (onGuest s) := by
  have hat : (g.aside s).cpu.pc = g.cpu.pc := congrFun hpc g.cpu.pc
  have hel : (g.aside s).cpu.el = g.cpu.el := rfl
  unfold step
  rw [hat, hel]
  dsimp only
  rw [aside_translate]
  obtain ⟨r, g'⟩ := translate g g.cpu.pc .exec g.cpu.el
  rw [onGuest_mk]
  cases r with
  | error fsc =>
    have hentry := aside_instAbort s g'.cpu g.cpu.pc fsc
    show some (Step.next (instAbort (s.put g'.cpu) g.cpu.pc fsc).1,
      (g'.aside s).enter (instAbort (s.put g'.cpu) g.cpu.pc fsc)) = _
    rw [hentry]
    exact congrArg (fun cpu => some (_, Guest.mk cpu g'.mem)) (aside_setPc s hpc _ _)
  | ok pa => exact aside_stepWord s hpc vu { g' with mem := (GuestMem.readU32 g'.mem pa).2 } _

end Execute

end V64.Interp
