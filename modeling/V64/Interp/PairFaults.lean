import V64.Decoder.Fields
import V64.Interp.AccessLog
import V64.Interp.Execute

/-!
# Faults of two-element accesses

LDP, STP, LDXP and CASP access two elements back to back and look at the pending
abort only then, so that the second access is made although the first has faulted.

* `Elem`, `Elem.run`: one element access.
* `rounds`, `runRounds`: the element accesses of an instruction, two in each round.
* `firstFault`: the same accesses up to the first that faults.
* `FirstFaultReported`: the instruction reports that fault and writes nothing after it.
* `firstFaultReported_iff`: so it is exactly when the first element of no round faults,
  or the round reads and the second element does not fault.
-/

namespace V64.Interp

open V64.Cpu V64.Decoder V64.Platform

/-! ## Element accesses -/

/-- What is done to one element. -/
inductive ElemOp where
  | read
  | readVec
  | write (val : BitVec 64)
  | writeVec (val : BitVec 128)

/-- An access to the element of `1 << log2` bytes at `va`. -/
structure Elem where
  va : BitVec 64
  log2 : ℕ
  op : ElemOp

/-- The access writes. -/
def Elem.isWrite (e : Elem) : Bool :=
  match e.op with
  | .read | .readVec => false
  | .write _ | .writeVec _ => true

section Element

variable {M : Type} [GuestMem M]

/-- The state after the access. -/
def Elem.run (e : Elem) (g : Guest M) : Guest M :=
  match e.op with
  | .read => (MemAccess.read g e.va e.log2).2
  | .readVec => (MemAccess.readVec g e.va e.log2).2
  | .write val => MemAccess.write g e.va e.log2 val
  | .writeVec val => MemAccess.writeVec g e.va e.log2 val

/-- The access of the element faults, whatever is pending before it. -/
def Elem.Faults (e : Elem) (g : Guest M) : Prop := (e.run (g.setAbort none)).aborted = true

instance (e : Elem) (g : Guest M) : Decidable (e.Faults g) := inferInstanceAs (Decidable (_ = _))

/-- The accesses of each round, and the next round unless an abort is pending. -/
def runRounds : List (Elem × Elem) → Guest M → Guest M
  | [], g => g
  | (e1, e2) :: rounds, g =>
    let g := e2.run (e1.run g)
    if g.aborted then g else runRounds rounds g

/-- The same accesses in program order, up to the first that faults. -/
def firstFault : List (Elem × Elem) → Guest M → Guest M
  | [], g => g
  | (e1, e2) :: rounds, g =>
    let g := e1.run g
    if g.aborted then g
    else
      let g := e2.run g
      if g.aborted then g else firstFault rounds g

/-- In no round that is reached does the first element fault, unless the round reads and
    its second element does not fault. -/
def RoundsOk : List (Elem × Elem) → Guest M → Prop
  | [], _ => True
  | (e1, e2) :: rounds, g =>
    (e1.Faults g → e1.isWrite = false ∧ ¬ e2.Faults (e1.run g)) ∧
      (¬ e1.Faults g → ¬ e2.Faults (e1.run g) → RoundsOk rounds (e2.run (e1.run g)))

end Element

section Rounds

variable {M : Type} [GuestMem M] {g : Guest (Logged M)}

/-- The logs of a read and of a write. -/
def LogEffect (isWrite : Bool) (m m' : Logged M) : Prop :=
  if isWrite then MoreLog m m' else SameLog m m'

theorem Elem.accessEnd (e : Elem) (g : Guest (Logged M)) :
    AccessEnd e.run g e.va (1 <<< e.log2) e.isWrite (LogEffect e.isWrite) := by
  obtain ⟨va, log2, op⟩ := e
  cases op with
  | read =>
    cases accessEnd_readAt va g.cpu.el log2 g with
    | ok g1 hrun hmem => exact .ok g1 hrun hmem
    | fault g1 k hk fsc hrun => exact .fault g1 k hk fsc hrun
  | readVec =>
    cases accessEnd_gather va (1 <<< log2) g.cpu.el g with
    | ok g1 hrun hmem => exact .ok g1 hrun hmem
    | fault g1 k hk fsc hrun => exact .fault g1 k hk fsc hrun
  | write val =>
    cases accessEnd_writeAt va g.cpu.el log2 val g with
    | ok g1 hrun hmem => exact .ok g1 hrun hmem
    | fault g1 k hk fsc hrun => exact .fault g1 k hk fsc hrun
  | writeVec val =>
    cases accessEnd_scatter va (1 <<< log2) g.cpu.el val (one_le_shiftLeft log2) g with
    | ok g1 hrun hmem => exact .ok g1 hrun hmem
    | fault g1 k hk fsc hrun => exact .fault g1 k hk fsc hrun

/-- The second element lies right after the first and is accessed in the same way. -/
structure Adjacent (e1 e2 : Elem) : Prop where
  va : e2.va = e1.va + BitVec.ofNat 64 (1 <<< e1.log2)
  log2 : e2.log2 = e1.log2
  small : e1.log2 ≤ 4
  isWrite : e2.isWrite = e1.isWrite

/-- Bytes of two adjacent elements have different addresses. -/
theorem Adjacent.far_ne {e1 e2 : Elem} (h : Adjacent e1 e2) {k1 k2 : ℕ} (h1 : k1 < 1 <<< e1.log2)
    (h2 : k2 < 1 <<< e2.log2) :
    e2.va + BitVec.ofNat 64 k2 ≠ e1.va + BitVec.ofNat 64 k1 := by
  have hn : 1 <<< e1.log2 ≤ 16 := by
    rw [Nat.one_shiftLeft]
    exact Nat.pow_le_pow_right Nat.two_pos h.small
  rw [h.log2] at h2
  rw [h.va]
  generalize 1 <<< e1.log2 = n at *
  intro heq
  have hnat := congrArg BitVec.toNat heq
  have hva := e1.va.isLt
  simp only [BitVec.toNat_add, BitVec.toNat_ofNat] at hnat
  omega

omit [GuestMem M] in
theorem aborted_setAbort (g : Guest (Logged M)) (x : Option Abort) :
    (g.setAbort x).aborted = x.isSome := rfl

/-- Rounds that are all run report the first fault and write nothing after it, exactly when
    they are as `RoundsOk` says. -/
theorem runRounds_iff {rounds : List (Elem × Elem)} (hrounds : ∀ r ∈ rounds, Adjacent r.1 r.2)
    (hpending : g.cpu.pendingAbort = none) :
    ((firstFault rounds g).aborted = true →
      (runRounds rounds g).cpu.pendingAbort = (firstFault rounds g).cpu.pendingAbort ∧
        (runRounds rounds g).mem.log = (firstFault rounds g).mem.log) ↔ RoundsOk rounds g := by
  induction rounds generalizing g with
  | nil =>
    refine ⟨fun _ => trivial, fun _ habort => ?_⟩
    rw [firstFault, Guest.aborted, hpending] at habort
    cases habort
  | cons r rounds ih =>
    obtain ⟨e1, e2⟩ := r
    have hadj : Adjacent e1 e2 := hrounds (e1, e2) List.mem_cons_self
    have hrest : ∀ r ∈ rounds, Adjacent r.1 r.2 :=
      fun r hr => hrounds r (List.mem_cons_of_mem _ hr)
    have hg : g = g.setAbort none := by
      rw [Guest.setAbort, ← hpending]
    rw [firstFault, runRounds, RoundsOk]
    dsimp only
    cases e1.accessEnd g with
    | ok g1 hrun1 hlog1 =>
      have h1 : e1.run g = g1.setAbort none := by rw [hg, hrun1]
      have hok1 : ¬ e1.Faults g := by
        rw [Elem.Faults, hrun1]
        exact Bool.false_ne_true
      rw [h1, aborted_setAbort, Option.isSome_none, if_neg Bool.false_ne_true]
      cases e2.accessEnd g1 with
      | ok g2 hrun2 hlog2 =>
        -- neither faults, and the next round starts with nothing pending
        have hok2 : ¬ e2.Faults (g1.setAbort none) := by
          show ¬ (e2.run (g1.setAbort none)).aborted = true
          rw [hrun2]
          exact Bool.false_ne_true
        rw [hrun2, aborted_setAbort, Option.isSome_none, if_neg Bool.false_ne_true,
          if_neg Bool.false_ne_true, ih hrest rfl]
        constructor
        · intro h
          exact ⟨fun hfault => absurd hfault hok1, fun _ _ => h⟩
        · intro h
          exact h.2 hok1 hok2
      | fault g2 k2 hk2 fsc2 hrun2 =>
        -- only the second faults, and nothing comes after it
        have hfault2 : e2.Faults (g1.setAbort none) := by
          show (e2.run (g1.setAbort none)).aborted = true
          rw [hrun2]
          rfl
        rw [hrun2, aborted_setAbort, Option.isSome_some, if_pos rfl, if_pos rfl]
        constructor
        · intro _
          exact ⟨fun hfault => absurd hfault hok1, fun _ hok2 => absurd hfault2 hok2⟩
        · intro _ _
          exact ⟨rfl, rfl⟩
    | fault g1 k1 hk1 fsc1 hrun1 =>
      set abort1 : Abort :=
        { far := e1.va + BitVec.ofNat 64 k1, write := e1.isWrite, fsc := fsc1 } with habort1
      have h1 : e1.run g = g1.setAbort (some abort1) := by rw [hg, hrun1]
      have hfault1 : e1.Faults g := by
        rw [Elem.Faults, hrun1]
        rfl
      rw [h1, aborted_setAbort, Option.isSome_some, if_pos rfl]
      cases e2.accessEnd g1 with
      | ok g2 hrun2 hlog2 =>
        -- the second is made; the first fault stays, and the log grows if it writes
        have hok2 : ¬ e2.Faults (g1.setAbort (some abort1)) := by
          show ¬ (e2.run (g1.setAbort none)).aborted = true
          rw [hrun2]
          exact Bool.false_ne_true
        have haborted : (g2.setAbort (some abort1)).aborted = true := rfl
        rw [hrun2, if_pos haborted]
        constructor
        · intro h
          obtain ⟨-, hlog⟩ := h rfl
          refine ⟨fun _ => ⟨?_, hok2⟩, fun hok1 => absurd hfault1 hok1⟩
          cases hwrite : e1.isWrite with
          | false => rfl
          | true =>
            rw [hadj.isWrite, hwrite] at hlog2
            have hmore : g1.mem.log.length < g2.mem.log.length := hlog2
            have hsame : g2.mem.log = g1.mem.log := hlog
            rw [hsame] at hmore
            exact absurd hmore (Nat.lt_irrefl _)
        · intro h _
          obtain ⟨hwrite, -⟩ := h.1 hfault1
          rw [hadj.isWrite, hwrite] at hlog2
          exact ⟨rfl, hlog2⟩
      | fault g2 k2 hk2 fsc2 hrun2 =>
        -- both fault, and the second one's FAR is reported
        have hfault2 : e2.Faults (g1.setAbort (some abort1)) := by
          show (e2.run (g1.setAbort none)).aborted = true
          rw [hrun2]
          rfl
        set abort2 : Abort :=
          { far := e2.va + BitVec.ofNat 64 k2, write := e2.isWrite, fsc := fsc2 } with habort2
        have haborted : (g2.setAbort (some abort2)).aborted = true := rfl
        rw [hrun2, if_pos haborted]
        constructor
        · intro h
          obtain ⟨habort, -⟩ := h rfl
          have hfar := congrArg (fun a : Option Abort => a.map (·.far)) habort
          exact absurd (Option.some.inj hfar) (hadj.far_ne hk1 hk2)
        · intro h
          exact absurd hfault2 (h.1 hfault1).2

end Rounds

/-! ## The instructions -/

section Insn

variable {M : Type} [GuestMem M]

/-- Two elements of `1 << log2` bytes, at `va` and right after it. -/
def elemPair (va : BitVec 64) (log2 : ℕ) (op1 op2 : ElemOp) : Elem × Elem :=
  (⟨va, log2, op1⟩, ⟨va + BitVec.ofNat 64 (1 <<< log2), log2, op2⟩)

/-- The accesses of LDP, LDPSW and STP. -/
def pairRounds (cpu : CpuState) (isLoad width8 vec : Bool) (vesize : ℕ) (rt rt2 rn : Reg)
    (offset : BitVec 64) (index : PairIndex) : List (Elem × Elem) :=
  let base := cpu.readGpr rn true
  let ea := match index with
    | .post => base
    | .offset | .pre => base + offset
  if vec then
    if isLoad then [elemPair ea vesize .readVec .readVec]
    else [elemPair ea vesize (.writeVec (cpu.v rt)) (.writeVec (cpu.v rt2))]
  else
    let size := if width8 then 3 else 2
    if isLoad then [elemPair ea size .read .read]
    else [elemPair ea size (.write (cpu.readGpr rt false)) (.write (cpu.readGpr rt2 false))]

/-- The accesses of LDXP. -/
def ldxpRounds (g : Guest M) (size : ℕ) (rn : Reg) : List (Elem × Elem) :=
  let addr := g.cpu.readGpr rn true
  if (alignCheck g addr ((2 : BitVec 64) * (1 <<< size : ℕ)) false).isSome then []
  else [elemPair addr size .read .read]

/-- CASP's comparison of what it has read. -/
def caspMatches (g : Guest M) (size : ℕ) (addr : BitVec 64) (rs rs2 : Reg) : Bool :=
  let mask : BitVec 64 := if size = 3 then BitVec.allOnes 64 else 0xffffffff
  let r1 := MemAccess.read g addr size
  let r2 := MemAccess.read r1.2 (addr + (1 <<< size : ℕ)) size
  r1.1 = g.cpu.readGpr rs false &&& mask ∧ r2.1 = g.cpu.readGpr rs2 false &&& mask

/-- The accesses of CASP: it reads both elements, and writes both if they match. -/
def caspRounds (g : Guest M) (sz : ℕ) (rs rn rt : Reg) : List (Elem × Elem) :=
  let size := if sz = 1 then 3 else 2
  let addr := g.cpu.readGpr rn true
  if (alignCheck g addr ((2 : BitVec 64) * (1 <<< size : ℕ)) true).isSome then []
  else
    match nextReg rs, nextReg rt with
    | some rs2, some rt2 =>
      if caspMatches g size addr rs rs2 then
        [elemPair addr size .read .read,
          elemPair addr size (.write (g.cpu.readGpr rt false)) (.write (g.cpu.readGpr rt2 false))]
      else [elemPair addr size .read .read]
    | _, _ => [elemPair addr size .read .read]

/-- The rounds of a two-element instruction. -/
def rounds (g : Guest M) : Insn → Option (List (Elem × Elem))
  | .loadStorePair isLoad _ width8 vec vesize rt rt2 rn offset index =>
    some (pairRounds g.cpu isLoad width8 vec vesize rt rt2 rn offset index)
  | .loadExclusivePair size _ _ rn => some (ldxpRounds g size rn)
  | .compareSwapPair sz rs rn rt => some (caspRounds g sz rs rn rt)
  | _ => none

/-- The abort and the memory of two states are the same. -/
def SameAbort (g g' : Guest M) : Prop :=
  g'.cpu.pendingAbort = g.cpu.pendingAbort ∧ g'.mem = g.mem

omit [GuestMem M] in
theorem SameAbort.refl (g : Guest M) : SameAbort g g := ⟨rfl, rfl⟩

theorem pendingAbort_writeResult (cpu : CpuState) (dst64 : Bool) (rt : Reg) (val : BitVec 64) :
    (writeResult cpu dst64 rt val).pendingAbort = cpu.pendingAbort := by
  have hgpr (sp : Bool) (val : BitVec 64) :
      (cpu.writeGpr rt sp val).pendingAbort = cpu.pendingAbort := by
    obtain ⟨x, sp', heq⟩ := CpuState.writeGpr_eq cpu rt sp val
    rw [heq]
  unfold writeResult CpuState.writeGprW
  split_ifs
  · exact hgpr _ _
  · exact hgpr _ _

omit [GuestMem M] in
theorem sameAbort_writebackBase (g : Guest M) (writeback : Option (Reg × BitVec 64)) :
    SameAbort g (writebackBase g writeback) := by
  unfold writebackBase
  split_ifs
  · exact .refl g
  · split
    · next rn newBase =>
      obtain ⟨x, sp, heq⟩ := CpuState.writeGpr_eq g.cpu rn true newBase
      have hkept : (g.cpu.writeGpr rn true newBase).pendingAbort = g.cpu.pendingAbort := by
        rw [heq]
      exact ⟨hkept, rfl⟩
    · exact .refl g

theorem readGpr_of_sameRegs {a b : CpuState} (h : SameRegs a b) (i : Reg) :
    b.readGpr i false = a.readGpr i false := by
  obtain ⟨tlb, pendingAbort, rfl⟩ := h
  rfl

theorem runRounds_single (r : Elem × Elem) (g : Guest M) :
    runRounds [r] g = r.2.run (r.1.run g) := by
  rw [runRounds]
  split_ifs <;> rfl

omit [GuestMem M] in
/-- What is done when nothing is pending changes neither the abort nor memory. -/
theorem sameAbort_ite {g g' : Guest M} (h : SameAbort g g') :
    SameAbort g (if g.aborted then g else g') := by
  split_ifs
  · exact .refl g
  · exact h

omit [GuestMem M] in
theorem SameAbort.trans {g g' g'' : Guest M} (h : SameAbort g g') (h' : SameAbort g' g'') :
    SameAbort g g'' := ⟨h'.1.trans h.1, h'.2.trans h.2⟩

theorem sameAbort_loadStorePair (g : Guest M) (isLoad signed width8 vec : Bool) (vesize : ℕ)
    (rt rt2 rn : Reg) (offset : BitVec 64) (index : PairIndex) :
    SameAbort (runRounds (pairRounds g.cpu isLoad width8 vec vesize rt rt2 rn offset index) g)
      (loadStorePair g isLoad signed width8 vec vesize rt rt2 rn offset index) := by
  unfold pairRounds loadStorePair
  dsimp only
  cases vec with
  | true =>
    cases isLoad with
    | true =>
      rw [if_pos rfl, if_pos rfl, if_pos rfl, if_pos rfl, runRounds_single]
      exact sameAbort_ite (.trans ⟨rfl, rfl⟩ (sameAbort_writebackBase _ _))
    | false =>
      rw [if_pos rfl, if_pos rfl, if_neg Bool.false_ne_true, if_neg Bool.false_ne_true,
        runRounds_single]
      exact sameAbort_ite (sameAbort_writebackBase _ _)
  | false =>
    have hesize : (if width8 then 8 else 4 : BitVec 64) =
        BitVec.ofNat 64 (1 <<< (if width8 then 3 else 2)) := by cases width8 <;> rfl
    cases isLoad with
    | true =>
      rw [if_neg Bool.false_ne_true, if_neg Bool.false_ne_true, if_pos rfl, if_pos rfl,
        runRounds_single, hesize]
      refine sameAbort_ite (.trans ?_ (sameAbort_writebackBase _ _))
      exact ⟨(pendingAbort_writeResult _ _ _ _).trans (pendingAbort_writeResult _ _ _ _), rfl⟩
    | false =>
      rw [if_neg Bool.false_ne_true, if_neg Bool.false_ne_true, if_neg Bool.false_ne_true,
        if_neg Bool.false_ne_true, runRounds_single, hesize]
      exact sameAbort_ite (sameAbort_writebackBase _ _)

theorem sameAbort_loadExclusivePair {g : Guest M} {size : ℕ} {rn : Reg}
    (halign : alignCheck g (g.cpu.readGpr rn true) ((2 : BitVec 64) * (1 <<< size : ℕ)) false =
      none) (rt rt2 : Reg) :
    SameAbort (runRounds (ldxpRounds g size rn) g) (loadExclusivePair g size rt rt2 rn) := by
  have hrounds : ldxpRounds g size rn = [elemPair (g.cpu.readGpr rn true) size .read .read] := by
    unfold ldxpRounds
    dsimp only
    rw [halign]
    rfl
  unfold loadExclusivePair
  dsimp only
  rw [hrounds, runRounds_single, halign]
  refine sameAbort_ite ⟨?_, rfl⟩
  exact (pendingAbort_writeResult _ _ _ _).trans (pendingAbort_writeResult _ _ _ _)

omit [GuestMem M] in
theorem sameAbort_caspFinish {g g' : Guest M} {size : ℕ} {rs rs2 : Reg} {old1 old2 : BitVec 64}
    (h : (if g.aborted then some g
      else some { g with
        cpu := writeResult (writeResult g.cpu (size == 3) rs old1) (size == 3) rs2 old2 }) =
      some g') : SameAbort g g' := by
  split_ifs at h
  · obtain rfl := Option.some.inj h
    exact .refl g
  · obtain rfl := Option.some.inj h
    exact ⟨(pendingAbort_writeResult _ _ _ _).trans (pendingAbort_writeResult _ _ _ _), rfl⟩

theorem sameAbort_compareSwapPair {g g' : Guest M} {sz : ℕ} {rs rn rt : Reg}
    (halign : alignCheck g (g.cpu.readGpr rn true)
      ((2 : BitVec 64) * (1 <<< (if sz = 1 then 3 else 2) : ℕ)) true = none)
    (h : compareSwapPair g sz rs rn rt = some g') :
    SameAbort (runRounds (caspRounds g sz rs rn rt) g) g' := by
  unfold compareSwapPair at h
  unfold caspRounds
  dsimp only at h ⊢
  rw [halign] at h ⊢
  dsimp only [Option.isSome_none] at h ⊢
  set size := if sz = 1 then 3 else 2
  set addr := g.cpu.readGpr rn true
  set r1 := MemAccess.read g addr size with hr1
  set r2 := MemAccess.read r1.2 (addr + (1 <<< size : ℕ)) size with hr2
  have hgpr (i : Reg) : r2.2.cpu.readGpr i false = g.cpu.readGpr i false :=
    readGpr_of_sameRegs ((sameRegs_readAt g addr size _).trans (sameRegs_readAt r1.2 _ size _)) i
  have hreads : (elemPair addr size .read .read).2.run ((elemPair addr size .read .read).1.run g) =
      r2.2 := rfl
  by_cases habort : r2.2.aborted = true
  · -- a fault of the reads ends the instruction, whatever would come next
    rw [if_pos habort] at h
    obtain rfl := Option.some.inj h
    have hfirst (rest : List (Elem × Elem)) :
        runRounds (elemPair addr size .read .read :: rest) g = r2.2 := by
      rw [runRounds, hreads, if_pos habort]
    rw [if_neg Bool.false_ne_true]
    split
    · split_ifs
      · rw [hfirst]
        exact .refl _
      · rw [hfirst]
        exact .refl _
    · rw [hfirst]
      exact .refl _
  · rw [if_neg habort] at h
    rw [if_neg Bool.false_ne_true]
    cases hrs : nextReg rs with
    | none =>
      rw [hrs] at h
      cases h
    | some rs2 =>
      rw [hrs] at h
      simp only [Option.bind_eq_bind, Option.bind_some, hgpr] at h
      by_cases hmatch : caspMatches g size addr rs rs2 = true
      · rw [if_pos (of_decide_eq_true hmatch)] at h
        cases hrt : nextReg rt with
        | none =>
          rw [hrt] at h
          cases h
        | some rt2 =>
          rw [hrt] at h
          dsimp only
          rw [if_pos hmatch, runRounds, hreads, if_neg habort, runRounds_single]
          exact sameAbort_caspFinish h
      · rw [if_neg fun hboth => hmatch (decide_eq_true hboth)] at h
        have hread : (match some rs2, nextReg rt with
            | some rs2, some rt2 =>
              if caspMatches g size addr rs rs2 then
                [elemPair addr size .read .read, elemPair addr size
                  (.write (g.cpu.readGpr rt false)) (.write (g.cpu.readGpr rt2 false))]
              else [elemPair addr size .read .read]
            | _, _ => [elemPair addr size .read .read]) = [elemPair addr size .read .read] := by
          cases nextReg rt with
          | none => rfl
          | some rt2 => exact if_neg hmatch
        refine Eq.subst (motive := fun rounds => SameAbort (runRounds rounds g) g') hread.symm ?_
        rw [runRounds_single]
        exact sameAbort_caspFinish h

end Insn

/-! ## The first fault -/

section Reported

variable {M : Type} [GuestMem M] {vu : VecUnit} {g g' : Guest (Logged M)}

/-- If an element access faults, then the instruction reports the first that does, with its
    FAR and status, and writes nothing after it. -/
def FirstFaultReported (rounds : List (Elem × Elem)) (g g' : Guest (Logged M)) : Prop :=
  (firstFault rounds g).aborted = true →
    g'.cpu.pendingAbort = (firstFault rounds g).cpu.pendingAbort ∧
      g'.mem.log = (firstFault rounds g).mem.log

theorem adjacent_elemPair {va : BitVec 64} {log2 : ℕ} {op1 op2 : ElemOp} (hlog2 : log2 ≤ 4)
    (hop : Elem.isWrite ⟨va, log2, op2⟩ = Elem.isWrite ⟨va, log2, op1⟩) :
    Adjacent (elemPair va log2 op1 op2).1 (elemPair va log2 op1 op2).2 :=
  ⟨rfl, rfl, hlog2, hop⟩

theorem adjacent_pairRounds {isLoad signed width8 vec : Bool} {vesize : ℕ} {rt rt2 rn : Reg}
    {offset : BitVec 64} {index : PairIndex}
    (hok : FieldsOk (.loadStorePair isLoad signed width8 vec vesize rt rt2 rn offset index))
    (cpu : CpuState) :
    ∀ r ∈ pairRounds cpu isLoad width8 vec vesize rt rt2 rn offset index, Adjacent r.1 r.2 := by
  have hsize : (if width8 then 3 else 2) ≤ 4 := by split_ifs <;> decide
  intro r hr
  unfold pairRounds at hr
  cases vec with
  | true =>
    have hvesize : vesize ≤ 4 := hok.2
    cases isLoad with
    | true =>
      obtain rfl := List.mem_singleton.mp hr
      exact adjacent_elemPair hvesize rfl
    | false =>
      obtain rfl := List.mem_singleton.mp hr
      exact adjacent_elemPair hvesize rfl
  | false =>
    cases isLoad with
    | true =>
      obtain rfl := List.mem_singleton.mp hr
      exact adjacent_elemPair hsize rfl
    | false =>
      obtain rfl := List.mem_singleton.mp hr
      exact adjacent_elemPair hsize rfl

omit [GuestMem M] in
theorem adjacent_ldxpRounds {size : ℕ} (hsize : size ≤ 3) (g : Guest M) (rn : Reg) :
    ∀ r ∈ ldxpRounds g size rn, Adjacent r.1 r.2 := by
  intro r hr
  unfold ldxpRounds at hr
  dsimp only at hr
  split_ifs at hr
  · cases hr
  · obtain rfl := List.mem_singleton.mp hr
    exact adjacent_elemPair (hsize.trans (by decide)) rfl

theorem adjacent_caspRounds (g : Guest M) (sz : ℕ) (rs rn rt : Reg) :
    ∀ r ∈ caspRounds g sz rs rn rt, Adjacent r.1 r.2 := by
  have hsize : (if sz = 1 then 3 else 2) ≤ 4 := by split_ifs <;> decide
  intro r hr
  unfold caspRounds at hr
  dsimp only at hr
  generalize (if sz = 1 then 3 else 2) = size at hr hsize
  split_ifs at hr with halign
  · cases hr
  · split at hr
    · split_ifs at hr
      · obtain rfl | hr := List.mem_cons.mp hr
        · exact adjacent_elemPair hsize rfl
        · obtain rfl := List.mem_singleton.mp hr
          exact adjacent_elemPair hsize rfl
      · obtain rfl := List.mem_singleton.mp hr
        exact adjacent_elemPair hsize rfl
    · obtain rfl := List.mem_singleton.mp hr
      exact adjacent_elemPair hsize rfl

/-- An instruction that has run its rounds. -/
theorem reported_iff_of_sameAbort {rounds : List (Elem × Elem)}
    (hrounds : ∀ r ∈ rounds, Adjacent r.1 r.2) (hpending : g.cpu.pendingAbort = none)
    (hsame : SameAbort (runRounds rounds g) g') :
    FirstFaultReported rounds g g' ↔ RoundsOk rounds g := by
  rw [← runRounds_iff hrounds hpending, FirstFaultReported, hsame.1, hsame.2]

/-- An instruction that has accessed nothing. -/
theorem reported_iff_nil (hpending : g.cpu.pendingAbort = none) :
    FirstFaultReported [] g g' ↔ RoundsOk [] g := by
  refine ⟨fun _ => trivial, fun _ habort => ?_⟩
  rw [firstFault, Guest.aborted, hpending] at habort
  cases habort

/-- A two-element access reports the first element that faults and writes none after it,
    exactly when the first element of no round faults, or the round reads and its second
    element does not fault. -/
theorem firstFaultReported_iff {word : BitVec 32} {pc : BitVec 64} {next : Option (BitVec 64)}
    {accesses : List (Elem × Elem)} (hrounds : rounds g (decode word) = some accesses)
    (hpending : g.cpu.pendingAbort = none)
    (hexec : execute vu g (decode word) pc = some (next, g')) :
    FirstFaultReported accesses g g' ↔ RoundsOk accesses g := by
  have hok := fieldsOk_decode word
  generalize decode word = insn at hrounds hexec hok
  cases insn with
  | loadStorePair isLoad signed width8 vec vesize rt rt2 rn offset index =>
    obtain rfl := Option.some.inj hrounds
    obtain ⟨-, rfl⟩ := Prod.mk.inj (Option.some.inj hexec)
    exact reported_iff_of_sameAbort (adjacent_pairRounds hok g.cpu) hpending
      (sameAbort_loadStorePair g isLoad signed width8 vec vesize rt rt2 rn offset index)
  | loadExclusivePair size rt rt2 rn =>
    obtain rfl := Option.some.inj hrounds
    obtain ⟨-, rfl⟩ := Prod.mk.inj (Option.some.inj hexec)
    cases halign : alignCheck g (g.cpu.readGpr rn true) ((2 : BitVec 64) * (1 <<< size : ℕ))
        false with
    | none =>
      exact reported_iff_of_sameAbort (adjacent_ldxpRounds hok g rn) hpending
        (sameAbort_loadExclusivePair halign rt rt2)
    | some g1 =>
      have hnil : ldxpRounds g size rn = [] := by
        unfold ldxpRounds
        dsimp only
        rw [halign]
        rfl
      rw [hnil]
      exact reported_iff_nil hpending
  | compareSwapPair sz rs rn rt =>
    obtain rfl := Option.some.inj hrounds
    obtain ⟨g1, hcasp, hpair⟩ := Option.map_eq_some_iff.mp hexec
    obtain ⟨-, rfl⟩ := Prod.mk.inj hpair
    cases halign : alignCheck g (g.cpu.readGpr rn true)
        ((2 : BitVec 64) * (1 <<< (if sz = 1 then 3 else 2) : ℕ)) true with
    | none =>
      exact reported_iff_of_sameAbort (adjacent_caspRounds g sz rs rn rt) hpending
        (sameAbort_compareSwapPair halign hcasp)
    | some g2 =>
      have hnil : caspRounds g sz rs rn rt = [] := by
        unfold caspRounds
        dsimp only
        rw [halign]
        rfl
      rw [hnil]
      exact reported_iff_nil hpending
  | _ => cases hrounds

end Reported

/-! ## An unmapped page -/

/-- The guest whose second page is not mapped, with every register at `va`. -/
def loggedGuest (va : BitVec 64) : Guest (Logged (Bus Empty)) where
  cpu := { pagedGuest.cpu with x := fun _ => va }
  mem := { mem := pagedGuest.mem, log := [] }

/-- The accesses of `ldp x0, x1, [x2]`. -/
def ldpRounds (va : BitVec 64) : List (Elem × Elem) := [elemPair va 3 .read .read]

/-- `ldp x0, x1, [x2]` at the end of the mapped page, whose second element faults. -/
theorem firstFaultReported_iff_ldp :
    FirstFaultReported (ldpRounds 0xff8) (loggedGuest 0xff8)
        (loadStorePair (loggedGuest 0xff8) true false true false 3 0 1 2 0 .offset) ↔
      RoundsOk (ldpRounds 0xff8) (loggedGuest 0xff8) :=
  @firstFaultReported_iff (Bus Empty) _ (fun _ _ => none) (loggedGuest 0xff8) _ 0xa9400440 0 none
    (ldpRounds 0xff8) rfl rfl rfl

/-- `ldp x0, x1, [x2]` in the unmapped page reports the second element. -/
theorem not_firstFaultReported :
    ¬ ∀ (vu : VecUnit) (g g' : Guest (Logged (Bus Empty))) (word : BitVec 32) (pc : BitVec 64)
      (next : Option (BitVec 64)) (accesses : List (Elem × Elem)),
      rounds g (decode word) = some accesses → g.cpu.pendingAbort = none →
        execute vu g (decode word) pc = some (next, g') → FirstFaultReported accesses g g' := by
  intro h
  have hreported := h (fun _ _ => none) (loggedGuest 0x1000)
    (loadStorePair (loggedGuest 0x1000) true false true false 3 0 1 2 0 .offset) 0xa9400440 0 none
    (ldpRounds 0x1000) rfl rfl rfl
  have hfar := (hreported (by decide +kernel)).1
  exact absurd hfar (by decide +kernel)

end V64.Interp
