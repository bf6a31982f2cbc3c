import V64.Interp.Monitor

/-!
# What a successful store exclusive matches

The monitor keeps the address of the load exclusive that armed it and the value of
its first element, but neither its size nor whether it was a pair. A history variable
beside the machine keeps all of it: the access of the last load exclusive that
completed and the elements it loaded.

* `ExclAccess`, `Reservation`: an exclusive access and what it found.
* `Traced`, `TracedStep`: the machine with the last load exclusive it completed.
* `tracks_of_run`: an armed monitor is the address and first element of that record.
* `exact_iff`: in every state of every run, a store exclusive that succeeds matches
  that record in full exactly when it has its size and form and finds its second
  element.
-/

namespace V64.Interp

open V64.Cpu V64.Decoder V64.Platform Runs

/-- An exclusive access: one element of `1 << size` bytes at `addr`, or two. -/
@[ext] structure ExclAccess where
  addr : BitVec 64
  size : ℕ
  pair : Bool
  deriving DecidableEq

/-- The bytes that the access covers. -/
def ExclAccess.bytes (a : ExclAccess) : BitVec 64 :=
  let esize : BitVec 64 := 1 <<< a.size
  if a.pair then 2 * esize else esize

/-- The access of a load exclusive. -/
def ldxAccess (cpu : CpuState) : Insn → Option ExclAccess
  | .loadExclusive size _ rn => some ⟨cpu.readGpr rn true, size, false⟩
  | .loadExclusivePair size _ _ rn => some ⟨cpu.readGpr rn true, size, true⟩
  | _ => none

/-- The access of a store exclusive. -/
def stxAccess (cpu : CpuState) : Insn → Option ExclAccess
  | .storeExclusive size _ _ rn => some ⟨cpu.readGpr rn true, size, false⟩
  | .storeExclusivePair size _ _ _ rn => some ⟨cpu.readGpr rn true, size, true⟩
  | _ => none

/-- An exclusive access with the elements it found; a single access has 0 for the second. -/
@[ext] structure Reservation where
  access : ExclAccess
  elements : BitVec 64 × BitVec 64
  deriving DecidableEq

section Access

variable {M : Type} [GuestMem M]

/-- The elements that memory holds under the access. -/
def ExclAccess.elements (a : ExclAccess) (g : Guest M) : (BitVec 64 × BitVec 64) × Guest M :=
  let (v1, g) := MemAccess.read g a.addr a.size
  if a.pair then
    let (v2, g) := MemAccess.read g (a.addr + (1 <<< a.size : ℕ)) a.size
    ((v1, v2), g)
  else ((v1, 0), g)

theorem ExclAccess.elements_fst (a : ExclAccess) (g : Guest M) :
    (a.elements g).1.1 = (MemAccess.read g a.addr a.size).1 := by
  unfold ExclAccess.elements
  dsimp only
  split_ifs <;> rfl

/-- What a load exclusive loads, unless it faults. -/
def ldxLoads (g : Guest M) (a : ExclAccess) : Option Reservation :=
  if (alignCheck g a.addr a.bytes false).isSome then none
  else
    let (vals, g) := a.elements g
    if g.aborted then none else some ⟨a, vals⟩

/-- What the load exclusive that is next will load, if one is. -/
def nextLoads (g : Guest M) : Option Reservation :=
  (fetch g).bind fun r => (ldxAccess r.2.cpu (decode r.1)).bind (ldxLoads r.2)

/-- What the store exclusive that is next will find in memory, if one is. -/
def nextFinds (g : Guest M) : Option Reservation :=
  (fetch g).bind fun r =>
    (stxAccess r.2.cpu (decode r.1)).map fun a => ⟨a, (a.elements r.2).1⟩

/-- A store exclusive that succeeds finds the first element that the monitor holds. -/
theorem finds_of_stxSuccess {g : Guest M} {addr : BitVec 64} (h : stxSuccess g = some addr) :
    ∃ found, nextFinds g = some found ∧ found.access.addr = addr ∧
      found.elements.1 = g.cpu.exclVal := by
  obtain ⟨⟨word, g1⟩, hfetch, hsuccess⟩ := Option.bind_eq_some_iff.mp h
  obtain ⟨tlb, hcpu⟩ := fetch_cpu hfetch
  have hval : g1.cpu.exclVal = g.cpu.exclVal := by rw [hcpu]
  have hread {size : ℕ} {bytes addr' : BitVec 64}
      (h : (if (alignCheck g1 addr' bytes true).isNone && (exclMatches g1 addr' size).1
        then some addr' else none) = some addr) :
      addr' = addr ∧ (MemAccess.read g1 addr' size).1 = g.cpu.exclVal := by
    split_ifs at h with hboth
    have hmatch := (Bool.and_eq_true_iff.mp hboth).2
    obtain ⟨hvalid, haddr⟩ := excl_of_exclMatches hmatch
    have hexcl : g1.cpu.excl = some (g1.cpu.exclAddr, g1.cpu.exclVal) := if_pos hvalid
    unfold exclMatches at hmatch
    rw [hexcl] at hmatch
    dsimp only at hmatch
    rw [if_pos haddr] at hmatch
    exact ⟨Option.some.inj h, (eq_of_beq hmatch).trans hval⟩
  have hfinds : nextFinds g =
      (stxAccess g1.cpu (decode word)).map fun a => ⟨a, (a.elements g1).1⟩ := by
    unfold nextFinds
    rw [hfetch, Option.bind_some]
  rw [hfinds]
  dsimp only at hsuccess
  split at hsuccess
  · next size rs rt rn hdecode =>
    obtain ⟨haddr, hfirst⟩ := hread hsuccess
    rw [hdecode]
    exact ⟨_, rfl, haddr, (ExclAccess.elements_fst _ _).trans hfirst⟩
  · next size rs rt rt2 rn hdecode =>
    obtain ⟨haddr, hfirst⟩ := hread hsuccess
    rw [hdecode]
    exact ⟨_, rfl, haddr, (ExclAccess.elements_fst _ _).trans hfirst⟩
  · cases hsuccess

end Access

/-! ## The load exclusive that armed the monitor -/

section Arm

variable {M : Type} [GuestMem M] {vu : VecUnit} {g g' : Guest M}

/-- The monitor as a load exclusive leaves it. -/
def Reservation.monitor (r : Reservation) : BitVec 8 × BitVec 64 × BitVec 64 :=
  (1, r.access.addr, r.elements.1)

theorem monitor_loadExclusive (g : Guest M) (size : ℕ) (rt rn : Reg) :
    monitor (loadExclusive g size rt rn).cpu =
      ((ldxLoads g ⟨g.cpu.readGpr rn true, size, false⟩).map Reservation.monitor).getD
        (monitor g.cpu) := by
  set addr := g.cpu.readGpr rn true with haddr
  set r := MemAccess.read g addr size with hr
  have hloads : ldxLoads g ⟨addr, size, false⟩ =
      if (alignCheck g addr (1 <<< size : ℕ) false).isSome then none
      else if r.2.aborted then none else some ⟨⟨addr, size, false⟩, (r.1, 0)⟩ := rfl
  unfold loadExclusive
  dsimp only
  rw [hloads, ← haddr, ← hr]
  cases halign : alignCheck g addr (1 <<< size : ℕ) false with
  | some g1 => exact quiet_alignCheck monitor_quiet halign
  | none =>
    have hread : monitor r.2.cpu = monitor g.cpu := quiet_read monitor_quiet g addr size
    cases habort : r.2.aborted with
    | true => exact hread
    | false => exact quiet_writeResult monitor_quiet (r.2.cpu.armExcl addr r.1) (size == 3) rt r.1

theorem monitor_loadExclusivePair (g : Guest M) (size : ℕ) (rt rt2 rn : Reg) :
    monitor (loadExclusivePair g size rt rt2 rn).cpu =
      ((ldxLoads g ⟨g.cpu.readGpr rn true, size, true⟩).map Reservation.monitor).getD
        (monitor g.cpu) := by
  set addr := g.cpu.readGpr rn true with haddr
  set r := MemAccess.read g addr size with hr
  set r2 := MemAccess.read r.2 (addr + (1 <<< size : ℕ)) size with hr2
  have hloads : ldxLoads g ⟨addr, size, true⟩ =
      if (alignCheck g addr ((2 : BitVec 64) * (1 <<< size : ℕ)) false).isSome then none
      else if r2.2.aborted then none else some ⟨⟨addr, size, true⟩, (r.1, r2.1)⟩ := rfl
  unfold loadExclusivePair
  dsimp only
  rw [hloads, ← haddr, ← hr, ← hr2]
  cases halign : alignCheck g addr ((2 : BitVec 64) * (1 <<< size : ℕ)) false with
  | some g1 => exact quiet_alignCheck monitor_quiet halign
  | none =>
    have hread : monitor r2.2.cpu = monitor g.cpu :=
      (quiet_read monitor_quiet r.2 _ size).trans (quiet_read monitor_quiet g addr size)
    cases habort : r2.2.aborted with
    | true => exact hread
    | false =>
      have hsecond := quiet_writeResult monitor_quiet
        (writeResult (r2.2.cpu.armExcl addr r.1) (size == 3) rt r.1) (size == 3) rt2 r2.1
      exact hsecond.trans
        (quiet_writeResult monitor_quiet (r2.2.cpu.armExcl addr r.1) (size == 3) rt r.1)

/-- A load exclusive that completes arms the monitor; one that faults keeps it. -/
theorem monitor_ldx {insn : Insn} {pc : BitVec 64} {next : Option (BitVec 64)} {a : ExclAccess}
    (hacc : ldxAccess g.cpu insn = some a) (hexec : execute vu g insn pc = some (next, g')) :
    monitor g'.cpu = ((ldxLoads g a).map Reservation.monitor).getD (monitor g.cpu) := by
  cases insn with
  | loadExclusive size rt rn =>
    obtain rfl := Option.some.inj hacc
    obtain ⟨-, rfl⟩ := Prod.mk.inj (Option.some.inj hexec)
    exact monitor_loadExclusive g size rt rn
  | loadExclusivePair size rt rt2 rn =>
    obtain rfl := Option.some.inj hacc
    obtain ⟨-, rfl⟩ := Prod.mk.inj (Option.some.inj hexec)
    exact monitor_loadExclusivePair g size rt rt2 rn
  | _ => cases hacc

/-- What the load exclusive that an event executes loads, if it executes one. -/
def eventLoads (g : Guest M) : MachineEvent → Option Reservation
  | .insn => nextLoads g
  | _ => none

theorem ldxBase_of_ldxAccess {cpu : CpuState} {insn : Insn} (h : ldxAccess cpu insn = none) :
    ldxBase insn = none := by
  cases insn with
  | loadExclusive | loadExclusivePair => cases h
  | _ => rfl

/-- An instruction arms the monitor if it is a load exclusive that completes, and
    otherwise keeps the monitor or clears it. -/
theorem reservation_stepWord {word : BitVec 32} {pc : BitVec 64}
    (h : stepWord vu g word = some (.next pc, g')) :
    monitor g'.cpu = ((((ldxAccess g.cpu (decode word)).bind (ldxLoads g)).map
      Reservation.monitor).getD (monitor g.cpu)) ∨ g'.cpu.exclValid = 0 := by
  unfold stepWord at h
  dsimp only at h
  split at h
  · cases h
  · obtain ⟨⟨next, g2⟩, hexec, hpair⟩ := Option.map_eq_some_iff.mp h
    obtain ⟨-, rfl⟩ := Prod.mk.inj hpair
    have hretire := monitor_retire g2 next g.cpu.pc
    cases hacc : ldxAccess g.cpu (decode word) with
    | some a => exact .inl (hretire.trans (monitor_ldx hacc hexec))
    | none =>
      obtain ⟨hkept, -⟩ | ⟨rn, hldx, -⟩ | ⟨-, hzero⟩ := monitorEffect_execute hexec
      · exact .inl (hretire.trans hkept)
      · rw [ldxBase_of_ldxAccess hacc] at hldx
        cases hldx
      · exact .inr ((congrArg Prod.fst hretire).trans hzero)

/-- An event arms the monitor for the load exclusive that it executes, and otherwise
    keeps the monitor or clears it. -/
theorem MachineStep.reservation {e : MachineEvent} (h : MachineStep vu g e g') :
    monitor g'.cpu = ((eventLoads g e).map Reservation.monitor).getD (monitor g.cpu) ∨
      g'.cpu.exclValid = 0 := by
  have hother (he : e ≠ .insn) : eventLoads g e = none := by
    cases e with
    | insn => exact absurd rfl he
    | _ => rfl
  by_cases he : e = .insn
  · subst he
    cases h with
    | insn h =>
      cases hfetch : fetch g with
      | none =>
        have hloads : eventLoads g .insn = none := by
          unfold eventLoads nextLoads
          rw [hfetch]
          rfl
        rw [hloads]
        exact .inl (step_of_fetch_none hfetch h)
      | some r =>
        obtain ⟨word, g1⟩ := r
        obtain ⟨tlb, hcpu⟩ := fetch_cpu hfetch
        have hfetched : monitor g1.cpu = monitor g.cpu := by
          rw [hcpu]
          rfl
        have hloads : eventLoads g .insn = (ldxAccess g1.cpu (decode word)).bind (ldxLoads g1) := by
          unfold eventLoads nextLoads
          rw [hfetch, Option.bind_some]
        rw [step_of_fetch hfetch] at h
        rw [hloads, ← hfetched]
        exact reservation_stepWord h
  · rw [hother he]
    obtain ⟨hkept, -⟩ | ⟨hinsn, -⟩ | hzero := h.exclusive
    · exact .inl hkept
    · exact absurd hinsn he
    · exact .inr hzero

end Arm

/-! ## Runs with a history -/

section Trace

variable {M : Type} [GuestMem M] {vu : VecUnit}

/-- The machine, and what the last load exclusive that completed has loaded. -/
structure Traced (M : Type) where
  guest : Guest M
  loaded : Option Reservation

/-- A step of the machine; a load exclusive that completes is recorded. -/
def TracedStep (vu : VecUnit) (s : Traced M) (e : MachineEvent) (s' : Traced M) : Prop :=
  MachineStep vu s.guest e s'.guest ∧ s'.loaded = (eventLoads s.guest e).or s.loaded

/-- The machine after reset, which has loaded nothing. -/
def Traced.reset (mem : M) : Traced M := ⟨Guest.reset mem, none⟩

/-- An armed monitor holds the address and the first element of the last load exclusive. -/
def Tracks (s : Traced M) : Prop :=
  s.guest.cpu.exclValid ≠ 0 →
    ∃ r, s.loaded = some r ∧ s.guest.cpu.exclAddr = r.access.addr ∧
      s.guest.cpu.exclVal = r.elements.1

theorem Tracks.step {s s' : Traced M} {e : MachineEvent} (h : Tracks s)
    (hstep : TracedStep vu s e s') : Tracks s' := by
  obtain ⟨hstep, hloaded⟩ := hstep
  intro harmed
  obtain hmonitor | hzero := hstep.reservation
  · cases hloads : eventLoads s.guest e with
    | some r =>
      rw [hloads] at hmonitor hloaded
      exact ⟨r, hloaded, congrArg (·.2.1) hmonitor, congrArg (·.2.2) hmonitor⟩
    | none =>
      rw [hloads] at hmonitor hloaded
      have hkept : monitor s'.guest.cpu = monitor s.guest.cpu := hmonitor
      have hvalid : s'.guest.cpu.exclValid = s.guest.cpu.exclValid := congrArg Prod.fst hkept
      obtain ⟨r, hr, haddr, hval⟩ := h (hvalid ▸ harmed)
      exact ⟨r, hloaded.trans hr, (congrArg (·.2.1) hkept).trans haddr,
        (congrArg (·.2.2) hkept).trans hval⟩
  · exact absurd hzero harmed

theorem tracks_of_run {mem : M} {events : List MachineEvent} {s : Traced M}
    (hrun : Run (TracedStep vu) (Traced.reset mem) events s) : Tracks s :=
  hrun.invariant (fun _ _ _ h hstep => h.step hstep) fun h => absurd rfl h

/-! ## Every successful store exclusive -/

/-- If the STXR or STXP that is next reports success, then it is the access of the load
    exclusive that armed the monitor, and it finds in memory the elements that this load
    exclusive returned. -/
def StxExact (s : Traced M) : Prop :=
  ∀ addr, stxSuccess s.guest = some addr → nextFinds s.guest = s.loaded

/-- The store exclusive has the element size and the form of the load exclusive, and
    finds the second element that it loaded. -/
structure SameForm (found loaded : Reservation) : Prop where
  size : found.access.size = loaded.access.size
  pair : found.access.pair = loaded.access.pair
  second : found.elements.2 = loaded.elements.2

/-- The store exclusive fails its own test, or it has the form of the last load exclusive
    and finds its second element. -/
def StxSameForm (s : Traced M) : Prop :=
  stxSuccess s.guest = none ∨
    ∃ found loaded, nextFinds s.guest = some found ∧ s.loaded = some loaded ∧
      SameForm found loaded

/-- In every state of every run from reset, the next store exclusive reports success only
    for the access and the elements of the load exclusive that armed the monitor, exactly
    when it fails or has the same form and finds the same second element. -/
theorem stxExact_iff {mem : M} {events : List MachineEvent} {s : Traced M}
    (hrun : Run (TracedStep vu) (Traced.reset mem) events s) : StxExact s ↔ StxSameForm s := by
  have htracks := tracks_of_run hrun
  constructor
  · intro hexact
    cases hsuccess : stxSuccess s.guest with
    | none => exact .inl hsuccess
    | some addr =>
      obtain ⟨found, hfound, -, -⟩ := finds_of_stxSuccess hsuccess
      have hloaded : s.loaded = some found := (hexact addr hsuccess).symm.trans hfound
      exact .inr ⟨found, found, hfound, hloaded, rfl, rfl, rfl⟩
  · intro hform addr hsuccess
    obtain ⟨found, hfound, haddr, hfirst⟩ := finds_of_stxSuccess hsuccess
    obtain ⟨hvalid, hexclAddr⟩ := armed_of_stxSuccess hsuccess
    obtain ⟨loaded, hloaded, hloadedAddr, hloadedVal⟩ := htracks hvalid
    obtain hnone | ⟨found', loaded', hfound', hloaded', hsame⟩ := hform
    · rw [hnone] at hsuccess
      cases hsuccess
    · obtain rfl : found = found' := Option.some.inj (hfound.symm.trans hfound')
      obtain rfl : loaded = loaded' := Option.some.inj (hloaded.symm.trans hloaded')
      have haccess : found.access = loaded.access :=
        ExclAccess.ext (haddr.trans (hexclAddr.symm.trans hloadedAddr)) hsame.size hsame.pair
      have helements : found.elements = loaded.elements :=
        Prod.ext (hfirst.trans hloadedVal) hsame.second
      rw [hfound, hloaded]
      exact congrArg some (Reservation.ext haccess helements)

end Trace

/-! ## Two programs -/

/-- The traced run of two instructions. -/
theorem tracedRun_two {M : Type} [GuestMem M] {vu : VecUnit} {start g1 g2 : Guest M}
    (h1 : steps vu 1 start = some g1) (h2 : steps vu 1 g1 = some g2) :
    Run (TracedStep vu) ⟨start, none⟩ [.insn, .insn]
      ⟨g2, (nextLoads g1).or ((nextLoads start).or none)⟩ := by
  have hstep {g g' : Guest M} (h : steps vu 1 g = some g') : MachineStep vu g .insn g' := by
    rw [steps] at h
    split at h
    · next pc g1 hstep =>
      obtain rfl : g1 = g' := Option.some.inj h
      exact .insn hstep
    · cases h
  have hfirst : TracedStep vu ⟨start, none⟩ .insn ⟨g1, (nextLoads start).or none⟩ :=
    ⟨hstep h1, rfl⟩
  exact .cons hfirst (.cons ⟨hstep h2, rfl⟩ (.nil _))

/-- `ldxp w0, w2, [x1]; str w3, [x1, #8]; stxp w4, w0, w2, [x1]`: the store leaves the
    pair as it is. -/
theorem stxExact_iff_ldxp :
    ∃ g1 g2 : Guest (Bus Empty),
      steps (fun _ _ => none) 1 (Guest.reset (codeRam 0x887f0820 0xb9000823 0x88240820)) =
        some g1 ∧ steps (fun _ _ => none) 1 g1 = some g2 ∧
      (StxExact ⟨g2, (nextLoads g1).or ((nextLoads
        (Guest.reset (codeRam 0x887f0820 0xb9000823 0x88240820))).or none)⟩ ↔
        StxSameForm ⟨g2, (nextLoads g1).or ((nextLoads
          (Guest.reset (codeRam 0x887f0820 0xb9000823 0x88240820))).or none)⟩) := by
  set start := Guest.reset (codeRam 0x887f0820 0xb9000823 0x88240820)
  have hsome : ((steps (fun _ _ => none) 1 start).bind (steps (fun _ _ => none) 1)).isSome := by
    decide +kernel
  obtain ⟨g2, htwo⟩ := Option.isSome_iff_exists.mp hsome
  obtain ⟨g1, h1, h2⟩ := Option.bind_eq_some_iff.mp htwo
  exact ⟨g1, g2, h1, h2, stxExact_iff (tracedRun_two h1 h2)⟩

/-- `ldxp w0, w2, [x1]; str w3, [x1, #4]; stxp w4, w0, w2, [x1]`: the store changes the
    second element, and the store exclusive succeeds. -/
theorem not_stxExact :
    ¬ ∀ (vu : VecUnit) (mem : Bus Empty) (events : List MachineEvent) (s : Traced (Bus Empty)),
      Run (TracedStep vu) (Traced.reset mem) events s → StxExact s := by
  intro h
  set start := Guest.reset (codeRam 0x887f0820 0xb9000423 0x88240820)
  have hsome : ((steps (fun _ _ => none) 1 start).bind (steps (fun _ _ => none) 1)).isSome := by
    decide +kernel
  obtain ⟨g2, htwo⟩ := Option.isSome_iff_exists.mp hsome
  have hsuccess : ((steps (fun _ _ => none) 1 start).bind (steps (fun _ _ => none) 1)).bind
      stxSuccess = some 0 := by decide +kernel
  have hfinds : ((steps (fun _ _ => none) 1 start).bind (steps (fun _ _ => none) 1)).bind
      nextFinds = some ⟨⟨0, 2, true⟩, (0x887f0820, 0)⟩ := by decide +kernel
  have hloads : (steps (fun _ _ => none) 1 start).map nextLoads = some none := by decide +kernel
  have hldxp : nextLoads start = some ⟨⟨0, 2, true⟩, (0x887f0820, 0xb9000423)⟩ := by
    decide +kernel
  rw [htwo] at hsuccess hfinds
  obtain ⟨g1, h1, h2⟩ := Option.bind_eq_some_iff.mp htwo
  rw [h1] at hloads
  have hnone : nextLoads g1 = none := Option.some.inj hloads
  have hexact := h (fun _ _ => none) _ _ _ (tracedRun_two h1 h2) 0 hsuccess
  have heq : nextFinds g2 = (nextLoads g1).or ((nextLoads start).or none) := hexact
  rw [hnone, hldxp, show nextFinds g2 = _ from hfinds] at heq
  exact absurd heq (by decide)

end V64.Interp
