import V64.Interp.Levels

/-!
# The views of PSTATE

NZCV, DAIF, SPSel and CurrentEL are fields of the CPU state, and MRS and MSR see
them as registers. NZCV and DAIF are routed to their fields. SPSel and CurrentEL
are not: an MRS or an MSR of them goes to the key-value map, where it finds a
second copy.

* `PstateStep.coherent_iff`: when one access agrees with the field.
* `pstate_coherent_iff`: a run from reset in which every access does.
* `currentEl_reads_zero`: after reset, an MRS of CurrentEL reads 0 in EL1.
-/

namespace V64.Interp

open V64.Cpu V64.Decoder V64.Platform Runs

/-- The registers that show a field of PSTATE. -/
inductive PstateReg where
  | nzcv
  | daif
  | spsel
  | currentEl
  deriving DecidableEq

namespace PstateReg

/-- The key of `MRS Xt, SPSel`. -/
def keySpsel : BitVec 32 := sysregKey 3 0 4 2 0

/-- The key of `MRS Xt, CurrentEL`. -/
def keyCurrentEl : BitVec 32 := sysregKey 3 0 4 2 2

/-- The key of the register. -/
def key : PstateReg → BitVec 32
  | nzcv => keyNzcv
  | daif => keyDaif
  | spsel => keySpsel
  | currentEl => keyCurrentEl

/-- The register as the architecture has it: N, Z, C and V in bits 31 to 28, DAIF
    in bits 9 to 6, SPSel in bit 0 and the level in bits 3 and 2. -/
def encoding (cpu : CpuState) : PstateReg → BitVec 64
  | nzcv =>
    (bit64 cpu.flags.n <<< 31) ||| (bit64 cpu.flags.z <<< 30) ||| (bit64 cpu.flags.c <<< 29) |||
      (bit64 cpu.flags.v <<< 28)
  | daif => cpu.daif.setWidth 64 <<< 6
  | spsel => bit64 cpu.spsel
  | currentEl => BitVec.ofNat 64 cpu.el.val <<< 2

/-- The state after a write of `val` to the register: its field takes the bits of
    `val`, and a write to SPSel selects the bank of SP. CurrentEL is read-only. -/
def written (cpu : CpuState) (val : BitVec 64) : PstateReg → CpuState
  | nzcv =>
    { cpu with
      flags := ⟨val.getLsbD 31, val.getLsbD 30, val.getLsbD 29, val.getLsbD 28⟩ }
  | daif => { cpu with daif := val.extractLsb' 6 4 }
  | spsel => cpu.setElSpsel cpu.el (val.getLsbD 0)
  | currentEl => cpu

/-- What an MRS reads. -/
theorem readSysreg_key (cpu : CpuState) (r : PstateReg) :
    readSysreg cpu r.key = if r = spsel ∨ r = currentEl then getSysreg cpu r.key
      else r.encoding cpu := by
  cases r <;> rfl

theorem writeSysreg_nzcv (cpu : CpuState) (val : BitVec 64) :
    writeSysreg cpu keyNzcv val = nzcv.written cpu val := by
  show { cpu with flags := Flags.fromNzcv val } = _
  unfold written Flags.fromNzcv
  simp only [shiftRight_and_one_beq_one]

theorem writeSysreg_daif (cpu : CpuState) (val : BitVec 64) :
    writeSysreg cpu keyDaif val = daif.written cpu val := rfl

theorem writeSysreg_spsel (cpu : CpuState) (val : BitVec 64) :
    writeSysreg cpu keySpsel val = insertSysreg cpu keySpsel val := rfl

end PstateReg

/-! ## Accesses -/

section Accesses

variable {M : Type} [GuestMem M] {vu : VecUnit}

/-- An instruction, at any PC, or an exception. -/
inductive PstateOp where
  | insn (insn : Insn) (pc : BitVec 64)
  | exception (e : Exc)

/-- The machine executes an instruction, of any kind, or takes an exception. -/
inductive PstateStep (vu : VecUnit) : Guest M → PstateOp → Guest M → Prop where
  | insn {g g' : Guest M} {insn : Insn} {pc : BitVec 64} {next : Option (BitVec 64)}
      (h : execute vu g insn pc = some (next, g')) : PstateStep vu g (.insn insn pc) g'
  | exception (g : Guest M) (e : Exc) :
      PstateStep vu g (.exception e) { g with cpu := (e.take g.cpu).2 }

/-- An access to a PSTATE register agrees with the field: an MRS puts the encoding
    of the field into its destination, and an MSR updates the field and nothing
    else. -/
def Coherent (g : Guest M) (op : PstateOp) (g' : Guest M) : Prop :=
  match op with
  | .insn (.sysRegMove true key rt) _ =>
    ∀ r : PstateReg, r.key = key → g'.cpu = g.cpu.writeGpr rt false (r.encoding g.cpu)
  | .insn (.sysRegMove false key rt) _ =>
    ∀ r : PstateReg, r.key = key → r ≠ .currentEl →
      g'.cpu = r.written g.cpu (g.cpu.readGpr rt false)
  | _ => True

/-- What an access to SPSel or CurrentEL would need of the map, where it goes: for
    an MRS that keeps its result, that the copy there is the value of the field; for
    an MSR, that the copy and the field both hold the value already. -/
def CopyAgrees (g : Guest M) : PstateOp → Prop
  | .insn (.sysRegMove true key rt) _ =>
    ∀ r : PstateReg, r = .spsel ∨ r = .currentEl → r.key = key → rt ≠ 31 →
      getSysreg g.cpu key = r.encoding g.cpu
  | .insn (.sysRegMove false key rt) _ =>
    key = PstateReg.keySpsel →
      g.cpu.sysregs key = some (g.cpu.readGpr rt false) ∧
        g.cpu.spsel = (g.cpu.readGpr rt false).getLsbD 0
  | _ => True

theorem writeGpr_inj {cpu : CpuState} {rt : Reg} {a b : BitVec 64} :
    cpu.writeGpr rt false a = cpu.writeGpr rt false b ↔ (rt ≠ 31 → a = b) := by
  by_cases hrt : rt.val < 31
  · have hne : rt ≠ 31 := by
      rintro rfl
      exact absurd hrt (by decide)
    constructor
    · intro h _
      have hread := congrArg (fun cpu => cpu.readGpr rt false) h
      simpa only [CpuState.readGpr_writeGpr, hrt, true_or, and_self, if_true] using hread
    · intro h
      rw [h hne]
  · have h31 : rt = 31 := Fin.ext (by omega)
    constructor
    · intro _ hne
      exact absurd h31 hne
    · intro _
      rw [CpuState.writeGpr_of_not_lt _ hrt, CpuState.writeGpr_of_not_lt _ hrt]
      rfl

/-- A second copy in the map is no update of SPSel, unless nothing changes. -/
theorem insertSysreg_spsel_iff {cpu : CpuState} {val : BitVec 64} :
    insertSysreg cpu PstateReg.keySpsel val = PstateReg.spsel.written cpu val ↔
      cpu.sysregs PstateReg.keySpsel = some val ∧ cpu.spsel = val.getLsbD 0 := by
  constructor
  · intro h
    obtain ⟨sp, spEl, heq⟩ := CpuState.setElSpsel_eq cpu cpu.el (val.getLsbD 0)
    have hset : insertSysreg cpu PstateReg.keySpsel val =
        { cpu with el := cpu.el, spsel := val.getLsbD 0, sp := sp, spEl := spEl } := h.trans heq
    have hmap : Function.update cpu.sysregs PstateReg.keySpsel (some val) = cpu.sysregs :=
      congrArg CpuState.sysregs hset
    refine ⟨?_, congrArg CpuState.spsel hset⟩
    rw [← congrFun hmap PstateReg.keySpsel, Function.update_self]
  · rintro ⟨hmap, hsp⟩
    have hinsert : insertSysreg cpu PstateReg.keySpsel val = cpu := by
      unfold insertSysreg
      rw [← hmap, Function.update_eq_self]
    have hwritten : PstateReg.spsel.written cpu val = cpu := by
      show cpu.setElSpsel cpu.el (val.getLsbD 0) = cpu
      rw [← hsp]
      unfold CpuState.setElSpsel
      exact if_neg (not_not.mpr rfl)
    rw [hinsert, hwritten]

omit [GuestMem M] in
theorem coherent_mrs_iff {g g' : Guest M} {key : BitVec 32} {rt : Reg} {pc : BitVec 64}
    (hg : g'.cpu = g.cpu.writeGpr rt false (readSysreg g.cpu key)) :
    Coherent g (.insn (.sysRegMove true key rt) pc) g' ↔
      CopyAgrees g (.insn (.sysRegMove true key rt) pc) := by
  have hread (r : PstateReg) (hkey : r.key = key) :
      g'.cpu = g.cpu.writeGpr rt false (r.encoding g.cpu) ↔
        (rt ≠ 31 → readSysreg g.cpu key = r.encoding g.cpu) := by
    rw [hg]
    exact writeGpr_inj
  constructor
  · intro h r hr hkey hne
    have hval := (hread r hkey).mp (h r hkey) hne
    rwa [← hkey, PstateReg.readSysreg_key, if_pos hr, hkey] at hval
  · intro h r hkey
    refine (hread r hkey).mpr fun hne => ?_
    rw [← hkey, PstateReg.readSysreg_key]
    split_ifs with hr
    · rw [hkey]
      exact h r hr hkey hne
    · rfl

omit [GuestMem M] in
theorem coherent_msr_iff {g g' : Guest M} {key : BitVec 32} {rt : Reg} {pc : BitVec 64}
    (hg : g'.cpu = writeSysreg g.cpu key (g.cpu.readGpr rt false)) :
    Coherent g (.insn (.sysRegMove false key rt) pc) g' ↔
      CopyAgrees g (.insn (.sysRegMove false key rt) pc) := by
  constructor
  · rintro h rfl
    have hwritten := h .spsel rfl (by decide)
    rw [hg, PstateReg.writeSysreg_spsel] at hwritten
    exact insertSysreg_spsel_iff.mp hwritten
  · rintro h r rfl hne
    rw [hg]
    cases r with
    | nzcv => exact PstateReg.writeSysreg_nzcv _ _
    | daif => exact PstateReg.writeSysreg_daif _ _
    | spsel => exact insertSysreg_spsel_iff.mpr (h rfl)
    | currentEl => exact absurd rfl hne

/-- An access agrees with the field exactly when the copy in the map makes it. -/
theorem PstateStep.coherent_iff {g g' : Guest M} {op : PstateOp} (h : PstateStep vu g op g') :
    Coherent g op g' ↔ CopyAgrees g op := by
  cases h with
  | exception e => exact Iff.rfl
  | @insn _ i pc next h =>
    cases i with
    | sysRegMove read key rt =>
      have hg : { g with cpu := sysRegMove g.cpu read key rt } = g' :=
        (Prod.mk.inj (Option.some.inj h)).2
      subst hg
      cases read with
      | true => exact coherent_mrs_iff rfl
      | false => exact coherent_msr_iff rfl
    | _ => exact Iff.rfl

/-- In a run from reset every MRS and MSR of NZCV, DAIF, SPSel and CurrentEL agrees
    with the PSTATE field, exactly when at each one of SPSel or CurrentEL the map
    happens to hold the right copy. -/
theorem pstate_coherent_iff {mem : M} {ops : List PstateOp} {g : Guest M} :
    Run (fun g op g' => PstateStep vu g op g' ∧ Coherent g op g') (Guest.reset mem) ops g ↔
      Run (fun g op g' => PstateStep vu g op g' ∧ CopyAgrees g op) (Guest.reset mem) ops g := by
  constructor
  · intro hrun
    exact hrun.mono fun g op g' h => ⟨h.1, h.1.coherent_iff.mp h.2⟩
  · intro hrun
    exact hrun.mono fun g op g' h => ⟨h.1, h.1.coherent_iff.mpr h.2⟩

end Accesses

/-- `mrs x0, CurrentEL` after reset puts 0 into x0, in EL1. -/
theorem currentEl_reads_zero :
    ¬ ∀ (vu : VecUnit) (mem : Bus Empty) (ops : List PstateOp) (g : Guest (Bus Empty)),
      Run (PstateStep vu) (Guest.reset mem) ops g →
        Run (fun g op g' => PstateStep vu g op g' ∧ Coherent g op g') (Guest.reset mem) ops g := by
  intro h
  set start : Guest (Bus Empty) := Guest.reset (codeRam 0 0 0)
  have hstep : PstateStep (fun _ _ => none) start
      (.insn (.sysRegMove true PstateReg.keyCurrentEl 0) 0)
      { start with cpu := sysRegMove CpuState.new true PstateReg.keyCurrentEl 0 } :=
    PstateStep.insn rfl
  have hrun := h _ _ _ _ (.cons hstep (.nil _))
  cases hrun with
  | cons hfirst _ =>
    have hagrees := hfirst.1.coherent_iff.mp hfirst.2
    have hzero : (0 : BitVec 64) = PstateReg.currentEl.encoding CpuState.new :=
      hagrees .currentEl (.inr rfl) rfl (by decide)
    exact absurd hzero (by decide)

end V64.Interp
