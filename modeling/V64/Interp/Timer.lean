import V64.Interp.System

/-!
# The output lines and deadlines of the timers

Model of the machine's side of `crates/interp/src/timer.rs`.

* `Timer.line_iff`: the line of a timer is asserted while the timer is enabled and not masked
  and the counter has reached its compare value.
* `nextDeadline_le`: the next deadline is no later than the compare value of any enabled
  timer.
-/

namespace V64.Interp

open V64.Cpu V64.Decoder

/-- The registers of a timer, and the counter that it compares with. The clock sets the
    counter and neither of the registers. -/
structure Timer where
  ctl : BitVec 32
  cval : BitVec 32
  cnt : BitVec 32
  cnt_eq : cnt = keyCntvct ∨ cnt = keyCntpct
  ctl_ne : ctl ≠ keyCntvct ∧ ctl ≠ keyCntpct
  cval_ne : cval ≠ keyCntvct ∧ cval ≠ keyCntpct

/-- The virtual timer. -/
def virtualTimer : Timer where
  ctl := keyCntvCtl
  cval := keyCntvCval
  cnt := keyCntvct
  cnt_eq := .inl rfl
  ctl_ne := by decide
  cval_ne := by decide

/-- The physical timer. -/
def physicalTimer : Timer where
  ctl := keyCntpCtl
  cval := keyCntpCval
  cnt := keyCntpct
  cnt_eq := .inr rfl
  ctl_ne := by decide
  cval_ne := by decide

/-- `key_cntfrq` (lines 21–23). -/
def keyCntfrq : BitVec 32 := sysregKey 3 3 14 0 0

/-- `set_frequency` (lines 130–132). -/
def setFrequency (cpu : CpuState) (hz : BitVec 64) : CpuState := insertSysreg cpu keyCntfrq hz

/-- `fires` (lines 144–149). -/
def fires (cpu : CpuState) (ctlKey cvalKey cntKey : BitVec 32) : Bool :=
  let ctl := getSysreg cpu ctlKey
  let enabled := ctl &&& 1 != 0
  let masked := ctl &&& 0b10 != 0
  enabled && !masked && getSysreg cpu cntKey ≥ getSysreg cpu cvalKey

/-- `virtual_fires` (lines 153–155). -/
def virtualFires (cpu : CpuState) : Bool := fires cpu keyCntvCtl keyCntvCval keyCntvct

/-- `physical_fires` (lines 159–161). -/
def physicalFires (cpu : CpuState) : Bool := fires cpu keyCntpCtl keyCntpCval keyCntpct

/-- `u64::min`. -/
def minU64 (a b : BitVec 64) : BitVec 64 := if a ≤ b then a else b

/-- One turn of the loop of `next_deadline`. -/
def deadlineStep (cpu : CpuState) (deadline : Option (BitVec 64)) (keys : BitVec 32 × BitVec 32) :
    Option (BitVec 64) :=
  if getSysreg cpu keys.1 &&& 1 ≠ 0 then
    let c := getSysreg cpu keys.2
    some (deadline.elim c fun d => minU64 d c)
  else deadline

/-- `next_deadline` (lines 115–127). -/
def nextDeadline (cpu : CpuState) : Option (BitVec 64) :=
  [(keyCntvCtl, keyCntvCval), (keyCntpCtl, keyCntpCval)].foldl (deadlineStep cpu) none

/-! ## Timers -/

namespace Timer

variable (tm : Timer) (cpu : CpuState)

/-- ENABLE is set. -/
def Enabled : Prop := getSysreg cpu tm.ctl &&& 1 ≠ 0

/-- IMASK is clear. -/
def Unmasked : Prop := getSysreg cpu tm.ctl &&& 0b10 = 0

instance : Decidable (tm.Enabled cpu) := inferInstanceAs (Decidable (_ ≠ _))

instance : Decidable (tm.Unmasked cpu) := inferInstanceAs (Decidable (_ = _))

/-- The compare value. -/
def compare : BitVec 64 := getSysreg cpu tm.cval

/-- The line of the timer. -/
def line : Bool := fires cpu tm.ctl tm.cval tm.cnt

/-- The line is asserted while the counter has reached the compare value. -/
theorem line_iff : tm.line cpu = true ↔
    tm.Enabled cpu ∧ tm.Unmasked cpu ∧ tm.compare cpu ≤ getSysreg cpu tm.cnt := by
  unfold line fires Enabled Unmasked compare
  simp only [Bool.and_eq_true, bne_iff_ne, ne_eq, Bool.not_eq_true', bne_eq_false_iff_eq,
    decide_eq_true_eq, ge_iff_le, and_assoc]

end Timer

/-! ## The count -/

theorem getSysreg_setCount_of_ne (cpu : CpuState) (ticks : BitVec 64) {key : BitVec 32}
    (h : key ≠ keyCntvct ∧ key ≠ keyCntpct) :
    getSysreg (setCount cpu ticks) key = getSysreg cpu key := by
  unfold setCount
  rw [getSysreg_insertSysreg, if_neg h.2, getSysreg_insertSysreg, if_neg h.1]

theorem getSysreg_setCount (cpu : CpuState) (ticks : BitVec 64) {key : BitVec 32}
    (h : key = keyCntvct ∨ key = keyCntpct) : getSysreg (setCount cpu ticks) key = ticks := by
  unfold setCount
  rw [getSysreg_insertSysreg, getSysreg_insertSysreg]
  obtain rfl | rfl := h
  · rw [if_pos rfl, ite_self]
  · rw [if_pos rfl]

namespace Timer

variable (tm : Timer) (cpu : CpuState) (ticks : BitVec 64)

@[simp] theorem enabled_setCount : tm.Enabled (setCount cpu ticks) ↔ tm.Enabled cpu := by
  unfold Enabled
  rw [getSysreg_setCount_of_ne cpu ticks tm.ctl_ne]

@[simp] theorem unmasked_setCount : tm.Unmasked (setCount cpu ticks) ↔ tm.Unmasked cpu := by
  unfold Unmasked
  rw [getSysreg_setCount_of_ne cpu ticks tm.ctl_ne]

@[simp] theorem compare_setCount : tm.compare (setCount cpu ticks) = tm.compare cpu :=
  getSysreg_setCount_of_ne cpu ticks tm.cval_ne

/-- The line after the count is set. -/
theorem line_setCount : tm.line (setCount cpu ticks) = true ↔
    tm.Enabled cpu ∧ tm.Unmasked cpu ∧ tm.compare cpu ≤ ticks := by
  rw [line_iff, enabled_setCount, unmasked_setCount, compare_setCount,
    getSysreg_setCount cpu ticks tm.cnt_eq]

end Timer

/-! ## The next deadline -/

theorem minU64_le_left (a b : BitVec 64) : minU64 a b ≤ a := by
  unfold minU64
  split_ifs with h
  · exact BitVec.le_refl a
  · exact BitVec.le_of_lt (BitVec.not_le.mp h)

theorem minU64_le_right (a b : BitVec 64) : minU64 a b ≤ b := by
  unfold minU64
  split_ifs with h
  · exact h
  · exact BitVec.le_refl b

/-- The deadlines of the timers that were looked at are no earlier than the one found. -/
theorem deadlineStep_spec (cpu : CpuState) (keys : BitVec 32 × BitVec 32)
    {deadline : Option (BitVec 64)} {P : BitVec 64 → Prop}
    (hP : ∀ c, P c → ∃ d, deadline = some d ∧ d ≤ c) :
    ∀ c, (P c ∨ getSysreg cpu keys.1 &&& 1 ≠ 0 ∧ c = getSysreg cpu keys.2) →
      ∃ d, deadlineStep cpu deadline keys = some d ∧ d ≤ c := by
  intro c hc
  unfold deadlineStep
  split_ifs with henabled
  · cases deadline with
    | none =>
      obtain hc | ⟨-, rfl⟩ := hc
      · obtain ⟨d, hd, -⟩ := hP c hc
        cases hd
      · exact ⟨_, rfl, BitVec.le_refl _⟩
    | some d =>
      refine ⟨_, rfl, ?_⟩
      obtain hc | ⟨-, rfl⟩ := hc
      · obtain ⟨d', hd, hle⟩ := hP c hc
        cases hd
        exact BitVec.le_trans (minU64_le_left _ _) hle
      · exact minU64_le_right _ _
  · obtain hc | ⟨hbit, -⟩ := hc
    · exact hP c hc
    · exact absurd hbit henabled

/-- The compare value of an enabled timer. -/
def IsDeadline (cpu : CpuState) (c : BitVec 64) : Prop :=
  ∃ tm, (tm = virtualTimer ∨ tm = physicalTimer) ∧ tm.Enabled cpu ∧ c = tm.compare cpu

/-- The next deadline is there if a timer is enabled, and no later than any. -/
theorem nextDeadline_le {cpu : CpuState} {c : BitVec 64} (h : IsDeadline cpu c) :
    ∃ d, nextDeadline cpu = some d ∧ d ≤ c := by
  have hnone : ∀ c : BitVec 64, False → ∃ d, (none : Option (BitVec 64)) = some d ∧ d ≤ c :=
    fun _ hc => hc.elim
  have hvirtual := deadlineStep_spec cpu (keyCntvCtl, keyCntvCval) hnone
  have hphysical := deadlineStep_spec cpu (keyCntpCtl, keyCntpCval) hvirtual
  apply hphysical c
  obtain ⟨tm, rfl | rfl, henabled, rfl⟩ := h
  · exact .inl (.inr ⟨henabled, rfl⟩)
  · exact .inr ⟨henabled, rfl⟩

end V64.Interp
