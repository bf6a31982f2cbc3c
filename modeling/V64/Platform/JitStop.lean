import V64.Platform.JitTurn
import V64.Platform.MachineRun

/-!
# The stop contract of compiled code

The comment of `run_jit_browser` says that it has the stop contract of `run`. A call of
compiled code looks at neither the stop address nor the budget.

* `runJitBrowser_stops`: while the calls stay within the limits, the contract holds.
* `runJitBrowser_overruns`: whatever they do, the loop stops at a state of the interpreter, as
  many instructions past its budget as one call retires at most.
-/

namespace V64.Platform

open Checked Loops V64.Cpu V64.Interp V64.Jit

/-! ## The limits -/

theorem limits_eq_none_iff {t : Target} {stopPc : BitVec 64} {count executed : t.Usize}
    {cpu : CpuState}
    (h : limits stopPc count cpu executed = none) (hcount : count ≠ 0) :
    executed.toNat < count.toNat := by
  unfold limits at h
  split_ifs at h with _ _ hlimit
  exact Nat.lt_of_not_le fun hle => hlimit ⟨hcount, BitVec.le_def.mpr hle⟩

/-! ## A machine that spins -/

instance : JitMem BareBoard where
  ramJitInfo b := (b.bus.ram.base, b.bus.ram.size)

/-- RAM full of `b .`, and a CPU at its start that has been through a call before. -/
def spinGuest : Guest BareBoard where
  cpu := { setCount CpuState.new 0 with pc := 0, jitCount := 8192 }
  mem := ⟨Gic.new, ⟨⟨0, 0x1000, fun a => if a % 4 = 3 then 0x14 else 0⟩, []⟩⟩

/-- The machine, with its counters. -/
def spinMachine (timerCounter : BitVec 32) (reads : ℕ) (total : BitVec 64) : Machine BareBoard where
  guest := spinGuest
  clock := fun _ => 0
  reads := reads
  freq := 62500000
  timerInterval := 64
  timerCounter := timerCounter
  undefToGuest := true
  undefinedSeen := fun _ => none
  dma := []
  idleUntil := none
  totalInsns := total

theorem step_spin : step noVecUnit spinGuest = some (.next 0, spinGuest) := rfl

theorem steps_spin (n : ℕ) : steps noVecUnit n spinGuest = some spinGuest := by
  induction n with
  | zero => rfl
  | succ n ih => exact steps_succ_iff.mpr ⟨0, spinGuest, step_spin, ih⟩

theorem clearPending_new (id : BitVec 32) : Gic.new.step (.clearPending id) = Gic.new := by
  have hinner : GicInner.new.clearPending id = GicInner.new :=
    if_neg fun h => Bool.false_ne_true h.2
  exact (Gic.mk.injEq _ _ _ _).mpr hinner

theorem advanceTimers_spin (k : BitVec 32) (r : ℕ) (x : BitVec 64) :
    (spinMachine k r x).advanceTimers = spinMachine k (r + 1) x := by
  have hcount : setCount spinGuest.cpu 0 = spinGuest.cpu := by
    have hsysregs : (setCount spinGuest.cpu 0).sysregs = spinGuest.cpu.sysregs := by
      funext key
      show Function.update (Function.update (Function.update (Function.update _ _ _) _ _) _ _) _ _
        key = Function.update (Function.update _ _ _) _ _ key
      simp only [Function.update_apply]
      split_ifs <;> rfl
    exact congrArg (fun s => { spinGuest.cpu with sysregs := s }) hsysregs
  have hsample : (spinMachine k r x).sampleCount = spinMachine k (r + 1) x :=
    congrArg (fun cpu => { spinMachine k (r + 1) x with guest := ⟨cpu, spinGuest.mem⟩ }) hcount
  have hquiet (id : BitVec 32) :
      (spinMachine k (r + 1) x).driveLine (false, id) = spinMachine k (r + 1) x :=
    congrArg (fun gic => { spinMachine k (r + 1) x with
      guest := ⟨spinGuest.cpu, { spinGuest.mem with gic := gic }⟩ }) (clearPending_new id)
  have hvirt : virtualFires spinGuest.cpu = false := rfl
  have hphys : physicalFires spinGuest.cpu = false := rfl
  unfold Machine.advanceTimers
  rw [hsample]
  show ((spinMachine k (r + 1) x).driveLine (virtualFires spinGuest.cpu, _)).driveLine
    (physicalFires spinGuest.cpu, _) = _
  rw [hvirt, hphys, hquiet, hquiet]

theorem snd_pageWords_spin (n : ℕ) (addr : BitVec 64) :
    (pageWords n addr spinGuest.mem).2 = spinGuest.mem := by
  have hload (addr : BitVec 64) : (GuestMem.readU32 spinGuest.mem addr).2 = spinGuest.mem := by
    have hbus : (spinGuest.mem.bus.load addr 4).2 = spinGuest.mem.bus := by
      unfold Bus.load
      split
      · split_ifs <;> rfl
      · next i h =>
        have hnone : spinGuest.mem.bus.device? i addr 4 = none := rfl
        rw [hnone]
      · rfl
    exact congrArg (fun bus => { spinGuest.mem with bus := bus }) hbus
  induction n generalizing addr with
  | zero => rfl
  | succ n ih =>
    rw [pageWords]
    dsimp only
    rw [hload]
    exact ih (addr + 4)

section Release

variable {t : Target} (hrelease : t.overflowChecks = false)
include hrelease

theorem serviceAsync_spin (k : BitVec 32) (r : ℕ) (x : BitVec 64) : ∃ k' r',
    (spinMachine k r x).serviceAsync t = some (spinMachine k' r' x) := by
  have hsample : ∃ r', (spinMachine k r x).sample = some (spinMachine k r' x) := by
    unfold Machine.sample
    split_ifs
    · exact ⟨r + 1, by rw [advanceTimers_spin]; rfl⟩
    · exact ⟨r, rfl⟩
  obtain ⟨r', hr'⟩ := hsample
  refine ⟨(k + 1) % 64, r', ?_⟩
  unfold Machine.serviceAsync
  rw [hr']
  dsimp only [Option.bind_eq_bind, Option.bind_some]
  have hinterval : (spinMachine k r' x).timerInterval ≠ 0 := fun h : (64 : BitVec 32) = 0 => by
    cases h
  rw [Target.add_of_wrap hrelease, Option.bind_some, rem_eq_some hinterval, Option.bind_some]
  have hpending : (spinMachine ((k + 1) % 64) r' x).gic.inner.pendingIrq = false :=
    (rfl : Gic.new.inner.pendingIrq = false)
  have hirq : (spinMachine ((k + 1) % 64) r' x).irqDeliverable = false := by
    unfold Machine.irqDeliverable
    rw [hpending, Bool.and_false]
  show some (spinMachine ((k + 1) % 64) r' x).takeDeliverable = _
  unfold Machine.takeDeliverable
  rw [hirq, if_neg Bool.false_ne_true]

theorem quiet_spin (k : BitVec 32) (r : ℕ) (x : BitVec 64) : Quiet t (spinMachine k r x) where
  clock _ := rfl
  service k' r' := serviceAsync_spin hrelease k' r' x
  aligned := rfl
  settled := settled_of_off (rfl : mmuEnabled spinGuest.cpu = false)
  code pa g hg := by
    have hfetch : fetchPc spinGuest = (.ok 0, spinGuest) := translate_of_off rfl _ _ _
    cases hfetch.symm.trans hg
    exact snd_pageWords_spin _ _


/-- The state of `run` there. -/
def Spins (s : Running t BareBoard) : Prop := ∃ k r x e, s = ⟨spinMachine k r x, e, none⟩

theorem checkedPass_spin {halt : CpuState → t.Usize → Option StopReason}
    {s s₁ : Running t BareBoard}
    (hs : Spins s) (h : checkedPass t noVecUnit halt s = some (.again s₁)) :
    Spins s₁ ∧ s₁.executed = s.executed + 1 := by
  obtain ⟨k, r, x, e, rfl⟩ := hs
  cases hgo : halt spinGuest.cpu e with
  | some reason =>
    unfold checkedPass at h
    rw [show halt (spinMachine k r x).guest.cpu e = _ from hgo] at h
    cases h
  | none =>
    obtain ⟨k', r', hpass⟩ := checkedPass_of_step hrelease (s := ⟨spinMachine k r x, e, none⟩) hgo
      (quiet_spin hrelease k r x) step_spin rfl
    cases hpass.symm.trans h
    exact ⟨⟨k', r', _, _, rfl⟩, rfl⟩

theorem always_quiet_spin (halt : CpuState → t.Usize → Option StopReason)
    {s : Running t BareBoard} (hs : Spins s) :
    Always (checkedPass t noVecUnit halt) (fun s => Quiet t s.machine) s := by
  refine Always.of_inv Spins ?_ (fun s s₁ hs h => (checkedPass_spin hrelease hs h).1) hs
  rintro s ⟨k, r, x, e, rfl⟩
  exact quiet_spin hrelease k r x

end Release

/-- A host whose compiled code goes round as often as a region does before it yields. -/
def spinRunner : BlockRunner Unit BareBoard where
  compile host _ := (0, host)
  run host _ g := some (g.cpu.pc, { g with cpu := { g.cpu with jitCount := 8192 } }, host)
  invalidate host := host

/-- The machine with its code compiled. -/
def spinJit (timerCounter : BitVec 32) (reads : ℕ) (total insns calls : BitVec 64) :
    JitMachine Unit BareBoard where
  machine := spinMachine timerCounter reads total
  jitInsns := insns
  jitCalls := calls
  jitRegions := 0
  jitRegionBlocks := 0
  jitCache := fun _ => some (.hot 0)
  host := ()

theorem retires_spin : Retires noVecUnit spinGuest 8192 0 spinGuest where
  run := ⟨spinGuest, steps_spin 8192, rfl, rfl⟩
  lt := by decide
  progress _ := by decide
  awake i _ h hh := by
    cases (steps_spin i).symm.trans hh
    exact ⟨rfl, rfl⟩

theorem jitEntry_spin (t : Target) (L : Layout) (k : BitVec 32) (r : ℕ) (x a b : BitVec 64) :
    (spinJit k r x a b).jitEntry t spinRunner L = some (some 0, spinJit k r x a b) := by
  have hfetch : fetchPc spinGuest = (.ok 0, spinGuest) := translate_of_off rfl _ _ _
  unfold JitMachine.jitEntry
  dsimp only
  rw [show translate (spinJit k r x a b).machine.guest (spinJit k r x a b).machine.guest.cpu.pc
    .exec (spinJit k r x a b).machine.guest.cpu.el = (.ok 0, spinGuest) from hfetch]
  rfl

theorem enterBlock_spin (k : BitVec 32) (r : ℕ) (x a b : BitVec 64) :
    ({ (spinJit k r x a b).machine.guest with
      cpu := JitMachine.enterBlock (spinJit k r x a b).machine.guest.cpu } : Guest BareBoard) =
      spinGuest := by
  have hflags : Flags.default.toNzcv = 0 := by decide
  exact congrArg (fun nzcv => ({ spinGuest with cpu := { spinGuest.cpu with nzcv := nzcv } } :
    Guest BareBoard)) hflags

theorem callsRetire_spin {t : Target} (hrelease : t.overflowChecks = false) (L : Layout)
    {ok : Guest BareBoard → ℕ → Guest BareBoard → Prop} {s : JitRunning t Unit BareBoard}
    (hs : ∃ k r x a b, s.machine = spinJit k r x a b) (hok : ok spinGuest 8192 spinGuest) :
    CallsRetire spinRunner L noVecUnit ok s := by
  obtain ⟨k, r, x, a, b, hmachine⟩ := hs
  intro m hm handle j hj
  rw [hmachine] at hm hj
  obtain ⟨k', r', hservice⟩ := serviceAsync_spin hrelease k r x
  cases hservice.symm.trans hm
  cases (jitEntry_spin t L k' r' x a b).symm.trans hj
  dsimp only
  rw [enterBlock_spin]
  exact ⟨0, spinGuest, (), 8192, rfl, retires_spin, hok⟩

theorem callBlock_spin {t : Target} (hrelease : t.overflowChecks = false) (k : BitVec 32) (r : ℕ)
    (x a b : BitVec 64) : (spinJit k r x a b).callBlock t spinRunner 0 =
      some (some (BitVec.ofNat t.usizeBits 8192), spinJit k r x a (b + 1)) := by
  have hcount : (8192 : BitVec 64).setWidth t.usizeBits = BitVec.ofNat t.usizeBits 8192 := by
    have hbits : t.usizeBits ≤ 64 := by
      rcases t.usize with h32 | h64 <;> omega
    exact BitVec.setWidth_ofNat_of_le hbits 8192
  have hflags : Flags.fromNzcv 0 = Flags.default := by decide
  have hleave : JitMachine.leaveBlock spinGuest.cpu 0 = spinGuest.cpu :=
    congrArg (fun flags => { spinGuest.cpu with flags := flags }) hflags
  unfold JitMachine.callBlock
  dsimp only
  rw [enterBlock_spin, Target.add_of_wrap hrelease]
  show some (some ((8192 : BitVec 64).setWidth t.usizeBits),
    ({ spinJit k r x a b with jitCalls := b + 1 }).setGuest
      ⟨JitMachine.leaveBlock spinGuest.cpu 0, spinGuest.mem⟩) = _
  rw [hcount, hleave]
  rfl

/-- A pass of the browser loop there is a call. -/
theorem jitPass_spin {t : Target} (hrelease : t.overflowChecks = false) (L : Layout)
    (stopPc : BitVec 64) (count : t.Usize) (k : BitVec 32) (r : ℕ) (x a b : BitVec 64) (e : t.Usize)
    (hgo : limits stopPc count spinGuest.cpu e = none) : ∃ k' r',
      JitMachine.jitPass t spinRunner L noVecUnit stopPc count ⟨spinJit k r x a b, e, none⟩ =
        some (.again ⟨spinJit k' r' (x + 8192) (a + 8192) (b + 1),
          e + BitVec.ofNat t.usizeBits 8192, none⟩) := by
  obtain ⟨k', r', hservice⟩ := serviceAsync_spin hrelease k r x
  have hbill : (spinJit k' r' x a (b + 1)).bill t (BitVec.ofNat t.usizeBits 8192) e =
      some (e + BitVec.ofNat t.usizeBits 8192, spinJit k' r' (x + 8192) (a + 8192) (b + 1)) := by
    have hcount : (BitVec.ofNat t.usizeBits 8192).setWidth 64 = (8192 : BitVec 64) := by
      apply BitVec.eq_of_toNat_eq
      rw [BitVec.toNat_setWidth, Target.toNat_ofNat_usize (by decide)]
      rfl
    unfold JitMachine.bill
    rw [hcount, Target.add_of_wrap hrelease, Target.add_of_wrap hrelease,
      Target.add_of_wrap hrelease]
    rfl
  refine ⟨k', r', ?_⟩
  rw [jitPass_eq, show limits stopPc count (spinJit k r x a b).machine.guest.cpu e = none from hgo]
  dsimp only
  unfold jitTurn JitMachine.jitStep
  rw [show (spinJit k r x a b).machine.serviceAsync t = _ from hservice]
  dsimp only [Option.bind_eq_bind, Option.bind_some]
  rw [show (spinJit k r x a b).setMachine (spinMachine k' r' x) = spinJit k' r' x a b from rfl,
    jitEntry_spin]
  dsimp only [Option.bind_some]
  rw [callBlock_spin hrelease]
  dsimp only [Option.bind_some]
  unfold JitMachine.afterStep
  dsimp only
  rw [hbill]
  rfl

/-- The state of the browser loop there. -/
def SpinsJit (t : Target) (s : JitRunning t Unit BareBoard) : Prop :=
  ∃ k r x a b e, s = ⟨spinJit k r x a b, e, none⟩ ∧ e.toNat % 8192 = 0

theorem SpinsJit.jitPass {t : Target} (hrelease : t.overflowChecks = false) {L : Layout}
    {stopPc : BitVec 64} {count : t.Usize} (hcount : count ≠ 0 ∧ count.toNat ≤ 16384)
    {s s₁ : JitRunning t Unit BareBoard} (hs : SpinsJit t s)
    (h : JitMachine.jitPass t spinRunner L noVecUnit stopPc count s = some (.again s₁)) :
    SpinsJit t s₁ := by
  obtain ⟨k, r, x, a, b, e, rfl, he⟩ := hs
  cases hgo : limits stopPc count spinGuest.cpu e with
  | some reason =>
    rw [jitPass_eq,
      show limits stopPc count (spinJit k r x a b).machine.guest.cpu e = _ from hgo] at h
    cases h
  | none =>
    obtain ⟨k', r', hpass⟩ := jitPass_spin hrelease L stopPc count k r x a b e hgo
    cases hpass.symm.trans h
    refine ⟨k', r', _, _, _, _, rfl, ?_⟩
    have hlt := limits_eq_none_iff hgo hcount.1
    have hbits := t.le_usizeBits
    have hpow : 2 ^ 32 ≤ 2 ^ t.usizeBits := Nat.pow_le_pow_right (by decide) hbits
    have hround : (BitVec.ofNat t.usizeBits 8192).toNat = 8192 :=
      Target.toNat_ofNat_usize (by decide)
    rw [BitVec.toNat_add_of_lt (by omega), hround]
    omega

section Loops

variable {M : Type} {t : Target} [JitMem M] {R : Type} {br : BlockRunner R M} {L : Layout}
  {vu : VecUnit} {halt : CpuState → t.Usize → Option StopReason}

/-! ## The loops -/

/-- The calls stay within the limits: none retires an instruction at `stopPc` but its first,
    or more than the budget leaves, or bails where a limit is reached. -/
structure Within (vu : VecUnit) (stopPc : BitVec 64) (count executed : t.Usize) (g₀ : Guest M)
    (n : ℕ) (g : Guest M) : Prop where
  inside : ∀ i, 0 < i → i < n → ∀ h, steps vu i g₀ = some h → h.cpu.pc ≠ stopPc
  budget : count ≠ 0 → executed.toNat + n ≤ count.toNat
  bail : g.cpu.jitExit ≠ 0 → (count ≠ 0 → executed.toNat + n < count.toNat) ∧
    (0 < n → ∀ h, steps vu n g₀ = some h → h.cpu.pc ≠ stopPc)

theorem pcOnly_limits (stopPc : BitVec 64) (count : t.Usize) : PcOnly (limits stopPc count) := by
  intro cpu cpu' hpc hoff
  funext executed
  unfold limits
  rw [hpc, hoff]

theorem limits_eq_none {stopPc : BitVec 64} {count executed : t.Usize} {cpu : CpuState}
    (hoff : cpu.poweredOff = false) (hpc : cpu.pc ≠ stopPc)
    (hcount : count ≠ 0 → executed.toNat < count.toNat) :
    limits stopPc count cpu executed = none := by
  unfold limits
  rw [hoff, if_neg Bool.false_ne_true, if_neg hpc, if_neg]
  rintro ⟨hne, hle⟩
  exact absurd (hcount hne) (Nat.not_lt_of_le (BitVec.le_def.mp hle))

theorem Within.goesOn {stopPc : BitVec 64} {count executed : t.Usize} {g₀ g : Guest M} {n : ℕ}
    {next : BitVec 64} (hretires : Retires vu g₀ n next g)
    (h : Within vu stopPc count executed g₀ n g) :
    GoesOn vu (limits stopPc count) executed g₀ n g := by
  have hsum {i : ℕ} (hi : i ≤ n) (hlt : count ≠ 0 → executed.toNat + i < count.toNat)
      (hcount : count ≠ 0) :
      (executed + BitVec.ofNat t.usizeBits i).toNat < count.toNat := by
    have hi' : (BitVec.ofNat t.usizeBits i).toNat = i :=
      Target.toNat_ofNat_usize (Nat.lt_of_le_of_lt hi hretires.lt)
    have hbound := hlt hcount
    have hlast := count.isLt
    rw [BitVec.toNat_add_of_lt (by omega), hi']
    exact hbound
  constructor
  · intro i hpos hi g₁ hg₁
    refine limits_eq_none (hretires.awake i hi.le g₁ hg₁).2 (h.inside i hpos hi g₁ hg₁) ?_
    exact hsum hi.le fun hcount => by
      have := h.budget hcount
      omega
  · intro hbail hpos g₁ hg₁
    obtain ⟨hbudget, hpc⟩ := h.bail hbail
    exact limits_eq_none (hretires.awake n le_rfl g₁ hg₁).2 (hpc hpos g₁ hg₁)
      (hsum le_rfl hbudget)

omit [JitMem M] in
theorem Beside.stopped {s' : JitRunning t R M} {s : Running t M} (h : Beside s' s)
    (reason : Option StopReason) : JitRunning.blank { s' with stop := reason } =
      Running.blank { s with stop := reason } :=
  congrArg₂ (fun m e => (⟨m, e, reason⟩ : Running t M)) h.1 h.2

omit [JitMem M] in
theorem limits_of_beside {s' : JitRunning t R M} {s : Running t M} (h : Beside s' s)
    (stopPc : BitVec 64) (count : t.Usize) :
    limits stopPc count s'.machine.machine.guest.cpu s'.executed =
      limits stopPc count s.machine.guest.cpu s.executed := by
  have hguest := Machine.guest_of_blank h.1
  rw [pcOnly_limits stopPc count _ _ (pc_of_blank hguest) (poweredOff_of_blank hguest), h.2]

theorem CallsRetire.mono {ok ok' : Guest M → ℕ → Guest M → Prop} {s : JitRunning t R M}
    (h : CallsRetire br L vu ok s)
    (himp : ∀ g₀ n next g, Retires vu g₀ n next g → ok g₀ n g → ok' g₀ n g) :
    CallsRetire br L vu ok' s := by
  intro m hm handle j hj
  obtain ⟨next, g, host, n, hrun, hretires, hok⟩ := h m hm handle j hj
  exact ⟨next, g, host, n, hrun, hretires, himp _ n next g hretires hok⟩

/-- **The stop contract.** While nothing else happens on the machine and every call of
    compiled code retires instructions within the limits, the browser loop returns where
    `run` does: for the same reason, after as many instructions and with the same machine,
    but for the mailbox and the sampling of the clock. -/
theorem runJitBrowser_stops (hrelease : t.overflowChecks = false) (stopPc : BitVec 64)
    (count : t.Usize) (j : JitMachine R M)
    (hquiet : Always (Machine.runPass t vu stopPc count) (fun s => Quiet t s.machine)
      (j.machine.start t))
    (hcalls : Always (JitMachine.jitPass t br L vu stopPc count)
      (fun s => limits stopPc count s.machine.machine.guest.cpu s.executed = none →
        CallsRetire br L vu (Within vu stopPc count s.executed) s) (j.start t))
    {fuel : ℕ} {s : Running t M} (hrun : j.machine.run t vu stopPc count fuel = .done s) :
    ∃ s', j.runJitBrowser t br L vu stopPc count fuel = .done s' ∧ s'.blank = s.blank := by
  rw [runPass_eq] at hquiet
  unfold Machine.run at hrun
  rw [runPass_eq] at hrun
  let R₀ (s' : JitRunning t R M) (s : Running t M) : Prop := Beside s' s ∧
    Always (checkedPass t vu (limits stopPc count)) (fun s => Quiet t s.machine) s ∧
    Always (JitMachine.jitPass t br L vu stopPc count)
      (fun s => limits stopPc count s.machine.machine.guest.cpu s.executed = none →
        CallsRetire br L vu (Within vu stopPc count s.executed) s) s'
  have hjump : ∀ s' s fuel s₁, R₀ s' s →
      Loops.run (checkedPass t vu (limits stopPc count)) fuel s = .done s₁ →
      Jump (checkedPass t vu (limits stopPc count)) (JitMachine.jitPass t br L vu stopPc count) R₀
        (fun s' s => s'.blank = s.blank) s' s := by
    rintro s' s fuel s₁ ⟨hbeside, hq, hc⟩ hdone
    have hchecks := limits_of_beside hbeside stopPc count
    cases hhalt : limits stopPc count s.machine.guest.cpu s.executed with
    | some reason =>
      refine ⟨0, s, .refl s, .inl ⟨{ s' with stop := some reason }, { s with stop := some reason },
        ?_, ?_, hbeside.stopped (some reason)⟩⟩
      · rw [jitPass_eq, hchecks, hhalt]
      · unfold checkedPass
        rw [hhalt]
    | none =>
      have hpass : JitMachine.jitPass t br L vu stopPc count s' = jitTurn br L vu s' := by
        rw [jitPass_eq, hchecks, hhalt]
      obtain ⟨k, s₂, -, hvisits, ⟨hpos, s'', hagain, hbeside'⟩ | ⟨-, hmap⟩⟩ :=
        jitTurn_visits hrelease (pcOnly_limits stopPc count) (2 ^ 32) hbeside hq hhalt
          ((hc.here (hchecks.trans hhalt)).mono fun g₀ n next g hretires hwithin =>
            ⟨hretires.lt.le, hwithin.goesOn hretires⟩)
      · rw [← hpass] at hagain
        exact ⟨k, s₂, hvisits, .inr ⟨s'', hagain, hpos, hbeside', hvisits.always hq,
          hc.next hagain⟩⟩
      · obtain ⟨p, hp⟩ := pass_of_visits hvisits hdone
        rw [← hpass, hp] at hmap
        obtain ⟨q, hjit, heq⟩ := Option.map_eq_some_iff.mp hmap
        cases p with
        | leave s₃ =>
          cases q with
          | leave s'' =>
            exact ⟨k, s₂, hvisits, .inl ⟨s'', s₃, hjit, hp, Pass.leave.inj heq⟩⟩
          | again s'' => cases heq
        | again s₃ =>
          cases q with
          | leave s'' => cases heq
          | again s'' =>
            have hlast := hvisits.snoc hp
            exact ⟨k + 1, s₃, hlast, .inr ⟨s'', hjit, k.succ_pos,
              .of_blank (Pass.again.inj heq), hlast.always hq, hc.next hjit⟩⟩
  exact run_jumps hjump ⟨⟨rfl, rfl⟩, hquiet, hcalls⟩ hrun

/-- Twice through a region of one `b .`, and the budget is used up. -/
theorem runJitBrowser_stops_spin : ∃ s s',
    (spinMachine 0 0 0).run .release64 noVecUnit 0x2000 16384 16384 = .done s ∧
    (spinJit 0 0 0 0 0).runJitBrowser .release64 spinRunner layoutAt0 noVecUnit 0x2000 16384
      16384 = .done s' ∧ s'.blank = s.blank := by
  have hquiet : Always (Machine.runPass .release64 noVecUnit 0x2000 16384)
      (fun s => Quiet .release64 s.machine) ((spinMachine 0 0 0).start .release64) := by
    rw [runPass_eq]
    exact always_quiet_spin rfl _ ⟨0, 0, 0, 0, rfl⟩
  have hdone : ∃ s, (spinMachine 0 0 0).run .release64 noVecUnit 0x2000 16384 16384 = .done s ∧
      True := by
    unfold Machine.run
    rw [runPass_eq]
    refine exists_run_eq_done (P := Spins) (fun s => 16384 - s.executed.toNat) ?_
      (Always.of_inv Spins (fun _ h => h) (fun s s₁ hs h => (checkedPass_spin rfl hs h).1)
        ⟨0, 0, 0, 0, rfl⟩) (Nat.sub_le _ _)
    intro s hs
    obtain ⟨k, r, x, e, rfl⟩ := hs.here
    cases hgo : limits (t := .release64) 0x2000 16384 spinGuest.cpu e with
    | some reason =>
      refine .inl ⟨⟨spinMachine k r x, e, some reason⟩, ?_, trivial⟩
      unfold checkedPass
      rw [show limits 0x2000 16384 (spinMachine k r x).guest.cpu e = _ from hgo]
    | none =>
      obtain ⟨k', r', hpass⟩ := checkedPass_of_step (t := .release64) rfl
        (s := ⟨spinMachine k r x, e, none⟩) hgo (quiet_spin rfl k r x) step_spin rfl
      refine .inr ⟨_, hpass, ?_⟩
      have hlt : e.toNat < 16384 := limits_eq_none_iff hgo (by decide)
      show 16384 - (e + 1).toNat < 16384 - e.toNat
      rw [BitVec.toNat_add_of_lt (by change e.toNat + 1 < 2 ^ 64; omega)]
      change 16384 - (e.toNat + 1) < _
      omega
  obtain ⟨s, hrun, -⟩ := hdone
  have hcalls : Always (JitMachine.jitPass .release64 spinRunner layoutAt0 noVecUnit 0x2000 16384)
      (fun s => limits 0x2000 16384 s.machine.machine.guest.cpu s.executed = none →
        CallsRetire spinRunner layoutAt0 noVecUnit (Within noVecUnit 0x2000 16384 s.executed) s)
      ((spinJit 0 0 0 0 0).start .release64) := by
    refine Always.of_inv (SpinsJit .release64) ?_ (fun s s₁ hs h =>
      hs.jitPass rfl (by decide) h) ⟨0, 0, 0, 0, 0, 0, rfl, rfl⟩
    rintro s ⟨k, r, x, a, b, e, rfl, he⟩ hgo
    have hlt : e.toNat < 16384 := limits_eq_none_iff hgo (by decide)
    refine callsRetire_spin rfl layoutAt0 ⟨k, r, x, a, b, rfl⟩ ⟨?_, ?_, ?_⟩
    · intro i _ _ h hh
      cases (steps_spin i).symm.trans hh
      decide
    · intro _
      change e.toNat + 8192 ≤ 16384
      omega
    · exact fun hbail => absurd rfl hbail
  obtain ⟨s', hjit, hblank⟩ := runJitBrowser_stops (t := .release64) rfl 0x2000 16384
    (spinJit 0 0 0 0 0) hquiet hcalls hrun
  exact ⟨s, s', hrun, hjit, hblank⟩

/-! ## Past the budget -/

omit [JitMem M] in
theorem executed_sleepPass [GicMem M] {m : Machine M} {executed : t.Usize}
    {p : Pass (Running t M)} (h : m.sleepPass t executed = some p) :
    (Machine.passState p).executed = executed := by
  unfold Machine.sleepPass at h
  dsimp only at h
  split_ifs at h
  · cases h
    rfl
  · obtain ⟨⟨idle, m'⟩, -, h⟩ := Option.bind_eq_some_iff.mp h
    cases idle <;>
    · cases h
      rfl
  · cases h
    rfl

omit [JitMem M] in
theorem executed_endPass [GicMem M] (hrelease : t.overflowChecks = false) {m : Machine M}
    {executed : t.Usize} {p : Pass (Running t M)} (h : m.endPass t executed = some p) :
    (Machine.passState p).executed = executed + 1 := by
  rw [Machine.endPass_eq, Target.add_of_wrap hrelease, Target.add_of_wrap hrelease] at h
  exact executed_sleepPass h

/-- A pass that no limit stops counts its instruction, if the interpreter has it. -/
theorem executed_checkedPass (hrelease : t.overflowChecks = false) {s : Running t M}
    {p : Pass (Running t M)} (hgo : halt s.machine.guest.cpu s.executed = none)
    (h : checkedPass t vu halt s = some p) :
    (Machine.passState p).executed = s.executed + 1 ∨
      ∃ s₁, p = .leave s₁ ∧ s₁.executed = s.executed := by
  unfold checkedPass at h
  rw [hgo] at h
  obtain ⟨m, -, h⟩ := Option.bind_eq_some_iff.mp h
  obtain ⟨⟨step, m'⟩, -, h⟩ := Option.bind_eq_some_iff.mp h
  cases step with
  | next pc => exact .inl (executed_endPass hrelease h)
  | unsupported pc word =>
    dsimp only at h
    split_ifs at h
    · exact .inl (executed_endPass hrelease h)
    · cases h
      exact .inr ⟨_, rfl, rfl⟩

theorem executed_again (hrelease : t.overflowChecks = false) {s s₁ : Running t M}
    (h : checkedPass t vu halt s = some (.again s₁)) : s₁.executed = s.executed + 1 := by
  cases hgo : halt s.machine.guest.cpu s.executed with
  | none =>
    obtain hcount | ⟨s₂, heq, -⟩ := executed_checkedPass hrelease hgo h
    · exact hcount
    · cases heq
  | some reason =>
    unfold checkedPass at h
    rw [hgo] at h
    cases h

/-- Every pass of `run` that goes on counts one instruction. -/
theorem executed_visits (hrelease : t.overflowChecks = false) {n : ℕ} {s s₁ : Running t M}
    (h : Visits (checkedPass t vu halt) n s s₁) :
    s₁.executed = s.executed + BitVec.ofNat t.usizeBits n := by
  induction h with
  | refl s => rw [BitVec.add_zero]
  | again hp _ ih =>
    rw [ih, executed_again hrelease hp, BitVec.add_assoc, Nat.add_comm _ 1,
      BitVec.ofNat_add]
    rfl

/-- No checks. -/
def unlimited (_ : CpuState) (_ : t.Usize) : Option StopReason := none

/-- `run` without its checks is at `s` after `n` instructions, at most `bound`. -/
def Retired (vu : VecUnit) (m : Machine M) (bound n : ℕ) (s : Running t M) : Prop :=
  Visits (checkedPass t vu unlimited) n (m.start t) s ∧ n ≤ bound ∧ s.executed.toNat = n

theorem Retired.of_visits (hrelease : t.overflowChecks = false) {m : Machine M} {bound n : ℕ}
    (hbound : bound < 2 ^ t.usizeBits) {s : Running t M}
    (h : Visits (checkedPass t vu unlimited) n (m.start t) s) (hn : n ≤ bound) :
    Retired vu m bound n s := by
  refine ⟨h, hn, ?_⟩
  have hstart : (m.start t).executed + BitVec.ofNat t.usizeBits n = BitVec.ofNat t.usizeBits n :=
    BitVec.zero_add _
  rw [executed_visits hrelease h, hstart, BitVec.toNat_ofNat, Nat.mod_eq_of_lt (by omega)]

/-- The pass that leaves `run` without its checks counts at most one instruction more. -/
theorem Retired.executed_leave (hrelease : t.overflowChecks = false) {m : Machine M}
    {bound n : ℕ} {s s₁ : Running t M} (h : Retired vu m bound n s)
    (hleave : checkedPass t vu unlimited s = some (.leave s₁)) :
    s₁.executed.toNat ≤ n + 1 := by
  obtain hcount | ⟨s₂, heq, hsame⟩ := executed_checkedPass hrelease rfl hleave
  · have hsum : s₁.executed.toNat = (s.executed.toNat + (1#t.usizeBits).toNat) % 2 ^ t.usizeBits :=
      (congrArg BitVec.toNat hcount).trans (BitVec.toNat_add _ _)
    have hone : (1#t.usizeBits).toNat ≤ 1 := by
      rw [BitVec.toNat_ofNat]
      exact Nat.mod_le _ _
    rw [hsum, h.2.2]
    exact (Nat.mod_le _ _).trans (Nat.add_le_add_left hone n)
  · cases heq
    rw [hsame, h.2.2]
    exact Nat.le_succ n

/-- **Past the budget.** While nothing else happens on the machine, and whatever the calls of
    compiled code do beyond retiring at most `most` instructions each: the browser loop
    returns with at most `most` instructions more than its budget, in a state that the
    interpreter reaches without looking at the limits. Either a limit holds there, after as
    many instructions as the loop reports, or the last instruction leaves the interpreter's
    loop as well. -/
theorem runJitBrowser_overruns (hrelease : t.overflowChecks = false) (stopPc : BitVec 64)
    {count : t.Usize} (hcount : count ≠ 0) {most : ℕ}
    (hfits : count.toNat + most < 2 ^ t.usizeBits) (j : JitMachine R M)
    (hquiet : Always (checkedPass t vu unlimited) (fun s => Quiet t s.machine)
      (j.machine.start t))
    (hcalls : Always (JitMachine.jitPass t br L vu stopPc count)
      (fun s => limits stopPc count s.machine.machine.guest.cpu s.executed = none →
        CallsRetire br L vu (fun _ n _ => n ≤ most) s) (j.start t))
    {fuel : ℕ} {s' : JitRunning t R M}
    (hrun : j.runJitBrowser t br L vu stopPc count fuel = .done s') :
    ∃ n s, Retired vu j.machine (count.toNat + most) n s ∧
      ((∃ reason, limits stopPc count s.machine.guest.cpu s.executed = some reason ∧
          s'.blank = Running.blank { s with stop := some reason }) ∨
        n < count.toNat + most ∧
          ∃ s₁, checkedPass t vu unlimited s = some (.leave s₁) ∧ s'.blank = s₁.blank) ∧
      s'.executed.toNat ≤ count.toNat + most := by
  obtain ⟨n', -, s₀', hvisits', hleave⟩ := run_eq_done_iff.mp hrun
  let R₀ (s' : JitRunning t R M) (s : Running t M) : Prop := Beside s' s ∧
    Always (checkedPass t vu unlimited) (fun s => Quiet t s.machine) s ∧
    Always (JitMachine.jitPass t br L vu stopPc count)
      (fun s => limits stopPc count s.machine.machine.guest.cpu s.executed = none →
        CallsRetire br L vu (fun _ n _ => n ≤ most) s) s' ∧
    ∃ n, Retired vu j.machine (count.toNat + most) n s
  have hunlimited : PcOnly (unlimited (t := t)) := fun _ _ _ _ => rfl
  -- a pass that no limit stops, from states that stand for each other
  have hturn : ∀ s' s, R₀ s' s →
      limits stopPc count s'.machine.machine.guest.cpu s'.executed = none →
      ∃ n k s₁, n < count.toNat ∧ k ≤ most ∧ Visits (checkedPass t vu unlimited) k s s₁ ∧
        Visits (checkedPass t vu unlimited) (n + k) (j.machine.start t) s₁ ∧
        ((0 < k ∧ ∃ s'', jitTurn br L vu s' = some (.again s'') ∧ Beside s'' s₁) ∨
          (jitTurn br L vu s').map (Pass.map JitRunning.blank) =
            (checkedPass t vu unlimited s₁).map (Pass.map Running.blank)) := by
    rintro s' s ⟨hbeside, hq, hc, n, hvisits, hn, hexecuted⟩ hgo
    have hlt := limits_eq_none_iff hgo hcount
    rw [hbeside.2, hexecuted] at hlt
    obtain ⟨k, s₁, hk, hvisits₁, hcase⟩ := jitTurn_visits hrelease hunlimited most
      hbeside hq rfl ((hc.here hgo).mono fun g₀ n next g _ hmost =>
        ⟨hmost, ⟨fun _ _ _ _ _ => rfl, fun _ _ _ _ => rfl⟩⟩)
    exact ⟨n, k, s₁, hlt, hk, hvisits₁, hvisits.trans hvisits₁, hcase.imp_right And.right⟩
  have hpass (s' : JitRunning t R M)
      (hgo : limits stopPc count s'.machine.machine.guest.cpu s'.executed = none) :
      JitMachine.jitPass t br L vu stopPc count s' = jitTurn br L vu s' := by
    rw [jitPass_eq, hgo]
  have hagain : ∀ s' s s'', R₀ s' s →
      JitMachine.jitPass t br L vu stopPc count s' = some (.again s'') →
      ∃ k s₁, Visits (checkedPass t vu unlimited) k s s₁ ∧ 0 < k ∧ R₀ s'' s₁ := by
    intro s' s s'' hR hjit
    have hgo : limits stopPc count s'.machine.machine.guest.cpu s'.executed = none := by
      cases hlimit : limits stopPc count s'.machine.machine.guest.cpu s'.executed with
      | none => rfl
      | some reason =>
        rw [jitPass_eq, hlimit] at hjit
        cases hjit
    obtain ⟨n, k, s₁, hn, hk, hvisits, hall, hcase⟩ := hturn s' s hR hgo
    have hnext := hR.2.2.1.next hjit
    rw [hpass s' hgo] at hjit
    obtain ⟨hpos, s₂', hagain, hbeside⟩ | hmap := hcase
    · rw [hagain] at hjit
      cases hjit
      exact ⟨k, s₁, hvisits, hpos, hbeside, hvisits.always hR.2.1, hnext, n + k,
        .of_visits hrelease hfits hall (by omega)⟩
    · rw [hjit] at hmap
      obtain ⟨p, hp, heq⟩ := Option.map_eq_some_iff.mp hmap.symm
      cases p with
      | leave s₂ => cases heq
      | again s₂ =>
        have hlast := hvisits.snoc hp
        exact ⟨k + 1, s₂, hlast, k.succ_pos, .of_blank (Pass.again.inj heq).symm,
          hlast.always hR.2.1, hnext, n + k + 1,
          .of_visits hrelease hfits (hall.snoc hp) (by omega)⟩
  obtain ⟨-, s, -, -, hR⟩ := visits_jumps hagain
    ⟨⟨rfl, rfl⟩, hquiet, hcalls, 0, .of_visits hrelease hfits (.refl _) (Nat.zero_le _)⟩ hvisits'
  have hchecks := limits_of_beside hR.1 stopPc count
  cases hlimit : limits stopPc count s.machine.guest.cpu s.executed with
  | some reason =>
    rw [jitPass_eq, hchecks, hlimit] at hleave
    cases hleave
    obtain ⟨n, hretired⟩ := hR.2.2.2
    refine ⟨n, s, hretired, .inl ⟨reason, hlimit, hR.1.stopped (some reason)⟩, ?_⟩
    show s₀'.executed.toNat ≤ _
    rw [hR.1.2, hretired.2.2]
    exact hretired.2.1
  | none =>
    obtain ⟨n, k, s₁, hn, hk, -, hall, hcase⟩ := hturn s₀' s hR (hchecks.trans hlimit)
    rw [hpass s₀' (hchecks.trans hlimit)] at hleave
    obtain ⟨-, s₂', hagain, -⟩ | hmap := hcase
    · rw [hagain] at hleave
      cases hleave
    · rw [hleave] at hmap
      obtain ⟨p, hp, heq⟩ := Option.map_eq_some_iff.mp hmap.symm
      cases p with
      | again s₂ => cases heq
      | leave s₂ =>
        have hblank : s'.blank = s₂.blank := (Pass.leave.inj heq).symm
        have hretired : Retired vu j.machine (count.toNat + most) (n + k) s₁ :=
          .of_visits hrelease hfits hall (by omega)
        have hlast := hretired.executed_leave hrelease hp
        refine ⟨n + k, s₁, hretired, .inr ⟨by omega, s₂, hp, hblank⟩, ?_⟩
        rw [show s'.executed = s₂.executed from congrArg Running.executed hblank]
        omega

/-- Asked for 10000 instructions the same machine stops after 16384. -/
theorem runJitBrowser_overruns_spin : ∃ s' n s,
    (spinJit 0 0 0 0 0).runJitBrowser .release64 spinRunner layoutAt0 noVecUnit 0x2000 10000 2 =
      .done s' ∧ s'.executed = 16384 ∧
    Retired noVecUnit (spinMachine 0 0 0) (10000 + 8192) n s ∧
      ((∃ reason, limits 0x2000 10000 s.machine.guest.cpu s.executed = some reason ∧
          s'.blank = Running.blank { s with stop := some reason }) ∨
        n < 10000 + 8192 ∧ ∃ s₁, checkedPass .release64 noVecUnit unlimited s = some (.leave s₁) ∧
          s'.blank = s₁.blank) ∧ s'.executed.toNat ≤ 10000 + 8192 := by
  obtain ⟨k, r, hfirst⟩ := jitPass_spin (t := .release64) rfl layoutAt0 0x2000 10000
    0 0 0 0 0 0 (by decide)
  obtain ⟨k', r', hsecond⟩ := jitPass_spin (t := .release64) rfl layoutAt0 0x2000 10000
    k r 8192 8192 1 8192 (by decide)
  have hlast : limits (t := .release64) 0x2000 10000 spinGuest.cpu 16384 = some .countReached := by
    decide
  have hrun : (spinJit 0 0 0 0 0).runJitBrowser .release64 spinRunner layoutAt0 noVecUnit 0x2000
      10000 2 = .done ⟨spinJit k' r' 16384 16384 2, 16384, some .countReached⟩ := by
    refine run_eq_done_iff.mpr ⟨2, le_rfl, ⟨spinJit k' r' 16384 16384 2, 16384, none⟩,
      .again hfirst (.again hsecond (.refl _)), ?_⟩
    rw [jitPass_eq, show limits (t := .release64) 0x2000 10000
      (spinJit k' r' 16384 16384 2).machine.guest.cpu 16384 = _ from hlast]
  have hcalls : Always (JitMachine.jitPass .release64 spinRunner layoutAt0 noVecUnit 0x2000 10000)
      (fun s => limits 0x2000 10000 s.machine.machine.guest.cpu s.executed = none →
        CallsRetire spinRunner layoutAt0 noVecUnit (fun _ n _ => n ≤ 8192) s)
      ((spinJit 0 0 0 0 0).start .release64) := by
    refine Always.of_inv (SpinsJit .release64) ?_ (fun s s₁ hs h =>
      hs.jitPass rfl (by decide) h) ⟨0, 0, 0, 0, 0, 0, rfl, rfl⟩
    rintro s ⟨k, r, x, a, b, e, rfl, -⟩ -
    exact callsRetire_spin rfl layoutAt0 ⟨k, r, x, a, b, rfl⟩ le_rfl
  obtain ⟨n, s, hretired, hstop⟩ := runJitBrowser_overruns (t := .release64) rfl 0x2000
    (by decide) (by decide) (spinJit 0 0 0 0 0)
    (always_quiet_spin rfl unlimited ⟨0, 0, 0, 0, rfl⟩) hcalls hrun
  exact ⟨_, n, s, hrun, rfl, hretired, hstop⟩

end Loops

end V64.Platform
