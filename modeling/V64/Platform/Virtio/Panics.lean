import V64.Platform.Virtio.BlkFits
import V64.Platform.Virtio.GpuFits
import V64.Platform.Virtio.Notify

/-!
# Runs of a device without a panic

A device sees register writes of the guest, events of the host, and polls, each with a
memory of its own. A build with overflow checks panics where a remainder is by zero, an
address or a length overflows, or an index is out of bounds.

* `VirtioDevice.process_ne_panic_iff`: one poll.
* `VirtioDevice.neverPanics_iff`: a whole run.
* `VirtioDevice.not_neverPanics`: a `QueueNum` that narrows to zero panics in every build.
-/

namespace V64.Platform

open Checked Loops V64.Interp

variable {M : Type} [GuestMem M]

/-! ## One poll -/

section Poll

variable {t : Target}

/-- A poll of the entropy device fits. -/
def Rng.PollFits (t : Target) (d : Rng) (mem : M) : Prop :=
  d.notified = true → Always (drainPass t.wrapping (fill t.wrapping))
    (PassFits t (fill t.wrapping) FillFits) (d.draining mem)

/-- A poll of the input device fits: the chains of the status queue, and then those that
    take events. -/
def Input.PollFits (t : Target) (d : Input) (mem : M) : Prop :=
  ¬(d.notified = false ∧ d.pending = []) →
    Always (drainPass t.wrapping drop) (PassFits t drop fun _ _ _ => True) (d.draining mem) ∧
      ∀ fuel s, run (drainPass t.wrapping drop) fuel (d.draining mem) = .done s →
        DeliverFits t d.pending { s with q := d.queues queue0 }

/-- A poll of the display device fits: the chains of the control queue, and then those of
    the cursor queue. -/
def Gpu.PollFits (t : Target) (d : Gpu) (mem : M) : Prop :=
  d.notified = true →
    Always (drainPass t.wrapping (Display.serveControl t.wrapping))
      (PassFits t (Display.serveControl t.wrapping) (Display.ControlFits t)) (d.draining mem) ∧
      ∀ fuel s, run (drainPass t.wrapping (Display.serveControl t.wrapping)) fuel
          (d.draining mem) = .done s →
        Always (drainPass t.wrapping Display.serveCursor)
          (PassFits t Display.serveCursor fun _ _ _ => True) { s with q := d.queues queue1 }

variable (ht : t.overflowChecks = true)

include ht

/-- Draining a queue whose chains fit is draining it without overflow checks. -/
theorem run_drainPass_eq {τ : Type} {serve serveWrapping : Serve τ M}
    {Fits : τ → M → List Seg → Prop} (h : Fitting serve serveWrapping Fits) {s : Draining τ M}
    (hs : Always (drainPass t.wrapping serveWrapping) (PassFits t serveWrapping Fits) s)
    (fuel : ℕ) :
    run (drainPass t serve) fuel s = run (drainPass t.wrapping serveWrapping) fuel s :=
  run_checked_eq (drainPass_checked h ht) hs fuel

theorem Rng.process_ne_panic_iff {d : Rng} {mem : M} :
    (∀ fuel, d.process t fuel mem ≠ .panic) ↔ d.PollFits t mem := by
  unfold process PollFits
  split_ifs with hquiet
  · exact ⟨fun _ h => (nomatch hquiet.symm.trans h), fun _ _ => nofun⟩
  · rw [Bool.not_eq_false] at hquiet
    refine Iff.trans (forall_congr' fun _ => Outcome.bind_done_ne_panic_iff) ?_
    rw [run_drainPass_ne_panic_iff (fitting_fill ht) ht]
    exact ⟨fun h _ => h, fun h => h hquiet⟩

theorem Rng.process_wrapping {d : Rng} {mem : M} (h : d.PollFits t mem) (fuel : ℕ) :
    d.process t fuel mem = d.process t.wrapping fuel mem := by
  unfold process
  split_ifs with hquiet
  · rfl
  · rw [Bool.not_eq_false] at hquiet
    rw [run_drainPass_eq ht (fitting_fill ht) (h hquiet) fuel]

theorem Input.process_ne_panic_iff {d : Input} {mem : M} :
    (∀ fuel, d.process t fuel mem ≠ .panic) ↔ d.PollFits t mem := by
  have hdrop := fitting_drop (M := M)
  unfold process PollFits
  split_ifs with hquiet
  · exact ⟨fun _ h => absurd hquiet h, fun _ _ => nofun⟩
  · refine (run_bind_ne_panic_iff (f := fun _ (s : Draining Unit M) =>
      (Outcome.ofOption (deliver t d.pending { s with q := d.queues queue0 })).bind fun s' =>
        .done (d.processed s s', s'.2.mem)) fun _ _ h => h).trans ?_
    rw [run_drainPass_ne_panic_iff hdrop ht]
    have hnext : ∀ s : Draining Unit M, (∀ _ : ℕ,
        (Outcome.ofOption (deliver t d.pending { s with q := d.queues queue0 })).bind
          (fun s' => Outcome.done (d.processed s s', s'.2.mem)) ≠ .panic) ↔
        DeliverFits t d.pending { s with q := d.queues queue0 } := by
      intro s
      rw [forall_const, Outcome.bind_done_ne_panic_iff, ne_eq, Outcome.ofOption_eq_panic_iff]
      exact deliver_ne_none_iff ht
    simp only [hnext]
    constructor
    · rintro ⟨hstatus, hevents⟩ -
      exact ⟨hstatus, fun fuel s hs =>
        hevents fuel s ((run_drainPass_eq ht hdrop hstatus fuel).trans hs)⟩
    · intro h
      obtain ⟨hstatus, hevents⟩ := h hquiet
      exact ⟨hstatus, fun fuel s hs =>
        hevents fuel s ((run_drainPass_eq ht hdrop hstatus fuel).symm.trans hs)⟩

theorem Input.process_wrapping {d : Input} {mem : M} (h : d.PollFits t mem) (fuel : ℕ) :
    d.process t fuel mem = d.process t.wrapping fuel mem := by
  have hdrop := fitting_drop (M := M)
  unfold process
  split_ifs with hquiet
  · rfl
  · obtain ⟨hstatus, hevents⟩ := h hquiet
    rw [run_drainPass_eq ht hdrop hstatus fuel]
    cases hs : run (drainPass t.wrapping drop) fuel (d.draining mem) with
    | panic => rfl
    | running => rfl
    | done s =>
      have hdeliver : deliver t d.pending { s with q := d.queues queue0 } =
          deliver t.wrapping d.pending { s with q := d.queues queue0 } := by
        ext r
        rw [deliver_checked ht]
        exact and_iff_right (hevents fuel s hs)
      dsimp only [Outcome.bind]
      rw [hdeliver]

theorem Gpu.process_ne_panic_iff {d : Gpu} {mem : M} :
    (∀ fuel, d.process t fuel mem ≠ .panic) ↔ d.PollFits t mem := by
  have hcontrol := Display.fitting_serveControl (M := M) ht
  have hcursor := Display.fitting_serveCursor (M := M)
  unfold process PollFits
  split_ifs with hquiet
  · exact ⟨fun _ h => (nomatch hquiet.symm.trans h), fun _ _ => nofun⟩
  · rw [Bool.not_eq_false] at hquiet
    have hmono : ∀ {n m : ℕ}, n ≤ m → ∀ {s : Draining Display M},
        ((run (drainPass t Display.serveCursor) n { s with q := d.queues queue1 }).bind fun s' =>
          Outcome.done (d.processed s s', s'.mem)) = .panic →
        ((run (drainPass t Display.serveCursor) m { s with q := d.queues queue1 }).bind fun s' =>
          Outcome.done (d.processed s s', s'.mem)) = .panic := by
      intro n m hnm s hpanic
      rw [Outcome.bind_eq_panic_iff, or_iff_left fun ⟨_, _, h⟩ => nomatch h] at hpanic
      exact Outcome.bind_eq_panic_iff.mpr (.inl (run_eq_panic_mono hnm hpanic))
    refine (run_bind_ne_panic_iff hmono).trans ?_
    rw [run_drainPass_ne_panic_iff hcontrol ht]
    have hnext : ∀ s : Draining Display M, (∀ fuel,
        (run (drainPass t Display.serveCursor) fuel { s with q := d.queues queue1 }).bind
          (fun s' => Outcome.done (d.processed s s', s'.mem)) ≠ .panic) ↔
        Always (drainPass t.wrapping Display.serveCursor)
          (PassFits t Display.serveCursor fun _ _ _ => True) { s with q := d.queues queue1 } := by
      intro s
      refine Iff.trans (forall_congr' fun _ => Outcome.bind_done_ne_panic_iff) ?_
      exact run_drainPass_ne_panic_iff hcursor ht
    simp only [hnext]
    constructor
    · rintro ⟨h1, h2⟩ -
      exact ⟨h1, fun fuel s hs => h2 fuel s ((run_drainPass_eq ht hcontrol h1 fuel).trans hs)⟩
    · intro h
      obtain ⟨h1, h2⟩ := h hquiet
      exact ⟨h1, fun fuel s hs => h2 fuel s ((run_drainPass_eq ht hcontrol h1 fuel).symm.trans hs)⟩

theorem Gpu.process_wrapping {d : Gpu} {mem : M} (h : d.PollFits t mem) (fuel : ℕ) :
    d.process t fuel mem = d.process t.wrapping fuel mem := by
  unfold process
  split_ifs with hquiet
  · rfl
  · rw [Bool.not_eq_false] at hquiet
    obtain ⟨hcontrol, hcursor⟩ := h hquiet
    rw [run_drainPass_eq ht (Display.fitting_serveControl ht) hcontrol fuel]
    cases hs :
        run (drainPass t.wrapping (Display.serveControl t.wrapping)) fuel (d.draining mem) with
    | panic => rfl
    | running => rfl
    | done s =>
      dsimp only [Outcome.bind]
      rw [run_drainPass_eq ht Display.fitting_serveCursor (hcursor fuel s hs) fuel]

end Poll

/-! ## Runs -/

/-- A virtio device. -/
inductive VirtioDevice where
  | blk (d : Blk)
  | puller (d : Puller)

/-- What a device sees: a register write of the guest, an event of the host (`key` and
    `motion` push several), and a poll with the memory `mem`. -/
inductive DeviceEvent (M : Type) where
  | write (offset val : BitVec 64)
  | push (ty code : BitVec 16) (value : BitVec 32)
  | poll (mem : M)

namespace VirtioDevice

/-- A register write. -/
def write (d : VirtioDevice) (offset val : BitVec 64) : VirtioDevice :=
  match d with
  | blk d => blk (d.write offset val)
  | puller (.gpu d) => puller (.gpu (d.write offset val))
  | puller (.rng d) => puller (.rng (d.write offset val))
  | puller (.input d) => puller (.input (d.write offset val))

/-- An event of the host, which only an input device takes. -/
def push (d : VirtioDevice) (ty code : BitVec 16) (value : BitVec 32) : VirtioDevice :=
  match d with
  | puller (.input d) => puller (.input (d.push ty code value))
  | d => d

/-- The `process` of the device, for at most `fuel` chains of a queue that is drained
    with `Virtq::pop`. -/
def process (t : Target) (fuel : ℕ) (d : VirtioDevice) (mem : M) : Outcome (VirtioDevice × M) :=
  match d with
  | blk d => (Outcome.ofOption (d.process t mem)).map fun r => (blk r.1, r.2)
  | puller d => (d.process t fuel mem).map fun r => (puller r.1, r.2)

/-- No poll of the run panics. A poll that does not return ends the run. -/
def NeverPanics (t : Target) : List (DeviceEvent M) → VirtioDevice → Prop
  | [], _ => True
  | .write offset val :: evs, d => NeverPanics t evs (d.write offset val)
  | .push ty code value :: evs, d => NeverPanics t evs (d.push ty code value)
  | .poll mem :: evs, d => ∀ fuel, d.process t fuel mem ≠ .panic ∧
      ∀ d' mem', d.process t fuel mem = .done (d', mem') → NeverPanics t evs d'

/-- A poll fits. -/
def PollFits (t : Target) (mem : M) : VirtioDevice → Prop
  | blk d => d.ProcessFits t mem
  | puller (.gpu d) => d.PollFits t mem
  | puller (.rng d) => d.PollFits t mem
  | puller (.input d) => d.PollFits t mem

/-- Every poll of the run fits. -/
def Fits (t : Target) : List (DeviceEvent M) → VirtioDevice → Prop
  | [], _ => True
  | .write offset val :: evs, d => Fits t evs (d.write offset val)
  | .push ty code value :: evs, d => Fits t evs (d.push ty code value)
  | .poll mem :: evs, d => d.PollFits t mem ∧ ∀ fuel d' mem',
      d.process t.wrapping fuel mem = .done (d', mem') → Fits t evs d'

section Checked

variable {t : Target} (ht : t.overflowChecks = true)

include ht

theorem process_ne_panic_iff {d : VirtioDevice} {mem : M} :
    (∀ fuel, d.process t fuel mem ≠ .panic) ↔ d.PollFits t mem := by
  unfold process PollFits Puller.process Outcome.map
  cases d with
  | blk d =>
    simp only [Outcome.bind_done_ne_panic_iff, forall_const, ne_eq, Outcome.ofOption_eq_panic_iff]
    exact Blk.process_ne_none_iff ht
  | puller d =>
    simp only [Outcome.bind_done_ne_panic_iff]
    cases d with
    | gpu d =>
      simp only [Outcome.bind_done_ne_panic_iff]
      exact Gpu.process_ne_panic_iff ht
    | rng d =>
      simp only [Outcome.bind_done_ne_panic_iff]
      exact Rng.process_ne_panic_iff ht
    | input d =>
      simp only [Outcome.bind_done_ne_panic_iff]
      exact Input.process_ne_panic_iff ht

theorem process_puller_wrapping {d : Puller} {mem : M} (h : (puller d).PollFits t mem)
    (fuel : ℕ) : d.process t fuel mem = d.process t.wrapping fuel mem := by
  unfold Puller.process
  cases d with
  | gpu d =>
    dsimp only
    rw [Gpu.process_wrapping ht h fuel]
  | rng d =>
    dsimp only
    rw [Rng.process_wrapping ht h fuel]
  | input d =>
    dsimp only
    rw [Input.process_wrapping ht h fuel]

theorem process_wrapping {d : VirtioDevice} {mem : M} (h : d.PollFits t mem) (fuel : ℕ) :
    d.process t fuel mem = d.process t.wrapping fuel mem := by
  unfold process
  cases d with
  | blk d =>
    have heq : d.process t mem = d.process t.wrapping mem := by
      ext r
      rw [Blk.process_checked ht]
      exact and_iff_right h
    dsimp only
    rw [heq]
  | puller d =>
    dsimp only
    rw [process_puller_wrapping ht h fuel]

end Checked

/-- A fresh entropy device. -/
def freshRng : VirtioDevice := puller (.rng (Rng.new GicInner.new 50))

/-- The guest sets up a queue of one entry, and the device serves a chain. -/
def servedRun : List (DeviceEvent (Bus Empty)) :=
  [.write 0x038 1, .write 0x044 1, .write 0x080 0x40000800, .write 0x090 0x40000400,
    .write 0x0a0 0x40000600, .write 0x050 0, .poll oneChain]

theorem pollFits_pageRng : (pageRng 0x40000600).PollFits Target.debug64 oneChain := by
  have hdone : ((pageRng 0x40000600).process Target.debug64 1 oneChain).map
      (fun r => r.1.queue.lastAvail) = .done 1 := by
    decide +kernel
  obtain ⟨r, hr, -⟩ := Outcome.bind_eq_done_iff.mp hdone
  have hnotified : ¬(pageRng 0x40000600).notified = false := Bool.noConfusion
  unfold Rng.process at hr
  rw [if_neg hnotified] at hr
  obtain ⟨s, hs, -⟩ := Outcome.bind_eq_done_iff.mp hr
  -- with more or with less fuel the loop does not panic either
  refine (Rng.process_ne_panic_iff rfl).mp fun fuel hpanic => ?_
  unfold Rng.process at hpanic
  rw [if_neg hnotified] at hpanic
  refine absurd hpanic (Outcome.bind_done_ne_panic_iff.mpr fun hrun => ?_)
  have hmost := run_eq_panic_mono (Nat.le_max_left fuel 1) hrun
  cases hmost.symm.trans (run_eq_done_mono (Nat.le_max_right fuel 1) hs)

theorem fits_servedRun : Fits Target.debug64 servedRun freshRng :=
  ⟨pollFits_pageRng, fun _ _ _ _ => trivial⟩

/-- The guest gives the queue `0x10000` entries, and one chain. -/
def narrowRun : List (DeviceEvent (Bus Empty)) :=
  [.write 0x038 0x10000, .write 0x044 1, .write 0x080 0x40000800, .write 0x090 0x40000400,
    .write 0x0a0 0x40000600, .write 0x050 0, .poll oneChain]

/-- The size of the queue narrows to zero, and then a slot is the remainder by zero. -/
theorem pop_narrow (t : Target) {q : Virtq} (hready : q.ready = true) (hnum : q.num = 0x10000)
    (havail : q.avail = 0x40000400) (hlast : q.lastAvail = 0) : q.pop t oneChain = none := by
  have hidx : GuestMem.readU16 oneChain (0x40000400 + 2) = (1, oneChain) := by
    have hpage := zeroPage_oneChain
    rw [Bus.readU16_eq hpage.wf (hpage.inRam (by decide) (by decide)), ← hpage.index]
    rfl
  have hadd : t.add (0x40000400 : BitVec 64) 2 = some (0x40000400 + 2) :=
    Target.add_of_lt (by decide)
  have hzero : rem (0 : BitVec 16) ((0x10000 : BitVec 32).setWidth 16) = none := rfl
  unfold Virtq.pop Virtq.take
  rw [hready, hnum, havail, hlast, hadd, hzero, if_neg (by decide), Option.bind_eq_bind,
    Option.bind_some, hidx]
  rfl

theorem not_neverPanics_narrowRun (t : Target) : ¬NeverPanics t narrowRun freshRng := by
  intro h
  have hpop : ∀ d : Rng, d.queue.pop t oneChain = none → d.notified = true →
      (puller (.rng d)).process t 0 oneChain = .panic := by
    intro d hpop hnotified
    have hpass : drainPass t (Rng.fill t) (d.draining oneChain) = none := by
      unfold drainPass Rng.draining
      rw [hpop]
      rfl
    unfold process Puller.process Rng.process
    dsimp only
    rw [hnotified, run, hpass]
    rfl
  exact (h 0).1 (hpop _ (pop_narrow t rfl rfl rfl rfl) rfl)

end VirtioDevice

end V64.Platform
