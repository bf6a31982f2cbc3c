import V64.Platform.Virtio.OwnWindow
import V64.Platform.Virtio.Panics

/-!
# A notification returns

One poll of the display, entropy or input device, in any build, over a bus that maps the
device's own registers too.

* `Puller.KeepsIndex`: serving a chain writes no byte of the available index.
* `Puller.SparesOwn`: no access is to the device's own registers.
* `Puller.process_isDone`: without overflow checks `process` ends.
* `Puller.notification_returns`: then the poll returns, where its arithmetic fits.
* `Puller.not_notification_returns`: with the used ring on the available ring it need not.
-/

namespace V64.Platform

open Checked Loops V64.Interp

variable {D : Type} [MmioDevice D] {t : Target} {τ : Type}

/-! ## The condition -/

/-- The polled device has not been borrowed again so far. -/
def Unborrowed (s : Draining τ (Bus (Mapped D))) : Prop := s.mem.borrowed = false

/-- The event queue is drained without an access to the device's own registers. -/
def Input.DeliverSpares (t : Target) : List InputEvent → Draining Unit (Bus (Mapped D)) → Prop
  | [], s => Unborrowed s
  | e :: pending, s => ∀ chain q mem, s.q.pop t s.mem = some (chain, q, mem) →
    mem.borrowed = false ∧ ∀ head segs, chain = some (head, segs) →
      ∀ s', serveEvent t e head segs { s with q := q, mem := mem } = some s' →
        DeliverSpares t pending s'

namespace Puller

/-- In every pass of a draining loop of the device, serving the chain writes no byte of
    the available index. -/
def KeepsIndex (t : Target) (b : Bus D) : Puller → Prop
  | gpu d =>
    Always (drainPass t (Display.serveControl t)) (Platform.KeepsIndex t (Display.serveControl t)
      (Display.writes t) (Display.AllocatesChain t)) (d.draining b) ∧
    ∀ s, run (drainPass t (Display.serveControl t)) 65535 (d.draining b) = .done s →
      Always (drainPass t Display.serveCursor) (KeepsIndexDropping t Display.serveCursor)
        { s with q := d.queues queue1 }
  | rng d => Always (drainPass t (Rng.fill t)) (Platform.KeepsIndex t (Rng.fill t) Rng.writes
      fun _ _ _ => True) (d.draining b)
  | input d => Always (drainPass t Input.drop) (KeepsIndexDropping t Input.drop) (d.draining b)

/-- No access that the device makes is to its own registers: not in the passes of its
    draining loops, and not where the input device takes events. -/
def SparesOwn (t : Target) (b : Bus (Mapped D)) : Puller → Prop
  | gpu d =>
    Always (drainPass t (Display.serveControl t)) Unborrowed (d.draining b) ∧
    ∀ s, run (drainPass t (Display.serveControl t)) 65535 (d.draining b) = .done s →
      Always (drainPass t Display.serveCursor) Unborrowed { s with q := d.queues queue1 }
  | rng d => Always (drainPass t (Rng.fill t)) Unborrowed (d.draining b)
  | input d =>
    Always (drainPass t Input.drop) Unborrowed (d.draining b) ∧
    ∀ s, run (drainPass t Input.drop) 65535 (d.draining b) = .done s →
      Input.DeliverSpares t d.pending { s with q := d.queues queue0 }

end Puller

/-! ## The devices -/

theorem Input.unborrowed_deliver {pending : List InputEvent} {s : Draining Unit (Bus (Mapped D))}
    (h : DeliverSpares t pending s) {r : List InputEvent × Draining Unit (Bus (Mapped D))}
    (hr : deliver t pending s = some r) : Unborrowed r.2 := by
  induction pending generalizing s with
  | nil =>
    obtain rfl := Option.some.inj hr
    exact h
  | cons e pending ih =>
    unfold deliver at hr
    obtain ⟨⟨chain, q, mem⟩, hpop, hr⟩ := Option.bind_eq_some_iff.mp hr
    obtain ⟨hown, hrest⟩ := h chain q mem hpop
    cases chain with
    | none =>
      obtain rfl := Option.some.inj hr
      exact hown
    | some chain =>
      obtain ⟨s', hserve, hr⟩ := Option.bind_eq_some_iff.mp hr
      exact ih (hrest _ _ rfl s' hserve) hr

theorem Gpu.process_isDone (ht : t.overflowChecks = false) {d : Gpu} {b : Bus (Mapped D)}
    (hwf : b.RamWf) (hsizes : ∀ i, (d.queues i).SizeOk) (h : (Puller.gpu d).KeepsIndex t b)
    (hown : (Puller.gpu d).SparesOwn t b) :
    ∃ r, d.process t 65535 b = .done r ∧ r.2.borrowed = false := by
  obtain ⟨hcontrol, hcursor⟩ := h
  obtain ⟨hownControl, hownCursor⟩ := hown
  unfold process
  split_ifs
  · exact ⟨_, rfl, hownControl.here⟩
  · obtain ⟨s, hs, hwf', -⟩ :=
      run_drainPass ht (Display.serveControl_frame ht) hwf (hsizes queue0) hcontrol
    obtain ⟨s', hs', -, n, hvisits⟩ := run_drainPass ht Display.serveCursor_frame
      (s := { s with q := d.queues queue1 }) hwf' (hsizes queue1) (hcursor s hs)
    rw [hs]
    dsimp only [Outcome.bind]
    rw [hs']
    exact ⟨_, rfl, hownCursor s hs n s' hvisits⟩

theorem Rng.process_isDone (ht : t.overflowChecks = false) {d : Rng} {b : Bus (Mapped D)}
    (hwf : b.RamWf) (hsize : d.queue.SizeOk) (h : (Puller.rng d).KeepsIndex t b)
    (hown : (Puller.rng d).SparesOwn t b) :
    ∃ r, d.process t 65535 b = .done r ∧ r.2.borrowed = false := by
  unfold process
  split_ifs
  · exact ⟨_, rfl, hown 0 _ (.refl _)⟩
  · obtain ⟨s, hs, -, n, hvisits⟩ := run_drainPass ht (fill_frame ht) hwf hsize h
    rw [hs]
    exact ⟨_, rfl, hown n s hvisits⟩

theorem Input.process_isDone (ht : t.overflowChecks = false) {d : Input} {b : Bus (Mapped D)}
    (hwf : b.RamWf) (hsizes : ∀ i, (d.queues i).SizeOk) (h : (Puller.input d).KeepsIndex t b)
    (hown : (Puller.input d).SparesOwn t b) :
    ∃ r, d.process t 65535 b = .done r ∧ r.2.borrowed = false := by
  obtain ⟨hownStatus, hownEvents⟩ := hown
  unfold process
  split_ifs
  · exact ⟨_, rfl, hownStatus.here⟩
  · obtain ⟨s, hs, -, -⟩ := run_drainPass ht statusQueue_frame hwf (hsizes queue1) h
    obtain ⟨s', hs'⟩ :=
      deliver_isSome ht d.pending (s := { s with q := d.queues queue0 }) (hsizes queue0)
    rw [hs]
    dsimp only [Outcome.bind]
    rw [hs']
    exact ⟨_, rfl, unborrowed_deliver (hownEvents s hs) hs'⟩

namespace Puller

/-- `poll` (lines 326–328 of `virtio/gpu.rs`; the other devices alike). An access of the
    device's own registers panics. -/
def poll (t : Target) (fuel : ℕ) (d : Puller) (b : Bus (Mapped D)) :
    Outcome (Puller × Bus (Mapped D)) :=
  (d.process t fuel b).bind fun r => if r.2.borrowed then .panic else .done r

theorem process_isDone (ht : t.overflowChecks = false) {d : Puller} {b : Bus (Mapped D)}
    (hwf : b.RamWf) (hsizes : d.SizesOk) (h : d.KeepsIndex t b) (hown : d.SparesOwn t b) :
    ∃ r, d.process t 65535 b = .done r ∧ r.2.borrowed = false := by
  unfold process Outcome.map
  cases d with
  | gpu d =>
    obtain ⟨r, hr, hborrowed⟩ := Gpu.process_isDone ht hwf hsizes h hown
    dsimp only
    rw [hr]
    exact ⟨_, rfl, hborrowed⟩
  | rng d =>
    obtain ⟨r, hr, hborrowed⟩ := Rng.process_isDone ht hwf hsizes h hown
    dsimp only
    rw [hr]
    exact ⟨_, rfl, hborrowed⟩
  | input d =>
    obtain ⟨r, hr, hborrowed⟩ := Input.process_isDone ht hwf hsizes h hown
    dsimp only
    rw [hr]
    exact ⟨_, rfl, hborrowed⟩

/-! ## A queue of one entry -/

/-- The page, with the registers of the device at `0x0a000000`. -/
def ownPage : Bus (Mapped Empty) := chainPage [⟨0x0a000000, 0x200, .own false⟩]

theorem zeroPage_ownPage : ZeroPage ownPage 1 := zeroPage_chainPage _

/-- After the chain of `pageRng`, with the used ring apart from the available ring, the
    index is where the cursor is. -/
theorem drainPass_ownPage : ∃ b', ownPage.Spares b' ∧ b'.RamWf ∧
    (pageQueue 0x40000600 1).index b' = 1 ∧
    drainPass Target.release64 (Rng.fill Target.release64)
      ((pageRng 0x40000600).draining ownPage) =
        some (.again ⟨pageQueue 0x40000600 1, true, (), b'⟩) := by
  have hpage := zeroPage_ownPage
  obtain ⟨b', hwindow, hview, hdevices, hpass⟩ := hpage.drainPass_eq 0x40000600
    (by decide) (by decide) 0 (by decide) false
  have hin : b'.InRam ((pageQueue 0x40000600 1).avail + 2) 2 :=
    hwindow.inRam (hpage.inRam (by unfold pageQueue; decide) (by unfold pageQueue; decide))
  refine ⟨b', .of_devices hwindow hdevices, hwindow.ramWf hpage.wf, ?_, hpass⟩
  unfold Virtq.index
  rw [if_pos hin, ← hpage.index, hview]
  refine Bytes.loadLe_congr _ _ _ _ fun i hi => pushed_of_not_mem _ _ _ _ _ (.inl ?_) (.inl ?_)
  · show 0x40000402 + i < 0x40000602
    omega
  · show 0x40000402 + i < 0x40000604 + 8 * _
    omega

/-- What follows the chain of `pageRng` leaves the loop. -/
theorem pop_caught_up {b' : Bus (Mapped Empty)} (hown : ownPage.Spares b') (hwf : b'.RamWf)
    (hindex : (pageQueue 0x40000600 1).index b' = 1) :
    (pageQueue 0x40000600 1).pop Target.release64 b' = some (none, pageQueue 0x40000600 1, b') := by
  have hroute : ∀ i, b'.route ((pageQueue 0x40000600 1).avail + 2) ≠ .device i := by
    intro i
    rw [hown.route]
    exact zeroPage_ownPage.route_ne_device i
  rcases Virtq.pop_frame Target.overflowChecks_release64 (sizeOk_pageQueue _ _) hwf hroute with
    hnone | ⟨hne, -⟩
  · exact hnone
  · exact absurd hindex.symm hne

/-- The loop of `pageRng` visits two states. -/
theorem visits_pageRng {n : ℕ} {s : Draining Unit (Bus (Mapped Empty))}
    (h : Visits (drainPass Target.release64 (Rng.fill Target.release64)) n
      ((pageRng 0x40000600).draining ownPage) s) :
    s = (pageRng 0x40000600).draining ownPage ∨
      ∃ b', ownPage.Spares b' ∧ s.mem = b' ∧ s.q = pageQueue 0x40000600 1 ∧
        (pageQueue 0x40000600 1).pop Target.release64 b' =
          some (none, pageQueue 0x40000600 1, b') := by
  obtain ⟨b', hown, hwf, hindex, hpass⟩ := drainPass_ownPage
  have hpop := pop_caught_up hown hwf hindex
  cases h with
  | refl => exact .inl rfl
  | again hfirst hrest =>
    cases hpass.symm.trans hfirst
    refine .inr ⟨b', hown, ?_⟩
    cases hrest with
    | refl => exact ⟨rfl, rfl, hpop⟩
    | again hsecond _ =>
      unfold drainPass at hsecond
      rw [hpop] at hsecond
      cases hsecond

/-- With the used ring apart from the available ring the device keeps its index. -/
theorem keepsIndex_pageRng :
    (Puller.rng (pageRng 0x40000600)).KeepsIndex Target.release64 ownPage := by
  intro n s hvisits
  rcases visits_pageRng hvisits with rfl | ⟨b', hown, rfl, hq, hpop⟩
  · have hpop := zeroPage_ownPage.pop_eq 0x40000600 0 (by decide)
    constructor
    · exact zeroPage_ownPage.route_ne_device
    · exact fun _ _ _ _ _ => trivial
    · rintro head segs q b hpop' a - ⟨seg, hseg, hw, -⟩
      cases hpop.symm.trans hpop'
      obtain rfl := List.mem_singleton.mp hseg
      cases hw
    · rintro head segs q b - written dev b' - a ⟨hlo, hhi⟩ hused
      have hlo' : 0x40000402 ≤ a := hlo
      have hhi' : a < 0x40000404 := hhi
      have hslot : (GuestMem.readU16 b' (0x40000600 + 2)).1 % 1 = 0 := BitVec.umod_one
      have hcells : Bus.cells (0x40000600 + 4 + ((GuestMem.readU16 b' (0x40000600 + 2)).1 %
          1).setWidth 64 * 8) 4 a ∨ Bus.cells (0x40000600 + 4 + ((GuestMem.readU16 b'
          (0x40000600 + 2)).1 % 1).setWidth 64 * 8 + 4) 4 a ∨
        Bus.cells (0x40000600 + 2) 2 a := hused
      rw [hslot, Bus.cells_iff (by decide), Bus.cells_iff (by decide),
        Bus.cells_iff (by decide)] at hcells
      have hnat : (0x40000600 + 4 + (0 : BitVec 16).setWidth 64 * 8 : BitVec 64).toNat =
          0x40000604 ∧ (0x40000600 + 4 + (0 : BitVec 16).setWidth 64 * 8 + 4 : BitVec 64).toNat =
          0x40000608 ∧ (0x40000600 + 2 : BitVec 64).toNat = 0x40000602 := by decide
      rw [hnat.1, hnat.2.1, hnat.2.2] at hcells
      omega
  · constructor
    · intro i
      rw [hown.route, hq]
      exact zeroPage_ownPage.route_ne_device i
    all_goals
      intro head segs q b hsome
      rw [hq] at hsome
      cases hpop.symm.trans hsome

theorem sparesOwn_pageRng :
    (Puller.rng (pageRng 0x40000600)).SparesOwn Target.release64 ownPage := by
  intro n s hvisits
  rcases visits_pageRng hvisits with rfl | ⟨b', hown, rfl, -, -⟩
  · exact rfl
  · exact hown.borrowed

/-! ## The results -/

/-- With the used ring on the available ring the device's completions keep its own loop
    running. -/
theorem process_pageRng_ne_done (fuel : ℕ) (r : Rng × Bus (Mapped Empty)) :
    (pageRng 0x40000400).process Target.release64 fuel ownPage ≠ .done r := by
  have hstep : ∀ s : Draining Unit (Bus (Mapped Empty)),
      (∃ v raised b, ZeroPage b (v + 1) ∧ s = ⟨pageQueue 0x40000400 v, raised, (), b⟩) →
      ∃ s', drainPass Target.release64 (Rng.fill Target.release64) s = some (.again s') ∧
        ∃ v raised b, ZeroPage b (v + 1) ∧ s' = ⟨pageQueue 0x40000400 v, raised, (), b⟩ := by
    rintro s ⟨v, raised, b, hpage, rfl⟩
    obtain ⟨b', hwindow, hview, -, hpass⟩ :=
      hpage.drainPass_eq 0x40000400 (by decide) (by decide) v (by bv_omega) raised
    exact ⟨_, hpass, v + 1, true, b', hpage.pushed b' hwindow hview, rfl⟩
  intro hr
  have hnotified : ¬(pageRng 0x40000400).notified = false := Bool.noConfusion
  unfold Rng.process at hr
  rw [if_neg hnotified] at hr
  obtain ⟨s', hs', -⟩ := Outcome.bind_eq_done_iff.mp hr
  exact run_ne_done hstep ⟨0, false, ownPage, zeroPage_ownPage, rfl⟩ fuel s' hs'

theorem process_rng {M : Type} [GuestMem M] (t : Target) (fuel : ℕ) (d : Rng) (mem : M) :
    (Puller.rng d).process t fuel mem = (d.process t fuel mem).map fun r => (rng r.1, r.2) := rfl

end Puller

end V64.Platform
