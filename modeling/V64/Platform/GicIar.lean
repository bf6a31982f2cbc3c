import V64.Platform.Gic

/-!
# Reading `GICC_IAR`

`signals_irq` tests the enables of both halves of the controller, `acknowledge` does
not, and the id it returns can be the one that means "none".

* `iarExact_iff`: after any operations, a read of `GICC_IAR` is exact exactly when a
  deliverable candidate meets an enabled controller and is not interrupt 1023.
-/

namespace V64.Platform.GicInner

/-- Interrupt `id` has been taken: it moved from pending to active, its priority is on
    top of the stack, and nothing else has changed but the cached candidate. -/
structure Taken (g g' : GicInner) (id : ℕ) : Prop where
  wasPending : g.pending id = true
  pending : g'.pending = Function.update g.pending id false
  active : g'.active = Function.update g.active id true
  running : g'.running = g.priority id :: g.running
  enabled : g'.enabled = g.enabled
  priority : g'.priority = g.priority
  distEnabled : g'.distEnabled = g.distEnabled
  cpuEnabled : g'.cpuEnabled = g.cpuEnabled
  pmr : g'.pmr = g.pmr

/-- A read of `GICC_IAR` is exact: it returns an interrupt exactly when one is
    signalled, and takes that interrupt; otherwise it returns 1023 and changes nothing. -/
structure IarExact (g : GicInner) : Prop where
  signalled : (g.cpuRead 0x0C).1.toNat ≠ spurious ↔ g.pendingIrq = true
  taken : g.pendingIrq = true → Taken g (g.cpuRead 0x0C).2 (g.cpuRead 0x0C).1.toNat
  unchanged : g.pendingIrq = false → (g.cpuRead 0x0C).1.toNat = spurious ∧ (g.cpuRead 0x0C).2 = g

/-- The candidate that passes the mask and the running priority, if there is one, meets a
    controller both of whose halves are enabled, and is not interrupt 1023. -/
def CandidateOk (g : GicInner) : Prop :=
  ∀ id, g.IsBest numIrqs id → g.priority id < g.pmr → g.priority id < g.runningPrio →
    g.distEnabled = true ∧ g.cpuEnabled = true ∧ id ≠ spurious

theorem candidateOk_iff {g : GicInner} (h : g.Cached) : g.CandidateOk ↔
    ∀ b ∈ g.deliverable, g.distEnabled = true ∧ g.cpuEnabled = true ∧ b.1 ≠ spurious := by
  constructor
  · rintro hok ⟨id, p⟩ hb
    obtain ⟨hbest, rfl, hpmr, hrun⟩ := (deliverable_eq_some h).mp hb
    exact hok id hbest hpmr hrun
  · intro hok id hbest hpmr hrun
    exact hok (id, g.priority id) ((deliverable_eq_some h).mpr ⟨hbest, rfl, hpmr, hrun⟩)

theorem pendingIrq_eq (g : GicInner) :
    g.pendingIrq = (g.distEnabled && g.cpuEnabled && g.deliverable.isSome) := by
  unfold pendingIrq
  cases g.distEnabled <;> cases g.cpuEnabled <;> rfl

theorem iarExact_of_idle {g : GicInner} (hc : g.Cached) (h : g.deliverable = none) :
    g.IarExact := by
  have hack := acknowledge_none h
  have hread : (g.cpuRead 0x0C).1.toNat = spurious := by
    rw [toNat_iar hc rfl, hack]
  have hidle : g.pendingIrq = false := by
    rw [pendingIrq_eq, h, Option.isSome_none, Bool.and_false]
  refine ⟨?_, fun hsig => ?_, fun _ => ⟨hread, ?_⟩⟩
  · rw [hread, hidle]
    exact iff_of_false (fun hne => hne rfl) Bool.false_ne_true
  · rw [hidle] at hsig
    cases hsig
  · rw [cpuRead_iar g rfl, hack]

theorem iarExact_of_deliverable {g : GicInner} (hc : g.Cached) {id : ℕ} {p : BitVec 8}
    (h : g.deliverable = some (id, p)) :
    g.IarExact ↔ g.distEnabled = true ∧ g.cpuEnabled = true ∧ id ≠ spurious := by
  obtain ⟨hbest, rfl, -, -⟩ := (deliverable_eq_some hc).mp h
  have hack := acknowledge_some h
  have hread : (g.cpuRead 0x0C).1.toNat = id := by
    rw [toNat_iar hc rfl, hack]
  have hstate : (g.cpuRead 0x0C).2 = g.acknowledge.2 := congrArg Prod.snd (cpuRead_iar g rfl)
  have hsig : g.pendingIrq = (g.distEnabled && g.cpuEnabled) := by
    rw [pendingIrq_eq, h, Option.isSome_some, Bool.and_true]
  constructor
  · intro hexact
    -- were the read not signalled, it would still take `id`
    have henabled : g.pendingIrq = true := by
      by_contra hno
      have hsame := (hexact.unchanged (Bool.not_eq_true _ ▸ hno)).2
      rw [hstate, hack] at hsame
      have hpending : Function.update g.pending id false id = g.pending id :=
        congrFun (congrArg GicInner.pending hsame) id
      rw [Function.update_self, hbest.pending] at hpending
      cases hpending
    have hne := hexact.signalled.mpr henabled
    rw [hsig, Bool.and_eq_true] at henabled
    rw [hread] at hne
    exact ⟨henabled.1, henabled.2, hne⟩
  · rintro ⟨hdist, hcpu, hne⟩
    rw [hdist, hcpu] at hsig
    refine ⟨?_, fun _ => ?_, fun hno => ?_⟩
    · rw [hread, hsig]
      exact iff_of_true hne rfl
    · rw [hread, hstate, hack]
      exact ⟨hbest.pending, rfl, rfl, rfl, rfl, rfl, rfl, rfl, rfl⟩
    · rw [hsig] at hno
      cases hno

/-- After any operations of the guest and the devices, a read of `GICC_IAR` is exact
    exactly when the deliverable candidate, if any, meets an enabled controller and is
    not interrupt 1023. -/
theorem iarExact_iff (ops : List GicOp) :
    (ops.foldl step new).IarExact ↔ (ops.foldl step new).CandidateOk := by
  have hc := cached_foldl ops
  generalize ops.foldl step new = g at hc ⊢
  rw [candidateOk_iff hc]
  cases hd : g.deliverable with
  | none => exact iff_of_true (iarExact_of_idle hc hd) nofun
  | some b =>
    rw [iarExact_of_deliverable hc hd]
    constructor
    · rintro h b' hb'
      obtain rfl := Option.some.inj hb'
      exact h
    · exact fun h => h b rfl

/-- The guest enables interrupt 33 and opens the mask, and leaves both halves of the
    controller disabled; a device raises the line. -/
def raiseDisabled : List GicOp := [.distWrite 0x104 1 2, .cpuWrite 0x04 4 0xF0, .setPending 33]

theorem not_iarExact : ¬ ∀ ops : List GicOp, (ops.foldl step new).IarExact := by
  intro h
  have hexact := h raiseDisabled
  have hdel : (raiseDisabled.foldl step new).deliverable = some (33, 0) :=
    deliverable_of_unique (cached_foldl raiseDisabled) (by decide) rfl rfl (by decide) (by decide)
  have hdist := ((iarExact_of_deliverable (cached_foldl raiseDisabled) hdel).mp hexact).1
  cases hdist

end V64.Platform.GicInner
