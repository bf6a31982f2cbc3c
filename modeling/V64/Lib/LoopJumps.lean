import V64.Lib.Loops

/-!
# A loop that does several passes of another at once

A pass of the loop `jump` from a state that stands for `s` does what some passes of the
loop `pass` do from `s`.

* `Visits.trans`, `Visits.always`: the states that a loop visits from a visited state.
* `run_of_visits`, `run_of_visits_lt`: a loop from a state it visits, and what too few passes
  say.
* `run_jumps`: where the slow loop is left the fast one is, within as many passes.
* `visits_jumps`: the fast loop stands where the slow one does after no fewer passes.
-/

namespace Loops

variable {σ τ : Type} {pass : σ → Option (Pass σ)} {jump : τ → Option (Pass τ)}

/-- What a pass does, seen through `f`. -/
def Pass.map (f : σ → τ) : Pass σ → Pass τ
  | leave s => leave (f s)
  | again s => again (f s)

/-! ## Visited states -/

theorem Visits.trans {n k : ℕ} {s s1 s2 : σ} (h : Visits pass n s s1) (h' : Visits pass k s1 s2) :
    Visits pass (n + k) s s2 := by
  induction h with
  | refl s => rwa [Nat.zero_add]
  | again hp _ ih =>
    rw [Nat.succ_add]
    exact .again hp (ih h')

theorem Visits.always {P : σ → Prop} {n : ℕ} {s s1 : σ} (h : Visits pass n s s1)
    (hs : Always pass P s) : Always pass P s1 :=
  fun k s2 h' => hs (n + k) s2 (h.trans h')

/-- What an invariant of the passes implies holds of every visited state. -/
theorem Always.of_inv {P : σ → Prop} (Inv : σ → Prop) (hP : ∀ s, Inv s → P s)
    (hstep : ∀ s s', Inv s → pass s = some (.again s') → Inv s') {s : σ} (hs : Inv s) :
    Always pass P s := by
  intro n s' hvisits
  induction hvisits with
  | refl s => exact hP s hs
  | again hp _ ih => exact ih (hstep _ _ hs hp)

/-- A loop that visits a state goes on as from there. -/
theorem run_of_visits {n : ℕ} {s s1 : σ} (h : Visits pass n s s1) (fuel : ℕ) :
    run pass (n + fuel) s = run pass fuel s1 := by
  induction h with
  | refl s => rw [Nat.zero_add]
  | again hp _ ih => rw [Nat.succ_add, run, hp, ← ih]

/-- Before that it has not left. -/
theorem run_of_visits_lt {n fuel : ℕ} {s s1 : σ} (h : Visits pass n s s1) (hlt : fuel < n) :
    run pass fuel s = .running := by
  induction h generalizing fuel with
  | refl s => exact absurd hlt (Nat.not_lt_zero fuel)
  | again hp _ ih =>
    rw [run, hp]
    cases fuel with
    | zero => rfl
    | succ fuel => exact ih (Nat.lt_of_succ_lt_succ hlt)

/-- A loop that ends does not panic before. -/
theorem pass_of_visits {n fuel : ℕ} {s s1 s' : σ} (h : Visits pass n s s1)
    (hrun : run pass fuel s = .done s') : ∃ p, pass s1 = some p := by
  rcases Nat.lt_or_ge fuel n with hlt | hle
  · rw [run_of_visits_lt h hlt] at hrun
    cases hrun
  · obtain ⟨rest, rfl⟩ := Nat.exists_eq_add_of_le hle
    rw [run_of_visits h] at hrun
    cases hp : pass s1 with
    | some p => exact ⟨p, rfl⟩
    | none =>
      cases rest <;>
      · rw [run, hp] at hrun
        cases hrun

/-! ## Jumps -/

section Jumps

variable {R Q : τ → σ → Prop}

/-- A pass of the fast loop is some passes of the slow one. -/
def Jump (pass : σ → Option (Pass σ)) (jump : τ → Option (Pass τ)) (R Q : τ → σ → Prop)
    (t : τ) (s : σ) : Prop :=
  ∃ k s1, Visits pass k s s1 ∧
    ((∃ t' s', jump t = some (.leave t') ∧ pass s1 = some (.leave s') ∧ Q t' s') ∨
      ∃ t', jump t = some (.again t') ∧ 0 < k ∧ R t' s1)

/-- Where the slow loop is left, so is the fast one. -/
theorem run_jumps (h : ∀ t s fuel s', R t s → run pass fuel s = .done s' → Jump pass jump R Q t s)
    {fuel : ℕ} {t : τ} {s s' : σ} (hR : R t s) (hrun : run pass fuel s = .done s') :
    ∃ t', run jump fuel t = .done t' ∧ Q t' s' := by
  induction fuel using Nat.strongRecOn generalizing t s with
  | ind fuel ih =>
    obtain ⟨k, s1, hvisits, hjump⟩ := h t s fuel s' hR hrun
    have hk : k ≤ fuel := by
      by_contra hlt
      rw [run_of_visits_lt hvisits (Nat.lt_of_not_le hlt)] at hrun
      cases hrun
    obtain ⟨rest, rfl⟩ := Nat.exists_eq_add_of_le hk
    rw [run_of_visits hvisits] at hrun
    obtain ⟨t', s2, hleave, hpass, hQ⟩ | ⟨t', hagain, hpos, hR'⟩ := hjump
    · refine ⟨t', ?_, ?_⟩
      · cases k + rest with
        | zero => rw [run, hleave]
        | succ n => rw [run, hleave]
      · have hdone : run pass rest s1 = .done s2 := by
          cases rest with
          | zero => rw [run, hpass]
          | succ n => rw [run, hpass]
        rw [hdone] at hrun
        cases hrun
        exact hQ
    · obtain ⟨t2, hrest, hQ⟩ := ih rest (by omega) hR' hrun
      refine ⟨t2, ?_, hQ⟩
      obtain ⟨n, hn⟩ := Nat.exists_eq_succ_of_ne_zero (by omega : k + rest ≠ 0)
      rw [hn, run, hagain]
      exact run_eq_done_mono (by omega) hrest

/-- The fast loop stands where the slow one does after at least as many passes. -/
theorem visits_jumps (h : ∀ t s t', R t s → jump t = some (.again t') →
      ∃ k s1, Visits pass k s s1 ∧ 0 < k ∧ R t' s1)
    {n : ℕ} {t t' : τ} {s : σ} (hR : R t s) (hvisits : Visits jump n t t') :
    ∃ k s1, Visits pass k s s1 ∧ n ≤ k ∧ R t' s1 := by
  induction hvisits generalizing s with
  | refl t => exact ⟨0, s, .refl s, le_rfl, hR⟩
  | again hp _ ih =>
    obtain ⟨k, s1, hfirst, hpos, hR1⟩ := h _ _ _ hR hp
    obtain ⟨k', s2, hrest, hn, hR2⟩ := ih hR1
    exact ⟨k + k', s2, hfirst.trans hrest, by omega, hR2⟩

end Jumps

end Loops
