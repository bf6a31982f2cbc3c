import Mathlib.Algebra.Order.Ring.Nat
import Mathlib.Logic.Function.Basic
import Mathlib.Tactic.Common

/-!
# Runs of a labelled transition system

* `Run.invariant`: a property that every step keeps holds after every run.
* `Run.mono`: a run is a run of any system with more steps.
* `Run.append`: runs compose.
* `Run.induction_last`: induction on the last step, for properties of the whole run.
* `Along.congr`: two properties of the steps of a run that agree where an invariant
  holds, when each step that has them keeps the invariant.
-/

namespace Runs

variable {σ α : Type}

/-- `Run step s as s'`: the steps labelled `as`, in order, lead from `s` to `s'`. -/
inductive Run (step : σ → α → σ → Prop) : σ → List α → σ → Prop where
  | nil (s : σ) : Run step s [] s
  | cons {s s' s'' : σ} {a : α} {as : List α} :
      step s a s' → Run step s' as s'' → Run step s (a :: as) s''

variable {step : σ → α → σ → Prop}

theorem Run.invariant {P : σ → Prop} (hstep : ∀ s a s', P s → step s a s' → P s') {s s' : σ}
    {as : List α} (hrun : Run step s as s') (hs : P s) : P s' := by
  induction hrun with
  | nil => exact hs
  | cons h _ ih => exact ih (hstep _ _ _ hs h)

theorem Run.mono {step' : σ → α → σ → Prop} (h : ∀ s a s', step s a s' → step' s a s') {s s' : σ}
    {as : List α} (hrun : Run step s as s') : Run step' s as s' := by
  induction hrun with
  | nil => exact .nil _
  | cons hs _ ih => exact .cons (h _ _ _ hs) ih

theorem Run.append {s s' s'' : σ} {as bs : List α} (h : Run step s as s')
    (h' : Run step s' bs s'') : Run step s (as ++ bs) s'' := by
  induction h with
  | nil => exact h'
  | cons hs _ ih => exact .cons hs (ih h')

theorem Run.snoc {s s' s'' : σ} {as : List α} {a : α} (h : Run step s as s') (h' : step s' a s'') :
    Run step s (as ++ [a]) s'' := h.append (.cons h' (.nil s''))

/-- A property of the labels so far and the state they lead to. -/
@[elab_as_elim]
theorem Run.induction_last {s : σ} {P : ∀ as s', Run step s as s' → Prop}
    (nil : P [] s (.nil s))
    (snoc : ∀ as s' a s'' (h : Run step s as s') (h' : step s' a s''),
      P as s' h → P (as ++ [a]) s'' (h.snoc h'))
    {as : List α} {s' : σ} (hrun : Run step s as s') : P as s' hrun := by
  have hgen : ∀ {s1 s2 : σ} {bs : List α}, Run step s1 bs s2 →
      ∀ as (h : Run step s as s1), P as s1 h → ∀ h', P (as ++ bs) s2 h' := by
    intro s1 s2 bs h
    induction h with
    | nil s1 =>
      intro as h hP
      rw [List.append_nil]
      exact fun _ => hP
    | cons hs _ ih =>
      intro as h hP
      rw [← List.singleton_append, ← List.append_assoc]
      exact ih _ (h.snoc hs) (snoc _ _ _ _ h hs hP)
  exact hgen hrun [] (.nil s) nil hrun

/-! ## Deterministic systems -/

/-- Every step of the run that takes the inputs `as` from `s` has the property `P`
of the state before it and its input. -/
def Along (next : σ → α → σ) (P : σ → α → Prop) : σ → List α → Prop
  | _, [] => True
  | s, a :: as => P s a ∧ Along next P (next s a) as

variable {next : σ → α → σ} {P Q : σ → α → Prop}

theorem Along.congr {Inv : σ → Prop} {s : σ} {as : List α} (hs : Inv s)
    (hiff : ∀ s, ∀ a ∈ as, Inv s → (P s a ↔ Q s a))
    (hstep : ∀ s, ∀ a ∈ as, Inv s → P s a → Inv (next s a)) :
    Along next P s as ↔ Along next Q s as := by
  induction as generalizing s with
  | nil => exact Iff.rfl
  | cons a as ih =>
    have ha : a ∈ a :: as := List.mem_cons_self
    have htail : ∀ b ∈ as, b ∈ a :: as := fun b hb => List.mem_cons_of_mem a hb
    have hrest : P s a → (Along next P (next s a) as ↔ Along next Q (next s a) as) := by
      intro hP
      exact ih (hstep s a ha hs hP) (fun s b hb => hiff s b (htail b hb))
        fun s b hb => hstep s b (htail b hb)
    constructor
    · rintro ⟨hP, has⟩
      exact ⟨(hiff s a ha hs).mp hP, (hrest hP).mp has⟩
    · rintro ⟨hQ, has⟩
      have hP : P s a := (hiff s a ha hs).mpr hQ
      exact ⟨hP, (hrest hP).mpr has⟩

theorem along_append {s : σ} {as bs : List α} :
    Along next P s (as ++ bs) ↔ Along next P s as ∧ Along next P (as.foldl next s) bs := by
  induction as generalizing s with
  | nil => exact (iff_of_eq (true_and _)).symm
  | cons a as ih =>
    rw [List.cons_append, Along, Along, List.foldl_cons, ih, and_assoc]

end Runs
