import Mathlib.Algebra.Order.Ring.Nat
import Mathlib.Logic.Function.Basic
import Mathlib.Tactic.Common

/-!
# A file of independent registers

The history of a register file is a list of reads and writes. `lastWritten` is
the value a register holds after a history, and a history is `Coherent` when
every read gives it.

* `Coherent.append`: coherent histories compose, the second one starting from
  the values the first one leaves.
* `run_coherent`: an implementation whose every step is coherent over some view
  of its state has coherent runs, and its view follows them.
-/

namespace RegisterFile

/-- One access: which register, and the value read or written. -/
inductive Event (ι α : Type) where
  | read (i : ι) (v : α)
  | write (i : ι) (v : α)

variable {ι α : Type} [DecidableEq ι]

/-- The registers after one access. -/
def Event.apply (r : ι → α) : Event ι α → ι → α
  | .read _ _ => r
  | .write i v => Function.update r i v

/-- The value that each register holds after a history from `init`: the last one
written to it. -/
def lastWritten (init : ι → α) (h : List (Event ι α)) : ι → α := h.foldl Event.apply init

/-- Every read of the history gives the last value written to its register. -/
def Coherent (init : ι → α) (h : List (Event ι α)) : Prop :=
  ∀ before i v after, h = before ++ .read i v :: after → v = lastWritten init before i

@[simp] theorem lastWritten_nil (init : ι → α) : lastWritten init [] = init := rfl

theorem lastWritten_append (init : ι → α) (h h' : List (Event ι α)) :
    lastWritten init (h ++ h') = lastWritten (lastWritten init h) h' := List.foldl_append

@[simp] theorem coherent_nil (init : ι → α) : Coherent init [] := fun before i v after h => by
  simp at h

theorem coherent_write (init : ι → α) (i : ι) (v : α) : Coherent init [.write i v] :=
  fun before j w after h => by
    cases before with
    | nil => simp at h
    | cons e before => simp at h

theorem coherent_read {init : ι → α} {i : ι} {v : α} (hv : v = init i) :
    Coherent init [.read i v] := fun before j w after h => by
  cases before with
  | nil =>
    simp only [List.nil_append, List.cons.injEq, Event.read.injEq] at h
    obtain ⟨⟨rfl, rfl⟩, -⟩ := h
    exact hv
  | cons e before => simp at h

theorem Coherent.append {init : ι → α} {h h' : List (Event ι α)} (hc : Coherent init h)
    (hc' : Coherent (lastWritten init h) h') : Coherent init (h ++ h') := by
  intro before i v after heq
  rcases List.append_eq_append_iff.mp heq with ⟨mid, hbefore, hh'⟩ | ⟨mid, hh, hafter⟩
  · rw [hbefore, lastWritten_append]
    exact hc' mid i v after hh'
  · cases mid with
    | nil =>
      simp only [List.append_nil] at hh
      simp only [List.nil_append] at hafter
      subst hh
      exact hc' [] i v after hafter.symm
    | cons e mid =>
      simp only [List.cons_append, List.cons.injEq] at hafter
      obtain ⟨rfl, rfl⟩ := hafter
      exact hc before i v mid hh

variable {σ op : Type} (step : σ → op → σ × List (Event ι α))

/-- The state and the history after a sequence of operations. -/
def run : σ → List op → σ × List (Event ι α)
  | s, [] => (s, [])
  | s, o :: ops =>
    let (s', h) := step s o
    let (s'', h') := run s' ops
    (s'', h ++ h')

/-- Steps that are coherent over `view`, and that `view` follows, give runs that are. -/
theorem run_coherent (view : σ → ι → α)
    (hview : ∀ s o, view (step s o).1 = lastWritten (view s) (step s o).2)
    (hcoh : ∀ s o, Coherent (view s) (step s o).2) (s : σ) (ops : List op) :
    view (run step s ops).1 = lastWritten (view s) (run step s ops).2 ∧
      Coherent (view s) (run step s ops).2 := by
  induction ops generalizing s with
  | nil => exact ⟨rfl, coherent_nil _⟩
  | cons o ops ih =>
    obtain ⟨ihview, ihcoh⟩ := ih (step s o).1
    rw [hview] at ihview ihcoh
    refine ⟨?_, (hcoh s o).append ihcoh⟩
    change view (run step (step s o).1 ops).1 = lastWritten (view s) (_ ++ _)
    rw [ihview, lastWritten_append]

end RegisterFile
