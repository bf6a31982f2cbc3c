import Mathlib.Data.List.Sort
import Mathlib.Order.Basic
import Mathlib.Tactic.Common

/-!
# Tables of address windows

A window is a base and a size; a table lists the entries whose windows it holds, sorted by
their bases, no two of them with an address in common.

* `Apart.not_holds`: an access lies in one of two windows apart at most.
* `Table.insert`: entering a window that is apart from those of the table.
* `Table.index_unique`, `Table.findIdx?_eq`: the first entry that holds an address is the only
  one.
-/

namespace Windows

section Insert

variable {α : Type}

/-- The first place of `l` where `p` fails: `partition_point`, for a list that `p` partitions. -/
def partitionPoint (p : α → Bool) (l : List α) : ℕ := (l.takeWhile p).length

/-- Inserting there splits the list where `p` ends. -/
theorem insertIdx_partitionPoint (p : α → Bool) (l : List α) (a : α) :
    l.insertIdx (partitionPoint p l) a = l.takeWhile p ++ a :: l.dropWhile p := by
  unfold partitionPoint
  induction l with
  | nil => rfl
  | cons b l ih =>
    cases hb : p b with
    | true =>
      rw [List.takeWhile_cons_of_pos hb, List.dropWhile_cons_of_pos hb, List.length_cons,
        List.insertIdx_succ_cons, ih, List.cons_append]
    | false =>
      have hneg : ¬ p b = true := by rw [hb]; exact Bool.false_ne_true
      rw [List.takeWhile_cons_of_neg hneg, List.dropWhile_cons_of_neg hneg]
      rfl

end Insert

section Table

variable {α : Type} {base size : α → ℕ}

/-- The `n` addresses from `addr` on lie in the window of `a`. -/
def Holds (base size : α → ℕ) (a : α) (addr n : ℕ) : Prop :=
  base a ≤ addr ∧ addr + n ≤ base a + size a

/-- One of the windows ends before the other begins. -/
def Apart (base size : α → ℕ) (a b : α) : Prop :=
  base a + size a ≤ base b ∨ base b + size b ≤ base a

theorem Apart.symm {a b : α} (h : Apart base size a b) : Apart base size b a := Or.symm h

/-- No access lies in two windows that are apart. -/
theorem Apart.not_holds {a b : α} (h : Apart base size a b) {addr n : ℕ} (hn : 0 < n)
    (ha : Holds base size a addr n) : ¬ Holds base size b addr n := by
  intro hb
  unfold Apart at h
  unfold Holds at ha hb
  omega

/-- The entries of a table: sorted by their bases, and apart from each other. -/
structure Table (base size : α → ℕ) (l : List α) : Prop where
  sorted : l.Pairwise fun a b => base a ≤ base b
  apart : l.Pairwise (Apart base size)

theorem Table.nil : Table base size [] := ⟨.nil, .nil⟩

/-- **Entering a window.** Where it is apart from those of the table, the table that has it at the
    partition point of its base is one. -/
theorem Table.insert {l : List α} (h : Table base size l) {a : α}
    (ha : ∀ b ∈ l, Apart base size a b) :
    Table base size (l.insertIdx (partitionPoint (fun b => base b < base a) l) a) := by
  have hins : l.insertIdx (partitionPoint (fun b => base b < base a) l) a =
      l.orderedInsert (fun a b => base a ≤ base b) a := by
    rw [insertIdx_partitionPoint, List.orderedInsert_eq_take_drop]
    simp only [not_le]
  have htotal : Std.Total fun a b : α => base a ≤ base b := ⟨fun a b => Nat.le_total _ _⟩
  have htrans : IsTrans α fun a b => base a ≤ base b := ⟨fun _ _ _ => Nat.le_trans⟩
  rw [hins]
  refine ⟨h.sorted.orderedInsert a l, ?_⟩
  refine (List.perm_orderedInsert _ a l).symm.pairwise ?_ fun hab => hab.symm
  exact List.pairwise_cons.mpr ⟨ha, h.apart⟩

theorem Table.mem_insert {l : List α} {a b : α} (p : α → Bool) :
    b ∈ l.insertIdx (partitionPoint p l) a ↔ b = a ∨ b ∈ l := by
  have hsplit : l.takeWhile p ++ l.dropWhile p = l := List.takeWhile_append_dropWhile
  rw [insertIdx_partitionPoint, List.mem_append, List.mem_cons]
  conv_rhs => rw [← hsplit, List.mem_append]
  exact or_left_comm

/-- Two entries of a table that hold an access are one entry. -/
theorem Table.index_unique {l : List α} (h : Table base size l) {i j : ℕ} {a b : α}
    (hi : l[i]? = some a) (hj : l[j]? = some b) {addr n : ℕ} (hn : 0 < n)
    (ha : Holds base size a addr n) (hb : Holds base size b addr n) : i = j := by
  obtain ⟨hilt, rfl⟩ := List.getElem?_eq_some_iff.mp hi
  obtain ⟨hjlt, rfl⟩ := List.getElem?_eq_some_iff.mp hj
  have hpair := List.pairwise_iff_getElem.mp h.apart
  rcases Nat.lt_trichotomy i j with hlt | heq | hlt
  · exact absurd hb ((hpair i j hilt hjlt hlt).not_holds hn ha)
  · exact heq
  · exact absurd ha ((hpair j i hjlt hilt hlt).not_holds hn hb)

/-- The first entry that holds an address is the one that holds it. -/
theorem Table.findIdx?_eq {l : List α} (h : Table base size l) {p : α → Bool} {addr : ℕ}
    (hp : ∀ a ∈ l, p a = true ↔ Holds base size a addr 1) {i : ℕ} {a : α} (hi : l[i]? = some a)
    (ha : Holds base size a addr 1) : l.findIdx? p = some i := by
  obtain ⟨hlt, hget⟩ := List.getElem?_eq_some_iff.mp hi
  rw [List.findIdx?_eq_some_iff_getElem]
  refine ⟨hlt, (hp _ (List.getElem_mem hlt)).mpr (hget ▸ ha), fun j hj hpj => ?_⟩
  have hjlt : j < l.length := Nat.lt_trans hj hlt
  have hholds := (hp _ (List.getElem_mem hjlt)).mp hpj
  exact Nat.ne_of_lt hj (h.index_unique (List.getElem?_eq_getElem hjlt) hi Nat.one_pos hholds ha)

end Table

end Windows
