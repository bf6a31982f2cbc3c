import Mathlib.Algebra.Order.Ring.Nat
import Mathlib.Data.List.Nodup
import Mathlib.Logic.Function.Basic
import Mathlib.Tactic.Common

/-!
# Scatter and gather

A list of cells is written from, or read into, a list of values, in order. The
other side of the transfer is a range of a list.

* `gather_scatter`: distinct cells hold the values that were scattered to them.
* `scatter_of_not_mem`: the other cells are left alone.
* `set_splice`: a range is replaced one value after the other.
* `slice_splice`: the range that was replaced reads back.
-/

namespace Scatter

variable {ι α : Type} [DecidableEq ι]

/-- The values of the cells `is`, in order. -/
def gather (mem : ι → α) (is : List ι) : List α := is.map mem

/-- The cells `is` take the values `vs`, in order. -/
def scatter (mem : ι → α) : List ι → List α → ι → α
  | i :: is, v :: vs => scatter (Function.update mem i v) is vs
  | _, _ => mem

theorem scatter_of_not_mem {mem : ι → α} {is : List ι} {vs : List α} {i : ι} (h : i ∉ is) :
    scatter mem is vs i = mem i := by
  induction is generalizing mem vs with
  | nil => rfl
  | cons j is ih =>
    obtain ⟨hne, hnot⟩ := not_or.mp (mt List.mem_cons.mpr h)
    cases vs with
    | nil => rfl
    | cons v vs =>
      rw [scatter, ih hnot, Function.update_of_ne hne]

omit [DecidableEq ι] in
theorem gather_congr {mem mem' : ι → α} {is : List ι} (h : ∀ i ∈ is, mem i = mem' i) :
    gather mem is = gather mem' is := List.map_congr_left h

theorem gather_scatter {mem : ι → α} {is : List ι} {vs : List α} (hnodup : is.Nodup)
    (hlen : is.length = vs.length) : gather (scatter mem is vs) is = vs := by
  induction is generalizing mem vs with
  | nil => exact (List.length_eq_zero_iff.mp hlen.symm).symm
  | cons i is ih =>
    obtain ⟨hnot, hnodup⟩ := List.nodup_cons.mp hnodup
    cases vs with
    | nil => cases hlen
    | cons v vs =>
      have htail := @ih (Function.update mem i v) vs hnodup (Nat.succ.inj hlen)
      have hhead : scatter (Function.update mem i v) is vs i = v := by
        rw [scatter_of_not_mem hnot, Function.update_self]
      rw [scatter, gather, List.map_cons, hhead]
      exact congrArg (v :: ·) htail

/-! ## Ranges of a list -/

/-- The `n` values from `o`. -/
def slice (l : List α) (o n : ℕ) : List α := (l.drop o).take n

/-- `l` with the values from `o` replaced by `vs`. -/
def splice (l : List α) (o : ℕ) (vs : List α) : List α := l.take o ++ vs ++ l.drop (o + vs.length)

omit [DecidableEq ι] in
theorem length_slice {l : List α} {o n : ℕ} (h : o + n ≤ l.length) : (slice l o n).length = n := by
  rw [slice, List.length_take, List.length_drop]
  omega

theorem length_splice {l : List α} {o : ℕ} {vs : List α} (h : o + vs.length ≤ l.length) :
    (splice l o vs).length = l.length := by
  rw [splice, List.length_append, List.length_append, List.length_take, List.length_drop]
  omega

theorem splice_nil (l : List α) (o : ℕ) : splice l o [] = l := by
  rw [splice, List.append_nil, List.length_nil, Nat.add_zero, List.take_append_drop]

/-- A splice that starts by setting its first value. -/
theorem splice_set {l : List α} {o : ℕ} {v : α} (h : o < l.length) (vs : List α) :
    splice (l.set o v) (o + 1) vs = splice l o (v :: vs) := by
  have htake : (l.set o v).take (o + 1) = l.take o ++ [v] := by
    rw [List.take_add_one, List.take_set_of_le (Nat.le_refl o), List.getElem?_set_self h]
    rfl
  have hdrop : (l.set o v).drop (o + 1 + vs.length) = l.drop (o + (v :: vs).length) := by
    rw [List.drop_set_of_lt (by omega), List.length_cons]
    congr 1
    omega
  rw [splice, splice, htake, hdrop, List.append_assoc, List.append_assoc, List.append_assoc]
  rfl

theorem slice_splice {l : List α} {o : ℕ} {vs : List α} (h : o ≤ l.length) :
    slice (splice l o vs) o vs.length = vs := by
  have hlen : (l.take o).length = o := List.length_take_of_le h
  rw [slice, splice, List.append_assoc, List.drop_append_of_le_length hlen.ge,
    List.drop_eq_nil_of_le hlen.le, List.nil_append, List.take_left]

/-- A splice leaves what lies outside its range. -/
theorem getElem?_splice {l : List α} {o : ℕ} {vs : List α} (h : o + vs.length ≤ l.length) {i : ℕ}
    (hi : i < o ∨ o + vs.length ≤ i) : (splice l o vs)[i]? = l[i]? := by
  have hlen : (l.take o).length = o := List.length_take_of_le (by omega)
  rw [splice]
  rcases hi with hlt | hge
  · rw [List.append_assoc, List.getElem?_append_left (by omega), List.getElem?_take_of_lt hlt]
  · rw [List.getElem?_append_right (by rw [List.length_append]; omega), List.getElem?_drop,
      List.length_append, hlen]
    congr 1
    omega

theorem slice_cons {l : List α} {o n : ℕ} (h : o < l.length) :
    slice l o (n + 1) = l[o] :: slice l (o + 1) n := by
  rw [slice, List.drop_eq_getElem_cons h, List.take_succ_cons]
  rfl

end Scatter
