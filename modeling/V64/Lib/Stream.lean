import Mathlib.Algebra.Order.Ring.Nat
import Mathlib.Data.List.TakeWhile
import Mathlib.Tactic.Common

/-!
# Reading a list at an offset

The parts of a list by their offsets: a part of a known length, and a part that ends
before the first stop symbol. A reader that walks over a list which was put together
from parts reads those parts.

* `At`: a part that stands at an offset, with its own parts (`At.left`, `At.right`) and
  in a longer list (`At.mono`).
* `slice_of_at`, `terminated_of_at`: what is read of a part that stands there.
-/

namespace Stream

variable {α : Type}

/-- `part` stands in `l` at the offset `pos`. -/
def At (l : List α) (pos : ℕ) (part : List α) : Prop :=
  ∃ before after, l = before ++ (part ++ after) ∧ before.length = pos

/-- The `n` symbols at `pos`. -/
def slice (l : List α) (pos n : ℕ) : Option (List α) :=
  if pos + n ≤ l.length then some ((l.drop pos).take n) else none

/-- The symbols from `pos` up to the next `stop`. -/
def terminated [DecidableEq α] (stop : α) (l : List α) (pos : ℕ) : Option (List α) :=
  let part := (l.drop pos).takeWhile (· ≠ stop)
  if pos + part.length < l.length then some part else none

/-- How many symbols fill up `n` symbols to a multiple of `a`. -/
def padding (a n : ℕ) : ℕ := (a - n % a) % a

variable {l part part' : List α} {pos : ℕ}

theorem at_zero (l : List α) : At l 0 l := ⟨[], [], by rw [List.append_nil, List.nil_append], rfl⟩

theorem At.left (h : At l pos (part ++ part')) : At l pos part := by
  obtain ⟨before, after, hl, hpos⟩ := h
  exact ⟨before, part' ++ after, by rw [hl, List.append_assoc], hpos⟩

theorem At.right (h : At l pos (part ++ part')) : At l (pos + part.length) part' := by
  obtain ⟨before, after, hl, hpos⟩ := h
  refine ⟨before ++ part, after, ?_, ?_⟩
  · rw [hl, List.append_assoc, List.append_assoc]
  · rw [List.length_append, hpos]

theorem At.mono {l' : List α} (h : At l pos part) (hl' : l <+: l') : At l' pos part := by
  obtain ⟨before, after, hl, hpos⟩ := h
  obtain ⟨more, rfl⟩ := hl'
  exact ⟨before, after ++ more, by rw [hl, List.append_assoc, List.append_assoc], hpos⟩

theorem at_append (l part : List α) : At (l ++ part) l.length part :=
  ⟨l, [], by rw [List.append_nil], rfl⟩

theorem At.le_length (h : At l pos part) : pos + part.length ≤ l.length := by
  obtain ⟨before, after, rfl, rfl⟩ := h
  rw [List.length_append, List.length_append]
  omega

theorem slice_of_at (h : At l pos part) : slice l pos part.length = some part := by
  have hlen := h.le_length
  obtain ⟨before, after, rfl, rfl⟩ := h
  rw [slice, if_pos hlen, List.drop_left, List.take_left]

/-- A part that holds no `stop` and is followed by one is read whole. -/
theorem terminated_of_at [DecidableEq α] {stop : α} (h : At l pos (part ++ [stop]))
    (hpart : stop ∉ part) : terminated stop l pos = some part := by
  have hlen := h.le_length
  obtain ⟨before, after, rfl, rfl⟩ := h
  have hstop : part.takeWhile (· ≠ stop) = part := by
    rw [List.takeWhile_eq_self_iff]
    intro a ha
    exact decide_eq_true fun heq => hpart (heq ▸ ha)
  have htake : ((part ++ [stop]) ++ after).takeWhile (· ≠ stop) = part := by
    rw [List.append_assoc, List.takeWhile_append, if_pos (by rw [hstop]), List.singleton_append,
      List.takeWhile_cons_of_neg (by simp), List.append_nil]
  rw [List.length_append, List.length_singleton] at hlen
  rw [terminated, List.drop_left, htake, if_pos (by omega)]

theorem padding_add (a n : ℕ) (ha : 0 < a) : (n + padding a n) % a = 0 := by
  unfold padding
  have hlt := Nat.mod_lt n ha
  rcases Nat.eq_zero_or_pos (n % a) with hzero | hpos
  · rw [hzero, Nat.sub_zero, Nat.mod_self, Nat.add_zero, hzero]
  · rw [Nat.mod_eq_of_lt (show a - n % a < a by omega), ← Nat.mod_add_mod,
      Nat.add_sub_cancel' hlt.le, Nat.mod_self]

theorem padding_lt (a n : ℕ) (ha : 0 < a) : padding a n < a := Nat.mod_lt _ ha

/-- The padding does not see a prefix that needs none. -/
theorem padding_add_left {a m : ℕ} (n : ℕ) (hm : m % a = 0) : padding a (m + n) = padding a n := by
  unfold padding
  rw [Nat.add_mod, hm, Nat.zero_add, Nat.mod_mod]

end Stream
