import Mathlib.Data.BitVec
import Mathlib.Tactic.Common
import Mathlib.Tactic.Ring

/-!
# Lanes of a vector

A vector of `n` bits seen as lanes of `w` bits, lane 0 lowest, and the loop that collects
one: element `i` of a list is shifted to lane `i` and joined with what is there.

* `lane_pack`: lane `i` of the collected vector is element `i`.
* `getLsbD_pack_of_ge`: there is nothing above the last element.
* `eq_of_lanes`: a vector is its lanes.
* `lane_splat`: every lane of a replicated element is the element.
-/

namespace Lanes

variable {n w : ℕ}

/-- Lane `i` of width `w`. -/
def lane (w : ℕ) (v : BitVec n) (i : ℕ) : BitVec w := v.extractLsb' (i * w) w

/-- The vector that the loop collects. -/
def pack (w : ℕ) (l : List (BitVec n)) : BitVec n :=
  l.zipIdx.foldl (fun (out : BitVec n) (p : BitVec n × ℕ) => out ||| (p.1 <<< (p.2 * w))) 0

/-- The vector has `w` bits at most. -/
def Narrow (w : ℕ) (v : BitVec n) : Prop := ∀ k, w ≤ k → v.getLsbD k = false

theorem getLsbD_lane (v : BitVec n) (i k : ℕ) :
    (lane w v i).getLsbD k = (decide (k < w) && v.getLsbD (i * w + k)) := by
  unfold lane
  rw [BitVec.getLsbD_extractLsb']

theorem lane_eq (v : BitVec n) (i : ℕ) : lane w v i = (v >>> (i * w)).setWidth w := by
  apply BitVec.eq_of_getLsbD_eq
  intro k hk
  rw [getLsbD_lane, BitVec.getLsbD_setWidth, BitVec.getLsbD_ushiftRight]

/-- Widening a vector keeps its lanes. -/
theorem lane_setWidth {m : ℕ} (v : BitVec m) (h : m ≤ n) (i : ℕ) :
    lane w (v.setWidth n) i = lane w v i := by
  apply BitVec.eq_of_getLsbD_eq
  intro k hk
  rw [getLsbD_lane, getLsbD_lane, BitVec.getLsbD_setWidth]
  by_cases hn : i * w + k < n
  · rw [decide_eq_true hn, Bool.true_and]
  · rw [decide_eq_false hn, Bool.false_and, BitVec.getLsbD_of_ge v _ (by omega)]

/-- Cutting a vector keeps the lanes that are left. -/
theorem lane_cut {m : ℕ} (v : BitVec n) {i : ℕ} (h : (i + 1) * w ≤ m) :
    lane w (v.setWidth m) i = lane w v i := by
  apply BitVec.eq_of_getLsbD_eq
  intro k hk
  rw [Nat.succ_mul] at h
  rw [getLsbD_lane, getLsbD_lane, BitVec.getLsbD_setWidth,
    decide_eq_true (by omega : i * w + k < m), Bool.true_and]

theorem narrow_setWidth {m : ℕ} (v : BitVec m) {k : ℕ} (h : m ≤ k) :
    Narrow k (v.setWidth n) := by
  intro j hj
  rw [BitVec.getLsbD_setWidth, BitVec.getLsbD_of_ge v j (by omega), Bool.and_false]

theorem narrow_of_le (v : BitVec n) {k : ℕ} (h : n ≤ k) : Narrow k v :=
  fun j hj => BitVec.getLsbD_of_ge v j (by omega)

theorem Narrow.mono {v : BitVec n} {w' : ℕ} (h : Narrow w v) (hle : w ≤ w') : Narrow w' v :=
  fun k hk => h k (by omega)

/-- Cutting a narrow vector first changes nothing. -/
theorem Narrow.setWidth_setWidth {v : BitVec n} (h : Narrow w v) (m : ℕ) :
    (v.setWidth w).setWidth m = v.setWidth m := by
  apply BitVec.eq_of_getLsbD_eq
  intro k hk
  rw [BitVec.getLsbD_setWidth, BitVec.getLsbD_setWidth, BitVec.getLsbD_setWidth]
  by_cases hkw : k < w
  · rw [decide_eq_true hkw, Bool.true_and]
  · rw [decide_eq_false hkw, Bool.false_and, h k (by omega)]

/-- A lane made of `k` lanes of another vector, in their order. -/
theorem lane_eq_of_sublanes {k e : ℕ} (he : k * w = e) {v u : BitVec n} {i j : ℕ}
    (h : ∀ b < k, lane w v (i * k + b) = lane w u (j * k + b)) : lane e v i = lane e u j := by
  subst he
  apply BitVec.eq_of_getLsbD_eq
  intro t ht
  have hw : 0 < w := Nat.pos_of_ne_zero (by rintro rfl; omega)
  have hb : t / w < k := (Nat.div_lt_iff_lt_mul hw).mpr ht
  have hsplit : t / w * w + t % w = t := by
    rw [Nat.mul_comm]
    exact Nat.div_add_mod t w
  have hbit := congrArg (BitVec.getLsbD · (t % w)) (h (t / w) hb)
  have hpos (i : ℕ) : (i * k + t / w) * w + t % w = i * (k * w) + t := by
    rw [Nat.add_mul, Nat.mul_assoc, Nat.add_assoc, hsplit]
  rw [getLsbD_lane, getLsbD_lane, decide_eq_true (Nat.mod_lt t hw), Bool.true_and, Bool.true_and,
    hpos, hpos] at hbit
  rw [getLsbD_lane, getLsbD_lane, hbit]

/-! ## Collecting -/

theorem pack_append_singleton (l : List (BitVec n)) (x : BitVec n) :
    pack w (l ++ [x]) = pack w l ||| (x <<< (l.length * w)) := by
  unfold pack
  rw [List.zipIdx_append, List.foldl_append]
  simp

variable {l : List (BitVec n)}

/-- Nothing is above the last element. -/
theorem getLsbD_pack_of_ge (h : ∀ x ∈ l, Narrow w x) {k : ℕ} (hk : l.length * w ≤ k) :
    (pack w l).getLsbD k = false := by
  induction l using List.reverseRecOn with
  | nil => exact BitVec.getLsbD_zero
  | append_singleton l x ih =>
    have hlen : (l ++ [x]).length * w = l.length * w + w := by
      rw [List.length_append, List.length_singleton]
      ring
    have hx : Narrow w x := h x (List.mem_append_right l List.mem_cons_self)
    rw [pack_append_singleton, BitVec.getLsbD_or, BitVec.getLsbD_shiftLeft,
      ih (fun y hy => h y (List.mem_append_left [x] hy)) (by omega), hx _ (by omega),
      Bool.and_false, Bool.false_or]

theorem lane_pack (h : ∀ x ∈ l, Narrow w x) (hfit : l.length * w ≤ n) {i : ℕ}
    (hi : i < l.length) : lane w (pack w l) i = l[i].setWidth w := by
  induction l using List.reverseRecOn with
  | nil => exact absurd hi (Nat.not_lt_zero i)
  | append_singleton l x ih =>
    have hlen : (l ++ [x]).length * w = l.length * w + w := by
      rw [List.length_append, List.length_singleton]
      ring
    have hl : ∀ y ∈ l, Narrow w y := fun y hy => h y (List.mem_append_left [x] hy)
    rw [List.length_append, List.length_singleton] at hi
    apply BitVec.eq_of_getLsbD_eq
    intro k hk
    rw [pack_append_singleton, getLsbD_lane, BitVec.getLsbD_or, BitVec.getLsbD_shiftLeft,
      BitVec.getLsbD_setWidth, decide_eq_true hk, Bool.true_and, Bool.true_and]
    by_cases hlast : i < l.length
    · -- below the new element
      have hbelow : i * w + k < l.length * w := by
        have := Nat.mul_le_mul_right w (Nat.succ_le_of_lt hlast)
        rw [Nat.succ_mul] at this
        omega
      have hlane := congrArg (BitVec.getLsbD · k) (ih hl (by omega) hlast)
      rw [getLsbD_lane, BitVec.getLsbD_setWidth, decide_eq_true hk, Bool.true_and,
        Bool.true_and] at hlane
      rw [hlane, decide_eq_true hbelow, Bool.not_true, Bool.and_false, Bool.false_and,
        Bool.or_false, List.getElem_append_left hlast]
    · obtain rfl : i = l.length := by omega
      rw [getLsbD_pack_of_ge hl (by omega), Bool.false_or, decide_eq_true (by omega),
        decide_eq_false (by omega), Bool.not_false, Bool.true_and, Bool.true_and,
        Nat.add_sub_cancel_left, List.getElem_concat_length rfl]

/-! ## Replicating -/

/-- The vector with `x` in every lane. -/
def splat (n : ℕ) (x : BitVec w) : BitVec n := (x.replicate (n / w)).setWidth n

theorem lane_splat (x : BitVec w) {i : ℕ} (hi : i < n / w) : lane w (splat n x) i = x := by
  apply BitVec.eq_of_getLsbD_eq
  intro k hk
  have hle : (i + 1) * w ≤ n / w * w := Nat.mul_le_mul_right w hi
  have hdiv : n / w * w ≤ n := Nat.div_mul_le_self n w
  have hsum : i * w + k < n / w * w := by
    rw [Nat.succ_mul] at hle
    omega
  have hmod : (i * w + k) % w = k := by
    rw [Nat.mul_comm, Nat.mul_add_mod, Nat.mod_eq_of_lt hk]
  unfold splat
  rw [getLsbD_lane, BitVec.getLsbD_setWidth, BitVec.getLsbD_replicate, hmod, Nat.mul_comm w,
    decide_eq_true hk, decide_eq_true (by omega), decide_eq_true hsum, Bool.true_and,
    Bool.true_and, Bool.true_and]

/-! ## Vectors and their lanes -/

/-- Two vectors with the same lanes and nothing above them are equal. -/
theorem eq_of_lanes {v v' : BitVec n} {c : ℕ} (h : Narrow (c * w) v) (h' : Narrow (c * w) v')
    (hlanes : ∀ i < c, lane w v i = lane w v' i) : v = v' := by
  apply BitVec.eq_of_getLsbD_eq
  intro k hk
  by_cases hin : k < c * w
  · have hw : 0 < w := Nat.pos_of_ne_zero (by rintro rfl; omega)
    have hi : k / w < c := (Nat.div_lt_iff_lt_mul hw).mpr hin
    have hsum : k / w * w + k % w = k := by
      rw [Nat.mul_comm]
      exact Nat.div_add_mod k w
    have hbit := congrArg (BitVec.getLsbD · (k % w)) (hlanes (k / w) hi)
    rw [getLsbD_lane, getLsbD_lane, decide_eq_true (Nat.mod_lt k hw), Bool.true_and,
      Bool.true_and, hsum] at hbit
    exact hbit
  · rw [h k (by omega), h' k (by omega)]

end Lanes
