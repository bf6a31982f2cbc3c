import V64.Lib.Loops

/-!
# Loops that fill an array

A loop over a range keeps an invariant that counts its passes. Most such loops write an
array from the left.

* `foldlM_range`: the loop rule.
* `Filled.set`: one write.
* `Filled.eq_map`: what a filled array holds.
* `reverse_chunks`: an array whose chunks are reversed.
-/

namespace Fill

variable {σ α : Type}

/-- Where every pass keeps the invariant and succeeds, so does the loop. -/
theorem foldlM_range {f : σ → ℕ → Option σ} {P : ℕ → σ → Prop} {m : ℕ}
    (hstep : ∀ k < m, ∀ s, P k s → ∃ s', f s k = some s' ∧ P (k + 1) s') {s : σ} (h : P 0 s) :
    ∃ s', (List.range m).foldlM f s = some s' ∧ P m s' := by
  induction m with
  | zero => exact ⟨s, rfl, h⟩
  | succ m ih =>
    obtain ⟨s₁, hs₁, hP₁⟩ := ih fun k hk => hstep k (by omega)
    obtain ⟨s₂, hs₂, hP₂⟩ := hstep m (by omega) s₁ hP₁
    refine ⟨s₂, ?_, hP₂⟩
    rw [List.range_succ, List.foldlM_append, hs₁, Option.bind_eq_bind, Option.bind_some,
      List.foldlM_cons, hs₂]
    rfl

/-- An array of `n` elements, of which the first `m` are those of `f`. -/
structure Filled (f : ℕ → α) (n m : ℕ) (r : List α) : Prop where
  length : r.length = n
  get : ∀ i < m, r[i]? = some (f i)

variable {f : ℕ → α} {n m : ℕ} {r : List α}

theorem filled_replicate (f : ℕ → α) (n : ℕ) (x : α) : Filled f n 0 (List.replicate n x) :=
  ⟨List.length_replicate, fun i hi => absurd hi (Nat.not_lt_zero i)⟩

/-- The next element is written. -/
theorem Filled.set (h : Filled f n m r) (hm : m < n) : Filled f n (m + 1) (r.set m (f m)) := by
  refine ⟨List.length_set.trans h.length, fun i hi => ?_⟩
  by_cases him : m = i
  · subst him
    rw [List.getElem?_set_self (by rw [h.length]; exact hm)]
  · rw [List.getElem?_set_ne him]
    exact h.get i (by omega)

theorem Filled.eq_map (h : Filled f n n r) : r = (List.range n).map f := by
  apply List.ext_getElem?
  intro i
  by_cases hi : i < n
  · rw [h.get i hi, List.getElem?_map, List.getElem?_range hi]
    rfl
  · have hr : r.length ≤ i := by
      rw [h.length]
      omega
    rw [List.getElem?_eq_none hr, List.getElem?_eq_none (by simpa using hi)]

/-! ## Chunks -/

theorem chunk_map (f : ℕ → α) {m per g : ℕ} (hg : g < m) :
    (((List.range (m * per)).map f).drop (g * per)).take per =
      (List.range per).map fun k => f (g * per + k) := by
  have hle : g * per + per ≤ m * per := by
    rw [← Nat.succ_mul]
    exact Nat.mul_le_mul_right per hg
  apply List.ext_getElem
  · simp only [List.length_take, List.length_drop, List.length_map, List.length_range]
    omega
  · intro i h₁ h₂
    simp only [List.getElem_take, List.getElem_drop, List.getElem_map, List.getElem_range]

/-- Every chunk of `per` elements is reversed. -/
theorem reverse_chunks (f : ℕ → α) (m per : ℕ) :
    (((List.range m).map fun g => (((List.range (m * per)).map f).drop (g * per)).take per).map
        List.reverse).flatten =
      (List.range (m * per)).map fun j => f (j / per * per + (per - 1 - j % per)) := by
  have hchunk : ∀ g ∈ List.range m,
      (List.reverse ∘ fun g => (((List.range (m * per)).map f).drop (g * per)).take per) g =
        (List.range per).map fun k => f (g * per + (per - 1 - k)) := by
    intro g hg
    rw [Function.comp_apply, chunk_map f (List.mem_range.mp hg)]
    apply List.ext_getElem
    · simp
    · intro i h₁ h₂
      simp
  rw [List.map_map, List.map_congr_left hchunk, ← List.flatMap_def]
  exact Loops.range_flatMap_map m per fun g k => f (g * per + (per - 1 - k))

end Fill
