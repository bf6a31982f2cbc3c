import Mathlib.Algebra.Order.Ring.Nat
import Mathlib.Data.List.GetD
import Mathlib.Logic.Function.Basic
import Mathlib.Tactic.Common

/-!
# Loops that may not end

A loop is a function from a state to what one pass does there: it leaves the loop,
goes on, or panics (`none`). Nothing says that the loop ends.

* `run_eq_done_iff`, `run_eq_panic_iff`: the ends of a loop by the states it visits.
* `exists_run_eq_done`: a measure that every pass lowers bounds the passes.
* `run_ne_done`: a loop that goes on from every state of an invariant never ends.
* `run_ne_panic_iff`, `run_checked_eq`: two loops, one of which panics more often.
* `foldlM_total`, `foldlM_checked_iff`: the same for a loop over a list, `List.foldlM`.
* `forM_eq_some_iff`: a loop of checks.
* `mapM_congr`, `mapM_map_right`, `exists_mapM`: a loop that computes a list.
* `range_flatMap_map`: two nested loops as one.
* `getD_flatten`: an entry of a table of rows.
-/

namespace Loops

variable {σ τ : Type}

/-- What a pass that does not panic does. -/
inductive Pass (σ : Type) where
  | leave (s : σ)
  | again (s : σ)

/-- How a loop stands after some passes: it has panicked, it has not left, or it has
    left. -/
inductive Outcome (σ : Type) where
  | panic
  | running
  | done (s : σ)
  deriving DecidableEq

/-- Goes on after a loop that is left. -/
def Outcome.bind (o : Outcome σ) (f : σ → Outcome τ) : Outcome τ :=
  match o with
  | panic => panic
  | running => running
  | done s => f s

/-- The state of a loop that was left, seen by what follows. -/
def Outcome.map (f : σ → τ) (o : Outcome σ) : Outcome τ := o.bind fun s => done (f s)

/-- What follows a loop, where it can panic. -/
def Outcome.ofOption : Option σ → Outcome σ
  | none => .panic
  | some s => .done s

/-- The loop from `s`, for at most `fuel` passes that go on. -/
def run (pass : σ → Option (Pass σ)) (fuel : ℕ) (s : σ) : Outcome σ :=
  match pass s with
  | none => .panic
  | some (.leave s') => .done s'
  | some (.again s') =>
    match fuel with
    | 0 => .running
    | fuel + 1 => run pass fuel s'

/-- `Visits pass n s s'`: after `n` passes that go on the loop stands at `s'`. -/
inductive Visits (pass : σ → Option (Pass σ)) : ℕ → σ → σ → Prop where
  | refl (s : σ) : Visits pass 0 s s
  | again {n : ℕ} {s s' s'' : σ} :
      pass s = some (.again s') → Visits pass n s' s'' → Visits pass (n + 1) s s''

/-- Every state that the loop visits from `s` has the property `P`. -/
def Always (pass : σ → Option (Pass σ)) (P : σ → Prop) (s : σ) : Prop :=
  ∀ n s', Visits pass n s s' → P s'

/-! ## Outcomes -/

namespace Outcome

variable {f : σ → Outcome τ}

theorem bind_eq_done_iff {o : Outcome σ} {r : τ} :
    o.bind f = done r ↔ ∃ s, o = done s ∧ f s = done r := by
  cases o with
  | panic => exact ⟨nofun, fun ⟨_, h, _⟩ => nomatch h⟩
  | running => exact ⟨nofun, fun ⟨_, h, _⟩ => nomatch h⟩
  | done s =>
    constructor
    · exact fun h => ⟨s, rfl, h⟩
    · rintro ⟨s', hs, h⟩
      cases hs
      exact h

theorem bind_eq_panic_iff {o : Outcome σ} :
    o.bind f = panic ↔ o = panic ∨ ∃ s, o = done s ∧ f s = panic := by
  cases o with
  | panic => exact ⟨fun _ => .inl rfl, fun _ => rfl⟩
  | running => exact ⟨nofun, fun h => by rcases h with h | ⟨_, h, _⟩ <;> cases h⟩
  | done s =>
    constructor
    · exact fun h => .inr ⟨s, rfl, h⟩
    · rintro (h | ⟨s', hs, h⟩)
      · cases h
      · cases hs
        exact h

/-- What follows a loop does not panic. -/
theorem bind_done_ne_panic_iff {g : σ → τ} {o : Outcome σ} :
    (o.bind fun s => done (g s)) ≠ panic ↔ o ≠ panic := by
  rw [ne_eq, bind_eq_panic_iff, or_iff_left]
  rintro ⟨s, -, hs⟩
  cases hs

theorem ofOption_eq_done_iff {o : Option σ} {s : σ} : ofOption o = done s ↔ o = some s := by
  cases o with
  | none => exact ⟨nofun, nofun⟩
  | some s' =>
    constructor
    · intro h
      cases h
      rfl
    · intro h
      cases h
      rfl

theorem ofOption_eq_panic_iff {o : Option σ} : ofOption o = panic ↔ o = none := by
  cases o with
  | none => exact ⟨fun _ => rfl, fun _ => rfl⟩
  | some s => exact ⟨nofun, nofun⟩

end Outcome

/-! ## The states of a run -/

section Run

variable {pass : σ → Option (Pass σ)}

theorem Visits.snoc {n : ℕ} {s s1 s2 : σ} (h : Visits pass n s s1)
    (h' : pass s1 = some (.again s2)) : Visits pass (n + 1) s s2 := by
  induction h with
  | refl s => exact .again h' (.refl _)
  | again hp _ ih => exact .again hp (ih h')

theorem run_eq_done_iff {fuel : ℕ} {s s' : σ} :
    run pass fuel s = .done s' ↔
      ∃ n ≤ fuel, ∃ s1, Visits pass n s s1 ∧ pass s1 = some (.leave s') := by
  induction fuel generalizing s with
  | zero =>
    rw [run]
    constructor
    · intro h
      split at h
      · cases h
      · rename_i hp
        cases h
        exact ⟨0, le_rfl, s, .refl s, hp⟩
      · cases h
    · rintro ⟨n, hn, s1, hvisits, hp⟩
      obtain rfl := Nat.le_zero.mp hn
      cases hvisits
      rw [hp]
  | succ fuel ih =>
    rw [run]
    constructor
    · intro h
      split at h
      · cases h
      · rename_i hp
        cases h
        exact ⟨0, Nat.zero_le _, s, .refl s, hp⟩
      · rename_i hp
        obtain ⟨n, hn, s1, hvisits, hleave⟩ := ih.mp h
        exact ⟨n + 1, Nat.succ_le_succ hn, s1, .again hp hvisits, hleave⟩
    · rintro ⟨n, hn, s1, hvisits, hleave⟩
      cases hvisits with
      | refl => rw [hleave]
      | again hp hrest =>
        rw [hp]
        exact ih.mpr ⟨_, Nat.le_of_succ_le_succ hn, s1, hrest, hleave⟩

theorem run_eq_panic_iff {fuel : ℕ} {s : σ} :
    run pass fuel s = .panic ↔ ∃ n ≤ fuel, ∃ s1, Visits pass n s s1 ∧ pass s1 = none := by
  induction fuel generalizing s with
  | zero =>
    rw [run]
    constructor
    · intro h
      split at h
      · rename_i hp
        exact ⟨0, le_rfl, s, .refl s, hp⟩
      · cases h
      · cases h
    · rintro ⟨n, hn, s1, hvisits, hp⟩
      obtain rfl := Nat.le_zero.mp hn
      cases hvisits
      rw [hp]
  | succ fuel ih =>
    rw [run]
    constructor
    · intro h
      split at h
      · rename_i hp
        exact ⟨0, Nat.zero_le _, s, .refl s, hp⟩
      · cases h
      · rename_i hp
        obtain ⟨n, hn, s1, hvisits, hnone⟩ := ih.mp h
        exact ⟨n + 1, Nat.succ_le_succ hn, s1, .again hp hvisits, hnone⟩
    · rintro ⟨n, hn, s1, hvisits, hnone⟩
      cases hvisits with
      | refl => rw [hnone]
      | again hp hrest =>
        rw [hp]
        exact ih.mpr ⟨_, Nat.le_of_succ_le_succ hn, s1, hrest, hnone⟩

theorem Always.here {P : σ → Prop} {s : σ} (h : Always pass P s) : P s := h 0 s (.refl s)

theorem Always.next {P : σ → Prop} {s s' : σ} (h : Always pass P s)
    (hp : pass s = some (.again s')) : Always pass P s' :=
  fun n s1 hvisits => h (n + 1) s1 (.again hp hvisits)

/-- An invariant of the passes holds of every visited state. -/
theorem Always.and {P Inv : σ → Prop} {s : σ} (h : Always pass P s) (hs : Inv s)
    (hstep : ∀ s s', P s → Inv s → pass s = some (.again s') → Inv s') :
    Always pass (fun s => P s ∧ Inv s) s := by
  intro n s' hvisits
  induction hvisits with
  | refl s => exact ⟨h.here, hs⟩
  | again hp _ ih => exact ih (h.next hp) (hstep _ _ h.here hs hp)

/-- A loop whose passes do not panic and lower a measure ends, within as many passes
    as the measure says. -/
theorem exists_run_eq_done {P Q : σ → Prop} (measure : σ → ℕ)
    (hpass : ∀ s, Always pass P s → (∃ s', pass s = some (.leave s') ∧ Q s') ∨
      ∃ s', pass s = some (.again s') ∧ measure s' < measure s)
    {fuel : ℕ} {s : σ} (hs : Always pass P s) (hfuel : measure s ≤ fuel) :
    ∃ s', run pass fuel s = .done s' ∧ Q s' := by
  induction fuel generalizing s with
  | zero =>
    rcases hpass s hs with ⟨s', hp, hQ⟩ | ⟨s', _, hlt⟩
    · exact ⟨s', by rw [run, hp], hQ⟩
    · omega
  | succ fuel ih =>
    rcases hpass s hs with ⟨s', hp, hQ⟩ | ⟨s', hp, hlt⟩
    · exact ⟨s', by rw [run, hp], hQ⟩
    · obtain ⟨s1, h1, hQ⟩ := ih (hs.next hp) (by omega)
      exact ⟨s1, by rw [run, hp]; exact h1, hQ⟩

theorem run_eq_done_mono {n m : ℕ} (hnm : n ≤ m) {s s' : σ} (h : run pass n s = .done s') :
    run pass m s = .done s' := by
  obtain ⟨k, hk, s1, hvisits, hleave⟩ := run_eq_done_iff.mp h
  exact run_eq_done_iff.mpr ⟨k, hk.trans hnm, s1, hvisits, hleave⟩

theorem run_eq_panic_mono {n m : ℕ} (hnm : n ≤ m) {s : σ} (h : run pass n s = .panic) :
    run pass m s = .panic := by
  obtain ⟨k, hk, s1, hvisits, hnone⟩ := run_eq_panic_iff.mp h
  exact run_eq_panic_iff.mpr ⟨k, hk.trans hnm, s1, hvisits, hnone⟩

theorem Visits.mono {pass' : σ → Option (Pass σ)}
    (h : ∀ s p, pass s = some p → pass' s = some p) {n : ℕ} {s s' : σ}
    (hvisits : Visits pass n s s') : Visits pass' n s s' := by
  induction hvisits with
  | refl s => exact .refl s
  | again hp _ ih => exact .again (h _ _ hp) ih

/-- What a loop returns, a loop returns whose pass is defined on more states. -/
theorem run_eq_done_of_imp {pass' : σ → Option (Pass σ)}
    (h : ∀ s p, pass s = some p → pass' s = some p) {fuel : ℕ} {s s' : σ}
    (hrun : run pass fuel s = .done s') : run pass' fuel s = .done s' := by
  obtain ⟨n, hn, s1, hvisits, hleave⟩ := run_eq_done_iff.mp hrun
  exact run_eq_done_iff.mpr ⟨n, hn, s1, hvisits.mono h, h _ _ hleave⟩

/-- A loop and what follows it do not panic exactly where neither does. -/
theorem run_bind_ne_panic_iff {s : σ} {f : ℕ → σ → Outcome τ}
    (hf : ∀ {n m}, n ≤ m → ∀ {s}, f n s = .panic → f m s = .panic) :
    (∀ fuel, (run pass fuel s).bind (f fuel) ≠ .panic) ↔
      (∀ fuel, run pass fuel s ≠ .panic) ∧
        ∀ fuel s', run pass fuel s = .done s' → ∀ n, f n s' ≠ .panic := by
  constructor
  · intro h
    refine ⟨fun fuel hp => h fuel (Outcome.bind_eq_panic_iff.mpr (.inl hp)), ?_⟩
    intro fuel s' hdone n hp
    refine h (max fuel n) (Outcome.bind_eq_panic_iff.mpr (.inr ⟨s', ?_, ?_⟩))
    · exact run_eq_done_mono (Nat.le_max_left _ _) hdone
    · exact hf (Nat.le_max_right _ _) hp
  · rintro ⟨hrun, hnext⟩ fuel hp
    rcases Outcome.bind_eq_panic_iff.mp hp with hpanic | ⟨s', hdone, hpanic⟩
    · exact hrun fuel hpanic
    · exact hnext fuel s' hdone fuel hpanic

/-- A loop that goes on from every state of an invariant does not end. -/
theorem run_ne_done {P : σ → Prop} (hpass : ∀ s, P s → ∃ s', pass s = some (.again s') ∧ P s')
    {s : σ} (hs : P s) (fuel : ℕ) (s' : σ) : run pass fuel s ≠ .done s' := by
  induction fuel generalizing s with
  | zero =>
    obtain ⟨s1, hp, -⟩ := hpass s hs
    rw [run, hp]
    exact nofun
  | succ fuel ih =>
    obtain ⟨s1, hp, h1⟩ := hpass s hs
    rw [run, hp]
    exact ih h1

end Run

/-! ## A loop that panics more often -/

section Checked

variable {checked wrapping : σ → Option (Pass σ)} {Fits : σ → Prop}
  (h : ∀ s p, checked s = some p ↔ Fits s ∧ wrapping s = some p)

include h

theorem visits_checked {n : ℕ} {s s' : σ} (hfits : Always wrapping Fits s) :
    Visits checked n s s' ↔ Visits wrapping n s s' := by
  constructor
  · intro hvisits
    clear hfits
    induction hvisits with
    | refl s => exact .refl s
    | again hp _ ih => exact .again ((h _ _).mp hp).2 ih
  · intro hvisits
    induction hvisits with
    | refl s => exact .refl s
    | again hp _ ih => exact .again ((h _ _).mpr ⟨hfits.here, hp⟩) (ih (hfits.next hp))

/-- The checked loop does not panic exactly where every visited state fits and the
    wrapping loop does not panic either. -/
theorem run_ne_panic_iff {s : σ} :
    (∀ fuel, run checked fuel s ≠ .panic) ↔
      Always wrapping Fits s ∧ ∀ fuel, run wrapping fuel s ≠ .panic := by
  constructor
  · intro hsafe
    have hsome : ∀ n s', Visits checked n s s' → ∃ p, checked s' = some p := by
      intro n s' hvisits
      refine Option.ne_none_iff_exists'.mp fun hnone => ?_
      exact hsafe n (run_eq_panic_iff.mpr ⟨n, le_rfl, s', hvisits, hnone⟩)
    have hvisits : ∀ n s', Visits wrapping n s s' → Visits checked n s s' := by
      intro n s' hw
      clear hsafe
      induction hw with
      | refl s => exact .refl s
      | again hp _ ih =>
        obtain ⟨p, hc⟩ := hsome 0 _ (.refl _)
        have hpc := ((h _ _).mp hc).2
        rw [hp] at hpc
        cases hpc
        exact .again hc (ih fun n s1 h1 => hsome (n + 1) s1 (.again hc h1))
    constructor
    · intro n s' hw
      obtain ⟨p, hp⟩ := hsome n s' (hvisits n s' hw)
      exact ((h s' p).mp hp).1
    · intro fuel hpanic
      obtain ⟨n, -, s1, hw, hnone⟩ := run_eq_panic_iff.mp hpanic
      obtain ⟨p, hp⟩ := hsome n s1 (hvisits n s1 hw)
      rw [((h s1 p).mp hp).2] at hnone
      cases hnone
  · rintro ⟨hfits, hsafe⟩ fuel hpanic
    obtain ⟨n, -, s1, hvisits, hnone⟩ := run_eq_panic_iff.mp hpanic
    have hw := (visits_checked h hfits).mp hvisits
    cases hp : wrapping s1 with
    | none => exact hsafe n (run_eq_panic_iff.mpr ⟨n, le_rfl, s1, hw, hp⟩)
    | some p =>
      rw [(h s1 p).mpr ⟨hfits n s1 hw, hp⟩] at hnone
      cases hnone

/-- Where every visited state fits, the two loops do the same. -/
theorem run_checked_eq {s : σ} (hfits : Always wrapping Fits s) (fuel : ℕ) :
    run checked fuel s = run wrapping fuel s := by
  have hpass : ∀ {s}, Fits s → checked s = wrapping s := by
    intro s hs
    ext p
    rw [h]
    exact and_iff_right hs
  induction fuel generalizing s with
  | zero => rw [run, run, hpass hfits.here]
  | succ fuel ih =>
    rw [run, run, hpass hfits.here]
    cases hp : wrapping s with
    | none => rfl
    | some p =>
      cases p with
      | leave s' => rfl
      | again s' => exact ih (hfits.next hp)

end Checked

/-! ## Loops over a list -/

section Fold

variable {α : Type} {f : σ → α → Option σ}

/-- A fold whose steps keep an invariant and do not panic where it holds. -/
theorem foldlM_total {P : σ → Prop} {l : List α}
    (h : ∀ s, ∀ a ∈ l, P s → ∃ s', f s a = some s' ∧ P s') {s : σ} (hs : P s) :
    ∃ s', l.foldlM f s = some s' ∧ P s' := by
  induction l generalizing s with
  | nil => exact ⟨s, rfl, hs⟩
  | cons a l ih =>
    obtain ⟨s1, h1, hs1⟩ := h s a List.mem_cons_self hs
    obtain ⟨s2, h2, hs2⟩ := ih (fun s b hb => h s b (List.mem_cons_of_mem _ hb)) hs1
    refine ⟨s2, ?_, hs2⟩
    rw [List.foldlM_cons, h1]
    exact h2

/-- A fold one of whose two versions panics more often, in a way that depends only on
    the element. -/
theorem foldlM_checked_iff {g : σ → α → Option σ} {Fits : α → Prop}
    (h : ∀ s a r, f s a = some r ↔ Fits a ∧ g s a = some r) {l : List α} {s r : σ} :
    l.foldlM f s = some r ↔ (∀ a ∈ l, Fits a) ∧ l.foldlM g s = some r := by
  induction l generalizing s with
  | nil => exact ⟨fun hr => ⟨nofun, hr⟩, fun hr => hr.2⟩
  | cons a l ih =>
    rw [List.foldlM_cons, List.foldlM_cons]
    simp only [Option.bind_eq_bind, Option.bind_eq_some_iff, h, ih, List.forall_mem_cons]
    constructor
    · rintro ⟨s1, ⟨ha, h1⟩, hl, hrest⟩
      exact ⟨⟨ha, hl⟩, s1, h1, hrest⟩
    · rintro ⟨⟨ha, hl⟩, s1, h1, hrest⟩
      exact ⟨s1, ⟨ha, h1⟩, hl, hrest⟩

/-- A fold that appends to what it has collected takes no notice of it. -/
theorem foldlM_append_out {β : Type} {f : List β × σ → α → Option (List β × σ)}
    (h : ∀ out bs s a, f (out ++ bs, s) a = (f (bs, s) a).map fun r => (out ++ r.1, r.2))
    (l : List α) (out bs : List β) (s : σ) :
    l.foldlM f (out ++ bs, s) = (l.foldlM f (bs, s)).map fun r => (out ++ r.1, r.2) := by
  induction l generalizing bs s with
  | nil => rfl
  | cons a l ih =>
    rw [List.foldlM_cons, List.foldlM_cons, h]
    cases f (bs, s) a with
    | none => rfl
    | some r => exact ih r.1 r.2

/-- A fold that appends so many elements at a time. -/
theorem length_foldlM {β : Type} {f : List β × σ → α → Option (List β × σ)} {k : ℕ}
    (h : ∀ s a r, f s a = some r → r.1.length = s.1.length + k) {l : List α}
    {s r : List β × σ} (hr : l.foldlM f s = some r) : r.1.length = s.1.length + k * l.length := by
  induction l generalizing s with
  | nil => cases hr; rfl
  | cons a l ih =>
    rw [List.foldlM_cons] at hr
    obtain ⟨s1, h1, hr⟩ := Option.bind_eq_some_iff.mp hr
    rw [ih hr, h _ _ _ h1, List.length_cons, Nat.mul_succ]
    omega

end Fold

theorem mapM_congr {α β : Type} {f g : α → Option β} {l : List α} (h : ∀ a ∈ l, f a = g a) :
    l.mapM f = l.mapM g := by
  induction l with
  | nil => rfl
  | cons a l ih =>
    rw [List.mapM_cons, List.mapM_cons, h a List.mem_cons_self,
      ih fun b hb => h b (List.mem_cons_of_mem _ hb)]

/-- A loop that only checks its elements. -/
theorem forM_eq_some_iff {α : Type} {f : α → Option Unit} {l : List α} :
    l.forM f = some () ↔ ∀ a ∈ l, f a = some () := by
  induction l with
  | nil => exact iff_of_true rfl nofun
  | cons a l ih =>
    show (f a >>= fun _ => l.forM f) = some () ↔ _
    rw [List.forall_mem_cons, ← ih]
    cases f a with
    | none => exact ⟨nofun, nofun⟩
    | some u => exact (and_iff_right rfl).symm

/-- What is done to every element can be done after the loop. -/
theorem mapM_map_right {α β γ : Type} (f : α → Option β) (g : β → γ) (l : List α) :
    (l.mapM fun a => (f a).map g) = (l.mapM f).map (List.map g) := by
  induction l with
  | nil => rfl
  | cons a l ih =>
    rw [List.mapM_cons, List.mapM_cons, ih]
    cases f a with
    | none => rfl
    | some b =>
      cases l.mapM f with
      | none => rfl
      | some bs => rfl

/-- A loop that computes a list, one element after the other, where no element panics. -/
theorem exists_mapM {α β : Type} {f : α → Option β} {g : ℕ → α} {P : ℕ → β → Prop} {n : ℕ}
    (h : ∀ i < n, ∃ b, f (g i) = some b ∧ P i b) :
    ∃ bs, ((List.range n).map g).mapM f = some bs ∧ bs.length = n ∧
      ∀ i (hi : i < bs.length), P i bs[i] := by
  induction n with
  | zero => exact ⟨[], rfl, rfl, nofun⟩
  | succ n ih =>
    obtain ⟨bs, hbs, hlen, hP⟩ := ih fun i hi => h i (Nat.lt_succ_of_lt hi)
    obtain ⟨b, hb, hPb⟩ := h n (Nat.lt_succ_self n)
    refine ⟨bs ++ [b], ?_, by rw [List.length_append, List.length_singleton, hlen], ?_⟩
    · rw [List.range_succ, List.map_append, List.mapM_append, hbs]
      simp [hb]
    · intro i hi
      rw [List.length_append, List.length_singleton] at hi
      by_cases hlast : i < bs.length
      · rw [List.getElem_append_left hlast]
        exact hP i hlast
      · obtain rfl : i = bs.length := by omega
        rw [List.getElem_concat_length rfl]
        rw [hlen]
        exact hPb

/-- Two nested loops over ranges are one loop over the pairs, the inner index running first. -/
theorem range_flatMap_map {α : Type} (a b : ℕ) (g : ℕ → ℕ → α) :
    (List.range a).flatMap (fun r => (List.range b).map (g r)) =
      (List.range (a * b)).map fun i => g (i / b) (i % b) := by
  induction a with
  | zero => rw [Nat.zero_mul, List.range_zero, List.flatMap_nil, List.map_nil]
  | succ a ih =>
    rw [List.range_succ, List.flatMap_append, ih, Nat.succ_mul, List.range_add, List.map_append,
      List.map_map]
    congr 1
    rw [List.flatMap_singleton]
    refine List.map_congr_left fun i hi => ?_
    have hib : i < b := List.mem_range.mp hi
    show g a i = g ((a * b + i) / b) ((a * b + i) % b)
    rw [Nat.mul_comm a b, Nat.mul_add_div (Nat.zero_lt_of_lt hib), Nat.mul_add_mod,
      Nat.div_eq_of_lt hib, Nat.mod_eq_of_lt hib, Nat.add_zero]

/-- An entry of a table of rows of one length. -/
theorem getD_flatten {α : Type} {rows : List (List α)} {k : ℕ} (hk : 0 < k)
    (h : ∀ r ∈ rows, r.length = k) (i : ℕ) (d : α) :
    rows.flatten.getD i d = (rows.getD (i / k) []).getD (i % k) d := by
  induction rows generalizing i with
  | nil => rfl
  | cons r rows ih =>
    have hr : r.length = k := h r List.mem_cons_self
    rw [List.flatten_cons]
    by_cases hi : i < k
    · rw [Nat.div_eq_of_lt hi, Nat.mod_eq_of_lt hi, List.getD_append _ _ _ _ (by omega)]
      rfl
    · have hsub : i / k = (i - k) / k + 1 := by
        rw [Nat.div_eq_sub_div hk (by omega)]
      rw [List.getD_append_right _ _ _ _ (by omega), hr, hsub, List.getD_cons_succ,
        ih (fun r' hr' => h r' (List.mem_cons_of_mem _ hr')), ← Nat.mod_eq_sub_mod (by omega)]

end Loops
