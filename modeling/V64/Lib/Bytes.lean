import Mathlib.Algebra.Order.Ring.Nat
import Mathlib.Logic.Function.Basic
import Mathlib.Tactic.Common

/-!
# Little-endian access to a byte array

A byte array is a function from offsets. `loadLe` assembles `n` bytes into a
word of any width, `storeLe` scatters the low `n` bytes of a word.

* `getLsbD_loadLe`: every bit of a loaded word is a bit of one byte.
* `loadLe_storeLe`, `loadLe_storeLe_disjoint`: what is stored is loaded back,
  and a load elsewhere does not see the store.
* `storeLe_storeLe_append`: a store splits at any byte.
* `storeLe_congr`: a store takes the low bits of its word.
* `ofBe_toBe`: a word is read back from its bytes, most significant first.
-/

namespace Bytes

/-- The `n` bytes from offset `o`, least significant first, in a `w`-bit word. -/
def loadLe (w : ℕ) (mem : ℕ → BitVec 8) (o : ℕ) : ℕ → BitVec w
  | 0 => 0
  | n + 1 => loadLe w mem o n ||| ((mem (o + n)).setWidth w <<< (8 * n))

/-- The low `n` bytes of `val`, least significant first, at offset `o`. -/
def storeLe {w : ℕ} (mem : ℕ → BitVec 8) (o n : ℕ) (val : BitVec w) : ℕ → BitVec 8 := fun a =>
  if o ≤ a ∧ a < o + n then (val >>> (8 * (a - o))).setWidth 8 else mem a

/-- The `n` low bytes of a word, least significant first. -/
def toLe {w : ℕ} (n : ℕ) (val : BitVec w) : List (BitVec 8) :=
  (List.range n).map fun k => (val >>> (8 * k)).setWidth 8

/-- The word of a list of bytes, least significant first. -/
def ofLe (w : ℕ) (bytes : List (BitVec 8)) : BitVec w :=
  loadLe w (fun i => bytes.getD i 0) 0 bytes.length

/-- The `n` low bytes of a word, most significant first. -/
def toBe {w : ℕ} (n : ℕ) (val : BitVec w) : List (BitVec 8) := (toLe n val).reverse

/-- The word of a list of bytes, most significant first. -/
def ofBe (w : ℕ) (bytes : List (BitVec 8)) : BitVec w := ofLe w bytes.reverse

@[simp] theorem length_toLe {w : ℕ} (n : ℕ) (val : BitVec w) : (toLe n val).length = n := by
  rw [toLe, List.length_map, List.length_range]

@[simp] theorem length_toBe {w : ℕ} (n : ℕ) (val : BitVec w) : (toBe n val).length = n := by
  rw [toBe, List.length_reverse, length_toLe]

variable {w : ℕ} (mem mem' : ℕ → BitVec 8) (o o' n n' : ℕ) (val : BitVec w)

theorem getLsbD_loadLe (k : ℕ) :
    (loadLe w mem o n).getLsbD k =
      (decide (k < w) && decide (k < 8 * n) && (mem (o + k / 8)).getLsbD (k % 8)) := by
  induction n with
  | zero => simp [loadLe]
  | succ n ih =>
    rw [loadLe, BitVec.getLsbD_or, ih, BitVec.getLsbD_shiftLeft, BitVec.getLsbD_setWidth]
    by_cases hw : k < w
    · rcases Nat.lt_or_ge k (8 * n) with hn | hn
      · have hk : k < 8 * (n + 1) := by omega
        simp [hw, hn, hk]
      · rcases Nat.lt_or_ge k (8 * (n + 1)) with hk | hk
        · have hdiv : k / 8 = n := by omega
          have hmod : k - 8 * n = k % 8 := by omega
          have hlt : k % 8 < w := by omega
          simp [hw, Nat.not_lt.mpr hn, hk, hdiv, hmod, hlt]
        · have hbig : 8 ≤ k - 8 * n := by omega
          simp [hw, Nat.not_lt.mpr hn, Nat.not_lt.mpr hk, BitVec.getLsbD_of_ge _ _ hbig]
    · simp [hw]

/-- The bytes of a loaded word. -/
theorem byte_loadLe (h : 8 * n ≤ w) {k : ℕ} (hk : k < n) :
    ((loadLe w mem o n) >>> (8 * k)).setWidth 8 = mem (o + k) := by
  apply BitVec.eq_of_getLsbD_eq
  intro i hi
  have hdiv : (8 * k + i) / 8 = k := by omega
  have hmod : (8 * k + i) % 8 = i := by omega
  rw [BitVec.getLsbD_setWidth, BitVec.getLsbD_ushiftRight, getLsbD_loadLe, hdiv, hmod,
    decide_eq_true hi, decide_eq_true (by omega : 8 * k + i < w),
    decide_eq_true (by omega : 8 * k + i < 8 * n), Bool.true_and, Bool.true_and, Bool.true_and]

/-- A load reads only the bytes it names. -/
theorem loadLe_congr (h : ∀ i < n, mem (o + i) = mem' (o + i)) :
    loadLe w mem o n = loadLe w mem' o n := by
  induction n with
  | zero => rfl
  | succ n ih => rw [loadLe, loadLe, ih fun i hi => h i (by omega), h n (by omega)]

theorem setWidth_loadLe {v : ℕ} (h : v ≤ w ∨ 8 * n ≤ w) :
    (loadLe w mem o n).setWidth v = loadLe v mem o n := by
  ext k hk
  simp only [← BitVec.getLsbD_eq_getElem, BitVec.getLsbD_setWidth, getLsbD_loadLe]
  by_cases hn : k < 8 * n
  · have hw : k < w := by omega
    simp [hk, hw]
  · simp [hn]

theorem loadLe_one : loadLe 8 mem o 1 = mem o := by
  rw [loadLe, loadLe, Nat.mul_zero, Nat.add_zero, BitVec.shiftLeft_zero, BitVec.setWidth_eq]
  exact BitVec.zero_or

/-- The bytes of a loaded word. -/
theorem toLe_loadLe (h : 8 * n ≤ w) :
    toLe n (loadLe w mem o n) = (List.range n).map fun k => mem (o + k) :=
  List.map_congr_left fun _ hk => byte_loadLe mem o n h (List.mem_range.mp hk)

/-- A double word is its two halves. -/
theorem loadLe_append_loadLe :
    loadLe 64 mem (o + 8) 8 ++ loadLe 64 mem o 8 = loadLe 128 mem o 16 := by
  ext k hk
  rw [BitVec.getElem_append]
  simp only [← BitVec.getLsbD_eq_getElem, getLsbD_loadLe]
  rcases Nat.lt_or_ge k 64 with hlow | hhigh
  · have h16 : k < 128 := by omega
    simp [hlow, h16]
  · have hdiv : o + 8 + (k - 64) / 8 = o + k / 8 := by omega
    have hmod : (k - 64) % 8 = k % 8 := by omega
    have hlt : k - 64 < 64 := by omega
    simp [Nat.not_lt.mpr hhigh, hdiv, hmod, hlt, hk]

theorem storeLe_of_not_mem {a : ℕ} (h : a < o ∨ o + n ≤ a) : storeLe mem o n val a = mem a := by
  unfold storeLe
  rw [if_neg (by omega)]

theorem storeLe_add {i : ℕ} (h : i < n) :
    storeLe mem o n val (o + i) = (val >>> (8 * i)).setWidth 8 := by
  unfold storeLe
  rw [if_pos (by omega), Nat.add_sub_cancel_left]

/-- What `n` bytes hold of a stored word is its low `8 * n` bits. -/
theorem loadLe_storeLe {v : ℕ} (h : v ≤ 8 * n) :
    loadLe v (storeLe mem o n val) o n = val.setWidth v := by
  ext k hk
  simp only [← BitVec.getLsbD_eq_getElem, getLsbD_loadLe, BitVec.getLsbD_setWidth]
  have hbit : k / 8 < n := by omega
  have hsum : 8 * (k / 8) + k % 8 = k := Nat.div_add_mod k 8
  have hmod : k % 8 < 8 := Nat.mod_lt _ (by decide)
  have hk8 : k < 8 * n := by omega
  rw [storeLe_add _ _ _ _ hbit]
  simp [hk, hk8, hmod, hsum]

theorem loadLe_storeLe_disjoint {v : ℕ} (h : o + n ≤ o' ∨ o' + n' ≤ o) :
    loadLe v (storeLe mem o n val) o' n' = loadLe v mem o' n' :=
  loadLe_congr _ _ _ _ fun i hi => storeLe_of_not_mem _ _ _ _ (by omega)

/-- A store splits at any byte. -/
theorem storeLe_storeLe_append :
    storeLe (storeLe mem o n val) (o + n) n' (val >>> (8 * n)) = storeLe mem o (n + n') val := by
  funext a
  unfold storeLe
  by_cases h1 : o + n ≤ a ∧ a < o + n + n'
  · have h2 : o ≤ a ∧ a < o + (n + n') := by omega
    have h3 : 8 * n + 8 * (a - (o + n)) = 8 * (a - o) := by omega
    rw [if_pos h1, if_pos h2, ← BitVec.shiftRight_add, h3]
  · by_cases h2 : o ≤ a ∧ a < o + n
    · rw [if_neg h1, if_pos h2, if_pos (by omega)]
    · rw [if_neg h1, if_neg h2, if_neg (by omega)]

/-- A store of `n` bytes takes the low `8 * n` bits of its word. -/
theorem storeLe_congr {v : ℕ} (val' : BitVec v)
    (h : ∀ k < 8 * n, val.getLsbD k = val'.getLsbD k) :
    storeLe mem o n val = storeLe mem o n val' := by
  funext a
  unfold storeLe
  split_ifs with ha
  · ext k hk
    have hbit : 8 * (a - o) + k < 8 * n := by omega
    simp only [← BitVec.getLsbD_eq_getElem, BitVec.getLsbD_setWidth, BitVec.getLsbD_ushiftRight,
      h _ hbit]
  · rfl

@[simp] theorem storeLe_zero : storeLe mem o 0 val = mem := by
  funext a
  exact storeLe_of_not_mem _ _ _ _ (by omega)

theorem ofLe_append_singleton (bytes : List (BitVec 8)) (b : BitVec 8) :
    ofLe w (bytes ++ [b]) = ofLe w bytes ||| (b.setWidth w <<< (8 * bytes.length)) := by
  have hlast : (bytes ++ [b]).getD (0 + bytes.length) 0 = b := by simp
  have hinit : loadLe w (fun i => (bytes ++ [b]).getD i 0) 0 bytes.length = ofLe w bytes := by
    refine loadLe_congr _ _ _ _ fun i hi => ?_
    simp [List.getElem?_append_left hi]
  unfold ofLe at hinit ⊢
  rw [List.length_append, List.length_singleton, loadLe, hinit, hlast]

theorem setWidth_ofLe {v : ℕ} (h : v ≤ w) (bytes : List (BitVec 8)) :
    (ofLe w bytes).setWidth v = ofLe v bytes := setWidth_loadLe _ _ _ (.inl h)

/-- The bytes of the word of a list. -/
theorem byte_ofLe {bytes : List (BitVec 8)} (h : 8 * bytes.length ≤ w) {k : ℕ}
    (hk : k < bytes.length) : ((ofLe w bytes) >>> (8 * k)).setWidth 8 = bytes[k] := by
  unfold ofLe
  rw [byte_loadLe _ _ _ h hk, Nat.zero_add, List.getD_eq_getElem?_getD,
    List.getElem?_eq_getElem hk, Option.getD_some]

/-- A word that `n` bytes hold is the word of its bytes. -/
theorem ofLe_toLe (h : w ≤ 8 * n) : ofLe w (toLe n val) = val := by
  have hbytes : ∀ i < n, (toLe n val).getD (0 + i) 0 = storeLe (fun _ => 0) 0 n val (0 + i) := by
    intro i hi
    rw [storeLe_add _ _ _ _ hi, Nat.zero_add, toLe, List.getD_eq_getElem?_getD,
      List.getElem?_map, List.getElem?_range hi]
    rfl
  rw [ofLe, length_toLe, loadLe_congr _ _ _ _ hbytes, loadLe_storeLe _ _ _ _ h,
    BitVec.setWidth_eq]

theorem ofBe_toBe (h : w ≤ 8 * n) : ofBe w (toBe n val) = val := by
  rw [ofBe, toBe, List.reverse_reverse, ofLe_toLe _ _ h]

end Bytes
