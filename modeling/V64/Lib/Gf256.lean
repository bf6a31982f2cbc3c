import Mathlib.Algebra.Ring.Defs
import Mathlib.Data.BitVec
import Mathlib.Logic.Function.Iterate
import Mathlib.Tactic.Common

/-!
# The field of 256 elements

Bytes as polynomials over GF(2) of degree less than 8, modulo `x⁸ + x⁴ + x³ + x + 1`.

* `Linear.ext`: two linear maps of words are equal when they agree on the words of one bit.
* `mulByte`: the product of two bytes.
* `mulByte_comm`, `mulByte_assoc`: by linearity, from the products of single bits.
* `Gf256`: the bytes as a commutative ring.
-/

/-! ## Linear maps of words -/

namespace Gf2

/-- A map of words that commutes with the exclusive or. -/
def Linear {n m : ℕ} (f : BitVec n → BitVec m) : Prop := ∀ a b, f (a ^^^ b) = f a ^^^ f b

namespace Linear

variable {n m k : ℕ} {f g : BitVec n → BitVec m}

theorem zero (hf : Linear f) : f 0 = 0 := by
  have h := hf 0 0
  rw [BitVec.xor_self, BitVec.xor_self] at h
  exact h

theorem comp {e : BitVec m → BitVec k} (he : Linear e) (hf : Linear f) :
    Linear fun a => e (f a) := by
  intro a b
  show e (f (a ^^^ b)) = e (f a) ^^^ e (f b)
  rw [hf, he]

theorem xor (hf : Linear f) (hg : Linear g) : Linear fun a => f a ^^^ g a := by
  intro a b
  show f (a ^^^ b) ^^^ g (a ^^^ b) = f a ^^^ g a ^^^ (f b ^^^ g b)
  rw [hf, hg, BitVec.xor_assoc, BitVec.xor_assoc, ← BitVec.xor_assoc (f b),
    BitVec.xor_comm (f b), BitVec.xor_assoc (g a)]

theorem const_zero : Linear fun _ : BitVec n => (0 : BitVec m) := fun _ _ => BitVec.xor_self.symm

/-- A word that one bit of the argument selects. -/
theorem select {p : BitVec n → Bool} (hp : ∀ a b, p (a ^^^ b) = (p a ^^ p b)) (c : BitVec m) :
    Linear fun a => if p a then c else 0 := by
  intro a b
  dsimp only
  rw [hp]
  cases p a <;> cases p b <;> simp

theorem iterate {e : BitVec n → BitVec n} (he : Linear e) (i : ℕ) : Linear e^[i] := by
  induction i with
  | zero => exact fun a b => rfl
  | succ i ih =>
    intro a b
    rw [Function.iterate_succ_apply', Function.iterate_succ_apply', Function.iterate_succ_apply',
      ih, he]

/-- Two linear maps that agree on the words of one bit agree on all words. -/
theorem ext (hf : Linear f) (hg : Linear g)
    (h : ∀ i < n, f (BitVec.twoPow n i) = g (BitVec.twoPow n i)) : f = g := by
  -- by the number of low bits that a word may have
  have hlow : ∀ k ≤ n, ∀ a : BitVec n, (∀ i, k ≤ i → a.getLsbD i = false) → f a = g a := by
    intro k
    induction k with
    | zero =>
      intro _ a ha
      have hzero : a = 0 := by
        apply BitVec.eq_of_getLsbD_eq
        intro i _
        rw [ha i (Nat.zero_le i)]
        exact BitVec.getLsbD_zero.symm
      rw [hzero, hf.zero, hg.zero]
    | succ k ih =>
      intro hk a ha
      by_cases hbit : a.getLsbD k = true
      · have hrest : f (a ^^^ BitVec.twoPow n k) = g (a ^^^ BitVec.twoPow n k) := by
          refine ih (by omega) _ fun i hi => ?_
          rw [BitVec.getLsbD_xor, BitVec.getLsbD_twoPow]
          by_cases hik : k = i
          · rw [← hik, hbit, decide_eq_true (by omega : k < n), decide_eq_true rfl]
            rfl
          · rw [ha i (by omega), decide_eq_false hik, Bool.and_false]
            rfl
        rw [hf, hg, h k (by omega)] at hrest
        exact (BitVec.xor_left_inj _).mp hrest
      · refine ih (by omega) a fun i hi => ?_
        rcases Nat.eq_or_lt_of_le hi with rfl | hlt
        · exact Bool.eq_false_iff.mpr hbit
        · exact ha i hlt
  funext a
  exact hlow n le_rfl a fun i hi => BitVec.getLsbD_of_ge a i hi

end Linear

end Gf2

/-! ## Multiplication -/

namespace Gf256

open Gf2

/-- The product of a polynomial and `x`. -/
def xtime (a : BitVec 8) : BitVec 8 := a <<< 1 ^^^ if a.msb then 0x1b else 0

/-- The product of `a` and the `n` lowest terms of `b`. -/
def mulTerms (a b : BitVec 8) : ℕ → BitVec 8
  | 0 => 0
  | n + 1 => mulTerms a b n ^^^ if b.getLsbD n then xtime^[n] a else 0

/-- The product of two polynomials. -/
def mulByte (a b : BitVec 8) : BitVec 8 := mulTerms a b 8

theorem linear_xtime : Linear xtime := by
  have hshift : Linear fun a : BitVec 8 => a <<< 1 := fun a b => BitVec.shiftLeft_xor_distrib a b 1
  exact hshift.xor (Linear.select (fun _ _ => BitVec.msb_xor) _)

theorem linear_mulTerms_left (b : BitVec 8) (n : ℕ) : Linear fun a => mulTerms a b n := by
  induction n with
  | zero => exact Linear.const_zero
  | succ n ih =>
    refine ih.xor ?_
    cases b.getLsbD n with
    | false => exact Linear.const_zero
    | true => exact linear_xtime.iterate n

theorem linear_mulTerms_right (a : BitVec 8) (n : ℕ) : Linear fun b => mulTerms a b n := by
  induction n with
  | zero => exact Linear.const_zero
  | succ n ih => exact ih.xor (Linear.select (fun _ _ => BitVec.getLsbD_xor) _)

theorem linear_mulByte_left (b : BitVec 8) : Linear fun a => mulByte a b := linear_mulTerms_left b 8

theorem linear_mulByte_right (a : BitVec 8) : Linear (mulByte a) := linear_mulTerms_right a 8

theorem mulByte_comm (a b : BitVec 8) : mulByte a b = mulByte b a := by
  have hbits : ∀ i < 8, ∀ j < 8, mulByte (BitVec.twoPow 8 i) (BitVec.twoPow 8 j) =
      mulByte (BitVec.twoPow 8 j) (BitVec.twoPow 8 i) := by
    decide +kernel
  have hbit (j : ℕ) (hj : j < 8) : (fun a => mulByte a (BitVec.twoPow 8 j)) =
      mulByte (BitVec.twoPow 8 j) :=
    (linear_mulByte_left _).ext (linear_mulByte_right _) fun i hi => hbits i hi j hj
  have hall : mulByte a = fun b => mulByte b a :=
    (linear_mulByte_right a).ext (linear_mulByte_left a) fun j hj => congrFun (hbit j hj) a
  exact congrFun hall b

theorem one_mulByte (a : BitVec 8) : mulByte 1 a = a := by
  have hid : Linear (id : BitVec 8 → BitVec 8) := fun _ _ => rfl
  have hall : mulByte 1 = id := (linear_mulByte_right 1).ext hid (by decide +kernel)
  exact congrFun hall a

theorem mulByte_assoc (a b c : BitVec 8) :
    mulByte (mulByte a b) c = mulByte a (mulByte b c) := by
  have hbits : ∀ i < 8, ∀ j < 8, ∀ k < 8,
      mulByte (mulByte (BitVec.twoPow 8 i) (BitVec.twoPow 8 j)) (BitVec.twoPow 8 k) =
        mulByte (BitVec.twoPow 8 i) (mulByte (BitVec.twoPow 8 j) (BitVec.twoPow 8 k)) := by
    decide +kernel
  have hright (x : BitVec 8) := linear_mulByte_right x
  have hleft (x : BitVec 8) := linear_mulByte_left x
  -- one argument after the other
  have ha (j : ℕ) (hj : j < 8) (k : ℕ) (hk : k < 8) :
      (fun a => mulByte (mulByte a (BitVec.twoPow 8 j)) (BitVec.twoPow 8 k)) =
        fun a => mulByte a (mulByte (BitVec.twoPow 8 j) (BitVec.twoPow 8 k)) :=
    ((hleft _).comp (hleft _)).ext (hleft _) fun i hi => hbits i hi j hj k hk
  have hb (k : ℕ) (hk : k < 8) : (fun b => mulByte (mulByte a b) (BitVec.twoPow 8 k)) =
      fun b => mulByte a (mulByte b (BitVec.twoPow 8 k)) :=
    ((hleft _).comp (hright a)).ext ((hright a).comp (hleft _)) fun j hj =>
      congrFun (ha j hj k hk) a
  have hc : mulByte (mulByte a b) = fun c => mulByte a (mulByte b c) :=
    (hright _).ext ((hright a).comp (hright b)) fun k hk => congrFun (hb k hk) b
  exact congrFun hc c

end Gf256

/-! ## The ring -/

/-- An element of the field, by its byte. -/
@[ext] structure Gf256 where
  byte : BitVec 8
  deriving DecidableEq

namespace Gf256

instance : Zero Gf256 := ⟨⟨0⟩⟩

instance : One Gf256 := ⟨⟨1⟩⟩

instance : Add Gf256 := ⟨fun a b => ⟨a.byte ^^^ b.byte⟩⟩

instance : Neg Gf256 := ⟨id⟩

instance : Mul Gf256 := ⟨fun a b => ⟨mulByte a.byte b.byte⟩⟩

@[simp] theorem byte_zero : (0 : Gf256).byte = 0 := rfl

@[simp] theorem byte_one : (1 : Gf256).byte = 1 := rfl

@[simp] theorem byte_add (a b : Gf256) : (a + b).byte = a.byte ^^^ b.byte := rfl

@[simp] theorem byte_mul (a b : Gf256) : (a * b).byte = mulByte a.byte b.byte := rfl

instance : CommRing Gf256 where
  nsmul := nsmulRec
  zsmul := zsmulRec
  add_assoc a b c := Gf256.ext (BitVec.xor_assoc _ _ _)
  zero_add a := Gf256.ext BitVec.zero_xor
  add_zero a := Gf256.ext BitVec.xor_zero
  add_comm a b := Gf256.ext (BitVec.xor_comm _ _)
  neg_add_cancel a := Gf256.ext BitVec.xor_self
  left_distrib a b c := Gf256.ext (linear_mulByte_right a.byte b.byte c.byte)
  right_distrib a b c := Gf256.ext (linear_mulByte_left c.byte a.byte b.byte)
  zero_mul a := Gf256.ext (linear_mulByte_left a.byte).zero
  mul_zero a := Gf256.ext (linear_mulByte_right a.byte).zero
  mul_assoc a b c := Gf256.ext (mulByte_assoc _ _ _)
  one_mul a := Gf256.ext (one_mulByte _)
  mul_one a := Gf256.ext ((mulByte_comm _ _).trans (one_mulByte _))
  mul_comm a b := Gf256.ext (mulByte_comm _ _)

end Gf256
