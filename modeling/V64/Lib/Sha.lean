import Mathlib.Data.BitVec
import Mathlib.Tactic.Common

/-!
# SHA-1 and SHA-256

The compression rounds and the message schedules of FIPS 180-4, on words of 32 bits. A
round takes `W t + K t` as one word.

* `State256`, `round256`, `next256`: SHA-256.
* `State160`, `round160`, `next160`: SHA-1.
* `ch_eq`, `maj_eq`: the usual forms of the bitwise functions.
-/

namespace Sha

abbrev Word := BitVec 32

/-! ## Functions of words (4.1) -/

/-- `Ch(x, y, z)`. -/
def ch (x y z : Word) : Word := (x &&& y) ^^^ (~~~x &&& z)

/-- `Parity(x, y, z)`. -/
def parity (x y z : Word) : Word := x ^^^ y ^^^ z

/-- `Maj(x, y, z)`. -/
def maj (x y z : Word) : Word := (x &&& y) ^^^ (x &&& z) ^^^ (y &&& z)

/-- `Σ₀` of SHA-256. -/
def bigSigma0 (x : Word) : Word := x.rotateRight 2 ^^^ x.rotateRight 13 ^^^ x.rotateRight 22

/-- `Σ₁` of SHA-256. -/
def bigSigma1 (x : Word) : Word := x.rotateRight 6 ^^^ x.rotateRight 11 ^^^ x.rotateRight 25

/-- `σ₀` of SHA-256. -/
def smallSigma0 (x : Word) : Word := x.rotateRight 7 ^^^ x.rotateRight 18 ^^^ (x >>> 3)

/-- `σ₁` of SHA-256. -/
def smallSigma1 (x : Word) : Word := x.rotateRight 17 ^^^ x.rotateRight 19 ^^^ (x >>> 10)

/-- A choice of bits with one conjunction. -/
theorem ch_eq (x y z : Word) : ch x y z = (x &&& (y ^^^ z)) ^^^ z := by
  apply BitVec.eq_of_getLsbD_eq
  intro i hi
  simp only [ch, BitVec.getLsbD_xor, BitVec.getLsbD_and, BitVec.getLsbD_not, decide_eq_true hi,
    Bool.true_and]
  cases x.getLsbD i <;> simp

/-- A majority of bits with two conjunctions. -/
theorem maj_eq (x y z : Word) : maj x y z = (x &&& y) ||| ((x ||| y) &&& z) := by
  apply BitVec.eq_of_getLsbD_eq
  intro i hi
  simp only [maj, BitVec.getLsbD_xor, BitVec.getLsbD_and, BitVec.getLsbD_or]
  cases x.getLsbD i <;> cases y.getLsbD i <;> simp

/-! ## SHA-256 (6.2.2) -/

/-- The working variables of SHA-256. -/
structure State256 where
  a : Word
  b : Word
  c : Word
  d : Word
  e : Word
  f : Word
  g : Word
  h : Word

/-- One round of the compression function, with `k = K t + W t`. -/
def round256 (s : State256) (k : Word) : State256 :=
  let t1 := s.h + bigSigma1 s.e + ch s.e s.f s.g + k
  let t2 := bigSigma0 s.a + maj s.a s.b s.c
  { a := t1 + t2, b := s.a, c := s.b, d := s.c, e := s.d + t1, f := s.e, g := s.f, h := s.g }

instance neZeroSixteen : NeZero 16 := ⟨by decide⟩

/-- The window of sixteen words of the message schedule. -/
abbrev Window := Fin 16 → Word

/-- The window with the word `x` after its last. -/
def Window.push (w : Window) (x : Word) : Window := fun i =>
  if h : i.val < 15 then w ⟨i.val + 1, by omega⟩ else x

/-- The window one word further in the schedule of SHA-256. -/
def next256 (w : Window) : Window :=
  w.push (smallSigma1 (w 14) + w 9 + smallSigma0 (w 1) + w 0)

/-! ## SHA-1 (6.1.2) -/

/-- The working variables of SHA-1. -/
structure State160 where
  a : Word
  b : Word
  c : Word
  d : Word
  e : Word

/-- One round of the compression function with the function `f`, with `k = K t + W t`. -/
def round160 (f : Word → Word → Word → Word) (s : State160) (k : Word) : State160 :=
  let t := s.a.rotateLeft 5 + f s.b s.c s.d + s.e + k
  { a := t, b := s.a, c := s.b.rotateLeft 30, d := s.c, e := s.d }

/-- The window one word further in the schedule of SHA-1. -/
def next160 (w : Window) : Window := w.push ((w 13 ^^^ w 8 ^^^ w 2 ^^^ w 0).rotateLeft 1)

end Sha
