import Mathlib.Algebra.Order.Ring.Nat
import Mathlib.Logic.Function.Basic
import Mathlib.Tactic.Common

/-!
# NZCV condition flags

Model of `crates/cpu/src/flags.rs`: the four flags, and the packed word that
compiled blocks read and write.

* `fromNzcv_toNzcv`: unpacking what was packed gives the flags back.
* `toNzcv_bit_n`, …, `toNzcv_bit_v`: each flag sits alone at its bit.
-/

namespace V64.Cpu

/-- `Flags` (`crates/cpu/src/flags.rs`, lines 5–10). -/
structure Flags where
  n : Bool
  z : Bool
  c : Bool
  v : Bool
  deriving DecidableEq, Repr

/-- `u64::from(bool)`. -/
def bit64 (b : Bool) : BitVec 64 := if b then 1 else 0

@[simp] theorem bit64_true : bit64 true = 1 := rfl

@[simp] theorem bit64_false : bit64 false = 0 := rfl

theorem getLsbD_bit64 (b : Bool) (i : ℕ) : (bit64 b).getLsbD i = (b && decide (i = 0)) := by
  cases b <;> simp [bit64]

theorem and_one_eq_bit64 (v : BitVec 64) : v &&& 1 = bit64 (v.getLsbD 0) := by
  ext i hi
  rw [BitVec.getElem_and, BitVec.ofNat_eq_ofNat, BitVec.getElem_one, ← BitVec.getLsbD_eq_getElem,
    ← BitVec.getLsbD_eq_getElem, getLsbD_bit64]
  by_cases h : i = 0 <;> simp [h]

theorem and_one_beq_one (v : BitVec 64) : (v &&& 1 == 1) = v.getLsbD 0 := by
  rw [and_one_eq_bit64]
  cases v.getLsbD 0 <;> rfl

/-- Testing one bit after a shift tests that bit of the word. -/
theorem shiftRight_and_one_beq_one (v : BitVec 64) (k : ℕ) :
    ((v >>> k) &&& 1 == 1) = v.getLsbD k := by
  rw [and_one_beq_one, BitVec.getLsbD_ushiftRight, Nat.add_zero]

/-- The top bit of a value, moved down. -/
theorem shiftRight_eq_bit64 {v : BitVec 64} {k : ℕ} (h : v.toNat < 2 ^ (k + 1)) :
    v >>> k = bit64 (v.getLsbD k) := by
  apply BitVec.eq_of_toNat_eq
  have hdiv : v.toNat / 2 ^ k < 2 := by
    rw [Nat.div_lt_iff_lt_mul (Nat.two_pow_pos k), ← Nat.pow_succ']
    exact h
  rw [BitVec.toNat_ushiftRight, Nat.shiftRight_eq_div_pow, BitVec.getLsbD,
    Nat.testBit_eq_decide_div_mod_eq]
  generalize v.toNat / 2 ^ k = q at hdiv
  obtain rfl | rfl : q = 0 ∨ q = 1 := by omega
  · rfl
  · rfl

namespace Flags

/-- `Flags::default`. -/
def default : Flags := ⟨false, false, false, false⟩

/-- `Flags::to_nzcv` (lines 16–21). -/
def toNzcv (f : Flags) : BitVec 64 :=
  (bit64 f.n <<< 31) ||| (bit64 f.z <<< 30) ||| (bit64 f.c <<< 29) ||| (bit64 f.v <<< 28)

/-- `Flags::from_nzcv` (lines 24–31). -/
def fromNzcv (v : BitVec 64) : Flags where
  n := (v >>> 31) &&& 1 == 1
  z := (v >>> 30) &&& 1 == 1
  c := (v >>> 29) &&& 1 == 1
  v := (v >>> 28) &&& 1 == 1

@[simp] theorem fromNzcv_toNzcv (f : Flags) : fromNzcv f.toNzcv = f := by
  obtain ⟨n, z, c, v⟩ := f
  revert n z c v
  decide

theorem toNzcv_bit_n (f : Flags) : (f.toNzcv >>> 31) &&& 1 = bit64 f.n := by
  obtain ⟨n, z, c, v⟩ := f
  revert n z c v
  decide

theorem toNzcv_bit_z (f : Flags) : (f.toNzcv >>> 30) &&& 1 = bit64 f.z := by
  obtain ⟨n, z, c, v⟩ := f
  revert n z c v
  decide

theorem toNzcv_bit_c (f : Flags) : (f.toNzcv >>> 29) &&& 1 = bit64 f.c := by
  obtain ⟨n, z, c, v⟩ := f
  revert n z c v
  decide

theorem toNzcv_bit_v (f : Flags) : (f.toNzcv >>> 28) &&& 1 = bit64 f.v := by
  obtain ⟨n, z, c, v⟩ := f
  revert n z c v
  decide

end Flags

end V64.Cpu
