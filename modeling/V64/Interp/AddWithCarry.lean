import V64.Interp.Branch
import V64.Interp.DataProc
import V64.Lib.Carry
import V64.Lib.Words

/-!
# Additions and their flags

What `crates/interp/src/alu.rs` computes, against addition by unbounded integers, and what the
conditions of `crates/interp/src/cond.rs` decide after a comparison.

* `flagsFrom_eq`: N and Z of a result of either width.
* `addWithCarryIn_eq`: both widths are the exact addition at that width.
* `evalCond_eq`, `addWithCarry_exact`: each condition is an order of the operands.
* `condBranch_compare`: a conditional branch after a compare instruction.
-/

namespace V64.Interp

open V64.Cpu V64.Decoder

/-- The flags of an exact addition. -/
def flagsOf {w : ℕ} (sum : Carry.Sum w) : Flags := ⟨sum.n, sum.z, sum.c, sum.v⟩

/-- What a condition says of the operands of a comparison at their width: EQ and NE, HS and LO,
    MI and PL, VS and VC, HI and LS, GE and LT, GT and LE, and always. -/
def compares {w : ℕ} (cond : BitVec 4) (x y : BitVec w) : Bool :=
  match cond.toNat with
  | 0 => decide (x = y)
  | 1 => decide (x ≠ y)
  | 2 => decide (y ≤ x)
  | 3 => decide (x < y)
  | 4 => decide ((x - y).toInt < 0)
  | 5 => decide (0 ≤ (x - y).toInt)
  | 6 => !decide (-2 ^ (w - 1) ≤ x.toInt - y.toInt ∧ x.toInt - y.toInt < 2 ^ (w - 1))
  | 7 => decide (-2 ^ (w - 1) ≤ x.toInt - y.toInt ∧ x.toInt - y.toInt < 2 ^ (w - 1))
  | 8 => decide (y < x)
  | 9 => decide (x ≤ y)
  | 10 => decide (y.toInt ≤ x.toInt)
  | 11 => decide (x.toInt < y.toInt)
  | 12 => decide (y.toInt < x.toInt)
  | 13 => decide (x.toInt ≤ y.toInt)
  | _ => true

/-! ## The flags of a result -/

/-- A sum wrapped exactly when it is below an operand. -/
theorem uaddOverflow_eq (a b : BitVec 64) : BitVec.uaddOverflow a b = decide (a + b < a) := by
  have ha := a.isLt
  have hb := b.isLt
  unfold BitVec.uaddOverflow
  rw [decide_eq_decide, BitVec.lt_def, BitVec.toNat_add]
  omega

theorem and_shiftLeft_one_bne_zero (v : BitVec 64) {k : ℕ} (hk : k < 64) :
    (v &&& (1 <<< k) != 0) = v.getLsbD k := by
  have hpow : (1 <<< k : BitVec 64) = BitVec.twoPow 64 k := rfl
  rw [hpow, BitVec.and_twoPow]
  by_cases hv : v.getLsbD k = true
  · have hne : BitVec.twoPow 64 k ≠ 0 := fun he => by
      have hbit := congrArg (fun x : BitVec 64 => x.getLsbD k) he
      simp [hk] at hbit
    simpa [hv] using hne
  · simp [hv]

theorem flagsFrom_eq (s : BitVec 64) (sf c v : Bool) (hs : s &&& widthMask sf = s) :
    flagsFrom s (datasize sf) c v =
      { n := s.getLsbD (datasize sf - 1), z := s == 0, c := c, v := v } := by
  have hmask : ((1#128 <<< datasize sf) - 1).setWidth 64 = widthMask sf := by
    cases sf <;> decide
  have hk : datasize sf - 1 < 64 := by cases sf <;> decide
  rw [flagsFrom, hmask, hs, and_shiftLeft_one_bne_zero s hk]

/-- The flags that `add_with_carry_in` gives an X addition. -/
theorem addWithCarryIn_x (a b : BitVec 64) (c : Bool) :
    addWithCarryIn a b (bit64 c) true = (a + b + bit64 c,
      { n := (a + b + bit64 c).getLsbD 63
        z := a + b + bit64 c == 0
        c := decide (a + b < a) || decide (a + b + bit64 c < a + b)
        v := ((a ^^^ (a + b + bit64 c)) &&& (b ^^^ (a + b + bit64 c))).getLsbD 63 }) := by
  have hflags := flagsFrom_eq (a + b + bit64 c) true
    (decide (a + b < a) || decide (a + b + bit64 c < a + b))
    (((a ^^^ (a + b + bit64 c)) &&& (b ^^^ (a + b + bit64 c))).getLsbD 63) (and_widthMask_true _)
  simp only [addWithCarryIn, if_true, uaddOverflow_eq, shiftRight_and_one_beq_one]
  exact congrArg (Prod.mk _) hflags

/-- The flags that `add_with_carry_in` gives a W addition: the carry is bit 32 of the wide
    sum. -/
theorem addWithCarryIn_w {a b : BitVec 64} (ha : a &&& 0xffffffff#64 = a)
    (hb : b &&& 0xffffffff#64 = b) (c : Bool) :
    addWithCarryIn a b (bit64 c) false = (a + b + bit64 c &&& 0xffffffff#64,
      { n := (a + b + bit64 c &&& 0xffffffff#64).getLsbD 31
        z := a + b + bit64 c &&& 0xffffffff#64 == 0
        c := (a + b + bit64 c).getLsbD 32
        v := ((a ^^^ (a + b + bit64 c &&& 0xffffffff#64)) &&&
          (b ^^^ (a + b + bit64 c &&& 0xffffffff#64))).getLsbD 31 }) := by
  have hflags := flagsFrom_eq (a + b + bit64 c &&& 0xffffffff#64) false
    ((a + b + bit64 c).getLsbD 32)
    (((a ^^^ (a + b + bit64 c &&& 0xffffffff#64)) &&&
      (b ^^^ (a + b + bit64 c &&& 0xffffffff#64))).getLsbD 31) (and_widthMask_and_widthMask _ false)
  have ha' : a &&& wMask = a := ha
  have hb' : b &&& wMask = b := hb
  simp only [addWithCarryIn, Bool.false_eq_true, if_false, ha', hb', shiftRight_and_one_beq_one]
  exact congrArg (Prod.mk _) hflags

/-- Masking the operands of a W addition changes nothing. -/
theorem addWithCarryIn_mask (a b c : BitVec 64) (sf : Bool) :
    addWithCarryIn (a &&& widthMask sf) (b &&& widthMask sf) c sf = addWithCarryIn a b c sf := by
  cases sf
  · have hmask (v : BitVec 64) : v &&& widthMask false &&& wMask = v &&& wMask :=
      and_widthMask_and_widthMask v false
    simp only [addWithCarryIn, hmask, Bool.false_eq_true, if_false]
  · rw [and_widthMask_true, and_widthMask_true]

/-! ## Exact addition -/

theorem toNat_bit64 (c : Bool) : (bit64 c).toNat = c.toNat := by
  cases c <;> rfl

theorem ofNat_toNat_eq_bit64 (c : Bool) : BitVec.ofNat 64 c.toNat = bit64 c := by
  cases c <;> rfl

/-- An X addition is the exact one. -/
theorem addWithCarryIn_true (a b : BitVec 64) (c : Bool) :
    addWithCarryIn a b (bit64 c) true =
      ((Carry.addWithCarry a b c).result, flagsOf (Carry.addWithCarry a b c)) := by
  have hresult := Carry.result_eq a b c
  have hv := Carry.v_eq (by decide) a b c
  have hc := Carry.c_eq a b c
  have hn : (Carry.addWithCarry a b c).n = (Carry.addWithCarry a b c).result.msb := rfl
  have hz : (Carry.addWithCarry a b c).z = ((Carry.addWithCarry a b c).result == 0) := rfl
  rw [ofNat_toNat_eq_bit64] at hresult
  -- the two carries of the code are the carry of the exact sum
  have hcarry : (decide (a + b < a) || decide (a + b + bit64 c < a + b)) =
      decide (2 ^ 64 ≤ Carry.unsignedSum a b c) := by
    have ha := a.isLt
    have hb := b.isLt
    have hc := c.toNat_le
    rw [← Bool.decide_or, decide_eq_decide]
    simp only [BitVec.lt_def, BitVec.toNat_add, toNat_bit64]
    unfold Carry.unsignedSum
    omega
  rw [addWithCarryIn_x]
  unfold flagsOf
  rw [hv, hc, hn, hz, hresult, hcarry, BitVec.msb_eq_getLsbD_last, BitVec.msb_eq_getLsbD_last]

/-- A W addition is the exact one of the low words. -/
theorem addWithCarryIn_false (a b : BitVec 64) (c : Bool) :
    addWithCarryIn a b (bit64 c) false =
      ((Carry.addWithCarry (a.setWidth 32) (b.setWidth 32) c).result.setWidth 64,
        flagsOf (Carry.addWithCarry (a.setWidth 32) (b.setWidth 32) c)) := by
  set x := a.setWidth 32 with hx
  set y := b.setWidth 32 with hy
  have hmask (v : BitVec 64) : v &&& 0xffffffff#64 = (v.setWidth 32).setWidth 64 :=
    Words.and_mask v
  have hlow (v : BitVec 32) : v.setWidth 64 &&& 0xffffffff#64 = v.setWidth 64 := by
    apply BitVec.eq_of_toNat_eq
    have hlt := v.isLt
    rw [Words.toNat_and_mask, BitVec.toNat_setWidth]
    omega
  have hwide : (x.setWidth 64 + y.setWidth 64 + bit64 c).toNat = Carry.unsignedSum x y c := by
    have hxlt := x.isLt
    have hylt := y.isLt
    have hc := c.toNat_le
    simp only [BitVec.toNat_add, BitVec.toNat_setWidth, toNat_bit64]
    unfold Carry.unsignedSum
    omega
  have hresult : (x.setWidth 64 + y.setWidth 64 + bit64 c).setWidth 32 =
      (Carry.addWithCarry x y c).result := by
    apply BitVec.eq_of_toNat_eq
    rw [BitVec.toNat_setWidth, hwide, Carry.toNat_result]
  have hcarry : (x.setWidth 64 + y.setWidth 64 + bit64 c).getLsbD 32 =
      (Carry.addWithCarry x y c).c := by
    have hlt := Carry.unsignedSum_lt x y c
    rw [Carry.c_eq, BitVec.getLsbD, hwide, Nat.testBit_eq_decide_div_mod_eq, decide_eq_decide]
    omega
  have hmsb (v : BitVec 32) : (v.setWidth 64).getLsbD 31 = v.msb := by
    rw [BitVec.getLsbD_setWidth, BitVec.msb_eq_getLsbD_last]
    rfl
  have hz : (((Carry.addWithCarry x y c).result.setWidth 64) == 0) =
      (Carry.addWithCarry x y c).z := by
    show _ = ((Carry.addWithCarry x y c).result == 0)
    have hlt := (Carry.addWithCarry x y c).result.isLt
    rw [Bool.eq_iff_iff, beq_iff_eq, beq_iff_eq, ← BitVec.toNat_inj, ← BitVec.toNat_inj,
      BitVec.toNat_setWidth, Nat.mod_eq_of_lt (by omega)]
    rfl
  rw [← addWithCarryIn_mask, widthMask_false, hmask, hmask, ← hx, ← hy,
    addWithCarryIn_w (hlow x) (hlow y), hmask, hresult, hcarry, hz]
  unfold flagsOf
  rw [BitVec.getLsbD_and, BitVec.getLsbD_xor, BitVec.getLsbD_xor, hmsb, hmsb, hmsb,
    Carry.v_eq (by decide), BitVec.msb_and, BitVec.msb_xor, BitVec.msb_xor]
  rfl

/-- The widths together: the operands count at the width of the instruction. -/
theorem addWithCarryIn_eq (a b : BitVec 64) (c sf : Bool) :
    addWithCarryIn a b (bit64 c) sf =
      ((Carry.addWithCarry (a.setWidth (datasize sf)) (b.setWidth (datasize sf)) c).result.setWidth
          64,
        flagsOf (Carry.addWithCarry (a.setWidth (datasize sf)) (b.setWidth (datasize sf)) c)) := by
  cases sf with
  | false => exact addWithCarryIn_false a b c
  | true =>
    show _ = ((Carry.addWithCarry (a.setWidth 64) (b.setWidth 64) c).result.setWidth 64,
      flagsOf (Carry.addWithCarry (a.setWidth 64) (b.setWidth 64) c))
    rw [BitVec.setWidth_eq, BitVec.setWidth_eq, BitVec.setWidth_eq]
    exact addWithCarryIn_true a b c

/-! ## Comparisons -/

/-- `eval_cond` by the number of the condition. -/
theorem evalCond_eq (cond : BitVec 4) (f : Flags) :
    evalCond cond f = match cond.toNat with
      | 0 => f.z
      | 1 => !f.z
      | 2 => f.c
      | 3 => !f.c
      | 4 => f.n
      | 5 => !f.n
      | 6 => f.v
      | 7 => !f.v
      | 8 => f.c && !f.z
      | 9 => !(f.c && !f.z)
      | 10 => f.n == f.v
      | 11 => !(f.n == f.v)
      | 12 => !f.z && f.n == f.v
      | 13 => !(!f.z && f.n == f.v)
      | _ => true := by
  obtain ⟨n, z, c, v⟩ := f
  revert n z c v cond
  decide

/-- After a subtraction, a condition is its order of the operands. -/
theorem evalCond_subtract {w : ℕ} (hw : 0 < w) (cond : BitVec 4) (x y : BitVec w) :
    evalCond cond (flagsOf (Carry.subtract x y)) = compares cond x y := by
  have hz := Carry.sub_z x y
  have hc := Carry.sub_c x y
  have hn := Carry.sub_n x y
  have hv := Carry.sub_v hw x y
  have hnv := Carry.sub_n_eq_v hw x y
  have hnot {b : Bool} {p q : Prop} [Decidable p] [Decidable q] (hb : b = decide p)
      (hpq : ¬ p ↔ q) : (!b) = decide q := by
    rw [hb, ← decide_not, decide_eq_decide]
    exact hpq
  have hhi : ((Carry.subtract x y).c && !(Carry.subtract x y).z) = decide (y < x) := by
    rw [hc, hz, ← decide_not, ← Bool.decide_and, decide_eq_decide, BitVec.le_def, BitVec.lt_def,
      ← BitVec.toNat_inj]
    omega
  have hgt : (!(Carry.subtract x y).z && (Carry.subtract x y).n == (Carry.subtract x y).v) =
      decide (y.toInt < x.toInt) := by
    rw [hz, hnv, ← decide_not, ← Bool.decide_and, decide_eq_decide, ← BitVec.toInt_inj]
    omega
  rw [evalCond_eq]
  unfold compares flagsOf
  dsimp only
  generalize cond.toNat = k
  match k with
  | 0 => exact hz
  | 1 => exact hnot hz Iff.rfl
  | 2 => exact hc
  | 3 => exact hnot hc BitVec.not_le
  | 4 => exact hn
  | 5 => exact hnot hn Int.not_lt
  | 6 => exact hv
  | 7 => exact (congrArg not hv).trans (Bool.not_not _)
  | 8 => exact hhi
  | 9 => exact hnot hhi BitVec.not_lt
  | 10 => exact hnv
  | 11 => exact hnot hnv Int.not_le
  | 12 => exact hgt
  | 13 => exact hnot hgt Int.not_lt
  | _ + 14 => rfl

/-- After a comparison of either width, a condition is its order of the operands at that width. -/
theorem evalCond_compare (a b : BitVec 64) (sf : Bool) (cond : BitVec 4) :
    evalCond cond (addWithCarry a b true sf).2 =
      compares cond (a.setWidth (datasize sf)) (b.setWidth (datasize sf)) := by
  have hnot : (~~~b).setWidth (datasize sf) = ~~~b.setWidth (datasize sf) :=
    BitVec.setWidth_not (datasize_le sf)
  have hsub : addWithCarry a b true sf = addWithCarryIn a (~~~b) (bit64 true) sf := rfl
  rw [hsub, addWithCarryIn_eq, hnot]
  exact evalCond_subtract (datasize_pos sf) cond _ _

/-- A conditional branch after a comparison of registers goes where its order of the operands
    holds. -/
theorem condBranch_compare (cpu : CpuState) (sf : Bool) (shift : ShiftType) (amount : BitVec 6)
    (rm rn rd : Reg) (cond : BitVec 4) (offset pc : BitVec 64) :
    condBranch (addSubShiftedReg cpu sf true true shift amount rm rn rd) cond offset pc =
      if compares cond ((read cpu rn sf false).setWidth (datasize sf))
          ((applyShift (read cpu rm sf false) shift amount sf).setWidth (datasize sf)) then
        some (pc + offset)
      else none := by
  have hflags : (addSubShiftedReg cpu sf true true shift amount rm rn rd).flags =
      (addWithCarry (read cpu rn sf false)
        (applyShift (read cpu rm sf false) shift amount sf) true sf).2 := by
    show (write (setFlagsIf cpu true _) rd sf _ false).flags = _
    rw [write_setFlagsIf]
    rfl
  unfold condBranch
  rw [hflags, evalCond_compare]

/-- **Exact additions.** For both widths, all operands and either carry, `add_with_carry_in` is the
    addition by unbounded integers, and after a subtraction each condition decides its order of
    the operands. -/
theorem addWithCarry_exact (a b : BitVec 64) (c sf : Bool) :
    let x := a.setWidth (datasize sf)
    let y := b.setWidth (datasize sf)
    addWithCarryIn a b (bit64 c) sf = ((Carry.addWithCarry x y c).result.setWidth 64,
        flagsOf (Carry.addWithCarry x y c)) ∧
      ∀ cond, evalCond cond (addWithCarry a b true sf).2 = compares cond x y :=
  ⟨addWithCarryIn_eq a b c sf, evalCond_compare a b sf⟩

end V64.Interp
