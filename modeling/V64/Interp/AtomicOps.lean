import V64.Interp.Execute
import V64.Lib.Words
import V64.Platform.Bus

/-!
# The operations of the LSE atomics

`atomic::exec` computes on 64-bit registers what the architecture defines at the width
of the access. Both agree, with one difference that the source documents: the signed
maximum and minimum compare zero-extended operands, as its oracle does.

* `lseOp`: the operations at any width, with the order of LDSMAX and LDSMIN open.
* `atomicOp_setWidth`: the operation on zero-extended operands.
* `atomicRmw_eq`: every instruction, with the order that the code uses.
-/

namespace V64.Interp

open V64.Cpu V64.Decoder V64.Platform

/-! ## Operations at the width of the access -/

/-- The operation `op` on `w` bits, with `le` as the order of LDSMAX and LDSMIN. -/
def lseOp {w : ℕ} (le : BitVec w → BitVec w → Bool) (op : ℕ) (old s : BitVec w) : BitVec w :=
  match op with
  | 0 => old + s
  | 1 => old &&& ~~~s
  | 2 => old ^^^ s
  | 3 => old ||| s
  | 4 => if le s old then old else s
  | 5 => if le old s then old else s
  | 6 => if s ≤ old then old else s
  | 7 => if old ≤ s then old else s
  | _ => s

/-- The order of LDSMAX and LDSMIN in the code: signed at 64 bits, and unsigned below. -/
def lsMaxOrder {w : ℕ} (a b : BitVec w) : Bool := if w < 64 then decide (a ≤ b) else a.sle b

/-- A narrow value is not negative as a zero-extended one. -/
theorem sle_setWidth {w : ℕ} (hw : w ≤ 64) (a b : BitVec w) :
    (a.setWidth 64).sle (b.setWidth 64) = lsMaxOrder a b := by
  unfold lsMaxOrder
  split_ifs with hlt
  · have hpow : 2 ^ w ≤ 2 ^ 63 := Nat.pow_le_pow_right (by decide) (by omega)
    have hnat (v : BitVec w) : (v.setWidth 64).toInt = v.toNat := by
      have hv := v.isLt
      rw [BitVec.toInt_eq_toNat_of_lt, BitVec.toNat_setWidth, Nat.mod_eq_of_lt (by omega)]
      rw [BitVec.toNat_setWidth, Nat.mod_eq_of_lt (by omega)]
      omega
    rw [BitVec.sle_eq_decide, hnat, hnat]
    exact decide_eq_decide.mpr Int.ofNat_le
  · obtain rfl : w = 64 := by omega
    rw [BitVec.setWidth_eq, BitVec.setWidth_eq]

theorem setWidth_le_iff {w : ℕ} (hw : w ≤ 64) (a b : BitVec w) :
    a.setWidth 64 ≤ b.setWidth 64 ↔ a ≤ b := by
  rw [BitVec.le_def, BitVec.le_def, BitVec.toNat_setWidth_of_le hw, BitVec.toNat_setWidth_of_le hw]

theorem setWidth_setWidth_64 {w : ℕ} (hw : w ≤ 64) (a : BitVec w) :
    (a.setWidth 64).setWidth w = a := by
  rw [BitVec.setWidth_setWidth_of_le _ hw, BitVec.setWidth_eq]

/-- The code's operation on zero-extended operands. -/
theorem atomicOp_setWidth {w : ℕ} (hw : w ≤ 64) (op : ℕ) (old s : BitVec w) :
    (atomicOp op (old.setWidth 64) (s.setWidth 64)).setWidth w = lseOp lsMaxOrder op old s := by
  have hold := setWidth_setWidth_64 hw old
  have hs := setWidth_setWidth_64 hw s
  match op with
  | 0 =>
    show (old.setWidth 64 + s.setWidth 64).setWidth w = old + s
    rw [BitVec.setWidth_add _ _ hw, hold, hs]
  | 1 =>
    show (old.setWidth 64 &&& ~~~s.setWidth 64).setWidth w = old &&& ~~~s
    rw [BitVec.setWidth_and, BitVec.setWidth_not hw, hold, hs]
  | 2 =>
    show (old.setWidth 64 ^^^ s.setWidth 64).setWidth w = old ^^^ s
    rw [BitVec.setWidth_xor, hold, hs]
  | 3 =>
    show (old.setWidth 64 ||| s.setWidth 64).setWidth w = old ||| s
    rw [BitVec.setWidth_or, hold, hs]
  | 4 =>
    show (if (s.setWidth 64).sle (old.setWidth 64) then old.setWidth 64
      else s.setWidth 64).setWidth w = if lsMaxOrder s old then old else s
    rw [apply_ite (BitVec.setWidth w), hold, hs, sle_setWidth hw]
  | 5 =>
    show (if (old.setWidth 64).sle (s.setWidth 64) then old.setWidth 64
      else s.setWidth 64).setWidth w = if lsMaxOrder old s then old else s
    rw [apply_ite (BitVec.setWidth w), hold, hs, sle_setWidth hw]
  | 6 =>
    show (if s.setWidth 64 ≤ old.setWidth 64 then old.setWidth 64 else s.setWidth 64).setWidth w =
      if s ≤ old then old else s
    rw [apply_ite (BitVec.setWidth w), hold, hs]
    exact if_congr (setWidth_le_iff hw s old) rfl rfl
  | 7 =>
    show (if old.setWidth 64 ≤ s.setWidth 64 then old.setWidth 64 else s.setWidth 64).setWidth w =
      if old ≤ s then old else s
    rw [apply_ite (BitVec.setWidth w), hold, hs]
    exact if_congr (setWidth_le_iff hw old s) rfl rfl
  | _ + 8 => exact hs

/-! ## The instruction -/

/-- The width of an access in bits. -/
def accessBits (size : ℕ) : ℕ := 8 * (1 <<< size)

theorem accessBits_le {size : ℕ} (hsize : size ≤ 3) : accessBits size ≤ 64 := by
  revert size
  decide

/-- The mask of the access width truncates. -/
theorem and_sizeMask {size : ℕ} (hsize : size ≤ 3) (v : BitVec 64) :
    v &&& sizeMask size = (v.setWidth (accessBits size)).setWidth 64 := by
  have hmask : ∀ size ≤ 3, ∀ i < 64,
      (sizeMask size).getLsbD i = decide (i < accessBits size) := by decide
  apply BitVec.eq_of_getLsbD_eq
  intro i hi
  rw [BitVec.getLsbD_and, hmask size hsize i hi, BitVec.getLsbD_setWidth, BitVec.getLsbD_setWidth,
    decide_eq_true hi, Bool.true_and, Bool.and_comm]

section Access

variable {M : Type} [GuestMem M]

omit [GuestMem M] in
/-- An aligned access is in one page. -/
theorem inOnePage_of_aligned {g : Guest M} {va : BitVec 64} {size : ℕ} {write : Bool}
    (hsize : size ≤ 3) (h : alignCheck g va (1 <<< size) write = none) :
    inOnePage va (1 <<< size) = true := by
  have hzero : va &&& (1 <<< size - 1) = 0 := by
    unfold alignCheck at h
    split_ifs at h with hne
    exact bne_eq_false_iff_eq.mp (Bool.not_eq_true _ ▸ hne)
  have hpage : (va &&& 0xfff).toNat = va.toNat % 4096 := by
    rw [BitVec.toNat_and]
    exact Nat.and_two_pow_sub_one_eq_mod va.toNat 12
  have hmod : va.toNat % (1 <<< size) = 0 := by
    have hnat : va.toNat &&& (1 <<< size - 1 : BitVec 64).toNat = 0 := by
      rw [← BitVec.toNat_and, hzero]
      rfl
    rw [← hnat]
    obtain rfl | rfl | rfl | rfl : size = 0 ∨ size = 1 ∨ size = 2 ∨ size = 3 := by omega
    · exact (Nat.and_two_pow_sub_one_eq_mod va.toNat 0).symm
    · exact (Nat.and_two_pow_sub_one_eq_mod va.toNat 1).symm
    · exact (Nat.and_two_pow_sub_one_eq_mod va.toNat 2).symm
    · exact (Nat.and_two_pow_sub_one_eq_mod va.toNat 3).symm
  unfold inOnePage
  rw [decide_eq_true_eq, hpage]
  obtain rfl | rfl | rfl | rfl : size = 0 ∨ size = 1 ∨ size = 2 ∨ size = 3 := by omega
  all_goals
    simp only [Nat.shiftLeft_eq] at hmod ⊢
    omega

/-- What is read is as wide as the access. -/
theorem setWidth_readSized (mem : M) (pa : BitVec 64) {size : ℕ} (hsize : size ≤ 3) :
    ((readSized mem pa size).1.setWidth (accessBits size)).setWidth 64 =
      (readSized mem pa size).1 := by
  obtain rfl | rfl | rfl | rfl : size = 0 ∨ size = 1 ∨ size = 2 ∨ size = 3 := by omega
  · exact congrArg (BitVec.setWidth 64) (setWidth_setWidth_64 (w := 8) (by decide) _)
  · exact congrArg (BitVec.setWidth 64) (setWidth_setWidth_64 (w := 16) (by decide) _)
  · exact congrArg (BitVec.setWidth 64) (setWidth_setWidth_64 (w := 32) (by decide) _)
  · change ((_ : BitVec 64).setWidth 64).setWidth 64 = _
    rw [BitVec.setWidth_eq, BitVec.setWidth_eq]

/-- A store takes the bits of its width. -/
theorem writeSized_setWidth (mem : M) (pa : BitVec 64) {size : ℕ} (hsize : size ≤ 3)
    (val : BitVec 64) :
    writeSized mem pa size ((val.setWidth (accessBits size)).setWidth 64) =
      writeSized mem pa size val := by
  obtain rfl | rfl | rfl | rfl : size = 0 ∨ size = 1 ∨ size = 2 ∨ size = 3 := by omega
  · exact congrArg (GuestMem.writeU8 mem pa) (setWidth_setWidth_64 (w := 8) (by decide) _)
  · exact congrArg (GuestMem.writeU16 mem pa) (setWidth_setWidth_64 (w := 16) (by decide) _)
  · exact congrArg (GuestMem.writeU32 mem pa) (setWidth_setWidth_64 (w := 32) (by decide) _)
  · show GuestMem.writeU64 mem pa ((val.setWidth 64).setWidth 64) = GuestMem.writeU64 mem pa val
    rw [BitVec.setWidth_eq, BitVec.setWidth_eq]

theorem setWidth_read {g : Guest M} {va : BitVec 64} {size : ℕ} (hsize : size ≤ 3)
    (hpage : inOnePage va (1 <<< size) = true) :
    (((MemAccess.read g va size).1.setWidth (accessBits size)).setWidth 64 : BitVec 64) =
      (MemAccess.read g va size).1 := by
  unfold MemAccess.read readAt
  rw [if_pos hpage]
  cases xlate g va false g.cpu.el with
  | mk pa g' =>
    cases pa with
    | none =>
      show (0#64 |>.setWidth _).setWidth 64 = 0#64
      rw [BitVec.setWidth_zero, BitVec.setWidth_zero]
    | some pa => exact setWidth_readSized g'.mem pa hsize

theorem write_setWidth {g : Guest M} {va : BitVec 64} {size : ℕ} (hsize : size ≤ 3)
    (hpage : inOnePage va (1 <<< size) = true) (val : BitVec 64) :
    MemAccess.write g va size ((val.setWidth (accessBits size)).setWidth 64) =
      MemAccess.write g va size val := by
  unfold MemAccess.write writeAt
  rw [if_pos hpage, if_pos hpage]
  simp only [writeSized_setWidth _ _ hsize]

/-- The read-modify-write at the width of the access, with `le` as the order of LDSMAX and
    LDSMIN: Rt gets the old value zero-extended. -/
def rmwAt (le : {w : ℕ} → BitVec w → BitVec w → Bool) (g : Guest M) (size op : ℕ)
    (rs rn rt : Reg) : Guest M :=
  let addr := g.cpu.readGpr rn true
  match alignCheck g addr (1 <<< size) true with
  | some g => g
  | none =>
    let (val, g) := MemAccess.read g addr size
    if g.aborted then g
    else
      let old : BitVec (accessBits size) := val.setWidth (accessBits size)
      let s := (g.cpu.readGpr rs false).setWidth (accessBits size)
      let g := MemAccess.write g addr size ((lseOp le op old s).setWidth 64)
      if g.aborted then g else { g with cpu := g.cpu.writeGpr rt false (old.setWidth 64) }

omit [GuestMem M] in
/-- A value of the access width fills a W register: the write by `size == 3` is the write of
    the whole register. -/
theorem writeResult_narrow {size : ℕ} (hsize : size ≤ 3) (cpu : CpuState) (rt : Reg)
    {val : BitVec 64} (hval : (val.setWidth (accessBits size)).setWidth 64 = val) :
    writeResult cpu (size == 3) rt val = cpu.writeGpr rt false val := by
  by_cases h3 : size = 3
  · subst h3
    rfl
  · have hbeq : (size == 3) = false := beq_eq_false_iff_ne.mpr h3
    have hbits : accessBits size ≤ 32 := by
      obtain rfl | rfl | rfl : size = 0 ∨ size = 1 ∨ size = 2 := by omega
      all_goals decide
    have hmask : val &&& 0xffffffff#64 = val := by
      rw [Words.and_mask, ← hval, BitVec.setWidth_setWidth_of_le _ (by decide : 32 ≤ 64)]
      exact BitVec.setWidth_setWidth (by omega)
    rw [writeResult, hbeq, if_neg Bool.false_ne_true, CpuState.writeGprW, hmask]

/-- `atomic::exec` is the read-modify-write at the width of the access. -/
theorem atomicRmw_eq {size : ℕ} (hsize : size ≤ 3) (g : Guest M) (op : ℕ) (rs rn rt : Reg) :
    atomicRmw g size op rs rn rt = rmwAt lsMaxOrder g size op rs rn rt := by
  unfold atomicRmw rmwAt
  dsimp only
  cases halign : alignCheck g (g.cpu.readGpr rn true) (1 <<< size) true with
  | some g' => rfl
  | none =>
    have hpage := inOnePage_of_aligned hsize halign
    have hval := setWidth_read (g := g) hsize hpage
    dsimp only
    generalize MemAccess.read g (g.cpu.readGpr rn true) size = r at hval ⊢
    obtain ⟨val, g1⟩ := r
    dsimp only at hval ⊢
    by_cases haborted : g1.aborted = true
    · rw [if_pos haborted, if_pos haborted]
    · rw [if_neg haborted, if_neg haborted]
      have hnew : (lseOp lsMaxOrder op (val.setWidth (accessBits size))
          ((g1.cpu.readGpr rs false).setWidth (accessBits size))).setWidth 64 =
          ((atomicOp op val (g1.cpu.readGpr rs false &&& sizeMask size)).setWidth
            (accessBits size)).setWidth 64 := by
        rw [and_sizeMask hsize, ← atomicOp_setWidth (accessBits_le hsize), hval]
      rw [hnew, write_setWidth hsize hpage, writeResult_narrow hsize _ _ hval, hval]

end Access

end V64.Interp
