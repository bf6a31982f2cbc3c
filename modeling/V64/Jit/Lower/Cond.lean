import V64.Jit.Lower.Arith

/-!
# Condition codes and the conditional instructions

Model of `crates/jit/src/lower/cond.rs`.

* `exec_emitCondTest`: the emitted test is `eval_cond`.
* `emits_condSelect`, `emits_condCompare`: CSEL to CSNEG, CCMP and CCMN.
-/

namespace V64.Jit

open V64.Cpu V64.Decoder V64.Interp V64.Platform Wasm
open Wasm.Instr

/-! ## Emitters -/

/-- `push_flag` (lines 51–53). -/
def pushFlag (bit : BitVec 64) : List Instr :=
  [localGet regsBase, i64Load nzcvOff, i64Const bit, i64ShrU, i64Const 1, i64And, i32WrapI64]

/-- `emit_cond_test` (lines 57–89). -/
def emitCondTest (cond : BitVec 4) : List Instr :=
  (match (cond >>> 1).toNat with
  | 0 => pushFlag zBit
  | 1 => pushFlag cBit
  | 2 => pushFlag nBit
  | 3 => pushFlag vBit
  | 4 => pushFlag cBit ++ pushFlag zBit ++ [i32Eqz, i32And]
  | 5 => pushFlag nBit ++ pushFlag vBit ++ [i32Eq]
  | 6 => pushFlag zBit ++ [i32Eqz] ++ pushFlag nBit ++ pushFlag vBit ++ [i32Eq, i32And]
  | _ => [i32Const 1]) ++
    if cond &&& 1 = 1 ∧ cond ≠ 0b1111 then [i32Eqz] else []

/-- `cond_select` (lines 14–29). -/
def condSelect (sf op o2 : Bool) (cond : BitVec 4) (rm rn rd : Reg) : List Instr :=
  let change := match op, o2 with
    | false, false => []
    | false, true => [i64Const 1, i64Add]
    | true, false => [i64Const (-1), i64Xor]
    | true, true => [i64Const (-1), i64Mul]
  emitCondTest cond ++
    [ifElse 1 (pushOperand rn sf false) (pushOperand rm sf false ++ change ++ maskW sf),
      localSet t0] ++
    storeLocal rd sf false t0

/-- The packed word of a four-bit immediate (lines 43–46). -/
def packNzcv (nzcv : BitVec 4) : BitVec 64 :=
  ((nzcv >>> 3 &&& 1).setWidth 64 <<< 31) ||| ((nzcv >>> 2 &&& 1).setWidth 64 <<< 30) |||
    ((nzcv >>> 1 &&& 1).setWidth 64 <<< 29) ||| ((nzcv &&& 1).setWidth 64 <<< 28)

/-- `cond_compare` (lines 33–48). -/
def condCompare (sf sub isImm : Bool) (immY : BitVec 5) (rm : Reg) (cond nzcv : BitVec 4)
    (rn : Reg) : List Instr :=
  let y := if isImm then BOp.imm (immY.setWidth 64) else BOp.shifted rm .lsl 0 false
  emitCondTest cond ++
    [ifElse 0
      (setupAddOperands sf sub y rn false ++
        emitAddCore sf true none (if sub then .one else .zero))
      [localGet regsBase, i64Const (packNzcv nzcv), i64Store nzcvOff]]

/-! ## Tests -/

section Exec

variable {D : Type} {L : Layout} {stale : Flags} {bus : Bus D} {cpu : CpuState} {fuel : ℕ}
  {st : List Val} {l : ℕ → Val}

theorem wrap_bit64 (b : Bool) : Val.i32 ((bit64 b).setWidth 32) = ofBool b := by
  cases b <;> rfl

/-- A flag of the packed word, as a condition. -/
theorem exec_pushFlag (h : Ready L bus.ram.size.toNat l) {k : BitVec 64} {b : Bool}
    (hk : (cpu.flags.toNzcv >>> (k.toNat % 64)) &&& 1 = bit64 b) :
    exec fuel (pushFlag k) ⟨st, l, host L stale bus cpu⟩ =
      .next ⟨ofBool b :: st, l, host L stale bus cpu⟩ := by
  simp only [BitVec.ofNat_eq_ofNat] at hk
  simp [pushFlag, h.regs, h.wf, hk, wrap_bit64]

@[simp] theorem exec_pushFlag_n (h : Ready L bus.ram.size.toNat l) :
    exec fuel (pushFlag nBit) ⟨st, l, host L stale bus cpu⟩ =
      .next ⟨ofBool cpu.flags.n :: st, l, host L stale bus cpu⟩ :=
  exec_pushFlag h (Flags.toNzcv_bit_n cpu.flags)

@[simp] theorem exec_pushFlag_z (h : Ready L bus.ram.size.toNat l) :
    exec fuel (pushFlag zBit) ⟨st, l, host L stale bus cpu⟩ =
      .next ⟨ofBool cpu.flags.z :: st, l, host L stale bus cpu⟩ :=
  exec_pushFlag h (Flags.toNzcv_bit_z cpu.flags)

@[simp] theorem exec_pushFlag_c (h : Ready L bus.ram.size.toNat l) :
    exec fuel (pushFlag cBit) ⟨st, l, host L stale bus cpu⟩ =
      .next ⟨ofBool cpu.flags.c :: st, l, host L stale bus cpu⟩ :=
  exec_pushFlag h (Flags.toNzcv_bit_c cpu.flags)

@[simp] theorem exec_pushFlag_v (h : Ready L bus.ram.size.toNat l) :
    exec fuel (pushFlag vBit) ⟨st, l, host L stale bus cpu⟩ =
      .next ⟨ofBool cpu.flags.v :: st, l, host L stale bus cpu⟩ :=
  exec_pushFlag h (Flags.toNzcv_bit_v cpu.flags)

/-- The constant `true` condition. -/
theorem i32_one : Val.i32 1#32 = ofBool true := rfl

@[simp] theorem exec_emitCondTest (h : Ready L bus.ram.size.toNat l) (cond : BitVec 4) :
    exec fuel (emitCondTest cond) ⟨st, l, host L stale bus cpu⟩ =
      .next ⟨ofBool (evalCond cond cpu.flags) :: st, l, host L stale bus cpu⟩ := by
  have hodd : (cond &&& 1 == 1 && cond != 0b1111) = decide (cond &&& 1 = 1 ∧ cond ≠ 0b1111) := by
    revert cond
    decide
  unfold emitCondTest evalCond
  rw [exec_append, hodd]
  -- the base test, by the three high bits
  generalize (cond >>> 1).toNat = base
  by_cases hinv : cond &&& 1 = 1 ∧ cond ≠ 0b1111
  · rw [if_pos hinv, decide_eq_true hinv]
    rcases base with _ | _ | _ | _ | _ | _ | _ | n <;> simp [exec_append, h, i32_one]
  · rw [if_neg hinv, decide_eq_false hinv]
    rcases base with _ | _ | _ | _ | _ | _ | _ | n <;> simp [exec_append, h, i32_one]

/-! ## The instructions -/

theorem emits_condSelect (h : Ready L bus.ram.size.toNat l) (sf op o2 : Bool) (cond : BitVec 4)
    (rm rn rd : Reg) :
    Emits L stale bus l (condSelect sf op o2 cond rm rn rd) cpu
      (Interp.condSelect cpu sf op o2 cond rm rn rd) := by
  intro fuel st
  unfold condSelect Interp.condSelect
  cases hc : evalCond cond cpu.flags
  · cases op <;> cases o2 <;>
      simp [exec_append, exec_ifElse, h, hc, isScratch, Words.xor_ones, Words.mul_ones]
  · simp [exec_append, exec_ifElse, h, hc, isScratch]

theorem packNzcv_eq (nzcv : BitVec 4) : packNzcv nzcv = (nzcvFlags nzcv).toNzcv := by
  revert nzcv
  decide

/-- A comparison is an addition without a destination. -/
theorem emits_compare (h : Ready L bus.ram.size.toNat l) {b : BOp} (hb : b.Ok) (sf sub : Bool)
    (rn : Reg) :
    Emits L stale bus l
      (setupAddOperands sf sub b rn false ++
        emitAddCore sf true none (if sub then .one else .zero)) cpu
      (setFlagsIf cpu true (addWithCarry (read cpu rn sf false) (b.value cpu sf) sub sf).2) := by
  have hadd : Emits L stale bus l _ cpu _ := emits_addSub h hb sf sub true rn false 31 false
  rw [write_eq, writeGpr_zr] at hadd
  exact hadd

theorem emits_condCompare (h : Ready L bus.ram.size.toNat l) (sf sub isImm : Bool)
    (immY : BitVec 5) (rm : Reg) (cond nzcv : BitVec 4) (rn : Reg) :
    Emits L stale bus l (condCompare sf sub isImm immY rm cond nzcv rn) cpu
      (Interp.condCompare cpu sf sub isImm immY rm cond nzcv rn) := by
  unfold condCompare Interp.condCompare
  apply Emits.ifElse fun fuel st => exec_emitCondTest h cond
  cases evalCond cond cpu.flags
  · intro fuel st
    have hstore := exec_storeNzcv cpu stale fuel st l [] h.wf (packNzcv_eq nzcv)
    simp [h.regs, hstore]
    rfl
  · have hok : (if isImm then BOp.imm (immY.setWidth 64) else .shifted rm .lsl 0 false).Ok := by
      cases isImm <;> trivial
    have hvalue : (if isImm then BOp.imm (immY.setWidth 64) else .shifted rm .lsl 0 false).value cpu
        sf = if isImm then immY.setWidth 64 else read cpu rm sf false := by
      cases isImm
      · exact value_lsl_zero rm sf
      · rfl
    have hcompare : Emits L stale bus l _ cpu _ := emits_compare h hok sf sub rn
    rw [hvalue] at hcompare
    exact hcompare

end Exec

end V64.Jit
