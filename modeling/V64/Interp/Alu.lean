import V64.Decoder.Insn

/-!
# Shared arithmetic of the executors

Models of `crates/interp/src/alu.rs`, `crates/interp/src/cond.rs` and
`crates/interp/src/regs.rs`.
-/

namespace V64.Interp

open V64.Cpu V64.Decoder

/-! ## Operand width (`regs.rs`) -/

/-- The low word of a 64-bit value: the W view. -/
def wMask : BitVec 64 := 0xffffffff

/-- `width_mask` (lines 7–13). -/
def widthMask (sf : Bool) : BitVec 64 := if sf then BitVec.allOnes 64 else wMask

/-- `datasize` (lines 17–23). -/
def datasize (sf : Bool) : ℕ := if sf then 64 else 32

theorem datasize_pos (sf : Bool) : 0 < datasize sf := by
  cases sf <;> decide

theorem datasize_le (sf : Bool) : datasize sf ≤ 64 := by
  cases sf <;> decide

/-- `read` (lines 27–33). -/
def read (cpu : CpuState) (idx : Reg) (sf spCtx : Bool) : BitVec 64 :=
  if sf then cpu.readGpr idx spCtx else cpu.readGprW idx spCtx

/-- `write` (lines 37–43). -/
def write (cpu : CpuState) (idx : Reg) (sf : Bool) (val : BitVec 64) (sp : Bool) : CpuState :=
  if sf then cpu.writeGpr idx sp val else cpu.writeGprW idx sp val

/-- Both widths at once: a W operand is the X one under the mask. -/
theorem read_eq (cpu : CpuState) (idx : Reg) (sf spCtx : Bool) :
    read cpu idx sf spCtx = cpu.readGpr idx spCtx &&& widthMask sf := by
  cases sf
  · rfl
  · exact (BitVec.and_allOnes).symm

theorem write_eq (cpu : CpuState) (idx : Reg) (sf : Bool) (val : BitVec 64) (sp : Bool) :
    write cpu idx sf val sp = cpu.writeGpr idx sp (val &&& widthMask sf) := by
  cases sf
  · rfl
  · rw [widthMask, if_pos rfl, BitVec.and_allOnes]
    rfl

@[simp] theorem and_widthMask_and_widthMask (v : BitVec 64) (sf : Bool) :
    v &&& widthMask sf &&& widthMask sf = v &&& widthMask sf := by
  rw [BitVec.and_assoc, BitVec.and_self]

theorem getLsbD_widthMask (sf : Bool) (i : ℕ) :
    (widthMask sf).getLsbD i = decide (i < datasize sf) := by
  cases sf
  · have hmask : widthMask false = (BitVec.allOnes 32).setWidth 64 := by decide
    rw [hmask, BitVec.getLsbD_setWidth, BitVec.getLsbD_allOnes]
    simp only [datasize, Bool.false_eq_true, if_false]
    by_cases h : i < 32
    · simp [h, show i < 64 by omega]
    · simp [h]
  · exact BitVec.getLsbD_allOnes

@[simp] theorem and_widthMask_true (v : BitVec 64) : v &&& widthMask true = v := BitVec.and_allOnes

theorem widthMask_false : widthMask false = 0xffffffff#64 := rfl

@[simp] theorem write_and_widthMask (cpu : CpuState) (idx : Reg) (sf : Bool) (v : BitVec 64)
    (sp : Bool) : write cpu idx sf (v &&& widthMask sf) sp = write cpu idx sf v sp := by
  rw [write_eq, write_eq, and_widthMask_and_widthMask]

/-! ## Shifts and additions (`alu.rs`) -/

/-- `apply_shift` (lines 11–36). -/
def applyShift (val : BitVec 64) (shift : ShiftType) (amount : BitVec 6) (sf : Bool) : BitVec 64 :=
  let width := if sf then 64 else 32
  let amount := amount.toNat % width
  let v := if sf then val else val &&& wMask
  let res := match shift with
    | .lsl => v <<< amount
    | .lsr => if sf then v >>> amount else (v &&& wMask) >>> amount
    | .asr =>
      if sf then v.sshiftRight amount else ((v.setWidth 32).sshiftRight amount).setWidth 64
    | .ror =>
      if sf then v.rotateRight amount else ((v.setWidth 32).rotateRight amount).setWidth 64
  if sf then res else res &&& wMask

/-- `flags_from` (lines 68–76). -/
def flagsFrom (result : BitVec 64) (width : ℕ) (carry overflow : Bool) : Flags where
  n := result &&& (1 <<< (width - 1)) != 0
  z := result &&& ((1#128 <<< width) - 1).setWidth 64 == 0
  c := carry
  v := overflow

/-- `add_with_carry_in` (lines 50–66). -/
def addWithCarryIn (a b carryIn : BitVec 64) (sf : Bool) : BitVec 64 × Flags :=
  if sf then
    let s1 := a + b
    let c1 := BitVec.uaddOverflow a b
    let s := s1 + carryIn
    let c2 := BitVec.uaddOverflow s1 carryIn
    let carry := c1 || c2
    let overflow := (((a ^^^ s) &&& (b ^^^ s)) >>> 63) &&& 1 == 1
    (s, flagsFrom s 64 carry overflow)
  else
    let a := a &&& wMask
    let b := b &&& wMask
    let wide := a + b + carryIn
    let s := wide &&& wMask
    let carry := (wide >>> 32) &&& 1 == 1
    let overflow := (((a ^^^ s) &&& (b ^^^ s)) >>> 31) &&& 1 == 1
    (s, flagsFrom s 32 carry overflow)

/-- `add_with_carry` (lines 41–45): a subtraction adds the complement and one. -/
def addWithCarry (a b : BitVec 64) (sub sf : Bool) : BitVec 64 × Flags :=
  addWithCarryIn a (if sub then ~~~b else b) (if sub then 1 else 0) sf

/-! ## Conditions (`cond.rs`) -/

/-- `eval_cond` (lines 9–26). -/
def evalCond (cond : BitVec 4) (f : Flags) : Bool :=
  let base := match (cond >>> 1).toNat with
    | 0 => f.z
    | 1 => f.c
    | 2 => f.n
    | 3 => f.v
    | 4 => f.c && !f.z
    | 5 => f.n == f.v
    | 6 => !f.z && f.n == f.v
    | _ => true
  if cond &&& 1 == 1 && cond != 0b1111 then !base else base

end V64.Interp
