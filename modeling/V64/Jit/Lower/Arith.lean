import Mathlib.Tactic.IntervalCases
import V64.Interp.AddWithCarry
import V64.Jit.Lower.Common

/-!
# Move-wide, add/sub, logical, EXTR and ADR/ADRP

Model of `crates/jit/src/lower/arith.rs`. An emitter that meets an opcode the
decoder rejects gives `none`, where the source has `unreachable!`.

* `exec_pushB`: the second operand has the value the interpreter computes.
* `exec_emitAddCore`: the emitted addition and its NZCV word are those of
  `add_with_carry_in`.
* `Emits`: what is proved of each lowering, from `emits_moveWide` to
  `emits_pcRel`.
-/

namespace V64.Jit

open V64.Cpu V64.Decoder V64.Interp V64.Platform Wasm
open Wasm.Instr

/-! ## Emitters -/

/-- `move_wide` (lines 11–37). -/
def moveWide (sf : Bool) (opc : ℕ) (hw : BitVec 2) (imm16 : BitVec 16) (rd : Reg) :
    Option (List Instr) :=
  let shift := hw.toNat * 16
  let imm := imm16.setWidth 64 <<< shift
  match destOff rd false with
  | none => some []
  | some off =>
    let value : Option (List Instr) := match opc with
      | 2 => some [i64Const imm]
      | 0 => some [i64Const (~~~imm)]
      | 3 =>
        let keep := ~~~(0xffff#64 <<< shift)
        some [localGet regsBase, i64Load (xOff rd), i64Const keep, i64And, i64Const imm,
          i64Or]
      | _ => none
    value.map fun value => [localGet regsBase] ++ value ++ maskW sf ++ [i64Store off]

/-- `BOp` (lines 40–47): the second operand. -/
inductive BOp where
  | imm (v : BitVec 64)
  | shifted (rm : Reg) (shift : ShiftType) (amount : BitVec 6) (negate : Bool)
  | ext (rm : Reg) (option shift : ℕ)

/-- `emit_shift` (lines 71–109). -/
def emitShift (shift : ShiftType) (amount : BitVec 6) (sf : Bool) : List Instr :=
  let width := if sf then 64 else 32
  let amt := amount.toNat % width
  match shift with
  | .lsl => (if amt ≠ 0 then [i64Const (BitVec.ofNat 64 amt), i64Shl] else []) ++ maskW sf
  | .lsr => if amt ≠ 0 then [i64Const (BitVec.ofNat 64 amt), i64ShrU] else []
  | .asr =>
    if sf then if amt ≠ 0 then [i64Const (BitVec.ofNat 64 amt), i64ShrS] else []
    else [i64Const 32, i64Shl, i64Const (BitVec.ofNat 64 (32 + amt)), i64ShrS] ++ maskW sf
  | .ror =>
    if sf then [i64Const (BitVec.ofNat 64 amt), i64Rotr]
    else if amt ≠ 0 then
      [localSet t4, localGet t4, i64Const (BitVec.ofNat 64 amt), i64ShrU, localGet t4,
        i64Const (BitVec.ofNat 64 (32 - amt)), i64Shl, i64Const wMask, i64And, i64Or]
    else []

/-- `push_ext` (lines 113–139). -/
def pushExt (rm : Reg) (option shift : ℕ) : List Instr :=
  let value :=
    if rm = 31 then [i64Const 0] else [localGet regsBase, i64Load (xOff rm)]
  let (bits, signed) := match option with
    | 0 => (8, false)
    | 1 => (16, false)
    | 2 => (32, false)
    | 3 => (64, false)
    | 4 => (8, true)
    | 5 => (16, true)
    | 6 => (32, true)
    | _ => (64, true)
  let extend :=
    if bits < 64 then
      [i64Const ((1 <<< bits) - 1), i64And] ++
        if signed then
          let s := BitVec.ofNat 64 (64 - bits)
          [i64Const s, i64Shl, i64Const s, i64ShrS]
        else []
    else []
  value ++ extend ++ if shift > 0 then [i64Const (BitVec.ofNat 64 shift), i64Shl] else []

/-- `push_b` (lines 55–68). -/
def pushB (b : BOp) (sf : Bool) : List Instr :=
  match b with
  | .imm v => [i64Const v]
  | .shifted rm shift amount negate =>
    pushOperand rm sf false ++ emitShift shift amount sf ++
      if negate then [i64Const (-1), i64Xor] ++ maskW sf else []
  | .ext rm option shift => pushExt rm option shift

/-- The operator of `logical`, by `opc`. -/
def logicalInstr (opc : ℕ) : Option Instr :=
  match opc with
  | 0 | 3 => some i64And
  | 1 => some i64Or
  | 2 => some i64Xor
  | _ => none

/-- The NZCV word of ANDS and BICS, with the result in `T0`: C and V are clear. -/
def logicalNzcv (sf : Bool) : List Instr :=
  let sign := if sf then 63 else 31
  [localGet regsBase, localGet t0, i64Const sign, i64ShrU, i64Const nBit, i64Shl,
    localGet t0, i64Eqz, i64ExtendI32U, i64Const zBit, i64Shl, i64Or, i64Store nzcvOff]

/-- `logical` (lines 142–164). -/
def logical (sf : Bool) (opc : ℕ) (b : BOp) (rn rd : Reg) (dstSp : Bool) : Option (List Instr) :=
  (logicalInstr opc).map fun op =>
    pushOperand rn sf false ++ pushB b sf ++ [op] ++ maskW sf ++ [localSet t0] ++
      storeLocal rd sf dstSp t0 ++ if opc = 3 then logicalNzcv sf else []

/-- `Carry` (lines 167–171). -/
inductive Carry where
  | zero
  | one
  | cFlag

/-- `push_carry` (lines 173–181). -/
def pushCarry : Carry → List Instr
  | .zero => [i64Const 0]
  | .one => [i64Const 1]
  | .cFlag =>
    [localGet regsBase, i64Load nzcvOff, i64Const cBit, i64ShrU, i64Const 1, i64And]

/-- Stores a local to the destination, if there is one. -/
def storeDest (dst : Option ℕ) (tmp : ℕ) : List Instr :=
  match dst with
  | some off => [localGet regsBase, localGet tmp, i64Store off]
  | none => []

/-- The NZCV word of an X addition, with `a`, `b_op`, `s1` and `s` in `T0` to `T3`. -/
def addFlagsX : List Instr :=
  [localGet regsBase,
    localGet t3, i64Const 63, i64ShrU, i64Const nBit, i64Shl,
    localGet t3, i64Eqz, i64ExtendI32U, i64Const zBit, i64Shl, i64Or,
    localGet t2, localGet t0, i64LtU, localGet t3, localGet t2, i64LtU, i32Or,
    i64ExtendI32U, i64Const cBit, i64Shl, i64Or,
    localGet t0, localGet t3, i64Xor, localGet t1, localGet t3, i64Xor, i64And,
    i64Const 63, i64ShrU, i64Const vBit, i64Shl, i64Or,
    i64Store nzcvOff]

/-- The NZCV word of a W addition, with `a`, `b_op`, `s` and the wide sum in `T0` to `T3`. -/
def addFlagsW : List Instr :=
  [localGet regsBase,
    localGet t2, i64Const 31, i64ShrU, i64Const nBit, i64Shl,
    localGet t2, i64Eqz, i64ExtendI32U, i64Const zBit, i64Shl, i64Or,
    localGet t3, i64Const 32, i64ShrU, i64Const cBit, i64Shl, i64Or,
    localGet t0, localGet t2, i64Xor, localGet t1, localGet t2, i64Xor, i64And,
    i64Const 31, i64ShrU, i64Const vBit, i64Shl, i64Or,
    i64Store nzcvOff]

/-- `emit_add_core` (lines 186–229). -/
def emitAddCore (sf setFlags : Bool) (dst : Option ℕ) (carry : Carry) : List Instr :=
  if sf then
    [localGet t0, localGet t1, i64Add, localSet t2, localGet t2] ++ pushCarry carry ++
      [i64Add, localSet t3] ++ storeDest dst t3 ++ if setFlags then addFlagsX else []
  else
    [localGet t0, localGet t1, i64Add] ++ pushCarry carry ++
      [i64Add, localSet t3, localGet t3, i64Const wMask, i64And, localSet t2] ++
      storeDest dst t2 ++ if setFlags then addFlagsW else []

/-- `setup_add_operands` (lines 232–243). -/
def setupAddOperands (sf sub : Bool) (b : BOp) (rn : Reg) (rnSp : Bool) : List Instr :=
  pushOperand rn sf rnSp ++ [localSet t0] ++ pushB b sf ++ [localSet t1] ++
    (if sub then [localGet t1, i64Const (-1), i64Xor, localSet t1] else []) ++
    if sf then [] else [localGet t1, i64Const wMask, i64And, localSet t1]

/-- `add_sub` (lines 247–251). -/
def addSub (sf sub setFlags : Bool) (b : BOp) (rn : Reg) (rnSp : Bool) (rd : Reg) (rdSp : Bool) :
    List Instr :=
  setupAddOperands sf sub b rn rnSp ++
    emitAddCore sf setFlags (destOff rd rdSp) (if sub then .one else .zero)

/-- `add_sub_carry` (lines 254–257). -/
def addSubCarry (sf sub setFlags : Bool) (rm rn rd : Reg) : List Instr :=
  setupAddOperands sf sub (.shifted rm .lsl 0 false) rn false ++
    emitAddCore sf setFlags (destOff rd false) .cFlag

/-- `extract` (lines 260–275). -/
def extract (sf : Bool) (rm rn : Reg) (lsb : BitVec 6) (rd : Reg) : List Instr :=
  let width := if sf then 64 else 32
  (if lsb = 0 then pushOperand rm sf false
  else
    pushOperand rm sf false ++ [i64Const (lsb.setWidth 64), i64ShrU] ++
      pushOperand rn sf false ++ [i64Const (BitVec.ofNat 64 width - lsb.setWidth 64), i64Shl] ++
      maskW sf ++ [i64Or]) ++
    [localSet t0] ++ storeLocal rd sf false t0

/-- `pc_rel` (lines 280–300). -/
def pcRel (page : Bool) (imm : BitVec 64) (rd : Reg) (pc entryPc : BitVec 64) : List Instr :=
  match destOff rd false with
  | none => []
  | some off =>
    [localGet regsBase] ++
      (if page then
        [localGet pc0, i64Const (pc - entryPc), i64Add, i64Const (~~~0xfff), i64And,
          i64Const imm, i64Add]
      else genRelPc (pc + imm) entryPc) ++
      [i64Store off]

/-! ## The second operand -/

/-- The four shifts at any width. -/
def shiftBits {w : ℕ} (shift : ShiftType) (x : BitVec w) (k : ℕ) : BitVec w :=
  match shift with
  | .lsl => x <<< k
  | .lsr => x >>> k
  | .asr => x.sshiftRight k
  | .ror => x.rotateRight k

theorem applyShift_true (v : BitVec 64) (shift : ShiftType) (amount : BitVec 6) :
    applyShift v shift amount true = shiftBits shift v (amount.toNat % 64) := by
  cases shift <;> rfl

theorem setWidth_and_mask_eq (x : BitVec 32) : x.setWidth 64 &&& 0xffffffff#64 = x.setWidth 64 := by
  rw [Words.and_mask]
  simp

theorem applyShift_false (x : BitVec 32) (shift : ShiftType) (amount : BitVec 6) :
    applyShift (x.setWidth 64) shift amount false =
      (shiftBits shift x (amount.toNat % 32)).setWidth 64 := by
  have hx : (x.setWidth 64).setWidth 32 = x := by
    simp
  have hlsr (k : ℕ) : x.setWidth 64 >>> k = (x >>> k).setWidth 64 := by
    simp
  cases shift <;>
    simp only [applyShift, shiftBits, Interp.wMask, Bool.false_eq_true, if_false,
      BitVec.ofNat_eq_ofNat, setWidth_and_mask_eq, Words.shiftLeft_mask,
      hx, hlsr]

section Exec

variable {D : Type} {L : Layout} {stale : Flags} {bus : Bus D} {cpu : CpuState} {fuel : ℕ}
  {st : List Val} {l : ℕ → Val}

/-- A constant shift; only a word rotation uses a scratch local. -/
theorem exec_emitShift (fuel : ℕ) (st : List Val) (l : ℕ → Val) (shift : ShiftType)
    (amount : BitVec 6) (sf : Bool) {v : BitVec 64}
    (hv : v &&& widthMask sf = v) (m : HostMem D) :
    ∃ w, exec fuel (emitShift shift amount sf) ⟨.i64 v :: st, l, m⟩ =
      .next ⟨.i64 (applyShift v shift amount sf) :: st, Function.update l 6 w, m⟩ := by
  cases sf
  · -- a W operand is the extension of a word `x`
    obtain ⟨x, rfl⟩ : ∃ x : BitVec 32, v = x.setWidth 64 :=
      ⟨v.setWidth 32, (Words.and_mask v ▸ hv).symm⟩
    rw [applyShift_false]
    have hamt : amount.toNat % 32 % 64 = amount.toNat % 32 := by omega
    by_cases h0 : amount.toNat % 32 = 0
    · refine ⟨l 6, ?_⟩
      have hasr := Words.sshiftRight_mask (x.setWidth 64) 0
      simp only [Nat.add_zero] at hasr
      cases shift <;>
        simp [emitShift, shiftBits, h0, widthMask_false, setWidth_and_mask_eq, hasr,
          BitVec.rotateRight_def]
    · cases shift with
      | lsl =>
        refine ⟨l 6, ?_⟩
        simp [emitShift, shiftBits, h0, widthMask_false, hamt, Words.shiftLeft_mask]
      | lsr =>
        refine ⟨l 6, ?_⟩
        simp [emitShift, shiftBits, h0, hamt]
      | asr =>
        refine ⟨l 6, ?_⟩
        have hamt' : (32 + amount.toNat % 32) % 64 = 32 + amount.toNat % 32 := by omega
        have hasr := Words.sshiftRight_mask (x.setWidth 64) (amount.toNat % 32)
        simp [emitShift, shiftBits, widthMask_false, hamt', hasr]
      | ror =>
        have hsub : (32 - amount.toNat % 32) % 64 = 32 - amount.toNat % 32 := by omega
        have hror := Words.rotateRight_mask x
          (show 0 < amount.toNat % 32 ∧ amount.toNat % 32 < 32 by omega)
        refine ⟨.i64 (x.setWidth 64), ?_⟩
        simp [emitShift, shiftBits, h0, hamt, hsub, hror]
  · refine ⟨l 6, ?_⟩
    rw [applyShift_true]
    cases shift <;> by_cases h0 : amount.toNat % 64 = 0 <;> simp [emitShift, shiftBits, h0]

/-- The value of the second operand. -/
def BOp.value (cpu : CpuState) (sf : Bool) : BOp → BitVec 64
  | imm v => v
  | shifted rm shift amount negate =>
    let b := applyShift (read cpu rm sf false) shift amount sf
    if negate then ~~~b &&& widthMask sf else b
  | ext rm option shift => extendReg cpu rm option shift

/-- `push_ext` shifts by the amount modulo 64. -/
def BOp.Ok : BOp → Prop
  | ext _ _ shift => shift < 64
  | _ => True

theorem exec_pushExt (h : Ready L bus.ram.size.toNat l) (rm : Reg) (option : ℕ) {shift : ℕ}
    (hshift : shift < 64) :
    exec fuel (pushExt rm option shift) ⟨st, l, host L stale bus cpu⟩ =
      .next ⟨.i64 (extendReg cpu rm option shift) :: st, l, host L stale bus cpu⟩ := by
  have hmod : shift % 64 = shift := Nat.mod_eq_of_lt hshift
  have hload : exec fuel (if rm = 31 then [i64Const 0] else [localGet regsBase, i64Load (xOff rm)])
      ⟨st, l, host L stale bus cpu⟩ =
      .next ⟨.i64 (cpu.readGpr rm false) :: st, l, host L stale bus cpu⟩ := by
    split_ifs with hrm
    · simp [hrm]
    · simp [h.regs, h.wf, readGpr_true_of_ne hrm false]
  unfold pushExt
  dsimp only
  rw [List.append_assoc, exec_append, hload, Outcome.bind_next]
  obtain rfl | h0 := Nat.eq_zero_or_pos shift <;> rcases option with _ | _ | _ | _ | _ | _ | _ | n
  all_goals simp [extendReg, extendVal, extendOf, *]

theorem exec_pushB (stale : Flags) (cpu : CpuState) (fuel : ℕ) (st : List Val)
    (h : Ready L bus.ram.size.toNat l) {b : BOp} (hb : b.Ok) (sf : Bool) :
    ∃ w, exec fuel (pushB b sf) ⟨st, l, host L stale bus cpu⟩ =
      .next ⟨.i64 (b.value cpu sf) :: st, Function.update l 6 w, host L stale bus cpu⟩ := by
  cases b with
  | imm v =>
    refine ⟨l 6, ?_⟩
    simp [pushB, BOp.value]
  | shifted rm shift amount negate =>
    have hmask : read cpu rm sf false &&& widthMask sf = read cpu rm sf false := by
      rw [read_eq, and_widthMask_and_widthMask]
    obtain ⟨w, hw⟩ := exec_emitShift fuel st l shift amount sf hmask
      (host L stale bus cpu)
    refine ⟨w, ?_⟩
    cases negate
    · simp [pushB, exec_append, h, hw, BOp.value]
    · simp [pushB, exec_append, h, hw, BOp.value, Words.xor_ones]
  | ext rm option shift =>
    refine ⟨l 6, ?_⟩
    rw [pushB, exec_pushExt h rm option hb, Function.update_eq_self]
    rfl

/-! ## Logical operations -/

/-- A word is less than `2 ^ 32`, and every value less than `2 ^ 64`. -/
theorem toNat_and_widthMask (v : BitVec 64) (sf : Bool) :
    (v &&& widthMask sf).toNat < 2 ^ datasize sf := by
  cases sf
  · rw [widthMask_false, Words.toNat_and_mask]
    exact Nat.mod_lt _ (by decide)
  · exact BitVec.isLt _

/-- The packed word of ANDS and BICS. -/
theorem logicalFlags_toNzcv (sf : Bool) (result : BitVec 64) :
    (((result &&& widthMask sf) >>> if sf then 63 else 31) <<< 31 |||
        bit64 (result &&& widthMask sf == 0) <<< 30) = (logicalFlags sf result).toNzcv := by
  have hlt := toNat_and_widthMask result sf
  have hn : ((result &&& widthMask sf) >>> if sf then 63 else 31) =
      bit64 (logicalFlags sf result).n := by
    cases sf <;>
      exact (shiftRight_eq_bit64 hlt).trans (by rw [logicalFlags, shiftRight_and_one_beq_one]; rfl)
  rw [hn]
  simp [Flags.toNzcv, logicalFlags]

theorem exec_logicalNzcv (sf : Bool) (result : BitVec 64) (h : Ready L bus.ram.size.toNat l)
    (hl : l 2 = .i64 (result &&& widthMask sf)) :
    exec fuel (logicalNzcv sf) ⟨st, l, host L stale bus cpu⟩ =
      .next ⟨st, l, host L stale bus (setFlagsIf cpu true (logicalFlags sf result))⟩ := by
  have hstore := exec_storeNzcv cpu stale fuel st l [] h.wf (logicalFlags_toNzcv sf result)
  generalize result &&& widthMask sf = r at hl hstore
  cases sf
  · simp only [Bool.false_eq_true, if_false] at hstore
    simpa [logicalNzcv, h.regs, hl] using hstore
  · simp only [if_true] at hstore
    simpa [logicalNzcv, h.regs, hl] using hstore

theorem emits_logical (h : Ready L bus.ram.size.toNat l) {b : BOp} (hb : b.Ok) (sf : Bool)
    {opc : ℕ} (hopc : opc ≤ 3) (rn rd : Reg) (dstSp : Bool) :
    ∃ code result, logical sf opc b rn rd dstSp = some code ∧
      logicalOp opc (read cpu rn sf false) (b.value cpu sf) = some result ∧
      Emits L stale bus l code cpu
        (write (setFlagsIf cpu (opc == 3) (logicalFlags sf result)) rd sf result dstSp) := by
  obtain ⟨op, result, hop, hresult, hexec⟩ : ∃ op result, logicalInstr opc = some op ∧
      logicalOp opc (read cpu rn sf false) (b.value cpu sf) = some result ∧
      ∀ fuel is st l (m : HostMem D),
        exec fuel (op :: is)
            ⟨.i64 (b.value cpu sf) :: .i64 (read cpu rn sf false) :: st, l, m⟩ =
          exec fuel is ⟨.i64 result :: st, l, m⟩ := by
    interval_cases opc <;> exact ⟨_, _, rfl, rfl, fun _ _ _ _ _ => exec_next rfl⟩
  refine ⟨_, result, by rw [logical, hop]; rfl, hresult, ?_⟩
  intro fuel st
  obtain ⟨w, hw⟩ := exec_pushB stale cpu fuel (.i64 (read cpu rn sf false) :: st) h hb sf
  by_cases h3 : opc = 3
  · simp [exec_append, h, hw, hexec, h3, isScratch, exec_logicalNzcv sf result, write_setFlagsIf]
  · simp [exec_append, h, hw, hexec, h3, isScratch, setFlagsIf]

/-! ## Additions -/

/-- The carry that is added. -/
def Carry.value (cpu : CpuState) : Carry → Bool
  | zero => false
  | one => true
  | cFlag => cpu.flags.c

@[simp] theorem exec_pushCarry (h : Ready L bus.ram.size.toNat l) (carry : Carry) :
    exec fuel (pushCarry carry) ⟨st, l, host L stale bus cpu⟩ =
      .next ⟨.i64 (bit64 (carry.value cpu)) :: st, l, host L stale bus cpu⟩ := by
  cases carry with
  | cFlag =>
    have hbit := Flags.toNzcv_bit_c cpu.flags
    simp only [BitVec.ofNat_eq_ofNat] at hbit
    simp [pushCarry, h.regs, h.wf, Carry.value, hbit]
  | _ => rfl

@[simp] theorem exec_storeDest (h : Ready L bus.ram.size.toNat l) {tmp : ℕ} {v : BitVec 64}
    (hv : l tmp = .i64 v) (rd : Reg) (sp : Bool) :
    exec fuel (storeDest (destOff rd sp) tmp) ⟨st, l, host L stale bus cpu⟩ =
      .next ⟨st, l, host L stale bus (cpu.writeGpr rd sp v)⟩ := by
  unfold storeDest
  obtain ⟨hoff, hw⟩ | ⟨hoff, hw⟩ := destOff_cases rd sp
  · simp [hoff, hw]
  · simp [hoff, h.regs, h.wf, hv, hw]

theorem exec_addFlagsX (stale : Flags) (bus : Bus D) (cpu : CpuState) (fuel : ℕ) (st : List Val)
    {a b s s1 : BitVec 64} (h : Ready L bus.ram.size.toNat l)
    (ha : l 2 = .i64 a) (hb : l 3 = .i64 b) (hs1 : l 4 = .i64 s1) (hs : l 5 = .i64 s) :
    exec fuel addFlagsX ⟨st, l, host L stale bus cpu⟩ =
      .next ⟨st, l, host L stale bus (setFlagsIf cpu true
        { n := s.getLsbD 63
          z := s == 0
          c := decide (s1 < a) || decide (s < s1)
          v := ((a ^^^ s) &&& (b ^^^ s)).getLsbD 63 })⟩ := by
  have hv : s >>> 63 <<< 31 ||| bit64 (s == 0#64) <<< 30 |||
      bit64 (decide (s1 < a) || decide (s < s1)) <<< 29 |||
      ((a ^^^ s) &&& (b ^^^ s)) >>> 63 <<< 28 =
      Flags.toNzcv
        { n := s.getLsbD 63
          z := s == 0
          c := decide (s1 < a) || decide (s < s1)
          v := ((a ^^^ s) &&& (b ^^^ s)).getLsbD 63 } := by
    rw [shiftRight_eq_bit64 (BitVec.isLt _), shiftRight_eq_bit64 (BitVec.isLt _)]
    rfl
  have hstore := exec_storeNzcv cpu stale fuel st l [] h.wf hv
  simp [addFlagsX, h.regs, ha, hb, hs1, hs, RelOp.eval, hstore]

theorem exec_addFlagsW (stale : Flags) (bus : Bus D) (cpu : CpuState) (fuel : ℕ) (st : List Val)
    {a b s wide : BitVec 64} (h : Ready L bus.ram.size.toNat l)
    (ha : l 2 = .i64 a) (hb : l 3 = .i64 b) (hs : l 4 = .i64 s) (hwide : l 5 = .i64 wide)
    (halt : a.toNat < 2 ^ 32) (hslt : s.toNat < 2 ^ 32) (hwidelt : wide.toNat < 2 ^ 33) :
    exec fuel addFlagsW ⟨st, l, host L stale bus cpu⟩ =
      .next ⟨st, l, host L stale bus (setFlagsIf cpu true
        { n := s.getLsbD 31
          z := s == 0
          c := wide.getLsbD 32
          v := ((a ^^^ s) &&& (b ^^^ s)).getLsbD 31 })⟩ := by
  have hxor : ((a ^^^ s) &&& (b ^^^ s)).toNat < 2 ^ 32 := by
    rw [BitVec.toNat_and]
    exact Nat.lt_of_le_of_lt Nat.and_le_left (BitVec.toNat_xor a s ▸ Nat.xor_lt_two_pow halt hslt)
  have hv : s >>> 31 <<< 31 ||| bit64 (s == 0#64) <<< 30 ||| wide >>> 32 <<< 29 |||
      ((a ^^^ s) &&& (b ^^^ s)) >>> 31 <<< 28 =
      Flags.toNzcv
        { n := s.getLsbD 31
          z := s == 0
          c := wide.getLsbD 32
          v := ((a ^^^ s) &&& (b ^^^ s)).getLsbD 31 } := by
    rw [shiftRight_eq_bit64 hslt, shiftRight_eq_bit64 hwidelt, shiftRight_eq_bit64 hxor]
    rfl
  have hstore := exec_storeNzcv cpu stale fuel st l [] h.wf hv
  simp [addFlagsW, h.regs, ha, hb, hs, hwide, hstore]

/-- `emit_add_core` with its operands in `T0` and `T1`. -/
theorem emits_emitAddCore (h : Ready L bus.ram.size.toNat l) {a b : BitVec 64}
    (ha : l 2 = .i64 a) (hb : l 3 = .i64 b) (sf : Bool) (hma : a &&& widthMask sf = a)
    (hmb : b &&& widthMask sf = b) (setFlags : Bool) (rd : Reg) (rdSp : Bool) (carry : Carry) :
    Emits L stale bus l (emitAddCore sf setFlags (destOff rd rdSp) carry) cpu
      (write (setFlagsIf cpu setFlags (addWithCarryIn a b (bit64 (carry.value cpu)) sf).2) rd sf
        (addWithCarryIn a b (bit64 (carry.value cpu)) sf).1 rdSp) := by
  intro fuel st
  rw [write_setFlagsIf, write_eq]
  cases sf
  · have halt : a.toNat < 2 ^ 32 := hma ▸ toNat_and_widthMask a false
    have hblt : b.toNat < 2 ^ 32 := hmb ▸ toNat_and_widthMask b false
    have hwide : (a + b + bit64 (carry.value cpu)).toNat < 2 ^ 33 := by
      have hc : (bit64 (carry.value cpu)).toNat ≤ 1 := by cases carry.value cpu <;> decide
      rw [BitVec.toNat_add, BitVec.toNat_add]
      omega
    rw [addWithCarryIn_w hma hmb]
    generalize hw : a + b + bit64 (carry.value cpu) = wide at hwide
    have hslt : (wide &&& 0xffffffff#64).toNat < 2 ^ 32 := toNat_and_widthMask wide false
    generalize hs : wide &&& 0xffffffff#64 = s at hslt
    have hms : s &&& widthMask false = s := by
      rw [← hs]
      exact and_widthMask_and_widthMask wide false
    cases setFlags
    · simp [emitAddCore, exec_append, h, ha, hb, isScratch, hw, hs, hms, setFlagsIf]
    · have hflags (l' : ℕ → Val) (hr : Ready L bus.ram.size.toNat l') (h2 : l' 2 = .i64 a)
          (h3 : l' 3 = .i64 b) (h4 : l' 4 = .i64 s) (h5 : l' 5 = .i64 wide) :=
        exec_addFlagsW stale bus (cpu.writeGpr rd rdSp s) fuel st hr h2 h3 h4 h5 halt hslt hwide
      simp [emitAddCore, exec_append, h, ha, hb, isScratch, hw, hs, hms, hflags]
  · rw [addWithCarryIn_x]
    generalize hs1 : a + b = s1
    generalize hs : s1 + bit64 (carry.value cpu) = s
    cases setFlags
    · simp [emitAddCore, exec_append, h, ha, hb, isScratch, hs1, hs, setFlagsIf]
    · have hflags (l' : ℕ → Val) (hr : Ready L bus.ram.size.toNat l') (h2 : l' 2 = .i64 a)
          (h3 : l' 3 = .i64 b) (h4 : l' 4 = .i64 s1) (h5 : l' 5 = .i64 s) :=
        exec_addFlagsX stale bus (cpu.writeGpr rd rdSp s) fuel st hr h2 h3 h4 h5
      simp [emitAddCore, exec_append, h, ha, hb, isScratch, hs1, hs, hflags]

/-- `setup_add_operands` leaves the operands in `T0` and `T1`. -/
theorem exec_setupAddOperands (stale : Flags) (cpu : CpuState) (fuel : ℕ) (st : List Val)
    (h : Ready L bus.ram.size.toNat l) {b : BOp} (hb : b.Ok) (sf sub : Bool) (rn : Reg)
    (rnSp : Bool) :
    ∃ l', Keeps l l' ∧ l' 2 = .i64 (read cpu rn sf rnSp) ∧
      l' 3 = .i64 ((if sub then ~~~b.value cpu sf else b.value cpu sf) &&& widthMask sf) ∧
      exec fuel (setupAddOperands sf sub b rn rnSp) ⟨st, l, host L stale bus cpu⟩ =
        .next ⟨st, l', host L stale bus cpu⟩ := by
  have h' : Ready L bus.ram.size.toNat (Function.update l 2 (.i64 (read cpu rn sf rnSp))) :=
    (ready_update (by decide)).mpr h
  obtain ⟨w, hw⟩ := exec_pushB stale cpu fuel st h' hb sf
  cases sf <;> cases sub <;>
    refine ⟨_, ?_, ?_, ?_, by simp [setupAddOperands, exec_append, h, hw]; rfl⟩ <;>
    simp [isScratch, Words.xor_ones, widthMask_false]

theorem emits_addCore (h : Ready L bus.ram.size.toNat l) {b : BOp} (hb : b.Ok)
    (sf sub setFlags : Bool) (rn : Reg) (rnSp : Bool) (rd : Reg) (rdSp : Bool) (carry : Carry) :
    Emits L stale bus l
      (setupAddOperands sf sub b rn rnSp ++ emitAddCore sf setFlags (destOff rd rdSp) carry) cpu
      (let sum := addWithCarryIn (read cpu rn sf rnSp)
        (if sub then ~~~b.value cpu sf else b.value cpu sf) (bit64 (carry.value cpu)) sf
      write (setFlagsIf cpu setFlags sum.2) rd sf sum.1 rdSp) := by
  intro fuel st
  obtain ⟨l', hkeeps, hl2, hl3, hexec⟩ :=
    exec_setupAddOperands stale cpu fuel st h hb sf sub rn rnSp
  have hread : read cpu rn sf rnSp &&& widthMask sf = read cpu rn sf rnSp := by
    rw [read_eq, and_widthMask_and_widthMask]
  rw [exec_append, hexec, Outcome.bind_next, ← addWithCarryIn_mask, hread]
  have hcore : Emits L stale bus l' _ cpu _ := emits_emitAddCore (hkeeps.ready h) hl2 hl3 sf hread
    (and_widthMask_and_widthMask _ _) setFlags rd rdSp carry
  exact (hcore fuel st).mono (fun s hs => ⟨hs.1, hkeeps.trans hs.2.1, hs.2.2⟩) fun _ hs => hs

theorem emits_addSub (h : Ready L bus.ram.size.toNat l) {b : BOp} (hb : b.Ok)
    (sf sub setFlags : Bool) (rn : Reg) (rnSp : Bool) (rd : Reg) (rdSp : Bool) :
    Emits L stale bus l (addSub sf sub setFlags b rn rnSp rd rdSp) cpu
      (let sum := addWithCarry (read cpu rn sf rnSp) (b.value cpu sf) sub sf
      write (setFlagsIf cpu setFlags sum.2) rd sf sum.1 rdSp) := by
  have hcarry :
      bit64 ((if sub then Carry.one else Carry.zero).value cpu) = if sub then 1 else 0 := by
    cases sub <;> rfl
  have hcore : Emits L stale bus l _ cpu _ :=
    emits_addCore h hb sf sub setFlags rn rnSp rd rdSp (if sub then .one else .zero)
  rw [hcarry] at hcore
  exact hcore

/-- A register operand that is not shifted. -/
theorem value_lsl_zero (rm : Reg) (sf : Bool) :
    (BOp.shifted rm .lsl 0 false).value cpu sf = read cpu rm sf false := by
  cases sf <;>
    simp [BOp.value, applyShift, read_eq, Interp.wMask, widthMask_false, BitVec.and_assoc]

theorem emits_addSubCarry (h : Ready L bus.ram.size.toNat l) (sf sub setFlags : Bool)
    (rm rn rd : Reg) :
    Emits L stale bus l (addSubCarry sf sub setFlags rm rn rd) cpu
      (Interp.addSubCarry cpu sf sub setFlags rm rn rd) := by
  have hok : (BOp.shifted rm .lsl 0 false).Ok := trivial
  have hcore : Emits L stale bus l _ cpu _ :=
    emits_addCore h hok sf sub setFlags rn false rd false .cFlag
  rw [value_lsl_zero] at hcore
  exact hcore

/-! ## EXTR, ADR and MOVZ -/

/-- Code that pushes one value, followed by `store_local` of it. -/
theorem emits_storeT0 (h : Ready L bus.ram.size.toNat l) {code : List Instr} {v : BitVec 64}
    (hcode : ∀ fuel st, ∃ l', Keeps l l' ∧
      exec fuel code ⟨st, l, host L stale bus cpu⟩ =
        .next ⟨.i64 v :: st, l', host L stale bus cpu⟩)
    (rd : Reg) (sf : Bool) :
    Emits L stale bus l (code ++ [localSet t0] ++ storeLocal rd sf false t0) cpu
      (write cpu rd sf v false) := by
  intro fuel st
  obtain ⟨l', hkeeps, hexec⟩ := hcode fuel st
  simp [exec_append, hexec, hkeeps.ready h, hkeeps, isScratch]

/-- EXTR of two W registers, on the words. -/
theorem extract_word (m n : BitVec 64) {k : ℕ} (hk : 0 < k ∧ k < 32) :
    ((m &&& 0xffffffff#64) >>> k) ||| ((n &&& 0xffffffff#64) <<< (32 - k) &&& 0xffffffff#64) =
      (((m &&& 0xffffffff#64).setWidth 32 >>> (k % 32)) |||
        ((n &&& 0xffffffff#64).setWidth 32 <<< ((2 ^ 32 + 32 - k) % 32))).setWidth 64 := by
  have hr : (2 ^ 32 + 32 - k) % 32 = 32 - k := by omega
  rw [Nat.mod_eq_of_lt hk.2, hr, Words.setWidth_and_mask, Words.setWidth_and_mask,
    ← Words.extract_mask, Words.and_mask, Words.and_mask n]

theorem emits_extract (h : Ready L bus.ram.size.toNat l) {sf : Bool} (rm rn : Reg) {lsb : BitVec 6}
    (hlsb : lsb.toNat < datasize sf) (rd : Reg) :
    Emits L stale bus l (extract sf rm rn lsb rd) cpu (Interp.extract cpu sf rm rn lsb rd) := by
  unfold extract Interp.extract
  dsimp only
  apply emits_storeT0 h
  intro fuel st
  refine ⟨l, keeps_refl l, ?_⟩
  by_cases h0 : lsb = 0#6
  · subst h0
    cases sf <;> simp [h, read_eq, widthMask_false, Words.and_mask]
  · have hpos : 0 < lsb.toNat := by
      rw [Nat.pos_iff_ne_zero]
      exact fun he => h0 (BitVec.eq_of_toNat_eq he)
    have hne : lsb.toNat ≠ 0 := Nat.pos_iff_ne_zero.mp hpos
    have hlt := lsb.isLt
    have hamt : (lsb.setWidth 64).toNat % 64 = lsb.toNat := by
      rw [BitVec.toNat_setWidth]
      omega
    have hsub {width : ℕ} (hw : lsb.toNat < width ∧ width ≤ 64) :
        (BitVec.ofNat 64 width - lsb.setWidth 64).toNat % 64 = width - lsb.toNat := by
      rw [BitVec.toNat_sub, BitVec.toNat_ofNat, BitVec.toNat_setWidth]
      omega
    cases sf
    · have hsub := hsub ⟨hlsb, by decide⟩
      have hword := extract_word (cpu.readGpr rm false) (cpu.readGpr rn false) ⟨hpos, hlsb⟩
      simp only [datasize, Bool.false_eq_true, if_false] at hsub
      generalize lsb.setWidth 64 = c at hamt hsub
      generalize hd : BitVec.ofNat 64 32 - c = d at hsub
      simpa [exec_append, h, h0, hne, hd, hamt, hsub, read_eq, widthMask_false] using hword
    · have hsub := hsub ⟨hlsb, by decide⟩
      simp only [datasize, if_true] at hsub
      generalize lsb.setWidth 64 = c at hamt hsub
      generalize hd : BitVec.ofNat 64 64 - c = d at hsub
      simp [exec_append, h, h0, hne, hd, hamt, hsub]

theorem emits_pcRel (h : Ready L bus.ram.size.toNat l) {base : BitVec 64} (hbase : l 7 = .i64 base)
    (page : Bool) (imm : BitVec 64) (rd : Reg) (pc entryPc : BitVec 64) :
    Emits L stale bus l (pcRel page imm rd pc entryPc) cpu
      (Interp.pcRel cpu page imm rd (base + (pc - entryPc))) := by
  intro fuel st
  unfold pcRel Interp.pcRel
  obtain ⟨hoff, hw⟩ | ⟨hoff, hw⟩ := destOff_cases rd false
  · simp [hoff, write_eq, hw]
  · cases page
    · have hsum : base + (pc + imm - entryPc) = base + (pc - entryPc) + imm := by ring
      simp [hoff, exec_append, h.regs, h.wf, hbase, write_eq, hw, hsum]
    · simp [hoff, h.regs, h.wf, hbase, write_eq, hw]

theorem emits_moveWide (h : Ready L bus.ram.size.toNat l) (sf : Bool) {opc : ℕ}
    (hopc : opc = 0 ∨ opc = 2 ∨ opc = 3) (hw : BitVec 2) (imm16 : BitVec 16) (rd : Reg) :
    ∃ code cpu', moveWide sf opc hw imm16 rd = some code ∧
      Interp.moveWide cpu sf opc hw imm16 rd = some cpu' ∧ Emits L stale bus l code cpu cpu' := by
  unfold moveWide Interp.moveWide
  by_cases hrd : rd = 31
  · subst hrd
    obtain rfl | rfl | rfl := hopc <;>
      exact ⟨[], cpu, rfl, by simp [write_eq], fun fuel st => by simp⟩
  · have hoff : destOff rd false = some (xOff rd) := if_neg hrd
    have hwrite (v : BitVec 64) : cpu.writeGpr rd true v = cpu.writeGpr rd false v :=
      writeGpr_true_of_ne hrd false v
    have hread : cpu.readGpr rd true = cpu.readGpr rd false := readGpr_true_of_ne hrd false
    simp only [hoff]
    obtain rfl | rfl | rfl := hopc <;>
      refine ⟨_, _, rfl, rfl, fun fuel st => ?_⟩ <;>
      simp [exec_append, h.regs, h.wf, hwrite, hread, write_eq]

end Exec

end V64.Jit
