import Mathlib.Tactic.IntervalCases
import V64.Decoder.Fields
import V64.Jit.Lower.Common

/-!
# Lowering Advanced SIMD

Model of `crates/jit/src/lower/simd/mod.rs` and the families beside it. Where the
compiler would stop (a division by zero, an index out of bounds, a subtraction
that underflows) the emitter is `none`, as where it reports `false`.

* `isInlineSimd`: the forms that are admitted.
* `lowerSimd_isSome`: each of them that the decoder makes is lowered.
-/

namespace V64.Jit

open V64.Cpu V64.Decoder Wasm
open Wasm.Instr

/-! ## Shared helpers -/

/-- `push_v` (`simd/mod.rs`, lines 64–66). -/
def pushV (r : Reg) : List Instr := [localGet regsBase, v128Load (vOff r)]

/-- `finish_v` (lines 70–75). -/
def finishV (q : Bool) (rd : Reg) : List Instr :=
  (if q then [] else [v128Const 0xffffffffffffffff#128, v128And]) ++ [v128Store (vOff rd)]

/-- `shuffle2` (lines 79–85). -/
def shuffle2 (q : Bool) (rn rm rd : Reg) (lanes : List ℕ) : List Instr :=
  [localGet regsBase] ++ pushV rn ++ pushV rm ++ [i8x16Shuffle lanes] ++ finishV q rd

/-- The shape with lanes of `1 << size` bytes, as each table by `size` spells it out. -/
def shapeOf (size : ℕ) : Shape :=
  match size with
  | 0 => .i8x16
  | 1 => .i16x8
  | 2 => .i32x4
  | _ => .i64x2

/-- A subtraction of unsigned host integers: `none` is an overflow. -/
def checkedSub (a b : ℕ) : Option ℕ := if b ≤ a then some (a - b) else none

/-- A store to the 16-byte lane pattern: `none` is an index out of bounds. -/
def setLane (lanes : List ℕ) (i v : ℕ) : Option (List ℕ) :=
  if i < 16 then some (lanes.set i (v % 256)) else none

/-! ## Copies and immediates -/

/-- `lane_off` (`copy.rs`, lines 14–16). -/
def laneOff (v : Reg) (lane size : ℕ) : ℕ := vOff v + lane * (1 <<< size)

/-- `iload` (lines 19–36). -/
def iload (size : ℕ) (signed : Bool) (off : ℕ) : Instr :=
  match size with
  | 0 => i64LoadN 1 signed off
  | 1 => i64LoadN 2 signed off
  | 2 => i64LoadN 4 signed off
  | _ => i64Load off

/-- `istore` (lines 39–47). -/
def istore (size off : ℕ) : Instr :=
  match size with
  | 0 => i64StoreN 1 off
  | 1 => i64StoreN 2 off
  | 2 => i64StoreN 4 off
  | _ => i64Store off

/-- `splat` (lines 50–57). -/
def emitSplat (size : ℕ) : List Instr :=
  (if size ≤ 2 then [i32WrapI64] else []) ++ [simd (.splat (shapeOf size))]

/-- `rep32` of `expand_imm`. -/
def rep32 (v : BitVec 64) : BitVec 64 := (v &&& 0xffffffff) ||| ((v &&& 0xffffffff) <<< 32)

/-- `rep16` of `expand_imm`. -/
def rep16 (v : BitVec 64) : BitVec 64 :=
  let h := v &&& 0xffff
  h ||| (h <<< 16) ||| (h <<< 32) ||| (h <<< 48)

/-- `expand_imm` (lines 94–130). -/
def expandImm (op : Bool) (cmode : ℕ) (imm8 : BitVec 8) : Option (BitVec 64) :=
  let i : BitVec 64 := imm8.setWidth 64
  match cmode >>> 1 with
  | 0b000 => some (rep32 i)
  | 0b001 => some (rep32 (i <<< 8))
  | 0b010 => some (rep32 (i <<< 16))
  | 0b011 => some (rep32 (i <<< 24))
  | 0b100 => some (rep16 i)
  | 0b101 => some (rep16 (i <<< 8))
  | 0b110 => some (rep32 (if cmode &&& 1 = 0 then (i <<< 8) ||| 0xff else (i <<< 16) ||| 0xffff))
  | _ =>
    if cmode &&& 1 = 0 then
      if !op then some ((List.range 8).foldl (fun v k => v ||| (i <<< (8 * k))) 0)
      else
        some ((List.range 8).foldl
          (fun v k =>
            if (imm8 >>> k) &&& 1#8 = 1#8 then v ||| ((0xff : BitVec 64) <<< (8 * k)) else v)
          0)
    else none

/-- `can_lower_mod_imm` (lines 62–64). -/
def canLowerModImm (op : Bool) (cmode : ℕ) (imm8 : BitVec 8) : Bool :=
  (expandImm op cmode imm8).isSome

/-- `simd_mod_imm` (lines 69–90). -/
def simdModImm (q op : Bool) (cmode : ℕ) (imm8 : BitVec 8) (rd : Reg) : Option (List Instr) :=
  (expandImm op cmode imm8).map fun elem =>
    let val : BitVec 128 := if q then elem ++ elem else elem.setWidth 128
    let qmask : BitVec 128 := if q then BitVec.allOnes 128 else 0xffffffffffffffff#128
    let cmodeHi := cmode >>> 1
    if cmodeHi ≤ 0b101 ∧ cmode &&& 1 = 1 then
      [localGet regsBase] ++ pushV rd ++ [v128Const val, if op then v128AndNot else v128Or] ++
        finishV q rd
    else
      let result := if op ∧ cmodeHi ≤ 0b110 then ~~~val &&& qmask else val &&& qmask
      [localGet regsBase, v128Const result, v128Store (vOff rd)]

/-- `simd_dup_general` (lines 133–138). -/
def simdDupGeneral (q : Bool) (size : ℕ) (rn rd : Reg) : List Instr :=
  [localGet regsBase] ++ pushOperand rn true false ++ emitSplat size ++ finishV q rd

/-- `simd_dup_element` (lines 141–146). -/
def simdDupElement (q : Bool) (size index : ℕ) (rn rd : Reg) : List Instr :=
  [localGet regsBase, localGet regsBase, iload size false (laneOff rn index size)] ++
    emitSplat size ++ finishV q rd

/-- `simd_ins_general` (lines 149–153). -/
def simdInsGeneral (size index : ℕ) (rn rd : Reg) : List Instr :=
  [localGet regsBase] ++ pushOperand rn true false ++ [istore size (laneOff rd index size)]

/-- `simd_ins_element` (lines 156–160). -/
def simdInsElement (size dst src : ℕ) (rn rd : Reg) : List Instr :=
  [localGet regsBase, localGet regsBase, iload size false (laneOff rn src size),
    istore size (laneOff rd dst size)]

/-- `simd_mov_to_gpr` (lines 163–171). -/
def simdMovToGpr (signed dst64 : Bool) (size index : ℕ) (vn rd : Reg) : List Instr :=
  match destOff rd false with
  | none => []
  | some rdOff =>
    [localGet regsBase, localGet regsBase, iload size signed (laneOff vn index size)] ++
      (if signed && !dst64 then [i64Const 0xffffffff, i64And] else []) ++ [i64Store rdOff]

/-! ## Permutes -/

/-- The source of output element `oi` (`permute.rs`, lines 16–23): whether it is in
    Vm, and which element it is. -/
def zipTrnSource (opcode half oi : ℕ) : Option (Bool × ℕ) :=
  match opcode with
  | 0b011 => some (oi % 2 == 1, oi / 2)
  | 0b111 => some (oi % 2 == 1, half + oi / 2)
  | 0b001 => if half = 0 then none else some (decide (oi ≥ half), 2 * (oi % half))
  | 0b101 => if half = 0 then none else some (decide (oi ≥ half), 2 * (oi % half) + 1)
  -- `oi & !1` is the even one of a pair, `(oi & !1) | 1` the odd one
  | 0b010 => some (oi % 2 == 1, 2 * (oi / 2))
  | _ => some (oi % 2 == 1, 2 * (oi / 2) + 1)

/-- The loop of `simd_zip_trn` over the output elements (lines 14–28). -/
def zipTrnLanes (esize n opcode : ℕ) : Option (List ℕ) :=
  (List.range n).foldlM (fun lanes oi => do
    let (fromB, si) ← zipTrnSource opcode (n / 2) oi
    let src := (if fromB then 16 else 0) + si * esize
    (List.range esize).foldlM (fun lanes b => setLane lanes (oi * esize + b) (src + b)) lanes)
    (List.replicate 16 0)

/-- `simd_zip_trn` (lines 9–30). -/
def simdZipTrn (q : Bool) (size opcode : ℕ) (rm rn rd : Reg) : Option (List Instr) :=
  (zipTrnLanes (1 <<< size) ((if q then 16 else 8) / (1 <<< size)) opcode).map
    (shuffle2 q rn rm rd)

/-- The pattern of `simd_ext` (lines 33–45). -/
def extLanes (q : Bool) (imm4 : ℕ) : List ℕ :=
  (List.range 16).map fun j =>
    let k := imm4 + j
    if j < (if q then 16 else 8) then (if q ∨ k < 8 then k else 16 + (k - 8)) % 256 else 0

/-- `simd_ext` (lines 33–45). -/
def simdExt (q : Bool) (imm4 : ℕ) (rm rn rd : Reg) : List Instr :=
  shuffle2 q rn rm rd (extLanes q imm4)

/-- `can_lower_tbl` (lines 48–50). -/
def canLowerTbl (isTbx : Bool) (len : ℕ) : Bool := !isTbx && len == 0

/-- `simd_tbl` (lines 54–64). -/
def simdTbl (q isTbx : Bool) (len : ℕ) (rm rn rd : Reg) : Option (List Instr) :=
  if !canLowerTbl isTbx len then none
  else some ([localGet regsBase] ++ pushV rn ++ pushV rm ++ [i8x16Swizzle] ++ finishV q rd)

/-! ## Shifts by an immediate -/

/-- `can_lower` (`shift.rs`, lines 14–16). -/
def canLowerShift (u : Bool) (opcode : ℕ) : Bool := opcode == 0b00000 || (opcode == 0b01010 && !u)

/-- The log2 of the element size, from the highest set bit of `immh` (line 21). -/
def shiftSize (immh : ℕ) : Option ℕ := do
  let k ← checkedSub (BitVec.ofNat 8 immh).clz.toNat 4
  checkedSub 3 k

/-- `simd_shift_imm` (lines 19–51). -/
def simdShiftImm (q u : Bool) (immh immb opcode : ℕ) (rn rd : Reg) : Option (List Instr) := do
  let size ← shiftSize immh
  let esize := 8 <<< size
  let immhb := (immh <<< 3) ||| immb
  let shift (sh : ℕ) (op : LaneShiftOp) : List Instr :=
    [localGet regsBase] ++ pushV rn ++ [i32Const (BitVec.ofNat 32 sh), laneShift (shapeOf size) op]
      ++ finishV q rd
  if opcode = 0b01010 ∧ !u then
    let sh ← checkedSub immhb esize
    return shift sh .shl
  else if opcode = 0b00000 then
    let sh ← checkedSub (2 * esize) immhb
    if u ∧ sh = esize then
      return [localGet regsBase, v128Const 0, v128Store (vOff rd)]
    else
      return shift (if !u ∧ sh = esize then esize - 1 else sh) (if u then .shrU else .shrS)
  else none

/-! ## Three registers -/

/-- `can_lower` (`three_diff.rs`, lines 17–19). -/
def canLowerThreeDiff (size opcode : ℕ) : Bool := opcode == 0b1100 && decide (size ≤ 2)

/-- `extmul` (lines 36–52). -/
def extmul (q u : Bool) (size : ℕ) : Instr :=
  if size ≤ 2 then simd (.extMul (shapeOf size) q !u) else simd (.extMul .i32x4 true false)

/-- `simd_three_diff` (lines 22–32). -/
def simdThreeDiff (q u : Bool) (size opcode : ℕ) (rm rn rd : Reg) : Option (List Instr) :=
  if !canLowerThreeDiff size opcode then none
  else some ([localGet regsBase] ++ pushV rn ++ pushV rm ++
    [extmul q u size, v128Store (vOff rd)])

/-- `lane2` (`three_same.rs`, lines 9–15). -/
def lane2 (q : Bool) (rn rm rd : Reg) (op : Instr) : List Instr :=
  [localGet regsBase] ++ pushV rn ++ pushV rm ++ [op] ++ finishV q rd

/-- `max_min` (lines 191–208). -/
def maxMin (size : ℕ) (signed max : Bool) : Option Instr :=
  if size ≤ 2 then
    some (laneBin (shapeOf size)
      (match signed, max with
        | true, true => .maxS
        | false, true => .maxU
        | true, false => .minS
        | false, false => .minU))
  else none

/-- `simple_op` (lines 117–188). -/
def simpleOp (u : Bool) (size opcode : ℕ) : Option Instr :=
  let s := shapeOf size
  match opcode with
  | 0b00001 => if size ≤ 1 then some (laneBin s (if u then .addSatU else .addSatS)) else none
  | 0b00101 => if size ≤ 1 then some (laneBin s (if u then .subSatU else .subSatS)) else none
  | 0b10000 => some (laneBin s (if u then .sub else .add))
  | 0b10011 => if !u ∧ (size = 1 ∨ size = 2) then some (laneBin s .mul) else none
  | 0b00110 =>
    if !u then some (laneRel s .gtS) else if size ≤ 2 then some (laneRel s .gtU) else none
  | 0b00111 =>
    if !u then some (laneRel s .geS) else if size ≤ 2 then some (laneRel s .geU) else none
  | 0b01100 => maxMin size (!u) true
  | 0b01101 => maxMin size (!u) false
  | _ => none

/-- `eq` (lines 105–112; also `two_reg_misc.rs`, lines 102–109). -/
def laneEq (size : ℕ) : Instr := laneRel (shapeOf size) .eq

/-- `logical` (lines 42–93). -/
def simdLogical (q u : Bool) (size : ℕ) (rm rn rd : Reg) : List Instr :=
  [localGet regsBase] ++
    (match u, size with
      | false, 0 => pushV rn ++ pushV rm ++ [v128And]
      | false, 1 => pushV rn ++ pushV rm ++ [v128AndNot]
      | false, 2 => pushV rn ++ pushV rm ++ [v128Or]
      | false, _ => pushV rn ++ pushV rm ++ [v128Not, v128Or]
      | true, 0 => pushV rn ++ pushV rm ++ [v128Xor]
      | true, 1 => pushV rn ++ pushV rm ++ pushV rd ++ [v128Bitselect]
      | true, 2 => pushV rn ++ pushV rd ++ pushV rm ++ [v128Bitselect]
      | true, _ => pushV rd ++ pushV rn ++ pushV rm ++ [v128Bitselect]) ++
    finishV q rd

/-- `cmtst` (lines 96–102). -/
def cmtst (q : Bool) (size : ℕ) (rm rn rd : Reg) : List Instr :=
  [localGet regsBase] ++ pushV rn ++ pushV rm ++ [v128And, v128Const 0, laneEq size, v128Not] ++
    finishV q rd

/-- `can_lower` (lines 20–22). -/
def canLowerThreeSame (u : Bool) (size opcode : ℕ) : Bool :=
  opcode == 0b00011 || opcode == 0b10001 || (simpleOp u size opcode).isSome

/-- `simd_three_same` (lines 27–38). -/
def simdThreeSame (q u : Bool) (size opcode : ℕ) (rm rn rd : Reg) : Option (List Instr) :=
  match opcode with
  | 0b00011 => some (simdLogical q u size rm rn rd)
  | 0b10001 => some (if u then lane2 q rn rm rd (laneEq size) else cmtst q size rm rn rd)
  | _ => (simpleOp u size opcode).map (lane2 q rn rm rd)

/-! ## Two registers -/

/-- `unary` (`two_reg_misc.rs`, lines 13–18). -/
def simdUnary (q : Bool) (rn rd : Reg) (op : Instr) : List Instr :=
  [localGet regsBase] ++ pushV rn ++ [op] ++ finishV q rd

/-- `cmp_zero` (lines 22–27). -/
def cmpZero (q : Bool) (rn rd : Reg) (op : Instr) : List Instr :=
  [localGet regsBase] ++ pushV rn ++ [v128Const 0, op] ++ finishV q rd

/-- The pattern of `rev` (lines 70–82): `none` is the division by an empty container. -/
def revLanes (q : Bool) (size container : ℕ) : Option (List ℕ) :=
  let esize := 1 <<< size
  let per := container / esize
  if per = 0 then none
  else
    some ((List.range 16).map fun j =>
      let ei := j / esize
      let base := (ei / per) * per
      let srcElem := base + (per - 1 - (ei - base))
      if j < (if q then 16 else 8) then (srcElem * esize + j % esize) % 256 else 0)

/-- `rev` (lines 70–82). -/
def simdRev (q : Bool) (size container : ℕ) (rn rd : Reg) : Option (List Instr) :=
  (revLanes q size container).map (shuffle2 q rn rn rd)

/-- `can_lower` (lines 31–47). -/
def canLowerTwoRegMisc (u : Bool) (size opcode : ℕ) : Bool :=
  match u, opcode with
  | true, 0b00101 => size == 0
  | false, 0b00101 | true, 0b01011 | false, 0b01011 | false, 0b01000 | true, 0b01000
  | false, 0b01001 | true, 0b01001 | false, 0b01010 | false, 0b00000 | false, 0b00001
  | true, 0b00000 => true
  | _, _ => false

/-- `simd_two_reg_misc` (lines 49–66), with `neg`, `abs`, `gt_s`, `ge_s`, `le_s` and
    `lt_s` (lines 84–145) in place. -/
def simdTwoRegMisc (q u : Bool) (size opcode : ℕ) (rn rd : Reg) : Option (List Instr) :=
  let s := shapeOf size
  match u, opcode with
  | true, 0b00101 => if size = 0 then some (simdUnary q rn rd v128Not) else none
  | false, 0b00101 => some (simdUnary q rn rd (laneUn .i8x16 .popcnt))
  | true, 0b01011 => some (simdUnary q rn rd (laneUn s .neg))
  | false, 0b01011 => some (simdUnary q rn rd (laneUn s .abs))
  | false, 0b01000 => some (cmpZero q rn rd (laneRel s .gtS))
  | true, 0b01000 => some (cmpZero q rn rd (laneRel s .geS))
  | false, 0b01001 => some (cmpZero q rn rd (laneEq size))
  | true, 0b01001 => some (cmpZero q rn rd (laneRel s .leS))
  | false, 0b01010 => some (cmpZero q rn rd (laneRel s .ltS))
  | false, 0b00000 => simdRev q size 8 rn rd
  | false, 0b00001 => simdRev q size 2 rn rd
  | true, 0b00000 => simdRev q size 4 rn rd
  | _, _ => none

/-! ## The dispatch -/

/-- `is_inline_simd` (`simd/mod.rs`, lines 44–61). -/
def isInlineSimd : Insn → Bool
  | .simdDupGeneral .. | .simdDupElement .. | .simdInsGeneral .. | .simdInsElement ..
  | .simdMovToGpr .. | .simdZipTrn .. | .simdExt .. => true
  | .simdThreeSame _ u size opcode _ _ _ => canLowerThreeSame u size opcode
  | .simdTwoRegMisc _ u size opcode _ _ => canLowerTwoRegMisc u size opcode
  | .simdThreeDiff _ _ size opcode _ _ _ => canLowerThreeDiff size opcode
  | .simdModImm _ op cmode imm8 _ => canLowerModImm op cmode imm8
  | .simdShiftImm _ u _ _ opcode _ _ => canLowerShift u opcode
  | .simdTableLookup _ isTbx len _ _ _ => canLowerTbl isTbx len
  | _ => false

/-- The SIMD arms of `lower_sequential` (`lower/mod.rs`, lines 306–338). -/
def lowerSimd : Insn → Option (List Instr)
  | .simdThreeSame q u size opcode rm rn rd => simdThreeSame q u size opcode rm rn rd
  | .simdTwoRegMisc q u size opcode rn rd => simdTwoRegMisc q u size opcode rn rd
  | .simdThreeDiff q u size opcode rm rn rd => simdThreeDiff q u size opcode rm rn rd
  | .simdModImm q op cmode imm8 rd => simdModImm q op cmode imm8 rd
  | .simdDupGeneral q size rn rd => some (simdDupGeneral q size rn rd)
  | .simdDupElement q size index rn rd => some (simdDupElement q size index rn rd)
  | .simdInsGeneral size index rn rd => some (simdInsGeneral size index rn rd)
  | .simdInsElement size dst src rn rd => some (simdInsElement size dst src rn rd)
  | .simdMovToGpr signed dst64 size index vn rd =>
    some (simdMovToGpr signed dst64 size index vn rd)
  | .simdZipTrn q size opcode rm rn rd => simdZipTrn q size opcode rm rn rd
  | .simdExt q imm4 rm rn rd => some (simdExt q imm4 rm rn rd)
  | .simdTableLookup q isTbx len rm rn rd => simdTbl q isTbx len rm rn rd
  | .simdShiftImm q u immh immb opcode rn rd => simdShiftImm q u immh immb opcode rn rd
  | _ => none

/-! ## Every admitted form is lowered -/

/-- A loop whose steps all succeed. -/
theorem foldlM_isSome {α β : Type} {f : β → α → Option β} (as : List α)
    (h : ∀ a ∈ as, ∀ b, (f b a).isSome) (b : β) : (as.foldlM f b).isSome := by
  induction as generalizing b with
  | nil => rfl
  | cons a as ih =>
    obtain ⟨b', hb'⟩ := Option.isSome_iff_exists.mp (h a (List.mem_cons_self ..) b)
    rw [List.foldlM_cons, hb']
    exact ih (fun a' ha' => h a' (List.mem_cons_of_mem a ha')) b'

theorem zipTrnSource_isSome (opcode : ℕ) {half : ℕ} (hhalf : half ≠ 0) (oi : ℕ) :
    (zipTrnSource opcode half oi).isSome := by
  unfold zipTrnSource
  split
  · rfl
  · rfl
  · rw [if_neg hhalf]
    rfl
  · rw [if_neg hhalf]
    rfl
  · rfl
  · rfl

/-- No index leaves the pattern, and no half is empty. -/
theorem zipTrnLanes_isSome {esize n : ℕ} (hn : 2 ≤ n) (hbytes : n * esize ≤ 16) (opcode : ℕ) :
    (zipTrnLanes esize n opcode).isSome := by
  have hhalf : n / 2 ≠ 0 := by omega
  apply foldlM_isSome
  intro oi hoi lanes
  have hoi : oi + 1 ≤ n := List.mem_range.mp hoi
  obtain ⟨⟨fromB, si⟩, hsrc⟩ := Option.isSome_iff_exists.mp (zipTrnSource_isSome opcode hhalf oi)
  rw [hsrc, Option.bind_eq_bind, Option.bind_some]
  apply foldlM_isSome
  intro b hb lanes
  have hb : b < esize := List.mem_range.mp hb
  have hidx : oi * esize + b < 16 := by
    have hle : (oi + 1) * esize ≤ n * esize := Nat.mul_le_mul_right esize hoi
    rw [Nat.succ_mul] at hle
    omega
  rw [setLane, if_pos hidx]
  rfl

theorem simdZipTrn_isSome {q : Bool} {size : ℕ} (hsize : size ≤ if q then 3 else 2) (opcode : ℕ)
    (rm rn rd : Reg) : (simdZipTrn q size opcode rm rn rd).isSome := by
  have hcount : 2 ≤ (if q then 16 else 8) / (1 <<< size) := by
    cases q with
    | false =>
      have hsize : size ≤ 2 := hsize
      interval_cases size <;> decide
    | true =>
      have hsize : size ≤ 3 := hsize
      interval_cases size <;> decide
  have hbytes : (if q then 16 else 8) / (1 <<< size) * (1 <<< size) ≤ 16 := by
    refine Nat.le_trans (Nat.div_mul_le_self _ _) ?_
    split_ifs <;> decide
  rw [simdZipTrn, Option.isSome_map]
  exact zipTrnLanes_isSome hcount hbytes opcode

theorem simdRev_isSome (q : Bool) {size container : ℕ} (h : 1 <<< size ≤ container) (rn rd : Reg) :
    (simdRev q size container rn rd).isSome := by
  have hpos : 0 < 1 <<< size := by
    rw [Nat.one_shiftLeft]
    exact Nat.two_pow_pos size
  have hper : container / (1 <<< size) ≠ 0 := Nat.ne_of_gt (Nat.div_pos h hpos)
  rw [simdRev, Option.isSome_map, revLanes, if_neg hper]
  rfl

/-- The element size that `immh` selects is that of its highest set bit. -/
theorem shiftSize_eq : ∀ immh < 16, 0 < immh →
    ∃ size < 4, shiftSize immh = some size ∧ 1 <<< size ≤ immh ∧ immh < 2 * 1 <<< size := by
  decide

theorem simdShiftImm_isSome (q : Bool) {u : Bool} {immh immb opcode : ℕ}
    (himmh : 0 < immh ∧ immh < 16 ∧ immb < 8) (hop : canLowerShift u opcode = true)
    (rn rd : Reg) : (simdShiftImm q u immh immb opcode rn rd).isSome := by
  obtain ⟨size, -, hsize, hlow, hhigh⟩ := shiftSize_eq immh himmh.2.1 himmh.1
  have himmhb : (immh <<< 3) ||| immb = immh * 8 + immb := by
    rw [← Nat.shiftLeft_add_eq_or_of_lt himmh.2.2, Nat.shiftLeft_eq]
  have hesize : 8 <<< size = 8 * 1 <<< size := by
    rw [Nat.shiftLeft_eq, Nat.one_shiftLeft]
  unfold simdShiftImm
  rw [hsize, Option.bind_eq_bind, Option.bind_some, himmhb, hesize]
  dsimp only
  by_cases hshl : opcode = 0b01010 ∧ (!u) = true
  · rw [if_pos hshl, checkedSub, if_pos (by omega)]
    rfl
  rw [if_neg hshl]
  by_cases hshr : opcode = 0b00000
  · rw [if_pos hshr, checkedSub, if_pos (by omega), Option.bind_some]
    split_ifs <;> rfl
  · simp only [canLowerShift, Bool.or_eq_true, Bool.and_eq_true, beq_iff_eq] at hop
    exact absurd hop (not_or_intro hshr hshl)

theorem simdThreeSame_isSome (q : Bool) {u : Bool} {size opcode : ℕ}
    (h : canLowerThreeSame u size opcode = true) (rm rn rd : Reg) :
    (simdThreeSame q u size opcode rm rn rd).isSome := by
  unfold simdThreeSame
  split
  · rfl
  · rfl
  · next hlogical heq =>
    rw [Option.isSome_map]
    simp only [canLowerThreeSame, Bool.or_eq_true, beq_iff_eq] at h
    exact h.resolve_left (not_or_intro hlogical heq)

theorem simdTwoRegMisc_isSome (q : Bool) {u : Bool} {size opcode : ℕ}
    (hfields : (opcode = 0 → size ≤ if u then 1 else 2) ∧ (opcode = 1 → size = 0))
    (h : canLowerTwoRegMisc u size opcode = true) (rn rd : Reg) :
    (simdTwoRegMisc q u size opcode rn rd).isSome := by
  unfold simdTwoRegMisc
  dsimp only
  split
  · have hsize : size = 0 := beq_iff_eq.mp h
    rw [if_pos hsize]
    rfl
  · rfl
  · rfl
  · rfl
  · rfl
  · rfl
  · rfl
  · rfl
  · rfl
  · apply simdRev_isSome
    have hsize : size ≤ 2 := hfields.1 rfl
    interval_cases size <;> decide
  · apply simdRev_isSome
    have hsize : size = 0 := hfields.2 rfl
    rw [hsize]
    decide
  · apply simdRev_isSome
    have hsize : size ≤ 1 := hfields.1 rfl
    interval_cases size <;> decide
  · next hnone =>
    exfalso
    unfold canLowerTwoRegMisc at h
    split at h <;> simp_all

/-- What `is_inline_simd` admits and the decoder makes, the emitter lowers. -/
theorem lowerSimd_isSome {insn : Insn} (hfields : FieldsOk insn)
    (hinline : isInlineSimd insn = true) : (lowerSimd insn).isSome := by
  cases insn with
  | simdDupGeneral q size rn rd => rfl
  | simdDupElement q size index rn rd => rfl
  | simdInsGeneral size index rn rd => rfl
  | simdInsElement size dst src rn rd => rfl
  | simdMovToGpr signed dst64 size index vn rd => rfl
  | simdExt q imm4 rm rn rd => rfl
  | simdZipTrn q size opcode rm rn rd => exact simdZipTrn_isSome hfields opcode rm rn rd
  | simdThreeSame q u size opcode rm rn rd => exact simdThreeSame_isSome q hinline rm rn rd
  | simdTwoRegMisc q u size opcode rn rd => exact simdTwoRegMisc_isSome q hfields hinline rn rd
  | simdThreeDiff q u size opcode rm rn rd =>
    have hop : canLowerThreeDiff size opcode = true := hinline
    show (simdThreeDiff q u size opcode rm rn rd).isSome
    rw [simdThreeDiff, hop]
    rfl
  | simdModImm q op cmode imm8 rd =>
    have hexpand : (expandImm op cmode imm8).isSome := hinline
    show (simdModImm q op cmode imm8 rd).isSome
    rw [simdModImm, Option.isSome_map]
    exact hexpand
  | simdShiftImm q u immh immb opcode rn rd => exact simdShiftImm_isSome q hfields hinline rn rd
  | simdTableLookup q isTbx len rm rn rd =>
    have htbl : canLowerTbl isTbx len = true := hinline
    show (simdTbl q isTbx len rm rn rd).isSome
    rw [simdTbl, htbl]
    rfl
  | _ => exact Bool.noConfusion hinline

end V64.Jit
