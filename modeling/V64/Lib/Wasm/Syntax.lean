import Mathlib.Algebra.Order.Ring.Nat
import Mathlib.Logic.Function.Basic
import Mathlib.Tactic.Common
import V64.Lib.Wasm.Lanes

/-!
# WebAssembly: values and instructions

The part of core WebAssembly that integer code with structured control needs,
as an abstract syntax tree: the body of a block, loop or `if` is a list of
instructions. Binary and relational operators are enumerations with one
evaluator for both integer widths.

* `BinOp.eval`: the integer operators; `none` is a trap.
* `RelOp.eval`: the comparisons.

Floating-point instructions are syntax only.
-/

namespace Wasm

/-- A value on the operand stack or in a local. -/
inductive Val where
  | i32 (v : BitVec 32)
  | i64 (v : BitVec 64)
  | v128 (v : BitVec 128)
  deriving DecidableEq

/-- Binary integer operators. -/
inductive BinOp where
  | add
  | sub
  | mul
  | divS
  | divU
  | and
  | or
  | xor
  | shl
  | shrS
  | shrU
  | rotr
  deriving DecidableEq

/-- Integer comparisons. -/
inductive RelOp where
  | eq
  | ltU
  | leU
  | gtU
  | geU
  | leS
  | geS
  deriving DecidableEq

namespace BinOp

/-- The operator on two operands; shift amounts are taken modulo the width, and
division traps on a zero divisor and on the one signed overflow. -/
def eval {w : ℕ} (op : BinOp) (a b : BitVec w) : Option (BitVec w) :=
  match op with
  | add => some (a + b)
  | sub => some (a - b)
  | mul => some (a * b)
  | divS => if b = 0 ∨ (a = BitVec.intMin w ∧ b = BitVec.allOnes w) then none else some (a.sdiv b)
  | divU => if b = 0 then none else some (a / b)
  | and => some (a &&& b)
  | or => some (a ||| b)
  | xor => some (a ^^^ b)
  | shl => some (a <<< (b.toNat % w))
  | shrS => some (a.sshiftRight (b.toNat % w))
  | shrU => some (a >>> (b.toNat % w))
  | rotr => some (a.rotateRight (b.toNat % w))

end BinOp

/-- The comparison of two operands. -/
def RelOp.eval {w : ℕ} (op : RelOp) (a b : BitVec w) : Bool :=
  match op with
  | eq => a == b
  | ltU => a < b
  | leU => a ≤ b
  | gtU => b < a
  | geU => b ≤ a
  | leS => a.sle b
  | geS => b.sle a

/-- Vector instructions on the operand stack. Lane operators are at a shape; that of
`extMul` is the shape of its operands. -/
inductive SimdOp where
  | const (c : BitVec 128)
  | not
  | bin (op : BitOp)
  | bitselect
  | shuffle (lanes : List ℕ)
  | swizzle
  | splat (s : Shape)
  | laneUn (s : Shape) (op : LaneUnOp)
  | laneBin (s : Shape) (op : LaneBinOp)
  | laneRel (s : Shape) (op : LaneRelOp)
  | laneShift (s : Shape) (op : LaneShiftOp)
  | extMul (s : Shape) (high signed : Bool)
  deriving DecidableEq

/-- The two floating-point types. -/
inductive FloatTy where
  | f32
  | f64
  deriving DecidableEq

/-- The two integer types that conversions start from and end in. -/
inductive IntTy where
  | i32
  | i64
  deriving DecidableEq

/-- Floating-point instructions, named by the type of their operand. -/
inductive FloatOp where
  | load (ty : FloatTy) (offset : ℕ)
  | neg (ty : FloatTy)
  | sqrt (ty : FloatTy)
  | ceil (ty : FloatTy)
  | floor (ty : FloatTy)
  | trunc (ty : FloatTy)
  | nearest (ty : FloatTy)
  | add (ty : FloatTy)
  | sub (ty : FloatTy)
  | mul (ty : FloatTy)
  | div (ty : FloatTy)
  | min (ty : FloatTy)
  | max (ty : FloatTy)
  | eq (ty : FloatTy)
  | lt (ty : FloatTy)
  | gt (ty : FloatTy)
  | demote
  | promote
  | toBits (ty : FloatTy)
  | ofBits (ty : FloatTy)
  | convert (ty : FloatTy) (source : IntTy) (signed : Bool)
  | truncSat (ty : FloatTy) (target : IntTy) (signed : Bool)
  deriving DecidableEq

/-- Instructions. A load reads `bytes` bytes and extends them to 64 bits, with
the sign if `signed`; a store writes the low `bytes` bytes. `offset` is the
constant of the memory argument, and the number on a block, loop or `if` is how
many results it leaves. -/
inductive Instr where
  | unreachable
  | drop
  | select
  | i32Const (c : BitVec 32)
  | i64Const (c : BitVec 64)
  | i32Bin (op : BinOp)
  | i64Bin (op : BinOp)
  | i32Rel (op : RelOp)
  | i64Rel (op : RelOp)
  | i32Eqz
  | i64Eqz
  | i32Clz
  | i64Clz
  | i32WrapI64
  | i64ExtendI32S
  | i64ExtendI32U
  | localGet (n : ℕ)
  | localSet (n : ℕ)
  | i32LoadN (bytes : ℕ) (offset : ℕ)
  | i64LoadN (bytes : ℕ) (signed : Bool) (offset : ℕ)
  | i32StoreN (bytes : ℕ) (offset : ℕ)
  | i64StoreN (bytes : ℕ) (offset : ℕ)
  | v128Load (offset : ℕ)
  | v128Store (offset : ℕ)
  | simd (op : SimdOp)
  | float (op : FloatOp)
  | block (arity : ℕ) (body : List Instr)
  | loop (body : List Instr)
  | ifElse (arity : ℕ) (then_ else_ : List Instr)
  | br (depth : ℕ)
  | brTable (depths : List ℕ) (default : ℕ)
  | «return»

namespace Instr

abbrev i32Add : Instr := i32Bin .add
abbrev i32Sub : Instr := i32Bin .sub
abbrev i32Mul : Instr := i32Bin .mul
abbrev i32And : Instr := i32Bin .and
abbrev i32Or : Instr := i32Bin .or
abbrev i32Xor : Instr := i32Bin .xor
abbrev i32Shl : Instr := i32Bin .shl
abbrev i32ShrS : Instr := i32Bin .shrS
abbrev i32ShrU : Instr := i32Bin .shrU
abbrev i32Rotr : Instr := i32Bin .rotr
abbrev i32Eq : Instr := i32Rel .eq
abbrev i32GeU : Instr := i32Rel .geU
abbrev i64Add : Instr := i64Bin .add
abbrev i64Sub : Instr := i64Bin .sub
abbrev i64Mul : Instr := i64Bin .mul
abbrev i64DivS : Instr := i64Bin .divS
abbrev i64DivU : Instr := i64Bin .divU
abbrev i64And : Instr := i64Bin .and
abbrev i64Or : Instr := i64Bin .or
abbrev i64Xor : Instr := i64Bin .xor
abbrev i64Shl : Instr := i64Bin .shl
abbrev i64ShrS : Instr := i64Bin .shrS
abbrev i64ShrU : Instr := i64Bin .shrU
abbrev i64Rotr : Instr := i64Bin .rotr
abbrev i64Eq : Instr := i64Rel .eq
abbrev i64LtU : Instr := i64Rel .ltU
abbrev i64LeU : Instr := i64Rel .leU
abbrev i64GeU : Instr := i64Rel .geU
abbrev i64LeS : Instr := i64Rel .leS
abbrev i64GeS : Instr := i64Rel .geS
abbrev i32GtU : Instr := i32Rel .gtU
abbrev i64GtU : Instr := i64Rel .gtU
abbrev v128Const (c : BitVec 128) : Instr := simd (.const c)
abbrev v128Not : Instr := simd .not
abbrev v128And : Instr := simd (.bin .and)
abbrev v128AndNot : Instr := simd (.bin .andNot)
abbrev v128Or : Instr := simd (.bin .or)
abbrev v128Xor : Instr := simd (.bin .xor)
abbrev v128Bitselect : Instr := simd .bitselect
abbrev i8x16Shuffle (lanes : List ℕ) : Instr := simd (.shuffle lanes)
abbrev i8x16Swizzle : Instr := simd .swizzle
abbrev laneUn (s : Shape) (op : LaneUnOp) : Instr := simd (.laneUn s op)
abbrev laneBin (s : Shape) (op : LaneBinOp) : Instr := simd (.laneBin s op)
abbrev laneRel (s : Shape) (op : LaneRelOp) : Instr := simd (.laneRel s op)
abbrev laneShift (s : Shape) (op : LaneShiftOp) : Instr := simd (.laneShift s op)
abbrev i32Load (offset : ℕ) : Instr := i32LoadN 4 offset
abbrev i32Load8U (offset : ℕ) : Instr := i32LoadN 1 offset
abbrev i64Load (offset : ℕ) : Instr := i64LoadN 8 false offset
abbrev i32Store (offset : ℕ) : Instr := i32StoreN 4 offset
abbrev i32Store8 (offset : ℕ) : Instr := i32StoreN 1 offset
abbrev i64Store (offset : ℕ) : Instr := i64StoreN 8 offset

end Instr

end Wasm
