import Mathlib.Algebra.Order.Ring.Nat
import Mathlib.Tactic.Common

/-!
# WebAssembly: 128-bit vectors

The integer operators on `v128`. A shape splits a vector into lanes of 8 to 64
bits, lane 0 lowest, and most operators act on each lane. Not every operator
exists at every shape; the evaluators do not tell the difference.
-/

namespace Wasm

/-- How a vector is split into lanes. -/
inductive Shape where
  | i8x16
  | i16x8
  | i32x4
  | i64x2
  deriving DecidableEq

namespace Shape

/-- The width of a lane. -/
def bits : Shape → ℕ
  | i8x16 => 8
  | i16x8 => 16
  | i32x4 => 32
  | i64x2 => 64

/-- The number of lanes. -/
def count (s : Shape) : ℕ := 128 / s.bits

end Shape

/-! ## Lanes -/

/-- Lane `i` of width `w`. -/
def lane (w : ℕ) (v : BitVec 128) (i : ℕ) : BitVec w := v.extractLsb' (w * i) w

/-- The vector with lanes `f 0`, …, `f (n - 1)`. -/
def ofLanes {w : ℕ} (f : ℕ → BitVec w) : ℕ → BitVec 128
  | 0 => 0
  | n + 1 => ofLanes f n ||| (f n).setWidth 128 <<< (w * n)

/-- Acts on every lane. -/
def mapLanes (s : Shape) (f : BitVec s.bits → BitVec s.bits) (a : BitVec 128) : BitVec 128 :=
  ofLanes (fun i => f (lane s.bits a i)) s.count

/-- Acts on every pair of lanes. -/
def zipLanes (s : Shape) (f : BitVec s.bits → BitVec s.bits → BitVec s.bits) (a b : BitVec 128) :
    BitVec 128 :=
  ofLanes (fun i => f (lane s.bits a i) (lane s.bits b i)) s.count

/-! ## Operators on a lane -/

/-- Unary operators. -/
inductive LaneUnOp where
  | neg
  | abs
  | popcnt
  deriving DecidableEq

/-- Binary operators. -/
inductive LaneBinOp where
  | add
  | sub
  | mul
  | addSatS
  | addSatU
  | subSatS
  | subSatU
  | minS
  | minU
  | maxS
  | maxU
  deriving DecidableEq

/-- Comparisons. -/
inductive LaneRelOp where
  | eq
  | gtS
  | gtU
  | geS
  | geU
  | ltS
  | leS
  deriving DecidableEq

/-- Shifts. -/
inductive LaneShiftOp where
  | shl
  | shrS
  | shrU
  deriving DecidableEq

/-- Operators on the whole vector. -/
inductive BitOp where
  | and
  | andNot
  | or
  | xor
  deriving DecidableEq

section Eval

variable {w : ℕ}

def LaneUnOp.eval (op : LaneUnOp) (a : BitVec w) : BitVec w :=
  match op with
  | neg => -a
  | abs => if a.msb then -a else a
  | popcnt => BitVec.ofNat w ((List.range w).countP a.getLsbD)

/-- The bound that a signed result past `a`'s end saturates to. -/
def saturateS (a : BitVec w) : BitVec w := if a.msb then BitVec.intMin w else BitVec.intMax w

def LaneBinOp.eval (op : LaneBinOp) (a b : BitVec w) : BitVec w :=
  match op with
  | add => a + b
  | sub => a - b
  | mul => a * b
  | addSatS => if a.saddOverflow b then saturateS a else a + b
  | addSatU => if a.uaddOverflow b then BitVec.allOnes w else a + b
  | subSatS => if a.ssubOverflow b then saturateS a else a - b
  | subSatU => if a < b then 0 else a - b
  | minS => if a.slt b then a else b
  | minU => if a < b then a else b
  | maxS => if a.slt b then b else a
  | maxU => if a < b then b else a

/-- Whether the comparison holds. -/
def LaneRelOp.holds (op : LaneRelOp) (a b : BitVec w) : Bool :=
  match op with
  | eq => a == b
  | gtS => b.slt a
  | gtU => b < a
  | geS => b.sle a
  | geU => b ≤ a
  | ltS => a.slt b
  | leS => a.sle b

/-- A comparison leaves a mask. -/
def LaneRelOp.eval (op : LaneRelOp) (a b : BitVec w) : BitVec w :=
  if op.holds a b then BitVec.allOnes w else 0

/-- The shift amount is taken modulo the width. -/
def LaneShiftOp.eval (op : LaneShiftOp) (a : BitVec w) (amount : ℕ) : BitVec w :=
  match op with
  | shl => a <<< (amount % w)
  | shrS => a.sshiftRight (amount % w)
  | shrU => a >>> (amount % w)

end Eval

def BitOp.eval (op : BitOp) (a b : BitVec 128) : BitVec 128 :=
  match op with
  | and => a &&& b
  | andNot => a &&& ~~~b
  | or => a ||| b
  | xor => a ^^^ b

/-! ## Across lanes -/

/-- Every lane is the low bits of `v`. -/
def splatLanes (s : Shape) (v : BitVec 64) : BitVec 128 :=
  ofLanes (fun _ => v.setWidth s.bits) s.count

/-- Bit `i` is that of `a` where `c` has a one, and that of `b` elsewhere. -/
def bitselect (a b c : BitVec 128) : BitVec 128 := (a &&& c) ||| (b &&& ~~~c)

/-- Byte `i` is byte `lanes[i]` of `a`, then `b`. -/
def shuffle (lanes : List ℕ) (a b : BitVec 128) : BitVec 128 :=
  ofLanes (fun i =>
    let k := lanes.getD i 0
    if k < 16 then lane 8 a k else lane 8 b (k - 16)) 16

/-- Byte `i` is the byte of `a` that byte `i` of `b` names, and 0 past the end. -/
def swizzle (a b : BitVec 128) : BitVec 128 :=
  ofLanes (fun i =>
    let k := (lane 8 b i).toNat
    if k < 16 then lane 8 a k else 0) 16

/-- The products of the lanes in one half of `a` and `b`, at twice the width. -/
def extMulLanes (s : Shape) (high signed : Bool) (a b : BitVec 128) : BitVec 128 :=
  let base := if high then s.count / 2 else 0
  let widen (v : BitVec s.bits) : BitVec (2 * s.bits) :=
    if signed then v.signExtend (2 * s.bits) else v.setWidth (2 * s.bits)
  ofLanes (fun i => widen (lane s.bits a (base + i)) * widen (lane s.bits b (base + i)))
    (s.count / 2)

example : zipLanes .i8x16 (LaneBinOp.eval .addSatU) 0xff01#128 0x02ff#128 = 0xffff#128 := by
  decide
example : shuffle [3, 2, 1, 0, 16, 16, 16, 16] 0x04030201#128 0xaa#128 =
    0x0101010101010101_aaaaaaaa01020304#128 := by decide

end Wasm
