import V64.Lib.Wasm.Syntax

/-!
# WebAssembly: execution

`exec fuel code` runs a list of instructions. It recurses on the code; only a
`loop` can run on, and it may start its body `fuel` times. The memory is any
type with bounded loads and stores, so a development can choose its own view of
linear memory.

* `exec_cons`, `exec_append`: code composes.
* `Outcome.Ends`: the end of code that neither traps nor branches out, with what
  holds after a normal end and at a return; `Ends.bind` and `Ends.exitBlock`
  follow the structure of the code.
-/

namespace Wasm

/-- Linear memory. `load m addr n` is the little-endian value of `n ≤ 8` bytes, and
`store` writes the low `n` bytes; `none` is out of bounds. -/
class LinearMemory (M : Type) where
  load : M → (addr bytes : ℕ) → Option (BitVec 64)
  store : M → (addr bytes : ℕ) → BitVec 64 → Option M

/-- The operand stack of the current block, the locals and the memory. -/
structure State (M : Type) where
  stack : List Val
  locals : ℕ → Val
  mem : M

/-- How a piece of code ends: past its last instruction, with a branch `n` labels
out, with a return, with a trap, or without fuel for a loop. -/
inductive Outcome (M : Type) where
  | next (s : State M)
  | br (n : ℕ) (s : State M)
  | ret (s : State M)
  | trap
  | outOfFuel

namespace Outcome

variable {M : Type}

/-- Goes on with `f` after a normal end. -/
def bind (o : Outcome M) (f : State M → Outcome M) : Outcome M :=
  match o with
  | next s => f s
  | o => o

/-- Leaves a block with `arity` results, over the operands below it. -/
def exitBlock (o : Outcome M) (arity : ℕ) (outer : List Val) : Outcome M :=
  match o with
  | next s => next { s with stack := s.stack.take arity ++ outer }
  | br 0 s => next { s with stack := s.stack.take arity ++ outer }
  | br (n + 1) s => br n s
  | o => o

/-- The code ends past its last instruction with `Q`, or returns with `R`. -/
def Ends (o : Outcome M) (Q R : State M → Prop) : Prop :=
  match o with
  | next s => Q s
  | ret s => R s
  | _ => False

/-- Runs the body of a loop until it does something else than branch back to the
loop, at most `fuel` times. -/
def iterate (body : State M → Outcome M) : ℕ → State M → Outcome M
  | 0, _ => outOfFuel
  | fuel + 1, s =>
    match body s with
    | br 0 s' => iterate body fuel { s' with stack := [] }
    | o => o

-- not by `rfl`, so that a proof which rewrites with them is checked step by step

@[simp] theorem bind_next (s : State M) (f : State M → Outcome M) : (next s).bind f = f s := by
  simp only [bind]

@[simp] theorem bind_ret (s : State M) (f : State M → Outcome M) : (ret s).bind f = ret s := by
  simp only [bind]

@[simp] theorem bind_br (n : ℕ) (s : State M) (f : State M → Outcome M) :
    (br n s).bind f = br n s := by
  simp only [bind]

@[simp] theorem exitBlock_next (s : State M) (arity : ℕ) (outer : List Val) :
    (next s).exitBlock arity outer = next { s with stack := s.stack.take arity ++ outer } := by
  simp only [exitBlock]

@[simp] theorem exitBlock_ret (s : State M) (arity : ℕ) (outer : List Val) :
    (ret s).exitBlock arity outer = ret s := by
  simp only [exitBlock]

@[simp] theorem exitBlock_br_zero (s : State M) (arity : ℕ) (outer : List Val) :
    (br 0 s).exitBlock arity outer = next { s with stack := s.stack.take arity ++ outer } := by
  simp only [exitBlock]

@[simp] theorem exitBlock_br_succ (n : ℕ) (s : State M) (arity : ℕ) (outer : List Val) :
    (br (n + 1) s).exitBlock arity outer = br n s := by
  simp only [exitBlock]

section Ends

variable {o : Outcome M} {f : State M → Outcome M} {Q Q' R R' : State M → Prop}

@[simp] theorem ends_next (s : State M) : (next s).Ends Q R ↔ Q s := Iff.rfl

@[simp] theorem ends_ret (s : State M) : (ret s).Ends Q R ↔ R s := Iff.rfl

theorem Ends.mono (h : o.Ends Q R) (hQ : ∀ s, Q s → Q' s) (hR : ∀ s, R s → R' s) :
    o.Ends Q' R' := by
  cases o with
  | next s => exact hQ s h
  | ret s => exact hR s h
  | _ => exact h

/-- Code in sequence: a return skips the rest. -/
theorem Ends.bind (h : o.Ends Q R) (hf : ∀ s, Q s → (f s).Ends Q' R) : (o.bind f).Ends Q' R := by
  cases o with
  | next s => exact hf s h
  | ret s => exact h
  | _ => exact h.elim

/-- The end of a block is the end of its body over the outer operands. -/
theorem Ends.exitBlock {arity : ℕ} {outer : List Val}
    (h : o.Ends (fun s => Q { s with stack := s.stack.take arity ++ outer }) R) :
    (o.exitBlock arity outer).Ends Q R := by
  cases o with
  | next s => exact h
  | ret s => exact h
  | _ => exact h.elim

end Ends

end Outcome

section Straight

variable {M : Type}

/-- Pushes a result, or traps. -/
def pushOr (s : State M) (stack : List Val) (v : Option Val) : Outcome M :=
  match v with
  | some v => .next { s with stack := v :: stack }
  | none => .trap

/-- Continues in a new memory, or traps. -/
def storeOr (s : State M) (stack : List Val) (mem : Option M) : Outcome M :=
  match mem with
  | some mem => .next { s with stack := stack, mem := mem }
  | none => .trap

/-- `i32` from a comparison. -/
def ofBool (b : Bool) : Val := .i32 (if b then 1 else 0)

/-- Sign-extends the low `8 * bytes` bits, if `signed`. -/
def extendLoad (bytes : ℕ) (signed : Bool) (v : BitVec 64) : BitVec 64 :=
  if signed then (v.setWidth (8 * bytes)).signExtend 64 else v

/-- A vector instruction on the operands. -/
def SimdOp.run : SimdOp → List Val → Option (List Val)
  | .const c, st => some (.v128 c :: st)
  | .not, .v128 a :: st => some (.v128 (~~~a) :: st)
  | .bin op, .v128 b :: .v128 a :: st => some (.v128 (op.eval a b) :: st)
  | .bitselect, .v128 c :: .v128 b :: .v128 a :: st => some (.v128 (Wasm.bitselect a b c) :: st)
  | .shuffle lanes, .v128 b :: .v128 a :: st => some (.v128 (Wasm.shuffle lanes a b) :: st)
  | .swizzle, .v128 b :: .v128 a :: st => some (.v128 (Wasm.swizzle a b) :: st)
  | .splat .i64x2, .i64 v :: st => some (.v128 (splatLanes .i64x2 v) :: st)
  | .splat s, .i32 v :: st => some (.v128 (splatLanes s (v.setWidth 64)) :: st)
  | .laneUn s op, .v128 a :: st => some (.v128 (mapLanes s op.eval a) :: st)
  | .laneBin s op, .v128 b :: .v128 a :: st => some (.v128 (zipLanes s op.eval a b) :: st)
  | .laneRel s op, .v128 b :: .v128 a :: st => some (.v128 (zipLanes s op.eval a b) :: st)
  | .laneShift s op, .i32 n :: .v128 a :: st =>
    some (.v128 (mapLanes s (op.eval · n.toNat) a) :: st)
  | .extMul s high signed, .v128 b :: .v128 a :: st =>
    some (.v128 (extMulLanes s high signed a b) :: st)
  | _, _ => none

variable [LinearMemory M]

/-- A 128-bit load is two 64-bit ones. -/
def load128 (m : M) (addr : ℕ) : Option Val := do
  let lo ← LinearMemory.load m addr 8
  let hi ← LinearMemory.load m (addr + 8) 8
  return .v128 (hi ++ lo)

/-- A 128-bit store is two 64-bit ones. -/
def store128 (m : M) (addr : ℕ) (v : BitVec 128) : Option M := do
  let m ← LinearMemory.store m addr 8 (v.setWidth 64)
  LinearMemory.store m (addr + 8) 8 ((v >>> 64).setWidth 64)

mutual

/-- One instruction. Code that is not well typed traps, and so do floating-point
instructions, which have no meaning here. -/
def execInstr (fuel : ℕ) : Instr → State M → Outcome M
  | .unreachable, _ => .trap
  | .drop, ⟨_ :: st, l, m⟩ => .next ⟨st, l, m⟩
  | .select, ⟨.i32 c :: b :: a :: st, l, m⟩ => .next ⟨(if c ≠ 0 then a else b) :: st, l, m⟩
  | .i32Const c, ⟨st, l, m⟩ => .next ⟨.i32 c :: st, l, m⟩
  | .i64Const c, ⟨st, l, m⟩ => .next ⟨.i64 c :: st, l, m⟩
  | .i32Bin op, ⟨.i32 b :: .i32 a :: st, l, m⟩ => pushOr ⟨st, l, m⟩ st ((op.eval a b).map .i32)
  | .i64Bin op, ⟨.i64 b :: .i64 a :: st, l, m⟩ => pushOr ⟨st, l, m⟩ st ((op.eval a b).map .i64)
  | .i32Rel op, ⟨.i32 b :: .i32 a :: st, l, m⟩ => .next ⟨ofBool (op.eval a b) :: st, l, m⟩
  | .i64Rel op, ⟨.i64 b :: .i64 a :: st, l, m⟩ => .next ⟨ofBool (op.eval a b) :: st, l, m⟩
  | .i32Eqz, ⟨.i32 a :: st, l, m⟩ => .next ⟨ofBool (a == 0) :: st, l, m⟩
  | .i64Eqz, ⟨.i64 a :: st, l, m⟩ => .next ⟨ofBool (a == 0) :: st, l, m⟩
  | .i32Clz, ⟨.i32 a :: st, l, m⟩ => .next ⟨.i32 a.clz :: st, l, m⟩
  | .i64Clz, ⟨.i64 a :: st, l, m⟩ => .next ⟨.i64 a.clz :: st, l, m⟩
  | .i32WrapI64, ⟨.i64 a :: st, l, m⟩ => .next ⟨.i32 (a.setWidth 32) :: st, l, m⟩
  | .i64ExtendI32S, ⟨.i32 a :: st, l, m⟩ => .next ⟨.i64 (a.signExtend 64) :: st, l, m⟩
  | .i64ExtendI32U, ⟨.i32 a :: st, l, m⟩ => .next ⟨.i64 (a.setWidth 64) :: st, l, m⟩
  | .localGet n, ⟨st, l, m⟩ => .next ⟨l n :: st, l, m⟩
  | .localSet n, ⟨v :: st, l, m⟩ => .next ⟨st, Function.update l n v, m⟩
  | .i32LoadN bytes offset, ⟨.i32 a :: st, l, m⟩ =>
    pushOr ⟨st, l, m⟩ st
      ((LinearMemory.load m (a.toNat + offset) bytes).map fun v => .i32 (v.setWidth 32))
  | .i64LoadN bytes signed offset, ⟨.i32 a :: st, l, m⟩ =>
    pushOr ⟨st, l, m⟩ st
      ((LinearMemory.load m (a.toNat + offset) bytes).map fun v => .i64 (extendLoad bytes signed v))
  | .i32StoreN bytes offset, ⟨.i32 v :: .i32 a :: st, l, m⟩ =>
    storeOr ⟨st, l, m⟩ st (LinearMemory.store m (a.toNat + offset) bytes (v.setWidth 64))
  | .i64StoreN bytes offset, ⟨.i64 v :: .i32 a :: st, l, m⟩ =>
    storeOr ⟨st, l, m⟩ st (LinearMemory.store m (a.toNat + offset) bytes v)
  | .v128Load offset, ⟨.i32 a :: st, l, m⟩ => pushOr ⟨st, l, m⟩ st (load128 m (a.toNat + offset))
  | .v128Store offset, ⟨.v128 v :: .i32 a :: st, l, m⟩ =>
    storeOr ⟨st, l, m⟩ st (store128 m (a.toNat + offset) v)
  | .simd op, ⟨st, l, m⟩ =>
    match op.run st with
    | some st => .next ⟨st, l, m⟩
    | none => .trap
  | .block arity body, ⟨st, l, m⟩ => (exec fuel body ⟨[], l, m⟩).exitBlock arity st
  | .loop body, ⟨st, l, m⟩ => (Outcome.iterate (exec fuel body) fuel ⟨[], l, m⟩).exitBlock 0 st
  | .ifElse arity t e, ⟨.i32 c :: st, l, m⟩ =>
    if c ≠ 0 then (exec fuel t ⟨[], l, m⟩).exitBlock arity st
    else (exec fuel e ⟨[], l, m⟩).exitBlock arity st
  | .br n, s => .br n s
  | .brTable ns d, ⟨.i32 i :: st, l, m⟩ => .br (ns.getD i.toNat d) ⟨st, l, m⟩
  | .return, s => .ret s
  | _, _ => .trap

/-- A list of instructions. -/
def exec (fuel : ℕ) : List Instr → State M → Outcome M
  | [], s => .next s
  | i :: is, s => (execInstr fuel i s).bind (exec fuel is)

end

variable {fuel : ℕ} {st : List Val} {l : ℕ → Val} {m : M} {is : List Instr}

theorem exec_cons (i : Instr) (s : State M) :
    exec fuel (i :: is) s = (execInstr fuel i s).bind (exec fuel is) := rfl

@[simp] theorem exec_nil (s : State M) : exec fuel [] s = .next s := by
  rw [exec]

theorem exec_append (code code' : List Instr) (s : State M) :
    exec fuel (code ++ code') s = (exec fuel code s).bind (exec fuel code') := by
  induction code generalizing s with
  | nil => rfl
  | cons i is ih =>
    rw [List.cons_append, exec_cons, exec_cons]
    cases execInstr fuel i s with
    | next s' => exact ih s'
    | _ => rfl

/-! ## Running straight-line code -/

/-- One instruction at a time: rewriting with this lemma, not by unfolding,
keeps the proofs linear in the code. -/
theorem exec_next {i : Instr} {s s' : State M} (h : execInstr fuel i s = .next s') :
    exec fuel (i :: is) s = exec fuel is s' := by
  rw [exec_cons, h]
  rfl

@[simp] theorem exec_drop (v : Val) :
    exec fuel (.drop :: is) ⟨v :: st, l, m⟩ = exec fuel is ⟨st, l, m⟩ := exec_next rfl

@[simp] theorem exec_i32Const (c : BitVec 32) :
    exec fuel (.i32Const c :: is) ⟨st, l, m⟩ = exec fuel is ⟨.i32 c :: st, l, m⟩ := exec_next rfl

@[simp] theorem exec_i64Const (c : BitVec 64) :
    exec fuel (.i64Const c :: is) ⟨st, l, m⟩ = exec fuel is ⟨.i64 c :: st, l, m⟩ := exec_next rfl

@[simp] theorem exec_localGet (n : ℕ) :
    exec fuel (.localGet n :: is) ⟨st, l, m⟩ = exec fuel is ⟨l n :: st, l, m⟩ := exec_next rfl

@[simp] theorem exec_localSet (n : ℕ) (v : Val) :
    exec fuel (.localSet n :: is) ⟨v :: st, l, m⟩ =
      exec fuel is ⟨st, Function.update l n v, m⟩ := exec_next rfl

@[simp] theorem exec_i32Rel (op : RelOp) (a b : BitVec 32) :
    exec fuel (.i32Rel op :: is) ⟨.i32 b :: .i32 a :: st, l, m⟩ =
      exec fuel is ⟨ofBool (op.eval a b) :: st, l, m⟩ := exec_next rfl

@[simp] theorem exec_i64Rel (op : RelOp) (a b : BitVec 64) :
    exec fuel (.i64Rel op :: is) ⟨.i64 b :: .i64 a :: st, l, m⟩ =
      exec fuel is ⟨ofBool (op.eval a b) :: st, l, m⟩ := exec_next rfl

@[simp] theorem exec_i32Eqz (a : BitVec 32) :
    exec fuel (.i32Eqz :: is) ⟨.i32 a :: st, l, m⟩ =
      exec fuel is ⟨ofBool (a == 0) :: st, l, m⟩ := exec_next rfl

@[simp] theorem exec_i64Eqz (a : BitVec 64) :
    exec fuel (.i64Eqz :: is) ⟨.i64 a :: st, l, m⟩ =
      exec fuel is ⟨ofBool (a == 0) :: st, l, m⟩ := exec_next rfl

@[simp] theorem exec_i32Clz (a : BitVec 32) :
    exec fuel (.i32Clz :: is) ⟨.i32 a :: st, l, m⟩ =
      exec fuel is ⟨.i32 a.clz :: st, l, m⟩ := exec_next rfl

@[simp] theorem exec_i64Clz (a : BitVec 64) :
    exec fuel (.i64Clz :: is) ⟨.i64 a :: st, l, m⟩ =
      exec fuel is ⟨.i64 a.clz :: st, l, m⟩ := exec_next rfl

@[simp] theorem exec_i32WrapI64 (a : BitVec 64) :
    exec fuel (.i32WrapI64 :: is) ⟨.i64 a :: st, l, m⟩ =
      exec fuel is ⟨.i32 (a.setWidth 32) :: st, l, m⟩ := exec_next rfl

@[simp] theorem exec_i64ExtendI32S (a : BitVec 32) :
    exec fuel (.i64ExtendI32S :: is) ⟨.i32 a :: st, l, m⟩ =
      exec fuel is ⟨.i64 (a.signExtend 64) :: st, l, m⟩ := exec_next rfl

@[simp] theorem exec_i64ExtendI32U (a : BitVec 32) :
    exec fuel (.i64ExtendI32U :: is) ⟨.i32 a :: st, l, m⟩ =
      exec fuel is ⟨.i64 (a.setWidth 64) :: st, l, m⟩ := exec_next rfl

/-- A binary operator whose operands do not trap. -/
theorem exec_i64Bin {op : BinOp} {a b v : BitVec 64} (h : op.eval a b = some v) :
    exec fuel (.i64Bin op :: is) ⟨.i64 b :: .i64 a :: st, l, m⟩ =
      exec fuel is ⟨.i64 v :: st, l, m⟩ := by
  apply exec_next
  change pushOr ⟨st, l, m⟩ st ((op.eval a b).map .i64) = _
  rw [h]
  rfl

theorem exec_i64DivU (a : BitVec 64) {b : BitVec 64} (hb : b ≠ 0) :
    exec fuel (.i64DivU :: is) ⟨.i64 b :: .i64 a :: st, l, m⟩ =
      exec fuel is ⟨.i64 (a / b) :: st, l, m⟩ :=
  exec_i64Bin (if_neg hb)

theorem exec_i64DivS {a b : BitVec 64} (hb : b ≠ 0)
    (hab : ¬ (a = BitVec.intMin 64 ∧ b = BitVec.allOnes 64)) :
    exec fuel (.i64DivS :: is) ⟨.i64 b :: .i64 a :: st, l, m⟩ =
      exec fuel is ⟨.i64 (a.sdiv b) :: st, l, m⟩ :=
  exec_i64Bin (if_neg (not_or_intro hb hab))

/-! Comparison results combine as Booleans. -/

@[simp] theorem exec_i32Eqz_ofBool (b : Bool) :
    exec fuel (.i32Eqz :: is) ⟨ofBool b :: st, l, m⟩ = exec fuel is ⟨ofBool (!b) :: st, l, m⟩ := by
  cases b <;> exact exec_next rfl

@[simp] theorem exec_i32And_ofBool (a b : Bool) :
    exec fuel (.i32Bin .and :: is) ⟨ofBool b :: ofBool a :: st, l, m⟩ =
      exec fuel is ⟨ofBool (a && b) :: st, l, m⟩ := by
  cases a <;> cases b <;> exact exec_next rfl

@[simp] theorem exec_i32Or_ofBool (a b : Bool) :
    exec fuel (.i32Bin .or :: is) ⟨ofBool b :: ofBool a :: st, l, m⟩ =
      exec fuel is ⟨ofBool (a || b) :: st, l, m⟩ := by
  cases a <;> cases b <;> exact exec_next rfl

@[simp] theorem exec_i32Eq_ofBool (a b : Bool) :
    exec fuel (.i32Rel .eq :: is) ⟨ofBool b :: ofBool a :: st, l, m⟩ =
      exec fuel is ⟨ofBool (a == b) :: st, l, m⟩ := by
  cases a <;> cases b <;> exact exec_next rfl

@[simp] theorem exec_select_ofBool (a b : Val) (c : Bool) :
    exec fuel (.select :: is) ⟨ofBool c :: b :: a :: st, l, m⟩ =
      exec fuel is ⟨(if c then a else b) :: st, l, m⟩ := by
  cases c <;> exact exec_next rfl

theorem exec_i64ExtendI32U_ofBool (b : Bool) :
    exec fuel (.i64ExtendI32U :: is) ⟨ofBool b :: st, l, m⟩ =
      exec fuel is ⟨.i64 (if b then 1 else 0) :: st, l, m⟩ := by
  cases b <;> exact exec_next rfl

section Total

variable (a b : BitVec 64) (c d : BitVec 32)

@[simp] theorem exec_i64Add : exec fuel (.i64Add :: is) ⟨.i64 b :: .i64 a :: st, l, m⟩ =
    exec fuel is ⟨.i64 (a + b) :: st, l, m⟩ := exec_next rfl

@[simp] theorem exec_i64Sub : exec fuel (.i64Sub :: is) ⟨.i64 b :: .i64 a :: st, l, m⟩ =
    exec fuel is ⟨.i64 (a - b) :: st, l, m⟩ := exec_next rfl

@[simp] theorem exec_i64Mul : exec fuel (.i64Mul :: is) ⟨.i64 b :: .i64 a :: st, l, m⟩ =
    exec fuel is ⟨.i64 (a * b) :: st, l, m⟩ := exec_next rfl

@[simp] theorem exec_i64And : exec fuel (.i64And :: is) ⟨.i64 b :: .i64 a :: st, l, m⟩ =
    exec fuel is ⟨.i64 (a &&& b) :: st, l, m⟩ := exec_next rfl

@[simp] theorem exec_i64Or : exec fuel (.i64Or :: is) ⟨.i64 b :: .i64 a :: st, l, m⟩ =
    exec fuel is ⟨.i64 (a ||| b) :: st, l, m⟩ := exec_next rfl

@[simp] theorem exec_i64Xor : exec fuel (.i64Xor :: is) ⟨.i64 b :: .i64 a :: st, l, m⟩ =
    exec fuel is ⟨.i64 (a ^^^ b) :: st, l, m⟩ := exec_next rfl

@[simp] theorem exec_i64Shl : exec fuel (.i64Shl :: is) ⟨.i64 b :: .i64 a :: st, l, m⟩ =
    exec fuel is ⟨.i64 (a <<< (b.toNat % 64)) :: st, l, m⟩ := exec_next rfl

@[simp] theorem exec_i64ShrS : exec fuel (.i64ShrS :: is) ⟨.i64 b :: .i64 a :: st, l, m⟩ =
    exec fuel is ⟨.i64 (a.sshiftRight (b.toNat % 64)) :: st, l, m⟩ := exec_next rfl

@[simp] theorem exec_i64ShrU : exec fuel (.i64ShrU :: is) ⟨.i64 b :: .i64 a :: st, l, m⟩ =
    exec fuel is ⟨.i64 (a >>> (b.toNat % 64)) :: st, l, m⟩ := exec_next rfl

@[simp] theorem exec_i64Rotr : exec fuel (.i64Rotr :: is) ⟨.i64 b :: .i64 a :: st, l, m⟩ =
    exec fuel is ⟨.i64 (a.rotateRight (b.toNat % 64)) :: st, l, m⟩ := exec_next rfl

@[simp] theorem exec_i32Add : exec fuel (.i32Add :: is) ⟨.i32 d :: .i32 c :: st, l, m⟩ =
    exec fuel is ⟨.i32 (c + d) :: st, l, m⟩ := exec_next rfl

@[simp] theorem exec_i32Sub : exec fuel (.i32Sub :: is) ⟨.i32 d :: .i32 c :: st, l, m⟩ =
    exec fuel is ⟨.i32 (c - d) :: st, l, m⟩ := exec_next rfl

@[simp] theorem exec_i32Mul : exec fuel (.i32Mul :: is) ⟨.i32 d :: .i32 c :: st, l, m⟩ =
    exec fuel is ⟨.i32 (c * d) :: st, l, m⟩ := exec_next rfl

@[simp] theorem exec_i32And : exec fuel (.i32And :: is) ⟨.i32 d :: .i32 c :: st, l, m⟩ =
    exec fuel is ⟨.i32 (c &&& d) :: st, l, m⟩ := exec_next rfl

@[simp] theorem exec_i32Or : exec fuel (.i32Or :: is) ⟨.i32 d :: .i32 c :: st, l, m⟩ =
    exec fuel is ⟨.i32 (c ||| d) :: st, l, m⟩ := exec_next rfl

@[simp] theorem exec_i32Xor : exec fuel (.i32Xor :: is) ⟨.i32 d :: .i32 c :: st, l, m⟩ =
    exec fuel is ⟨.i32 (c ^^^ d) :: st, l, m⟩ := exec_next rfl

@[simp] theorem exec_i32Shl : exec fuel (.i32Shl :: is) ⟨.i32 d :: .i32 c :: st, l, m⟩ =
    exec fuel is ⟨.i32 (c <<< (d.toNat % 32)) :: st, l, m⟩ := exec_next rfl

@[simp] theorem exec_i32ShrS : exec fuel (.i32ShrS :: is) ⟨.i32 d :: .i32 c :: st, l, m⟩ =
    exec fuel is ⟨.i32 (c.sshiftRight (d.toNat % 32)) :: st, l, m⟩ := exec_next rfl

@[simp] theorem exec_i32ShrU : exec fuel (.i32ShrU :: is) ⟨.i32 d :: .i32 c :: st, l, m⟩ =
    exec fuel is ⟨.i32 (c >>> (d.toNat % 32)) :: st, l, m⟩ := exec_next rfl

@[simp] theorem exec_i32Rotr : exec fuel (.i32Rotr :: is) ⟨.i32 d :: .i32 c :: st, l, m⟩ =
    exec fuel is ⟨.i32 (c.rotateRight (d.toNat % 32)) :: st, l, m⟩ := exec_next rfl

end Total

@[simp] theorem exec_return (s : State M) : exec fuel (.return :: is) s = .ret s :=
  (exec_cons .return s).trans rfl

@[simp] theorem exec_br (n : ℕ) (s : State M) : exec fuel (.br n :: is) s = .br n s :=
  (exec_cons (.br n) s).trans rfl

/-! ## Memory -/

theorem exec_i64LoadN {addr : BitVec 32} {bytes offset : ℕ} {signed : Bool} {v : BitVec 64}
    (h : LinearMemory.load m (addr.toNat + offset) bytes = some v) :
    exec fuel (.i64LoadN bytes signed offset :: is) ⟨.i32 addr :: st, l, m⟩ =
      exec fuel is ⟨.i64 (extendLoad bytes signed v) :: st, l, m⟩ := by
  apply exec_next
  change pushOr ⟨st, l, m⟩ st
    ((LinearMemory.load m (addr.toNat + offset) bytes).map
      fun v => .i64 (extendLoad bytes signed v)) = _
  rw [h]
  rfl

theorem exec_i32LoadN {addr : BitVec 32} {bytes offset : ℕ} {v : BitVec 64}
    (h : LinearMemory.load m (addr.toNat + offset) bytes = some v) :
    exec fuel (.i32LoadN bytes offset :: is) ⟨.i32 addr :: st, l, m⟩ =
      exec fuel is ⟨.i32 (v.setWidth 32) :: st, l, m⟩ := by
  apply exec_next
  change pushOr ⟨st, l, m⟩ st
    ((LinearMemory.load m (addr.toNat + offset) bytes).map
      fun v => .i32 (v.setWidth 32)) = _
  rw [h]
  rfl

theorem exec_i64StoreN {addr : BitVec 32} {bytes offset : ℕ} {v : BitVec 64} {m' : M}
    (h : LinearMemory.store m (addr.toNat + offset) bytes v = some m') :
    exec fuel (.i64StoreN bytes offset :: is) ⟨.i64 v :: .i32 addr :: st, l, m⟩ =
      exec fuel is ⟨st, l, m'⟩ := by
  apply exec_next
  change storeOr ⟨st, l, m⟩ st (LinearMemory.store m (addr.toNat + offset) bytes v) = _
  rw [h]
  rfl

theorem exec_i32StoreN {addr v : BitVec 32} {bytes offset : ℕ} {m' : M}
    (h : LinearMemory.store m (addr.toNat + offset) bytes (v.setWidth 64) = some m') :
    exec fuel (.i32StoreN bytes offset :: is) ⟨.i32 v :: .i32 addr :: st, l, m⟩ =
      exec fuel is ⟨st, l, m'⟩ := by
  apply exec_next
  change storeOr ⟨st, l, m⟩ st
    (LinearMemory.store m (addr.toNat + offset) bytes (v.setWidth 64)) = _
  rw [h]
  rfl

theorem exec_v128Load {addr : BitVec 32} {offset : ℕ} {v : Val}
    (h : load128 m (addr.toNat + offset) = some v) :
    exec fuel (.v128Load offset :: is) ⟨.i32 addr :: st, l, m⟩ = exec fuel is ⟨v :: st, l, m⟩ := by
  apply exec_next
  change pushOr ⟨st, l, m⟩ st (load128 m (addr.toNat + offset)) = _
  rw [h]
  rfl

theorem exec_v128Store {addr : BitVec 32} {offset : ℕ} {v : BitVec 128} {m' : M}
    (h : store128 m (addr.toNat + offset) v = some m') :
    exec fuel (.v128Store offset :: is) ⟨.v128 v :: .i32 addr :: st, l, m⟩ =
      exec fuel is ⟨st, l, m'⟩ := by
  apply exec_next
  change storeOr ⟨st, l, m⟩ st (store128 m (addr.toNat + offset) v) = _
  rw [h]
  rfl

/-! ## Structured control -/

theorem exec_block (arity : ℕ) (body : List Instr) :
    exec fuel (.block arity body :: is) ⟨st, l, m⟩ =
      ((exec fuel body ⟨[], l, m⟩).exitBlock arity st).bind (exec fuel is) := rfl

theorem exec_loop (body : List Instr) :
    exec fuel (.loop body :: is) ⟨st, l, m⟩ =
      ((Outcome.iterate (exec fuel body) fuel ⟨[], l, m⟩).exitBlock 0 st).bind (exec fuel is) := rfl

/-- An `if` on a condition that a comparison left. -/
theorem exec_ifElse (arity : ℕ) (t e : List Instr) (b : Bool) :
    exec fuel (.ifElse arity t e :: is) ⟨ofBool b :: st, l, m⟩ =
      ((exec fuel (if b then t else e) ⟨[], l, m⟩).exitBlock arity st).bind (exec fuel is) := by
  cases b <;> rfl

/-- An `if` on any condition. -/
theorem exec_ifElse_i32 (arity : ℕ) (t e : List Instr) (c : BitVec 32) :
    exec fuel (.ifElse arity t e :: is) ⟨.i32 c :: st, l, m⟩ =
      ((exec fuel (if c ≠ 0 then t else e) ⟨[], l, m⟩).exitBlock arity st).bind (exec fuel is) := by
  change (if c ≠ 0 then (exec fuel t ⟨[], l, m⟩).exitBlock arity st
    else (exec fuel e ⟨[], l, m⟩).exitBlock arity st).bind (exec fuel is) = _
  split_ifs <;> rfl

end Straight

end Wasm
