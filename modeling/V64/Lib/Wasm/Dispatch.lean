import V64.Lib.Wasm.Exec

/-!
# WebAssembly: dispatch loops

A loop around a nest of blocks, one for each piece of code, with a `br_table` at its
core that jumps to the end of one of them. Each piece of code jumps back to the head
of the loop or returns.

* `iterate_returns`: a loop that goes back with an ever smaller measure returns.
* `jumps_trampoline`: a jump out of the core runs the piece of code it selects.
* `mem_exec`: what every store keeps, code keeps.
-/

namespace Wasm

variable {M : Type}

namespace Outcome

/-- The code branches `n` labels out with `Q`, or returns with `R`. -/
def Jumps (o : Outcome M) (n : ℕ) (Q R : State M → Prop) : Prop :=
  match o with
  | br k s => k = n ∧ Q s
  | ret s => R s
  | _ => False

/-- The memory that the code leaves, if it ends. -/
def Mem (o : Outcome M) (P : M → Prop) : Prop :=
  match o with
  | next s => P s.mem
  | br _ s => P s.mem
  | ret s => P s.mem
  | _ => True

variable {o : Outcome M} {f : State M → Outcome M} {n : ℕ} {Q Q' R R' : State M → Prop}

@[simp] theorem jumps_br (k : ℕ) (s : State M) : (br k s).Jumps n Q R ↔ k = n ∧ Q s := Iff.rfl

@[simp] theorem jumps_ret (s : State M) : (ret s).Jumps n Q R ↔ R s := Iff.rfl

theorem Jumps.mono (h : o.Jumps n Q R) (hQ : ∀ s, Q s → Q' s) (hR : ∀ s, R s → R' s) :
    o.Jumps n Q' R' := by
  cases o with
  | br k s => exact ⟨h.1, hQ s h.2⟩
  | ret s => exact hR s h
  | _ => exact h

/-- What follows a jump does not run. -/
theorem Jumps.bind (h : o.Jumps n Q R) : (o.bind f).Jumps n Q R := by
  cases o with
  | br k s => exact h
  | ret s => exact h
  | _ => exact h.elim

/-- Code that falls through or returns, and then code that jumps. -/
theorem Ends.jumps (h : o.Ends Q' R) (hf : ∀ s, Q' s → (f s).Jumps n Q R) :
    (o.bind f).Jumps n Q R := by
  cases o with
  | next s => exact hf s h
  | ret s => exact h
  | _ => exact h.elim

/-- A block is one label on the way out. -/
theorem Jumps.exitBlock (h : o.Jumps (n + 1) Q R) (arity : ℕ) (outer : List Val) :
    (o.exitBlock arity outer).Jumps n Q R := by
  cases o with
  | br k s =>
    obtain ⟨rfl, hQ⟩ := h
    exact ⟨rfl, hQ⟩
  | ret s => exact h
  | _ => exact h.elim

/-- A loop whose first turn returns. -/
theorem iterate_of_ret {body : State M → Outcome M} {s s' : State M} (h : body s = ret s')
    {fuel : ℕ} (hfuel : 0 < fuel) : iterate body fuel s = ret s' := by
  cases fuel with
  | zero => exact absurd hfuel (Nat.lt_irrefl 0)
  | succ fuel => rw [iterate, h]

/-- A loop returns when its body, each time, returns or goes back with a smaller
    measure. -/
theorem iterate_returns {body : State M → Outcome M} {Inv : ℕ → State M → Prop}
    (hbody : ∀ n s, Inv n s →
      (body s).Jumps 0 (fun s' => ∃ m < n, Inv m { s' with stack := [] }) R)
    {n fuel : ℕ} {s : State M} (hfuel : n < fuel) (h : Inv n s) :
    ∃ s', iterate body fuel s = ret s' ∧ R s' := by
  induction fuel generalizing n s with
  | zero => exact absurd hfuel (Nat.not_lt_zero n)
  | succ fuel ih =>
    have hjumps := hbody n s h
    rw [iterate]
    cases ho : body s with
    | br k s' =>
      rw [ho] at hjumps
      obtain ⟨rfl, m, hm, hinv⟩ := hjumps
      exact ih (Nat.lt_of_lt_of_le hm (Nat.le_of_lt_succ hfuel)) hinv
    | ret s' =>
      rw [ho] at hjumps
      exact ⟨s', rfl, hjumps⟩
    | _ =>
      rw [ho] at hjumps
      exact hjumps.elim

variable {P : M → Prop}

/-- What holds where the code ends, and of the memory that it leaves. -/
theorem Ends.and_mem (h : o.Ends Q R) (hmem : o.Mem P) :
    o.Ends (fun s => Q s ∧ P s.mem) fun s => R s ∧ P s.mem := by
  cases o with
  | next s => exact ⟨h, hmem⟩
  | ret s => exact ⟨h, hmem⟩
  | _ => exact h

theorem Mem.bind (h : o.Mem P) (hf : ∀ s, P s.mem → (f s).Mem P) : (o.bind f).Mem P := by
  cases o with
  | next s => exact hf s h
  | _ => exact h

theorem Mem.exitBlock (h : o.Mem P) (arity : ℕ) (outer : List Val) :
    (o.exitBlock arity outer).Mem P := by
  cases o with
  | br k s =>
    cases k with
    | zero => exact h
    | succ k => exact h
  | _ => exact h

theorem Mem.iterate {body : State M → Outcome M} (hbody : ∀ s, P s.mem → (body s).Mem P)
    (fuel : ℕ) (s : State M) (h : P s.mem) : (iterate body fuel s).Mem P := by
  induction fuel generalizing s with
  | zero => trivial
  | succ fuel ih =>
    have hmem := hbody s h
    rw [Outcome.iterate]
    cases ho : body s with
    | br k s' =>
      rw [ho] at hmem
      cases k with
      | zero => exact ih _ hmem
      | succ k => exact hmem
    | _ =>
      rw [ho] at hmem
      exact hmem

end Outcome

/-- Each piece of code runs after the block around all the code before it. -/
def trampoline (core : List Instr) (codes : List (List Instr)) : List Instr :=
  codes.foldl (fun inner code => .block 0 inner :: code) core

section Trampoline

variable [LinearMemory M] {fuel : ℕ} {l l' : ℕ → Val} {m m' : M} {Q R : State M → Prop}

/-- An index in the table selects its label. -/
theorem exec_brTable_range {k i : ℕ} (hi : i < k) (hk : k < 2 ^ 32) (st : List Val)
    (is : List Instr) :
    exec fuel (.brTable (List.range k) k :: is) ⟨.i32 (BitVec.ofNat 32 i) :: st, l, m⟩ =
      .br i ⟨st, l, m⟩ := by
  have hindex : (BitVec.ofNat 32 i).toNat = i :=
    (BitVec.toNat_ofNat i 32).trans (Nat.mod_eq_of_lt (Nat.lt_trans hi hk))
  rw [exec_cons]
  show Outcome.br ((List.range k).getD (BitVec.ofNat 32 i).toNat k) _ = _
  rw [hindex, List.getD_eq_getElem?_getD, List.getElem?_range hi, Option.getD_some]

/-- A jump past the whole nest, or a return. -/
theorem jumps_trampoline_out (codes : List (List Instr)) {core : List Instr} {n : ℕ}
    (h : (exec fuel core ⟨[], l, m⟩).Jumps (codes.length + n) Q R) :
    (exec fuel (trampoline core codes) ⟨[], l, m⟩).Jumps n Q R := by
  induction codes generalizing core with
  | nil =>
    rw [List.length_nil, Nat.zero_add] at h
    exact h
  | cons code codes ih =>
    apply ih
    rw [exec_block]
    rw [List.length_cons, Nat.add_right_comm] at h
    exact (h.exitBlock 0 []).bind

/-- A jump to the end of the `i`-th block runs the `i`-th piece of code. -/
theorem jumps_trampoline {codes : List (List Instr)} {core code : List Instr} {i n : ℕ}
    {st : List Val} (hcore : exec fuel core ⟨[], l, m⟩ = .br i ⟨st, l', m'⟩)
    (hi : codes[i]? = some code)
    (hcode : (exec fuel code ⟨[], l', m'⟩).Jumps (codes.length - (i + 1) + n) Q R) :
    (exec fuel (trampoline core codes) ⟨[], l, m⟩).Jumps n Q R := by
  induction codes generalizing core i with
  | nil => cases hi
  | cons c codes ih =>
    cases i with
    | zero =>
      obtain rfl : c = code := Option.some.inj hi
      show (exec fuel (trampoline (.block 0 core :: c) codes) _).Jumps n Q R
      apply jumps_trampoline_out
      rw [exec_block, hcore, Outcome.exitBlock_br_zero, Outcome.bind_next]
      rw [List.length_cons, Nat.zero_add, Nat.add_sub_cancel] at hcode
      exact hcode
    | succ i =>
      refine ih ?_ hi ?_
      · rw [exec_block, hcore, Outcome.exitBlock_br_succ, Outcome.bind_br]
      · rw [List.length_cons, Nat.add_sub_add_right] at hcode
        exact hcode

end Trampoline

/-! ## What every store keeps -/

section Mem

variable {P : M → Prop}

theorem mem_pushOr {s : State M} (h : P s.mem) (stack : List Val) (v : Option Val) :
    (pushOr s stack v).Mem P := by
  cases v with
  | none => trivial
  | some v => exact h

theorem mem_storeOr {s : State M} (stack : List Val) {mem : Option M} (h : ∀ m ∈ mem, P m) :
    (storeOr s stack mem).Mem P := by
  cases mem with
  | none => trivial
  | some m => exact h m rfl

variable [LinearMemory M]

/-- Every store keeps the property. -/
def StoresKeep (P : M → Prop) : Prop :=
  ∀ m addr bytes v m', P m → LinearMemory.store m addr bytes v = some m' → P m'

theorem mem_store128 (hstore : StoresKeep P) {m m' : M} {addr : ℕ} {v : BitVec 128} (h : P m)
    (hm' : store128 m addr v = some m') : P m' := by
  obtain ⟨low, hlow, hhigh⟩ := Option.bind_eq_some_iff.mp hm'
  exact hstore _ _ _ _ _ (hstore _ _ _ _ _ h hlow) hhigh

mutual

theorem mem_execInstr (hstore : StoresKeep P) (fuel : ℕ) (i : Instr) (s : State M) (h : P s.mem) :
    (execInstr fuel i s).Mem P := by
  fun_cases execInstr fuel i s
  -- the three stores, then structured code
  case case21 => exact mem_storeOr _ fun m' hm' => hstore _ _ _ _ _ h hm'
  case case22 => exact mem_storeOr _ fun m' hm' => hstore _ _ _ _ _ h hm'
  case case24 => exact mem_storeOr _ fun m' hm' => mem_store128 hstore h hm'
  case case27 arity body st l m => exact (mem_exec hstore fuel body ⟨[], l, m⟩ h).exitBlock arity st
  case case28 body st l m =>
    exact (Outcome.Mem.iterate (mem_exec hstore fuel body) fuel ⟨[], l, m⟩ h).exitBlock 0 st
  case case29 arity t e c st l m hc =>
    exact (mem_exec hstore fuel t ⟨[], l, m⟩ h).exitBlock arity st
  case case30 arity t e c st l m hc =>
    exact (mem_exec hstore fuel e ⟨[], l, m⟩ h).exitBlock arity st
  all_goals first | trivial | exact h | exact mem_pushOr h _ _

/-- A property of the memory that every store keeps holds when the code ends. -/
theorem mem_exec (hstore : StoresKeep P) (fuel : ℕ) (is : List Instr) (s : State M) (h : P s.mem) :
    (exec fuel is s).Mem P := by
  cases is with
  | nil => exact h
  | cons i is =>
    rw [exec_cons]
    exact (mem_execInstr hstore fuel i s h).bind fun s hs => mem_exec hstore fuel is s hs

end

end Mem

end Wasm
