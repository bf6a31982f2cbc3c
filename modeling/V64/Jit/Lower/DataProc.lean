import V64.Jit.Lower.Arith

/-!
# Bitfield moves and data processing with one, two and three sources

Model of `crates/jit/src/lower/dataproc.rs`. `none` is a form that the lowering
does not handle.

* `emits_bitfield`, `emits_dataProc2Src`, `emits_dataProc3Src`: each lowering
  computes what the executor does.
-/

namespace V64.Jit

open V64.Cpu V64.Decoder V64.Interp V64.Platform Wasm
open Wasm.Instr

/-! ## Emitters -/

/-- `T0` rotated right by `r` at the instruction's width (`bitfield`). -/
def rotateT0 (sf : Bool) (r : ℕ) : List Instr :=
  if sf then [localGet t0, i64Const (BitVec.ofNat 64 r), i64Rotr]
  else if r = 0 then [localGet t0]
  else
    [localGet t0, i64Const (BitVec.ofNat 64 r), i64ShrU, localGet t0,
      i64Const (BitVec.ofNat 64 (32 - r)), i64Shl, i64Const wMask, i64And, i64Or]

/-- `bitfield` (lines 15–61). -/
def bitfield (sf : Bool) (opc : ℕ) (wmask tmask : BitVec 64) (immr imms : BitVec 6)
    (rn rd : Reg) : List Instr :=
  let ds := if sf then 64 else 32
  let dmask := if sf then BitVec.allOnes 64 else wMask
  let wmask := wmask &&& dmask
  let tmask := tmask &&& dmask
  let result := match opc with
    | 2 => [localGet t1, i64Const tmask, i64And, localSet t3]
    | 0 =>
      [localGet t0, i64Const (imms.setWidth 64), i64ShrU, i64Const 1, i64And,
        i64Const (dmask &&& ~~~tmask), i64Mul, localGet t1, i64Const tmask, i64And, i64Or,
        localSet t3]
    | _ =>
      [localGet regsBase, i64Load (xOff rd), localSet t2, localGet t2, i64Const (~~~tmask), i64And,
        localGet t2, i64Const (~~~wmask), i64And, localGet t1, i64Or, i64Const tmask, i64And, i64Or,
        localSet t3]
  pushOperand rn sf false ++ [localSet t0] ++ rotateT0 sf (immr.toNat % ds) ++
    [i64Const wmask, i64And, localSet t1] ++ result ++ storeLocal rd sf false t3

/-- One step of `swap_bits_in_byte`: neighbouring groups of `sh` bits change places. -/
def swapStep (mask : BitVec 64) (sh : ℕ) : List Instr :=
  [localGet t0, i64Const mask, i64And, i64Const (BitVec.ofNat 64 sh), i64Shl, localGet t0,
    i64Const (BitVec.ofNat 64 sh), i64ShrU, i64Const mask, i64And, i64Or, localSet t0]

/-- `swap_bits_in_byte` (lines 122–134). -/
def swapBitsInByte (ds : ℕ) : List Instr :=
  let (m1, m2, m3) :=
    if ds = 64 then (0x5555555555555555#64, 0x3333333333333333#64, 0x0f0f0f0f0f0f0f0f#64)
    else (0x55555555#64, 0x33333333#64, 0x0f0f0f0f#64)
  swapStep m1 1 ++ swapStep m2 2 ++ swapStep m3 4

/-- The source of destination byte `d` when groups of `g` bytes are reversed. -/
def reversedByte (g d : ℕ) : ℕ :=
  let base := d / g * g
  base + (g - 1 - (d - base))

/-- One byte of `emit_byte_reverse`, or-ed to the ones below it. -/
def emitReversedByte (g d : ℕ) : List Instr :=
  let src := reversedByte g d
  [localGet t0] ++
    (if src > 0 then [i64Const (BitVec.ofNat 64 (src * 8)), i64ShrU] else []) ++
    [i64Const 0xff, i64And] ++
    (if d > 0 then [i64Const (BitVec.ofNat 64 (d * 8)), i64Shl] else []) ++
    if d > 0 then [i64Or] else []

/-- `emit_byte_reverse` (lines 138–159). -/
def emitByteReverse (ds group : ℕ) : List Instr :=
  (List.range (ds / 8)).flatMap (emitReversedByte group)

/-- `data_proc_1src` (lines 66–116). -/
def dataProc1Src (sf : Bool) (opcode : ℕ) (rn rd : Reg) : Option (List Instr) :=
  let ds := if sf then 64 else 32
  let value := match opcode with
    | 0 =>
      some (pushOperand rn sf false ++ [localSet t0] ++ swapBitsInByte ds ++
        emitByteReverse ds (ds / 8) ++ [localSet t0])
    | 4 =>
      some (pushOperand rn sf false ++
        (if sf then [i64Clz] else [i32WrapI64, i32Clz, i64ExtendI32U]) ++ [localSet t0])
    | 5 =>
      some (pushOperand rn sf false ++ [localSet t0] ++
        if sf then
          [localGet t0, localGet t0, i64Const 63, i64ShrS, i64Xor, i64Clz, i64Const 1, i64Sub,
            localSet t0]
        else
          [localGet t0, i32WrapI64, localGet t0, i32WrapI64, i32Const 31, i32ShrS, i32Xor, i32Clz,
            i32Const 1, i32Sub, i64ExtendI32U, localSet t0])
    | 1 | 2 | 3 =>
      let group := 1 <<< opcode
      if group > ds / 8 then none
      else
        some (pushOperand rn sf false ++ [localSet t0] ++ emitByteReverse ds group ++
          [localSet t0])
    | _ => none
  value.map fun value => value ++ storeLocal rd sf false t0

/-- The shift of `var_shift`, at either width. -/
def shiftOp : ShiftType → BinOp
  | .lsl => .shl
  | .lsr => .shrU
  | .asr => .shrS
  | .ror => .rotr

/-- `var_shift` (lines 177–204). -/
def varShift (sf : Bool) (shift : ShiftType) (rm rn rd : Reg) : List Instr :=
  (if sf then pushOperand rn true false ++ pushOperand rm true false ++ [i64Bin (shiftOp shift)]
  else
    pushOperand rn false false ++ [i32WrapI64] ++ pushOperand rm false false ++ [i32WrapI64] ++
      [i32Bin (shiftOp shift), i64ExtendI32U]) ++
    [localSet t0] ++ storeLocal rd sf false t0

/-- `div` (lines 208–240). -/
def div (sf : Bool) (rm rn rd : Reg) (signed : Bool) : List Instr :=
  let extend := if signed && !sf then [i32WrapI64, i64ExtendI32S] else []
  let quotient :=
    if signed then
      let min := if sf then BitVec.intMin 64 else (BitVec.intMin 32).signExtend 64
      [localGet t0, i64Const min, i64Eq, localGet t1, i64Const (-1), i64Eq, i32And,
        ifElse 1 [i64Const min] [localGet t0, localGet t1, i64DivS]]
    else [localGet t0, localGet t1, i64DivU]
  pushOperand rn sf false ++ extend ++ [localSet t0] ++
    pushOperand rm sf false ++ extend ++ [localSet t1] ++
    [localGet t1, i64Eqz, ifElse 1 [i64Const 0] quotient, localSet t0] ++
    storeLocal rd sf false t0

/-- `data_proc_2src` (lines 163–174). -/
def dataProc2Src (sf : Bool) (opcode : ℕ) (rm rn rd : Reg) : Option (List Instr) :=
  match opcode with
  | 2 => some (div sf rm rn rd false)
  | 3 => some (div sf rm rn rd true)
  | 8 => some (varShift sf .lsl rm rn rd)
  | 9 => some (varShift sf .lsr rm rn rd)
  | 10 => some (varShift sf .asr rm rn rd)
  | 11 => some (varShift sf .ror rm rn rd)
  | _ => none

/-- `umulh` (lines 292–307). -/
def umulh : List Instr :=
  [localGet t0, i64Const wMask, i64And, localGet t1, i64Const 32, i64ShrU, i64Mul, localSet t2,
    localGet t0, i64Const 32, i64ShrU, localGet t1, i64Const wMask, i64And, i64Mul, localSet t3,
    localGet t0, i64Const 32, i64ShrU, localGet t1, i64Const 32, i64ShrU, i64Mul, localSet t4,
    localGet t4,
    localGet t2, i64Const 32, i64ShrU, i64Add,
    localGet t3, i64Const 32, i64ShrU, i64Add,
    localGet t0, i64Const wMask, i64And, localGet t1, i64Const wMask, i64And, i64Mul, i64Const 32,
    i64ShrU,
    localGet t2, i64Const wMask, i64And, i64Add,
    localGet t3, i64Const wMask, i64And, i64Add,
    i64Const 32, i64ShrU, i64Add, localSet t2]

/-- `push32` (lines 310–317). -/
def push32 (rn : Reg) (signed : Bool) : List Instr :=
  if rn = 31 then [i64Const 0]
  else
    [localGet regsBase, i64Load (xOff rn), i32WrapI64,
      if signed then i64ExtendI32S else i64ExtendI32U]

/-- `data_proc_3src` (lines 245–288). -/
def dataProc3Src (sf : Bool) (op31 : ℕ) (o0 : Bool) (rm ra rn rd : Reg) : Option (List Instr) :=
  let accumulate := if o0 then i64Sub else i64Add
  match op31 with
  | 0b000 =>
    some (pushOperand ra sf false ++ pushOperand rn sf false ++ pushOperand rm sf false ++
      [i64Mul, accumulate, localSet t0] ++ storeLocal rd sf false t0)
  | 0b001 | 0b101 =>
    let signed := op31 == 0b001
    some (pushOperand ra true false ++ push32 rn signed ++ push32 rm signed ++
      [i64Mul, accumulate, localSet t0] ++ storeLocal rd true false t0)
  | 0b010 | 0b110 =>
    let correction :=
      if op31 = 0b010 then
        [localGet t2, localGet t0, i64Const 63, i64ShrS, localGet t1, i64And,
          localGet t1, i64Const 63, i64ShrS, localGet t0, i64And, i64Add, i64Sub, localSet t2]
      else []
    some (pushOperand rn true false ++ [localSet t0] ++ pushOperand rm true false ++
      [localSet t1] ++ umulh ++ correction ++ storeLocal rd true false t2)
  | _ => none

section Exec

variable {D : Type} {L : Layout} {stale : Flags} {bus : Bus D} {cpu : CpuState} {fuel : ℕ}
  {st : List Val} {l : ℕ → Val}

/-! ## Three sources -/

/-- `umulh` leaves its operands in `T0` and `T1`. -/
theorem exec_umulh (fuel : ℕ) (st : List Val) (m : HostMem D) {a b : BitVec 64}
    (ha : l 2 = .i64 a) (hb : l 3 = .i64 b) :
    ∃ l', Keeps l l' ∧ l' 2 = .i64 a ∧ l' 3 = .i64 b ∧ l' 4 = .i64 (Words.mulHigh a b) ∧
      exec fuel umulh ⟨st, l, m⟩ = .next ⟨st, l', m⟩ := by
  refine ⟨_, ?_, ?_, ?_, ?_, by simp [umulh, ha, hb]; rfl⟩ <;>
    simp [isScratch, ha, hb, Words.mulHigh]

theorem exec_push32 (h : Ready L bus.ram.size.toNat l) (rn : Reg) (signed : Bool) :
    exec fuel (push32 rn signed) ⟨st, l, host L stale bus cpu⟩ =
      .next ⟨.i64 (if signed then ((cpu.readGpr rn false).setWidth 32).signExtend 64
        else ((cpu.readGpr rn false).setWidth 32).setWidth 64) :: st, l, host L stale bus cpu⟩ := by
  unfold push32
  split_ifs with hrn hsigned
  · simp [hrn]
  · simp [hrn]
  · simp [h.regs, h.wf, readGpr_true_of_ne hrn false]
  · simp [h.regs, h.wf, readGpr_true_of_ne hrn false]

theorem setWidth_read_w (idx : Reg) :
    (read cpu idx false false).setWidth 32 = (cpu.readGpr idx false).setWidth 32 := by
  rw [read_eq, widthMask_false, Words.setWidth_and_mask]

/-- SMULH and UMULH leave the half product in `T2`; SMULH corrects it there. -/
theorem exec_mulHigh (stale : Flags) (bus : Bus D) (cpu : CpuState) (fuel : ℕ) (st : List Val)
    (h : Ready L bus.ram.size.toNat l) (rm rn : Reg) :
    ∃ l', Keeps l l' ∧ l' 2 = .i64 (cpu.readGpr rn false) ∧ l' 3 = .i64 (cpu.readGpr rm false) ∧
      l' 4 = .i64 (Words.mulHigh (cpu.readGpr rn false) (cpu.readGpr rm false)) ∧
      exec fuel (pushOperand rn true false ++ [localSet t0] ++ pushOperand rm true false ++
        [localSet t1] ++ umulh) ⟨st, l, host L stale bus cpu⟩ =
        .next ⟨st, l', host L stale bus cpu⟩ := by
  generalize hn : cpu.readGpr rn false = n
  generalize hm : cpu.readGpr rm false = m
  obtain ⟨l', hkeeps, h2, h3, h4, hexec⟩ := exec_umulh fuel st (host L stale bus cpu)
    (show Function.update (Function.update l 2 (.i64 n)) 3 (.i64 m) 2 = .i64 n from rfl)
    (show Function.update (Function.update l 2 (.i64 n)) 3 (.i64 m) 3 = .i64 m from rfl)
  have hkeeps' : Keeps l (Function.update (Function.update l 2 (.i64 n)) 3 (.i64 m)) := by
    simp [isScratch]
  exact ⟨l', hkeeps'.trans hkeeps, h2, h3, h4, by simp [exec_append, h, read_eq, hn, hm, hexec]⟩

theorem emits_dataProc3Src (h : Ready L bus.ram.size.toNat l) {sf : Bool} {op31 : ℕ}
    (hop : op31 = 0 ∨ op31 = 1 ∨ op31 = 2 ∨ op31 = 5 ∨ op31 = 6) (hsf : op31 ≠ 0 → sf = true)
    (o0 : Bool) (rm ra rn rd : Reg) :
    ∃ code cpu', dataProc3Src sf op31 o0 rm ra rn rd = some code ∧
      Interp.dataProc3Src cpu sf op31 o0 rm ra rn rd = some cpu' ∧
      Emits L stale bus l code cpu cpu' := by
  unfold dataProc3Src Interp.dataProc3Src
  obtain rfl | hlong := Nat.eq_zero_or_pos op31
  · refine ⟨_, _, rfl, rfl, fun fuel st => ?_⟩
    cases o0 <;> simp [exec_append, h, accumulate, isScratch]
  -- the long forms are X instructions
  have hsf := hsf (by omega)
  subst hsf
  obtain rfl | rfl | rfl | rfl | rfl := hop
  · omega
  · refine ⟨_, _, rfl, rfl, fun fuel st => ?_⟩
    cases o0 <;>
      simp [exec_append, h, exec_push32, accumulate, isScratch, setWidth_read_w]
  · refine ⟨_, _, rfl, rfl, fun fuel st => ?_⟩
    obtain ⟨l', hkeeps, h2, h3, h4, hexec⟩ :=
      exec_mulHigh stale bus cpu fuel st h rm rn
    rw [List.append_assoc, exec_append, hexec, Outcome.bind_next]
    simp [h2, h3, h4, hkeeps.ready h, hkeeps, isScratch, Words.smulh, read_eq]
  · refine ⟨_, _, rfl, rfl, fun fuel st => ?_⟩
    cases o0 <;>
      simp [exec_append, h, exec_push32, accumulate, isScratch, setWidth_read_w]
  · refine ⟨_, _, rfl, rfl, fun fuel st => ?_⟩
    obtain ⟨l', hkeeps, h2, h3, h4, hexec⟩ :=
      exec_mulHigh stale bus cpu fuel st h rm rn
    rw [List.append_assoc, exec_append, hexec, Outcome.bind_next]
    simp [h4, hkeeps.ready h, hkeeps, Words.umulh, read_eq]

/-! ## Two sources -/

theorem emits_varShift (h : Ready L bus.ram.size.toNat l) (sf : Bool) (shift : ShiftType)
    (rm rn rd : Reg) :
    Emits L stale bus l (varShift sf shift rm rn rd) cpu
      (write cpu rd sf
        (shiftVar (read cpu rn sf false) (read cpu rm sf false) (datasize sf) shift sf) false) := by
  unfold varShift
  apply emits_storeT0 h
  intro fuel st
  refine ⟨l, keeps_refl l, ?_⟩
  cases sf
  · cases shift <;> simp [exec_append, h, shiftOp, shiftVar, datasize]
  · cases shift <;> simp [exec_append, h, shiftOp, shiftVar, datasize]

/-- A W write only depends on the low word. -/
theorem write_w (cpu : CpuState) (rd : Reg) (v : BitVec 64) :
    write cpu rd false v false = write cpu rd false ((v.setWidth 32).setWidth 64) false := by
  rw [write_eq, write_eq, widthMask_false, ← Words.and_mask, BitVec.and_assoc, BitVec.and_self]

theorem read_w (cpu : CpuState) (idx : Reg) :
    ∃ x : BitVec 32, read cpu idx false false = x.setWidth 64 :=
  ⟨_, by rw [read_eq, widthMask_false, Words.and_mask]⟩

theorem signExtend_injective : Function.Injective (BitVec.signExtend 64 : BitVec 32 → BitVec 64) :=
  fun x y hxy => by rw [← Words.setWidth_signExtend x, hxy, Words.setWidth_signExtend]

theorem emits_udiv (h : Ready L bus.ram.size.toNat l) (sf : Bool) (rm rn rd : Reg) :
    Emits L stale bus l (div sf rm rn rd false) cpu
      (write cpu rd sf (udiv (read cpu rn sf false) (read cpu rm sf false) sf) false) := by
  intro fuel st
  cases sf
  · obtain ⟨x, hx⟩ := read_w cpu rn
    obtain ⟨y, hy⟩ := read_w cpu rm
    have hzero : y.setWidth 64 = 0#64 ↔ y = 0#32 := by
      constructor
      · intro he
        have hw := congrArg (BitVec.setWidth 32) he
        simpa using hw
      · rintro rfl
        rfl
    by_cases h0 : y = 0#32
    · simp [div, exec_append, exec_ifElse, h, hx, hy, h0, udiv, isScratch]
    · have hdiv := Words.udiv x y
      have h0' : y.setWidth 64 ≠ 0#64 := fun he => h0 (hzero.mp he)
      simp [div, exec_append, exec_ifElse, exec_i64DivU, h, hx, hy, h0, h0', hdiv, udiv, isScratch]
  · by_cases h0 : read cpu rm true false = 0#64
    · simp [div, exec_append, exec_ifElse, h, h0, udiv, isScratch]
    · simp [div, exec_append, exec_ifElse, exec_i64DivU, h, h0, udiv, isScratch]

/-- A sign-extended word is never the least 64-bit value. -/
theorem signExtend_ne_intMin (x : BitVec 32) : x.signExtend 64 ≠ BitVec.intMin 64 := by
  intro he
  have hx : x = 0 := by
    rw [← Words.setWidth_signExtend x, he]
    decide
  subst hx
  exact absurd he (by decide)

theorem emits_sdiv (h : Ready L bus.ram.size.toNat l) (sf : Bool) (rm rn rd : Reg) :
    Emits L stale bus l (div sf rm rn rd true) cpu
      (write cpu rd sf (sdiv (read cpu rn sf false) (read cpu rm sf false) sf) false) := by
  intro fuel st
  cases sf
  · obtain ⟨x, hx⟩ := read_w cpu rn
    obtain ⟨y, hy⟩ := read_w cpu rm
    -- the three comparisons of the emitted code, on the words
    have hzero : y.signExtend 64 = 0#64 ↔ y = 0#32 := signExtend_injective.eq_iff' rfl
    have hmin : x.signExtend 64 = (BitVec.intMin 32).signExtend 64 ↔ x = BitVec.intMin 32 :=
      signExtend_injective.eq_iff
    have hone : y.signExtend 64 = 0xffffffffffffffff#64 ↔ y = 0xffffffff#32 :=
      signExtend_injective.eq_iff' (by decide)
    have hnot := signExtend_ne_intMin x
    by_cases h0 : y = 0#32
    · simp [div, exec_append, exec_ifElse, h, hx, hy, h0, sdiv, isScratch]
    · by_cases hov : x = BitVec.intMin 32 ∧ y = 0xffffffff#32
      · have hwrite := write_w cpu rd ((BitVec.intMin 32).signExtend 64)
        rw [Words.setWidth_signExtend] at hwrite
        obtain ⟨rfl, rfl⟩ := hov
        simp [div, exec_append, exec_ifElse, h, hx, hy, sdiv, isScratch, RelOp.eval, hwrite]
      · have hquot := write_w cpu rd ((x.signExtend 64).sdiv (y.signExtend 64))
        rw [Words.sdiv (not_and_or.mp hov)] at hquot
        simp [div, exec_append, exec_ifElse, exec_i64DivS, h, hx, hy, h0, sdiv, isScratch,
          RelOp.eval, hzero, hmin, hone, hov, hnot, hquot]
  · generalize hn : read cpu rn true false = n
    generalize hm : read cpu rm true false = m
    by_cases h0 : m = 0#64
    · simp [div, exec_append, exec_ifElse, h, hn, hm, h0, sdiv, isScratch]
    · by_cases hov : n = BitVec.intMin 64 ∧ m = 0xffffffffffffffff#64
      · obtain ⟨rfl, rfl⟩ := hov
        simp [div, exec_append, exec_ifElse, h, hn, hm, sdiv, isScratch, RelOp.eval]
      · simp [div, exec_append, exec_ifElse, exec_i64DivS, h, hn, hm, h0, hov, sdiv, isScratch,
          RelOp.eval]

theorem emits_dataProc2Src (h : Ready L bus.ram.size.toNat l) (sf : Bool) {opcode : ℕ}
    (hop : opcode = 2 ∨ opcode = 3 ∨ opcode = 8 ∨ opcode = 9 ∨ opcode = 10 ∨ opcode = 11)
    (rm rn rd : Reg) :
    ∃ code cpu', dataProc2Src sf opcode rm rn rd = some code ∧
      Interp.dataProc2Src cpu sf opcode rm rn rd = some cpu' ∧
      Emits L stale bus l code cpu cpu' := by
  obtain rfl | rfl | rfl | rfl | rfl | rfl := hop
  · exact ⟨_, _, rfl, rfl, emits_udiv h sf rm rn rd⟩
  · exact ⟨_, _, rfl, rfl, emits_sdiv h sf rm rn rd⟩
  · exact ⟨_, _, rfl, rfl, emits_varShift h sf .lsl rm rn rd⟩
  · exact ⟨_, _, rfl, rfl, emits_varShift h sf .lsr rm rn rd⟩
  · exact ⟨_, _, rfl, rfl, emits_varShift h sf .asr rm rn rd⟩
  · exact ⟨_, _, rfl, rfl, emits_varShift h sf .ror rm rn rd⟩

/-! ## Bitfield moves -/

theorem exec_rotateT0 (fuel : ℕ) (st : List Val) (cpu : CpuState) (sf : Bool) (rn : Reg)
    (immr : BitVec 6) (m : HostMem D) (h2 : l 2 = .i64 (read cpu rn sf false)) :
    exec fuel (rotateT0 sf (immr.toNat % if sf then 64 else 32)) ⟨st, l, m⟩ =
      .next ⟨.i64 (ror (read cpu rn sf false) immr.toNat (datasize sf)) :: st, l, m⟩ := by
  have himmr := immr.isLt
  unfold rotateT0 ror
  cases sf
  · obtain ⟨x, hx⟩ := read_w cpu rn
    rw [hx] at h2 ⊢
    have hlt : immr.toNat % 32 < 32 := Nat.mod_lt _ (by decide)
    have hds : datasize false ≠ 64 := by decide
    have hx' : (x.setWidth 64).setWidth 32 = x := by
      rw [BitVec.setWidth_setWidth_of_le _ (by decide), BitVec.setWidth_eq]
    rw [if_neg hds, hx', ← BitVec.rotateRight_mod_eq_rotateRight]
    simp only [Bool.false_eq_true, if_false]
    generalize immr.toNat % 32 = r at hlt
    split_ifs with h0
    · subst h0
      have hrot : x.rotateRight 0 = x := by simp [BitVec.rotateRight_def]
      simp [h2, hrot]
    · have hpos : 0 < r ∧ r < 32 := by omega
      have hrot := Words.rotateRight_mask x hpos
      have hmod : r % 64 = r := by omega
      have hmod' : (32 - r) % 64 = 32 - r := by omega
      simp [h2, hmod, hmod', hrot]
  · have hmod : immr.toNat % 64 = immr.toNat := by omega
    simp [h2, datasize, hmod]

/-- The `top` of SBFM, by a multiplication with the sign bit. -/
theorem signBit_mul (v m t : BitVec 64) (k : ℕ) :
    ((v >>> k) &&& 1#64) * (m &&& ~~~t) =
      (if (v >>> k) &&& 1#64 = 1#64 then m else 0#64) &&& ~~~t := by
  have hbit : (v >>> k) &&& 1#64 = bit64 ((v >>> k).getLsbD 0) := and_one_eq_bit64 _
  rw [hbit]
  cases (v >>> k).getLsbD 0 <;> simp [bit64]

/-- BFM reads the slot of `rd` whole; the store takes the extra bits off again, or is
no store at all where the slot is that of SP. -/
theorem write_inserted (sf : Bool) (w t r : BitVec 64) (rd : Reg) :
    write cpu rd sf
        ((cpu.readGpr rd true &&& ~~~t) ||| ((cpu.readGpr rd true &&& ~~~w) ||| r) &&& t) false =
      write cpu rd sf
        ((read cpu rd sf false &&& ~~~t) ||| ((read cpu rd sf false &&& ~~~w) ||| r) &&& t)
        false := by
  rw [write_eq, write_eq]
  by_cases hrd : rd = 31
  · subst hrd
    rfl
  · rw [read_eq, readGpr_true_of_ne hrd false]
    congr 1
    apply BitVec.eq_of_getLsbD_eq
    intro i hi
    simp only [BitVec.getLsbD_and, BitVec.getLsbD_or]
    cases (widthMask sf).getLsbD i <;> simp

theorem emits_bitfield (h : Ready L bus.ram.size.toNat l) (sf : Bool) {opc : ℕ} (hopc : opc ≤ 2)
    (wmask tmask : BitVec 64) (immr imms : BitVec 6) (rn rd : Reg) :
    Emits L stale bus l (bitfield sf opc wmask tmask immr imms rn rd) cpu
      (Interp.bitfield cpu sf opc wmask tmask immr imms rn rd) := by
  intro fuel st
  have hrot := exec_rotateT0 fuel st cpu sf rn immr (host L stale bus cpu)
    (Function.update_self 2 (.i64 (read cpu rn sf false)) l)
  have hdmask : (if sf then BitVec.allOnes 64 else wMask) = widthMask sf := rfl
  have hdmask' : (if datasize sf = 64 then BitVec.allOnes 64 else Interp.wMask) = widthMask sf := by
    cases sf <;> rfl
  have himms : imms.toNat % 64 = imms.toNat := Nat.mod_eq_of_lt imms.isLt
  unfold bitfield Interp.bitfield
  dsimp only
  rw [hdmask, hdmask']
  have hcases : opc = 0 ∨ opc = 1 ∨ opc = 2 := by omega
  obtain rfl | rfl | rfl := hcases
  · simp [exec_append, h, hrot, isScratch, himms, signBit_mul]
  · simp [exec_append, h, h.wf, h.regs, hrot, isScratch, write_inserted]
  · simp [exec_append, h, hrot, isScratch]

end Exec

end V64.Jit
