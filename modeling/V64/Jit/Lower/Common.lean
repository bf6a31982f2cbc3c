import V64.Interp.DataProc
import V64.Jit.Host
import V64.Lib.Words

/-!
# Shared building blocks of the lowerings

Model of `crates/jit/src/lower/common.rs`, and what each block of emitted code
does to a host memory that is in step with an interpreter state.

* `image`, `host`: the host memory of a CPU state. While a block runs, the flags
  live in the packed NZCV word; the `flags` of the host go stale.
* `exec_pushOperand`, `exec_storeLocal`: operand access is the interpreter's
  `read` and `write`.
-/

namespace V64.Jit

open V64.Cpu V64.Decoder V64.Interp V64.Platform Wasm
open Wasm.Instr

/-! ## Locals -/

/-- `REGS_BASE`, the first parameter. -/
@[simp] abbrev regsBase : ℕ := 0

/-- `RAM_BASE`, the second parameter. -/
@[simp] abbrev ramBase : ℕ := 1

@[simp] abbrev t0 : ℕ := 2

@[simp] abbrev t1 : ℕ := 3

@[simp] abbrev t2 : ℕ := 4

@[simp] abbrev t3 : ℕ := 5

@[simp] abbrev t4 : ℕ := 6

/-- `PC0`: the PC at block entry. -/
@[simp] abbrev pc0 : ℕ := 7

/-- `RPC`: the guest PC of the dispatch loop. -/
@[simp] abbrev rpc : ℕ := 8

/-- `RCOUNT`: the instructions the region retired. -/
@[simp] abbrev rcount : ℕ := 9

/-- `ADDR`: a linear address. -/
@[simp] abbrev addr : ℕ := 10

/-- `RITERS`: the iterations of the dispatch loop. -/
@[simp] abbrev riters : ℕ := 11

/-- `RIDX`: the next block of the dispatch loop. -/
@[simp] abbrev ridx : ℕ := 12

/-- `N_BIT`. -/
abbrev nBit : BitVec 64 := 31#64

/-- `Z_BIT`. -/
abbrev zBit : BitVec 64 := 30#64

/-- `C_BIT`. -/
abbrev cBit : BitVec 64 := 29#64

/-- `V_BIT`. -/
abbrev vBit : BitVec 64 := 28#64

/-- `W_MASK`. -/
abbrev wMask : BitVec 64 := 0xffffffff#64

/-! ## Emitters -/

/-- `dest_off` (lines 65–71). -/
def destOff (idx : Reg) (spCtx : Bool) : Option ℕ :=
  if idx = 31 then if spCtx then some spOff else none else some (xOff idx)

/-- `if idx == 31 { SP } else { x(idx) }`: the slot of a register number. -/
def gprOff (idx : Reg) : ℕ := if idx = 31 then spOff else xOff idx

/-- `mask_w` (lines 87–91). -/
def maskW (sf : Bool) : List Instr := if sf then [] else [i64Const wMask, i64And]

/-- `push_operand` (lines 74–84). -/
def pushOperand (idx : Reg) (sf spCtx : Bool) : List Instr :=
  if idx = 31 ∧ spCtx = false then [i64Const 0]
  else [localGet regsBase, i64Load (gprOff idx)] ++ maskW sf

/-- The load of a whole register, 0 for XZR, as most lowerings spell it out. -/
def pushX (rt : Reg) : List Instr :=
  if rt = 31 then [i64Const 0] else [localGet regsBase, i64Load (xOff rt)]

/-- `store_local` (lines 94–100). -/
def storeLocal (rd : Reg) (sf sp : Bool) (tmp : ℕ) : List Instr :=
  match destOff rd sp with
  | some off => [localGet regsBase, localGet tmp] ++ maskW sf ++ [i64Store off]
  | none => []

/-- `store_count_const` (lines 105–107). -/
def storeCountConst (count : BitVec 64) : List Instr :=
  [localGet regsBase, i64Const count, i64Store jitCountOff]

/-- `load_entry_pc` (lines 111–113). -/
def loadEntryPc : List Instr := [localGet regsBase, i64Load pcOff, localSet pc0]

/-- `gen_rel_pc` (lines 118–125). -/
def genRelPc (abs entryPc : BitVec 64) : List Instr :=
  [localGet pc0, i64Const (abs - entryPc), i64Add]

/-! ## The host memory of a CPU state -/

/-- `cpu` as a block sees it: its flags are in the NZCV word. -/
def image (stale : Flags) (cpu : CpuState) : CpuState :=
  { cpu with nzcv := cpu.flags.toNzcv, flags := stale }

/-- The host memory with the image of `cpu`. -/
def host {D : Type} (L : Layout) (stale : Flags) (bus : Bus D) (cpu : CpuState) : HostMem D :=
  ⟨L, image stale cpu, bus⟩

/-- The parameters of a block are set and the shared objects fit. -/
structure Ready (L : Layout) (ramSize : ℕ) (l : ℕ → Val) : Prop where
  wf : L.Wf ramSize
  regs : l 0 = .i32 L.regsBase
  ram : l 1 = .i32 L.ramBase

@[simp] theorem ready_update {L : Layout} {ramSize n : ℕ} {l : ℕ → Val} {v : Val} (h : 2 ≤ n) :
    Ready L ramSize (Function.update l n v) ↔ Ready L ramSize l := by
  have h0 : Function.update l n v 0 = l 0 := Function.update_of_ne (by omega) v l
  have h1 : Function.update l n v 1 = l 1 := Function.update_of_ne (by omega) v l
  constructor
  · intro hr
    exact ⟨hr.wf, h0 ▸ hr.regs, h1 ▸ hr.ram⟩
  · intro hr
    exact ⟨hr.wf, h0.trans hr.regs, h1.trans hr.ram⟩

/-- The locals that a lowering may change: `T0` to `T4` and `ADDR`. -/
def isScratch (n : ℕ) : Bool := (2 ≤ n && n ≤ 6) || n == 10

/-- `l'` is `l` outside the scratch locals. -/
def Keeps (l l' : ℕ → Val) : Prop := ∀ n, isScratch n = false → l' n = l n

@[simp] theorem keeps_refl (l : ℕ → Val) : Keeps l l := fun _ _ => rfl

@[simp] theorem keeps_update {l l' : ℕ → Val} {n : ℕ} {v : Val} (h : isScratch n = true) :
    Keeps l (Function.update l' n v) ↔ Keeps l l' := by
  have heq (m : ℕ) (hm : isScratch m = false) : Function.update l' n v m = l' m :=
    Function.update_of_ne (fun he => by rw [he, h] at hm; exact Bool.noConfusion hm) v l'
  constructor
  · intro hk m hm
    exact (heq m hm).symm.trans (hk m hm)
  · intro hk m hm
    exact (heq m hm).trans (hk m hm)

theorem Keeps.trans {l l' l'' : ℕ → Val} (h : Keeps l l') (h' : Keeps l' l'') : Keeps l l'' :=
  fun n hn => (h' n hn).trans (h n hn)

theorem Keeps.ready {L : Layout} {ramSize : ℕ} {l l' : ℕ → Val} (h : Keeps l l')
    (hr : Ready L ramSize l) : Ready L ramSize l' :=
  ⟨hr.wf, (h 0 rfl).trans hr.regs, (h 1 rfl).trans hr.ram⟩

/-- Run in step with `cpu`, `code` ends in step with `cpu'`: it falls through over
the operands it found and changes scratch locals only. -/
def Emits {D : Type} (L : Layout) (stale : Flags) (bus : Bus D) (l : ℕ → Val) (code : List Instr)
    (cpu cpu' : CpuState) : Prop :=
  ∀ fuel st, (exec fuel code ⟨st, l, host L stale bus cpu⟩).Ends
    (fun s => s.stack = st ∧ Keeps l s.locals ∧ s.mem = host L stale bus cpu') fun _ => False

/-! ## Accesses to the register image -/

section Exec

variable {D : Type} {L : Layout} {stale : Flags} {bus : Bus D} {cpu : CpuState} {fuel : ℕ}
  {st : List Val} {l : ℕ → Val} {is : List Instr}

/-- The field of a register number. -/
def gprField (idx : Reg) : Field := if h : idx.val < 31 then .x ⟨idx, h⟩ else .sp

theorem offset_gprField (idx : Reg) : (gprField idx).offset = xOff idx := by
  unfold gprField
  split_ifs with h
  · rfl
  · have hidx : idx.val = 31 := by omega
    rw [Field.offset, hidx]
    rfl

theorem gprOff_eq (idx : Reg) : gprOff idx = xOff idx := by
  unfold gprOff
  split_ifs with h
  · rw [h]
    rfl
  · rfl

theorem get_gprField (idx : Reg) : (gprField idx).get (image stale cpu) = cpu.readGpr idx true := by
  unfold gprField
  split_ifs with h
  · exact (CpuState.readGpr_of_lt _ h _).symm
  · exact (CpuState.readGpr_of_not_lt cpu h true).symm

theorem set_gprField (idx : Reg) (v : BitVec 64) :
    (gprField idx).set (image stale cpu) v = image stale (cpu.writeGpr idx true v) := by
  unfold gprField
  split_ifs with h
  · rw [CpuState.writeGpr_of_lt _ h]
    rfl
  · rw [CpuState.writeGpr_of_not_lt _ h, if_pos rfl]
    rfl

theorem readGpr_true_of_ne {idx : Reg} (h : idx ≠ 31) (sp : Bool) :
    cpu.readGpr idx true = cpu.readGpr idx sp := by
  have hlt : idx.val < 31 := by
    have := idx.isLt
    have : idx.val ≠ 31 := fun he => h (Fin.ext he)
    omega
  rw [CpuState.readGpr_of_lt _ hlt, CpuState.readGpr_of_lt _ hlt]

theorem writeGpr_true_of_ne {idx : Reg} (h : idx ≠ 31) (sp : Bool) (v : BitVec 64) :
    cpu.writeGpr idx true v = cpu.writeGpr idx sp v := by
  have hlt : idx.val < 31 := by
    have := idx.isLt
    have : idx.val ≠ 31 := fun he => h (Fin.ext he)
    omega
  rw [CpuState.writeGpr_of_lt _ hlt, CpuState.writeGpr_of_lt _ hlt]

@[simp] theorem readGpr_zr : cpu.readGpr 31 false = 0 := rfl

@[simp] theorem writeGpr_zr (v : BitVec 64) : cpu.writeGpr 31 false v = cpu := rfl

theorem host_wf (h : L.Wf bus.ram.size.toNat) : (host L stale bus cpu).Wf := h

/-- Loading a register slot; the slot of register 31 is SP. -/
@[simp] theorem exec_loadGpr (h : L.Wf bus.ram.size.toNat) (idx : Reg) :
    exec fuel (.i64LoadN 8 false (xOff idx) :: is)
        ⟨.i32 L.regsBase :: st, l, host L stale bus cpu⟩ =
      exec fuel is ⟨.i64 (cpu.readGpr idx true) :: st, l, host L stale bus cpu⟩ := by
  have hload : LinearMemory.load (host L stale bus cpu) (L.regsBase.toNat + xOff idx) 8 =
      some (cpu.readGpr idx true) := by
    rw [← offset_gprField, ← get_gprField]
    exact HostMem.load_field (host_wf h) (gprField idx)
  exact exec_i64LoadN hload

@[simp] theorem exec_storeGpr (h : L.Wf bus.ram.size.toNat) (idx : Reg) (v : BitVec 64) :
    exec fuel (.i64StoreN 8 (xOff idx) :: is)
        ⟨.i64 v :: .i32 L.regsBase :: st, l, host L stale bus cpu⟩ =
      exec fuel is ⟨st, l, host L stale bus (cpu.writeGpr idx true v)⟩ := by
  have hstore : LinearMemory.store (host L stale bus cpu) (L.regsBase.toNat + xOff idx) 8 v =
      some (host L stale bus (cpu.writeGpr idx true v)) := by
    rw [← offset_gprField, host, host, ← set_gprField]
    exact HostMem.store_field (host_wf h) (gprField idx) v
  exact exec_i64StoreN hstore

@[simp] theorem exec_loadNzcv (h : L.Wf bus.ram.size.toNat) :
    exec fuel (.i64LoadN 8 false nzcvOff :: is)
        ⟨.i32 L.regsBase :: st, l, host L stale bus cpu⟩ =
      exec fuel is ⟨.i64 cpu.flags.toNzcv :: st, l, host L stale bus cpu⟩ :=
  have hload : LinearMemory.load (host L stale bus cpu) (L.regsBase.toNat + nzcvOff) 8 =
      some cpu.flags.toNzcv := HostMem.load_field (host_wf h) .nzcv
  exec_i64LoadN hload

/-- Storing a packed word sets the flags it packs. -/
theorem exec_storeNzcv (cpu : CpuState) (stale : Flags) (fuel : ℕ) (st : List Val) (l : ℕ → Val)
    (is : List Instr) (h : L.Wf bus.ram.size.toNat) {v : BitVec 64} {flags : Flags}
    (hv : v = flags.toNzcv) :
    exec fuel (.i64StoreN 8 nzcvOff :: is)
        ⟨.i64 v :: .i32 L.regsBase :: st, l, host L stale bus cpu⟩ =
      exec fuel is ⟨st, l, host L stale bus (setFlagsIf cpu true flags)⟩ := by
  subst hv
  have hstore : LinearMemory.store (host L stale bus cpu) (L.regsBase.toNat + nzcvOff) 8
      flags.toNzcv = some (host L stale bus (setFlagsIf cpu true flags)) :=
    HostMem.store_field (host_wf h) .nzcv flags.toNzcv
  exact exec_i64StoreN hstore

/-- A Boolean in a 64-bit local. -/
@[simp] theorem exec_extendBool (b : Bool) (m : HostMem D) :
    exec fuel (.i64ExtendI32U :: is) ⟨ofBool b :: st, l, m⟩ =
      exec fuel is ⟨.i64 (bit64 b) :: st, l, m⟩ := exec_i64ExtendI32U_ofBool b

@[simp] theorem exec_maskW (sf : Bool) (v : BitVec 64) (m : HostMem D) :
    exec fuel (maskW sf) ⟨.i64 v :: st, l, m⟩ = .next ⟨.i64 (v &&& widthMask sf) :: st, l, m⟩ := by
  cases sf
  · rfl
  · rw [widthMask, if_pos rfl, BitVec.and_allOnes]
    rfl

@[simp] theorem exec_pushOperand (h : Ready L bus.ram.size.toNat l) (idx : Reg) (sf sp : Bool) :
    exec fuel (pushOperand idx sf sp) ⟨st, l, host L stale bus cpu⟩ =
      .next ⟨.i64 (read cpu idx sf sp) :: st, l, host L stale bus cpu⟩ := by
  unfold pushOperand
  split_ifs with hz
  · obtain ⟨rfl, rfl⟩ := hz
    simp [read_eq]
  · have hread : cpu.readGpr idx true = cpu.readGpr idx sp := by
      by_cases hidx : idx = 31
      · rw [Bool.eq_true_of_not_eq_false fun hsp => hz ⟨hidx, hsp⟩]
      · exact readGpr_true_of_ne hidx sp
    simp [gprOff_eq, h.regs, h.wf, read_eq, hread]

@[simp] theorem exec_pushX (h : Ready L bus.ram.size.toNat l) (rt : Reg) :
    exec fuel (pushX rt) ⟨st, l, host L stale bus cpu⟩ =
      .next ⟨.i64 (cpu.readGpr rt false) :: st, l, host L stale bus cpu⟩ := by
  unfold pushX
  split_ifs with hrt
  · subst hrt
    simp
  · simp [h.regs, h.wf, readGpr_true_of_ne hrt false]

/-- The slot `dest_off` names is the register that `write_gpr` writes. -/
theorem destOff_cases (rd : Reg) (sp : Bool) :
    (destOff rd sp = none ∧ ∀ (cpu : CpuState) v, cpu.writeGpr rd sp v = cpu) ∨
    (destOff rd sp = some (xOff rd) ∧
      ∀ (cpu : CpuState) v, cpu.writeGpr rd true v = cpu.writeGpr rd sp v) := by
  unfold destOff
  by_cases h : rd = 31
  · subst h
    cases sp
    · exact .inl ⟨rfl, fun _ _ => rfl⟩
    · exact .inr ⟨rfl, fun _ _ => rfl⟩
  · rw [if_neg h]
    exact .inr ⟨rfl, fun _ v => writeGpr_true_of_ne h sp v⟩

@[simp] theorem exec_storeLocal (h : Ready L bus.ram.size.toNat l) {tmp : ℕ} {v : BitVec 64}
    (hv : l tmp = .i64 v) (rd : Reg) (sf sp : Bool) :
    exec fuel (storeLocal rd sf sp tmp) ⟨st, l, host L stale bus cpu⟩ =
      .next ⟨st, l, host L stale bus (write cpu rd sf v sp)⟩ := by
  unfold storeLocal
  obtain ⟨hoff, hw⟩ | ⟨hoff, hw⟩ := destOff_cases rd sp
  · simp [hoff, write_eq, hw]
  · simp [hoff, exec_append, h.regs, h.wf, hv, write_eq, hw]

/-- A code address relative to the entry PC that `PC0` holds. -/
@[simp] theorem exec_genRelPc {base : BitVec 64} (h : l 7 = .i64 base) (abs entryPc : BitVec 64)
    (m : HostMem D) :
    exec fuel (genRelPc abs entryPc) ⟨st, l, m⟩ =
      .next ⟨.i64 (base + (abs - entryPc)) :: st, l, m⟩ := by
  simp [genRelPc, h]

/-! ### Vector registers -/

/-- The low half of a vector register. -/
theorem exec_loadVLow (h : L.Wf bus.ram.size.toNat) (idx : Reg) :
    exec fuel (.i64LoadN 8 false (vOff idx) :: is)
        ⟨.i32 L.regsBase :: st, l, host L stale bus cpu⟩ =
      exec fuel is ⟨.i64 ((cpu.v idx).setWidth 64) :: st, l, host L stale bus cpu⟩ :=
  have hload : LinearMemory.load (host L stale bus cpu) (L.regsBase.toNat + vOff idx) 8 =
      some ((cpu.v idx).setWidth 64) := HostMem.load_field (host_wf h) (.v idx false)
  exec_i64LoadN hload

/-- A whole vector register. -/
theorem exec_loadV (h : L.Wf bus.ram.size.toNat) (idx : Reg) :
    exec fuel (.v128Load (vOff idx) :: is) ⟨.i32 L.regsBase :: st, l, host L stale bus cpu⟩ =
      exec fuel is ⟨.v128 (cpu.v idx) :: st, l, host L stale bus cpu⟩ := by
  have hlow : LinearMemory.load (host L stale bus cpu) (L.regsBase.toNat + vOff idx) 8 =
      some ((cpu.v idx).setWidth 64) := HostMem.load_field (host_wf h) (.v idx false)
  have hhigh : LinearMemory.load (host L stale bus cpu) (L.regsBase.toNat + vOff idx + 8) 8 =
      some ((cpu.v idx >>> 64).setWidth 64) := HostMem.load_field (host_wf h) (.v idx true)
  apply exec_v128Load
  rw [load128, hlow, hhigh]
  exact congrArg (fun v => some (Val.v128 v)) (Words.append_halves (cpu.v idx))

/-- Storing a low and then a high half fills a vector register. -/
theorem set_v_halves (cpu : CpuState) (idx : Reg) (lo hi : BitVec 64) :
    Field.set (Field.set cpu lo (.v idx false)) hi (.v idx true) =
      { cpu with v := Function.update cpu.v idx (hi ++ lo) } := by
  have hlo : ((cpu.v idx >>> 64).setWidth 64 ++ lo).setWidth 64 = lo := by
    rw [BitVec.setWidth_append, dif_pos (Nat.le_refl 64), BitVec.setWidth_eq]
  simp only [Field.set, Bool.false_eq_true, if_false, if_true, Function.update_self,
    Function.update_idem, hlo]

theorem store_vHalves (h : L.Wf bus.ram.size.toNat) (stale : Flags) (cpu : CpuState) (idx : Reg)
    (lo hi : BitVec 64) :
    ∃ m, LinearMemory.store (host L stale bus cpu) (L.regsBase.toNat + vOff idx) 8 lo = some m ∧
      LinearMemory.store m (L.regsBase.toNat + (vOff idx + 8)) 8 hi =
        some (host L stale bus { cpu with v := Function.update cpu.v idx (hi ++ lo) }) := by
  have hlow : LinearMemory.store (host L stale bus cpu) (L.regsBase.toNat + vOff idx) 8 lo =
      some (host L stale bus (Field.set cpu lo (.v idx false))) :=
    HostMem.store_field (host_wf h) (.v idx false) lo
  have hhigh : LinearMemory.store (host L stale bus (Field.set cpu lo (.v idx false)))
      (L.regsBase.toNat + (vOff idx + 8)) 8 hi =
      some (host L stale bus (Field.set (Field.set cpu lo (.v idx false)) hi (.v idx true))) :=
    HostMem.store_field (host_wf h) (.v idx true) hi
  rw [set_v_halves] at hhigh
  exact ⟨_, hlow, hhigh⟩

/-- A vector register filled by two 64-bit stores. -/
theorem exec_storeVHalves (h : Ready L bus.ram.size.toNat l) (idx : Reg) (lo hi : BitVec 64) :
    exec fuel (.i64StoreN 8 (vOff idx) :: localGet regsBase :: i64Const hi ::
        .i64StoreN 8 (vOff idx + 8) :: is)
        ⟨.i64 lo :: .i32 L.regsBase :: st, l, host L stale bus cpu⟩ =
      exec fuel is ⟨st, l,
        host L stale bus { cpu with v := Function.update cpu.v idx (hi ++ lo) }⟩ := by
  obtain ⟨m, hlow, hhigh⟩ := store_vHalves h.wf stale cpu idx lo hi
  rw [exec_i64StoreN hlow, exec_localGet, h.regs, exec_i64Const, exec_i64StoreN hhigh]

/-- A vector register filled by one store. -/
theorem exec_storeV (h : L.Wf bus.ram.size.toNat) (idx : Reg) (v : BitVec 128) :
    exec fuel (.v128Store (vOff idx) :: is)
        ⟨.v128 v :: .i32 L.regsBase :: st, l, host L stale bus cpu⟩ =
      exec fuel is ⟨st, l, host L stale bus { cpu with v := Function.update cpu.v idx v }⟩ := by
  obtain ⟨m, hlow, hhigh⟩ := store_vHalves h stale cpu idx (v.setWidth 64)
    ((v >>> 64).setWidth 64)
  rw [Words.append_halves] at hhigh
  apply exec_v128Store
  rw [store128, hlow]
  exact hhigh

/-- A test and an `if`: each arm is run on an empty operand stack. -/
theorem Emits.ifElse {test t e : List Instr} {c : Bool} {cpu' : CpuState}
    (htest : ∀ fuel st, exec fuel test ⟨st, l, host L stale bus cpu⟩ =
      .next ⟨ofBool c :: st, l, host L stale bus cpu⟩)
    (harm : Emits L stale bus l (if c then t else e) cpu cpu') :
    Emits L stale bus l (test ++ [Instr.ifElse 0 t e]) cpu cpu' := by
  intro fuel st
  rw [exec_append, htest, Outcome.bind_next, exec_ifElse]
  have hbody : ((exec fuel (if c then t else e) ⟨[], l, host L stale bus cpu⟩).exitBlock 0 st).Ends
      (fun s => s.stack = st ∧ Keeps l s.locals ∧ s.mem = host L stale bus cpu')
      (fun _ => False) := by
    apply Outcome.Ends.exitBlock
    exact (harm fuel []).mono (fun s hs => ⟨rfl, hs.2⟩) fun _ hs => hs
  exact hbody.bind fun s hs => by rwa [exec_nil]

end Exec

end V64.Jit
