import V64.Interp.Alias
import V64.Interp.Execute
import V64.Jit.Eligible
import V64.Jit.Lower.Memory
import V64.Lib.Words

/-!
# Lowering an atomic access

Model of `crates/jit/src/lower/atomic.rs`, the inline read-modify-writes,
compare-and-swaps and exclusives.

* `atomic_ends`: the address, the alignment guard and the fast path.
* `inlineAtomic_ends`: every inline atomic, whether or not the TLB agrees with the tables.
* `lowerAtomic_ends`: for every instruction that `isInlineAtomic` admits, the
  emitted code leaves what the executor leaves, or bails.
-/

namespace V64.Jit

open V64.Cpu V64.Decoder V64.Interp V64.Platform Wasm
open Wasm.Instr

/-! ## Emitters -/

/-- `align_guard` (lines 143–149). -/
def alignGuard (bytes : BitVec 64) (site : Site) : List Instr :=
  if bytes > 1 then
    [localGet t0, i64Const (bytes - 1), i64And, i32WrapI64, ifElse 0 (emitBail site) []]
  else []

/-- `push_base` (lines 152–155). -/
def pushBase (rn : Reg) : List Instr := [localGet regsBase, i64Load (gprOff rn), localSet t0]

/-- `push_masked_reg` (lines 159–169). -/
def pushMaskedReg (rs : Reg) (size : ℕ) : List Instr :=
  if rs = 31 then [i64Const 0]
  else
    [localGet regsBase, i64Load (xOff rs)] ++
      if size < 3 then [i64Const ((1 <<< (8 <<< size)) - 1), i64And] else []

/-- `sel` (lines 190–192). -/
def sel (cmp : Instr) : List Instr :=
  [localGet t1, localGet t2, localGet t1, localGet t2, cmp, select]

/-- `rmw_new` (lines 175–187). -/
def rmwNew (op : ℕ) : List Instr :=
  match op with
  | 0 => [localGet t1, localGet t2, i64Add]
  | 1 => [localGet t1, localGet t2, i64Const (-1), i64Xor, i64And]
  | 2 => [localGet t1, localGet t2, i64Xor]
  | 3 => [localGet t1, localGet t2, i64Or]
  | 4 => sel i64GeS
  | 5 => sel i64LeS
  | 6 => sel i64GeU
  | 7 => sel i64LeU
  | _ => [localGet t2]

/-- The store of a local to a register that is not XZR. -/
def storeX (rt : Reg) (tmp : ℕ) : List Instr :=
  if rt ≠ 31 then [localGet regsBase, localGet tmp, i64Store (xOff rt)] else []

/-- The fast path of `AtomicRmw` (lines 47–59). -/
def rmwBody (size op : ℕ) (rs rt : Reg) : List Instr :=
  [localGet addr, loadOp size false, localSet t1] ++ pushMaskedReg rs size ++ [localSet t2] ++
    rmwNew op ++ [localSet t3, localGet addr, localGet t3, storeOp size] ++ storeX rt t1

/-- The fast path of `CompareSwap` (lines 71–87). -/
def casBody (size : ℕ) (rs rt : Reg) : List Instr :=
  [localGet addr, loadOp size false, localSet t1] ++ pushMaskedReg rs size ++
    [localSet t2, localGet t1, localGet t2, i64Eq,
      ifElse 0 ([localGet addr] ++ pushX rt ++ [storeOp size]) []] ++ storeX rs t1

/-- The fast path of `LoadExclusive` (lines 98–106). -/
def ldxrBody (size : ℕ) (rt : Reg) : List Instr :=
  [localGet addr, loadOp size false, localSet t1,
    localGet regsBase, i32Const 1, i32Store8 exclValidOff,
    localGet regsBase, localGet t0, i64Store exclAddrOff,
    localGet regsBase, localGet t1, i64Store exclValOff] ++ storeX rt t1

/-- The fast path of `StoreExclusive` (lines 117–139). -/
def stxrBody (size : ℕ) (rs rt : Reg) : List Instr :=
  [localGet regsBase, i32Load8U exclValidOff,
    localGet regsBase, i64Load exclAddrOff, localGet t0, i64Eq, i32And,
    localGet addr, loadOp size false, localGet regsBase, i64Load exclValOff, i64Eq, i32And,
    i64ExtendI32U, localSet t2,
    localGet t2, i32WrapI64, ifElse 0 ([localGet addr] ++ pushX rt ++ [storeOp size]) [],
    localGet regsBase, i32Const 0, i32Store8 exclValidOff] ++
    if rs ≠ 31 then
      [localGet regsBase, localGet t2, i64Eqz, i64ExtendI32U, i64Store (xOff rs)]
    else []

/-- `lower_atomic` (lines 28–139): `none` is `false`. -/
def lowerAtomic (L : Layout) (insn : Insn) (site : Site) : Option (List Instr) :=
  match insn with
  | .atomicRmw size op rs rn rt =>
    if size > 3 ∨ op > 8 then none
    else some (pushBase rn ++ alignGuard (1 <<< size) site ++
      fastPath L (1 <<< size) true site (rmwBody size op rs rt))
  | .compareSwap size rs rn rt =>
    if size > 3 then none
    else some (pushBase rn ++ alignGuard (1 <<< size) site ++
      fastPath L (1 <<< size) true site (casBody size rs rt))
  | .loadExclusive size rt rn =>
    if size > 3 then none
    else some (pushBase rn ++ alignGuard (1 <<< size) site ++
      fastPath L (1 <<< size) false site (ldxrBody size rt))
  | .storeExclusive size rs rt rn =>
    if size > 3 then none
    else some (pushBase rn ++ alignGuard (1 <<< size) site ++
      fastPath L (1 <<< size) true site (stxrBody size rs rt))
  | _ => none

/-! ## The address and its alignment -/

section Ends

variable {D : Type} [MmioDevice D] {L : Layout} {stale : Flags} {bus : Bus D} {cpu : CpuState}
  {fuel : ℕ} {st : List Val} {l : ℕ → Val} {is : List Instr} {va : BitVec 64}

/-- The address is naturally aligned. -/
def Aligned (va : BitVec 64) (size : ℕ) : Prop := va &&& ((1 <<< size) - 1) = 0

instance (va : BitVec 64) (size : ℕ) : Decidable (Aligned va size) :=
  inferInstanceAs (Decidable (_ = _))

/-- Wrapped to 32 bits, the low bits of a misaligned address are still not 0. -/
theorem setWidth_mask_ne {size : ℕ} (hsize : size ≤ 3) (h : ¬ Aligned va size) :
    (va &&& (1 <<< size - 1)).setWidth 32 ≠ 0 := by
  intro hzero
  apply h
  unfold Aligned
  apply BitVec.eq_of_toNat_eq
  have hlt : (va &&& (1 <<< size - 1)).toNat < 2 ^ 32 := by
    rw [BitVec.toNat_and]
    refine Nat.lt_of_le_of_lt Nat.and_le_right ?_
    obtain rfl | rfl | rfl | rfl : size = 0 ∨ size = 1 ∨ size = 2 ∨ size = 3 := by omega
    all_goals decide
  have hnat := congrArg BitVec.toNat hzero
  rw [BitVec.toNat_setWidth, Nat.mod_eq_of_lt hlt] at hnat
  exact hnat

omit [MmioDevice D] in
/-- The guard in front of code that needs an aligned address. -/
theorem alignGuard_ends {site : Site} {base retired : BitVec 64} {size : ℕ} {rest : List Instr}
    {R : State (HostMem D) → Prop} (h : Ready L bus.ram.size.toNat l)
    (hsite : SiteOk site bus l base retired) (hva : l 2 = .i64 va) (hsize : size ≤ 3)
    (hrest : Aligned va size → (exec fuel rest ⟨st, l, host L stale bus cpu⟩).Ends R
      (Bailed L stale bus cpu site base retired)) :
    (exec fuel (alignGuard (1 <<< size) site ++ rest) ⟨st, l, host L stale bus cpu⟩).Ends R
      (Bailed L stale bus cpu site base retired) := by
  unfold alignGuard
  split_ifs with hbytes
  · have hguard : exec fuel ([localGet t0, i64Const (1 <<< size - 1), i64And, i32WrapI64,
        ifElse 0 (emitBail site) []] ++ rest) ⟨st, l, host L stale bus cpu⟩ =
        ((exec fuel (if (va &&& (1 <<< size - 1)).setWidth 32 ≠ 0 then emitBail site else [])
          ⟨[], l, host L stale bus cpu⟩).exitBlock 0 st).bind (exec fuel rest) := by
      simp only [List.cons_append, List.nil_append, exec_localGet, exec_i64Const, exec_i64And,
        exec_i32WrapI64, exec_ifElse_i32, t0, hva]
    rw [hguard]
    by_cases haligned : Aligned va size
    · have hzero : va &&& (1 <<< size - 1) = 0 := haligned
      rw [hzero, if_neg (by decide), exec_nil, Outcome.exitBlock_next, Outcome.bind_next]
      exact hrest haligned
    · rw [if_pos (setWidth_mask_ne hsize haligned), exec_emitBail h hsite, Outcome.exitBlock_ret,
        Outcome.bind_ret]
      exact ⟨rfl, rfl⟩
  · have hzero : size = 0 := by
      by_contra hne
      obtain rfl | rfl | rfl : size = 1 ∨ size = 2 ∨ size = 3 := by omega
      all_goals exact hbytes (by decide)
    subst hzero
    exact hrest (BitVec.and_zero)

omit [MmioDevice D] in
/-- The parts that every atomic shares. -/
theorem atomic_ends {site : Site} {base retired : BitVec 64} {size : ℕ} {rn : Reg}
    {store : Bool} {body : List Instr} {g' : Guest (Bus D)} (h : Ready L bus.ram.size.toNat l)
    (hsite : SiteOk site bus l base retired) (hg : RunState (⟨cpu, bus⟩ : Guest (Bus D)))
    (hsize : size ≤ 3)
    (hbody : ∀ fuel l' pa perms, Aligned (cpu.readGpr rn true) size →
      Ready L bus.ram.size.toNat l' →
      OnFastPath L (⟨cpu, bus⟩ : Guest (Bus D)) (cpu.readGpr rn true) (1 <<< size) store l' pa
        perms →
      (exec fuel body ⟨[], l', host L stale bus cpu⟩).Ends
        (fun s => Keeps l' s.locals ∧ s.mem = host L stale g'.mem g'.cpu ∧
          g'.cpu.pendingAbort = none) fun _ => False) :
    EmitsOrBails L stale bus l
      (pushBase rn ++ alignGuard (1 <<< size) site ++ fastPath L (1 <<< size) store site body)
      cpu site base retired g' := by
  intro fuel st
  have hkeeps : Keeps l (Function.update l t0 (.i64 (cpu.readGpr rn true))) :=
    (keeps_update rfl).mpr (keeps_refl l)
  have hbase : exec fuel (pushBase rn) ⟨st, l, host L stale bus cpu⟩ =
      .next ⟨st, Function.update l t0 (.i64 (cpu.readGpr rn true)), host L stale bus cpu⟩ := by
    simp [pushBase, gprOff_eq, h.regs, h.wf]
  have hva : Function.update l t0 (.i64 (cpu.readGpr rn true)) 2 = .i64 (cpu.readGpr rn true) :=
    Function.update_self ..
  have hspan : (1 <<< size : BitVec 64).toNat = 1 <<< size := by
    obtain rfl | rfl | rfl | rfl : size = 0 ∨ size = 1 ∨ size = 2 ∨ size = 3 := by omega
    all_goals rfl
  have hpos : 0 < (1 <<< size : BitVec 64).toNat := by
    rw [hspan, Nat.one_shiftLeft]
    exact Nat.two_pow_pos size
  have hle : (1 <<< size : BitVec 64).toNat ≤ 4096 := by
    rw [hspan]
    obtain rfl | rfl | rfl | rfl : size = 0 ∨ size = 1 ∨ size = 2 ∨ size = 3 := by omega
    all_goals decide
  rw [List.append_assoc, exec_append, hbase, Outcome.bind_next]
  refine alignGuard_ends (hkeeps.ready h) (hsite.keeps hkeeps) hva hsize fun haligned => ?_
  have hfast : EmitsOrBails L stale bus (Function.update l t0 (.i64 (cpu.readGpr rn true)))
      (fastPath L (1 <<< size) store site body) cpu site base retired g' :=
    fastPath_ends (hkeeps.ready h) (hsite.keeps hkeeps) hg hva hpos hle
      fun fuel l' pa perms hl' hon => hbody fuel l' pa perms haligned hl' (hspan ▸ hon)
  exact (hfast fuel st).mono (fun s hs => ⟨hs.1, hkeeps.trans hs.2.1, hs.2.2⟩) fun _ hs => hs

/-! ## The parts of the bodies -/

omit [MmioDevice D] in
@[simp] theorem exec_storeX (h : Ready L bus.ram.size.toNat l) {tmp : ℕ} {v : BitVec 64}
    (hv : l tmp = .i64 v) (rt : Reg) :
    exec fuel (storeX rt tmp) ⟨st, l, host L stale bus cpu⟩ =
      .next ⟨st, l, host L stale bus (cpu.writeGpr rt false v)⟩ := by
  unfold storeX
  split_ifs with hrt
  · simp [h.regs, h.wf, hv, writeGpr_true_of_ne hrt false]
  · have hzr : rt = 31 := not_not.mp hrt
    subst hzr
    simp

omit [MmioDevice D] in
@[simp] theorem exec_pushMaskedReg (h : Ready L bus.ram.size.toNat l) (rs : Reg) {size : ℕ}
    (hsize : size ≤ 3) :
    exec fuel (pushMaskedReg rs size) ⟨st, l, host L stale bus cpu⟩ =
      .next ⟨.i64 (cpu.readGpr rs false &&& sizeMask size) :: st, l, host L stale bus cpu⟩ := by
  unfold pushMaskedReg
  split_ifs with hrs hlt
  · subst hrs
    simp
  · have hmask : sizeMask size = 1 <<< (8 <<< size) - 1 := by
      obtain rfl | rfl | rfl : size = 0 ∨ size = 1 ∨ size = 2 := by omega
      all_goals rfl
    simp [h.regs, h.wf, readGpr_true_of_ne hrs false, hmask]
  · obtain rfl : size = 3 := by omega
    have hmask (v : BitVec 64) : v &&& sizeMask 3 = v := BitVec.and_allOnes
    simp [h.regs, h.wf, readGpr_true_of_ne hrs false, hmask]

/-- `select` on a comparison. -/
theorem exec_sel {M : Type} [LinearMemory M] {m : M} {old s : BitVec 64} (hold : l 3 = .i64 old)
    (hs : l 4 = .i64 s) (op : RelOp) :
    exec fuel (sel (.i64Rel op)) ⟨st, l, m⟩ =
      .next ⟨.i64 (if op.eval old s then old else s) :: st, l, m⟩ := by
  cases hop : op.eval old s <;> simp [sel, hold, hs, hop]

/-- The new value of each read-modify-write. -/
theorem exec_rmwNew {M : Type} [LinearMemory M] {m : M} {old s : BitVec 64} (hold : l 3 = .i64 old)
    (hs : l 4 = .i64 s) {op : ℕ} (hop : op ≤ 8) :
    exec fuel (rmwNew op) ⟨st, l, m⟩ = .next ⟨.i64 (atomicOp op old s) :: st, l, m⟩ := by
  obtain rfl | rfl | rfl | rfl | rfl | rfl | rfl | rfl | rfl : op = 0 ∨ op = 1 ∨ op = 2 ∨ op = 3 ∨
      op = 4 ∨ op = 5 ∨ op = 6 ∨ op = 7 ∨ op = 8 := by omega
  · simp [rmwNew, atomicOp, hold, hs]
  · simp [rmwNew, atomicOp, hold, hs, Words.xor_ones]
  · simp [rmwNew, atomicOp, hold, hs]
  · simp [rmwNew, atomicOp, hold, hs]
  · exact exec_sel hold hs .geS
  · exact exec_sel hold hs .leS
  · refine (exec_sel hold hs .geU).trans ?_
    simp [RelOp.eval, atomicOp]
  · refine (exec_sel hold hs .leU).trans ?_
    simp [RelOp.eval, atomicOp]
  · simp [rmwNew, atomicOp, hs]

/-! ## The monitor -/

section Monitor

variable (h : L.Wf bus.ram.size.toNat)
include h

omit [MmioDevice D] in
theorem exec_storeExclValid (v : BitVec 32) :
    exec fuel (i32StoreN 1 exclValidOff :: is)
        ⟨.i32 v :: .i32 L.regsBase :: st, l, host L stale bus cpu⟩ =
      exec fuel is ⟨st, l, host L stale bus { cpu with exclValid := v.setWidth 8 }⟩ := by
  have hstore : LinearMemory.store (host L stale bus cpu) (L.regsBase.toNat + exclValidOff) 1
      (v.setWidth 64) = some (host L stale bus { cpu with exclValid := v.setWidth 8 }) := by
    refine (HostMem.store_exclValid (host_wf h) _).trans ?_
    rw [BitVec.setWidth_setWidth_of_le _ (by decide)]
    rfl
  rw [exec_i32StoreN hstore]

omit [MmioDevice D] in
theorem exec_loadExclValid :
    exec fuel (i32LoadN 1 exclValidOff :: is) ⟨.i32 L.regsBase :: st, l, host L stale bus cpu⟩ =
      exec fuel is ⟨.i32 (cpu.exclValid.setWidth 32) :: st, l, host L stale bus cpu⟩ := by
  have hload : LinearMemory.load (host L stale bus cpu) (L.regsBase.toNat + exclValidOff) 1 =
      some (cpu.exclValid.setWidth 64) := HostMem.load_exclValid (host_wf h)
  have hwidth : (cpu.exclValid.setWidth 64).setWidth 32 = cpu.exclValid.setWidth 32 :=
    BitVec.setWidth_setWidth_of_le _ (by decide)
  rw [exec_i32LoadN hload, hwidth]

omit [MmioDevice D] in
theorem exec_storeExclAddr (v : BitVec 64) :
    exec fuel (.i64StoreN 8 exclAddrOff :: is)
        ⟨.i64 v :: .i32 L.regsBase :: st, l, host L stale bus cpu⟩ =
      exec fuel is ⟨st, l, host L stale bus { cpu with exclAddr := v }⟩ :=
  have hstore : LinearMemory.store (host L stale bus cpu) (L.regsBase.toNat + exclAddrOff) 8 v =
      some (host L stale bus { cpu with exclAddr := v }) :=
    HostMem.store_field (host_wf h) .exclAddr v
  exec_i64StoreN hstore

omit [MmioDevice D] in
theorem exec_storeExclVal (v : BitVec 64) :
    exec fuel (.i64StoreN 8 exclValOff :: is)
        ⟨.i64 v :: .i32 L.regsBase :: st, l, host L stale bus cpu⟩ =
      exec fuel is ⟨st, l, host L stale bus { cpu with exclVal := v }⟩ :=
  have hstore : LinearMemory.store (host L stale bus cpu) (L.regsBase.toNat + exclValOff) 8 v =
      some (host L stale bus { cpu with exclVal := v }) :=
    HostMem.store_field (host_wf h) .exclVal v
  exec_i64StoreN hstore

omit [MmioDevice D] in
theorem exec_loadExclAddr :
    exec fuel (.i64LoadN 8 false exclAddrOff :: is)
        ⟨.i32 L.regsBase :: st, l, host L stale bus cpu⟩ =
      exec fuel is ⟨.i64 cpu.exclAddr :: st, l, host L stale bus cpu⟩ :=
  have hload : LinearMemory.load (host L stale bus cpu) (L.regsBase.toNat + exclAddrOff) 8 =
      some cpu.exclAddr := HostMem.load_field (host_wf h) .exclAddr
  exec_i64LoadN hload

omit [MmioDevice D] in
theorem exec_loadExclVal :
    exec fuel (.i64LoadN 8 false exclValOff :: is)
        ⟨.i32 L.regsBase :: st, l, host L stale bus cpu⟩ =
      exec fuel is ⟨.i64 cpu.exclVal :: st, l, host L stale bus cpu⟩ :=
  have hload : LinearMemory.load (host L stale bus cpu) (L.regsBase.toNat + exclValOff) 8 =
      some cpu.exclVal := HostMem.load_field (host_wf h) .exclVal
  exec_i64LoadN hload

end Monitor

/-! ## The executors on a hit -/

section Executors

variable {size : ℕ} {store : Bool} {pa : BitVec 64} {perms : BitVec 8} {rn : Reg}

/-- The bytes of the access, zero-extended. -/
def oldValue (bus : Bus D) (o size : ℕ) : BitVec 64 := Bytes.loadLe 64 bus.ram.bytes o (1 <<< size)

omit [MmioDevice D] in
/-- A narrow value in a register: the write that a `size == 3` test chooses is the
    write of the whole register. -/
theorem writeResult_oldValue (cpu : CpuState) (bus : Bus D) (o : ℕ) (hsize : size ≤ 3) (rt : Reg) :
    writeResult cpu (size == 3) rt (oldValue bus o size) =
      cpu.writeGpr rt false (oldValue bus o size) := by
  by_cases h3 : size = 3
  · subst h3
    rfl
  · have hbeq : (size == 3) = false := beq_eq_false_iff_ne.mpr h3
    have hbytes : 8 * (1 <<< size) ≤ 32 := by
      obtain rfl | rfl | rfl : size = 0 ∨ size = 1 ∨ size = 2 := by omega
      all_goals decide
    have hnarrow : oldValue bus o size &&& 0xffffffff#64 = oldValue bus o size := by
      rw [Words.and_mask]
      exact setWidth_setWidth_loadLe (by decide) hbytes _ _
    rw [writeResult, hbeq, if_neg Bool.false_ne_true, CpuState.writeGprW, hnarrow]

/-- The mask of the access width does not change what is stored. -/
theorem storeLe_sizeMask (bytes : ℕ → BitVec 8) (o : ℕ) (hsize : size ≤ 3) (v : BitVec 64) :
    Bytes.storeLe bytes o (1 <<< size) (v &&& sizeMask size) =
      Bytes.storeLe bytes o (1 <<< size) v := by
  have hmask : ∀ size ≤ 3, ∀ k < 8 * (1 <<< size), (sizeMask size).getLsbD k = true := by decide
  apply Bytes.storeLe_congr
  intro k hk
  rw [BitVec.getLsbD_and, hmask size hsize k hk, Bool.and_true]

theorem alignCheck_of_aligned {M : Type} {g : Guest M} (h : Aligned va size) (write : Bool) :
    alignCheck g va (1 <<< size) write = none := by
  have hzero : (va &&& (1 <<< size - 1) != 0) = false := bne_eq_false_iff_eq.mpr h
  unfold alignCheck
  rw [hzero, if_neg Bool.false_ne_true]

/-- What `atomic::exec` leaves on a hit. -/
def rmwResult (bus : Bus D) (cpu : CpuState) (size op : ℕ) (rs rt : Reg) (o : ℕ) :
    Guest (Bus D) :=
  let old := oldValue bus o size
  let new := atomicOp op old (cpu.readGpr rs false &&& sizeMask size)
  { Guest.setRam ⟨cpu, bus⟩ (Bytes.storeLe bus.ram.bytes o (1 <<< size) new) with
    cpu := cpu.writeGpr rt false old }

/-- Memory after the store of Rt, if there is one. -/
def storeIf (bus : Bus D) (cpu : CpuState) (b : Bool) (size o : ℕ) (rt : Reg) : Bus D :=
  if b then
    (Guest.setRam ⟨cpu, bus⟩
      (Bytes.storeLe bus.ram.bytes o (1 <<< size) (cpu.readGpr rt false))).mem
  else bus

/-- What `cas::exec` leaves on a hit. -/
def casResult (bus : Bus D) (cpu : CpuState) (size : ℕ) (rs rt : Reg) (o : ℕ) : Guest (Bus D) :=
  let old := oldValue bus o size
  let success := old == cpu.readGpr rs false &&& sizeMask size
  ⟨cpu.writeGpr rs false old, storeIf bus cpu success size o rt⟩

/-- What `excl::load` leaves on a hit. -/
def ldxrResult (bus : Bus D) (cpu : CpuState) (size : ℕ) (rt rn : Reg) (o : ℕ) : Guest (Bus D) :=
  ⟨(cpu.armExcl (cpu.readGpr rn true) (oldValue bus o size)).writeGpr rt false
    (oldValue bus o size), bus⟩

/-- Whether `excl::store` succeeds on a hit. -/
def stxrSuccess (bus : Bus D) (cpu : CpuState) (size : ℕ) (rn : Reg) (o : ℕ) : Bool :=
  cpu.exclValid != 0 && cpu.exclAddr == cpu.readGpr rn true && oldValue bus o size == cpu.exclVal

/-- What `excl::store` leaves on a hit. -/
def stxrResult (bus : Bus D) (cpu : CpuState) (size : ℕ) (rs rt rn : Reg) (o : ℕ) :
    Guest (Bus D) :=
  let success := stxrSuccess bus cpu size rn o
  ⟨cpu.clearExcl.writeGpr rs false (bit64 !success), storeIf bus cpu success size o rt⟩

omit [MmioDevice D] in
theorem aborted_eq_false (bus : Bus D) (h : cpu.pendingAbort = none) :
    (⟨cpu, bus⟩ : Guest (Bus D)).aborted = false := by
  rw [Guest.aborted, h]
  rfl

omit [MmioDevice D] in
@[simp] theorem setRam_cpu (g : Guest (Bus D)) (bytes : ℕ → BitVec 8) :
    (g.setRam bytes).cpu = g.cpu := rfl

theorem OnFastPath.read (hon : OnFastPath L (⟨cpu, bus⟩ : Guest (Bus D)) va (1 <<< size) store l pa
    perms) (hsize : size ≤ 3) :
    MemAccess.read (⟨cpu, bus⟩ : Guest (Bus D)) va size =
      (oldValue bus (ramOffset (⟨cpu, bus⟩ : Guest (Bus D)) pa va) size, ⟨cpu, bus⟩) :=
  hon.hit.readMem rfl hsize hon.span

theorem OnFastPath.write (hon : OnFastPath L (⟨cpu, bus⟩ : Guest (Bus D)) va (1 <<< size) true l pa
    perms) (hsize : size ≤ 3) (val : BitVec 64) :
    MemAccess.write (⟨cpu, bus⟩ : Guest (Bus D)) va size val =
      Guest.setRam ⟨cpu, bus⟩ (Bytes.storeLe bus.ram.bytes
        (ramOffset (⟨cpu, bus⟩ : Guest (Bus D)) pa va) (1 <<< size) val) :=
  hon.hit.writeMem rfl hsize hon.span val

section Result

variable (hsize : size ≤ 3) (haligned : Aligned (cpu.readGpr rn true) size)
include hsize haligned

theorem atomicRmw_of_hit (hno : cpu.pendingAbort = none)
    (hon : OnFastPath L (⟨cpu, bus⟩ : Guest (Bus D)) (cpu.readGpr rn true) (1 <<< size) true l pa
      perms) (op : ℕ) (rs rt : Reg) :
    atomicRmw (⟨cpu, bus⟩ : Guest (Bus D)) size op rs rn rt =
      rmwResult bus cpu size op rs rt
        (ramOffset (⟨cpu, bus⟩ : Guest (Bus D)) pa (cpu.readGpr rn true)) := by
  have hset (bytes : ℕ → BitVec 8) :
      (Guest.setRam (⟨cpu, bus⟩ : Guest (Bus D)) bytes).aborted = false := aborted_eq_false _ hno
  unfold atomicRmw
  dsimp only
  rw [alignCheck_of_aligned haligned, hon.read hsize]
  dsimp only
  rw [aborted_eq_false bus hno, if_neg Bool.false_ne_true, hon.write hsize, hset,
    if_neg Bool.false_ne_true, setRam_cpu, writeResult_oldValue cpu bus _ hsize]
  rfl

theorem compareSwap_of_hit (hno : cpu.pendingAbort = none)
    (hon : OnFastPath L (⟨cpu, bus⟩ : Guest (Bus D)) (cpu.readGpr rn true) (1 <<< size) true l pa
      perms) (rs rt : Reg) :
    compareSwap (⟨cpu, bus⟩ : Guest (Bus D)) size rs rn rt =
      casResult bus cpu size rs rt
        (ramOffset (⟨cpu, bus⟩ : Guest (Bus D)) pa (cpu.readGpr rn true)) := by
  have hset (bytes : ℕ → BitVec 8) :
      (Guest.setRam (⟨cpu, bus⟩ : Guest (Bus D)) bytes).aborted = false := aborted_eq_false _ hno
  unfold compareSwap casResult
  dsimp only
  rw [alignCheck_of_aligned haligned, hon.read hsize]
  dsimp only
  rw [aborted_eq_false bus hno, if_neg Bool.false_ne_true, hon.write hsize,
    storeLe_sizeMask _ _ hsize]
  generalize ramOffset (⟨cpu, bus⟩ : Guest (Bus D)) pa (cpu.readGpr rn true) = o
  by_cases heq : oldValue bus o size = cpu.readGpr rs false &&& sizeMask size
  · rw [if_pos heq, hset, if_neg Bool.false_ne_true, setRam_cpu,
      writeResult_oldValue cpu bus o hsize, storeIf, if_pos (beq_iff_eq.mpr heq)]
  · rw [if_neg heq, aborted_eq_false bus hno, if_neg Bool.false_ne_true,
      writeResult_oldValue cpu bus o hsize, storeIf, if_neg (fun h => heq (beq_iff_eq.mp h))]

theorem loadExclusive_of_hit (hno : cpu.pendingAbort = none)
    (hon : OnFastPath L (⟨cpu, bus⟩ : Guest (Bus D)) (cpu.readGpr rn true) (1 <<< size) store l pa
      perms) (rt : Reg) :
    loadExclusive (⟨cpu, bus⟩ : Guest (Bus D)) size rt rn =
      ldxrResult bus cpu size rt rn
        (ramOffset (⟨cpu, bus⟩ : Guest (Bus D)) pa (cpu.readGpr rn true)) := by
  unfold loadExclusive
  dsimp only
  rw [alignCheck_of_aligned haligned, hon.read hsize]
  dsimp only
  rw [aborted_eq_false bus hno, if_neg Bool.false_ne_true,
    writeResult_oldValue _ bus _ hsize]
  rfl

omit haligned in
theorem exclMatches_of_hit
    (hon : OnFastPath L (⟨cpu, bus⟩ : Guest (Bus D)) (cpu.readGpr rn true) (1 <<< size) store l pa
      perms) :
    exclMatches (⟨cpu, bus⟩ : Guest (Bus D)) (cpu.readGpr rn true) size =
      (stxrSuccess bus cpu size rn
        (ramOffset (⟨cpu, bus⟩ : Guest (Bus D)) pa (cpu.readGpr rn true)), ⟨cpu, bus⟩) := by
  unfold exclMatches stxrSuccess CpuState.excl
  by_cases hvalid : cpu.exclValid = 0#8
  · simp [hvalid]
  · by_cases haddr : cpu.exclAddr = cpu.readGpr rn true
    · simp [hvalid, haddr, hon.read hsize]
    · simp [hvalid, haddr]

theorem storeExclusive_of_hit
    (hon : OnFastPath L (⟨cpu, bus⟩ : Guest (Bus D)) (cpu.readGpr rn true) (1 <<< size) true l pa
      perms) (rs rt : Reg) :
    storeExclusive (⟨cpu, bus⟩ : Guest (Bus D)) size rs rt rn =
      stxrResult bus cpu size rs rt rn
        (ramOffset (⟨cpu, bus⟩ : Guest (Bus D)) pa (cpu.readGpr rn true)) := by
  have hstatus : ∀ b : Bool, bit64 b &&& 0xffffffff#64 = bit64 b := by decide
  unfold storeExclusive stxrResult
  dsimp only
  rw [alignCheck_of_aligned haligned, exclMatches_of_hit hsize hon]
  dsimp only
  rw [hon.write hsize, exclFinish, CpuState.writeGprW, hstatus]
  unfold storeIf
  split_ifs <;> rfl

end Result

end Executors

/-! ## The bodies on a hit -/

section Bodies

variable {size : ℕ} {store : Bool} {pa : BitVec 64} {perms : BitVec 8} {rn : Reg}

omit [MmioDevice D] in
/-- A store to RAM does not move the shared objects. -/
theorem Ready.setRam (h : Ready L bus.ram.size.toNat l) (cpu : CpuState)
    (bytes : ℕ → BitVec 8) :
    Ready L (Guest.setRam ⟨cpu, bus⟩ bytes).mem.ram.size.toNat l := h

omit [MmioDevice D] in
/-- The load that starts every body. -/
theorem exec_loadOld (h : Ready L bus.ram.size.toNat l) (hsize : size ≤ 3)
    (hon : OnFastPath L (⟨cpu, bus⟩ : Guest (Bus D)) va (1 <<< size) store l pa perms) :
    exec fuel (localGet addr :: loadOp size false :: is) ⟨st, l, host L stale bus cpu⟩ =
      exec fuel is ⟨.i64 (oldValue bus (ramOffset (⟨cpu, bus⟩ : Guest (Bus D)) pa va) size) :: st,
        l, host L stale bus cpu⟩ := by
  obtain ⟨c, haddr, hc⟩ := hon.addr
  have hin := hon.toNat_add_le (Nat.le_refl (1 <<< size))
  rw [exec_localGet, haddr, exec_loadOp h.wf hc hsize hin]
  rfl

omit [MmioDevice D] in
theorem exec_rmwBody (h : Ready L bus.ram.size.toNat l) (hsize : size ≤ 3)
    (hon : OnFastPath L (⟨cpu, bus⟩ : Guest (Bus D)) va (1 <<< size) true l pa perms) {op : ℕ}
    (hop : op ≤ 8) (rs rt : Reg) {g' : Guest (Bus D)}
    (hg' : rmwResult bus cpu size op rs rt (ramOffset (⟨cpu, bus⟩ : Guest (Bus D)) pa va) = g') :
    ∃ l', exec fuel (rmwBody size op rs rt) ⟨st, l, host L stale bus cpu⟩ =
      .next ⟨st, l', host L stale g'.mem g'.cpu⟩ ∧ Keeps l l' := by
  subst hg'
  obtain ⟨c, haddr, hc⟩ := hon.addr
  have hin := hon.toNat_add_le (Nat.le_refl (1 <<< size))
  have hload {st is} : exec fuel (localGet addr :: loadOp size false :: is)
      ⟨st, l, host L stale bus cpu⟩ = exec fuel is _ := exec_loadOld h hsize hon
  generalize ramOffset (⟨cpu, bus⟩ : Guest (Bus D)) pa va = o at *
  set old := oldValue bus o size
  set s := cpu.readGpr rs false &&& sizeMask size
  set l₁ := Function.update l t1 (.i64 old) with hl₁
  set l₂ := Function.update l₁ t2 (.i64 s) with hl₂
  set l₃ := Function.update l₂ t3 (.i64 (atomicOp op old s)) with hl₃
  have h₁ : Ready L bus.ram.size.toNat l₁ := (ready_update (by decide)).mpr h
  have h₃ : Ready L bus.ram.size.toNat l₃ :=
    (ready_update (by decide)).mpr ((ready_update (by decide)).mpr h₁)
  have haddr₃ : l₃ addr = .i32 c := by simp [hl₃, hl₂, hl₁, haddr]
  have hold₃ : l₃ t1 = .i64 old := by simp [hl₃, hl₂, hl₁]
  have hnew₃ : l₃ t3 = .i64 (atomicOp op old s) := by simp [hl₃]
  have hpush : exec fuel (pushMaskedReg rs size) ⟨st, l₁, host L stale bus cpu⟩ =
      .next ⟨.i64 s :: st, l₁, host L stale bus cpu⟩ := exec_pushMaskedReg h₁ rs hsize
  have hnew : exec fuel (rmwNew op) ⟨st, l₂, host L stale bus cpu⟩ =
      .next ⟨.i64 (atomicOp op old s) :: st, l₂, host L stale bus cpu⟩ :=
    exec_rmwNew (by simp [hl₂, hl₁]) (by simp [hl₂]) hop
  refine ⟨l₃, ?_, ?_⟩
  · unfold rmwBody
    simp only [exec_append, hload, exec_localSet, exec_nil, Outcome.bind_next, ← hl₁, hpush, ← hl₂,
      hnew, ← hl₃, exec_localGet, haddr₃, hnew₃, exec_storeOp h.wf hc hsize hin]
    exact exec_storeX (h₃.setRam cpu _) hold₃ rt
  · exact (keeps_update rfl).mpr ((keeps_update rfl).mpr ((keeps_update rfl).mpr (keeps_refl l)))

omit [MmioDevice D] in
/-- The conditional store of a compare-and-swap and of a store exclusive. -/
theorem exec_storeIf (h : Ready L bus.ram.size.toNat l) (hsize : size ≤ 3) {c : BitVec 32} {o : ℕ}
    (haddr : l 10 = .i32 c) (hc : c.toNat = L.ramBase.toNat + o)
    (hin : o + 1 <<< size ≤ bus.ram.size.toNat) (rt : Reg) (b : Bool) :
    exec fuel (ifElse 0 ([localGet addr] ++ pushX rt ++ [storeOp size]) [] :: is)
        ⟨ofBool b :: st, l, host L stale bus cpu⟩ =
      exec fuel is ⟨st, l, host L stale (storeIf bus cpu b size o rt) cpu⟩ := by
  have hpush {st} : exec fuel (pushX rt) ⟨st, l, host L stale bus cpu⟩ =
      .next ⟨.i64 (cpu.readGpr rt false) :: st, l, host L stale bus cpu⟩ := exec_pushX h rt
  rw [exec_ifElse]
  cases b with
  | false => rfl
  | true =>
    simp only [if_true, exec_append, exec_localGet, haddr, exec_nil, Outcome.bind_next, hpush,
      exec_storeOp h.wf hc hsize hin]
    rfl

omit [MmioDevice D] in
theorem Ready.storeIf (h : Ready L bus.ram.size.toNat l) (cpu : CpuState) (b : Bool) (size o : ℕ)
    (rt : Reg) : Ready L (Jit.storeIf bus cpu b size o rt).ram.size.toNat l := by
  unfold Jit.storeIf
  split_ifs
  · exact h
  · exact h

omit [MmioDevice D] in
theorem exec_casBody (h : Ready L bus.ram.size.toNat l) (hsize : size ≤ 3)
    (hon : OnFastPath L (⟨cpu, bus⟩ : Guest (Bus D)) va (1 <<< size) true l pa perms)
    (rs rt : Reg) {g' : Guest (Bus D)}
    (hg' : casResult bus cpu size rs rt (ramOffset (⟨cpu, bus⟩ : Guest (Bus D)) pa va) = g') :
    ∃ l', exec fuel (casBody size rs rt) ⟨st, l, host L stale bus cpu⟩ =
      .next ⟨st, l', host L stale g'.mem g'.cpu⟩ ∧ Keeps l l' := by
  subst hg'
  obtain ⟨c, haddr, hc⟩ := hon.addr
  have hin := hon.toNat_add_le (Nat.le_refl (1 <<< size))
  have hload {st is} : exec fuel (localGet addr :: loadOp size false :: is)
      ⟨st, l, host L stale bus cpu⟩ = exec fuel is _ := exec_loadOld h hsize hon
  generalize ramOffset (⟨cpu, bus⟩ : Guest (Bus D)) pa va = o at *
  set old := oldValue bus o size with hold
  set compare := cpu.readGpr rs false &&& sizeMask size with hcompare
  set l₁ := Function.update l t1 (.i64 old) with hl₁
  set l₂ := Function.update l₁ t2 (.i64 compare) with hl₂
  have h₁ : Ready L bus.ram.size.toNat l₁ := (ready_update (by decide)).mpr h
  have h₂ : Ready L bus.ram.size.toNat l₂ := (ready_update (by decide)).mpr h₁
  have haddr₂ : l₂ addr = .i32 c := by simp [hl₂, hl₁, haddr]
  have hold₂ : l₂ t1 = .i64 old := by simp [hl₂, hl₁]
  have hcompare₂ : l₂ t2 = .i64 compare := by simp [hl₂]
  have hpush : exec fuel (pushMaskedReg rs size) ⟨st, l₁, host L stale bus cpu⟩ =
      .next ⟨.i64 compare :: st, l₁, host L stale bus cpu⟩ := exec_pushMaskedReg h₁ rs hsize
  refine ⟨l₂, ?_, ?_⟩
  · unfold casBody
    simp only [exec_append, hload, exec_localSet, exec_nil, Outcome.bind_next, ← hl₁, hpush, ← hl₂,
      exec_localGet, hold₂, hcompare₂, exec_i64Rel, exec_storeIf h₂ hsize haddr₂ hc hin]
    exact exec_storeX (h₂.storeIf cpu _ size o rt) hold₂ rs
  · exact (keeps_update rfl).mpr ((keeps_update rfl).mpr (keeps_refl l))

omit [MmioDevice D] in
theorem exec_ldxrBody (h : Ready L bus.ram.size.toNat l) (hsize : size ≤ 3)
    (hon : OnFastPath L (⟨cpu, bus⟩ : Guest (Bus D)) (cpu.readGpr rn true) (1 <<< size) store l pa
      perms) (rt : Reg) {g' : Guest (Bus D)}
    (hg' : ldxrResult bus cpu size rt rn
      (ramOffset (⟨cpu, bus⟩ : Guest (Bus D)) pa (cpu.readGpr rn true)) = g') :
    ∃ l', exec fuel (ldxrBody size rt) ⟨st, l, host L stale bus cpu⟩ =
      .next ⟨st, l', host L stale g'.mem g'.cpu⟩ ∧ Keeps l l' := by
  subst hg'
  have hload {st is} : exec fuel (localGet addr :: loadOp size false :: is)
      ⟨st, l, host L stale bus cpu⟩ = exec fuel is _ := exec_loadOld h hsize hon
  have hva := hon.t0
  generalize ramOffset (⟨cpu, bus⟩ : Guest (Bus D)) pa (cpu.readGpr rn true) = o at *
  set old := oldValue bus o size
  set l₁ := Function.update l t1 (.i64 old) with hl₁
  have h₁ : Ready L bus.ram.size.toNat l₁ := (ready_update (by decide)).mpr h
  have hva₁ : l₁ t0 = .i64 (cpu.readGpr rn true) := by simp [hl₁, hva]
  have hold₁ : l₁ t1 = .i64 old := by simp [hl₁]
  refine ⟨l₁, ?_, ?_⟩
  · unfold ldxrBody
    simp only [exec_append, hload, exec_localSet, exec_nil, Outcome.bind_next, ← hl₁, exec_localGet,
      regsBase, h₁.regs, exec_i32Const, exec_storeExclValid h.wf, hva₁, exec_storeExclAddr h.wf,
      hold₁, exec_storeExclVal h.wf]
    exact exec_storeX h₁ hold₁ rt
  · exact (keeps_update rfl).mpr (keeps_refl l)

omit [MmioDevice D] in
theorem exec_stxrBody (h : Ready L bus.ram.size.toNat l) (hsize : size ≤ 3)
    (hvalid : cpu.exclValid = 0 ∨ cpu.exclValid = 1)
    (hon : OnFastPath L (⟨cpu, bus⟩ : Guest (Bus D)) (cpu.readGpr rn true) (1 <<< size) true l pa
      perms) (rs rt : Reg) {g' : Guest (Bus D)}
    (hg' : stxrResult bus cpu size rs rt rn
      (ramOffset (⟨cpu, bus⟩ : Guest (Bus D)) pa (cpu.readGpr rn true)) = g') :
    ∃ l', exec fuel (stxrBody size rs rt) ⟨st, l, host L stale bus cpu⟩ =
      .next ⟨st, l', host L stale g'.mem g'.cpu⟩ ∧ Keeps l l' := by
  subst hg'
  obtain ⟨c, haddr, hc⟩ := hon.addr
  have hin := hon.toNat_add_le (Nat.le_refl (1 <<< size))
  have hload {st is} : exec fuel (localGet addr :: loadOp size false :: is)
      ⟨st, l, host L stale bus cpu⟩ = exec fuel is _ := exec_loadOld h hsize hon
  have hva : l t0 = .i64 (cpu.readGpr rn true) := hon.t0
  have hflag : Val.i32 (cpu.exclValid.setWidth 32) = ofBool (cpu.exclValid != 0) := by
    obtain hzero | hone := hvalid
    · rw [hzero]
      rfl
    · rw [hone]
      rfl
  generalize ramOffset (⟨cpu, bus⟩ : Guest (Bus D)) pa (cpu.readGpr rn true) = o at *
  have hsuccess : ((cpu.exclValid != 0 && RelOp.eq.eval cpu.exclAddr (cpu.readGpr rn true)) &&
      RelOp.eq.eval (oldValue bus o size) cpu.exclVal) = stxrSuccess bus cpu size rn o := rfl
  set success := stxrSuccess bus cpu size rn o
  set l₁ := Function.update l t2 (.i64 (bit64 success)) with hl₁
  have h₁ : Ready L bus.ram.size.toNat l₁ := (ready_update (by decide)).mpr h
  have haddr₁ : l₁ addr = .i32 c := by simp [hl₁, haddr]
  have hsuccess₁ : l₁ t2 = .i64 (bit64 success) := by simp [hl₁]
  have hwrap : Val.i32 ((bit64 success).setWidth 32) = ofBool success := by
    cases success <;> rfl
  have hnot : (bit64 success == 0) = !success := by
    cases success <;> rfl
  refine ⟨l₁, ?_, ?_⟩
  · unfold stxrBody
    rw [exec_append]
    simp only [hload, exec_localSet, exec_nil, Outcome.bind_next, exec_localGet, regsBase, h.regs,
      exec_loadExclValid h.wf, hflag, exec_loadExclAddr h.wf, hva, exec_i64Rel,
      exec_i32And_ofBool, exec_loadExclVal h.wf, hsuccess, exec_extendBool, ← hl₁, hsuccess₁,
      exec_i32WrapI64, hwrap, exec_storeIf h₁ hsize haddr₁ hc hin, h₁.regs, exec_i32Const,
      exec_storeExclValid (h₁.storeIf cpu success size o rt).wf]
    have hmem := (h₁.storeIf cpu success size o rt).wf
    split_ifs with hrs
    · simp only [exec_localGet, h₁.regs, hsuccess₁, exec_i64Eqz, hnot, exec_extendBool,
        exec_storeGpr hmem, exec_nil, writeGpr_true_of_ne hrs false]
      rfl
    · have hzr : rs = 31 := not_not.mp hrs
      subst hzr
      rw [exec_nil]
      rfl
  · exact (keeps_update rfl).mpr (keeps_refl l)

end Bodies

/-! ## Every inline atomic -/

section Lower

variable {site : Site} {base retired : BitVec 64}

theorem pendingAbort_writeGpr (cpu : CpuState) (idx : Reg) (sp : Bool) (val : BitVec 64) :
    (cpu.writeGpr idx sp val).pendingAbort = cpu.pendingAbort := by
  obtain ⟨x, sp', heq⟩ := cpu.writeGpr_eq idx sp val
  rw [heq]

omit [MmioDevice D] in
/-- A body that ends in step with `g'`, in the form that the fast path takes. -/
theorem ends_of_exec {l : ℕ → Val} {body : List Instr} {g' : Guest (Bus D)}
    (hexec : ∃ l', exec fuel body ⟨st, l, host L stale bus cpu⟩ =
      .next ⟨st, l', host L stale g'.mem g'.cpu⟩ ∧ Keeps l l')
    (hno : g'.cpu.pendingAbort = none) :
    (exec fuel body ⟨st, l, host L stale bus cpu⟩).Ends
      (fun s => Keeps l s.locals ∧ s.mem = host L stale g'.mem g'.cpu ∧
        g'.cpu.pendingAbort = none) fun _ => False := by
  obtain ⟨l', heq, hkeeps⟩ := hexec
  rw [heq]
  exact ⟨hkeeps, rfl, hno⟩

/-- The emitted read-modify-write ends in step with `atomic::exec`, or bails. -/
theorem atomicRmw_ends (h : Ready L bus.ram.size.toNat l)
    (hsite : SiteOk site bus l base retired) (hg : RunState (⟨cpu, bus⟩ : Guest (Bus D)))
    {size op : ℕ} (hsize : size ≤ 3) (hop : op ≤ 8)
    (rs rn rt : Reg) :
    ∃ code, lowerAtomic L (.atomicRmw size op rs rn rt) site = some code ∧
      EmitsOrBails L stale bus l code cpu site base retired
        (atomicRmw ⟨cpu, bus⟩ size op rs rn rt) := by
  have hno := hg.noAbort
  refine ⟨_, if_neg (by omega), ?_⟩
  refine atomic_ends h hsite hg hsize fun fuel l' pa perms haligned hl' hon => ?_
  have heq := atomicRmw_of_hit hsize haligned hno hon op rs rt
  refine ends_of_exec (exec_rmwBody hl' hsize hon hop rs rt heq.symm) ?_
  rw [heq]
  exact (pendingAbort_writeGpr _ _ _ _).trans hno

/-- Every inline atomic, in any state of a run. -/
theorem inlineAtomic_ends (vu : VecUnit) {insn : Insn} (hinline : isInlineAtomic insn = true)
    (h : Ready L bus.ram.size.toNat l) (hsite : SiteOk site bus l base retired)
    (hg : RunState (⟨cpu, bus⟩ : Guest (Bus D)))
    (hvalid : cpu.exclValid = 0 ∨ cpu.exclValid = 1) :
    ∃ code g', lowerAtomic L insn site = some code ∧
      execute vu ⟨cpu, bus⟩ insn (site.at base) = some (none, g') ∧
      EmitsOrBails L stale bus l code cpu site base retired g' := by
  have hno := hg.noAbort
  cases insn with
  | atomicRmw size op rs rn rt =>
    have hok : (decide (size ≤ 3) && decide (op ≤ 8)) = true := hinline
    rw [Bool.and_eq_true, decide_eq_true_eq, decide_eq_true_eq] at hok
    obtain ⟨hsize, hop⟩ := hok
    obtain ⟨code, hcode, hends⟩ := atomicRmw_ends h hsite hg hsize hop rs rn rt
    exact ⟨code, _, hcode, rfl, hends⟩
  | compareSwap size rs rn rt =>
    have hsize : size ≤ 3 := of_decide_eq_true hinline
    refine ⟨_, compareSwap ⟨cpu, bus⟩ size rs rn rt, if_neg (by omega), rfl, ?_⟩
    refine atomic_ends h hsite hg hsize fun fuel l' pa perms haligned hl' hon => ?_
    have heq := compareSwap_of_hit hsize haligned hno hon rs rt
    refine ends_of_exec (exec_casBody hl' hsize hon rs rt heq.symm) ?_
    rw [heq]
    exact (pendingAbort_writeGpr _ _ _ _).trans hno
  | loadExclusive size rt rn =>
    have hsize : size ≤ 3 := of_decide_eq_true hinline
    refine ⟨_, loadExclusive ⟨cpu, bus⟩ size rt rn, if_neg (by omega), rfl, ?_⟩
    refine atomic_ends h hsite hg hsize fun fuel l' pa perms haligned hl' hon => ?_
    have heq := loadExclusive_of_hit hsize haligned hno hon rt
    refine ends_of_exec (exec_ldxrBody hl' hsize hon rt heq.symm) ?_
    rw [heq]
    exact (pendingAbort_writeGpr _ _ _ _).trans hno
  | storeExclusive size rs rt rn =>
    have hsize : size ≤ 3 := of_decide_eq_true hinline
    refine ⟨_, storeExclusive ⟨cpu, bus⟩ size rs rt rn, if_neg (by omega), rfl, ?_⟩
    refine atomic_ends h hsite hg hsize fun fuel l' pa perms haligned hl' hon => ?_
    have heq := storeExclusive_of_hit hsize haligned hon rs rt
    refine ends_of_exec (exec_stxrBody hl' hsize hvalid hon rs rt heq.symm) ?_
    rw [heq]
    exact (pendingAbort_writeGpr _ _ _ _).trans hno
  | _ => exact absurd hinline Bool.false_ne_true

/-- For every instruction that is compiled as an inline atomic, the emitted code ends in
    step with the interpreter, which raises no abort, or bails. -/
theorem lowerAtomic_ends (vu : VecUnit) {insn : Insn} (hinline : isInlineAtomic insn = true)
    (h : Ready L bus.ram.size.toNat l) (hsite : SiteOk site bus l base retired)
    (hg : BlockState (⟨cpu, bus⟩ : Guest (Bus D)))
    (hvalid : cpu.exclValid = 0 ∨ cpu.exclValid = 1) :
    ∃ code g', lowerAtomic L insn site = some code ∧
      execute vu ⟨cpu, bus⟩ insn (site.at base) = some (none, g') ∧
      EmitsOrBails L stale bus l code cpu site base retired g' :=
  inlineAtomic_ends vu hinline h hsite hg.runState hvalid

end Lower

end Ends

/-! ## An instance -/

/-- `CpuState` at 0, a page of RAM and then the TLB. -/
def pageLayout : Layout where
  regsBase := 0
  cpuSize := 1024
  elOffset := 896
  tlbOffset := 900
  ramBase := 0x1000
  tlbBase := 0x2000

theorem wf_pageLayout : pageLayout.Wf 0x1000 where
  el := by decide
  tlb := by decide
  cpuSize := by decide
  regs_lt := by decide
  ram_lt := by decide
  tlb_lt := by decide
  regs_ram := by decide
  regs_tlb := by decide
  ram_tlb := by decide

/-- The first instruction of a block at `0x4000`, over a page of RAM at 0. -/
def pageSite : Site := ⟨0x4000, 0x4000, 0, 0, 0x1000, none⟩

/-- The parameters of the block and the PC at its entry. -/
def pageLocals : ℕ → Val
  | 0 => .i32 pageLayout.regsBase
  | 1 => .i32 pageLayout.ramBase
  | _ => .i64 0x4000

theorem ramSize_alias : aliasState.guest.mem.ram.size.toNat = 0x1000 := by decide +kernel

/-- The guest whose TLB holds page 0. -/
theorem blockState_alias : BlockState aliasState.guest where
  noAbort := Option.isNone_iff_eq_none.mp (by decide +kernel)
  ramWf := by
    unfold Bus.RamWf
    decide +kernel
  base := by decide +kernel
  size := by decide +kernel
  tlb := tlbAgrees_of_transparent (tlb_transparent aliasState_run) rfl

theorem ready_pageLocals : Ready pageLayout aliasState.guest.mem.ram.size.toNat pageLocals :=
  ⟨ramSize_alias ▸ wf_pageLayout, rfl, rfl⟩

theorem siteOk_page : SiteOk pageSite aliasState.guest.mem pageLocals 0x4000 0 where
  pc := rfl
  ramPhys := by decide +kernel
  ramSize := by decide +kernel
  count := rfl

/-- `ldadd x2, x3, [x1]` on that page passes the test. -/
theorem lowerAtomic_ends_ldadd :
    fastOk aliasState.guest.cpu 0 8 0 0x1000 true = true ∧
      ∃ code g', lowerAtomic pageLayout (.atomicRmw 3 0 2 1 3) pageSite = some code ∧
        execute (fun _ _ => none) aliasState.guest (.atomicRmw 3 0 2 1 3) (pageSite.at 0x4000) =
          some (none, g') ∧
        EmitsOrBails pageLayout Flags.default aliasState.guest.mem pageLocals code
          aliasState.guest.cpu pageSite 0x4000 0 g' :=
  ⟨by decide +kernel, lowerAtomic_ends (fun _ _ => none) rfl ready_pageLocals siteOk_page
    blockState_alias (.inl (by decide +kernel))⟩

end V64.Jit
