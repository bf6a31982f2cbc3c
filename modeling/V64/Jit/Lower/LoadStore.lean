import V64.Decoder.Fields
import V64.Jit.Lower.Arith
import V64.Jit.Lower.Atomic

/-!
# Lowering loads and stores

Model of `lower_mem` and `lower_mem_pair` (`crates/jit/src/lower/memory.rs`), the
inline loads and stores of one register and of two.

* `exec_elemLoad`, `exec_elemStore`, `exec_vecElemLoad`, `exec_vecElemStore`: one
  register against RAM.
* `loadStore_of_hit`, `loadStorePair_of_hit`: the executors on a cached page of RAM.
* `inlineLoadStore_ends`: every inline load and store, whether or not the TLB agrees with the
  tables.
* `lowerLoadStore_ends`: for every word that is compiled as an inline load or store,
  the emitted code leaves what the executor leaves, or bails.
-/

namespace V64.Jit

open V64.Cpu V64.Decoder V64.Interp V64.Platform Wasm
open Wasm.Instr

/-! ## Emitters -/

/-- `push_base_reg` (lines 284–287). -/
def pushBaseReg (rn : Reg) : List Instr := [localGet regsBase, i64Load (gprOff rn)]

/-- The address of a single access, into `T0` (`lower_mem`, lines 184–212): `none` is
    `false`. -/
def memAddress (mode : AddrMode) : Option (List Instr) :=
  match mode with
  | .unsignedImm rn imm | .unscaled rn imm | .preIndex rn imm =>
    some (pushBaseReg rn ++ [i64Const imm, i64Add, localSet t0])
  | .postIndex rn _ => some (pushBaseReg rn ++ [localSet t0])
  | .regOffset rn rm option shift =>
    if option = 2 ∨ option = 3 ∨ option = 6 ∨ option = 7 then
      some (pushBaseReg rn ++ pushExt rm option shift ++ [i64Add, localSet t0])
    else none
  | .literal _ => none

/-- The writeback of a base register: `T0`, plus `imm` for the post-indexed form
    (lines 222–229 and 379–385). -/
def storeBase (rn : Reg) (post : Option (BitVec 64)) : List Instr :=
  [localGet regsBase, localGet t0] ++
    (match post with
      | some imm => [i64Const imm, i64Add]
      | none => []) ++ [i64Store (gprOff rn)]

/-- The writeback of a single access. -/
def memWriteback (mode : AddrMode) : List Instr :=
  match mode with
  | .preIndex rn _ => storeBase rn none
  | .postIndex rn imm => storeBase rn (some imm)
  | _ => []

/-- `ADDR` plus the offset of an element. -/
def elemPtr (hostOff : ℕ) : List Instr :=
  [localGet addr] ++ if hostOff ≠ 0 then [i32Const (BitVec.ofNat 32 hostOff), i32Add] else []

/-- The load of one general register; both lowerings have one. -/
def elemLoad (hostOff size : ℕ) (signed wide : Bool) (rt : Reg) : List Instr :=
  (if rt ≠ 31 then [localGet regsBase] else []) ++ elemPtr hostOff ++ [loadOp size signed] ++
    (if signed && !wide then [i64Const wMask, i64And] else []) ++
    if rt = 31 then [drop] else [i64Store (xOff rt)]

/-- The store of one general register. -/
def elemStore (hostOff size : ℕ) (rt : Reg) : List Instr :=
  elemPtr hostOff ++ pushX rt ++ [storeOp size]

/-- The load of one vector register, with the bytes above the access zeroed. -/
def vecElemLoad (hostOff size : ℕ) (rt : Reg) : List Instr :=
  if size = 4 then
    [localGet regsBase] ++ elemPtr hostOff ++ [v128Load 0, v128Store (vOff rt)]
  else
    [localGet regsBase] ++ elemPtr hostOff ++
      [loadOp size false, i64Store (vOff rt), localGet regsBase, i64Const 0, i64Store (vOff rt + 8)]

/-- The store of the low bytes of one vector register. -/
def vecElemStore (hostOff size : ℕ) (rt : Reg) : List Instr :=
  elemPtr hostOff ++
    if size = 4 then [localGet regsBase, v128Load (vOff rt), v128Store 0]
    else [localGet regsBase, i64Load (vOff rt), storeOp size]

/-- `int_load` (lines 235–248). -/
def intLoad (size : ℕ) (signed dst64 : Bool) (rt : Reg) : List Instr :=
  elemLoad 0 size signed dst64 rt

/-- `int_store` (lines 251–259). -/
def intStore (size : ℕ) (rt : Reg) : List Instr := elemStore 0 size rt

/-- `vec_load` (lines 263–272). -/
def vecLoad (size : ℕ) (rt : Reg) : List Instr := vecElemLoad 0 size rt

/-- `vec_store` (lines 275–281). -/
def vecStore (size : ℕ) (rt : Reg) : List Instr := vecElemStore 0 size rt

/-- The access of `lower_mem` on the fast path. -/
def memBody (size : ℕ) (isLoad signed dst64 vec : Bool) (rt : Reg) : List Instr :=
  match vec, isLoad with
  | false, true => intLoad size signed dst64 rt
  | false, false => intStore size rt
  | true, true => vecLoad size rt
  | true, false => vecStore size rt

/-- `lower_mem` (lines 161–232): `none` is `false`. -/
def lowerMem (L : Layout) (insn : Insn) (site : Site) : Option (List Instr) :=
  match insn with
  | .loadStore size isLoad signed dst64 vec unpriv rt mode =>
    if unpriv ∨ size > (if vec then 4 else 3) then none
    else
      (memAddress mode).map fun address =>
        address ++ fastPath L (1 <<< size) (!isLoad) site
          (memBody size isLoad signed dst64 vec rt ++ memWriteback mode)
  | _ => none

/-- `inline_pair_load` (lines 391–408). -/
def inlinePairLoad (hostOff size : ℕ) (signed wide : Bool) (rt : Reg) : List Instr :=
  elemLoad hostOff size signed wide rt

/-- `inline_pair_store` (lines 447–458). -/
def inlinePairStore (hostOff size : ℕ) (rt : Reg) : List Instr := elemStore hostOff size rt

/-- `inline_vec_pair_load` (lines 413–429). -/
def inlineVecPairLoad (hostOff size : ℕ) (rt : Reg) : List Instr := vecElemLoad hostOff size rt

/-- `inline_vec_pair_store` (lines 433–444). -/
def inlineVecPairStore (hostOff size : ℕ) (rt : Reg) : List Instr := vecElemStore hostOff size rt

/-- The log2 of the element size of a pair (lines 338–342). -/
def pairSize (width8 vec : Bool) (vesize : ℕ) : ℕ := if vec then vesize else if width8 then 3 else 2

/-- The displacement of the address of a pair (lines 345–348). -/
def pairDisp (offset : BitVec 64) (index : PairIndex) : BitVec 64 :=
  match index with
  | .post => 0
  | .offset | .pre => offset

/-- The address of a pair, into `T0` (lines 351–356). -/
def pairAddress (rn : Reg) (disp : BitVec 64) : List Instr :=
  pushBaseReg rn ++ (if disp ≠ 0 then [i64Const disp, i64Add] else []) ++ [localSet t0]

/-- The two accesses of `lower_mem_pair` on the fast path (lines 360–377). -/
def pairBody (size : ℕ) (isLoad signed wide vec : Bool) (rt rt2 : Reg) : List Instr :=
  let esize := 1 <<< size
  match vec, isLoad with
  | false, true => inlinePairLoad 0 size signed wide rt ++ inlinePairLoad esize size signed wide rt2
  | false, false => inlinePairStore 0 size rt ++ inlinePairStore esize size rt2
  | true, true => inlineVecPairLoad 0 size rt ++ inlineVecPairLoad esize size rt2
  | true, false => inlineVecPairStore 0 size rt ++ inlineVecPairStore esize size rt2

/-- The writeback of a pair. -/
def pairStoreBase (rn : Reg) (offset : BitVec 64) (index : PairIndex) : List Instr :=
  match index with
  | .offset => []
  | .pre => storeBase rn none
  | .post => storeBase rn (some offset)

/-- `lower_mem_pair` (lines 321–388): `none` is `false`. -/
def lowerMemPair (L : Layout) (insn : Insn) (site : Site) : Option (List Instr) :=
  match insn with
  | .loadStorePair isLoad signed width8 vec vesize rt rt2 rn offset index =>
    let size := pairSize width8 vec vesize
    some (pairAddress rn (pairDisp offset index) ++
      fastPath L (2 * 1 <<< size) (!isLoad) site
        (pairBody size isLoad signed (width8 || signed) vec rt rt2 ++
          pairStoreBase rn offset index))
  | _ => none

/-- The loads and stores of `emit_body` (`emit.rs`, lines 127–144), by their predicates. -/
def lowerLoadStore (L : Layout) (insn : Insn) (site : Site) : Option (List Instr) :=
  if isInlineLoadStore insn then lowerMem L insn site else lowerMemPair L insn site

/-! ## One element -/

section Element

variable {D : Type} {L : Layout} {stale : Flags} {bus : Bus D} {cpu : CpuState} {fuel : ℕ}
  {st : List Val} {l : ℕ → Val} {is : List Instr} {c : BitVec 32} {o hostOff size : ℕ}

/-- `ADDR` points `o` bytes into RAM, and the element at `hostOff` from it lies in RAM. -/
structure ElemOk (L : Layout) (bus : Bus D) (l : ℕ → Val) (o hostOff size : ℕ) : Prop where
  ready : Ready L bus.ram.size.toNat l
  addr : ∃ c : BitVec 32, l 10 = .i32 c ∧ c.toNat = L.ramBase.toNat + o
  inRam : o + hostOff + 1 <<< size ≤ bus.ram.size.toNat

theorem exec_elemPtr (h : ElemOk L bus l o hostOff size) (fuel : ℕ) (st : List Val)
    (m : HostMem D) :
    ∃ c : BitVec 32, c.toNat = L.ramBase.toNat + (o + hostOff) ∧
      exec fuel (elemPtr hostOff) ⟨st, l, m⟩ = .next ⟨.i32 c :: st, l, m⟩ := by
  obtain ⟨c, hl, hc⟩ := h.addr
  have hin := h.inRam
  have hlt := h.ready.wf.ram_lt
  have hpos : 0 < 1 <<< size := by
    rw [Nat.one_shiftLeft]
    exact Nat.two_pow_pos size
  unfold elemPtr
  split_ifs with hoff
  · refine ⟨c + BitVec.ofNat 32 hostOff, ?_, ?_⟩
    · rw [BitVec.toNat_add, BitVec.toNat_ofNat]
      omega
    · simp [hl]
  · rw [not_not] at hoff
    subst hoff
    exact ⟨c, hc, by simp [hl]⟩

/-- The value of a loaded element. -/
def elemValue (bus : Bus D) (o size : ℕ) (signed : Bool) : BitVec 64 :=
  if signed then signExtendLoad (oldValue bus o size) size else oldValue bus o size

/-- The sign extension of the load instruction is that of the interpreter. -/
theorem extendLoad_eq (hsize : size ≤ 3) (signed : Bool) (raw : BitVec 64) :
    extendLoad (1 <<< size) signed raw = if signed then signExtendLoad raw size else raw := by
  cases signed with
  | false => rfl
  | true =>
    have hbits : 8 * 1 <<< size = 8 <<< size := by
      rw [Nat.one_shiftLeft, Nat.shiftLeft_eq]
    have hpos : 0 < 8 <<< size := by
      rw [Nat.shiftLeft_eq]
      exact Nat.mul_pos (by decide) (Nat.two_pow_pos size)
    have hle : 8 <<< size ≤ 64 := by
      obtain rfl | rfl | rfl | rfl : size = 0 ∨ size = 1 ∨ size = 2 ∨ size = 3 := by omega
      all_goals decide
    show (raw.setWidth (8 * 1 <<< size)).signExtend 64 = _
    rw [hbits, Words.signExtend_setWidth raw hpos hle, if_pos rfl]
    rfl

/-- The mask of a W register has been applied where the executor applies it. -/
theorem writeResult_elemValue (cpu : CpuState) (bus : Bus D) (o : ℕ) {signed wide : Bool}
    (hwide : signed = false → wide = false → size ≤ 2) (rt : Reg) :
    writeResult cpu wide rt (elemValue bus o size signed) =
      cpu.writeGpr rt false (if signed && !wide then elemValue bus o size signed &&& wMask
        else elemValue bus o size signed) := by
  cases wide with
  | true =>
    rw [Bool.not_true, Bool.and_false, if_neg Bool.false_ne_true]
    rfl
  | false =>
    cases signed with
    | true => rfl
    | false =>
      have hsize : size ≤ 2 := hwide rfl rfl
      have hbytes : 8 * 1 <<< size ≤ 32 := by
        obtain rfl | rfl | rfl : size = 0 ∨ size = 1 ∨ size = 2 := by omega
        all_goals decide
      have hnarrow : oldValue bus o size &&& 0xffffffff#64 = oldValue bus o size := by
        rw [Words.and_mask]
        exact setWidth_setWidth_loadLe (by decide) hbytes _ _
      show cpu.writeGpr rt false (oldValue bus o size &&& 0xffffffff#64) = _
      rw [hnarrow]
      rfl

theorem exec_elemLoad (h : ElemOk L bus l o hostOff size) (hsize : size ≤ 3) {signed wide : Bool}
    (hwide : signed = false → wide = false → size ≤ 2) (rt : Reg) :
    exec fuel (elemLoad hostOff size signed wide rt) ⟨st, l, host L stale bus cpu⟩ =
      .next ⟨st, l, host L stale bus
        (writeResult cpu wide rt (elemValue bus (o + hostOff) size signed))⟩ := by
  have hin : o + hostOff + 1 <<< size ≤ bus.ram.size.toNat := h.inRam
  have hload (st : List Val) : exec fuel (elemPtr hostOff ++ [loadOp size signed])
      ⟨st, l, host L stale bus cpu⟩ =
      .next ⟨.i64 (elemValue bus (o + hostOff) size signed) :: st, l, host L stale bus cpu⟩ := by
    obtain ⟨c, hc, hptr⟩ := exec_elemPtr h fuel st (host L stale bus cpu)
    rw [exec_append, hptr, Outcome.bind_next, exec_loadOp h.ready.wf hc hsize hin, exec_nil,
      extendLoad_eq hsize]
    rfl
  have hmask (st : List Val) (v : BitVec 64) (m : HostMem D) :
      exec fuel (if signed && !wide then [i64Const wMask, i64And] else []) ⟨.i64 v :: st, l, m⟩ =
        .next ⟨.i64 (if signed && !wide then v &&& wMask else v) :: st, l, m⟩ := by
    split_ifs
    · simp
    · simp
  rw [writeResult_elemValue cpu bus _ hwide rt]
  unfold elemLoad
  rw [List.append_assoc _ (elemPtr hostOff), exec_append, exec_append, exec_append]
  by_cases hrt : rt = 31
  · subst hrt
    rw [if_neg (not_not.mpr rfl), exec_nil, Outcome.bind_next, hload, Outcome.bind_next, hmask,
      Outcome.bind_next, if_pos rfl, exec_drop, exec_nil, writeGpr_zr]
  · rw [if_pos hrt, exec_localGet, h.ready.regs, exec_nil, Outcome.bind_next, hload,
      Outcome.bind_next, hmask, Outcome.bind_next, if_neg hrt, exec_storeGpr h.ready.wf, exec_nil,
      writeGpr_true_of_ne hrt false]

theorem exec_elemStore (h : ElemOk L bus l o hostOff size) (hsize : size ≤ 3) (rt : Reg) :
    exec fuel (elemStore hostOff size rt) ⟨st, l, host L stale bus cpu⟩ =
      .next ⟨st, l, host L stale (Guest.setRam ⟨cpu, bus⟩
        (Bytes.storeLe bus.ram.bytes (o + hostOff) (1 <<< size) (cpu.readGpr rt false))).mem
        cpu⟩ := by
  obtain ⟨c, hc, hptr⟩ := exec_elemPtr h fuel st (host L stale bus cpu)
  have hin : o + hostOff + 1 <<< size ≤ bus.ram.size.toNat := h.inRam
  have hpush : exec fuel (pushX rt) ⟨.i32 c :: st, l, host L stale bus cpu⟩ =
      .next ⟨.i64 (cpu.readGpr rt false) :: .i32 c :: st, l, host L stale bus cpu⟩ :=
    exec_pushX h.ready rt
  unfold elemStore
  rw [exec_append, exec_append, hptr, Outcome.bind_next, hpush, Outcome.bind_next,
    exec_storeOp h.ready.wf hc hsize hin, exec_nil]

/-- A 16-byte load from RAM. -/
theorem load128_ram (h : L.Wf bus.ram.size.toNat) {c : BitVec 32} {o : ℕ}
    (hc : c.toNat = L.ramBase.toNat + o) (hin : o + 16 ≤ bus.ram.size.toNat) :
    load128 (host L stale bus cpu) (c.toNat + 0) =
      some (.v128 (Bytes.loadLe 128 bus.ram.bytes o 16)) := by
  have hlow : LinearMemory.load (host L stale bus cpu) (L.ramBase.toNat + o) 8 =
      some (Bytes.loadLe 64 bus.ram.bytes o 8) :=
    HostMem.load_ram (host_wf h) (by decide) (Nat.le_trans (by omega) hin)
  have hhigh : LinearMemory.load (host L stale bus cpu) (L.ramBase.toNat + (o + 8)) 8 =
      some (Bytes.loadLe 64 bus.ram.bytes (o + 8) 8) :=
    HostMem.load_ram (host_wf h) (by decide) (Nat.le_trans (by omega) hin)
  rw [load128, Nat.add_zero, hc, hlow, Nat.add_assoc, hhigh]
  exact congrArg (fun v => some (Val.v128 v)) (Bytes.loadLe_append_loadLe _ _)

/-- A 16-byte store to RAM. -/
theorem store128_ram (h : L.Wf bus.ram.size.toNat) {c : BitVec 32} {o : ℕ}
    (hc : c.toNat = L.ramBase.toNat + o) (hin : o + 16 ≤ bus.ram.size.toNat) (v : BitVec 128) :
    store128 (host L stale bus cpu) (c.toNat + 0) v =
      some (host L stale
        (Guest.setRam ⟨cpu, bus⟩ (Bytes.storeLe bus.ram.bytes o 16 v)).mem cpu) := by
  have hlow : LinearMemory.store (host L stale bus cpu) (L.ramBase.toNat + o) 8 (v.setWidth 64) =
      some (host L stale (Guest.setRam ⟨cpu, bus⟩
        (Bytes.storeLe bus.ram.bytes o 8 (v.setWidth 64))).mem cpu) :=
    HostMem.store_ram (host_wf h) (by decide) (Nat.le_trans (by omega) hin) _
  have hhigh (bytes : ℕ → BitVec 8) :
      LinearMemory.store (host L stale (Guest.setRam ⟨cpu, bus⟩ bytes).mem cpu)
        (L.ramBase.toNat + (o + 8)) 8 ((v >>> 64).setWidth 64) =
      some (host L stale (Guest.setRam ⟨cpu, bus⟩
        (Bytes.storeLe bytes (o + 8) 8 ((v >>> 64).setWidth 64))).mem cpu) := by
    have hwf : (host L stale (Guest.setRam ⟨cpu, bus⟩ bytes).mem cpu).Wf := h
    have hend : o + 8 + 8 ≤ bus.ram.size.toNat := hin
    exact HostMem.store_ram hwf (by decide) hend _
  have hfirst : Bytes.storeLe bus.ram.bytes o 8 (v.setWidth 64) =
      Bytes.storeLe bus.ram.bytes o 8 v := by
    apply Bytes.storeLe_congr
    intro k hk
    simp [hk]
  have hsecond (bytes : ℕ → BitVec 8) :
      Bytes.storeLe bytes (o + 8) 8 ((v >>> 64).setWidth 64) =
        Bytes.storeLe bytes (o + 8) 8 (v >>> (8 * 8)) := by
    apply Bytes.storeLe_congr
    intro k hk
    simp [hk]
  have hboth : Bytes.storeLe (Bytes.storeLe bus.ram.bytes o 8 (v.setWidth 64)) (o + 8) 8
      ((v >>> 64).setWidth 64) = Bytes.storeLe bus.ram.bytes o 16 v := by
    rw [hfirst, hsecond]
    exact Bytes.storeLe_storeLe_append _ _ _ _ _
  rw [store128, Nat.add_zero, hc, hlow, Nat.add_assoc, ← hboth]
  exact hhigh _

/-- The state after a load to a vector register. -/
def vecLoaded (cpu : CpuState) (bus : Bus D) (o size : ℕ) (rt : Reg) : CpuState :=
  { cpu with v := Function.update cpu.v rt (Bytes.loadLe 128 bus.ram.bytes o (1 <<< size)) }

theorem exec_vecElemLoad (h : ElemOk L bus l o hostOff size) (hsize : size ≤ 4) (rt : Reg) :
    exec fuel (vecElemLoad hostOff size rt) ⟨st, l, host L stale bus cpu⟩ =
      .next ⟨st, l, host L stale bus (vecLoaded cpu bus (o + hostOff) size rt)⟩ := by
  obtain ⟨c, hc, hptr⟩ := exec_elemPtr h fuel (.i32 L.regsBase :: st)
    (host L stale bus cpu)
  have hin : o + hostOff + 1 <<< size ≤ bus.ram.size.toNat := h.inRam
  unfold vecElemLoad
  split_ifs with h4
  · subst h4
    rw [exec_append, exec_append, exec_localGet, h.ready.regs, exec_nil, Outcome.bind_next, hptr,
      Outcome.bind_next, exec_v128Load (load128_ram h.ready.wf hc hin), exec_storeV h.ready.wf,
      exec_nil]
    rfl
  · have hsize' : size ≤ 3 := by omega
    have hbytes : 8 * 1 <<< size ≤ 64 := by
      obtain rfl | rfl | rfl | rfl : size = 0 ∨ size = 1 ∨ size = 2 ∨ size = 3 := by omega
      all_goals decide
    have hzero : (0 : BitVec 64) ++ Bytes.loadLe 64 bus.ram.bytes (o + hostOff) (1 <<< size) =
        Bytes.loadLe 128 bus.ram.bytes (o + hostOff) (1 <<< size) := by
      have hle : 64 ≤ 128 := by decide
      exact (BitVec.setWidth_eq_append hle).symm.trans (Bytes.setWidth_loadLe _ _ _ (.inr hbytes))
    rw [exec_append, exec_append, exec_localGet, h.ready.regs, exec_nil, Outcome.bind_next, hptr,
      Outcome.bind_next, exec_loadOp h.ready.wf hc hsize' hin, exec_storeVHalves h.ready, exec_nil,
      extendLoad_eq hsize', if_neg Bool.false_ne_true, hzero]
    rfl

theorem exec_vecElemStore (h : ElemOk L bus l o hostOff size) (hsize : size ≤ 4) (rt : Reg) :
    exec fuel (vecElemStore hostOff size rt) ⟨st, l, host L stale bus cpu⟩ =
      .next ⟨st, l, host L stale (Guest.setRam ⟨cpu, bus⟩
        (Bytes.storeLe bus.ram.bytes (o + hostOff) (1 <<< size) (cpu.v rt))).mem cpu⟩ := by
  obtain ⟨c, hc, hptr⟩ := exec_elemPtr h fuel st (host L stale bus cpu)
  have hin : o + hostOff + 1 <<< size ≤ bus.ram.size.toNat := h.inRam
  unfold vecElemStore
  rw [exec_append, hptr, Outcome.bind_next]
  split_ifs with h4
  · subst h4
    rw [exec_localGet, h.ready.regs, exec_loadV h.ready.wf,
      exec_v128Store (store128_ram h.ready.wf hc hin _), exec_nil]
    rfl
  · have hsize' : size ≤ 3 := by omega
    have hlow : Bytes.storeLe bus.ram.bytes (o + hostOff) (1 <<< size) ((cpu.v rt).setWidth 64) =
        Bytes.storeLe bus.ram.bytes (o + hostOff) (1 <<< size) (cpu.v rt) := by
      have hbytes : 8 * 1 <<< size ≤ 64 := by
        obtain rfl | rfl | rfl | rfl : size = 0 ∨ size = 1 ∨ size = 2 ∨ size = 3 := by omega
        all_goals decide
      apply Bytes.storeLe_congr
      intro k hk
      rw [BitVec.getLsbD_setWidth, decide_eq_true (Nat.lt_of_lt_of_le hk hbytes), Bool.true_and]
    rw [exec_localGet, h.ready.regs, exec_loadVLow h.ready.wf,
      exec_storeOp h.ready.wf hc hsize' hin, exec_nil, hlow]

end Element

/-! ## Addresses and writebacks -/

section Address

variable {D : Type} {L : Layout} {stale : Flags} {bus : Bus D} {cpu : CpuState} {fuel : ℕ}
  {st : List Val} {l : ℕ → Val} {va : BitVec 64}

theorem exec_pushBaseReg (h : Ready L bus.ram.size.toNat l) (rn : Reg) :
    exec fuel (pushBaseReg rn) ⟨st, l, host L stale bus cpu⟩ =
      .next ⟨.i64 (cpu.readGpr rn true) :: st, l, host L stale bus cpu⟩ := by
  unfold pushBaseReg
  rw [exec_localGet, h.regs, gprOff_eq, exec_loadGpr h.wf, exec_nil]

/-- The extends that are compiled are those of an extended-register operand. -/
theorem extendOffset_eq (cpu : CpuState) (rm : Reg) {option : ℕ}
    (hoption : option = 2 ∨ option = 3 ∨ option = 6 ∨ option = 7) (shift : ℕ) :
    extendOffset cpu rm option shift = extendReg cpu rm option shift := by
  unfold extendOffset extendReg
  generalize cpu.readGpr rm false = v
  obtain rfl | rfl | rfl | rfl := hoption
  · have hval : extendVal v 2 = (v.setWidth 32).setWidth 64 := Words.and_mask v
    rw [hval]
    rfl
  · rfl
  · have hshifts : ((v &&& 0xffffffff#64).setWidth 32).signExtend 64 = extendVal v 6 :=
      Words.signExtend_setWidth (v &&& 0xffffffff#64) (by decide) (by decide)
    rw [Words.setWidth_and_mask] at hshifts
    rw [← hshifts]
    rfl
  · rfl

theorem exec_memAddress (h : Ready L bus.ram.size.toNat l) {mode : AddrMode} {code : List Instr}
    (hcode : memAddress mode = some code)
    (hshift : ∀ rn rm option shift, mode = .regOffset rn rm option shift → shift < 64)
    (pc : BitVec 64) :
    exec fuel code ⟨st, l, host L stale bus cpu⟩ =
      .next ⟨st, Function.update l t0 (.i64 (effectiveAddress cpu mode pc).1),
        host L stale bus cpu⟩ := by
  have hbase (rn : Reg) : exec fuel (pushBaseReg rn) ⟨st, l, host L stale bus cpu⟩ =
      .next ⟨.i64 (cpu.readGpr rn true) :: st, l, host L stale bus cpu⟩ := exec_pushBaseReg h rn
  have himm (rn : Reg) (imm : BitVec 64) :
      exec fuel (pushBaseReg rn ++ [i64Const imm, i64Add, localSet t0])
        ⟨st, l, host L stale bus cpu⟩ =
      .next ⟨st, Function.update l t0 (.i64 (cpu.readGpr rn true + imm)),
        host L stale bus cpu⟩ := by
    rw [exec_append, hbase, Outcome.bind_next, exec_i64Const, exec_i64Add, exec_localSet, exec_nil]
  cases mode with
  | unsignedImm rn imm =>
    cases hcode
    exact himm rn imm
  | unscaled rn imm =>
    cases hcode
    exact himm rn imm
  | preIndex rn imm =>
    cases hcode
    exact himm rn imm
  | postIndex rn imm =>
    cases hcode
    rw [exec_append, hbase, Outcome.bind_next, exec_localSet, exec_nil]
    rfl
  | regOffset rn rm option shift =>
    unfold memAddress at hcode
    dsimp only at hcode
    split_ifs at hcode with hoption
    cases hcode
    rw [exec_append, exec_append, hbase, Outcome.bind_next,
      exec_pushExt h rm option (hshift rn rm option shift rfl), Outcome.bind_next, exec_i64Add,
      exec_localSet, exec_nil, ← extendOffset_eq cpu rm hoption]
    rfl
  | literal offset => cases hcode

/-- A base register after its writeback, if there is one. -/
def writtenBack (cpu : CpuState) (writeback : Option (Reg × BitVec 64)) : CpuState :=
  match writeback with
  | some (rn, newBase) => cpu.writeGpr rn true newBase
  | none => cpu

theorem exec_storeBase (h : Ready L bus.ram.size.toNat l) (hva : l 2 = .i64 va) (rn : Reg)
    (post : Option (BitVec 64)) :
    exec fuel (storeBase rn post) ⟨st, l, host L stale bus cpu⟩ =
      .next ⟨st, l, host L stale bus (cpu.writeGpr rn true (va + post.getD 0))⟩ := by
  unfold storeBase
  rw [gprOff_eq]
  cases post with
  | none => simp [h.regs, h.wf, hva]
  | some imm => simp [h.regs, h.wf, hva]

theorem exec_memWriteback (h : Ready L bus.ram.size.toNat l) (cpu cpu' : CpuState)
    (mode : AddrMode) (pc : BitVec 64) (hva : l 2 = .i64 (effectiveAddress cpu mode pc).1) :
    exec fuel (memWriteback mode) ⟨st, l, host L stale bus cpu'⟩ =
      .next ⟨st, l, host L stale bus (writtenBack cpu' (effectiveAddress cpu mode pc).2)⟩ := by
  cases mode with
  | preIndex rn imm =>
    refine (exec_storeBase h hva rn none).trans ?_
    rw [Option.getD_none, show (0 : BitVec 64) = 0#64 from rfl, BitVec.add_zero]
    rfl
  | postIndex rn imm => exact exec_storeBase h hva rn (some imm)
  | _ => exact exec_nil _

end Address

/-! ## The executors on a hit -/

section Hit

variable {D : Type} [MmioDevice D] {L : Layout} {bus : Bus D} {cpu : CpuState} {l : ℕ → Val}
  {size o : ℕ} {pa va : BitVec 64} {perms : BitVec 8}

/-- What `ldst::exec` leaves of the access on a hit. -/
def memResult (bus : Bus D) (cpu : CpuState) (size : ℕ) (isLoad signed dst64 vec : Bool) (rt : Reg)
    (o : ℕ) : Guest (Bus D) :=
  match vec, isLoad with
  | false, true => ⟨writeResult cpu dst64 rt (elemValue bus o size signed), bus⟩
  | false, false =>
    Guest.setRam ⟨cpu, bus⟩ (Bytes.storeLe bus.ram.bytes o (1 <<< size) (cpu.readGpr rt false))
  | true, true => ⟨vecLoaded cpu bus o size rt, bus⟩
  | true, false => Guest.setRam ⟨cpu, bus⟩ (Bytes.storeLe bus.ram.bytes o (1 <<< size) (cpu.v rt))

/-- The guest after the writeback of its base register. -/
def withBase (g : Guest (Bus D)) (writeback : Option (Reg × BitVec 64)) : Guest (Bus D) :=
  { g with cpu := writtenBack g.cpu writeback }

omit [MmioDevice D] in
theorem writebackBase_eq {g : Guest (Bus D)} (h : g.cpu.pendingAbort = none)
    (writeback : Option (Reg × BitVec 64)) : writebackBase g writeback = withBase g writeback := by
  have hok : g.aborted = false := aborted_eq_false g.mem h
  unfold writebackBase
  rw [hok, if_neg Bool.false_ne_true]
  cases writeback <;> rfl

theorem writeResult_pendingAbort (cpu : CpuState) (dst64 : Bool) (rt : Reg) (v : BitVec 64) :
    (writeResult cpu dst64 rt v).pendingAbort = cpu.pendingAbort := by
  unfold writeResult CpuState.writeGprW
  split_ifs
  · exact pendingAbort_writeGpr _ _ _ _
  · exact pendingAbort_writeGpr _ _ _ _

theorem loadStore_of_hit (hno : cpu.pendingAbort = none) {isLoad vec : Bool}
    (hsize : size ≤ if vec then 4 else 3) (signed dst64 : Bool) (rt : Reg) (mode : AddrMode)
    (pc : BitVec 64)
    (hon : OnFastPath L (⟨cpu, bus⟩ : Guest (Bus D)) (effectiveAddress cpu mode pc).1 (1 <<< size)
      (!isLoad) l pa perms) :
    loadStore (⟨cpu, bus⟩ : Guest (Bus D)) size isLoad signed dst64 vec false rt mode pc =
      withBase (memResult bus cpu size isLoad signed dst64 vec rt
          (ramOffset (⟨cpu, bus⟩ : Guest (Bus D)) pa (effectiveAddress cpu mode pc).1))
        (effectiveAddress cpu mode pc).2 := by
  have hok : (⟨cpu, bus⟩ : Guest (Bus D)).aborted = false := aborted_eq_false bus hno
  have hset (bytes : ℕ → BitVec 8) :
      (Guest.setRam (⟨cpu, bus⟩ : Guest (Bus D)) bytes).aborted = false := aborted_eq_false _ hno
  have hpos : 0 < 1 <<< size := by
    rw [Nat.one_shiftLeft]
    exact Nat.two_pow_pos size
  unfold loadStore
  generalize effectiveAddress cpu mode pc = ea at hon ⊢
  obtain ⟨va, writeback⟩ := ea
  dsimp only at hon ⊢
  cases vec with
  | true =>
    cases isLoad with
    | true =>
      have hread : MemAccess.readVec (⟨cpu, bus⟩ : Guest (Bus D)) va size = _ :=
        hon.hit.gather rfl hpos hon.span
      rw [if_pos rfl, if_pos rfl, hread]
      dsimp only
      rw [hok, if_neg Bool.false_ne_true]
      exact writebackBase_eq hno writeback
    | false =>
      have hwrite : MemAccess.writeVec (⟨cpu, bus⟩ : Guest (Bus D)) va size (cpu.v rt) = _ :=
        RamHit.scatter hon.hit rfl hpos hon.span (cpu.v rt)
      rw [if_pos rfl, if_neg Bool.false_ne_true, hwrite, hset, if_neg Bool.false_ne_true]
      exact writebackBase_eq hno writeback
  | false =>
    have hsize' : size ≤ 3 := hsize
    cases isLoad with
    | true =>
      have hread : MemAccess.read (⟨cpu, bus⟩ : Guest (Bus D)) va size =
          (oldValue bus (ramOffset (⟨cpu, bus⟩ : Guest (Bus D)) pa va) size, ⟨cpu, bus⟩) :=
        hon.read hsize'
      rw [if_neg Bool.false_ne_true, if_pos rfl, if_neg Bool.false_ne_true, hread]
      dsimp only
      rw [hok, if_neg Bool.false_ne_true]
      exact writebackBase_eq ((writeResult_pendingAbort _ _ _ _).trans hno) writeback
    | false =>
      have hwrite : MemAccess.write (⟨cpu, bus⟩ : Guest (Bus D)) va size (cpu.readGpr rt false) =
          _ := OnFastPath.write hon hsize' (cpu.readGpr rt false)
      rw [if_neg Bool.false_ne_true, if_neg Bool.false_ne_true, if_neg Bool.false_ne_true, hwrite,
        hset, if_neg Bool.false_ne_true]
      exact writebackBase_eq hno writeback

omit [MmioDevice D] in
theorem pendingAbort_withBase {g : Guest (Bus D)} (h : g.cpu.pendingAbort = none)
    (writeback : Option (Reg × BitVec 64)) : (withBase g writeback).cpu.pendingAbort = none := by
  cases writeback with
  | none => exact h
  | some wb => exact (pendingAbort_writeGpr _ _ _ _).trans h

omit [MmioDevice D] in
theorem pendingAbort_memResult (hno : cpu.pendingAbort = none) (bus : Bus D) (size : ℕ)
    (isLoad signed dst64 vec : Bool) (rt : Reg) (o : ℕ) :
    (memResult bus cpu size isLoad signed dst64 vec rt o).cpu.pendingAbort = none := by
  cases vec with
  | true => cases isLoad <;> exact hno
  | false =>
    cases isLoad with
    | true => exact (writeResult_pendingAbort _ _ _ _).trans hno
    | false => exact hno

/-! ## The code of an access -/

variable {stale : Flags} {site : Site} {base retired : BitVec 64}

omit [MmioDevice D] in
/-- An access whose body is straight-line code that touches no local. -/
theorem access_ends {address body : List Instr} {span : BitVec 64} {store : Bool}
    {g' : Guest (Bus D)} (h : Ready L bus.ram.size.toNat l)
    (hsite : SiteOk site bus l base retired) (hg : RunState (⟨cpu, bus⟩ : Guest (Bus D)))
    (hpos : 0 < span.toNat) (hspan : span.toNat ≤ 4096)
    (haddress : ∀ fuel st, exec fuel address ⟨st, l, host L stale bus cpu⟩ =
      .next ⟨st, Function.update l t0 (.i64 va), host L stale bus cpu⟩)
    (hbody : ∀ fuel l' pa perms, Ready L bus.ram.size.toNat l' →
      OnFastPath L (⟨cpu, bus⟩ : Guest (Bus D)) va span.toNat store l' pa perms →
      exec fuel body ⟨[], l', host L stale bus cpu⟩ =
        .next ⟨[], l', host L stale g'.mem g'.cpu⟩ ∧ g'.cpu.pendingAbort = none) :
    EmitsOrBails L stale bus l (address ++ fastPath L span store site body) cpu site base retired
      g' := by
  intro fuel st
  have hkeeps : Keeps l (Function.update l t0 (.i64 va)) := (keeps_update rfl).mpr (keeps_refl l)
  have hva : Function.update l t0 (.i64 va) 2 = .i64 va := Function.update_self ..
  have hfast : EmitsOrBails L stale bus (Function.update l t0 (.i64 va))
      (fastPath L span store site body) cpu site base retired g' := by
    refine fastPath_ends (hkeeps.ready h) (hsite.keeps hkeeps) hg hva hpos hspan ?_
    intro fuel l' pa perms hl' hon
    obtain ⟨hexec, hno⟩ := hbody fuel l' pa perms hl' hon
    rw [hexec]
    exact ⟨keeps_refl l', rfl, hno⟩
  rw [exec_append, haddress, Outcome.bind_next]
  exact (hfast fuel st).mono (fun s hs => ⟨hs.1, hkeeps.trans hs.2.1, hs.2.2⟩) fun _ hs => hs

omit [MmioDevice D] in
theorem exec_memBody (h : ElemOk L bus l o 0 size) {isLoad signed dst64 vec : Bool}
    (hsize : size ≤ if vec then 4 else 3) (hdst : vec = false → size = 3 → dst64 = true)
    (fuel : ℕ) (st : List Val) (rt : Reg) :
    exec fuel (memBody size isLoad signed dst64 vec rt) ⟨st, l, host L stale bus cpu⟩ =
      .next ⟨st, l, host L stale (memResult bus cpu size isLoad signed dst64 vec rt o).mem
        (memResult bus cpu size isLoad signed dst64 vec rt o).cpu⟩ := by
  cases vec with
  | true =>
    cases isLoad with
    | true => exact exec_vecElemLoad h hsize rt
    | false => exact exec_vecElemStore h hsize rt
  | false =>
    have hsize' : size ≤ 3 := hsize
    cases isLoad with
    | true =>
      refine exec_elemLoad h hsize' (fun _ hd => ?_) rt
      by_contra hgt
      have h3 : size = 3 := by omega
      rw [hdst rfl h3] at hd
      exact Bool.noConfusion hd
    | false => exact exec_elemStore h hsize' rt

omit [MmioDevice D] in
theorem size_memResult (bus : Bus D) (cpu : CpuState) (size : ℕ) (isLoad signed dst64 vec : Bool)
    (rt : Reg) (o : ℕ) :
    (memResult bus cpu size isLoad signed dst64 vec rt o).mem.ram.size = bus.ram.size := by
  cases vec <;> cases isLoad <;> rfl

/-- The bytes of a width, as the constant of the code. -/
theorem toNat_span {size : ℕ} (h : size ≤ 4) : (1 <<< size : BitVec 64).toNat = 1 <<< size := by
  obtain rfl | rfl | rfl | rfl | rfl : size = 0 ∨ size = 1 ∨ size = 2 ∨ size = 3 ∨ size = 4 := by
    omega
  all_goals rfl

theorem span_pos {size : ℕ} (h : size ≤ 4) :
    0 < (1 <<< size : BitVec 64).toNat ∧ (1 <<< size : BitVec 64).toNat ≤ 4096 := by
  rw [toNat_span h]
  obtain rfl | rfl | rfl | rfl | rfl : size = 0 ∨ size = 1 ∨ size = 2 ∨ size = 3 ∨ size = 4 := by
    omega
  all_goals decide

/-- The addressing modes that are compiled have an address. -/
theorem memAddress_isSome {size : ℕ} {isLoad signed dst64 vec unpriv : Bool} {rt : Reg}
    {mode : AddrMode}
    (h : isInlineLoadStore (.loadStore size isLoad signed dst64 vec unpriv rt mode) = true) :
    unpriv = false ∧ size ≤ (if vec then 4 else 3) ∧ ∃ code, memAddress mode = some code := by
  unfold isInlineLoadStore at h
  dsimp only at h
  generalize (if vec then 4 else 3) = most at h ⊢
  split_ifs at h with hunpriv hsize
  refine ⟨Bool.eq_false_of_not_eq_true hunpriv, Nat.le_of_not_lt hsize, ?_⟩
  cases mode with
  | regOffset rn rm option shift =>
    have hoption : option = 2 ∨ option = 3 ∨ option = 6 ∨ option = 7 := by simpa [or_assoc] using h
    exact ⟨_, if_pos hoption⟩
  | literal offset => exact Bool.noConfusion h
  | _ => exact ⟨_, rfl⟩

/-- A load or store of one register. -/
theorem lowerMem_ends {size : ℕ} {isLoad signed dst64 vec unpriv : Bool} {rt : Reg}
    {mode : AddrMode}
    (hfields : FieldsOk (.loadStore size isLoad signed dst64 vec unpriv rt mode))
    (hinline : isInlineLoadStore (.loadStore size isLoad signed dst64 vec unpriv rt mode) = true)
    (h : Ready L bus.ram.size.toNat l) (hsite : SiteOk site bus l base retired)
    (hg : RunState (⟨cpu, bus⟩ : Guest (Bus D))) :
    ∃ code, lowerMem L (.loadStore size isLoad signed dst64 vec unpriv rt mode) site = some code ∧
      EmitsOrBails L stale bus l code cpu site base retired
        (loadStore (⟨cpu, bus⟩ : Guest (Bus D)) size isLoad signed dst64 vec unpriv rt mode
          (site.at base)) := by
  obtain ⟨hunpriv, hsize, address, haddress⟩ := memAddress_isSome hinline
  obtain ⟨-, hdst, hshift⟩ := hfields
  subst hunpriv
  have hsize4 : size ≤ 4 := by
    cases vec
    · exact Nat.le_succ_of_le hsize
    · exact hsize
  have hlower : lowerMem L (.loadStore size isLoad signed dst64 vec false rt mode) site =
      some (address ++ fastPath L (1 <<< size) (!isLoad) site
        (memBody size isLoad signed dst64 vec rt ++ memWriteback mode)) := by
    unfold lowerMem
    dsimp only
    rw [if_neg (by rw [not_or]; exact ⟨Bool.false_ne_true, Nat.not_lt.mpr hsize⟩), haddress]
    rfl
  have hshift64 : ∀ rn rm option shift, mode = .regOffset rn rm option shift → shift < 64 := by
    intro rn rm option shift hmode
    obtain hzero | heq := hshift rn rm option shift hmode
    · omega
    · omega
  refine ⟨_, hlower, access_ends h hsite hg (span_pos hsize4).1 (span_pos hsize4).2
    (fun fuel st => exec_memAddress h haddress hshift64 (site.at base)) ?_⟩
  intro fuel l' pa perms hl' hon
  rw [toNat_span hsize4] at hon
  rw [loadStore_of_hit hg.noAbort hsize signed dst64 rt mode (site.at base) hon]
  have hin := hon.toNat_add_le (Nat.le_refl (1 <<< size))
  have hva := hon.t0
  have haddr := hon.addr
  generalize ramOffset (⟨cpu, bus⟩ : Guest (Bus D)) pa
    (effectiveAddress cpu mode (site.at base)).1 = o at hin haddr ⊢
  have helem : ElemOk L bus l' o 0 size := ⟨hl', haddr, hin⟩
  have hready : Ready L
      (memResult bus cpu size isLoad signed dst64 vec rt o).mem.ram.size.toNat l' := by
    rw [size_memResult]
    exact hl'
  refine ⟨?_, pendingAbort_withBase (pendingAbort_memResult hg.noAbort bus size isLoad signed dst64
    vec rt o) _⟩
  rw [exec_append, exec_memBody helem hsize hdst, Outcome.bind_next,
    exec_memWriteback hready cpu _ mode (site.at base) hva]
  rfl

/-! ## Pairs -/

/-- What `ldst::pair::exec` leaves of the accesses on a hit. -/
def pairResult (bus : Bus D) (cpu : CpuState) (size : ℕ) (isLoad signed wide vec : Bool)
    (rt rt2 : Reg) (o : ℕ) : Guest (Bus D) :=
  let n := 1 <<< size
  let bytes := bus.ram.bytes
  match vec, isLoad with
  | false, true =>
    ⟨writeResult (writeResult cpu wide rt (elemValue bus o size signed)) wide rt2
      (elemValue bus (o + n) size signed), bus⟩
  | false, false =>
    Guest.setRam ⟨cpu, bus⟩
      (Bytes.storeLe (Bytes.storeLe bytes o n (cpu.readGpr rt false)) (o + n) n
        (cpu.readGpr rt2 false))
  | true, true => ⟨vecLoaded (vecLoaded cpu bus o size rt) bus (o + n) size rt2, bus⟩
  | true, false =>
    Guest.setRam ⟨cpu, bus⟩ (Bytes.storeLe (Bytes.storeLe bytes o n (cpu.v rt)) (o + n) n
      (cpu.v rt2))

/-- The address of the second element of a pair whose elements lie in one page. -/
structure SecondOk (g : Guest (Bus D)) (pa va step : BitVec 64) (size : ℕ) : Prop where
  page : pageOf (va + step) = pageOf va
  span : ((va + step) &&& 0xfff).toNat + 1 <<< size ≤ 4096
  offset : ramOffset g pa (va + step) = ramOffset g pa va + 1 <<< size

omit [MmioDevice D] in
theorem secondOk {g : Guest (Bus D)} {step : BitVec 64} (hstep : step.toNat = 1 <<< size)
    (hspan : (va &&& 0xfff).toNat + 2 * 1 <<< size ≤ 4096) : SecondOk g pa va step size := by
  have hpos : 0 < 1 <<< size := by
    rw [Nat.one_shiftLeft]
    exact Nat.two_pow_pos size
  have hlt : (va &&& 0xfff).toNat + step.toNat < 4096 := by omega
  have hoff := toNat_add_pageOffset hlt
  refine ⟨pageOf_add hlt, by omega, ?_⟩
  unfold ramOffset
  omega

/-- An integer element of a pair on a hit. -/
theorem loadElem_of_hit {g : Guest (Bus D)} {page : BitVec 64} {write width8 signed : Bool}
    (hit : RamHit g page pa perms write) (hva : pageOf va = page)
    (hsigned : signed = true → width8 = false)
    (hspan : (va &&& 0xfff).toNat + 1 <<< (if width8 then 3 else 2) ≤ 4096) :
    loadElem g va width8 signed =
      (elemValue g.mem (ramOffset g pa va) (if width8 then 3 else 2) signed, g) := by
  have hsize : (if width8 then 3 else 2) ≤ 3 := by
    cases width8 <;> decide
  unfold loadElem
  dsimp only
  rw [hit.readMem hva hsize hspan]
  cases signed with
  | false => rfl
  | true =>
    rw [hsigned rfl]
    refine Prod.ext ?_ rfl
    exact Words.signExtend_setWidth _ (by decide) (by decide)

/-- The address of a pair. -/
def pairEa (cpu : CpuState) (rn : Reg) (offset : BitVec 64) (index : PairIndex) : BitVec 64 :=
  cpu.readGpr rn true + pairDisp offset index

/-- The accesses of a pair at address `ea` and their writeback: `ldst::pair::exec` from
    line 39 on. -/
def pairAt (g : Guest (Bus D)) (isLoad signed width8 vec : Bool) (vesize : ℕ) (rt rt2 : Reg)
    (ea : BitVec 64) (writeback : Option (Reg × BitVec 64)) : Guest (Bus D) :=
  if vec then
    let step : BitVec 64 := 1 <<< vesize
    if isLoad then
      let (v1, g) := MemAccess.readVec g ea vesize
      let (v2, g) := MemAccess.readVec g (ea + step) vesize
      if g.aborted then g
      else
        let cpu := { g.cpu with v := Function.update (Function.update g.cpu.v rt v1) rt2 v2 }
        writebackBase { g with cpu := cpu } writeback
    else
      let v1 := g.cpu.v rt
      let v2 := g.cpu.v rt2
      let g := MemAccess.writeVec g ea vesize v1
      let g := MemAccess.writeVec g (ea + step) vesize v2
      if g.aborted then g else writebackBase g writeback
  else
    let esize : BitVec 64 := if width8 then 8 else 4
    if isLoad then
      let (v1, g) := loadElem g ea width8 signed
      let (v2, g) := loadElem g (ea + esize) width8 signed
      if g.aborted then g
      else
        let dst64 := width8 || signed
        let cpu := writeResult (writeResult g.cpu dst64 rt v1) dst64 rt2 v2
        writebackBase { g with cpu := cpu } writeback
    else
      let size := if width8 then 3 else 2
      let v1 := g.cpu.readGpr rt false
      let v2 := g.cpu.readGpr rt2 false
      let g := MemAccess.write g ea size v1
      let g := MemAccess.write g (ea + esize) size v2
      if g.aborted then g else writebackBase g writeback

theorem loadStorePair_eq (g : Guest (Bus D)) (isLoad signed width8 vec : Bool) (vesize : ℕ)
    (rt rt2 rn : Reg) (offset : BitVec 64) (index : PairIndex) :
    loadStorePair g isLoad signed width8 vec vesize rt rt2 rn offset index =
      pairAt g isLoad signed width8 vec vesize rt rt2 (pairEa g.cpu rn offset index)
        (pairWriteback index rn (g.cpu.readGpr rn true + offset)) := by
  cases index with
  | post =>
    have hea : pairEa g.cpu rn offset .post = g.cpu.readGpr rn true := BitVec.add_zero _
    rw [hea]
    rfl
  | offset => rfl
  | pre => rfl

theorem loadStorePair_of_hit (hno : cpu.pendingAbort = none) {isLoad signed width8 vec : Bool}
    {vesize : ℕ} {rt rt2 rn : Reg} {offset : BitVec 64} {index : PairIndex}
    (hfields : FieldsOk (.loadStorePair isLoad signed width8 vec vesize rt rt2 rn offset index))
    (hon : OnFastPath L (⟨cpu, bus⟩ : Guest (Bus D)) (pairEa cpu rn offset index)
      (2 * 1 <<< pairSize width8 vec vesize) (!isLoad) l pa perms) :
    loadStorePair (⟨cpu, bus⟩ : Guest (Bus D)) isLoad signed width8 vec vesize rt rt2 rn offset
        index =
      withBase (pairResult bus cpu (pairSize width8 vec vesize) isLoad signed (width8 || signed) vec
          rt rt2 (ramOffset (⟨cpu, bus⟩ : Guest (Bus D)) pa (pairEa cpu rn offset index)))
        (pairWriteback index rn (cpu.readGpr rn true + offset)) := by
  have hok : (⟨cpu, bus⟩ : Guest (Bus D)).aborted = false := aborted_eq_false bus hno
  have hset (bytes : ℕ → BitVec 8) :
      (Guest.setRam (⟨cpu, bus⟩ : Guest (Bus D)) bytes).aborted = false := aborted_eq_false _ hno
  have hpos : 0 < 1 <<< pairSize width8 vec vesize := by
    rw [Nat.one_shiftLeft]
    exact Nat.two_pow_pos _
  have hspan := hon.span
  have hhit := hon.hit
  rw [loadStorePair_eq]
  generalize pairWriteback index rn (cpu.readGpr rn true + offset) = writeback
  dsimp only
  generalize pairEa cpu rn offset index = va at hhit hspan ⊢
  have hfirst : (va &&& 0xfff).toNat + 1 <<< pairSize width8 vec vesize ≤ 4096 := by omega
  unfold pairAt
  cases vec with
  | true =>
    have hstep : (1 <<< vesize : BitVec 64).toNat = 1 <<< vesize := toNat_span hfields.2
    rw [if_pos rfl]
    generalize (1 <<< vesize : BitVec 64) = step at hstep ⊢
    have hsecond : SecondOk (⟨cpu, bus⟩ : Guest (Bus D)) pa va step vesize :=
      secondOk hstep hspan
    cases isLoad with
    | true =>
      have hread : MemAccess.readVec (⟨cpu, bus⟩ : Guest (Bus D)) va vesize = _ :=
        hhit.gather rfl hpos hfirst
      have hread' : MemAccess.readVec (⟨cpu, bus⟩ : Guest (Bus D)) (va + step) vesize = _ :=
        hhit.gather hsecond.page hpos hsecond.span
      rw [hsecond.offset] at hread'
      rw [if_pos rfl, hread]
      dsimp only
      rw [hread']
      dsimp only
      rw [hok, if_neg Bool.false_ne_true]
      exact writebackBase_eq hno writeback
    | false =>
      have hwrite : MemAccess.writeVec (⟨cpu, bus⟩ : Guest (Bus D)) va vesize (cpu.v rt) = _ :=
        RamHit.scatter hhit rfl hpos hfirst (cpu.v rt)
      have hwrite' (bytes : ℕ → BitVec 8) :
          MemAccess.writeVec (Guest.setRam (⟨cpu, bus⟩ : Guest (Bus D)) bytes) (va + step) vesize
            (cpu.v rt2) = Guest.setRam ⟨cpu, bus⟩ (Bytes.storeLe bytes
              (ramOffset (⟨cpu, bus⟩ : Guest (Bus D)) pa (va + step)) (1 <<< vesize)
              (cpu.v rt2)) :=
        RamHit.scatter (hhit.setRam bytes) hsecond.page hpos hsecond.span (cpu.v rt2)
      rw [if_neg Bool.false_ne_true]
      dsimp only
      rw [hwrite, hwrite', hset, if_neg Bool.false_ne_true, hsecond.offset]
      exact writebackBase_eq hno writeback
  | false =>
    have hsize : (if width8 then 3 else 2) ≤ 3 := by
      cases width8 <;> decide
    have hstep : (if width8 then 8 else 4 : BitVec 64).toNat = 1 <<< if width8 then 3 else 2 := by
      cases width8 <;> rfl
    rw [if_neg Bool.false_ne_true]
    generalize (if width8 then 8 else 4 : BitVec 64) = step at hstep ⊢
    have hsecond : SecondOk (⟨cpu, bus⟩ : Guest (Bus D)) pa va step (if width8 then 3 else 2) :=
      secondOk hstep hspan
    cases isLoad with
    | true =>
      have hsigned : signed = true → width8 = false := hfields.1
      have hread : loadElem (⟨cpu, bus⟩ : Guest (Bus D)) va width8 signed = _ :=
        loadElem_of_hit hhit rfl hsigned hfirst
      have hread' : loadElem (⟨cpu, bus⟩ : Guest (Bus D)) (va + step) width8 signed = _ :=
        loadElem_of_hit hhit hsecond.page hsigned hsecond.span
      rw [hsecond.offset] at hread'
      rw [if_pos rfl, hread]
      dsimp only
      rw [hread']
      dsimp only
      rw [hok, if_neg Bool.false_ne_true]
      exact writebackBase_eq ((writeResult_pendingAbort _ _ _ _).trans
        ((writeResult_pendingAbort _ _ _ _).trans hno)) writeback
    | false =>
      have hwrite : MemAccess.write (⟨cpu, bus⟩ : Guest (Bus D)) va (if width8 then 3 else 2)
          (cpu.readGpr rt false) = _ :=
        RamHit.writeMem hhit rfl hsize hfirst (cpu.readGpr rt false)
      have hwrite' (bytes : ℕ → BitVec 8) :
          MemAccess.write (Guest.setRam (⟨cpu, bus⟩ : Guest (Bus D)) bytes) (va + step)
            (if width8 then 3 else 2) (cpu.readGpr rt2 false) =
          Guest.setRam ⟨cpu, bus⟩ (Bytes.storeLe bytes
            (ramOffset (⟨cpu, bus⟩ : Guest (Bus D)) pa (va + step))
            (1 <<< if width8 then 3 else 2) (cpu.readGpr rt2 false)) :=
        RamHit.writeMem (hhit.setRam bytes) hsecond.page hsize hsecond.span (cpu.readGpr rt2 false)
      rw [if_neg Bool.false_ne_true]
      dsimp only
      rw [hwrite, hwrite', hset, if_neg Bool.false_ne_true, hsecond.offset]
      exact writebackBase_eq hno writeback

omit [MmioDevice D] in
/-- The two elements of a pair, `o` bytes into RAM. -/
theorem exec_pairBody {isLoad signed wide vec : Bool} (hready : Ready L bus.ram.size.toNat l)
    (haddr : ∃ c : BitVec 32, l 10 = .i32 c ∧ c.toNat = L.ramBase.toNat + o)
    (hin : o + 2 * 1 <<< size ≤ bus.ram.size.toNat) (hsize : size ≤ if vec then 4 else 3)
    (hwide : vec = false → signed = false → wide = false → size ≤ 2) (fuel : ℕ) (st : List Val)
    (rt rt2 : Reg) :
    exec fuel (pairBody size isLoad signed wide vec rt rt2) ⟨st, l, host L stale bus cpu⟩ =
      .next ⟨st, l, host L stale (pairResult bus cpu size isLoad signed wide vec rt rt2 o).mem
        (pairResult bus cpu size isLoad signed wide vec rt rt2 o).cpu⟩ := by
  have hfirst : ElemOk L bus l o 0 size := ⟨hready, haddr, by omega⟩
  have hsecond : ElemOk L bus l o (1 <<< size) size := ⟨hready, haddr, by omega⟩
  have hset (bytes : ℕ → BitVec 8) :
      ElemOk L (Guest.setRam ⟨cpu, bus⟩ bytes).mem l o (1 <<< size) size :=
    ⟨hready.setRam cpu bytes, haddr, hsecond.inRam⟩
  unfold pairBody
  dsimp only
  cases vec with
  | true =>
    cases isLoad with
    | true =>
      dsimp only
      unfold inlineVecPairLoad
      rw [exec_append, exec_vecElemLoad hfirst hsize rt, Outcome.bind_next,
        exec_vecElemLoad hsecond hsize rt2]
      rfl
    | false =>
      dsimp only
      unfold inlineVecPairStore
      rw [exec_append, exec_vecElemStore hfirst hsize rt, Outcome.bind_next,
        exec_vecElemStore (hset _) hsize rt2]
      rfl
  | false =>
    have hsize' : size ≤ 3 := hsize
    cases isLoad with
    | true =>
      dsimp only
      unfold inlinePairLoad
      rw [exec_append, exec_elemLoad hfirst hsize' (hwide rfl) rt, Outcome.bind_next,
        exec_elemLoad hsecond hsize' (hwide rfl) rt2]
      rfl
    | false =>
      dsimp only
      unfold inlinePairStore
      rw [exec_append, exec_elemStore hfirst hsize' rt, Outcome.bind_next,
        exec_elemStore (hset _) hsize' rt2]
      rfl

omit [MmioDevice D] in
theorem size_pairResult (bus : Bus D) (cpu : CpuState) (size : ℕ) (isLoad signed wide vec : Bool)
    (rt rt2 : Reg) (o : ℕ) :
    (pairResult bus cpu size isLoad signed wide vec rt rt2 o).mem.ram.size = bus.ram.size := by
  cases vec <;> cases isLoad <;> rfl

omit [MmioDevice D] in
theorem pendingAbort_pairResult (hno : cpu.pendingAbort = none) (bus : Bus D) (size : ℕ)
    (isLoad signed wide vec : Bool) (rt rt2 : Reg) (o : ℕ) :
    (pairResult bus cpu size isLoad signed wide vec rt rt2 o).cpu.pendingAbort = none := by
  cases vec with
  | true => cases isLoad <;> exact hno
  | false =>
    cases isLoad with
    | true =>
      exact (writeResult_pendingAbort _ _ _ _).trans ((writeResult_pendingAbort _ _ _ _).trans hno)
    | false => exact hno

omit [MmioDevice D] in
theorem exec_pairAddress (h : Ready L bus.ram.size.toNat l) (fuel : ℕ) (st : List Val) (rn : Reg)
    (offset : BitVec 64) (index : PairIndex) :
    exec fuel (pairAddress rn (pairDisp offset index)) ⟨st, l, host L stale bus cpu⟩ =
      .next ⟨st, Function.update l t0 (.i64 (pairEa cpu rn offset index)),
        host L stale bus cpu⟩ := by
  unfold pairAddress pairEa
  rw [exec_append, exec_append, exec_pushBaseReg h, Outcome.bind_next]
  split_ifs with hdisp
  · rw [exec_i64Const, exec_i64Add, exec_nil, Outcome.bind_next, exec_localSet, exec_nil]
  · rw [not_not] at hdisp
    have hzero : cpu.readGpr rn true + pairDisp offset index = cpu.readGpr rn true := by
      rw [hdisp]
      exact BitVec.add_zero _
    rw [exec_nil, Outcome.bind_next, exec_localSet, exec_nil, hzero]

omit [MmioDevice D] in
theorem exec_pairStoreBase (h : Ready L bus.ram.size.toNat l) (cpu cpu' : CpuState) (fuel : ℕ)
    (st : List Val) (rn : Reg) (offset : BitVec 64) (index : PairIndex)
    (hva : l 2 = .i64 (pairEa cpu rn offset index)) :
    exec fuel (pairStoreBase rn offset index) ⟨st, l, host L stale bus cpu'⟩ =
      .next ⟨st, l, host L stale bus
        (writtenBack cpu' (pairWriteback index rn (cpu.readGpr rn true + offset)))⟩ := by
  have hzero (v : BitVec 64) : v + 0 = v := BitVec.add_zero v
  cases index with
  | offset => exact exec_nil _
  | pre =>
    refine (exec_storeBase h hva rn none).trans ?_
    rw [Option.getD_none, hzero]
    rfl
  | post =>
    refine (exec_storeBase h hva rn (some offset)).trans ?_
    have hbase : pairEa cpu rn offset .post = cpu.readGpr rn true := hzero _
    rw [hbase]
    rfl

/-- A load or store of two registers. -/
theorem lowerMemPair_ends {isLoad signed width8 vec : Bool} {vesize : ℕ} {rt rt2 rn : Reg}
    {offset : BitVec 64} {index : PairIndex}
    (hfields : FieldsOk (.loadStorePair isLoad signed width8 vec vesize rt rt2 rn offset index))
    (h : Ready L bus.ram.size.toNat l) (hsite : SiteOk site bus l base retired)
    (hg : RunState (⟨cpu, bus⟩ : Guest (Bus D))) :
    ∃ code, lowerMemPair L (.loadStorePair isLoad signed width8 vec vesize rt rt2 rn offset index)
        site = some code ∧
      EmitsOrBails L stale bus l code cpu site base retired
        (loadStorePair (⟨cpu, bus⟩ : Guest (Bus D)) isLoad signed width8 vec vesize rt rt2 rn offset
          index) := by
  have hsize : pairSize width8 vec vesize ≤ if vec then 4 else 3 := by
    cases vec with
    | true => exact hfields.2
    | false =>
      cases width8
      · exact Nat.le_succ 2
      · exact Nat.le_refl 3
  have hsize4 : pairSize width8 vec vesize ≤ 4 := by
    cases vec
    · exact Nat.le_succ_of_le hsize
    · exact hsize
  have hwide : vec = false → signed = false → (width8 || signed) = false →
      pairSize width8 vec vesize ≤ 2 := by
    intro hvec hsigned hw
    rw [hsigned, Bool.or_false] at hw
    rw [hvec, hw]
    exact Nat.le_refl 2
  have hspan : (2 * 1 <<< pairSize width8 vec vesize : BitVec 64).toNat =
      2 * 1 <<< pairSize width8 vec vesize := by
    rw [BitVec.toNat_mul, toNat_span hsize4]
    obtain h | h | h | h | h : pairSize width8 vec vesize = 0 ∨ pairSize width8 vec vesize = 1 ∨
        pairSize width8 vec vesize = 2 ∨ pairSize width8 vec vesize = 3 ∨
        pairSize width8 vec vesize = 4 := by omega
    all_goals
      rw [h]
      rfl
  have hbounds := span_pos hsize4
  rw [toNat_span hsize4] at hbounds
  refine ⟨_, rfl, access_ends h hsite hg (by rw [hspan]; omega) ?_
    (fun fuel st => exec_pairAddress h fuel st rn offset index) ?_⟩
  · rw [hspan]
    have hle : 1 <<< pairSize width8 vec vesize ≤ 1 <<< 4 := by
      rw [Nat.one_shiftLeft, Nat.one_shiftLeft]
      exact Nat.pow_le_pow_right (by decide) hsize4
    exact Nat.le_trans (Nat.mul_le_mul_left 2 hle) (by decide)
  · intro fuel l' pa perms hl' hon
    rw [hspan] at hon
    rw [loadStorePair_of_hit hg.noAbort hfields hon]
    have hin := hon.toNat_add_le (Nat.le_refl (2 * 1 <<< pairSize width8 vec vesize))
    have hva := hon.t0
    have haddr := hon.addr
    generalize ramOffset (⟨cpu, bus⟩ : Guest (Bus D)) pa (pairEa cpu rn offset index) = o
      at hin haddr ⊢
    have hready : Ready L (pairResult bus cpu (pairSize width8 vec vesize) isLoad signed
        (width8 || signed) vec rt rt2 o).mem.ram.size.toNat l' := by
      rw [size_pairResult]
      exact hl'
    refine ⟨?_, pendingAbort_withBase (pendingAbort_pairResult hg.noAbort bus _ isLoad signed _ vec
      rt rt2 o) _⟩
    rw [exec_append, exec_pairBody hl' haddr hin hsize hwide, Outcome.bind_next,
      exec_pairStoreBase hready cpu _ fuel [] rn offset index hva]
    rfl

/-! ## Every inline load and store -/

/-- Every inline load and store, in any state of a run. -/
theorem inlineLoadStore_ends (vu : VecUnit) {insn : Insn} (hfields : FieldsOk insn)
    (hinline : isInlineLoadStore insn = true ∨ isInlineLoadStorePair insn = true)
    (h : Ready L bus.ram.size.toNat l) (hsite : SiteOk site bus l base retired)
    (hg : RunState (⟨cpu, bus⟩ : Guest (Bus D))) :
    ∃ code g', lowerLoadStore L insn site = some code ∧
      execute vu ⟨cpu, bus⟩ insn (site.at base) = some (none, g') ∧
      EmitsOrBails L stale bus l code cpu site base retired g' := by
  cases insn with
  | loadStore size isLoad signed dst64 vec unpriv rt mode =>
    have hone : isInlineLoadStore (.loadStore size isLoad signed dst64 vec unpriv rt mode) = true :=
      hinline.resolve_right Bool.false_ne_true
    obtain ⟨code, hcode, hends⟩ := lowerMem_ends hfields hone h hsite hg
    exact ⟨code, _, (if_pos hone).trans hcode, rfl, hends⟩
  | loadStorePair isLoad signed width8 vec vesize rt rt2 rn offset index =>
    obtain ⟨code, hcode, hends⟩ := lowerMemPair_ends hfields h hsite hg
    exact ⟨code, _, (if_neg Bool.false_ne_true).trans hcode, rfl, hends⟩
  | _ => exact absurd hinline (not_or_intro Bool.false_ne_true Bool.false_ne_true)

/-- For every word that is compiled as an inline load or store, of one register or of
    two, the emitted code ends in step with the interpreter, which raises no abort, or
    bails. -/
theorem lowerLoadStore_ends (vu : VecUnit) (word : BitVec 32)
    (hinline : isInlineLoadStore (decode word) = true ∨
      isInlineLoadStorePair (decode word) = true)
    (h : Ready L bus.ram.size.toNat l) (hsite : SiteOk site bus l base retired)
    (hg : BlockState (⟨cpu, bus⟩ : Guest (Bus D))) :
    ∃ code g', lowerLoadStore L (decode word) site = some code ∧
      execute vu ⟨cpu, bus⟩ (decode word) (site.at base) = some (none, g') ∧
      EmitsOrBails L stale bus l code cpu site base retired g' :=
  inlineLoadStore_ends vu (fieldsOk_decode word) hinline h hsite hg.runState

end Hit

/-- `ldp x2, x3, [x1], #16` on that page passes the test. -/
theorem lowerLoadStore_ends_ldp :
    fastOk aliasState.guest.cpu 0 16 0 0x1000 false = true ∧
      ∃ code g', lowerLoadStore pageLayout (decode 0xa8c10c22#32) pageSite = some code ∧
        execute (fun _ _ => none) aliasState.guest (decode 0xa8c10c22#32) (pageSite.at 0x4000) =
          some (none, g') ∧
        EmitsOrBails pageLayout Flags.default aliasState.guest.mem pageLocals code
          aliasState.guest.cpu pageSite 0x4000 0 g' :=
  ⟨by decide +kernel, lowerLoadStore_ends (fun _ _ => none) 0xa8c10c22#32 (.inr rfl)
    ready_pageLocals siteOk_page blockState_alias⟩

end V64.Jit
