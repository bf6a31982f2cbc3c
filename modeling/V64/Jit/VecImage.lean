import V64.Decoder.LaneFields
import V64.Jit.Lower.Simd
import V64.Lib.Lanes

/-!
# Vector registers in linear memory

Vector code reaches the registers of `CpuState` by their slots, and copies also reach a
single lane of one. `VecImage` and `LaneImage` say what a memory has to offer for that.

* `vecImage_host`, `laneImage_host`: the memory of `Host.lean` has the slots and the lanes.
* `VecEmits`: what vector code does to the image of a CPU state.
* `exec_pushV`, `exec_finishV`: operands and results.
-/

namespace V64.Jit

open V64.Cpu V64.Decoder V64.Interp V64.Platform Wasm
open Wasm.Instr

/-! ## Images -/

section Image

variable {M : Type} [LinearMemory M]

/-- `cpu.v[rd] = value`. -/
def setV (cpu : CpuState) (rd : Reg) (value : BitVec 128) : CpuState :=
  { cpu with v := Function.update cpu.v rd value }

/-- The vector with other bits in a lane of width `w`. -/
def insertLane (v : BitVec 128) (w index : ℕ) (elem : BitVec 64) : BitVec 128 :=
  (v &&& ~~~((BitVec.allOnes w).setWidth 128 <<< (index * w))) |||
    ((elem.setWidth w).setWidth 128 <<< (index * w))

/-- `H cpu` holds the registers of `cpu` at `base`. -/
structure VecImage (base : BitVec 32) (H : CpuState → M) : Prop where
  loadX : ∀ cpu (idx : Reg),
    LinearMemory.load (H cpu) (base.toNat + xOff idx) 8 = some (cpu.readGpr idx true)
  storeX : ∀ cpu (idx : Reg) val,
    LinearMemory.store (H cpu) (base.toNat + xOff idx) 8 val = some (H (cpu.writeGpr idx true val))
  loadV : ∀ cpu (idx : Reg), load128 (H cpu) (base.toNat + vOff idx) = some (.v128 (cpu.v idx))
  storeV : ∀ cpu (idx : Reg) val,
    store128 (H cpu) (base.toNat + vOff idx) val = some (H (setV cpu idx val))

/-- The lanes of the vector registers as well. -/
structure LaneImage (base : BitVec 32) (H : CpuState → M) : Prop extends VecImage base H where
  loadLane : ∀ cpu (idx : Reg) size index, LaneIndex size index →
    LinearMemory.load (H cpu) (base.toNat + laneOff idx index size) (1 <<< size) =
      some ((Lanes.lane (8 <<< size) (cpu.v idx) index).setWidth 64)
  storeLane : ∀ cpu (idx : Reg) size index val, LaneIndex size index →
    LinearMemory.store (H cpu) (base.toNat + laneOff idx index size) (1 <<< size) val =
      some (H (setV cpu idx (insertLane (cpu.v idx) (8 <<< size) index val)))

end Image

/-! ## The memory of fields -/

variable {D : Type}

theorem vecImage_host {L : Layout} (stale : Flags) {bus : Bus D} (h : L.Wf bus.ram.size.toNat) :
    VecImage L.regsBase (host L stale bus) where
  loadX cpu idx := by
    rw [← offset_gprField, ← get_gprField]
    exact HostMem.load_field (host_wf h) (gprField idx)
  storeX cpu idx val := by
    rw [← offset_gprField, host, host, ← set_gprField]
    exact HostMem.store_field (host_wf h) (gprField idx) val
  loadV cpu idx := by
    have hlow : LinearMemory.load (host L stale bus cpu) (L.regsBase.toNat + vOff idx) 8 =
        some ((cpu.v idx).setWidth 64) := HostMem.load_field (host_wf h) (.v idx false)
    have hhigh : LinearMemory.load (host L stale bus cpu) (L.regsBase.toNat + vOff idx + 8) 8 =
        some ((cpu.v idx >>> 64).setWidth 64) := HostMem.load_field (host_wf h) (.v idx true)
    rw [load128, hlow, hhigh]
    exact congrArg (fun v => some (Val.v128 v)) (Words.append_halves (cpu.v idx))
  storeV cpu idx val := by
    obtain ⟨m, hlow, hhigh⟩ := store_vHalves h stale cpu idx (val.setWidth 64)
      ((val >>> 64).setWidth 64)
    rw [Words.append_halves] at hhigh
    rw [store128, hlow]
    exact hhigh

/-! ## Lanes -/

theorem bits_of_bytes (size : ℕ) : 8 * (1 <<< size) = 8 <<< size := by
  rw [Nat.shiftLeft_eq, Nat.shiftLeft_eq, Nat.one_mul]

theorem laneBit (size index : ℕ) : 8 * (index * (1 <<< size)) = index * (8 <<< size) := by
  rw [Nat.mul_left_comm, bits_of_bytes]

/-- A lane that is narrower than a word. -/
theorem narrow_lane {size index : ℕ} (h : LaneIndex size index) (hsize : size ≤ 2) :
    1 <<< size < 8 ∧ 0 < 1 <<< size ∧ index * (1 <<< size) + 1 <<< size ≤ 16 := by
  have hb := h.2
  rw [Nat.succ_mul] at hb
  interval_cases size <;> exact ⟨by decide, by decide, hb⟩

theorem getLsbD_insertLane (v : BitVec 128) (w index : ℕ) (elem : BitVec 64) {k : ℕ}
    (hk : k < 128) :
    (insertLane v w index elem).getLsbD k =
      if index * w ≤ k ∧ k < index * w + w then elem.getLsbD (k - index * w)
      else v.getLsbD k := by
  unfold insertLane
  rw [BitVec.getLsbD_or, BitVec.getLsbD_and, BitVec.getLsbD_not, BitVec.getLsbD_shiftLeft,
    BitVec.getLsbD_shiftLeft, BitVec.getLsbD_setWidth, BitVec.getLsbD_setWidth,
    BitVec.getLsbD_setWidth, BitVec.getLsbD_allOnes, decide_eq_true hk,
    decide_eq_true (by omega : k - index * w < 128), Bool.true_and, Bool.true_and, Bool.true_and,
    Bool.true_and]
  by_cases hlow : k < index * w
  · rw [decide_eq_true hlow, if_neg (by omega)]
    simp
  rw [decide_eq_false hlow]
  by_cases hin : k - index * w < w
  · rw [decide_eq_true hin, if_pos (by omega)]
    simp
  · rw [decide_eq_false hin, if_neg (by omega)]
    simp

/-- A lane of 64 bits is a half of its register. -/
theorem insertLane_word (v : BitVec 128) (val : BitVec 64) :
    insertLane v 64 0 val = (v >>> 64).setWidth 64 ++ val ∧
      insertLane v 64 1 val = val ++ v.setWidth 64 := by
  constructor
  · apply BitVec.eq_of_getLsbD_eq
    intro k hk
    rw [getLsbD_insertLane v 64 0 val hk, BitVec.getLsbD_append]
    by_cases hlow : k < 64
    · rw [if_pos (by omega), if_pos hlow]
      rfl
    · rw [if_neg (by omega), if_neg hlow, BitVec.getLsbD_setWidth, BitVec.getLsbD_ushiftRight,
        decide_eq_true (by omega), Bool.true_and, Nat.add_sub_cancel' (by omega)]
  · apply BitVec.eq_of_getLsbD_eq
    intro k hk
    rw [getLsbD_insertLane v 64 1 val hk, BitVec.getLsbD_append]
    by_cases hlow : k < 64
    · rw [if_neg (by omega), if_pos hlow, BitVec.getLsbD_setWidth, decide_eq_true hlow,
        Bool.true_and]
    · rw [if_pos (by omega), if_neg hlow, Nat.one_mul]

theorem laneImage_host {L : Layout} (stale : Flags) {bus : Bus D}
    (h : L.Wf bus.ram.size.toNat) : LaneImage L.regsBase (host L stale bus) where
  toVecImage := vecImage_host stale h
  loadLane cpu idx size index hindex := by
    obtain hsize | rfl : size ≤ 2 ∨ size = 3 := by
      have := hindex.1
      omega
    · obtain ⟨hbytes, hpos, hb⟩ := narrow_lane hindex hsize
      have hload : LinearMemory.load (host L stale bus cpu)
          (L.regsBase.toNat + laneOff idx index size) (1 <<< size) =
          some (HostMem.laneBytes (cpu.v idx) (index * (1 <<< size)) (1 <<< size)) :=
        HostMem.load_lane (host_wf h) idx hbytes hpos hb
      rw [hload, HostMem.laneBytes, laneBit, bits_of_bytes, Lanes.lane_eq]
    · obtain rfl | rfl : index = 0 ∨ index = 1 := by
        have := hindex.2
        omega
      · exact HostMem.load_field (host_wf h) (.v idx false)
      · exact HostMem.load_field (host_wf h) (.v idx true)
  storeLane cpu idx size index val hindex := by
    obtain hsize | rfl : size ≤ 2 ∨ size = 3 := by
      have := hindex.1
      omega
    · obtain ⟨hbytes, hpos, hb⟩ := narrow_lane hindex hsize
      have hstore : LinearMemory.store (host L stale bus cpu)
          (L.regsBase.toNat + laneOff idx index size) (1 <<< size) val =
          some (host L stale bus (setV cpu idx
            (HostMem.withLaneBytes (cpu.v idx) (index * (1 <<< size)) (1 <<< size) val))) :=
        HostMem.store_lane (host_wf h) idx hbytes hpos hb val
      rw [hstore, HostMem.withLaneBytes, laneBit, bits_of_bytes]
      rfl
    · obtain ⟨hlow, hhigh⟩ := insertLane_word (cpu.v idx) val
      obtain rfl | rfl : index = 0 ∨ index = 1 := by
        have := hindex.2
        omega
      · rw [show 8 <<< 3 = 64 from rfl, hlow]
        exact HostMem.store_field (m := host L stale bus cpu) (host_wf h) (.v idx false) val
      · rw [show 8 <<< 3 = 64 from rfl, hhigh]
        exact HostMem.store_field (m := host L stale bus cpu) (host_wf h) (.v idx true) val

/-! ## Running vector code -/

section Exec

variable {M : Type} [LinearMemory M] {base : BitVec 32} {H : CpuState → M} {cpu : CpuState}
  {fuel : ℕ} {st : List Val} {l : ℕ → Val} {is : List Instr}

/-- Run from the image of `cpu`, `code` ends at that of `cpu'`, with the operands and the
    locals that it found. -/
def VecEmits (base : BitVec 32) (H : CpuState → M) (code : List Instr) (cpu cpu' : CpuState) :
    Prop :=
  ∀ fuel st (l : ℕ → Val), l 0 = .i32 base →
    exec fuel code ⟨st, l, H cpu⟩ = .next ⟨st, l, H cpu'⟩

/-- What `finish_v` keeps of a result. -/
def finish (q : Bool) (v : BitVec 128) : BitVec 128 :=
  if q then v else v &&& 0xffffffffffffffff#128

/-- A vector instruction whose operands are there. -/
theorem exec_simd {op : SimdOp} {st st' : List Val} {m : M} (h : op.run st = some st') :
    exec fuel (.simd op :: is) ⟨st, l, m⟩ = exec fuel is ⟨st', l, m⟩ := by
  apply exec_next
  unfold execInstr
  rw [h]

@[simp] theorem exec_v128Bin (op : BitOp) (a b : BitVec 128) (m : M) :
    exec fuel (.simd (.bin op) :: is) ⟨.v128 b :: .v128 a :: st, l, m⟩ =
      exec fuel is ⟨.v128 (op.eval a b) :: st, l, m⟩ := exec_simd rfl

@[simp] theorem exec_v128Not (a : BitVec 128) (m : M) :
    exec fuel (.simd .not :: is) ⟨.v128 a :: st, l, m⟩ =
      exec fuel is ⟨.v128 (~~~a) :: st, l, m⟩ := exec_simd rfl

@[simp] theorem exec_v128Bitselect (a b c : BitVec 128) (m : M) :
    exec fuel (.simd .bitselect :: is) ⟨.v128 c :: .v128 b :: .v128 a :: st, l, m⟩ =
      exec fuel is ⟨.v128 (Wasm.bitselect a b c) :: st, l, m⟩ := exec_simd rfl

@[simp] theorem exec_v128Const (c : BitVec 128) (m : M) :
    exec fuel (.simd (.const c) :: is) ⟨st, l, m⟩ = exec fuel is ⟨.v128 c :: st, l, m⟩ :=
  exec_simd rfl

theorem exec_loadV128 (h : VecImage base H) (idx : Reg) :
    exec fuel (.v128Load (vOff idx) :: is) ⟨.i32 base :: st, l, H cpu⟩ =
      exec fuel is ⟨.v128 (cpu.v idx) :: st, l, H cpu⟩ := exec_v128Load (h.loadV cpu idx)

theorem exec_storeV128 (h : VecImage base H) (idx : Reg) (v : BitVec 128) :
    exec fuel (.v128Store (vOff idx) :: is) ⟨.v128 v :: .i32 base :: st, l, H cpu⟩ =
      exec fuel is ⟨st, l, H (setV cpu idx v)⟩ := exec_v128Store (h.storeV cpu idx v)

variable (himage : VecImage base H) (hbase : l 0 = .i32 base)

include himage

theorem exec_pushV (hbase : l 0 = .i32 base) (r : Reg) :
    exec fuel (pushV r) ⟨st, l, H cpu⟩ = .next ⟨.v128 (cpu.v r) :: st, l, H cpu⟩ := by
  rw [pushV, exec_localGet, hbase, exec_loadV128 himage, exec_nil]

theorem exec_finishV (q : Bool) (rd : Reg) (v : BitVec 128) :
    exec fuel (finishV q rd) ⟨.v128 v :: .i32 base :: st, l, H cpu⟩ =
      .next ⟨st, l, H (setV cpu rd (finish q v))⟩ := by
  cases q with
  | true => exact (exec_storeV128 himage rd v).trans (exec_nil _)
  | false =>
    show exec fuel [.simd (.const _), .simd (.bin .and), .v128Store _] _ = _
    rw [exec_simd rfl, exec_simd rfl, exec_storeV128 himage, exec_nil]
    rfl

/-- Code that pushes a result and stores it. -/
theorem vecEmits_finish {push : List Instr} {r : BitVec 128} (q : Bool) (rd : Reg)
    (hpush : ∀ fuel st (l : ℕ → Val), l 0 = .i32 base →
      exec fuel push ⟨st, l, H cpu⟩ = .next ⟨.v128 r :: st, l, H cpu⟩) :
    VecEmits base H ([localGet regsBase] ++ push ++ finishV q rd) cpu
      (setV cpu rd (finish q r)) := by
  intro fuel st l hl
  rw [exec_append, exec_append, exec_localGet, exec_nil, Outcome.bind_next, hl, hpush _ _ _ hl,
    Outcome.bind_next, exec_finishV himage]

/-- Code on one register. -/
theorem vecEmits_one {ops : List Instr} {rn : Reg} {r : BitVec 128} (q : Bool) (rd : Reg)
    (hops : ∀ fuel st (l : ℕ → Val) (m : M),
      exec fuel ops ⟨.v128 (cpu.v rn) :: st, l, m⟩ = .next ⟨.v128 r :: st, l, m⟩) :
    VecEmits base H ([localGet regsBase] ++ pushV rn ++ ops ++ finishV q rd) cpu
      (setV cpu rd (finish q r)) := by
  rw [List.append_assoc [localGet regsBase]]
  apply vecEmits_finish himage
  intro fuel st l hl
  rw [exec_append, exec_pushV himage hl, Outcome.bind_next, hops]

/-- Code on two registers. -/
theorem vecEmits_two {ops : List Instr} {rn rm : Reg} {r : BitVec 128} (q : Bool) (rd : Reg)
    (hops : ∀ fuel st (l : ℕ → Val) (m : M),
      exec fuel ops ⟨.v128 (cpu.v rm) :: .v128 (cpu.v rn) :: st, l, m⟩ =
        .next ⟨.v128 r :: st, l, m⟩) :
    VecEmits base H ([localGet regsBase] ++ pushV rn ++ pushV rm ++ ops ++ finishV q rd) cpu
      (setV cpu rd (finish q r)) := by
  rw [List.append_assoc [localGet regsBase], List.append_assoc [localGet regsBase]]
  apply vecEmits_finish himage
  intro fuel st l hl
  rw [exec_append, exec_append, exec_pushV himage hl, Outcome.bind_next, exec_pushV himage hl,
    Outcome.bind_next, hops]

theorem exec_loadXImage (idx : Reg) :
    exec fuel (.i64LoadN 8 false (xOff idx) :: is) ⟨.i32 base :: st, l, H cpu⟩ =
      exec fuel is ⟨.i64 (cpu.readGpr idx true) :: st, l, H cpu⟩ :=
  exec_i64LoadN (himage.loadX cpu idx)

theorem exec_storeXImage (idx : Reg) (val : BitVec 64) :
    exec fuel (.i64StoreN 8 (xOff idx) :: is) ⟨.i64 val :: .i32 base :: st, l, H cpu⟩ =
      exec fuel is ⟨st, l, H (cpu.writeGpr idx true val)⟩ :=
  exec_i64StoreN (himage.storeX cpu idx val)

/-- A general register as the operand of a copy. -/
theorem exec_pushGpr (hbase : l 0 = .i32 base) (idx : Reg) :
    exec fuel (pushOperand idx true false) ⟨st, l, H cpu⟩ =
      .next ⟨.i64 (cpu.readGpr idx false) :: st, l, H cpu⟩ := by
  unfold pushOperand
  split_ifs with hz
  · rw [hz.1, exec_i64Const, exec_nil, readGpr_zr]
  · have hidx : idx ≠ 31 := fun h => hz ⟨h, rfl⟩
    rw [exec_append, exec_localGet, hbase, gprOff_eq, exec_loadXImage himage, exec_nil,
      Outcome.bind_next, readGpr_true_of_ne hidx false]
    exact exec_nil _

end Exec

end V64.Jit
