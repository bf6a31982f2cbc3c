import V64.Interp.Simd.Aes
import V64.Interp.Simd.Unit
import V64.Lib.Gf256
import V64.Lib.Loops
import V64.Platform.Bus
import Mathlib.LinearAlgebra.Matrix.Notation

/-!
# The AES instructions undo each other

AESD with a zero key undoes AESE but for its key, and AESIMC and AESMC undo each other.

* `sbox_invSbox`, `shifts_invShifts`: the tables and the row shifts.
* `gmul_eq`, `mix_eq`, `invMix_eq`: a column is multiplied by a matrix over GF(2⁸).
* `mixMatrix_mul`: the two matrices are inverse.
* `execute_aes`: the instructions on registers.
-/

namespace V64.Interp.Simd

open V64.Cpu V64.Decoder V64.Platform Checked

/-! ## Tables -/

/-- An entry of a table at a byte. -/
def entry (table : List (BitVec 8)) (b : BitVec 8) : BitVec 8 := table.getD b.toNat 0

/-- An entry of a table of sixteen rows of sixteen. -/
def rowEntry (rows : List (List (BitVec 8))) (b : BitVec 8) : BitVec 8 :=
  (rows.getD (b.toNat / 16) []).getD (b.toNat % 16) 0

theorem entry_sbox (b : BitVec 8) : entry sbox b = rowEntry sboxRows b :=
  Loops.getD_flatten (by decide) (by decide) b.toNat 0

theorem entry_invSbox (b : BitVec 8) : entry invSbox b = rowEntry invSboxRows b :=
  Loops.getD_flatten (by decide) (by decide) b.toNat 0

theorem sbox_invSbox (b : BitVec 8) : entry sbox (entry invSbox b) = b := by
  have hrows : ∀ b, rowEntry sboxRows (rowEntry invSboxRows b) = b := by decide +kernel
  rw [entry_sbox, entry_invSbox]
  exact hrows b

theorem invSbox_sbox (b : BitVec 8) : entry invSbox (entry sbox b) = b := by
  have hrows : ∀ b, rowEntry invSboxRows (rowEntry sboxRows b) = b := by decide +kernel
  rw [entry_sbox, entry_invSbox]
  exact hrows b

theorem shifts_invShifts :
    ∀ i < 16, invShifts.getD i 0 < 16 ∧ shifts.getD (invShifts.getD i 0) 0 = i := by
  decide

theorem invShifts_shifts :
    ∀ i < 16, shifts.getD i 0 < 16 ∧ invShifts.getD (shifts.getD i 0) 0 = i := by
  decide

/-! ## Bytes of a register -/

/-- Byte `i` of a register. -/
def byteOf (x : BitVec 128) (i : ℕ) : BitVec 8 := (x >>> (8 * i)).setWidth 8

theorem getD_toLe (x : BitVec 128) {i : ℕ} (hi : i < 16) :
    (Bytes.toLe 16 x).getD i 0 = byteOf x i := by
  rw [Bytes.toLe, List.getD_eq_getElem?_getD, List.getElem?_map, List.getElem?_range hi]
  rfl

theorem byte_ofLe {l : List (BitVec 8)} (hl : l.length = 16) {i : ℕ} (hi : i < 16) :
    byteOf (Bytes.ofLe 128 l) i = l.getD i 0 := by
  rw [byteOf, Bytes.byte_ofLe (by omega) (by omega), List.getD_eq_getElem?_getD,
    List.getElem?_eq_getElem (by omega), Option.getD_some]

/-- A register is its bytes. -/
theorem eq_of_byte {x y : BitVec 128} (h : ∀ i < 16, byteOf x i = byteOf y i) : x = y := by
  have hlist : Bytes.toLe 16 x = Bytes.toLe 16 y :=
    List.map_congr_left fun i hi => h i (List.mem_range.mp hi)
  rw [← Bytes.ofLe_toLe 16 x (by decide), hlist, Bytes.ofLe_toLe 16 y (by decide)]

/-! ## AESE and AESD -/

theorem byte_aese (vd vn : BitVec 128) {i : ℕ} (hi : i < 16) :
    byteOf (aese vd vn false) i = entry sbox (byteOf (vd ^^^ vn) (shifts.getD i 0)) := by
  unfold aese
  rw [byte_ofLe (by rw [List.length_map, List.length_range]) hi, List.getD_eq_getElem?_getD,
    List.getElem?_map, List.getElem?_range hi]
  show entry sbox ((Bytes.toLe 16 (vd ^^^ vn)).getD (shifts.getD i 0) 0) = _
  rw [getD_toLe _ (invShifts_shifts i hi).1]

theorem byte_aesd (vd vn : BitVec 128) {i : ℕ} (hi : i < 16) :
    byteOf (aese vd vn true) i = entry invSbox (byteOf (vd ^^^ vn) (invShifts.getD i 0)) := by
  unfold aese
  rw [byte_ofLe (by rw [List.length_map, List.length_range]) hi, List.getD_eq_getElem?_getD,
    List.getElem?_map, List.getElem?_range hi]
  show entry invSbox ((Bytes.toLe 16 (vd ^^^ vn)).getD (invShifts.getD i 0) 0) = _
  rw [getD_toLe _ (shifts_invShifts i hi).1]

/-- AESD with a zero key leaves of AESE the sum of its operands. -/
theorem aesd_aese (x k : BitVec 128) : aese (aese x k false) 0 true = x ^^^ k := by
  refine eq_of_byte fun i hi => ?_
  obtain ⟨hlt, hshift⟩ := shifts_invShifts i hi
  rw [byte_aesd _ _ hi, BitVec.ofNat_eq_ofNat, BitVec.xor_zero, byte_aese _ _ hlt, invSbox_sbox,
    hshift]

/-! ## Columns -/

open Gf256

/-- `gmul` is the product in the field. -/
theorem gmul_eq (a b : BitVec 8) : gmul a b = mulByte a b := by
  have hx : ∀ a : BitVec 8,
      (if a &&& 0x80 ≠ 0 then a <<< 1 ^^^ 0x1b else a <<< 1) = xtime a := by decide +kernel
  have hbit : ∀ b : BitVec 8, b &&& 1 ≠ 0 ↔ b.getLsbD 0 = true := by decide
  -- the terms so far, the next multiple of `a` and what is left of `b`
  have hloop (n : ℕ) : gmulBody^[n] (0, a, b) = (mulTerms a b n, xtime^[n] a, b >>> n) := by
    induction n with
    | zero => rfl
    | succ n ih =>
      rw [Function.iterate_succ_apply', ih, Function.iterate_succ_apply']
      unfold gmulBody
      dsimp only
      rw [hx, ← BitVec.shiftRight_add, mulTerms]
      have hn := hbit (b >>> n)
      rw [BitVec.getLsbD_ushiftRight, Nat.add_zero] at hn
      simp only [hn]
      cases b.getLsbD n <;> simp
  unfold gmul
  rw [hloop]
  rfl

/-- A column as a vector over the field. -/
def column (a : Fin 4 → BitVec 8) (i : Fin 4) : Gf256 := ⟨a i⟩

/-- The matrix of `mix`. -/
def mixMatrix : Matrix (Fin 4) (Fin 4) Gf256 :=
  !![⟨2⟩, ⟨3⟩, ⟨1⟩, ⟨1⟩; ⟨1⟩, ⟨2⟩, ⟨3⟩, ⟨1⟩; ⟨1⟩, ⟨1⟩, ⟨2⟩, ⟨3⟩; ⟨3⟩, ⟨1⟩, ⟨1⟩, ⟨2⟩]

/-- The matrix of `inv_mix`. -/
def invMixMatrix : Matrix (Fin 4) (Fin 4) Gf256 :=
  !![⟨14⟩, ⟨11⟩, ⟨13⟩, ⟨9⟩; ⟨9⟩, ⟨14⟩, ⟨11⟩, ⟨13⟩; ⟨13⟩, ⟨9⟩, ⟨14⟩, ⟨11⟩; ⟨11⟩, ⟨13⟩, ⟨9⟩, ⟨14⟩]

/-- A row of a matrix times a column. -/
theorem byte_mulVec (m : Matrix (Fin 4) (Fin 4) Gf256) (a : Fin 4 → BitVec 8) (i : Fin 4) :
    (m.mulVec (column a) i).byte = gmul (a 0) (m i 0).byte ^^^ gmul (a 1) (m i 1).byte ^^^
      gmul (a 2) (m i 2).byte ^^^ gmul (a 3) (m i 3).byte := by
  have hdot : m.mulVec (column a) i = ∑ j, m i j * column a j := rfl
  rw [hdot, Fin.sum_univ_four]
  simp only [gmul_eq, byte_add, byte_mul, column, mulByte_comm (a _)]

theorem column_mix (a : Fin 4 → BitVec 8) : column (mix a) = mixMatrix.mulVec (column a) := by
  have hone (x : BitVec 8) : gmul x 1 = x := by
    rw [gmul_eq, mulByte_comm, one_mulByte]
  funext i
  apply Gf256.ext
  rw [byte_mulVec]
  fin_cases i
  · show gmul (a 0) 2 ^^^ gmul (a 1) 3 ^^^ a 2 ^^^ a 3 =
      gmul (a 0) 2 ^^^ gmul (a 1) 3 ^^^ gmul (a 2) 1 ^^^ gmul (a 3) 1
    rw [hone, hone]
  · show a 0 ^^^ gmul (a 1) 2 ^^^ gmul (a 2) 3 ^^^ a 3 =
      gmul (a 0) 1 ^^^ gmul (a 1) 2 ^^^ gmul (a 2) 3 ^^^ gmul (a 3) 1
    rw [hone, hone]
  · show a 0 ^^^ a 1 ^^^ gmul (a 2) 2 ^^^ gmul (a 3) 3 =
      gmul (a 0) 1 ^^^ gmul (a 1) 1 ^^^ gmul (a 2) 2 ^^^ gmul (a 3) 3
    rw [hone, hone]
  · show gmul (a 0) 3 ^^^ a 1 ^^^ a 2 ^^^ gmul (a 3) 2 =
      gmul (a 0) 3 ^^^ gmul (a 1) 1 ^^^ gmul (a 2) 1 ^^^ gmul (a 3) 2
    rw [hone, hone]

theorem column_invMix (a : Fin 4 → BitVec 8) :
    column (invMix a) = invMixMatrix.mulVec (column a) := by
  funext i
  apply Gf256.ext
  rw [byte_mulVec]
  fin_cases i
  · rfl
  · rfl
  · rfl
  · rfl

theorem column_injective : Function.Injective column := by
  intro a b h
  funext i
  exact congrArg Gf256.byte (congrFun h i)

theorem mixMatrix_mul : mixMatrix * invMixMatrix = 1 := by
  decide +kernel

theorem invMixMatrix_mul : invMixMatrix * mixMatrix = 1 := by
  decide +kernel

theorem mix_invMix (a : Fin 4 → BitVec 8) : mix (invMix a) = a := by
  apply column_injective
  rw [column_mix, column_invMix, Matrix.mulVec_mulVec, mixMatrix_mul, Matrix.one_mulVec]

theorem invMix_mix (a : Fin 4 → BitVec 8) : invMix (mix a) = a := by
  apply column_injective
  rw [column_invMix, column_mix, Matrix.mulVec_mulVec, invMixMatrix_mul, Matrix.one_mulVec]

/-! ## AESMC and AESIMC -/

/-- Column `c` of a register. -/
def columnOf (x : BitVec 128) (c : ℕ) (r : Fin 4) : BitVec 8 := byteOf x (c * 4 + r.val)

/-- The bytes of a register that is put together by columns. -/
theorem byte_ofColumns (f : ℕ → Fin 4 → BitVec 8) {i : ℕ} (hi : i < 16) :
    byteOf (Bytes.ofLe 128 ((List.range 4).flatMap fun c => List.ofFn (f c))) i =
      f (i / 4) (Fin.ofNat 4 (i % 4)) := by
  have hlist : ((List.range 4).flatMap fun c => List.ofFn (f c)) =
      (List.range (4 * 4)).map fun i => f (i / 4) (Fin.ofNat 4 (i % 4)) :=
    Loops.range_flatMap_map 4 4 fun c r => f c (Fin.ofNat 4 r)
  rw [hlist, byte_ofLe (by rw [List.length_map, List.length_range]) hi, List.getD_eq_getElem?_getD,
    List.getElem?_map, List.getElem?_range hi]
  rfl

theorem columnOf_aesmc (x : BitVec 128) (decrypt : Bool) {c : ℕ} (hc : c < 4) :
    columnOf (aesmc x decrypt) c = (if decrypt then invMix else mix) (columnOf x c) := by
  funext r
  have hr := r.isLt
  have hdiv : (c * 4 + r.val) / 4 = c := by omega
  have hmod : Fin.ofNat 4 ((c * 4 + r.val) % 4) = r := by
    apply Fin.ext
    show (c * 4 + r.val) % 4 % 4 = r.val
    omega
  have hcol : (![(Bytes.toLe 16 x).getD (c * 4) 0, (Bytes.toLe 16 x).getD (c * 4 + 1) 0,
      (Bytes.toLe 16 x).getD (c * 4 + 2) 0, (Bytes.toLe 16 x).getD (c * 4 + 3) 0] :
      Fin 4 → BitVec 8) = columnOf x c := by
    rw [getD_toLe _ (by omega), getD_toLe _ (by omega), getD_toLe _ (by omega),
      getD_toLe _ (by omega)]
    funext r
    fin_cases r <;> rfl
  unfold aesmc
  show byteOf _ (c * 4 + r.val) = _
  rw [byte_ofColumns _ (by omega), hdiv, hmod, hcol]
  cases decrypt <;> rfl

/-- A register is its columns. -/
theorem eq_of_columnOf {x y : BitVec 128} (h : ∀ c < 4, columnOf x c = columnOf y c) : x = y := by
  refine eq_of_byte fun i hi => ?_
  have hbyte := congrFun (h (i / 4) (by omega)) ⟨i % 4, by omega⟩
  unfold columnOf at hbyte
  rw [Nat.div_add_mod'] at hbyte
  exact hbyte

theorem aesimc_aesmc (x : BitVec 128) : aesmc (aesmc x false) true = x := by
  refine eq_of_columnOf fun c hc => ?_
  rw [columnOf_aesmc _ _ hc, columnOf_aesmc _ _ hc]
  exact invMix_mix _

theorem aesmc_aesimc (x : BitVec 128) : aesmc (aesmc x true) false = x := by
  refine eq_of_columnOf fun c hc => ?_
  rw [columnOf_aesmc _ _ hc, columnOf_aesmc _ _ hc]
  exact mix_invMix _

/-! ## The instructions -/

variable {M : Type} [GuestMem M]

/-- **The AES instructions undo each other.** AESIMC and AESMC, in either order, and AESD with a
    zero key after AESE, but for the key; as the tables, the row shifts and the matrices of the
    columns are inverse. -/
theorem execute_aes (t : Target) (rest : VecUnit) (g : Guest M) (pc pc' : BitVec 64)
    (rn rd rz : Reg) :
    ((∀ b, entry invSbox (entry sbox b) = b ∧ entry sbox (entry invSbox b) = b) ∧
      (∀ i < 16, shifts.getD (invShifts.getD i 0) 0 = i ∧
        invShifts.getD (shifts.getD i 0) 0 = i) ∧
      mixMatrix * invMixMatrix = 1 ∧ invMixMatrix * mixMatrix = 1) ∧
    (∀ x, aesmc (aesmc x false) true = x ∧ aesmc (aesmc x true) false = x ∧
      ∀ k, aese (aese x k false) 0 true = x ^^^ k) ∧
    (∀ opcode opcode' : ℕ, (opcode, opcode') = (6, 7) ∨ (opcode, opcode') = (7, 6) →
      ∃ g', execute (vecUnit t (aesUnit rest)) g (.cryptoAes opcode rn rd) pc = some (none, g') ∧
        execute (vecUnit t (aesUnit rest)) g' (.cryptoAes opcode' rd rd) pc' =
          some (none, g.setV rd (g.cpu.v rn))) ∧
    (rz ≠ rd → g.cpu.v rz = 0 →
      ∃ g', execute (vecUnit t (aesUnit rest)) g (.cryptoAes 4 rn rd) pc = some (none, g') ∧
        execute (vecUnit t (aesUnit rest)) g' (.cryptoAes 5 rz rd) pc' =
          some (none, g.setV rd (g.cpu.v rd ^^^ g.cpu.v rn))) := by
  have hnew (v : BitVec 128) : (g.setV rd v).cpu.v rd = v := by
    show Function.update g.cpu.v rd v rd = v
    rw [Function.update_self]
  have hset (v v' : BitVec 128) : (g.setV rd v).setV rd v' = g.setV rd v' := by
    unfold Guest.setV
    dsimp only
    rw [Function.update_idem]
  refine ⟨⟨fun b => ⟨invSbox_sbox b, sbox_invSbox b⟩,
    fun i hi => ⟨(shifts_invShifts i hi).2, (invShifts_shifts i hi).2⟩, mixMatrix_mul,
    invMixMatrix_mul⟩, fun x => ⟨aesimc_aesmc x, aesmc_aesimc x, aesd_aese x⟩, ?_, ?_⟩
  · intro opcode opcode' hop
    rcases hop with hop | hop
    · obtain ⟨rfl, rfl⟩ := Prod.mk.inj hop
      refine ⟨_, rfl, ?_⟩
      show some (none, (g.setV rd (aesmc (g.cpu.v rn) false)).setV rd
        (aesmc ((g.setV rd (aesmc (g.cpu.v rn) false)).cpu.v rd) true)) = _
      rw [hset, hnew, aesimc_aesmc]
    · obtain ⟨rfl, rfl⟩ := Prod.mk.inj hop
      refine ⟨_, rfl, ?_⟩
      show some (none, (g.setV rd (aesmc (g.cpu.v rn) true)).setV rd
        (aesmc ((g.setV rd (aesmc (g.cpu.v rn) true)).cpu.v rd) false)) = _
      rw [hset, hnew, aesmc_aesimc]
  · intro hne hzero
    have hkey (v : BitVec 128) : (g.setV rd v).cpu.v rz = 0 := by
      show Function.update g.cpu.v rd v rz = 0
      rw [Function.update_of_ne hne, hzero]
    refine ⟨_, rfl, ?_⟩
    show some (none, (g.setV rd (aese (g.cpu.v rd) (g.cpu.v rn) false)).setV rd
      (aese ((g.setV rd (aese (g.cpu.v rd) (g.cpu.v rn) false)).cpu.v rd)
        ((g.setV rd (aese (g.cpu.v rd) (g.cpu.v rn) false)).cpu.v rz) true)) = _
    rw [hset, hnew, hkey, aesd_aese]

/-- A guest with the numbers of the vector registers in them. -/
def numberedGuest : Guest (Bus Empty) where
  cpu := { CpuState.new with v := fun r => BitVec.ofNat 128 r.val }
  mem := ⟨⟨0, 0, fun _ => 0⟩, []⟩

/-- AESE of V2 with the key V3, and AESD with the zero key V0. -/
theorem execute_aes_numberedGuest :
    ∃ g', execute (vecUnit Target.release64 (aesUnit fun _ _ => none)) numberedGuest
        (.cryptoAes 4 3 2) 0 = some (none, g') ∧
      execute (vecUnit Target.release64 (aesUnit fun _ _ => none)) g' (.cryptoAes 5 0 2) 4 =
        some (none, numberedGuest.setV 2 (numberedGuest.cpu.v 2 ^^^ numberedGuest.cpu.v 3)) :=
  (execute_aes Target.release64 (fun _ _ => none) numberedGuest 0 4 3 2 0).2.2.2 (by decide) rfl

end V64.Interp.Simd
