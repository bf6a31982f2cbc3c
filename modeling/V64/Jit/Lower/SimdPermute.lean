import V64.Interp.Simd.Permute
import V64.Interp.Simd.TwoRegMisc
import V64.Jit.Lower.SimdArith
import V64.Lib.Fill

/-!
# Permutes

The lowerings that move elements by one byte shuffle, against the executors that move them
one by one.

* `lane_shuffle_elem`: a shuffle of the bytes of whole elements.
* `agree_zipTrn`, `agree_ext`, `agree_tbl`, `agree_rev`: the families.
-/

namespace V64.Jit

open V64.Cpu V64.Decoder V64.Interp V64.Interp.Simd V64.Platform Checked Wasm Fill
open Wasm.Instr

variable {M : Type} [LinearMemory M] {base : BitVec 32} {H : CpuState → M} {cpu : CpuState}

/-! ## Shuffles -/

theorem bytes_mul (size : ℕ) : (1 <<< size) * 8 = 8 <<< size := by
  rw [Nat.shiftLeft_eq, Nat.shiftLeft_eq, Nat.one_mul, Nat.mul_comm]

/-- Where the bytes of element `i` come from element `si` of one operand, so does the
    element. -/
theorem lane_shuffle_elem {size : ℕ} {lanes : List ℕ} {a b : BitVec 128} {i si : ℕ}
    (hi : (i + 1) * (1 <<< size) ≤ 16) (hsi : (si + 1) * (1 <<< size) ≤ 16) (fromB : Bool)
    (hlanes : ∀ k < 1 <<< size, lanes.getD (i * (1 <<< size) + k) 0 =
      (if fromB then 16 else 0) + si * (1 <<< size) + k) :
    Lanes.lane (8 <<< size) (shuffle lanes a b) i =
      Lanes.lane (8 <<< size) (if fromB then b else a) si := by
  refine Lanes.lane_eq_of_sublanes (bytes_mul size) fun k hk => ?_
  rw [Nat.succ_mul] at hi hsi
  rw [lane_shuffle _ _ _ (by omega), hlanes k hk]
  unfold byteOfPair
  cases fromB with
  | false =>
    rw [if_neg Bool.false_ne_true, if_neg Bool.false_ne_true, Nat.zero_add, if_pos (by omega)]
  | true => 
    rw [if_pos rfl, if_pos rfl, if_neg (by omega), Nat.add_assoc, Nat.add_sub_cancel_left]

theorem vecEmits_shuffle2 (himage : VecImage base H) (q : Bool) (rn rm rd : Reg)
    (lanes : List ℕ) :
    VecEmits base H (shuffle2 q rn rm rd lanes) cpu
      (setV cpu rd (finish q (shuffle lanes (cpu.v rn) (cpu.v rm)))) := by
  refine vecEmits_two himage q rd fun fuel st l m => ?_
  rw [exec_simd rfl, exec_nil]

theorem laneCount_bytes {size : ℕ} (h : size ≤ 3) {q : Bool} {i : ℕ}
    (hi : i < laneCount size q) : (i + 1) * (1 <<< size) ≤ if q then 16 else 8 := by
  have hcount : ∀ size ≤ 3, ∀ q, laneCount size q * (1 <<< size) = if q then 16 else 8 := by
    decide
  rw [← hcount size h q]
  exact Nat.mul_le_mul_right _ hi

/-! ## ZIP, UZP and TRN -/

/-- The source of element `i`: whether it is in Vm, and which element it is. -/
def permSource (opcode half i : ℕ) : Bool × ℕ :=
  if opcode = 0b011 then (i % 2 != 0, i / 2)
  else if opcode = 0b111 then (i % 2 != 0, half + i / 2)
  else if opcode = 0b001 then if i < half then (false, 2 * i) else (true, 2 * (i - half))
  else if opcode = 0b101 then if i < half then (false, 2 * i + 1) else (true, 2 * (i - half) + 1)
  else if opcode = 0b010 then (i % 2 != 0, 2 * (i / 2))
  else (i % 2 != 0, 2 * (i / 2) + 1)

theorem permSource_lt (opcode : ℕ) {half i : ℕ} (hi : i < 2 * half) :
    (permSource opcode half i).2 < 2 * half := by
  unfold permSource
  split_ifs
  · dsimp only
    omega
  · dsimp only
    omega
  · dsimp only
    omega
  · dsimp only
    omega
  · dsimp only
    omega
  · dsimp only
    omega
  · dsimp only
    omega
  · dsimp only
    omega

/-- The emitter finds the sources that the interpreter uses. -/
theorem zipTrnSource_eq (opcode : ℕ) {half i : ℕ} (hi : i < 2 * half) :
    zipTrnSource opcode half i = some (permSource opcode half i) := by
  have hodd : (i % 2 == 1) = (i % 2 != 0) := by
    obtain h | h : i % 2 = 0 ∨ i % 2 = 1 := by omega
    · rw [h]
      rfl
    · rw [h]
      rfl
  -- where the emitter wraps the index, the interpreter subtracts
  have hwrap : decide (i ≥ half) = !decide (i < half) ∧
      i % half = if i < half then i else i - half := by
    split_ifs with h
    · exact ⟨by simp [h], Nat.mod_eq_of_lt h⟩
    · rw [Nat.mod_eq_sub_mod (by omega), Nat.mod_eq_of_lt (by omega)]
      exact ⟨by simp [h, Nat.le_of_not_lt h], rfl⟩
  unfold zipTrnSource
  split
  · rw [hodd]
    rfl
  · rw [hodd]
    rfl
  · show _ = some (if i < half then (false, 2 * i) else (true, 2 * (i - half)))
    rw [if_neg (by omega), hwrap.1, hwrap.2]
    split_ifs with h
    · rw [decide_eq_true h]
      rfl
    · rw [decide_eq_false h]
      rfl
  · show _ = some (if i < half then (false, 2 * i + 1) else (true, 2 * (i - half) + 1))
    rw [if_neg (by omega), hwrap.1, hwrap.2]
    split_ifs with h
    · rw [decide_eq_true h]
      rfl
    · rw [decide_eq_false h]
      rfl
  · rw [hodd]
    rfl
  · next h3 h7 h1 h5 h2 =>
    rw [hodd, permSource, if_neg h3, if_neg h7, if_neg h1, if_neg h5, if_neg h2]

section Interp

variable (fa fb : ℕ → BitVec 64) {n : ℕ}

theorem setAt_filled {f : ℕ → BitVec 64} {m : ℕ} {r : List (BitVec 64)} (h : Filled f n m r)
    (hm : m < n) : ∃ r', setAt r m (f m) = some r' ∧ Filled f n (m + 1) r' :=
  ⟨_, if_pos (by rw [h.length]; exact hm), h.set hm⟩

theorem exists_gather (src : ℕ → Bool × ℕ) (hsrc : ∀ i < n, (src i).2 < n) :
    gather ((List.range n).map fa) ((List.range n).map fb) n src (List.replicate n 0) =
      some ((List.range n).map fun i => if (src i).1 then fb (src i).2 else fa (src i).2) := by
  obtain ⟨r, hr, hfilled⟩ := foldlM_range (m := n) (s := List.replicate n (0 : BitVec 64))
    (f := fun r i => do
      let x ← if (src i).1 then ((List.range n).map fb)[(src i).2]?
        else ((List.range n).map fa)[(src i).2]?
      setAt r i x)
    (P := Filled (fun i => if (src i).1 then fb (src i).2 else fa (src i).2) n)
    (fun k hk r hfilled => by
      have hin := hsrc k hk
      obtain ⟨r', hr', hfilled'⟩ := setAt_filled hfilled hk
      refine ⟨r', ?_, hfilled'⟩
      rw [List.getElem?_map, List.getElem?_map, List.getElem?_range hin, Option.map_some,
        Option.map_some]
      cases hfrom : (src k).1 with
      | false =>
        rw [hfrom] at hr'
        exact hr'
      | true => 
        rw [hfrom] at hr'
        exact hr')
    (filled_replicate _ n 0)
  rw [← hfilled.eq_map]
  exact hr

theorem exists_transpose {half odd : ℕ} (hn : n = 2 * half) (hodd : odd < 2) :
    transpose ((List.range n).map fa) ((List.range n).map fb) half odd (List.replicate n 0) =
      some ((List.range n).map fun i =>
        if i % 2 != 0 then fb (2 * (i / 2) + odd) else fa (2 * (i / 2) + odd)) := by
  obtain ⟨r, hr, hfilled⟩ := foldlM_range (m := half) (s := List.replicate n (0 : BitVec 64))
    (f := fun r k => do
      let r ← setAt r (2 * k) (← ((List.range n).map fa)[2 * k + odd]?)
      setAt r (2 * k + 1) (← ((List.range n).map fb)[2 * k + odd]?))
    (P := fun k => Filled (fun i =>
      if i % 2 != 0 then fb (2 * (i / 2) + odd) else fa (2 * (i / 2) + odd)) n (2 * k))
    (fun k hk r hfilled => by
      obtain ⟨r₁, hr₁, hfilled₁⟩ := setAt_filled hfilled (by omega)
      obtain ⟨r₂, hr₂, hfilled₂⟩ := setAt_filled hfilled₁ (by omega)
      refine ⟨r₂, ?_, hfilled₂⟩
      have heven : 2 * k % 2 = 0 ∧ 2 * k / 2 = k := by omega
      have hnext : (2 * k + 1) % 2 = 1 ∧ (2 * k + 1) / 2 = k := by omega
      simp only [heven.1, heven.2] at hr₁
      simp only [hnext.1, hnext.2] at hr₂
      rw [List.getElem?_map, List.getElem?_map, List.getElem?_range (by omega), Option.map_some,
        Option.map_some]
      show (setAt r (2 * k) (fa (2 * k + odd))).bind _ = _
      rw [show setAt r (2 * k) (fa (2 * k + odd)) = some r₁ from hr₁]
      exact hr₂)
    (filled_replicate _ n 0)
  rw [← hn] at hfilled
  rw [← hfilled.eq_map]
  exact hr

end Interp

theorem exists_permute {size : ℕ} (h : size ≤ 3) {q : Bool} {half : ℕ}
    (hcount : laneCount size q = 2 * half) (w : VecView) (opcode : ℕ) (rm rn rd : Reg) :
    ∃ v, permute w q size opcode rm rn rd = some (w.setV rd v) ∧
      HasLanes size q (fun i => Lanes.lane (8 <<< size)
        (if (permSource opcode half i).1 then w.v rm else w.v rn) (permSource opcode half i).2)
        v := by
  generalize hfa : (fun i => (Lanes.lane (8 <<< size) (w.v rn) i).setWidth 64) = fa
  generalize hfb : (fun i => (Lanes.lane (8 <<< size) (w.v rm) i).setWidth 64) = fb
  have hsrc (i : ℕ) (hi : i < laneCount size q) :
      (permSource opcode half i).2 < laneCount size q := by
    rw [hcount] at hi ⊢
    exact permSource_lt opcode hi
  refine ⟨join ((List.range (laneCount size q)).map fun i =>
    if (permSource opcode half i).1 then fb (permSource opcode half i).2
    else fa (permSource opcode half i).2) size, ?_, ?_⟩
  · have hhalf : laneCount size q / 2 = half := by omega
    have hgather := exists_gather fa fb (permSource opcode half) hsrc
    have htrn (odd : ℕ) (hodd : odd < 2) :=
      exists_transpose fa fb hcount hodd
    unfold permute
    rw [split_eq h, split_eq h, hfa, hfb]
    dsimp only
    rw [List.length_map, List.length_range, hhalf]
    split
    · exact congrArg (·.bind fun r => some (w.setV rd (join r size))) hgather
    · exact congrArg (·.bind fun r => some (w.setV rd (join r size))) hgather
    · exact congrArg (·.bind fun r => some (w.setV rd (join r size))) hgather
    · exact congrArg (·.bind fun r => some (w.setV rd (join r size))) hgather
    · exact congrArg (·.bind fun r => some (w.setV rd (join r size))) (htrn 0 (by decide))
    · next h3 h7 h1 h5 h2 =>
      have hsource : permSource opcode half = fun i => (i % 2 != 0, 2 * (i / 2) + 1) := by
        funext i
        rw [permSource, if_neg h3, if_neg h7, if_neg h1, if_neg h5, if_neg h2]
      rw [hsource]
      exact congrArg (·.bind fun r => some (w.setV rd (join r size))) (htrn 1 (by decide))
  · refine hasLanes_join h (by simp) fun i hi => ?_
    rw [List.getElem_map, List.getElem_range]
    subst hfa hfb
    cases (permSource opcode half i).1 with
    | false => exact setWidth_cut (esize_le h) _
    | true => exact setWidth_cut (esize_le h) _

/-- The byte pattern of the emitter: byte `k` of element `i` is byte `k` of its source. -/
theorem exists_zipTrnLanes {esize half : ℕ} (hfit : 2 * half * esize ≤ 16) (opcode : ℕ) :
    ∃ lanes, zipTrnLanes esize (2 * half) opcode = some lanes ∧
      ∀ i < 2 * half, ∀ k < esize, lanes.getD (i * esize + k) 0 =
        (if (permSource opcode half i).1 then 16 else 0) +
          (permSource opcode half i).2 * esize + k := by
  generalize hf : (fun j => (if (permSource opcode half (j / esize)).1 then 16 else 0) +
    (permSource opcode half (j / esize)).2 * esize + j % esize) = f
  have hdiv (i k : ℕ) (hk : k < esize) : f (i * esize + k) =
      (if (permSource opcode half i).1 then 16 else 0) +
        (permSource opcode half i).2 * esize + k := by
    subst hf
    have hesize : 0 < esize := by omega
    dsimp only
    rw [Nat.mul_comm i esize, Nat.mul_add_div hesize, Nat.mul_add_mod, Nat.div_eq_of_lt hk,
      Nat.mod_eq_of_lt hk, Nat.add_zero]
  obtain ⟨lanes, hlanes, hfilled⟩ := foldlM_range (m := 2 * half) (s := List.replicate 16 0)
    (f := fun lanes oi => (zipTrnSource opcode (2 * half / 2) oi).bind fun source =>
      (List.range esize).foldlM (fun lanes b => setLane lanes (oi * esize + b)
        ((if source.1 then 16 else 0) + source.2 * esize + b)) lanes)
    (P := fun i => Filled f 16 (i * esize))
    (fun i hi lanes hfilled => by
      have hsi := permSource_lt opcode hi
      have hend : (i + 1) * esize ≤ 2 * half * esize := Nat.mul_le_mul_right _ hi
      have hsrc : ((permSource opcode half i).2 + 1) * esize ≤ 2 * half * esize :=
        Nat.mul_le_mul_right _ hsi
      rw [Nat.succ_mul] at hend hsrc
      obtain ⟨lanes', hlanes', hfilled'⟩ := foldlM_range (m := esize) (s := lanes)
        (f := fun lanes b => setLane lanes (i * esize + b)
          ((if (permSource opcode half i).1 then 16 else 0) +
            (permSource opcode half i).2 * esize + b))
        (P := fun b => Filled f 16 (i * esize + b))
        (fun b hb lanes hfilled => by
          have hvalue : ((if (permSource opcode half i).1 then 16 else 0) +
              (permSource opcode half i).2 * esize + b) % 256 = f (i * esize + b) := by
            rw [hdiv i b hb]
            refine Nat.mod_eq_of_lt ?_
            split_ifs <;> omega
          refine ⟨lanes.set (i * esize + b) (f (i * esize + b)), ?_, hfilled.set (by omega)⟩
          unfold setLane
          rw [if_pos (by omega), hvalue])
        hfilled
      refine ⟨lanes', ?_, by rw [Nat.succ_mul]; exact hfilled'⟩
      rw [Nat.mul_div_cancel_left half (by decide : 0 < 2), zipTrnSource_eq opcode hi]
      exact hlanes')
    (by rw [Nat.zero_mul]; exact filled_replicate f 16 0)
  refine ⟨lanes, hlanes, fun i hi k hk => ?_⟩
  have hend : (i + 1) * esize ≤ 2 * half * esize := Nat.mul_le_mul_right _ hi
  rw [Nat.succ_mul] at hend
  rw [List.getD_eq_getElem?_getD, hfilled.get _ (by omega), Option.getD_some, hdiv i k hk]

theorem agree_zipTrn (himage : VecImage base H) {q : Bool} {size : ℕ}
    (hsize : size ≤ if q then 3 else 2) (opcode : ℕ) (rm rn rd : Reg) :
    VecAgree base H cpu (simdZipTrn q size opcode rm rn rd)
      (permute (vecView cpu) q size opcode rm rn rd) := by
  have heven : ∀ q, ∀ size ≤ (if q then 3 else 2),
      laneCount size q = 2 * (laneCount size q / 2) ∧
        (if q then 16 else 8) / (1 <<< size) = laneCount size q ∧
        laneCount size q * (1 <<< size) ≤ 16 := by decide
  have h : size ≤ 3 := by
    split_ifs at hsize <;> omega
  obtain ⟨hcount, hn, hfit⟩ := heven q size hsize
  generalize laneCount size q / 2 = half at hcount
  obtain ⟨v, hv, hlanes⟩ := exists_permute h hcount (vecView cpu) opcode rm rn rd
  rw [hcount] at hfit
  obtain ⟨lanes, hpattern, hbytes⟩ := exists_zipTrnLanes hfit opcode
  have hcode : simdZipTrn q size opcode rm rn rd = some (shuffle2 q rn rm rd lanes) := by
    unfold simdZipTrn
    rw [hn, hcount, hpattern]
    rfl
  refine .of_lanes h hcode hv hlanes (fun i hi => ?_) (vecEmits_shuffle2 himage q rn rm rd lanes)
  rw [hcount] at hi
  have hin (j : ℕ) (hj : j < 2 * half) : (j + 1) * (1 <<< size) ≤ 16 :=
    Nat.le_trans (Nat.mul_le_mul_right _ hj) hfit
  exact lane_shuffle_elem (hin i hi) (hin _ (permSource_lt opcode hi)) _ (hbytes i hi)

/-! ## Bytes -/

theorem leByte_eq (v : BitVec 128) (k : ℕ) : leByte v k = Lanes.lane 8 v k := by
  rw [Lanes.lane_eq, leByte, Nat.mul_comm]

theorem lane_fromLeBytes {bytes : List (BitVec 8)} (hlen : bytes.length = 16) {i : ℕ}
    (hi : i < bytes.length) : Lanes.lane 8 (fromLeBytes bytes) i = bytes[i] := by
  show Lanes.lane 8 (Lanes.pack 8 (bytes.map fun (b : BitVec 8) => b.setWidth 128)) i = _
  rw [Lanes.lane_pack _ (by rw [List.length_map, hlen]) (by rwa [List.length_map]),
    List.getElem_map, BitVec.setWidth_setWidth_of_le _ (by decide), BitVec.setWidth_eq]
  intro x hx
  obtain ⟨b, -, rfl⟩ := List.mem_map.mp hx
  exact Lanes.narrow_setWidth _ (Nat.le_refl 8)

/-- The number of bytes of an arrangement. -/
def byteCount (q : Bool) : ℕ := if q then 16 else 8

theorem laneCount_zero (q : Bool) : laneCount 0 q = byteCount q := by
  cases q <;> rfl

/-- A register put together from its bytes, with zeros above the arrangement. -/
theorem hasLanes_fromLeBytes {q : Bool} {f : ℕ → BitVec 8} :
    HasLanes 0 q f (fromLeBytes ((List.range 16).map fun i =>
      if i < byteCount q then f i else 0)) := by
  have hlane (i : ℕ) (hi : i < 16) : Lanes.lane 8 (fromLeBytes ((List.range 16).map fun i =>
      if i < byteCount q then f i else 0)) i = if i < byteCount q then f i else 0 := by
    rw [lane_fromLeBytes (by simp) (by simpa using hi), List.getElem_map, List.getElem_range]
  have hle : byteCount q ≤ 16 := by
    cases q <;> decide
  constructor
  · intro i hi
    rw [laneCount_zero] at hi
    exact (hlane i (by omega)).trans (if_pos hi)
  · intro k hk
    by_cases hin : k < 128
    · have hbyte : ¬ k / 8 < byteCount q := by
        unfold byteCount
        split_ifs at hk ⊢ <;> omega
      have hbit := congrArg (BitVec.getLsbD · (k % 8)) (hlane (k / 8) (by omega))
      rw [if_neg hbyte, Lanes.getLsbD_lane, decide_eq_true (Nat.mod_lt k (by decide)),
        Bool.true_and, Nat.div_add_mod' k 8] at hbit
      exact hbit.trans BitVec.getLsbD_zero
    · exact BitVec.getLsbD_of_ge _ k (by omega)

/-! ## EXT -/

/-- Byte `j` of the `nb` bytes from `imm4` on of two vectors in a row. -/
def extByte (nb imm4 : ℕ) (a b : BitVec 128) (j : ℕ) : BitVec 8 :=
  if imm4 + j < nb then Lanes.lane 8 a (imm4 + j) else Lanes.lane 8 b (imm4 + j - nb)

theorem exists_extract {q : Bool} {imm4 : ℕ} (himm : imm4 < byteCount q) (w : VecView)
    (rm rn rd : Reg) :
    ∃ v, Simd.extract w q imm4 rm rn rd = some (w.setV rd v) ∧
      HasLanes 0 q (extByte (byteCount q) imm4 (w.v rn) (w.v rm)) v := by
  refine ⟨_, ?_, hasLanes_fromLeBytes⟩
  have hle : byteCount q ≤ 16 := by
    cases q <;> decide
  have hlen (v : BitVec 128) : (toLeBytes v).length = 16 := by
    simp [toLeBytes]
  have hbyte (v : BitVec 128) (k : ℕ) (hk : k < (toLeBytes v).length) :
      (toLeBytes v)[k] = Lanes.lane 8 v k := by
    simp only [toLeBytes, List.getElem_map, List.getElem_range, leByte_eq]
  unfold Simd.extract
  rw [show (if q = true then 16 else 8) = byteCount q from rfl]
  generalize byteCount q = nb at himm hle
  have hcat : imm4 + nb ≤ ((toLeBytes (w.v rn)).take nb ++ (toLeBytes (w.v rm)).take nb ++
      List.replicate (32 - 2 * nb) (0 : BitVec 8)).length := by
    simp only [List.length_append, List.length_take, List.length_replicate, hlen]
    omega
  dsimp only
  rw [if_pos hcat]
  congr 3
  apply List.ext_getElem
  · simp only [List.length_append, List.length_take, List.length_drop, List.length_replicate, hlen,
      List.length_map, List.length_range]
    omega
  · intro j h₁ h₂
    have hj : j < 16 := by simpa using h₂
    simp only [List.getElem_append, List.getElem_take, List.getElem_drop, List.getElem_replicate,
      List.length_append, List.length_take, List.length_drop, List.length_replicate, hlen, hbyte,
      List.getElem_map, List.getElem_range, extByte]
    split_ifs <;> first | rfl | omega | (congr 1; omega)

theorem agree_ext (himage : VecImage base H) {q : Bool} {imm4 : ℕ} (himm : imm4 < byteCount q)
    (rm rn rd : Reg) :
    VecAgree base H cpu (some (simdExt q imm4 rm rn rd))
      (Simd.extract (vecView cpu) q imm4 rm rn rd) := by
  obtain ⟨v, hv, hlanes⟩ := exists_extract himm (vecView cpu) rm rn rd
  refine .of_lanes (by decide) rfl hv hlanes (fun j hj => ?_)
    (vecEmits_shuffle2 himage q rn rm rd _)
  rw [laneCount_zero] at hj
  have hle : byteCount q ≤ 16 := by
    cases q <;> decide
  have hpattern : (extLanes q imm4).getD j 0 =
      if imm4 + j < byteCount q then imm4 + j else 16 + (imm4 + j - byteCount q) := by
    rw [extLanes, List.getD_eq_getElem?_getD, List.getElem?_map,
      List.getElem?_range (by omega : j < 16), Option.map_some, Option.getD_some]
    unfold byteCount at *
    cases q with
    | true => 
      simp only [if_true, true_or] at *
      split_ifs <;> omega
    | false =>
      simp only [Bool.false_eq_true, if_false, false_or] at *
      split_ifs <;> omega
  show Lanes.lane 8 _ j = extByte (byteCount q) imm4 (cpu.v rn) (cpu.v rm) j
  rw [lane_shuffle _ _ _ (by omega), hpattern]
  unfold byteOfPair extByte
  split_ifs <;> first | rfl | omega | (congr 1; omega)

/-! ## TBL -/

theorem agree_tbl (himage : VecImage base H) (q : Bool) {isTbx : Bool} {len : ℕ}
    (hinline : canLowerTbl isTbx len = true) (rm rn rd : Reg) :
    VecAgree base H cpu (simdTbl q isTbx len rm rn rd)
      (some (tbl (vecView cpu) q isTbx len rm rn rd)) := by
  simp only [canLowerTbl, Bool.and_eq_true, Bool.not_eq_true', beq_iff_eq] at hinline
  obtain ⟨rfl, rfl⟩ := hinline
  refine .of_lanes (by decide) rfl rfl hasLanes_fromLeBytes (fun i hi => ?_)
    (vecEmits_two himage q rd fun fuel st l m => by rw [i8x16Swizzle, exec_simd rfl, exec_nil])
  rw [laneCount_zero] at hi
  have hle : byteCount q ≤ 16 := by
    cases q <;> decide
  show Lanes.lane 8 _ i = _
  rw [lane_swizzle _ _ (by omega), leByte_eq]
  show (if (Lanes.lane 8 (cpu.v rm) i).toNat < 16 then _ else _) =
    if (Lanes.lane 8 (cpu.v rm) i).toNat < 16 then
      leByte (cpu.v (Fin.ofNat 32 (rn.val + (Lanes.lane 8 (cpu.v rm) i).toNat / 16)))
        ((Lanes.lane 8 (cpu.v rm) i).toNat % 16)
    else 0
  by_cases hsel : (Lanes.lane 8 (cpu.v rm) i).toNat < 16
  · have hreg : Fin.ofNat 32 (rn.val + (Lanes.lane 8 (cpu.v rm) i).toNat / 16) = rn := by
      rw [Nat.div_eq_of_lt hsel]
      exact Fin.ext (Nat.mod_eq_of_lt rn.isLt)
    rw [if_pos hsel, if_pos hsel, leByte_eq, hreg, Nat.mod_eq_of_lt hsel]
  · rw [if_neg hsel, if_neg hsel]

/-! ## REV -/

theorem exists_rev {size per m : ℕ} (h : size ≤ 3) {q : Bool} {container : ℕ} (hpos : 0 < per)
    (hper : container / (8 <<< size) = per) (hcount : laneCount size q = m * per)
    (val : BitVec 128) :
    ∃ v, rev val size q container = some v ∧
      HasLanes size q
        (fun i => Lanes.lane (8 <<< size) val (i / per * per + (per - 1 - i % per))) v := by
  have hchunks : (m * per + per - 1) / per = m := by
    rw [Nat.add_sub_assoc hpos, Nat.mul_comm, Nat.mul_add_div hpos,
      Nat.div_eq_of_lt (Nat.sub_lt hpos (by decide)), Nat.add_zero]
  refine ⟨join ((List.range (m * per)).map fun i =>
    (Lanes.lane (8 <<< size) val (i / per * per + (per - 1 - i % per))).setWidth 64) size, ?_, ?_⟩
  · unfold rev
    dsimp only
    rw [hper, if_neg (by omega), split_eq h, hcount, List.length_map, List.length_range, hchunks,
      reverse_chunks]
  · refine hasLanes_join h (by simp [hcount]) fun i hi => ?_
    rw [List.getElem_map, List.getElem_range]
    exact setWidth_cut (esize_le h) _

/-- The lane that REV moves to lane `i`, in groups of `per` lanes. -/
theorem revSource_lt {per m n i : ℕ} (hn : n = m * per) (hi : i < n) :
    i / per * per + (per - 1 - i % per) < n := by
  subst hn
  have hgroup : i / per + 1 ≤ m := Nat.div_lt_of_lt_mul (by rwa [Nat.mul_comm])
  have hle := Nat.mul_le_mul_right per hgroup
  rw [Nat.succ_mul] at hle
  have hpos : 0 < per := Nat.pos_of_ne_zero fun h => by simp [h] at hi
  omega

/-- The byte pattern of the emitter. -/
theorem exists_revLanes {q : Bool} {size bytes per m : ℕ} (h : size ≤ 3) (hpos : 0 < per)
    (hbytes : bytes = per * (1 <<< size)) (hm : laneCount size q = m * per) :
    ∃ lanes, revLanes q size bytes = some lanes ∧
      ∀ i < laneCount size q, ∀ k < 1 <<< size, lanes.getD (i * (1 <<< size) + k) 0 =
        (i / per * per + (per - 1 - i % per)) * (1 <<< size) + k := by
  have hesize : 0 < 1 <<< size := by
    rw [Nat.one_shiftLeft]
    exact Nat.two_pow_pos size
  have hcontainer : bytes / (1 <<< size) = per := by
    rw [hbytes, Nat.mul_div_cancel _ hesize]
  unfold revLanes
  dsimp only
  rw [hcontainer, if_neg (by omega)]
  refine ⟨_, rfl, fun i hi k hk => ?_⟩
  have hend := laneCount_bytes h hi
  have hsrc := laneCount_bytes h (revSource_lt hm hi)
  rw [Nat.succ_mul] at hend hsrc
  have hlow : i * (1 <<< size) + k < if q then 16 else 8 := by omega
  have hle : (if q then 16 else 8) ≤ 16 := by
    cases q <;> decide
  have hdiv : (i * (1 <<< size) + k) / (1 <<< size) = i := by
    rw [Nat.mul_comm, Nat.mul_add_div hesize, Nat.div_eq_of_lt hk, Nat.add_zero]
  have hmod : (i * (1 <<< size) + k) % (1 <<< size) = k := by
    rw [Nat.mul_comm, Nat.mul_add_mod, Nat.mod_eq_of_lt hk]
  have hgroup : i - i / per * per = i % per := by
    have hsplit := Nat.div_add_mod' i per
    omega
  rw [List.getD_eq_getElem?_getD, List.getElem?_map, List.getElem?_range (by omega),
    Option.map_some, Option.getD_some, if_pos hlow, hdiv, hmod, hgroup]
  exact Nat.mod_eq_of_lt (by omega)

theorem agree_rev (himage : VecImage base H) {q : Bool} {size bytes per m : ℕ}
    (h : size ≤ 3) (hpos : 0 < per) (hbytes : bytes = per * (1 <<< size))
    (hm : laneCount size q = m * per) (rn rd : Reg) :
    VecAgree base H cpu (simdRev q size bytes rn rd)
      ((rev (cpu.v rn) size q (8 * bytes)).map ((vecView cpu).setV rd)) := by
  have hper : 8 * bytes / (8 <<< size) = per := by
    rw [hbytes, Nat.mul_left_comm, bits_of_bytes]
    exact Nat.mul_div_cancel per (esize_pos h)
  obtain ⟨v, hv, hlanes⟩ := exists_rev h hpos hper hm (cpu.v rn)
  obtain ⟨lanes, hpattern, hsource⟩ := exists_revLanes h hpos hbytes hm
  have hcode : simdRev q size bytes rn rd = some (shuffle2 q rn rn rd lanes) := by
    rw [simdRev, hpattern, Option.map_some]
  have hresult : (rev (cpu.v rn) size q (8 * bytes)).map ((vecView cpu).setV rd) =
      some ((vecView cpu).setV rd v) := by
    rw [hv, Option.map_some]
  refine .of_lanes h hcode hresult hlanes (fun i hi => ?_) (vecEmits_shuffle2 himage q rn rn rd _)
  have hin (j : ℕ) (hj : j < laneCount size q) : (j + 1) * (1 <<< size) ≤ 16 := by
    have hend := laneCount_bytes h hj
    split_ifs at hend <;> omega
  refine lane_shuffle_elem (hin i hi) (hin _ (revSource_lt hm hi)) false fun k hk => ?_
  rw [if_neg Bool.false_ne_true, Nat.zero_add]
  exact hsource i hi k hk

end V64.Jit
