import V64.Decoder.Bitfield
import V64.Interp.Simd.Unit
import V64.Lib.Lanes
import V64.Lib.Loops
import V64.Lib.Words
import V64.Platform.Bus

/-!
# Facts about lanes

What `split`, `join` and the helpers of the executors are on lanes of their own width.

* `sx_setWidth`, `asU64_setWidth`: the value of a lane, and the lane of a value.
* `split_eq`, `lane_join`: a register is split into its lanes and joined from them.
* `exists_join`: an element-wise operation on three registers.
* `keepLow_setV`: what a scalar form leaves of a vector.
* `vecGuest`: a guest for tests of vector instructions.
-/

namespace V64.Interp.Simd

open V64.Cpu V64.Decoder
open Lanes (Narrow)

/-! ## Widths -/

theorem esize_cases {size : ℕ} (h : size ≤ 3) :
    8 <<< size = 8 ∨ 8 <<< size = 16 ∨ 8 <<< size = 32 ∨ 8 <<< size = 64 := by
  revert size
  decide

theorem esize_le {size : ℕ} (h : size ≤ 3) : 8 <<< size ≤ 64 := by
  rcases esize_cases h with he | he | he | he <;> omega

theorem esize_pos {size : ℕ} (h : size ≤ 3) : 0 < 8 <<< size := by
  rcases esize_cases h with he | he | he | he <;> omega

variable {e : ℕ}

theorem getLsbD_widthMask (he : e ≤ 64) (i : ℕ) : (widthMask e).getLsbD i = decide (i < e) :=
  getLsbD_ones he i

theorem and_widthMask (he : e ≤ 64) (v : BitVec 64) :
    v &&& widthMask e = (v.setWidth e).setWidth 64 := by
  apply BitVec.eq_of_getLsbD_eq
  intro i hi
  rw [BitVec.getLsbD_and, getLsbD_widthMask he, BitVec.getLsbD_setWidth, BitVec.getLsbD_setWidth,
    decide_eq_true hi, Bool.true_and, Bool.and_comm]

theorem setWidth_and_widthMask (he : e ≤ 64) (v : BitVec 64) :
    (v &&& widthMask e).setWidth e = v.setWidth e := by
  rw [and_widthMask he, BitVec.setWidth_setWidth_of_le _ he, BitVec.setWidth_eq]

theorem toNat_widthMask (he : e ≤ 64) : (widthMask e).toNat = 2 ^ e - 1 := by
  have hmask : widthMask e = (BitVec.allOnes e).setWidth 64 := by
    apply BitVec.eq_of_getLsbD_eq
    intro i hi
    rw [getLsbD_widthMask he, BitVec.getLsbD_setWidth, BitVec.getLsbD_allOnes, decide_eq_true hi,
      Bool.true_and]
  rw [hmask, BitVec.toNat_setWidth_of_le he, BitVec.toNat_allOnes]

/-! ## Values -/

theorem sx_eq (hpos : 0 < e) (he : e ≤ 64) (v : BitVec 64) : sx v e = (v.setWidth e).toInt := by
  show ((v <<< (64 - e)).sshiftRight (64 - e)).toInt = _
  rw [← Words.signExtend_setWidth v hpos he, BitVec.toInt_signExtend_of_le he]

theorem sx_setWidth (hpos : 0 < e) (he : e ≤ 64) (x : BitVec e) :
    sx (x.setWidth 64) e = x.toInt := by
  rw [sx_eq hpos he, BitVec.setWidth_setWidth_of_le _ he, BitVec.setWidth_eq]

theorem toNat_setWidth_64 (he : e ≤ 64) (x : BitVec e) : (x.setWidth 64).toNat = x.toNat :=
  BitVec.toNat_setWidth_of_le he

theorem asU64_setWidth (he : e ≤ 64) (r : ℤ) : (asU64 r).setWidth e = BitVec.ofInt e r := by
  apply BitVec.eq_of_toNat_eq
  have hdvd : ((2 ^ e : ℕ) : ℤ) ∣ ((2 ^ 64 : ℕ) : ℤ) :=
    Int.natCast_dvd_natCast.mpr (Nat.pow_dvd_pow 2 he)
  have hpos : 0 ≤ r % ((2 ^ 64 : ℕ) : ℤ) := Int.emod_nonneg _ (by decide)
  unfold asU64
  rw [BitVec.toNat_setWidth, BitVec.toNat_ofInt, BitVec.toNat_ofInt, ← Int.emod_emod_of_dvd r hdvd,
    Int.toNat_emod hpos (Int.natCast_nonneg _), Int.toNat_natCast]

/-! ## Lanes of a register -/

/-- The number of lanes of an arrangement. -/
def laneCount (size : ℕ) (q : Bool) : ℕ := (if q then 128 else 64) / (8 <<< size)

theorem laneCount_pos {size : ℕ} (h : size ≤ 3) (q : Bool) : 0 < laneCount size q := by
  revert size q
  decide

theorem laneCount_mul {size : ℕ} (h : size ≤ 3) (q : Bool) :
    laneCount size q * (8 <<< size) = if q then 128 else 64 := by
  revert size q
  decide

theorem split_eq {size : ℕ} (h : size ≤ 3) (v : BitVec 128) (q : Bool) :
    split v size q =
      (List.range (laneCount size q)).map fun i => (Lanes.lane (8 <<< size) v i).setWidth 64 := by
  have he := esize_le h
  unfold split
  refine List.map_congr_left fun i _ => ?_
  have hmask : (if 8 <<< size ≥ 64 then (v >>> (i * (8 <<< size))).setWidth 64
      else (v >>> (i * (8 <<< size))).setWidth 64 &&& ((1 <<< (8 <<< size) : ℕ) - 1 : BitVec 64)) =
      (v >>> (i * (8 <<< size))).setWidth 64 &&& widthMask (8 <<< size) := by
    unfold widthMask
    split_ifs
    · rw [BitVec.and_allOnes]
    · rfl
  refine hmask.trans ?_
  rw [and_widthMask he, BitVec.setWidth_setWidth_of_le _ he, Lanes.lane_eq]

theorem join_eq {size : ℕ} (h : size ≤ 3) (lanes : List (BitVec 64)) :
    join lanes size =
      Lanes.pack (8 <<< size) (lanes.map fun l => (l.setWidth (8 <<< size)).setWidth 128) := by
  have he := esize_le h
  unfold join collect Lanes.pack
  dsimp only
  congr 2
  refine List.map_congr_left fun l _ => ?_
  split_ifs with hfull
  · have h64 : 8 <<< size = 64 := by omega
    rw [h64, BitVec.setWidth_eq]
  · apply BitVec.eq_of_getLsbD_eq
    intro i hi
    have hmask : ((1 <<< (8 <<< size) : ℕ) - 1 : BitVec 128).getLsbD i =
        decide (i < 8 <<< size) := Words.getLsbD_ones (by omega) i
    rw [BitVec.getLsbD_and, hmask, BitVec.getLsbD_setWidth, BitVec.getLsbD_setWidth,
      BitVec.getLsbD_setWidth, decide_eq_true hi, Bool.true_and, Bool.true_and, Bool.and_comm]

variable {size : ℕ} {lanes : List (BitVec 64)}

/-- Lane `i` of what is joined is element `i`. -/
theorem lane_join (h : size ≤ 3) (hlen : lanes.length * (8 <<< size) ≤ 128) {i : ℕ}
    (hi : i < lanes.length) :
    Lanes.lane (8 <<< size) (join lanes size) i = lanes[i].setWidth (8 <<< size) := by
  have hle := esize_le h
  rw [join_eq h, Lanes.lane_pack]
  · rw [List.getElem_map, BitVec.setWidth_setWidth_of_le _ (by omega), BitVec.setWidth_eq]
  · intro x hx
    obtain ⟨l, -, rfl⟩ := List.mem_map.mp hx
    exact Lanes.narrow_setWidth _ (Nat.le_refl _)
  · rw [List.length_map]
    exact hlen
  · rw [List.length_map]
    exact hi

theorem narrow_join (h : size ≤ 3) : Narrow (lanes.length * (8 <<< size)) (join lanes size) := by
  intro k hk
  rw [join_eq h, Lanes.getLsbD_pack_of_ge]
  · intro x hx
    obtain ⟨l, -, rfl⟩ := List.mem_map.mp hx
    exact Lanes.narrow_setWidth _ (Nat.le_refl _)
  · rw [List.length_map]
    exact hk

/-- A vector whose lanes are `f`, with nothing above them. -/
structure HasLanes (size : ℕ) (q : Bool) (f : ℕ → BitVec (8 <<< size)) (v : BitVec 128) :
    Prop where
  lanes : ∀ i < laneCount size q, Lanes.lane (8 <<< size) v i = f i
  narrow : Narrow (if q then 128 else 64) v

/-- The lanes of an arrangement determine the register. -/
theorem HasLanes.unique (h : size ≤ 3) {q : Bool} {f : ℕ → BitVec (8 <<< size)}
    {v v' : BitVec 128} (hv : HasLanes size q f v) (hv' : HasLanes size q f v') : v = v' := by
  have hcount := laneCount_mul h q
  refine Lanes.eq_of_lanes (hcount ▸ hv.narrow) (hcount ▸ hv'.narrow) fun i hi => ?_
  rw [hv.lanes i hi, hv'.lanes i hi]

theorem hasLanes_join (h : size ≤ 3) {q : Bool} {f : ℕ → BitVec (8 <<< size)}
    (hlen : lanes.length = laneCount size q)
    (hf : ∀ i (hi : i < lanes.length), lanes[i].setWidth (8 <<< size) = f i) :
    HasLanes size q f (join lanes size) := by
  have hcount := laneCount_mul h q
  rw [← hlen] at hcount
  refine ⟨fun i hi => ?_, hcount ▸ narrow_join h⟩
  rw [← hlen] at hi
  rw [lane_join h (by split_ifs at hcount <;> omega) hi, hf i hi]

/-- **An element-wise operation on three registers.** Where the operation of a lane is `φ`,
    the register has the lanes of `φ`. -/
theorem exists_join (h : size ≤ 3) (q : Bool) (a b d : BitVec 128)
    {f : BitVec 64 → BitVec 64 → BitVec 64 → Option (BitVec 64)}
    {φ : BitVec (8 <<< size) → BitVec (8 <<< size) → BitVec (8 <<< size) → BitVec (8 <<< size)}
    (hf : ∀ x y d, ∃ r, f (x.setWidth 64) (y.setWidth 64) (d.setWidth 64) = some r ∧
      r.setWidth (8 <<< size) = φ x y d) :
    ∃ lanes, ((split a size q).zip ((split b size q).zip (split d size q))).mapM
        (fun (x, y, d) => f x y d) = some lanes ∧
      HasLanes size q (fun i => φ (Lanes.lane (8 <<< size) a i) (Lanes.lane (8 <<< size) b i)
        (Lanes.lane (8 <<< size) d i)) (join lanes size) := by
  rw [split_eq h, split_eq h, split_eq h, List.zip_map', List.zip_map']
  obtain ⟨lanes, hlanes, hlen, hP⟩ := Loops.exists_mapM
    (f := fun (p : BitVec 64 × BitVec 64 × BitVec 64) => f p.1 p.2.1 p.2.2)
    (g := fun i => ((Lanes.lane (8 <<< size) a i).setWidth 64,
      (Lanes.lane (8 <<< size) b i).setWidth 64, (Lanes.lane (8 <<< size) d i).setWidth 64))
    (P := fun i r => r.setWidth (8 <<< size) = φ (Lanes.lane (8 <<< size) a i)
      (Lanes.lane (8 <<< size) b i) (Lanes.lane (8 <<< size) d i))
    (n := laneCount size q) fun i _ => hf _ _ _
  exact ⟨lanes, hlanes, hasLanes_join h hlen hP⟩

/-- The same on two registers. -/
theorem exists_join_pair (h : size ≤ 3) (q : Bool) (a d : BitVec 128)
    {f : BitVec 64 → BitVec 64 → Option (BitVec 64)}
    {φ : BitVec (8 <<< size) → BitVec (8 <<< size) → BitVec (8 <<< size)}
    (hf : ∀ x d, ∃ r, f (x.setWidth 64) (d.setWidth 64) = some r ∧
      r.setWidth (8 <<< size) = φ x d) :
    ∃ lanes, ((split a size q).zip (split d size q)).mapM (fun (x, d) => f x d) = some lanes ∧
      HasLanes size q (fun i => φ (Lanes.lane (8 <<< size) a i) (Lanes.lane (8 <<< size) d i))
        (join lanes size) := by
  rw [split_eq h, split_eq h, List.zip_map']
  obtain ⟨lanes, hlanes, hlen, hP⟩ := Loops.exists_mapM
    (f := fun (p : BitVec 64 × BitVec 64) => f p.1 p.2)
    (g := fun i => ((Lanes.lane (8 <<< size) a i).setWidth 64,
      (Lanes.lane (8 <<< size) d i).setWidth 64))
    (P := fun i r => r.setWidth (8 <<< size) = φ (Lanes.lane (8 <<< size) a i)
      (Lanes.lane (8 <<< size) d i)) (n := laneCount size q) fun i _ => hf _ _
  exact ⟨lanes, hlanes, hasLanes_join h hlen hP⟩

/-! ## Elements of twice the width -/

theorem wideElems_eq (v : BitVec 128) {w : ℕ} (hw : w ≤ 64) (n : ℕ) :
    wideElems v w n = (List.range n).map fun i => (Lanes.lane w v i).setWidth 64 := by
  unfold wideElems
  refine List.map_congr_left fun i _ => ?_
  rw [if_neg (by omega)]
  apply BitVec.eq_of_getLsbD_eq
  intro k hk
  have hmask : ((1 <<< w : ℕ) - 1 : BitVec 128).getLsbD k = decide (k < w) :=
    Words.getLsbD_ones (by omega) k
  rw [BitVec.getLsbD_setWidth, BitVec.getLsbD_and, BitVec.getLsbD_ushiftRight, hmask,
    BitVec.getLsbD_setWidth, Lanes.getLsbD_lane, Bool.and_comm (v.getLsbD _)]

/-- The elements that the loop packs into one half. -/
theorem lane_packNarrow (he : e ≤ 64) {rs : List (BitVec 64)} (hlen : rs.length * e ≤ 64) {i : ℕ}
    (hi : i < rs.length) :
    Lanes.lane e (packNarrow (rs.map fun r => r &&& widthMask e) e) i = rs[i].setWidth e := by
  show Lanes.lane e (Lanes.pack e (rs.map fun r => r &&& widthMask e)) i = _
  rw [Lanes.lane_pack]
  · rw [List.getElem_map, setWidth_and_widthMask he]
  · intro x hx
    obtain ⟨r, -, rfl⟩ := List.mem_map.mp hx
    rw [and_widthMask he]
    exact Lanes.narrow_setWidth _ (Nat.le_refl _)
  · rw [List.length_map]
    exact hlen
  · rw [List.length_map]
    exact hi

/-- A narrow result in the upper half keeps the lower one, and in the lower half clears the
    upper one. -/
theorem narrowResult_eq (q : Bool) (packed : BitVec 64) (d : BitVec 128) :
    narrowResult q packed d =
      if q then (packed ++ d.setWidth 64 : BitVec 128) else packed.setWidth 128 := by
  unfold narrowResult
  split_ifs
  · apply BitVec.eq_of_getLsbD_eq
    intro i hi
    unfold lowHalf
    rw [BitVec.getLsbD_or, BitVec.getLsbD_shiftLeft, BitVec.getLsbD_and, BitVec.getLsbD_setWidth,
      BitVec.getLsbD_setWidth, BitVec.getLsbD_allOnes, BitVec.getLsbD_append,
      BitVec.getLsbD_setWidth]
    by_cases hlow : i < 64
    · simp [hlow, hi]
    · have hin : i - 64 < 128 := by omega
      simp [hlow, hi, hin]
  · rfl

/-! ## Scalar forms -/

/-- A scalar form leaves lane 0 of the vector and zeros above it. -/
theorem keepLow_setV (w : VecView) (rd : Reg) (v : BitVec 128) {bits : ℕ} (h : bits ≤ 128) :
    keepLow (w.setV rd v) rd bits = w.setV rd ((Lanes.lane bits v 0).setWidth 128) := by
  have hv : v &&& (if bits ≥ 128 then BitVec.allOnes 128 else ((1 <<< bits : ℕ) - 1 : BitVec 128)) =
      (Lanes.lane bits v 0).setWidth 128 := by
    apply BitVec.eq_of_getLsbD_eq
    intro i hi
    rw [BitVec.getLsbD_and, BitVec.getLsbD_setWidth, Lanes.getLsbD_lane, decide_eq_true hi,
      Bool.true_and, Nat.zero_mul, Nat.zero_add, Bool.and_comm]
    by_cases hfull : bits ≥ 128
    · obtain rfl : bits = 128 := by omega
      rw [if_pos hfull, BitVec.getLsbD_allOnes]
    · rw [if_neg hfull, Words.getLsbD_ones (Nat.lt_of_not_le hfull)]
  unfold keepLow VecView.setV
  dsimp only
  rw [Function.update_self, Function.update_idem]
  exact congrArg (fun x => ({ w with v := Function.update w.v rd x } : VecView)) hv

/-! ## A guest -/

/-- A guest without memory whose vector registers are `v`. -/
def vecGuest (v : Reg → BitVec 128) : Guest (Platform.Bus Empty) where
  cpu := { CpuState.new with v := v }
  mem := ⟨⟨0, 0, fun _ => 0⟩, []⟩

end V64.Interp.Simd
