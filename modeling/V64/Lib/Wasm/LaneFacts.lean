import V64.Lib.Lanes
import V64.Lib.Wasm.Lanes

/-!
# WebAssembly: the lanes of a result

What the vector operators leave in a lane. A shape enters by the width of its lanes, so
that a lemma can be used at a width which is only known to be that of the shape.

* `lane_ofLanes`: a vector built from its lanes.
* `lane_laneUn`, `lane_laneBin`, `lane_laneRel`, `lane_laneShift`: the operators on lanes.
* `lane_splatLanes`, `lane_shuffle`, `lane_swizzle`, `lane_extMulLanes`: the operators
  across them.
-/

namespace Wasm

theorem lane_eq (w : ℕ) (v : BitVec 128) (i : ℕ) : lane w v i = Lanes.lane w v i := by
  unfold lane Lanes.lane
  rw [Nat.mul_comm]

/-! ## Vectors from their lanes -/

section OfLanes

variable {w : ℕ} (f : ℕ → BitVec w)

theorem ofLanes_eq_pack (n : ℕ) :
    ofLanes f n = Lanes.pack w ((List.range n).map fun i => (f i).setWidth 128) := by
  induction n with
  | zero => rfl
  | succ n ih =>
    rw [List.range_succ, List.map_append, List.map_singleton, Lanes.pack_append_singleton, ← ih,
      List.length_map, List.length_range, Nat.mul_comm n w]
    rfl

theorem narrow_of_mem_map {n : ℕ} :
    ∀ x ∈ (List.range n).map fun i => (f i).setWidth 128, Lanes.Narrow w x := by
  intro x hx
  obtain ⟨i, -, rfl⟩ := List.mem_map.mp hx
  exact Lanes.narrow_setWidth _ (Nat.le_refl w)

theorem lane_ofLanes {n : ℕ} (hfit : n * w ≤ 128) {i : ℕ} (hi : i < n) :
    Lanes.lane w (ofLanes f n) i = f i := by
  have hw : w ≤ 128 := by
    have hmul : 1 * w ≤ n * w := Nat.mul_le_mul_right w (by omega)
    omega
  rw [ofLanes_eq_pack, Lanes.lane_pack (narrow_of_mem_map f) (by simpa using hfit)
    (by simpa using hi), List.getElem_map, List.getElem_range,
    BitVec.setWidth_setWidth_of_le _ hw, BitVec.setWidth_eq]

end OfLanes

/-! ## Operators on lanes -/

theorem Shape.count_mul_bits (s : Shape) : s.count * s.bits = 128 := by
  cases s <;> rfl

section Ops

variable {s : Shape} {w : ℕ} (hw : s.bits = w) (a b : BitVec 128) {i : ℕ} (hi : i < 128 / w)

include hw hi

theorem lane_laneUn (op : LaneUnOp) :
    Lanes.lane w (mapLanes s op.eval a) i = op.eval (Lanes.lane w a i) := by
  subst hw
  unfold mapLanes
  rw [lane_ofLanes _ (Nat.le_of_eq s.count_mul_bits) hi, lane_eq]

theorem lane_laneBin (op : LaneBinOp) :
    Lanes.lane w (zipLanes s op.eval a b) i = op.eval (Lanes.lane w a i) (Lanes.lane w b i) := by
  subst hw
  unfold zipLanes
  rw [lane_ofLanes _ (Nat.le_of_eq s.count_mul_bits) hi, lane_eq, lane_eq]

theorem lane_laneRel (op : LaneRelOp) :
    Lanes.lane w (zipLanes s op.eval a b) i = op.eval (Lanes.lane w a i) (Lanes.lane w b i) := by
  subst hw
  unfold zipLanes
  rw [lane_ofLanes _ (Nat.le_of_eq s.count_mul_bits) hi, lane_eq, lane_eq]

theorem lane_laneShift (op : LaneShiftOp) (amount : ℕ) :
    Lanes.lane w (mapLanes s (op.eval · amount) a) i = op.eval (Lanes.lane w a i) amount := by
  subst hw
  unfold mapLanes
  rw [lane_ofLanes _ (Nat.le_of_eq s.count_mul_bits) hi, lane_eq]

theorem lane_splatLanes (v : BitVec 64) :
    Lanes.lane w (splatLanes s v) i = v.setWidth w := by
  subst hw
  unfold splatLanes
  rw [lane_ofLanes _ (Nat.le_of_eq s.count_mul_bits) hi]

end Ops

/-! ## Operators across lanes -/

/-- Byte `k` of two vectors in a row. -/
def byteOfPair (a b : BitVec 128) (k : ℕ) : BitVec 8 :=
  if k < 16 then Lanes.lane 8 a k else Lanes.lane 8 b (k - 16)

theorem lane_shuffle (lanes : List ℕ) (a b : BitVec 128) {i : ℕ} (hi : i < 16) :
    Lanes.lane 8 (shuffle lanes a b) i = byteOfPair a b (lanes.getD i 0) := by
  unfold shuffle byteOfPair
  rw [lane_ofLanes _ (by decide) hi]
  dsimp only
  rw [lane_eq, lane_eq]

theorem lane_swizzle (a b : BitVec 128) {i : ℕ} (hi : i < 16) :
    Lanes.lane 8 (swizzle a b) i =
      if (Lanes.lane 8 b i).toNat < 16 then Lanes.lane 8 a (Lanes.lane 8 b i).toNat else 0 := by
  unfold swizzle
  rw [lane_ofLanes _ (by decide) hi]
  dsimp only
  rw [lane_eq, lane_eq]

/-- A lane at another width. -/
def extendLane {w : ℕ} (signed : Bool) (W : ℕ) (x : BitVec w) : BitVec W :=
  if signed then x.signExtend W else x.setWidth W

/-- The first lane of a half. -/
def halfBase (high : Bool) (w : ℕ) : ℕ := if high then 64 / w else 0

theorem lane_extMulLanes {s : Shape} {w W : ℕ} (hw : s.bits = w) (hW : w * 2 = W)
    (high signed : Bool) (a b : BitVec 128) {i : ℕ} (hi : i < 64 / w) :
    Lanes.lane W (extMulLanes s high signed a b) i =
      extendLane signed W (Lanes.lane w a (halfBase high w + i)) *
        extendLane signed W (Lanes.lane w b (halfBase high w + i)) := by
  have hhalf : s.count / 2 = 64 / s.bits := by
    cases s <;> rfl
  have hfit : s.count / 2 * (2 * s.bits) ≤ 128 := by
    cases s <;> decide
  subst hw
  have hW : 2 * s.bits = W := by omega
  subst hW
  unfold extMulLanes
  rw [lane_ofLanes _ hfit (hhalf ▸ hi), lane_eq, lane_eq, hhalf]
  rfl

end Wasm
