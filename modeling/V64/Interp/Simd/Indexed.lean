import V64.Interp.Simd.ThreeDiff
import V64.Interp.Simd.ThreeSame

/-!
# Vector by element

Model of the integer part of `crates/interp/src/simd/indexed.rs`: one operand is an
element of Vm. The floating-point keys are left to the rest of the unit.
-/

namespace V64.Interp.Simd

open V64.Cpu V64.Decoder Checked

/-- `key`. -/
def indexedKey (u : Bool) (opcode : ℕ) : ℕ := 16 * (if u then 1 else 0) + opcode

/-- The keys of `fp_indexed`. -/
def isFpKey (key : ℕ) : Bool := [0x01, 0x05, 0x09, 0x19].contains key

/-- `elem` (lines 57–60). -/
def elem (v : BitVec 128) (esize index : ℕ) : BitVec 64 :=
  let m : BitVec 128 := if esize ≥ 64 then BitVec.allOnes 128 else (1 <<< esize) - 1
  ((v >>> (index * esize)) &&& m).setWidth 64

/-- The element `i` of `esize` bits of a loop of this module. -/
def laneElem (v : BitVec 128) (esize i : ℕ) : BitVec 64 :=
  ((v >>> (i * esize)) &&& (widthMask esize).setWidth 128).setWidth 64

/-- `sqdmulh` (lines 84–90). -/
def indexedSqdmulh (t : Target) (rounding : Bool) (x y : BitVec 64) (esize : ℕ) :
    Option (BitVec 64) := do
  let double ← t.signed 128 (2 * sx x esize)
  let prod ← t.signed 128 (double * sx y esize)
  let round : ℤ := if rounding then 2 ^ (esize - 1) else 0
  let sum ← t.signed 128 (prod + round)
  return asU64 (clamp (signedRange esize) (sum >>> esize)) &&& widthMask esize

/-- `int_normal` (lines 62–82). -/
def intNormal (t : Target) (key size : ℕ) (q : Bool) (index : ℕ) (vn vm vd : BitVec 128) :
    Option (BitVec 128) := do
  let esize := 8 <<< size
  let mask := widthMask esize
  let idx := elem vm esize index
  let n := (if q then 128 else 64) / esize
  let rs ← (List.range n).mapM fun i =>
    let a := laneElem vn esize i
    let d := laneElem vd esize i
    match key with
    | 0x08 => some ((a * idx) &&& mask)
    | 0x10 => some ((d + a * idx) &&& mask)
    | 0x14 => some ((d - a * idx) &&& mask)
    | 0x0c => indexedSqdmulh t false a idx esize
    | _ => indexedSqdmulh t true a idx esize
  return collect (rs.map fun (r : BitVec 64) => r.setWidth 128) esize

/-- The `match key` of `int_long`. -/
def longOp (t : Target) (key wsize : ℕ) (dwide : BitVec 64) (prod : ℤ) : Option ℤ := do
  let range := signedRange wsize
  match key with
  | 0x0a | 0x1a => return prod
  | 0x02 | 0x12 => t.signed 128 (sx dwide wsize + prod)
  | 0x06 | 0x16 => t.signed 128 (sx dwide wsize - prod)
  | 0x0b => return clamp range (← t.signed 128 (2 * prod))
  | 0x03 =>
    let double ← t.signed 128 (2 * prod)
    return clamp range (← t.signed 128 (sx dwide wsize + clamp range double))
  | _ =>
    let double ← t.signed 128 (2 * prod)
    return clamp range (← t.signed 128 (sx dwide wsize - clamp range double))

/-- `int_long` (lines 92–117). -/
def intLong (t : Target) (key : ℕ) (u : Bool) (size : ℕ) (q : Bool) (index : ℕ)
    (vn vm vd : BitVec 128) : Option (BitVec 128) := do
  let esize := 8 <<< size
  let wsize := esize * 2
  let n := 64 / esize
  let wmask := widthMask wsize
  let idx := ext u (elem vm esize index) esize
  let half : BitVec 64 := if q then (vn >>> 64).setWidth 64 else vn.setWidth 64
  let rs ← (List.range n).mapM fun i => do
    let src := (half >>> (i * esize)) &&& widthMask esize
    let prod ← t.signed 128 (ext u src esize * idx)
    let dwide := laneElem vd wsize i
    let r ← longOp t key wsize dwide prod
    return (asU64 r &&& wmask).setWidth 128
  return collect rs wsize

/-- `sqrdmlah` (lines 138–146). -/
def indexedSqrdmlah (t : Target) (sub : Bool) (n m a : BitVec 64) (ebits : ℕ) :
    Option (BitVec 64) := do
  let prod ← t.signed 128 (sx n ebits * sx m ebits)
  let acc ← t.signed 128 (sx a ebits * 2 ^ (ebits - 1))
  let round := 2 ^ (ebits - 2)
  let sum ← if sub then t.signed 128 (acc - prod) else t.signed 128 (acc + prod)
  let ret ← t.signed 128 (sum + round)
  return asU64 (clamp (signedRange ebits) (ret >>> (ebits - 1))) &&& widthMask ebits

/-- `rdmlah_indexed` (lines 124–136). -/
def rdmlahIndexed (t : Target) (key size : ℕ) (q : Bool) (index : ℕ) (vn vm vd : BitVec 128) :
    Option (BitVec 128) := do
  let esize := 8 <<< size
  let m := elem vm esize index
  let n := (if q then 128 else 64) / esize
  let sub := key == 0x1f
  let rs ← (List.range n).mapM fun i =>
    indexedSqrdmlah t sub (laneElem vn esize i) m (laneElem vd esize i) esize
  return collect (rs.map fun (r : BitVec 64) => r.setWidth 128) esize

/-- `dot_indexed` (lines 150–176). -/
def dotIndexed (key : ℕ) (q : Bool) (index : ℕ) (vn vm vd : BitVec 128) : BitVec 128 :=
  dotLanes (key == 0x1e) q vn (fun _ k => leByte vm (index * 4 + k)) vd

/-- `indexed::exec` (lines 11–33), without the floating-point keys. -/
def indexed (t : Target) (w : VecView) (q u : Bool) (size opcode index : ℕ) (rm rn rd : Reg) :
    Option VecView := do
  let key := indexedKey u opcode
  let vn := w.v rn
  let vm := w.v rm
  let vd := w.v rd
  let result ← match key with
    | 0x08 | 0x10 | 0x14 | 0x0c | 0x0d => intNormal t key size q index vn vm vd
    | 0x1d | 0x1f => rdmlahIndexed t key size q index vn vm vd
    | 0x0e | 0x1e => some (dotIndexed key q index vn vm vd)
    | _ => intLong t key u size q index vn vm vd
  return w.setV rd result

end V64.Interp.Simd
