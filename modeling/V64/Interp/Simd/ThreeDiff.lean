import V64.Interp.Simd.Lanes

/-!
# Three registers of different types, and the extra three-register forms

Models of `crates/interp/src/simd/three_diff.rs` (long, wide and high-narrowing
operations) and `crates/interp/src/simd/three_same_extra.rs`.
-/

namespace V64.Interp.Simd

open V64.Cpu V64.Decoder Checked

/-! ## `three_diff.rs` -/

/-- `poly_mul` (lines 147–155). -/
def polyMul (x y : BitVec 64) : BitVec 64 :=
  (List.range 8).foldl (fun (r : BitVec 64) i =>
    if (y >>> i) &&& (1 : BitVec 64) == 1 then r ^^^ (x <<< i) else r) 0 &&& 0xffff

/-- `source_half` (lines 108–111). -/
def sourceHalf (v : BitVec 128) (esize n : ℕ) (q : Bool) : List (BitVec 64) :=
  let half : BitVec 64 := if q then (v >>> 64).setWidth 64 else v.setWidth 64
  (List.range n).map fun i => (half >>> (i * esize)) &&& widthMask esize

/-- `wide_op` (lines 51–77): the wrapping sums do not report an overflow. -/
def wideOp (t : Target) (opcode : ℕ) (u : Bool) (esize wsize : ℕ) (a b awide dwide : BitVec 64) :
    Option (BitVec 64) := do
  let range := signedRange wsize
  let ea := ext u a esize
  let eb := ext u b esize
  match opcode with
  | 0b0000 => return asU64 (← t.signed 128 (ea + eb))
  | 0b0010 => return asU64 (← t.signed 128 (ea - eb))
  | 0b0001 => return asU64 (sx awide wsize + eb)
  | 0b0011 => return asU64 (sx awide wsize - eb)
  | 0b0111 =>
    let diff ← t.signed 128 (ea - eb)
    return asU64 diff.natAbs
  | 0b0101 =>
    let diff ← t.signed 128 (ea - eb)
    return asU64 (sx dwide wsize + diff.natAbs)
  | 0b1100 => return asU64 (← t.signed 128 (ea * eb))
  | 0b1000 =>
    let prod ← t.signed 128 (ea * eb)
    return asU64 (← t.signed 128 (sx dwide wsize + prod))
  | 0b1010 =>
    let prod ← t.signed 128 (ea * eb)
    return asU64 (← t.signed 128 (sx dwide wsize - prod))
  | 0b1101 =>
    let double ← t.signed 128 (2 * ea)
    let prod ← t.signed 128 (double * eb)
    return asU64 (clamp range prod)
  | 0b1001 =>
    let double ← t.signed 128 (2 * ea)
    let prod ← t.signed 128 (double * eb)
    let sum ← t.signed 128 (sx dwide wsize + clamp range prod)
    return asU64 (clamp range sum)
  | 0b1011 =>
    let double ← t.signed 128 (2 * ea)
    let prod ← t.signed 128 (double * eb)
    let sum ← t.signed 128 (sx dwide wsize - clamp range prod)
    return asU64 (clamp range sum)
  | 0b1110 => return polyMul (a &&& 0xff) (b &&& 0xff)
  | _ => return 0

/-- `widening` (lines 35–48). -/
def widening (t : Target) (opcode : ℕ) (u : Bool) (esize wsize n : ℕ) (q : Bool)
    (vn vm vd : BitVec 128) : Option (BitVec 128) := do
  let wmask := widthMask wsize
  let an := sourceHalf vn esize n q
  let bn := sourceHalf vm esize n q
  let aw := wideElems vn wsize n
  let dw := wideElems vd wsize n
  let rs ← ((an.zip bn).zip (aw.zip dw)).mapM fun ((a, b), (awide, dwide)) =>
    wideOp t opcode u esize wsize a b awide dwide
  return collect (rs.map fun r => (r &&& wmask).setWidth 128) wsize

/-- The loops of `narrowing` and of `shift_narrow::exec` that pack narrow elements into a
    `u64`. -/
def packNarrow (elems : List (BitVec 64)) (esize : ℕ) : BitVec 64 :=
  elems.zipIdx.foldl
    (fun (packed : BitVec 64) (p : BitVec 64 × ℕ) => packed ||| (p.1 <<< (p.2 * esize))) 0

/-- The narrow result in the lower half, or in the upper half over what the lower one
    holds. -/
def narrowResult (q : Bool) (packed : BitVec 64) (d : BitVec 128) : BitVec 128 :=
  if q then (packed.setWidth 128 <<< 64) ||| (d &&& lowHalf) else packed.setWidth 128

/-- `narrowing` (lines 82–105). -/
def narrowing (opcode : ℕ) (round : Bool) (esize wsize n : ℕ) (q : Bool) (vn vm vd : BitVec 128) :
    BitVec 128 :=
  let aw := wideElems vn wsize n
  let bw := wideElems vm wsize n
  let emask := widthMask esize
  let wmask := widthMask wsize
  let roundConst : BitVec 64 := if round then 1 <<< (esize - 1) else 0
  let elems := (aw.zip bw).map fun (a, b) =>
    let s := if opcode = 0b0100 then (a + b) &&& wmask else (a - b) &&& wmask
    ((s + roundConst) >>> esize) &&& emask
  narrowResult q (packNarrow elems esize) vd

/-- `three_diff::exec` (lines 10–31). -/
def threeDiff (t : Target) (w : VecView) (q u : Bool) (size opcode : ℕ) (rm rn rd : Reg) :
    Option VecView := do
  let esize := 8 <<< size
  let wsize := esize * 2
  let n := 64 / esize
  let vn := w.v rn
  let vm := w.v rm
  let vd := w.v rd
  let result ← match opcode with
    | 0b0100 | 0b0110 => some (narrowing opcode u esize wsize n q vn vm vd)
    | _ => widening t opcode u esize wsize n q vn vm vd
  return w.setV rd result

/-! ## `three_same_extra.rs` -/

/-- `sqrdmlah` (lines 42–51). -/
def sqrdmlah (t : Target) (sub : Bool) (n m a : BitVec 64) (ebits : ℕ) : Option (BitVec 64) := do
  let prod ← t.signed 128 (sx n ebits * sx m ebits)
  let acc ← t.signed 128 (sx a ebits * 2 ^ (ebits - 1))
  let round := 2 ^ (ebits - 2)
  let sum ← if sub then t.signed 128 (acc - prod) else t.signed 128 (acc + prod)
  let ret ← t.signed 128 (sum + round)
  return asU64 (clamp (signedRange ebits) (ret >>> (ebits - 1))) &&& widthMask ebits

/-- The product of two bytes as a `u32`. -/
def byteProduct (u : Bool) (nb mb : BitVec 8) : BitVec 32 :=
  if u then nb.setWidth 32 * mb.setWidth 32 else nb.signExtend 32 * mb.signExtend 32

/-- The loop of `dot` and of `dot_indexed`, over the bytes `mb i k` of the other operand. -/
def dotLanes (u q : Bool) (vn : BitVec 128) (mb : ℕ → ℕ → BitVec 8) (vd : BitVec 128) :
    BitVec 128 :=
  let out := (List.range (if q then 4 else 2)).foldl (fun (out : BitVec 128) i =>
    let acc := (List.range 4).foldl
      (fun (acc : BitVec 32) k => acc + byteProduct u (leByte vn (i * 4 + k)) (mb i k))
      ((vd >>> (i * 32)).setWidth 32)
    (out &&& ~~~((0xffffffff#128) <<< (i * 32))) ||| (acc.setWidth 128 <<< (i * 32))) vd
  if q then out else out &&& lowHalf

/-- `dot` (lines 54–79). -/
def dot (u q : Bool) (vn vm vd : BitVec 128) : BitVec 128 :=
  dotLanes u q vn (fun i k => leByte vm (i * 4 + k)) vd

/-- `three_same_extra::exec` (lines 8–34). -/
def threeSameExtra (t : Target) (w : VecView) (q u : Bool) (size opcode : ℕ) (rm rn rd : Reg) :
    Option VecView := do
  let vn := w.v rn
  let vm := w.v rm
  let vd := w.v rd
  let result ←
    if opcode = 2 then some (dot u q vn vm vd)
    else do
      let sub := opcode == 1
      let ebits := 8 <<< size
      let lanes ← ((split vn size q).zip ((split vm size q).zip (split vd size q))).mapM
        fun (n, m, a) => sqrdmlah t sub n m a ebits
      some (join lanes size)
  return w.setV rd result

end V64.Interp.Simd
