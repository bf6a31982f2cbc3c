import V64.Interp.Simd.Lanes

/-!
# Three registers of the same type

Model of `crates/interp/src/simd/three_same.rs`, the integer element-wise and pairwise
operations on two registers.
-/

namespace V64.Interp.Simd

open V64.Cpu V64.Decoder Checked

/-- `logical` (lines 38–49). -/
def logical (u : Bool) (size : ℕ) (a b d : BitVec 128) : BitVec 128 :=
  match u, size with
  | false, 0 => a &&& b
  | false, 1 => a &&& ~~~b
  | false, 2 => a ||| b
  | false, _ => a ||| ~~~b
  | true, 0 => a ^^^ b
  | true, 1 => (a &&& d) ||| (b &&& ~~~d)
  | true, 2 => (a &&& b) ||| (d &&& ~~~b)
  | true, _ => (a &&& ~~~b) ||| (d &&& b)

/-- `max` (lines 120–129). -/
def maxLane (u : Bool) (size : ℕ) (x y : BitVec 64) : BitVec 64 :=
  let e := 8 <<< size
  if u then if x ≤ y then y else x
  else if sx x e ≥ sx y e then x else y

/-- `min` (lines 130–139). -/
def minLane (u : Bool) (size : ℕ) (x y : BitVec 64) : BitVec 64 :=
  let e := 8 <<< size
  if u then if x ≤ y then x else y
  else if sx x e ≤ sx y e then x else y

/-- The pairs `(src[2 * i], src[2 * i + 1])`. -/
def pairs : List (BitVec 64) → List (BitVec 64 × BitVec 64)
  | x :: y :: rest => (x, y) :: pairs rest
  | _ => []

/-- `pairwise` (lines 52–67). -/
def pairwise (opcode : ℕ) (u : Bool) (size : ℕ) (q : Bool) (a b : BitVec 128) : BitVec 128 :=
  let src := split a size q ++ split b size q
  let out := (pairs src).map fun (x, y) =>
    match opcode with
    | 0b10111 => x + y
    | 0b10100 => maxLane u size x y
    | _ => minLane u size x y
  join out size

/-- `bool_lane` (lines 112–118). -/
def boolLane (c : Bool) (mask : BitVec 64) : BitVec 64 := if c then mask else 0

/-- `halving_add` (lines 141–149): the signed sum is one of `i64`. -/
def halvingAdd (t : Target) (u : Bool) (x y : BitVec 64) (ebits : ℕ) (round : Bool) :
    Option (BitVec 64) := do
  let r : ℤ := if round then 1 else 0
  let width := if u then 128 else 64
  let sum ← if u then t.signed width (x.toNat + y.toNat)
    else t.signed width (sx x ebits + sx y ebits)
  let sum ← t.signed width (sum + r)
  return asU64 (sum >>> (1 : ℕ)) &&& widthMask ebits

/-- `halving_sub` (lines 151–154). -/
def halvingSub (t : Target) (u : Bool) (x y : BitVec 64) (ebits : ℕ) : Option (BitVec 64) := do
  let diff ← if u then t.signed 128 (x.toNat - y.toNat)
    else t.signed 64 (sx x ebits - sx y ebits)
  return asU64 (diff >>> (1 : ℕ)) &&& widthMask ebits

/-- `sat_add` (lines 156–164). -/
def satAdd (t : Target) (u : Bool) (x y : BitVec 64) (ebits : ℕ) : Option (BitVec 64) := do
  let mask := widthMask ebits
  if u then return BitVec.ofNat 64 (min (x.toNat + y.toNat) mask.toNat)
  else
    let sum ← t.signed 128 (sx x ebits + sx y ebits)
    return asU64 (clamp (signedRange ebits) sum) &&& mask

/-- `sat_sub` (lines 166–174). -/
def satSub (t : Target) (u : Bool) (x y : BitVec 64) (ebits : ℕ) : Option (BitVec 64) := do
  let mask := widthMask ebits
  if u then return if y ≤ x then x - y else 0
  else
    let diff ← t.signed 128 (sx x ebits - sx y ebits)
    return asU64 (clamp (signedRange ebits) diff) &&& mask

/-- `abd` (lines 176–183). -/
def abd (t : Target) (u : Bool) (x y : BitVec 64) (ebits : ℕ) : Option (BitVec 64) := do
  let mask := widthMask ebits
  if u then return if x ≥ y then x - y else y - x
  else
    let diff ← t.signed 64 (sx x ebits - sx y ebits)
    return BitVec.ofNat 64 diff.natAbs &&& mask

/-- `right_shift` (lines 200–212). -/
def rightShift (t : Target) (rounding u : Bool) (x : BitVec 64) (ebits s : ℕ) :
    Option (BitVec 64) := do
  let v : ℤ := if u then x.toNat else sx x ebits
  if rounding then
    if s > ebits then return 0
    else
      let half ← t.signed 128 (2 ^ (s - 1))
      let sum ← t.signed 128 (v + half)
      return asU64 (sum >>> s)
  else return asU64 (v >>> min s 127)

/-- `(y & 0xff) as i8 as i32`. -/
def shiftByte (y : BitVec 64) : ℤ := (y.setWidth 8).toInt

/-- `reg_shift` (lines 186–196). -/
def regShift (t : Target) (opcode : ℕ) (u : Bool) (x y : BitVec 64) (ebits : ℕ)
    (mask : BitVec 64) : Option (BitVec 64) := do
  let shift := shiftByte y
  let rounding := opcode == 0b01010
  if shift ≥ 0 then
    let s := shift.toNat
    if s ≥ 64 then return 0 else return (x <<< s) &&& mask
  else
    let s := (-shift).toNat
    let r ← rightShift t rounding u x ebits s
    return r &&& mask

/-- `sat_reg_shift` (lines 215–245). -/
def satRegShift (t : Target) (opcode : ℕ) (u : Bool) (x y : BitVec 64) (ebits : ℕ) :
    Option (BitVec 64) := do
  let shift := shiftByte y
  let mask := widthMask ebits
  let rounding := opcode == 0b01011
  let v : ℤ := if u then x.toNat else sx x ebits
  let range : ℤ × ℤ := if u then (0, mask.toNat) else signedRange ebits
  let result ←
    if shift ≥ 0 then
      let n := shift.toNat
      if v ≠ 0 ∧ n ≥ 64 then
        if v > 0 then pure range.2 else pure range.1
      else t.signed 128 (v * 2 ^ n)
    else
      let s := (-shift).toNat
      if rounding then
        if s > ebits then pure 0
        else do
          let half ← t.signed 128 (2 ^ (s - 1))
          let sum ← t.signed 128 (v + half)
          pure (sum >>> s)
      else pure (v >>> min s 127)
  return asU64 (clamp range result) &&& mask

/-- `sqdmulh` (lines 247–254). -/
def sqdmulh (t : Target) (u : Bool) (x y : BitVec 64) (ebits : ℕ) : Option (BitVec 64) := do
  let mask := widthMask ebits
  let double ← t.signed 128 (2 * sx x ebits)
  let prod ← t.signed 128 (double * sx y ebits)
  let round : ℤ := if u then 2 ^ (ebits - 1) else 0
  let sum ← t.signed 128 (prod + round)
  return asU64 (clamp (signedRange ebits) (sum >>> ebits)) &&& mask

/-- `pmul8` (lines 256–264). -/
def pmul8 (x y : BitVec 64) : BitVec 64 :=
  (List.range 8).foldl (fun (r : BitVec 64) i =>
    if (y >>> i) &&& (1 : BitVec 64) == 1 then r ^^^ (x <<< i) else r) 0 &&& 0xff

/-- `lane` (lines 69–96). -/
def lane (t : Target) (opcode : ℕ) (u : Bool) (size : ℕ) (x y d : BitVec 64) :
    Option (BitVec 64) :=
  let ebits := 8 <<< size
  let mask := widthMask ebits
  match opcode with
  | 0b00000 => halvingAdd t u x y ebits false
  | 0b00010 => halvingAdd t u x y ebits true
  | 0b00100 => halvingSub t u x y ebits
  | 0b00001 => satAdd t u x y ebits
  | 0b00101 => satSub t u x y ebits
  | 0b00110 => some (boolLane (if u then x > y else sx x ebits > sx y ebits) mask)
  | 0b00111 => some (boolLane (if u then x ≥ y else sx x ebits ≥ sx y ebits) mask)
  | 0b01000 | 0b01010 => regShift t opcode u x y ebits mask
  | 0b01001 | 0b01011 => satRegShift t opcode u x y ebits
  | 0b01100 => some (maxLane u size x y)
  | 0b01101 => some (minLane u size x y)
  | 0b01110 => abd t u x y ebits
  | 0b01111 => (abd t u x y ebits).map fun r => (d + r) &&& mask
  | 0b10000 => some (if u then (x - y) &&& mask else (x + y) &&& mask)
  | 0b10001 => some (boolLane (if u then x == y else x &&& y != 0) mask)
  | 0b10010 =>
    let p := (x * y) &&& mask
    some (if u then (d - p) &&& mask else (d + p) &&& mask)
  | 0b10011 => some (if u then pmul8 x y else (x * y) &&& mask)
  | 0b10110 => sqdmulh t u x y ebits
  | _ => some 0

/-- `three_same::exec` (lines 8–36). -/
def threeSame (t : Target) (w : VecView) (q u : Bool) (size opcode : ℕ) (rm rn rd : Reg) :
    Option VecView := do
  let a := w.v rn
  let b := w.v rm
  let d := w.v rd
  let result ← match opcode with
    | 0b00011 =>
      let r := logical u size a b d
      some (if q then r else r &&& lowHalf)
    | 0b10100 | 0b10101 | 0b10111 => some (pairwise opcode u size q a b)
    | _ => do
      let lanes ← ((split a size q).zip ((split b size q).zip (split d size q))).mapM
        fun (x, y, d) => lane t opcode u size x y d
      some (join lanes size)
  return w.setV rd result

end V64.Interp.Simd
