import V64.Interp.Simd.ThreeDiff

/-!
# Shifts by an immediate

Models of `crates/interp/src/simd/shift_imm.rs`, `shift_narrow.rs` and `shift_long.rs`.
The fixed-point conversions are left to the rest of the unit.
-/

namespace V64.Interp.Simd

open V64.Cpu V64.Decoder Checked

/-! ## `shift_imm.rs` -/

/-- The element size that the highest set bit of `immh` gives, `3 - (leading_zeros - 4)`. -/
def immSize (immh : ℕ) : ℕ := Nat.log2 immh

/-- `immhb`. -/
def immhb (immh immb : ℕ) : ℕ := (immh <<< 3) ||| immb

/-- `right_sh` (lines 60–62). -/
def rightSh (esize immhb : ℕ) : ℕ := 2 * esize - immhb

/-- `left_sh` (lines 63–65). -/
def leftSh (esize immhb : ℕ) : ℕ := immhb - esize

/-- `shr` (lines 81–89). -/
def shr (t : Target) (u rounding : Bool) (x : BitVec 64) (sh esize : ℕ) (mask : BitVec 64) :
    Option (BitVec 64) := do
  let v : ℤ := if u then (x &&& mask).toNat else sx x esize
  let r ←
    if rounding then do
      let half ← t.signed 128 (2 ^ (sh - 1))
      let sum ← t.signed 128 (v + half)
      pure (sum >>> sh)
    else pure (v >>> min sh 127)
  return asU64 r &&& mask

/-- `sri` (lines 92–97). -/
def sri (x d : BitVec 64) (sh esize : ℕ) (mask : BitVec 64) : BitVec 64 :=
  let shifted := if sh ≥ 64 then 0 else (x &&& mask) >>> sh
  let keep := if sh ≥ esize then mask else mask &&& ~~~(mask >>> sh)
  (shifted ||| (d &&& keep)) &&& mask

/-- `sli` (lines 100–103). -/
def sli (x d : BitVec 64) (sh : ℕ) (mask : BitVec 64) : BitVec 64 :=
  let low : BitVec 64 := (1 <<< sh) - 1
  (((x <<< sh) &&& mask) ||| (d &&& low)) &&& mask

/-- `QKind`. -/
inductive QKind where
  | signed
  | unsigned
  deriving DecidableEq

/-- `qshl_imm` (lines 113–128). -/
def qshlImm (t : Target) (dst : QKind) (signedSrc : Bool) (x : BitVec 64) (sh esize : ℕ)
    (mask : BitVec 64) : Option (BitVec 64) := do
  let v : ℤ := if signedSrc then sx x esize else (x &&& mask).toNat
  let shifted ← t.signed 128 (v * 2 ^ sh)
  let range : ℤ × ℤ := if dst = .unsigned then (0, mask.toNat) else signedRange esize
  return asU64 (clamp range shifted) &&& mask

/-- `lane` (lines 44–58) of `shift_imm.rs`. -/
def immLane (t : Target) (opcode : ℕ) (u : Bool) (x d : BitVec 64) (esize immhb : ℕ)
    (mask : BitVec 64) : Option (BitVec 64) :=
  match opcode with
  | 0b00000 => shr t u false x (rightSh esize immhb) esize mask
  | 0b00100 => shr t u true x (rightSh esize immhb) esize mask
  | 0b00010 => (shr t u false x (rightSh esize immhb) esize mask).map fun r => (d + r) &&& mask
  | 0b00110 => (shr t u true x (rightSh esize immhb) esize mask).map fun r => (d + r) &&& mask
  | 0b01000 => some (sri x d (rightSh esize immhb) esize mask)
  | 0b01010 =>
    if !u then some ((x <<< leftSh esize immhb) &&& mask)
    else some (sli x d (leftSh esize immhb) mask)
  | 0b01100 => qshlImm t .unsigned true x (leftSh esize immhb) esize mask
  | 0b01110 =>
    if u then qshlImm t .unsigned false x (leftSh esize immhb) esize mask
    else qshlImm t .signed true x (leftSh esize immhb) esize mask
  | _ => some 0

/-! ## `shift_narrow.rs` -/

/-- `narrow_lane` (lines 42–67). -/
def narrowLane (t : Target) (opcode : ℕ) (u : Bool) (s : BitVec 64) (shift esize wsize : ℕ)
    (round : Bool) : Option (BitVec 64) := do
  let roundc ← if round then t.signed 128 (2 ^ (shift - 1)) else pure 0
  match opcode, u with
  | 0b10000, false | 0b10001, false =>
    let v : ℤ := (s &&& widthMask wsize).toNat
    return asU64 ((← t.signed 128 (v + roundc)) >>> shift)
  | 0b10000, true | 0b10001, true =>
    let v := sx s wsize
    return asU64 (clamp (0, (widthMask esize).toNat) ((← t.signed 128 (v + roundc)) >>> shift))
  | _, true =>
    let v : ℤ := (s &&& widthMask wsize).toNat
    return asU64 (clamp (0, (widthMask esize).toNat) ((← t.signed 128 (v + roundc)) >>> shift))
  | _, false =>
    let v := sx s wsize
    return asU64 (clamp (signedRange esize) ((← t.signed 128 (v + roundc)) >>> shift))

/-- `shift_narrow::exec` (lines 7–40). -/
def shiftNarrow (t : Target) (w : VecView) (q u : Bool) (immh immb opcode : ℕ) (rn rd : Reg) :
    Option VecView := do
  let esize := 8 <<< immSize immh
  let wsize := esize * 2
  let shift := wsize - immhb immh immb
  let round := opcode &&& 1 == 1
  let n := 64 / esize
  let emask := widthMask esize
  let rs ← (wideElems (w.v rn) wsize n).mapM fun s =>
    narrowLane t opcode u s shift esize wsize round
  let packed := packNarrow (rs.map fun r => r &&& emask) esize
  return w.setV rd (narrowResult q packed (w.v rd))

/-! ## `shift_long.rs` -/

/-- `shift_long::exec` (lines 7–38). -/
def shiftLong (t : Target) (w : VecView) (q u : Bool) (immh immb : ℕ) (rn rd : Reg) :
    Option VecView := do
  let esize := 8 <<< immSize immh
  let wsize := esize * 2
  let shift := immhb immh immb - esize
  let n := 64 / esize
  let wmask := widthMask wsize
  let half : BitVec 64 := if q then (w.v rn >>> 64).setWidth 64 else (w.v rn).setWidth 64
  let rs ← (List.range n).mapM fun i => do
    let elem := (half >>> (i * esize)) &&& widthMask esize
    let val : ℤ := if u then elem.toNat else sx elem esize
    let r ← t.signed 128 (val * 2 ^ shift)
    return (asU64 r &&& wmask).setWidth 128
  return w.setV rd (collect rs wsize)

/-- `shift_imm::exec` (lines 9–42), without the fixed-point conversions. -/
def shiftImm (t : Target) (w : VecView) (q u : Bool) (immh immb opcode : ℕ) (rn rd : Reg) :
    Option VecView :=
  match opcode with
  | 0b10000 | 0b10001 | 0b10010 | 0b10011 => shiftNarrow t w q u immh immb opcode rn rd
  | 0b10100 => shiftLong t w q u immh immb rn rd
  | _ => do
    let size := immSize immh
    let esize := 8 <<< size
    let mask := widthMask esize
    let la := split (w.v rn) size q
    let ld := split (w.v rd) size q
    let lanes ← (la.zip ld).mapM fun (x, d) => immLane t opcode u x d esize (immhb immh immb) mask
    return w.setV rd (join lanes size)

end V64.Interp.Simd
