import V64.Interp.Simd.ThreeSame
import V64.Interp.Simd.ThreeDiff

/-!
# Two registers, and reductions across lanes

Models of `crates/interp/src/simd/two_reg_misc.rs`, `two_reg_narrow.rs`, `two_reg_long.rs`
and `across.rs`.
-/

namespace V64.Interp.Simd

open V64.Cpu V64.Decoder Checked

/-! ## `two_reg_narrow.rs` -/

/-- `sqxtn` (lines 51–55). -/
def sqxtn (s : BitVec 64) (esize wsize : ℕ) : BitVec 64 :=
  asU64 (clamp (signedRange esize) (sx s wsize)) &&& widthMask esize

/-- `uqxtn` (lines 58–61). -/
def uqxtn (s : BitVec 64) (esize : ℕ) : BitVec 64 :=
  if s ≤ widthMask esize then s else widthMask esize

/-- `sqxtun` (lines 64–68). -/
def sqxtun (s : BitVec 64) (esize wsize : ℕ) : BitVec 64 :=
  asU64 (clamp (0, (widthMask esize).toNat) (sx s wsize)) &&& widthMask esize

/-- `xtn` (lines 23–48). -/
def xtn (u : Bool) (opcode size : ℕ) (q : Bool) (a d : BitVec 128) : BitVec 128 :=
  let esize := 8 <<< size
  let wsize := esize * 2
  let n := 64 / esize
  let narrowed := (wideElems a wsize n).map fun s =>
    match opcode, u with
    | 0b10010, false => s &&& widthMask esize
    | 0b10010, true => sqxtun s esize wsize
    | 0b10100, false => sqxtn s esize wsize
    | _, _ => uqxtn s esize
  narrowResult q (packNarrow narrowed esize) d

/-! ## `two_reg_long.rs` -/

/-- `shll` (lines 32–44): the source half is that of `half_elems`. -/
def shll (size : ℕ) (q : Bool) (a : BitVec 128) : BitVec 128 :=
  let esize := 8 <<< size
  let wsize := esize * 2
  let n := 64 / esize
  collect ((sourceHalf a esize n q).map fun (s : BitVec 64) => s.setWidth 128 <<< esize) wsize

/-- `addlp` (lines 48–69). -/
def addlp (t : Target) (u : Bool) (opcode size : ℕ) (q : Bool) (a d : BitVec 128) :
    Option (BitVec 128) := do
  let esize := 8 <<< size
  let wsize := esize * 2
  let nSrc := (if q then 128 else 64) / esize
  let wmask := widthMask wsize
  let accumulate := opcode == 0b00110
  let src := (List.range nSrc).map fun i =>
    ((a >>> (i * esize)) &&& (widthMask esize).setWidth 128).setWidth 64
  let rs ← (List.range (nSrc / 2)).mapM fun i => do
    let x ← src[2 * i]?
    let y ← src[2 * i + 1]?
    let pair ← t.signed 128 (ext u x esize + ext u y esize)
    let r := asU64 pair &&& wmask
    let acc := ((d >>> (i * wsize)) &&& wmask.setWidth 128).setWidth 64
    return (if accumulate then (r + acc) &&& wmask else r)
  return collect (rs.map fun (r : BitVec 64) => r.setWidth 128) wsize

/-! ## `two_reg_misc.rs` -/

/-- `rev` (lines 42–50), which reverses every group of `per` lanes: `none` is an empty
    group. -/
def rev (val : BitVec 128) (size : ℕ) (q : Bool) (container : ℕ) : Option (BitVec 128) :=
  let per := container / (8 <<< size)
  let lanes := split val size q
  if per = 0 then none
  else
    let chunks := (List.range ((lanes.length + per - 1) / per)).map fun g =>
      (lanes.drop (g * per)).take per
    some (join (chunks.map List.reverse).flatten size)

/-- `map` (lines 53–56). -/
def mapLanes (val : BitVec 128) (size : ℕ) (q : Bool) (f : BitVec 64 → BitVec 64) : BitVec 128 :=
  join ((split val size q).map f) size

/-- The loop of `cls` from bit `i` down. -/
def clsFrom (x sign : BitVec 64) : ℕ → BitVec 64
  | 0 => 0
  | i + 1 => if (x >>> i) &&& 1 == sign then clsFrom x sign i + 1 else 0

/-- `cls` (lines 118–132). -/
def cls (x : BitVec 64) (ebits : ℕ) : BitVec 64 :=
  clsFrom x ((x >>> (ebits - 1)) &&& 1) (ebits - 1)

/-- `sqabs` (lines 139–143). -/
def sqabs (x : BitVec 64) (ebits : ℕ) : BitVec 64 :=
  asU64 (min |sx x ebits| (signedRange ebits).2) &&& widthMask ebits

/-- `sqneg` (lines 146–150). -/
def sqneg (x : BitVec 64) (ebits : ℕ) : BitVec 64 :=
  asU64 (min (-(sx x ebits)) (signedRange ebits).2) &&& widthMask ebits

/-- `suqadd` (lines 154–166). -/
def suqadd (t : Target) (u : Bool) (x d : BitVec 64) (ebits : ℕ) : Option (BitVec 64) := do
  let mask := widthMask ebits
  if u then
    let sum ← t.signed 128 ((d &&& mask).toNat + sx x ebits)
    return asU64 (clamp (0, mask.toNat) sum) &&& mask
  else
    let sum ← t.signed 128 (sx d ebits + (x &&& mask).toNat)
    return asU64 (clamp (signedRange ebits) sum) &&& mask

/-- `rbit8` (lines 168–170). -/
def rbit8 (x : BitVec 64) : BitVec 64 := ((x.setWidth 8).reverse).setWidth 64

/-- The number of leading zeros of an element, `(x << (64 - ebits)).leading_zeros()` and at
    most `ebits`. -/
def clzLane (x : BitVec 64) (ebits : ℕ) : BitVec 64 :=
  let zeros := (x <<< (64 - ebits)).clz
  if zeros ≤ BitVec.ofNat 64 ebits then zeros else BitVec.ofNat 64 ebits

/-- `(x as u8).count_ones()`. -/
def countOnes (x : BitVec 64) : BitVec 64 :=
  BitVec.ofNat 64 ((List.range 8).countP (x.setWidth 8).getLsbD)

/-- `lane` (lines 67–89). -/
def miscLane (u : Bool) (opcode size : ℕ) (x : BitVec 64) : BitVec 64 :=
  let ebits := 8 <<< size
  let mask := widthMask ebits
  match u, opcode with
  | false, 0b00100 => cls x ebits
  | true, 0b00100 => clzLane x ebits
  | false, 0b00101 => countOnes x
  | false, 0b01000 => boolLane (sx x ebits > 0) mask
  | true, 0b01000 => boolLane (sx x ebits ≥ 0) mask
  | false, 0b01001 => boolLane (x &&& mask == 0) mask
  | true, 0b01001 => boolLane (sx x ebits ≤ 0) mask
  | false, 0b01010 => boolLane (sx x ebits < 0) mask
  | false, 0b00111 => sqabs x ebits
  | true, 0b00111 => sqneg x ebits
  | false, 0b01011 => BitVec.ofNat 64 (sx x ebits).natAbs &&& mask
  | true, 0b01011 => -x &&& mask
  | _, _ => 0

/-- `two_reg_misc::exec` (lines 9–39). -/
def twoRegMisc (t : Target) (w : VecView) (q u : Bool) (size opcode : ℕ) (rn rd : Reg) :
    Option VecView := do
  let a := w.v rn
  let d := w.v rd
  let mask128 := if q then BitVec.allOnes 128 else lowHalf
  let result ← match u, opcode with
    | _, 0b10010 | _, 0b10100 => some (xtn u opcode size q a d)
    | true, 0b10011 => some (shll size q a)
    | _, 0b00010 | _, 0b00110 => addlp t u opcode size q a d
    | _, 0b00011 => do
      let lanes ← ((split a size q).zip (split d size q)).mapM
        fun (x, dd) => suqadd t u x dd (8 <<< size)
      some (join lanes size)
    | false, 0b00000 => rev a size q 64
    | false, 0b00001 => rev a size q 16
    | true, 0b00000 => rev a size q 32
    | true, 0b00101 =>
      if size = 0 then some (~~~a &&& mask128) else some (mapLanes a 0 q rbit8 &&& mask128)
    | _, _ => some (mapLanes a size q (miscLane u opcode size))
  return w.setV rd result

/-! ## `across.rs` -/

/-- `across::exec` (lines 7–53). -/
def acrossLanes (t : Target) (w : VecView) (q u : Bool) (size opcode : ℕ) (rn rd : Reg) :
    Option VecView := do
  let ebits := 8 <<< size
  let mask := widthMask ebits
  let lanes := split (w.v rn) size q
  if opcode = 0b00011 then
    let sum ← lanes.foldlM
      (fun sum x => t.signed 128 (sum + if u then ((x &&& mask).toNat : ℤ) else sx x ebits)) 0
    return w.setV rd ((asU64 sum &&& widthMask (ebits * 2)).setWidth 128)
  else
    let pick (a b : BitVec 64) (first : Bool) := if first then a else b
    let result : BitVec 64 := match opcode, lanes with
      | 0b11011, lanes => lanes.foldl (· + ·) 0 &&& mask
      | _, [] => 0
      | 0b01010, x :: rest =>
        rest.foldl
          (fun a b => pick a b (if u then decide (b < a) else decide (sx a ebits ≥ sx b ebits))) x
      | _, x :: rest =>
        rest.foldl
          (fun a b => pick a b (if u then decide (a ≤ b) else decide (sx a ebits ≤ sx b ebits))) x
    return w.setV rd ((result &&& mask).setWidth 128)

end V64.Interp.Simd
