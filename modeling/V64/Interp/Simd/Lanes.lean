import V64.Interp.Execute
import V64.Lib.Checked

/-!
# The lanes of the SIMD executors

Model of `crates/interp/src/simd.rs` and of the helpers that the modules of `simd/` each
define alike. A lane is held in a `u64`. Signed arithmetic is that of `Target.signed`, and
`none` is an overflow that the build reports.
-/

namespace V64.Interp

open V64.Cpu V64.Decoder

/-- `cpu.v[rd] = value`. -/
def VecView.setV (w : VecView) (rd : Reg) (value : BitVec 128) : VecView :=
  { w with v := Function.update w.v rd value }

namespace Simd

/-! ## Lanes -/

/-- `split` (lines 31–45). -/
def split (val : BitVec 128) (size : ℕ) (q : Bool) : List (BitVec 64) :=
  let ebits := 8 <<< size
  let total := if q then 128 else 64
  (List.range (total / ebits)).map fun i =>
    let raw := (val >>> (i * ebits)).setWidth 64
    if ebits ≥ 64 then raw else raw &&& ((1 <<< ebits) - 1)

/-- The loop that shifts element `i` to lane `i` and joins it with the vector so far. -/
def collect (elems : List (BitVec 128)) (ebits : ℕ) : BitVec 128 :=
  elems.zipIdx.foldl
    (fun (v : BitVec 128) (p : BitVec 128 × ℕ) => v ||| (p.1 <<< (p.2 * ebits))) 0

/-- `join` (lines 49–61). -/
def join (lanes : List (BitVec 64)) (size : ℕ) : BitVec 128 :=
  let ebits := 8 <<< size
  let masked := lanes.map fun (l : BitVec 64) =>
    if ebits ≥ 64 then l.setWidth 128 else l.setWidth 128 &&& ((1 <<< ebits) - 1)
  collect masked ebits

/-! ## Shared helpers -/

/-- `width_mask`. -/
def widthMask (bits : ℕ) : BitVec 64 :=
  if bits ≥ 64 then BitVec.allOnes 64 else (1 <<< bits) - 1

/-- `sx`: the value of the low `bits` bits as a signed number. -/
def sx (v : BitVec 64) (bits : ℕ) : ℤ :=
  let s := 64 - bits
  ((v <<< s).sshiftRight s).toInt

/-- `ext`: a source element as an `i128`. -/
def ext (u : Bool) (x : BitVec 64) (bits : ℕ) : ℤ :=
  if u then (x &&& widthMask bits).toNat else sx x bits

/-- `signed_range`, the range that signed results saturate to. -/
def signedRange (bits : ℕ) : ℤ × ℤ := (-2 ^ (bits - 1), 2 ^ (bits - 1) - 1)

/-- `v.clamp(lo, hi)`. -/
def clamp (range : ℤ × ℤ) (v : ℤ) : ℤ :=
  if v < range.1 then range.1 else if range.2 < v then range.2 else v

/-- `v as u64`. -/
def asU64 (v : ℤ) : BitVec 64 := BitVec.ofInt 64 v

/-- `wide_elems`: the `n` elements of `wsize` bits across the register. -/
def wideElems (v : BitVec 128) (wsize n : ℕ) : List (BitVec 64) :=
  let wmask : BitVec 128 := if wsize ≥ 128 then BitVec.allOnes 128 else (1 <<< wsize) - 1
  (List.range n).map fun i => ((v >>> (i * wsize)) &&& wmask).setWidth 64

/-- `vm.to_le_bytes()[k]`. -/
def leByte (v : BitVec 128) (k : ℕ) : BitVec 8 := (v >>> (8 * k)).setWidth 8

/-- `u128::from(u64::MAX)`. -/
def lowHalf : BitVec 128 := (BitVec.allOnes 64).setWidth 128

end Simd

end V64.Interp
