import V64.Interp.Simd.Lanes

/-!
# Permutes

Models of `crates/interp/src/simd/permute.rs`, `tbl.rs` and `ext.rs`. `none` is an index
past the end of a vector.
-/

namespace V64.Interp.Simd

open V64.Cpu V64.Decoder

/-! ## Bytes -/

/-- `v.to_le_bytes()`. -/
def toLeBytes (v : BitVec 128) : List (BitVec 8) := (List.range 16).map (leByte v)

/-- `u128::from_le_bytes(bytes)`. -/
def fromLeBytes (bytes : List (BitVec 8)) : BitVec 128 :=
  collect (bytes.map fun (b : BitVec 8) => b.setWidth 128) 8

/-! ## `permute.rs` -/

/-- `r[i] = x`. -/
def setAt (r : List (BitVec 64)) (i : ℕ) (x : BitVec 64) : Option (List (BitVec 64)) :=
  if i < r.length then some (r.set i x) else none

/-- The loop over all elements, element `i` from `a` or from `b` at the index of `src i`. -/
def gather (a b : List (BitVec 64)) (n : ℕ) (src : ℕ → Bool × ℕ) (r : List (BitVec 64)) :
    Option (List (BitVec 64)) :=
  (List.range n).foldlM (fun r i => do
    let x ← if (src i).1 then b[(src i).2]? else a[(src i).2]?
    setAt r i x) r

/-- The loop of TRN1 and TRN2 over the pairs, of which `odd` selects an element. -/
def transpose (a b : List (BitVec 64)) (half odd : ℕ) (r : List (BitVec 64)) :
    Option (List (BitVec 64)) :=
  (List.range half).foldlM (fun r k => do
    let r ← setAt r (2 * k) (← a[2 * k + odd]?)
    setAt r (2 * k + 1) (← b[2 * k + odd]?)) r

/-- `permute::exec` (lines 7–58). -/
def permute (w : VecView) (q : Bool) (size opcode : ℕ) (rm rn rd : Reg) : Option VecView := do
  let a := split (w.v rn) size q
  let b := split (w.v rm) size q
  let n := a.length
  let half := n / 2
  let r := List.replicate n (0 : BitVec 64)
  let r ← match opcode with
    | 0b011 => gather a b n (fun i => (i % 2 != 0, i / 2)) r
    | 0b111 => gather a b n (fun i => (i % 2 != 0, half + i / 2)) r
    | 0b001 =>
      gather a b n (fun i => if i < half then (false, 2 * i) else (true, 2 * (i - half))) r
    | 0b101 =>
      gather a b n (fun i => if i < half then (false, 2 * i + 1) else (true, 2 * (i - half) + 1)) r
    | 0b010 => transpose a b half 0 r
    | _ => transpose a b half 1 r
  return w.setV rd (join r size)

/-! ## `tbl.rs` -/

/-- `tbl::exec` (lines 5–35). -/
def tbl (w : VecView) (q isTbx : Bool) (len : ℕ) (rm rn rd : Reg) : VecView :=
  let tableBytes := (len + 1) * 16
  let nbytes := if q then 16 else 8
  let out := (List.range 16).map fun i =>
    let sel := (leByte (w.v rm) i).toNat
    if i < nbytes then
      if sel < tableBytes then leByte (w.v (Fin.ofNat 32 (rn.val + sel / 16))) (sel % 16)
      else if isTbx then leByte (w.v rd) i
      else 0
    else 0
  w.setV rd (fromLeBytes out)

/-! ## `ext.rs` -/

/-- `ext::exec` (lines 6–21). -/
def extract (w : VecView) (q : Bool) (imm4 : ℕ) (rm rn rd : Reg) : Option VecView :=
  let nbytes := if q then 16 else 8
  let cat := (toLeBytes (w.v rn)).take nbytes ++ (toLeBytes (w.v rm)).take nbytes ++
    List.replicate (32 - 2 * nbytes) 0
  if imm4 + nbytes ≤ cat.length then
    let out := (cat.drop imm4).take nbytes ++ List.replicate (16 - nbytes) 0
    some (w.setV rd (fromLeBytes out))
  else none

end V64.Interp.Simd
