import V64.Interp.Ldst

/-!
# Exclusives, atomics and compare-and-swap

Models of `crates/interp/src/ldst/excl.rs`, `crates/interp/src/ldst/atomic.rs`
and `crates/interp/src/ldst/cas.rs`. `none` is the index of a register 32, which
panics in the source: CASP with an odd register 31.
-/

namespace V64.Interp

open V64.Cpu V64.Decoder

variable {M : Type} [GuestMem M]

/-! ## Load and store exclusive (`excl.rs`) -/

/-- `excl::load` (lines 9–25). -/
def loadExclusive (g : Guest M) (size : ℕ) (rt rn : Reg) : Guest M :=
  let addr := g.cpu.readGpr rn true
  match alignCheck g addr (1 <<< size) false with
  | some g => g
  | none =>
    let (val, g) := MemAccess.read g addr size
    if g.aborted then g
    else { g with cpu := writeResult (g.cpu.armExcl addr val) (size == 3) rt val }

/-- The monitor test of both store exclusives. -/
def exclMatches (g : Guest M) (addr : BitVec 64) (size : ℕ) : Bool × Guest M :=
  match g.cpu.excl with
  | some (a, v) =>
    if a = addr then
      let (val, g) := MemAccess.read g addr size
      (val == v, g)
    else (false, g)
  | none => (false, g)

/-- What both store exclusives do last: the monitor is cleared, Ws gets 0 or 1. -/
def exclFinish (g : Guest M) (rs : Reg) (success : Bool) : Guest M :=
  { g with cpu := g.cpu.clearExcl.writeGprW rs false (bit64 !success) }

/-- `excl::store` (lines 30–51). -/
def storeExclusive (g : Guest M) (size : ℕ) (rs rt rn : Reg) : Guest M :=
  let addr := g.cpu.readGpr rn true
  match alignCheck g addr (1 <<< size) true with
  | some g => g
  | none =>
    let (success, g) := exclMatches g addr size
    let g := if success then MemAccess.write g addr size (g.cpu.readGpr rt false) else g
    exclFinish g rs success

/-- `excl::load_pair` (lines 56–83). -/
def loadExclusivePair (g : Guest M) (size : ℕ) (rt rt2 rn : Reg) : Guest M :=
  let addr := g.cpu.readGpr rn true
  let esize : BitVec 64 := 1 <<< size
  match alignCheck g addr (2 * esize) false with
  | some g => g
  | none =>
    let (v1, g) := MemAccess.read g addr size
    let (v2, g) := MemAccess.read g (addr + esize) size
    if g.aborted then g
    else
      let cpu := writeResult (g.cpu.armExcl addr v1) (size == 3) rt v1
      { g with cpu := writeResult cpu (size == 3) rt2 v2 }

/-- `excl::store_pair` (lines 87–112). -/
def storeExclusivePair (g : Guest M) (size : ℕ) (rs rt rt2 rn : Reg) : Guest M :=
  let addr := g.cpu.readGpr rn true
  let esize : BitVec 64 := 1 <<< size
  match alignCheck g addr (2 * esize) true with
  | some g => g
  | none =>
    let (success, g) := exclMatches g addr size
    let g :=
      if success then
        let v1 := g.cpu.readGpr rt false
        let v2 := g.cpu.readGpr rt2 false
        MemAccess.write (MemAccess.write g addr size v1) (addr + esize) size v2
      else g
    exclFinish g rs success

/-! ## Read-modify-write (`atomic.rs`) -/

/-- `mask` of the access width. -/
def sizeMask (size : ℕ) : BitVec 64 :=
  let w := 8 <<< size
  if w ≥ 64 then BitVec.allOnes 64 else (1 <<< w) - 1

/-- The `match op` of `atomic::exec`. -/
def atomicOp (op : ℕ) (old s : BitVec 64) : BitVec 64 :=
  match op with
  | 0 => old + s
  | 1 => old &&& ~~~s
  | 2 => old ^^^ s
  | 3 => old ||| s
  | 4 => if s.sle old then old else s
  | 5 => if old.sle s then old else s
  | 6 => if s ≤ old then old else s
  | 7 => if old ≤ s then old else s
  | _ => s

/-- `atomic::exec` (lines 9–60). -/
def atomicRmw (g : Guest M) (size op : ℕ) (rs rn rt : Reg) : Guest M :=
  let addr := g.cpu.readGpr rn true
  match alignCheck g addr (1 <<< size) true with
  | some g => g
  | none =>
    let mask := sizeMask size
    let (old, g) := MemAccess.read g addr size
    if g.aborted then g
    else
      let s := g.cpu.readGpr rs false &&& mask
      let g := MemAccess.write g addr size (atomicOp op old s)
      if g.aborted then g else { g with cpu := writeResult g.cpu (size == 3) rt old }

/-! ## Compare and swap (`cas.rs`) -/

/-- `cas::exec` (lines 9–42). -/
def compareSwap (g : Guest M) (size : ℕ) (rs rn rt : Reg) : Guest M :=
  let addr := g.cpu.readGpr rn true
  match alignCheck g addr (1 <<< size) true with
  | some g => g
  | none =>
    let mask := sizeMask size
    let (old, g) := MemAccess.read g addr size
    if g.aborted then g
    else
      let compare := g.cpu.readGpr rs false &&& mask
      let g :=
        if old = compare then MemAccess.write g addr size (g.cpu.readGpr rt false &&& mask) else g
      if g.aborted then g else { g with cpu := writeResult g.cpu (size == 3) rs old }

/-- Register `r + 1`; register 31 has no successor. -/
def nextReg (r : Reg) : Option Reg := if h : r.val + 1 < 32 then some ⟨r.val + 1, h⟩ else none

/-- `cas::cas_pair` (lines 47–87). -/
def compareSwapPair (g : Guest M) (sz : ℕ) (rs rn rt : Reg) : Option (Guest M) :=
  let size := if sz = 1 then 3 else 2
  let esize : BitVec 64 := 1 <<< size
  let addr := g.cpu.readGpr rn true
  match alignCheck g addr (2 * esize) true with
  | some g => some g
  | none =>
    let mask : BitVec 64 := if size = 3 then BitVec.allOnes 64 else 0xffffffff
    let (old1, g) := MemAccess.read g addr size
    let (old2, g) := MemAccess.read g (addr + esize) size
    if g.aborted then some g
    else do
      let rs2 ← nextReg rs
      let cmp1 := g.cpu.readGpr rs false &&& mask
      let cmp2 := g.cpu.readGpr rs2 false &&& mask
      let g ←
        if old1 = cmp1 ∧ old2 = cmp2 then do
          let rt2 ← nextReg rt
          let new1 := g.cpu.readGpr rt false
          let new2 := g.cpu.readGpr rt2 false
          some (MemAccess.write (MemAccess.write g addr size new1) (addr + esize) size new2)
        else some g
      if g.aborted then some g
      else
        let cpu := writeResult g.cpu (size == 3) rs old1
        some { g with cpu := writeResult cpu (size == 3) rs2 old2 }

end V64.Interp
