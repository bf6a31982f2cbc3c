import V64.Interp.Alu
import V64.Interp.MemAccess

/-!
# Loads and stores

Models of `crates/interp/src/ldst.rs` and `crates/interp/src/ldst/pair.rs`. No
load or store has a PC of its own to return, so the executors give the state
only.
-/

namespace V64.Interp

open V64.Cpu V64.Decoder

variable {M : Type} [GuestMem M]

/-! ## One register (`ldst.rs`) -/

/-- `extend_offset` (lines 136–145). -/
def extendOffset (cpu : CpuState) (rm : Reg) (option shift : ℕ) : BitVec 64 :=
  let v := cpu.readGpr rm false
  let extended : BitVec 64 := match option with
    | 0b010 => (v.setWidth 32).setWidth 64
    | 0b110 => (v.setWidth 32).signExtend 64
    | _ => v
  extended <<< shift

/-- `effective_address` (lines 113–133): the address and the base writeback. -/
def effectiveAddress (cpu : CpuState) (addr : AddrMode) (pc : BitVec 64) :
    BitVec 64 × Option (Reg × BitVec 64) :=
  match addr with
  | .unsignedImm rn imm => (cpu.readGpr rn true + imm, none)
  | .unscaled rn imm => (cpu.readGpr rn true + imm, none)
  | .preIndex rn imm =>
    let base := cpu.readGpr rn true + imm
    (base, some (rn, base))
  | .postIndex rn imm =>
    let base := cpu.readGpr rn true
    (base, some (rn, base + imm))
  | .regOffset rn rm option shift =>
    (cpu.readGpr rn true + extendOffset cpu rm option shift, none)
  | .literal offset => (pc + offset, none)

/-- `writeback_base` (lines 103–110). -/
def writebackBase (g : Guest M) (writeback : Option (Reg × BitVec 64)) : Guest M :=
  if g.aborted then g
  else
    match writeback with
    | some (rn, newBase) => { g with cpu := g.cpu.writeGpr rn true newBase }
    | none => g

/-- The sign extension of a loaded value of `1 << size` bytes. -/
def signExtendLoad (raw : BitVec 64) (size : ℕ) : BitVec 64 :=
  let sh := 64 - (8 <<< size)
  (raw <<< sh).sshiftRight sh

/-- The write of a result to the X or W register. -/
def writeResult (cpu : CpuState) (dst64 : Bool) (rt : Reg) (value : BitVec 64) : CpuState :=
  if dst64 then cpu.writeGpr rt false value else cpu.writeGprW rt false value

/-- `ldst::exec` (lines 21–98). -/
def loadStore (g : Guest M) (size : ℕ) (isLoad signed dst64 vec unpriv : Bool) (rt : Reg)
    (addr : AddrMode) (pc : BitVec 64) : Guest M :=
  let (ea, writeback) := effectiveAddress g.cpu addr pc
  if vec then
    if isLoad then
      let (val, g) := MemAccess.readVec g ea size
      if g.aborted then g
      else
        let cpu := { g.cpu with v := Function.update g.cpu.v rt val }
        writebackBase { g with cpu := cpu } writeback
    else
      let g := MemAccess.writeVec g ea size (g.cpu.v rt)
      if g.aborted then g else writebackBase g writeback
  else if isLoad then
    let (raw, g) :=
      if unpriv then MemAccess.readUnpriv g ea size else MemAccess.read g ea size
    if g.aborted then g
    else
      let value := if signed then signExtendLoad raw size else raw
      writebackBase { g with cpu := writeResult g.cpu dst64 rt value } writeback
  else
    let val := g.cpu.readGpr rt false
    let g :=
      if unpriv then MemAccess.writeUnpriv g ea size val else MemAccess.write g ea size val
    if g.aborted then g else writebackBase g writeback

/-! ## Two registers (`pair.rs`) -/

/-- `load_elem` (lines 94–102). -/
def loadElem (g : Guest M) (addr : BitVec 64) (width8 signed : Bool) : BitVec 64 × Guest M :=
  let size := if width8 then 3 else 2
  let (raw, g) := MemAccess.read g addr size
  (if signed then (raw.setWidth 32).signExtend 64 else raw, g)

/-- The base writeback of a pair: the `do_writeback` closure (lines 31–37). -/
def pairWriteback (index : PairIndex) (rn : Reg) (newBase : BitVec 64) :
    Option (Reg × BitVec 64) :=
  match index with
  | .pre | .post => some (rn, newBase)
  | .offset => none

/-- `ldst::pair::exec` (lines 10–92). The sums `ea + step` and `ea + esize` (lines 42, 52, 65
    and 84) are those of a release build: with overflow checks a second element past the end
    of the address space panics. -/
def loadStorePair (g : Guest M) (isLoad signed width8 vec : Bool) (vesize : ℕ) (rt rt2 rn : Reg)
    (offset : BitVec 64) (index : PairIndex) : Guest M :=
  let base := g.cpu.readGpr rn true
  let ea := match index with
    | .post => base
    | .offset | .pre => base + offset
  let writeback := pairWriteback index rn (base + offset)
  if vec then
    let step : BitVec 64 := 1 <<< vesize
    if isLoad then
      let (v1, g) := MemAccess.readVec g ea vesize
      let (v2, g) := MemAccess.readVec g (ea + step) vesize
      if g.aborted then g
      else
        let cpu := { g.cpu with v := Function.update (Function.update g.cpu.v rt v1) rt2 v2 }
        writebackBase { g with cpu := cpu } writeback
    else
      let v1 := g.cpu.v rt
      let v2 := g.cpu.v rt2
      let g := MemAccess.writeVec g ea vesize v1
      let g := MemAccess.writeVec g (ea + step) vesize v2
      if g.aborted then g else writebackBase g writeback
  else
    let esize : BitVec 64 := if width8 then 8 else 4
    if isLoad then
      let (v1, g) := loadElem g ea width8 signed
      let (v2, g) := loadElem g (ea + esize) width8 signed
      if g.aborted then g
      else
        let dst64 := width8 || signed
        let cpu := writeResult (writeResult g.cpu dst64 rt v1) dst64 rt2 v2
        writebackBase { g with cpu := cpu } writeback
    else
      let size := if width8 then 3 else 2
      let v1 := g.cpu.readGpr rt false
      let v2 := g.cpu.readGpr rt2 false
      let g := MemAccess.write g ea size v1
      let g := MemAccess.write g (ea + esize) size v2
      if g.aborted then g else writebackBase g writeback

end V64.Interp
