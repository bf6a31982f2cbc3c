import V64.Interp.MemAccess

/-!
# SIMD structure loads and stores

Model of `crates/interp/src/simd/ldst_struct.rs`: LD1-4 and ST1-4, multiple and
single. The element loops are lists of the registers and byte offsets they visit,
`structLoop` runs such a list and stops at a fault.
-/

namespace V64.Interp

open V64.Cpu V64.Decoder

variable {M : Type} [GuestMem M]

/-- `set_elem` (lines 9–17), on the register's value. -/
def setElem (v : BitVec 128) (byteOff size : ℕ) (val : BitVec 64) : BitVec 128 :=
  (List.range (1 <<< size)).foldl
    (fun v i =>
      let sh := (byteOff + i) * 8
      (v &&& ~~~(0xff#128 <<< sh)) ||| (((val >>> (i * 8)).setWidth 8).setWidth 128 <<< sh)) v

/-- `get_elem` (lines 19–26), on the register's value. -/
def getElem (v : BitVec 128) (byteOff size : ℕ) : BitVec 64 :=
  (List.range (1 <<< size)).foldl
    (fun r i => r ||| (((v >>> ((byteOff + i) * 8)).setWidth 8).setWidth 64 <<< (i * 8))) 0

/-- `broadcast` (lines 148–160). -/
def broadcast (val : BitVec 64) (size : ℕ) (q : Bool) : BitVec 128 :=
  let bytes := 1 <<< size
  let nbytes := if q then 16 else 8
  let mask : BitVec 64 := if bytes ≥ 8 then BitVec.allOnes 64 else (1 <<< (bytes * 8)) - 1
  let elem := (val &&& mask).setWidth 128
  (List.range ((nbytes + bytes - 1) / bytes)).foldl (fun v i => v ||| (elem <<< (i * bytes * 8))) 0

/-- `cpu.v[tt] = v`. -/
def Guest.setV (g : Guest M) (tt : Reg) (v : BitVec 128) : Guest M :=
  { g with cpu := { g.cpu with v := Function.update g.cpu.v tt v } }

/-- One element of a load or store: the bodies of the loops of `multi` and `single`. -/
def elemStep (isLoad : Bool) (size : ℕ) (tt : Reg) (off : ℕ) (addr : BitVec 64) (g : Guest M) :
    Guest M :=
  if isLoad then
    let (val, g) := MemAccess.read g addr size
    if g.aborted then g else g.setV tt (setElem (g.cpu.v tt) off size val)
  else MemAccess.write g addr size (getElem (g.cpu.v tt) off size)

/-- One element of a replicating load. -/
def replicateStep (size : ℕ) (q : Bool) (tt : Reg) (addr : BitVec 64) (g : Guest M) : Guest M :=
  let (val, g) := MemAccess.read g addr size
  if g.aborted then g else g.setV tt (broadcast val size q)

/-- An element loop over registers and byte offsets; a fault ends it. -/
def structLoop (step : Reg → ℕ → BitVec 64 → Guest M → Guest M) (ebytes : BitVec 64) :
    List (Reg × ℕ) → BitVec 64 → Guest M → Guest M
  | [], _, g => g
  | (tt, off) :: rest, addr, g =>
    let g := step tt off addr g
    if g.aborted then g else structLoop step ebytes rest (addr + ebytes) g

/-- The iterations of the three loops of `multi`, as `(tt, off)`. -/
def multiElems (rt : Reg) (rpt elements selem size : ℕ) : List (Reg × ℕ) :=
  (List.range rpt).flatMap fun r =>
    (List.range elements).flatMap fun e =>
      (List.range selem).map fun xs => (Fin.ofNat 32 (rt.val + r + xs), e * (1 <<< size))

/-- The registers that the loop of `single` visits, all at byte offset `off`. -/
def singleElems (rt : Reg) (selem off : ℕ) : List (Reg × ℕ) :=
  (List.range selem).map fun k => (Fin.ofNat 32 (rt.val + k), off)

/-- The zeroing of the upper halves in `multi`. -/
def zeroUpper (cpu : CpuState) (rt : Reg) (count : ℕ) : CpuState :=
  (List.range count).foldl
    (fun cpu k =>
      let tt : Reg := Fin.ofNat 32 (rt.val + k)
      { cpu with
        v := Function.update cpu.v tt (cpu.v tt &&& (BitVec.allOnes 64).setWidth 128) }) cpu

/-- The post-index writeback of both forms; `total` is the number of bytes moved. -/
def postIndex (cpu : CpuState) (postidx : Bool) (rm rn : Reg) (start total : BitVec 64) :
    CpuState :=
  if postidx then
    let inc := if rm = 31 then total else cpu.readGpr rm false
    cpu.writeGpr rn true (start + inc)
  else cpu

/-- `multi` (lines 29–92). -/
def simdLdStMulti (g : Guest M) (isLoad q postidx : Bool) (rm rn rt : Reg) (size rpt selem : ℕ) :
    Guest M :=
  let ebytes : BitVec 64 := 1 <<< size
  let elements := (if q then 16 else 8) / (1 <<< size)
  let start := g.cpu.readGpr rn true
  let g := structLoop (elemStep isLoad size) ebytes (multiElems rt rpt elements selem size) start g
  if g.aborted then g
  else
    let cpu := if isLoad && !q then zeroUpper g.cpu rt (rpt * selem) else g.cpu
    let total := BitVec.ofNat 64 rpt * BitVec.ofNat 64 elements * BitVec.ofNat 64 selem * ebytes
    { g with cpu := postIndex cpu postidx rm rn start total }

/-- `single` (lines 95–145). -/
def simdLdStSingle (g : Guest M) (isLoad replicate postidx : Bool) (rm rn rt : Reg)
    (size selem index : ℕ) (q : Bool) : Guest M :=
  let ebytes : BitVec 64 := 1 <<< size
  let start := g.cpu.readGpr rn true
  let step (tt : Reg) (off : ℕ) (addr : BitVec 64) (g : Guest M) : Guest M :=
    if replicate then replicateStep size q tt addr g else elemStep isLoad size tt off addr g
  let g := structLoop step ebytes (singleElems rt selem (index * (1 <<< size))) start g
  if g.aborted then g
  else { g with cpu := postIndex g.cpu postidx rm rn start (BitVec.ofNat 64 selem * ebytes) }

end V64.Interp
