import V64.Interp.Exception
import V64.Interp.Mmu

/-!
# Translated memory accesses

Model of `crates/interp/src/mem_access.rs`. An access that faults is dropped,
reads give 0, and the fault is left in `pendingAbort` for the run loop. Sizes are
the log2 of the width in bytes. Addresses wrap, as in a build without overflow checks;
`AnyBuild.lean` has the accesses of any build.

* `SameRegs`: what an access leaves of the CPU, all but the TLB and `pendingAbort`.
* `sameRegs_readAt`, `sameRegs_writeAt`, `sameRegs_gather`, `sameRegs_scatter`,
  `sameRegs_dcZva`: no access reaches a register.
-/

namespace V64.Interp

open V64.Cpu V64.Decoder

variable {M : Type} [GuestMem M]

/-- `cpu.pending_abort = Some(abort)`. -/
def Guest.abort (g : Guest M) (abort : Abort) : Guest M :=
  { g with cpu := { g.cpu with pendingAbort := some abort } }

/-- `cpu.pending_abort.is_some()`. -/
def Guest.aborted (g : Guest M) : Bool := g.cpu.pendingAbort.isSome

/-- `xlate` (lines 24–33). -/
def xlate (g : Guest M) (va : BitVec 64) (write : Bool) (el : Fin 4) :
    Option (BitVec 64) × Guest M :=
  let access := if write then Access.write else Access.read
  match translate g va access el with
  | (.ok pa, g) => (some pa, g)
  | (.error fsc, g) => (none, g.abort { far := va, write := write, fsc := fsc })

/-- `in_one_page` (lines 38–40). -/
def inOnePage (va : BitVec 64) (n : ℕ) : Bool := (va &&& 0xfff).toNat + n ≤ 0x1000

/-- `chunk`: the bytes of the access from `done` on that `cur`'s page still holds. The end
    of the last page wraps to 0, without overflow checks. -/
def chunkLen (cur : BitVec 64) (done n : ℕ) : ℕ :=
  let pageEnd := (cur &&& ~~~0xfff) + 0x1000
  min (n - done) (pageEnd - cur).toNat

/-- The inner loop of `gather`. -/
def gatherChunk (pa : BitVec 64) (done : ℕ) : (chunk : ℕ) → BitVec 128 → M → BitVec 128 × M
  | 0, val, mem => (val, mem)
  | i + 1, val, mem =>
    let (val, mem) := gatherChunk pa done i val mem
    let (byte, mem) := GuestMem.readU8 mem (pa + BitVec.ofNat 64 i)
    (val ||| (byte.setWidth 128 <<< ((done + i) * 8)), mem)

/-- The outer loop of `gather`, without overflow checks: every round reads a byte at least,
    so `n` rounds do. -/
def gatherLoop (va : BitVec 64) (n : ℕ) (el : Fin 4) :
    (fuel : ℕ) → (val : BitVec 128) → (done : ℕ) → Guest M → BitVec 128 × Guest M
  | 0, val, _, g => (val, g)
  | fuel + 1, val, done, g =>
    if done < n then
      let cur := va + BitVec.ofNat 64 done
      let chunk := chunkLen cur done n
      match xlate g cur false el with
      | (none, g) => (0, g)
      | (some pa, g) =>
        let (val, mem) := gatherChunk pa done chunk val g.mem
        gatherLoop va n el fuel val (done + chunk) { g with mem := mem }
    else (val, g)

/-- `gather` (lines 44–58). -/
def gather (g : Guest M) (va : BitVec 64) (n : ℕ) (el : Fin 4) : BitVec 128 × Guest M :=
  gatherLoop va n el n 0 0 g

/-- The inner loop of `scatter`. -/
def scatterChunk (pa : BitVec 64) (done : ℕ) (val : BitVec 128) : (chunk : ℕ) → M → M
  | 0, mem => mem
  | i + 1, mem =>
    let mem := scatterChunk pa done val i mem
    GuestMem.writeU8 mem (pa + BitVec.ofNat 64 i) ((val >>> ((done + i) * 8)).setWidth 8)

/-- The outer loop of `scatter`, without overflow checks. -/
def scatterLoop (va : BitVec 64) (n : ℕ) (val : BitVec 128) (el : Fin 4) :
    (fuel : ℕ) → (done : ℕ) → Guest M → Guest M
  | 0, _, g => g
  | fuel + 1, done, g =>
    if done < n then
      let cur := va + BitVec.ofNat 64 done
      let chunk := chunkLen cur done n
      match xlate g cur true el with
      | (none, g) => g
      | (some pa, g) =>
        scatterLoop va n val el fuel (done + chunk)
          { g with mem := scatterChunk pa done val chunk g.mem }
    else g

/-- `scatter` (lines 62–74). -/
def scatter (g : Guest M) (va : BitVec 64) (n : ℕ) (val : BitVec 128) (el : Fin 4) : Guest M :=
  scatterLoop va n val el n 0 g

/-- The `match size` of `read_at`. -/
def readSized (mem : M) (pa : BitVec 64) (size : ℕ) : BitVec 64 × M :=
  match size with
  | 0 => let r := GuestMem.readU8 mem pa; (r.1.setWidth 64, r.2)
  | 1 => let r := GuestMem.readU16 mem pa; (r.1.setWidth 64, r.2)
  | 2 => let r := GuestMem.readU32 mem pa; (r.1.setWidth 64, r.2)
  | _ => GuestMem.readU64 mem pa

/-- `read_at` (lines 77–90). -/
def readAt (g : Guest M) (va : BitVec 64) (size : ℕ) (el : Fin 4) : BitVec 64 × Guest M :=
  let n := 1 <<< size
  if inOnePage va n then
    match xlate g va false el with
    | (none, g) => (0, g)
    | (some pa, g) =>
      let (val, mem) := readSized g.mem pa size
      (val, { g with mem := mem })
  else
    let (val, g) := gather g va n el
    (val.setWidth 64, g)

/-- The `match size` of `write_at`. -/
def writeSized (mem : M) (pa : BitVec 64) (size : ℕ) (val : BitVec 64) : M :=
  match size with
  | 0 => GuestMem.writeU8 mem pa (val.setWidth 8)
  | 1 => GuestMem.writeU16 mem pa (val.setWidth 16)
  | 2 => GuestMem.writeU32 mem pa (val.setWidth 32)
  | _ => GuestMem.writeU64 mem pa val

/-- `write_at` (lines 93–106). -/
def writeAt (g : Guest M) (va : BitVec 64) (size : ℕ) (val : BitVec 64) (el : Fin 4) : Guest M :=
  let n := 1 <<< size
  if inOnePage va n then
    match xlate g va true el with
    | (none, g) => g
    | (some pa, g) => { g with mem := writeSized g.mem pa size val }
  else scatter g va n (val.setWidth 128) el

namespace MemAccess

/-- `read` (lines 109–111). -/
def read (g : Guest M) (va : BitVec 64) (size : ℕ) : BitVec 64 × Guest M :=
  readAt g va size g.cpu.el

/-- `write` (lines 114–116). -/
def write (g : Guest M) (va : BitVec 64) (size : ℕ) (val : BitVec 64) : Guest M :=
  writeAt g va size val g.cpu.el

/-- `read_unpriv` (lines 136–138). -/
def readUnpriv (g : Guest M) (va : BitVec 64) (size : ℕ) : BitVec 64 × Guest M := readAt g va size 0

/-- `write_unpriv` (lines 141–143). -/
def writeUnpriv (g : Guest M) (va : BitVec 64) (size : ℕ) (val : BitVec 64) : Guest M :=
  writeAt g va size val 0

/-- `read_vec` (lines 146–148). -/
def readVec (g : Guest M) (va : BitVec 64) (log2 : ℕ) : BitVec 128 × Guest M :=
  gather g va (1 <<< log2) g.cpu.el

/-- `write_vec` (lines 151–153). -/
def writeVec (g : Guest M) (va : BitVec 64) (log2 : ℕ) (val : BitVec 128) : Guest M :=
  scatter g va (1 <<< log2) val g.cpu.el

end MemAccess

/-- `FSC_ALIGNMENT` (line 119). -/
def fscAlignment : BitVec 8 := 0b100001

/-- `align_check` (lines 126–133): `none` is `false`, an aligned address. -/
def alignCheck (g : Guest M) (va bytes : BitVec 64) (write : Bool) : Option (Guest M) :=
  if va &&& (bytes - 1) != 0 then
    some (g.abort { far := va, write := write, fsc := fscAlignment })
  else none

/-- The `for` loop of `dc_zva`, with `left` bytes to go from `off`. -/
def dcZvaLoop (base : BitVec 64) : (left off : ℕ) → Guest M → Guest M
  | 0, _, g => g
  | left + 1, off, g =>
    let g := MemAccess.write g (base + BitVec.ofNat 64 off) 0 0
    if g.aborted then g else dcZvaLoop base left (off + 1) g

/-- `dc_zva` (lines 158–168). -/
def dcZva (g : Guest M) (rt : Reg) : Guest M :=
  let dczid := getSysreg g.cpu (sysregKey 3 3 0 0 7)
  let bytes := 4 <<< (dczid &&& 0xf).toNat
  let base := g.cpu.readGpr rt false &&& ~~~(BitVec.ofNat 64 bytes - 1)
  dcZvaLoop base bytes 0 g

/-! ## No access reaches a register -/

/-- `b` is `a` up to the TLB and the pending abort. -/
def SameRegs (a b : CpuState) : Prop :=
  ∃ tlb pendingAbort, b = { a with tlb := tlb, pendingAbort := pendingAbort }

theorem SameRegs.refl (a : CpuState) : SameRegs a a := ⟨a.tlb, a.pendingAbort, rfl⟩

theorem SameRegs.trans {a b c : CpuState} (h : SameRegs a b) (h' : SameRegs b c) :
    SameRegs a c := by
  obtain ⟨tlb, abort, rfl⟩ := h
  obtain ⟨tlb', abort', rfl⟩ := h'
  exact ⟨tlb', abort', rfl⟩

theorem sameRegs_xlate (g : Guest M) (va : BitVec 64) (write : Bool) (el : Fin 4) :
    SameRegs g.cpu (xlate g va write el).2.cpu := by
  unfold xlate
  dsimp only
  obtain ⟨tlb, htlb⟩ := translate_cpu g va (if write then .write else .read) el
  split
  · next pa g' heq =>
    rw [heq] at htlb
    exact ⟨tlb, g.cpu.pendingAbort, htlb⟩
  · next fsc g' heq =>
    rw [heq] at htlb
    have hcpu : g'.cpu = { g.cpu with tlb := tlb } := htlb
    refine ⟨tlb, some { far := va, write := write, fsc := fsc }, ?_⟩
    rw [Guest.abort, hcpu]

theorem sameRegs_gatherLoop (va : BitVec 64) (n : ℕ) (el : Fin 4) (fuel : ℕ) (val : BitVec 128)
    (done : ℕ) (g : Guest M) : SameRegs g.cpu (gatherLoop va n el fuel val done g).2.cpu := by
  induction fuel generalizing val done g with
  | zero => exact .refl g.cpu
  | succ fuel ih =>
    rw [gatherLoop]
    split_ifs
    · have hx := sameRegs_xlate g (va + BitVec.ofNat 64 done) false el
      dsimp only
      split
      · next heq =>
        rw [heq] at hx
        exact hx
      · next heq =>
        rw [heq] at hx
        exact hx.trans (ih _ _ _)
    · exact .refl g.cpu

theorem sameRegs_gather (g : Guest M) (va : BitVec 64) (n : ℕ) (el : Fin 4) :
    SameRegs g.cpu (gather g va n el).2.cpu := sameRegs_gatherLoop va n el n 0 0 g

theorem sameRegs_scatterLoop (va : BitVec 64) (n : ℕ) (val : BitVec 128) (el : Fin 4) (fuel : ℕ)
    (done : ℕ) (g : Guest M) : SameRegs g.cpu (scatterLoop va n val el fuel done g).cpu := by
  induction fuel generalizing done g with
  | zero => exact .refl g.cpu
  | succ fuel ih =>
    rw [scatterLoop]
    split_ifs
    · have hx := sameRegs_xlate g (va + BitVec.ofNat 64 done) true el
      dsimp only
      split
      · next heq =>
        rw [heq] at hx
        exact hx
      · next heq =>
        rw [heq] at hx
        exact hx.trans (ih _ _)
    · exact .refl g.cpu

theorem sameRegs_scatter (g : Guest M) (va : BitVec 64) (n : ℕ) (val : BitVec 128) (el : Fin 4) :
    SameRegs g.cpu (scatter g va n val el).cpu := sameRegs_scatterLoop va n val el n 0 g

theorem sameRegs_readAt (g : Guest M) (va : BitVec 64) (size : ℕ) (el : Fin 4) :
    SameRegs g.cpu (readAt g va size el).2.cpu := by
  unfold readAt
  dsimp only
  split_ifs
  · have hx := sameRegs_xlate g va false el
    split
    · next heq =>
      rw [heq] at hx
      exact hx
    · next heq =>
      rw [heq] at hx
      exact hx
  · exact sameRegs_gather g va _ el

theorem sameRegs_writeAt (g : Guest M) (va : BitVec 64) (size : ℕ) (val : BitVec 64)
    (el : Fin 4) : SameRegs g.cpu (writeAt g va size val el).cpu := by
  unfold writeAt
  dsimp only
  split_ifs
  · have hx := sameRegs_xlate g va true el
    split
    · next heq =>
      rw [heq] at hx
      exact hx
    · next heq =>
      rw [heq] at hx
      exact hx
  · exact sameRegs_scatter g va _ _ el

omit [GuestMem M] in
theorem sameRegs_alignCheck {g g' : Guest M} {va bytes : BitVec 64} {write : Bool}
    (h : alignCheck g va bytes write = some g') : SameRegs g.cpu g'.cpu := by
  unfold alignCheck at h
  split_ifs at h
  cases h
  exact ⟨_, _, rfl⟩

theorem sameRegs_dcZvaLoop (base : BitVec 64) (left off : ℕ) (g : Guest M) :
    SameRegs g.cpu (dcZvaLoop base left off g).cpu := by
  induction left generalizing off g with
  | zero => exact .refl g.cpu
  | succ left ih =>
    have hw := sameRegs_writeAt g (base + BitVec.ofNat 64 off) 0 0 g.cpu.el
    rw [dcZvaLoop]
    split_ifs
    · exact hw
    · exact hw.trans (ih _ _)

theorem sameRegs_dcZva (g : Guest M) (rt : Reg) : SameRegs g.cpu (dcZva g rt).cpu :=
  sameRegs_dcZvaLoop _ _ _ g

end V64.Interp
