import V64.Interp.Aside
import V64.Jit.Position
import V64.Jit.RegionShape
import V64.Platform.Machine

/-!
# The run loop of compiled code

Model of `crates/platform/src/machine/jit.rs`, the loop that the browser drives. The host
that owns the WebAssembly engine is a `BlockRunner`; a module is the body of its function.
The cache is a map from physical addresses. A panic, and a trap of compiled code, is `none`.

* `jitEntry`, `jitStep`: the entry at the PC is counted, compiled or called.
* `jitPass`: one pass of the loop of `run_jit_browser`.
* `jitEntry_spec`: what comes before a call changes nothing of the machine but what the fetch
  of an instruction does.
-/

namespace V64.Platform

open Checked Loops V64.Cpu V64.Interp V64.Jit Wasm

/-- `JIT_HOTNESS` (line 38). -/
def jitHotness : BitVec 32 := 256

/-- `JitBlock` (lines 85–93). -/
inductive JitBlock where
  | cold (count : BitVec 32)
  | hot (handle : BitVec 32)
  | plain
  deriving DecidableEq

/-- `BlockRunner` (lines 45–55), on a state of the host. A call has the guest in shared
    memory, and returns the next PC. -/
structure BlockRunner (R M : Type) where
  compile : R → List Instr → BitVec 32 × R
  run : R → BitVec 32 → Guest M → Option (BitVec 64 × Guest M × R)
  invalidate : R → R

/-- A bus that says where its RAM is: `ram_jit_info` (`bus.rs`, lines 103–105) without the
    address in the host. -/
class JitMem (M : Type) extends GicMem M where
  ramJitInfo : M → BitVec 64 × BitVec 64

/-- `Machine` with the fields of the `jit` feature (`machine/mod.rs`, lines 83–101), and the
    host. -/
structure JitMachine (R M : Type) where
  machine : Machine M
  jitInsns : BitVec 64
  jitCalls : BitVec 64
  jitRegions : BitVec 64
  jitRegionBlocks : BitVec 64
  jitCache : BitVec 64 → Option JitBlock
  host : R

namespace JitMachine

variable {R M : Type}

/-- The machine without the feature replaced. -/
def setMachine (j : JitMachine R M) (m : Machine M) : JitMachine R M := { j with machine := m }

/-- The guest replaced. -/
def setGuest (j : JitMachine R M) (g : Guest M) : JitMachine R M :=
  j.setMachine { j.machine with guest := g }

/-- `jit_cache.insert`. -/
def insert (j : JitMachine R M) (pa : BitVec 64) (block : JitBlock) : JitMachine R M :=
  { j with jitCache := Function.update j.jitCache pa (some block) }

/-- `cpu` as a call of compiled code finds it (lines 249–250). -/
def enterBlock (cpu : CpuState) : CpuState := { cpu with nzcv := cpu.flags.toNzcv, jitExit := 0 }

/-- `cpu` after a call that returned `next` (lines 254–255). -/
def leaveBlock (cpu : CpuState) (next : BitVec 64) : CpuState :=
  { cpu with flags := Flags.fromNzcv cpu.nzcv, pc := next }

variable (t : Target) (br : BlockRunner R M)

/-- A call of the compiled code `handle` (lines 249–260). -/
def callBlock (handle : BitVec 32) (j : JitMachine R M) :
    Option (Option t.Usize × JitMachine R M) := do
  let g := j.machine.guest
  let (next, g, host) ← br.run j.host handle { g with cpu := enterBlock g.cpu }
  let calls ← t.add j.jitCalls 1
  let j := { j with host := host, jitCalls := calls }
  return (some (g.cpu.jitCount.setWidth t.usizeBits),
    j.setGuest { g with cpu := leaveBlock g.cpu next })

variable [JitMem M] (L : Layout)

/-- An entry that has become hot (lines 218–230): it is compiled. -/
def compileRegion (pc pa : BitVec 64) (j : JitMachine R M) :
    Option (Option (BitVec 32) × JitMachine R M) := do
  let (region, mem) := formJitRegion t vecLowering j.machine.guest.mem pc pa
  let j := j.setGuest { j.machine.guest with mem := mem }
  let region ← region
  if region.blocks.isEmpty then return (none, j.insert pa .plain)
  else
    let regions ← t.add j.jitRegions 1
    let blocks ← t.add j.jitRegionBlocks (BitVec.ofNat 64 region.blocks.length)
    let info := JitMem.ramJitInfo mem
    let code ← emitRegion L vecLowering region info.1 info.2
    let (handle, host) := br.compile j.host code
    let j := { j with host := host, jitRegions := regions, jitRegionBlocks := blocks }
    return (some handle, j.insert pa (.hot handle))

/-- The code to call for the entry at `pc`, whose physical address is `pa`, unless it is to
    be interpreted (lines 208–236). -/
def blockHandle (pc pa : BitVec 64) (j : JitMachine R M) :
    Option (Option (BitVec 32) × JitMachine R M) :=
  match j.jitCache pa with
  | some (.hot handle) => some (some handle, j)
  | some .plain => some (none, j)
  | some (.cold count) => do
    let count ← t.add count 1
    if count < jitHotness then return (none, j.insert pa (.cold count))
    else compileRegion t br L pc pa j
  | none => some (none, j.insert pa (.cold 1))

/-- `jit_step` before its call (lines 199–236). -/
def jitEntry (j : JitMachine R M) : Option (Option (BitVec 32) × JitMachine R M) :=
  let cpu := j.machine.guest.cpu
  match translate j.machine.guest cpu.pc .exec cpu.el with
  | (.error _, g) => some (none, j.setGuest g)
  | (.ok pa, g) => blockHandle t br L cpu.pc pa (j.setGuest g)

/-- `jit_step` (lines 198–261). -/
def jitStep (j : JitMachine R M) : Option (Option t.Usize × JitMachine R M) := do
  let (handle, j) ← jitEntry t br L j
  match handle with
  | none => return (none, j)
  | some handle => callBlock t br handle j

/-! ## Before a call -/

section Entry

variable {t br L} {j : JitMachine R M}

omit [JitMem M] in
theorem snd_formJitRegion {M : Type} [GuestMem M] (vl : VecLowering) (m : M) (pc pa : BitVec 64) :
    (formJitRegion t vl m pc pa).2 = (pageWords (page / 4).toNat (pa &&& ~~~0xfff) m).2 := by
  have hmask : page - 1 = 0xfff := by decide
  unfold formJitRegion
  rw [hmask]

/-- A compilation succeeds, and reads the page and nothing else. -/
theorem compileRegion_spec (hrelease : t.overflowChecks = false) {pc : BitVec 64}
    (hpc : pc.toNat % 4 = 0) (pa : BitVec 64)
    (hcode : (pageWords (page / 4).toNat (pa &&& ~~~0xfff) j.machine.guest.mem).2 =
      j.machine.guest.mem) :
    ∃ handle j', compileRegion t br L pc pa j = some (handle, j') ∧ j'.machine = j.machine := by
  have hcount : (page / 4).toNat = 1024 := by decide
  obtain ⟨region, hregion⟩ : ∃ region,
      (formJitRegion t vecLowering j.machine.guest.mem pc pa).1 = some region ∧
        ∀ b ∈ region.blocks, Compilable vecLowering b := by
    rw [fst_formJitRegion]
    refine ⟨_, tryFormRegion_eq (endFits_of_wrap hrelease pc) hpc
      (fun a => isSome_jitRead t ((length_pageWords _ _ _).trans hcount)) _ _, ?_⟩
    exact (shaped_formRegion vecLowering pc _ _ _).compilable
  obtain ⟨hregion, hcompilable⟩ := hregion
  have hformed : formJitRegion t vecLowering j.machine.guest.mem pc pa =
      (some region, j.machine.guest.mem) :=
    Prod.ext hregion ((snd_formJitRegion vecLowering _ pc pa).trans hcode)
  unfold compileRegion
  rw [hformed]
  dsimp only [Option.bind_eq_bind, Option.bind_some]
  split_ifs
  · exact ⟨none, _, rfl, rfl⟩
  · obtain ⟨code, hemit⟩ := Option.isSome_iff_exists.mp (emitRegion_isSome L
      (JitMem.ramJitInfo j.machine.guest.mem).1 (JitMem.ramJitInfo j.machine.guest.mem).2
      hcompilable)
    rw [Target.add_of_wrap hrelease, Target.add_of_wrap hrelease, hemit]
    exact ⟨some _, _, rfl, rfl⟩

theorem blockHandle_spec (hrelease : t.overflowChecks = false) {pc : BitVec 64}
    (hpc : pc.toNat % 4 = 0) (pa : BitVec 64)
    (hcode : (pageWords (page / 4).toNat (pa &&& ~~~0xfff) j.machine.guest.mem).2 =
      j.machine.guest.mem) :
    ∃ handle j', blockHandle t br L pc pa j = some (handle, j') ∧ j'.machine = j.machine := by
  unfold blockHandle
  split
  · exact ⟨_, _, rfl, rfl⟩
  · exact ⟨_, _, rfl, rfl⟩
  · rw [Target.add_of_wrap hrelease, Option.bind_eq_bind, Option.bind_some]
    split_ifs
    · exact ⟨_, _, rfl, rfl⟩
    · exact compileRegion_spec hrelease hpc pa hcode
  · exact ⟨_, _, rfl, rfl⟩

variable (br L) in
/-- What comes before a call does nothing to the machine but a fetch of its instruction. -/
theorem jitEntry_spec (hrelease : t.overflowChecks = false)
    (hpc : j.machine.guest.cpu.pc.toNat % 4 = 0)
    (hcode : ∀ pa g, translate j.machine.guest j.machine.guest.cpu.pc .exec
        j.machine.guest.cpu.el = (.ok pa, g) →
      (pageWords (page / 4).toNat (pa &&& ~~~0xfff) g.mem).2 = g.mem) :
    ∃ handle j', jitEntry t br L j = some (handle, j') ∧
      j'.machine = { j.machine with guest := (translate j.machine.guest
        j.machine.guest.cpu.pc .exec j.machine.guest.cpu.el).2 } := by
  unfold jitEntry
  dsimp only
  generalize translate j.machine.guest j.machine.guest.cpu.pc .exec j.machine.guest.cpu.el = r
    at hcode ⊢
  obtain ⟨found, g⟩ := r
  cases found with
  | error fsc => exact ⟨none, _, rfl, rfl⟩
  | ok pa => exact blockHandle_spec hrelease hpc pa (hcode pa g rfl)

end Entry

end JitMachine

/-- The variables of the loop of `run_jit_browser`, and how it was left. -/
structure JitRunning (t : Target) (R M : Type) where
  machine : JitMachine R M
  executed : t.Usize
  stop : Option StopReason

namespace JitMachine

variable {R M : Type} (t : Target) (br : BlockRunner R M)

/-- Instructions that compiled code has retired are billed (lines 149–153). -/
def bill (len : t.Usize) (executed : t.Usize) (j : JitMachine R M) :
    Option (t.Usize × JitMachine R M) := do
  let executed ← t.add executed len
  let total ← t.add j.machine.totalInsns (len.setWidth 64)
  let insns ← t.add j.jitInsns (len.setWidth 64)
  return (executed, { j with jitInsns := insns }.setMachine { j.machine with totalInsns := total })

/-- The two flags of the CPU are taken, and the cache is dropped where the guest has said
    that its code changed (lines 179–186). -/
def dropStale (j : JitMachine R M) : JitMachine R M :=
  let g := j.machine.guest
  let j := if g.cpu.icInval then
    { j with jitCache := fun _ => none, host := br.invalidate j.host } else j
  j.setGuest { g with cpu := { g.cpu with icInval := false, tlbFlushed := false } }

variable [GicMem M]

/-- The end of a pass (lines 179–193). -/
def jitEndPass (executed : t.Usize) (j : JitMachine R M) : Option (Pass (JitRunning t R M)) :=
  let j := j.dropStale br
  if j.machine.guest.cpu.wfi then
    let m := j.machine.setCpu { j.machine.guest.cpu with wfi := false }
    if m.irqDeliverable then some (.again ⟨j.setMachine m, executed, none⟩)
    else do
      let (idle, m) ← m.noteIdle t
      if idle then return .leave ⟨j.setMachine m, executed, some .countReached⟩
      else return .again ⟨j.setMachine m, executed, none⟩
  else some (.again ⟨j, executed, none⟩)

variable (vu : VecUnit)

/-- The counters after an interpreted instruction (lines 168–169), and the end of the
    pass. -/
def retireInsn (executed : t.Usize) (j : JitMachine R M) : Option (Pass (JitRunning t R M)) := do
  let executed ← t.add executed 1
  let total ← t.add j.machine.totalInsns 1
  (j.setMachine { j.machine with totalInsns := total }).jitEndPass t br executed

/-- One interpreted instruction (lines 159–170), and the end of the pass. -/
def interpretInsn (executed : t.Usize) (j : JitMachine R M) :
    Option (Pass (JitRunning t R M)) := do
  let m := j.machine.setCpu { j.machine.guest.cpu with jitExit := 0 }
  let (s, m) ← m.execInsn vu
  match s with
  | .next _ => (j.setMachine m).retireInsn t br executed
  | .unsupported pc word =>
    let m := m.noteUndefined word pc
    if m.undefToGuest then (j.setMachine (m.enterUndefined pc)).retireInsn t br executed
    else return .leave ⟨j.setMachine m, executed, some (.unsupported pc word)⟩

end JitMachine

namespace JitMachine

variable {R M : Type} [JitMem M] (t : Target) (br : BlockRunner R M) (L : Layout) (vu : VecUnit)

/-- A pass after `jit_step` has returned `jitted` (lines 148–193). -/
def afterStep (jitted : Option t.Usize) (executed : t.Usize) (j : JitMachine R M) :
    Option (Pass (JitRunning t R M)) :=
  match jitted with
  | none => j.interpretInsn t br vu executed
  | some len => do
    let (executed, j) ← j.bill t len executed
    if j.machine.guest.cpu.jitExit ≠ 0 then j.interpretInsn t br vu executed
    else j.jitEndPass t br executed

/-- The `loop` of `run_jit_browser` (lines 134–194). -/
def jitPass (stopPc : BitVec 64) (count : t.Usize) (s : JitRunning t R M) :
    Option (Pass (JitRunning t R M)) :=
  let cpu := s.machine.machine.guest.cpu
  if cpu.poweredOff then some (.leave { s with stop := some .poweredOff })
  else if cpu.pc = stopPc then some (.leave { s with stop := some .untilReached })
  else if count ≠ 0 ∧ count ≤ s.executed then
    some (.leave { s with stop := some .countReached })
  else do
    let m ← s.machine.machine.serviceAsync t
    let (jitted, j) ← (s.machine.setMachine m).jitStep t br L
    j.afterStep t br vu jitted s.executed

/-- The loop before its first pass (lines 132–133). -/
def start (j : JitMachine R M) : JitRunning t R M :=
  ⟨j.setMachine { j.machine with idleUntil := none }, 0, none⟩

/-- `run_jit_browser` (lines 126–195), for at most `fuel` passes. -/
def runJitBrowser (stopPc : BitVec 64) (count : t.Usize) (fuel : ℕ) (j : JitMachine R M) :
    Loops.Outcome (JitRunning t R M) :=
  Loops.run (jitPass t br L vu stopPc count) fuel (j.start t)

end JitMachine

end V64.Platform
