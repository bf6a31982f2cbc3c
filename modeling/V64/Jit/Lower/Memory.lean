import V64.Interp.ByteAccess
import V64.Interp.RamHit
import V64.Interp.TlbTransparency
import V64.Jit.Lower.Common

/-!
# The TLB-checked fast path

Model of the part of `crates/jit/src/lower/memory.rs` that every inline access to
guest memory shares. The code looks its address up in the live TLB; on a hit in
RAM that the permissions allow it goes on with the host address of the byte, and
on anything else it bails: it records its progress and returns the PC of its own
instruction.

* `exec_emitBail`: a bail changes the two words of the block protocol.
* `fastOk`, `ramHit_of_fastOk`: what the test has established.
* `fastPath_ends`: the two ways out of an access.
-/

namespace V64.Jit

open V64.Cpu V64.Decoder V64.Interp V64.Platform Wasm
open Wasm.Instr

/-- What a memory lowering is told of the place it emits for: the address of the
    instruction and of the block, the instructions before it, the RAM window and,
    in a region, the local that counts the instructions of earlier blocks. -/
structure Site where
  pc : BitVec 64
  entryPc : BitVec 64
  insnsBefore : BitVec 64
  ramPhys : BitVec 64
  ramSize : BitVec 64
  countBase : Option ℕ

/-- `emit_bail` (lines 43–53). -/
def emitBail (site : Site) : List Instr :=
  [localGet regsBase] ++
    (match site.countBase with
      | some cl => [localGet cl, i64Const site.insnsBefore, i64Add]
      | none => [i64Const site.insnsBefore]) ++
    [i64Store jitCountOff, localGet regsBase, i64Const 1, i64Store jitExitOff] ++
    genRelPc site.pc site.entryPc ++ [Instr.return]

/-- The address of the TLB entry, into `ADDR` (`open_fast_path`, lines 66–79). -/
def entryAddr (L : Layout) : List Instr :=
  [localGet regsBase, i32Load L.tlbOffset, localGet t0, i64Const 12, i64ShrU,
    i64Const (BitVec.ofNat 64 (tlbEntries - 1)), i64And, i32WrapI64,
    i32Const (BitVec.ofNat 32 entrySize), i32Mul, i32Add, localSet addr]

/-- The tag test of `open_fast_path` (lines 81–89). -/
def tagTest : List Instr :=
  [localGet addr, i64Load entryTag, localGet t0, i64Const (~~~0xfff), i64And, i64Eq]

/-- The RAM test of `open_fast_path` (lines 90–99). -/
def ramTest (site : Site) : List Instr :=
  [localGet addr, i64Load entryPa, i64Const site.ramPhys, i64Sub, i64Const site.ramSize, i64LtU,
    i32And]

/-- The page-cross test of `open_fast_path` (lines 100–110). -/
def pageTest (span : BitVec 64) : List Instr :=
  if span > 1 then
    [localGet t0, i64Const 0xfff, i64And, i64Const (0x1000 - span), i64LeU, i32And]
  else []

/-- The permission test of `open_fast_path` (lines 111–136). -/
def permTest (L : Layout) (store : Bool) : List Instr :=
  [localGet regsBase, i32Load8U L.elOffset, i32Eqz, i32Eqz, localGet addr, i32Load8U entryPerms,
    i32Const 1, i32And, i32Or] ++
    (if store then [localGet addr, i32Load8U entryPerms, i32Const 0b10, i32And, i32Eqz, i32And]
    else []) ++ [i32And]

/-- The tests of `open_fast_path` (lines 80–136). -/
def fastPathTest (L : Layout) (span : BitVec 64) (store : Bool) (site : Site) : List Instr :=
  tagTest ++ ramTest site ++ pageTest span ++ permTest L store

/-- The host address of the access, into `ADDR` (`open_fast_path`, lines 140–151). -/
def hostAddr (site : Site) : List Instr :=
  [localGet ramBase, localGet addr, i64Load entryPa, i64Const site.ramPhys, i64Sub, i32WrapI64,
    i32Add, localGet t0, i64Const 0xfff, i64And, i32WrapI64, i32Add, localSet addr]

/-- `open_fast_path` … `close_fast_path` around `body`, with the address in `T0`
    (lines 62–159). -/
def fastPath (L : Layout) (span : BitVec 64) (store : Bool) (site : Site) (body : List Instr) :
    List Instr :=
  entryAddr L ++ fastPathTest L span store site ++
    [ifElse 0 (hostAddr site ++ body) (emitBail site)]

/-- `load_op` (lines 289–305). -/
def loadOp (size : ℕ) (signed : Bool) : Instr :=
  if signed then
    match size with
    | 0 => i64LoadN 1 true 0
    | 1 => i64LoadN 2 true 0
    | 2 => i64LoadN 4 true 0
    | _ => i64Load 0
  else
    match size with
    | 0 => i64LoadN 1 false 0
    | 1 => i64LoadN 2 false 0
    | 2 => i64LoadN 4 false 0
    | _ => i64Load 0

/-- `store_op` (lines 307–314). -/
def storeOp (size : ℕ) : Instr :=
  match size with
  | 0 => i64StoreN 1 0
  | 1 => i64StoreN 2 0
  | 2 => i64StoreN 4 0
  | _ => i64Store 0

/-! ## The state of a block -/

section State

variable {D : Type} [MmioDevice D]

/-- Every entry of the TLB is the packed leaf of a walk made now, and there is none
    while the MMU is off. -/
structure TlbAgrees (g : Guest (Bus D)) : Prop where
  off : mmuEnabled g.cpu = false → g.cpu.tlb.IsEmpty
  entries : ∀ va pa perms, g.cpu.tlb.lookup (pageOf va) = some (pa, perms) →
    ∃ leaf, walkAt g.cpu g.mem va = .ok leaf ∧ pa = leaf.paPage ∧ perms = leaf.pack

/-- Every state of a run whose tables are not stale is one. -/
theorem tlbAgrees_of_transparent {s : XlateState D} (h : Transparent s) (hfresh : s.stale = false) :
    TlbAgrees s.guest := ⟨h.off, h.entries hfresh⟩

/-- What holds of the guest while a block runs: no abort is pending, RAM is whole
    pages that do not wrap, and the TLB agrees with the tables. -/
structure BlockState (g : Guest (Bus D)) : Prop where
  noAbort : g.cpu.pendingAbort = none
  ramWf : g.mem.RamWf
  base : g.mem.ram.base.toNat % 4096 = 0
  size : g.mem.ram.size.toNat % 4096 = 0
  tlb : TlbAgrees g

/-- What of that the emitted code needs, and every run keeps: the tables may be stale. -/
structure RunState (g : Guest (Bus D)) : Prop where
  noAbort : g.cpu.pendingAbort = none
  ramWf : g.mem.RamWf
  base : g.mem.ram.base.toNat % 4096 = 0
  size : g.mem.ram.size.toNat % 4096 = 0
  aligned : g.cpu.tlb.PagesAligned
  off : mmuEnabled g.cpu = false → g.cpu.tlb.IsEmpty

theorem BlockState.runState {g : Guest (Bus D)} (h : BlockState g) : RunState g where
  noAbort := h.noAbort
  ramWf := h.ramWf
  base := h.base
  size := h.size
  aligned va pa perms hlookup := by
    obtain ⟨leaf, hwalk, hpa, -⟩ := h.tlb.entries va pa perms hlookup
    rw [hpa]
    exact paPage_walkLoop hwalk
  off := h.tlb.off

end State

/-- The locals and the constants that the code of `site` relies on: `PC0` holds the
    PC of the block, and `retired` is the count that a bail reports. -/
structure SiteOk {D : Type} (site : Site) (bus : Bus D) (l : ℕ → Val) (base retired : BitVec 64) :
    Prop where
  pc : l 7 = .i64 base
  ramPhys : site.ramPhys = bus.ram.base
  ramSize : site.ramSize = bus.ram.size
  count : match site.countBase with
    | some cl => ∃ v, l cl = .i64 v ∧ isScratch cl = false ∧ retired = v + site.insnsBefore
    | none => retired = site.insnsBefore

/-- The PC of the instruction of `site` in a block entered at `base`. -/
def Site.at (site : Site) (base : BitVec 64) : BitVec 64 := base + (site.pc - site.entryPc)

/-! ## A bail -/

section Bail

variable {D : Type} {L : Layout} {stale : Flags} {bus : Bus D} {cpu : CpuState} {fuel : ℕ}
  {st : List Val} {l : ℕ → Val} {is : List Instr}

@[simp] theorem exec_storeJitCount (h : L.Wf bus.ram.size.toNat) (v : BitVec 64) :
    exec fuel (.i64StoreN 8 jitCountOff :: is)
        ⟨.i64 v :: .i32 L.regsBase :: st, l, host L stale bus cpu⟩ =
      exec fuel is ⟨st, l, host L stale bus { cpu with jitCount := v }⟩ :=
  have hstore : LinearMemory.store (host L stale bus cpu) (L.regsBase.toNat + jitCountOff) 8 v =
      some (host L stale bus { cpu with jitCount := v }) :=
    HostMem.store_field (host_wf h) .jitCount v
  exec_i64StoreN hstore

@[simp] theorem exec_storeJitExit (h : L.Wf bus.ram.size.toNat) (v : BitVec 64) :
    exec fuel (.i64StoreN 8 jitExitOff :: is)
        ⟨.i64 v :: .i32 L.regsBase :: st, l, host L stale bus cpu⟩ =
      exec fuel is ⟨st, l, host L stale bus { cpu with jitExit := v }⟩ :=
  have hstore : LinearMemory.store (host L stale bus cpu) (L.regsBase.toNat + jitExitOff) 8 v =
      some (host L stale bus { cpu with jitExit := v }) :=
    HostMem.store_field (host_wf h) .jitExit v
  exec_i64StoreN hstore

/-- A bail returns the PC of its instruction and leaves the two words of the block
    protocol; nothing else changes. -/
theorem exec_emitBail {site : Site} {base retired : BitVec 64} (h : Ready L bus.ram.size.toNat l)
    (hsite : SiteOk site bus l base retired) :
    exec fuel (emitBail site) ⟨st, l, host L stale bus cpu⟩ =
      .ret ⟨.i64 (site.at base) :: st, l,
        host L stale bus { cpu with jitCount := retired, jitExit := 1 }⟩ := by
  have hcount := hsite.count
  unfold emitBail
  cases hcl : site.countBase with
  | none =>
    rw [hcl] at hcount
    simp [genRelPc, h.regs, h.wf, hsite.pc, hcount, Site.at]
  | some cl =>
    rw [hcl] at hcount
    obtain ⟨v, hv, -, rfl⟩ := hcount
    simp [genRelPc, h.regs, h.wf, hsite.pc, hv, Site.at]

/-- Scratch locals are none of the locals that a site relies on. -/
theorem SiteOk.keeps {site : Site} {base retired : BitVec 64} {l' : ℕ → Val}
    (hsite : SiteOk site bus l base retired) (h : Keeps l l') :
    SiteOk site bus l' base retired where
  pc := (h 7 rfl).trans hsite.pc
  ramPhys := hsite.ramPhys
  ramSize := hsite.ramSize
  count := by
    have hcount := hsite.count
    cases hcl : site.countBase with
    | none =>
      rw [hcl] at hcount
      exact hcount
    | some cl =>
      rw [hcl] at hcount
      obtain ⟨v, hv, hscratch, hret⟩ := hcount
      exact ⟨v, (h cl hscratch).trans hv, hscratch, hret⟩

end Bail

/-! ## The test -/

section Test

variable {D : Type} {L : Layout} {stale : Flags} {bus : Bus D} {cpu : CpuState} {fuel : ℕ}
  {st : List Val} {l : ℕ → Val} {is : List Instr} {va : BitVec 64}

/-- The TLB slot of an address. -/
def slotOf (va : BitVec 64) : ℕ := (Tlb.index (pageOf va)).val

/-- The host address of the TLB slot of an address. -/
def entryPtr (L : Layout) (va : BitVec 64) : BitVec 32 :=
  L.tlbBase + BitVec.ofNat 32 (slotOf va * entrySize)

theorem slotOf_lt (va : BitVec 64) : slotOf va < tlbEntries := (Tlb.index (pageOf va)).isLt

theorem toNat_entryPtr {ramSize : ℕ} (h : L.Wf ramSize) (va : BitVec 64) :
    (entryPtr L va).toNat = L.tlbBase.toNat + slotOf va * entrySize := by
  have hlt := slotOf_lt va
  have hend := h.tlb_lt
  unfold entrySize tlbEntries at *
  unfold entryPtr entrySize
  rw [BitVec.toNat_add, BitVec.toNat_ofNat]
  omega

/-- The slot as the code computes it. -/
theorem slotOf_eq (va : BitVec 64) : ((va >>> 12) &&& 1023#64).toNat = slotOf va := by
  have hpage : pageOf va >>> 12 = va >>> 12 :=
    ushiftRight_of_pageOf_eq (pageOf_pageOf va) (by omega)
  have hslot : slotOf va = (va >>> 12).toNat % 1024 := congrArg (fun v => v.toNat % 1024) hpage
  rw [hslot, BitVec.toNat_and]
  exact Nat.and_two_pow_sub_one_eq_mod _ 10

@[simp] theorem exec_entryAddr (h : Ready L bus.ram.size.toNat l) (hva : l 2 = .i64 va) :
    exec fuel (entryAddr L) ⟨st, l, host L stale bus cpu⟩ =
      .next ⟨st, Function.update l addr (.i32 (entryPtr L va)), host L stale bus cpu⟩ := by
  have hload : LinearMemory.load (host L stale bus cpu) (L.regsBase.toNat + L.tlbOffset) 4 =
      some (L.tlbBase.setWidth 64) := HostMem.load_tlbBase (host_wf h.wf)
  have hwrap : ((va >>> 12) &&& 1023#64).setWidth 32 = (va >>> 12).setWidth 32 &&& 1023#32 :=
    BitVec.setWidth_and
  have hslot : ((va >>> 12).setWidth 32 &&& 1023#32) * 24#32 =
      BitVec.ofNat 32 (slotOf va * 24) := by
    apply BitVec.eq_of_toNat_eq
    rw [← hwrap, BitVec.toNat_mul, BitVec.toNat_setWidth, slotOf_eq, BitVec.toNat_ofNat,
      BitVec.toNat_ofNat, ← Nat.mul_mod]
  unfold entryAddr
  simp only [exec_localGet, regsBase, h.regs]
  rw [exec_i32LoadN hload]
  simp [hva, entryPtr, hslot, tlbEntries, entrySize]

/-- Loads from the entry that `ADDR` points at. -/
theorem load_entry (h : L.Wf bus.ram.size.toNat) {field bytes : ℕ} (hbytes : 0 < bytes)
    (hfield : field + bytes ≤ entrySize) :
    LinearMemory.load (host L stale bus cpu) ((entryPtr L va).toNat + field) bytes =
      HostMem.loadTlb cpu.tlb (slotOf va * entrySize + field) bytes := by
  rw [toNat_entryPtr h]
  exact HostMem.load_tlb (host_wf h) (slotOf_lt va) hbytes hfield

/-- The entry in the slot of an address. -/
def entryOf (cpu : CpuState) (va : BitVec 64) : Entry := cpu.tlb.entries (Tlb.index (pageOf va))

theorem entryAt_slot (cpu : CpuState) (va : BitVec 64) {field : ℕ} (h : field < entrySize) :
    HostMem.entryAt cpu.tlb (slotOf va * entrySize + field) = entryOf cpu va :=
  HostMem.entryAt_mul_add cpu.tlb (slotOf_lt va) h

theorem loadTlb_tag (h : L.Wf bus.ram.size.toNat) :
    LinearMemory.load (host L stale bus cpu) ((entryPtr L va).toNat + entryTag) 8 =
      some (entryOf cpu va).tag := by
  have hmod : (slotOf va * entrySize + entryTag) % entrySize = entryTag :=
    Nat.mul_add_mod_self_right ..
  rw [load_entry h (by decide) (by decide), HostMem.loadTlb, if_pos ⟨rfl, hmod⟩,
    entryAt_slot cpu va (by decide)]

theorem loadTlb_pa (h : L.Wf bus.ram.size.toNat) :
    LinearMemory.load (host L stale bus cpu) ((entryPtr L va).toNat + entryPa) 8 =
      some (entryOf cpu va).pa := by
  have hmod : (slotOf va * entrySize + entryPa) % entrySize = entryPa :=
    Nat.mul_add_mod_self_right ..
  rw [load_entry h (by decide) (by decide), HostMem.loadTlb, hmod, if_neg (by decide),
    if_pos ⟨rfl, rfl⟩, entryAt_slot cpu va (by decide)]

theorem loadTlb_perms (h : L.Wf bus.ram.size.toNat) :
    LinearMemory.load (host L stale bus cpu) ((entryPtr L va).toNat + entryPerms) 1 =
      some ((entryOf cpu va).perms.setWidth 64) := by
  have hmod : (slotOf va * entrySize + entryPerms) % entrySize = entryPerms :=
    Nat.mul_add_mod_self_right ..
  rw [load_entry h (by decide) (by decide), HostMem.loadTlb, hmod, if_neg (by decide),
    if_neg (by decide), if_pos ⟨rfl, rfl⟩, entryAt_slot cpu va (by decide)]

theorem load_elByte (h : L.Wf bus.ram.size.toNat) :
    LinearMemory.load (host L stale bus cpu) (L.regsBase.toNat + L.elOffset) 1 =
      some (BitVec.ofNat 64 cpu.el.val) := HostMem.load_el (host_wf h)

/-- What the test computes. -/
def fastOk (cpu : CpuState) (va span ramPhys ramSize : BitVec 64) (store : Bool) : Bool :=
  (entryOf cpu va).tag == pageOf va && decide ((entryOf cpu va).pa - ramPhys < ramSize) &&
    (!decide (span > 1) || decide (va &&& 0xfff ≤ 0x1000 - span)) &&
    ((cpu.el != 0 || (entryOf cpu va).perms &&& 1 != 0) &&
      (!store || (entryOf cpu va).perms &&& 2 == 0))

section Tests

variable (h : L.Wf bus.ram.size.toNat) (haddr : l 10 = .i32 (entryPtr L va)) (hva : l 2 = .i64 va)
include h haddr

include hva in
theorem exec_tagTest : exec fuel tagTest ⟨st, l, host L stale bus cpu⟩ =
    .next ⟨ofBool ((entryOf cpu va).tag == pageOf va) :: st, l, host L stale bus cpu⟩ := by
  unfold tagTest
  simp [exec_i64LoadN (loadTlb_tag h), haddr, hva, extendLoad, RelOp.eval, pageOf]

theorem exec_ramTest (site : Site) (b : Bool) :
    exec fuel (ramTest site) ⟨ofBool b :: st, l, host L stale bus cpu⟩ =
      .next ⟨ofBool (b && decide ((entryOf cpu va).pa - site.ramPhys < site.ramSize)) :: st, l,
        host L stale bus cpu⟩ := by
  unfold ramTest
  simp [exec_i64LoadN (loadTlb_pa h), haddr, extendLoad, RelOp.eval]

omit h haddr in
include hva in
theorem exec_pageTest (span : BitVec 64) (b : Bool) (m : HostMem D) :
    exec fuel (pageTest span) ⟨ofBool b :: st, l, m⟩ =
      .next ⟨ofBool (b && (!decide (span > 1) || decide (va &&& 0xfff ≤ 0x1000 - span))) :: st, l,
        m⟩ := by
  unfold pageTest
  split_ifs with hspan
  · have hdec : decide (1#64 < span) = true := decide_eq_true hspan
    simp [hdec, hva, RelOp.eval]
  · have hdec : decide (1#64 < span) = false := decide_eq_false hspan
    simp [hdec]

theorem exec_permTest (hregs : l 0 = .i32 L.regsBase) (store b : Bool) :
    exec fuel (permTest L store) ⟨ofBool b :: st, l, host L stale bus cpu⟩ =
      .next ⟨ofBool (b && ((cpu.el != 0 || (entryOf cpu va).perms &&& 1 != 0) &&
        (!store || (entryOf cpu va).perms &&& 2 == 0))) :: st, l, host L stale bus cpu⟩ := by
  have hel : (BitVec.ofNat 32 cpu.el.val == 0#32) = (cpu.el == 0) := by
    generalize cpu.el = el
    revert el
    decide
  have hbits : ∀ perms : BitVec 8,
      perms.setWidth 32 &&& 1#32 = (if perms &&& 1 != 0 then 1 else 0) ∧
        (perms.setWidth 32 &&& 2#32 == 0#32) = (perms &&& 2 == 0) := by
    decide
  have hel0 : Val.i32 ((entryOf cpu va).perms.setWidth 32 &&& 1#32) =
      ofBool ((entryOf cpu va).perms &&& 1 != 0) := congrArg Val.i32 (hbits _).1
  have hro := (hbits (entryOf cpu va).perms).2
  unfold permTest
  cases store
  · simp [exec_i32LoadN (load_elByte h), exec_i32LoadN (loadTlb_perms h), haddr, hregs, hel, hel0,
      bne]
  · simp [exec_i32LoadN (load_elByte h), exec_i32LoadN (loadTlb_perms h), haddr, hregs, hel, hel0,
      hro, bne]

end Tests

theorem exec_fastPathTest (h : L.Wf bus.ram.size.toNat) (haddr : l 10 = .i32 (entryPtr L va))
    (hva : l 2 = .i64 va) (hregs : l 0 = .i32 L.regsBase) (span : BitVec 64) (store : Bool)
    (site : Site) :
    exec fuel (fastPathTest L span store site) ⟨st, l, host L stale bus cpu⟩ =
      .next ⟨ofBool (fastOk cpu va span site.ramPhys site.ramSize store) :: st, l,
        host L stale bus cpu⟩ := by
  unfold fastPathTest fastOk
  rw [exec_append, exec_append, exec_append, exec_tagTest h haddr hva, Outcome.bind_next,
    exec_ramTest h haddr, Outcome.bind_next, exec_pageTest hva, Outcome.bind_next,
    exec_permTest h haddr hregs]

/-- The host address of a byte of the page that the slot holds. -/
def hostPtr (L : Layout) (cpu : CpuState) (va ramPhys : BitVec 64) : BitVec 32 :=
  L.ramBase + ((entryOf cpu va).pa - ramPhys).setWidth 32 + (va &&& 0xfff).setWidth 32

theorem exec_hostAddr (h : Ready L bus.ram.size.toNat l) (haddr : l 10 = .i32 (entryPtr L va))
    (hva : l 2 = .i64 va) (site : Site) :
    exec fuel (hostAddr site) ⟨st, l, host L stale bus cpu⟩ =
      .next ⟨st, Function.update l addr (.i32 (hostPtr L cpu va site.ramPhys)),
        host L stale bus cpu⟩ := by
  unfold hostAddr
  simp [exec_i64LoadN (loadTlb_pa h.wf), h.ram, haddr, hva, extendLoad, hostPtr]

end Test

/-! ## What the test establishes -/

section Hit

variable {D : Type} [MmioDevice D] {L : Layout} {stale : Flags} {bus : Bus D} {cpu : CpuState}
  {fuel : ℕ} {st : List Val} {l : ℕ → Val} {is : List Instr} {va : BitVec 64}

/-- The bits of a packed leaf that the permission test reads. -/
theorem checkPerms_unpack (el : Fin 4) (pa : BitVec 64) (perms : BitVec 8) :
    checkPerms el (Leaf.unpack pa perms) .read = (el != 0 || perms &&& 1 != 0) ∧
      checkPerms el (Leaf.unpack pa perms) .write =
        ((el != 0 || perms &&& 1 != 0) && perms &&& 2 == 0) := by
  have hread : ∀ (el : Fin 4) (user : Bool), (!(el == 0 && !user)) = (el != 0 || user) := by
    decide
  have hwrite : (!(perms &&& 2 != 0)) = (perms &&& 2 == 0) := by
    rw [bne, Bool.not_not]
  refine ⟨hread el _, ?_⟩
  show (!(el == 0 && !(perms &&& 1 != 0)) && !(perms &&& 2 != 0)) = _
  rw [hread, hwrite]

/-- A page whose first byte lies in RAM lies in RAM, which is whole pages. -/
theorem inRam_page {D : Type} {bus : Bus D} (hwf : bus.RamWf)
    (hbase : bus.ram.base.toNat % 4096 = 0)
    (hsize : bus.ram.size.toNat % 4096 = 0) {pa : BitVec 64} (hpa : pa.toNat % 4096 = 0)
    (h : pa - bus.ram.base < bus.ram.size) : bus.InRam pa 4096 := by
  have hbase_lt := bus.ram.base.isLt
  have hpa_lt := pa.isLt
  unfold Bus.RamWf at hwf
  rw [BitVec.lt_def, BitVec.toNat_sub] at h
  unfold Bus.InRam
  omega

/-- What the page-cross test says. -/
theorem span_of_test {span va : BitVec 64} (hpos : 0 < span.toNat) (hspan : span.toNat ≤ 4096)
    (h : (!decide (span > 1) || decide (va &&& 0xfff ≤ 0x1000 - span)) = true) :
    (va &&& 0xfff).toNat + span.toNat ≤ 4096 := by
  have hlt : (va &&& 0xfff).toNat < 4096 := by
    rw [BitVec.toNat_and]
    exact Nat.lt_of_le_of_lt Nat.and_le_right (by decide)
  rw [Bool.or_eq_true, Bool.not_eq_true', decide_eq_false_iff_not, decide_eq_true_eq] at h
  cases h with
  | inl hone =>
    have hle : ¬ 1 < span.toNat := hone
    omega
  | inr hle =>
    have hsub : (0x1000 - span).toNat = 4096 - span.toNat :=
      BitVec.toNat_sub_of_le (BitVec.le_def.mpr hspan)
    rw [BitVec.le_def, hsub] at hle
    omega

omit [MmioDevice D] in
theorem ramHit_of_fastOk (hg : RunState (⟨cpu, bus⟩ : Guest (Bus D))) {span : BitVec 64}
    (hpos : 0 < span.toNat) (hspan : span.toNat ≤ 4096) {store : Bool}
    (hok : fastOk cpu va span bus.ram.base bus.ram.size store = true) :
    RamHit (⟨cpu, bus⟩ : Guest (Bus D)) (pageOf va) (entryOf cpu va).pa (entryOf cpu va).perms
        store ∧
      (va &&& 0xfff).toNat + span.toNat ≤ 4096 := by
  unfold fastOk at hok
  rw [Bool.and_eq_true, Bool.and_eq_true, Bool.and_eq_true, Bool.and_eq_true, beq_iff_eq,
    decide_eq_true_eq] at hok
  obtain ⟨⟨⟨htag, hram⟩, hpage⟩, hread, hwrite⟩ := hok
  have hlookup : cpu.tlb.lookup (pageOf va) = some ((entryOf cpu va).pa, (entryOf cpu va).perms) :=
    if_pos htag
  have hmmu : mmuEnabled cpu = true := by
    by_contra hoff
    have hnone := (hg.off (Bool.eq_false_of_not_eq_true hoff)).lookup va
    rw [hnone] at hlookup
    exact Option.some_ne_none _ hlookup.symm
  have haligned : (entryOf cpu va).pa.toNat % 4096 = 0 := hg.aligned va _ _ hlookup
  have hperms := checkPerms_unpack cpu.el (entryOf cpu va).pa (entryOf cpu va).perms
  exact ⟨{
    wf := hg.ramWf
    mmu := hmmu
    lookup := hlookup
    aligned := haligned
    inRam := inRam_page hg.ramWf hg.base hg.size haligned hram
    read := hperms.1.trans hread
    write := by
      intro hstore
      subst hstore
      rw [hperms.2, Bool.and_eq_true]
      exact ⟨hread, hwrite⟩ }, span_of_test hpos hspan hpage⟩

/-! ## Both ways out -/

/-- The body of the fast path runs here: the page is in RAM, the `span` bytes at `va`
    lie in it, and `ADDR` is the host address of the first. -/
structure OnFastPath (L : Layout) (g : Guest (Bus D)) (va : BitVec 64) (span : ℕ) (store : Bool)
    (l : ℕ → Val) (pa : BitVec 64) (perms : BitVec 8) : Prop where
  hit : RamHit g (pageOf va) pa perms store
  span : (va &&& 0xfff).toNat + span ≤ 4096
  t0 : l 2 = .i64 va
  addr : ∃ c : BitVec 32, l 10 = .i32 c ∧ c.toNat = L.ramBase.toNat + ramOffset g pa va

/-- The block has returned with a bail at `site`: it reports the instructions before,
    and nothing but the two words of the block protocol has changed. -/
def Bailed (L : Layout) (stale : Flags) (bus : Bus D) (cpu : CpuState) (site : Site)
    (base retired : BitVec 64) (s : State (HostMem D)) : Prop :=
  s.stack.head? = some (.i64 (site.at base)) ∧
    s.mem = host L stale bus { cpu with jitCount := retired, jitExit := 1 }

/-- Run in step with `⟨cpu, bus⟩`, the code of an access ends in step with `g'`, where no
    abort is pending, or bails. -/
def EmitsOrBails (L : Layout) (stale : Flags) (bus : Bus D) (l : ℕ → Val) (code : List Instr)
    (cpu : CpuState) (site : Site) (base retired : BitVec 64) (g' : Guest (Bus D)) : Prop :=
  ∀ fuel st, (exec fuel code ⟨st, l, host L stale bus cpu⟩).Ends
    (fun s => s.stack = st ∧ Keeps l s.locals ∧ s.mem = host L stale g'.mem g'.cpu ∧
      g'.cpu.pendingAbort = none)
    (Bailed L stale bus cpu site base retired)

omit [MmioDevice D] in
theorem bailed_emitBail {site : Site} {base retired : BitVec 64} {R : State (HostMem D) → Prop}
    (h : Ready L bus.ram.size.toNat l) (hsite : SiteOk site bus l base retired) :
    (exec fuel (emitBail site) ⟨st, l, host L stale bus cpu⟩).Ends R
      (Bailed L stale bus cpu site base retired) := by
  rw [exec_emitBail h hsite]
  exact ⟨rfl, rfl⟩

omit [MmioDevice D] in
/-- The host address of a byte of the page. -/
theorem toNat_hostPtr (h : L.Wf bus.ram.size.toNat) {store : Bool}
    (hhit : RamHit (⟨cpu, bus⟩ : Guest (Bus D)) (pageOf va) (entryOf cpu va).pa
      (entryOf cpu va).perms store) :
    (hostPtr L cpu va bus.ram.base).toNat =
      L.ramBase.toNat + ramOffset (⟨cpu, bus⟩ : Guest (Bus D)) (entryOf cpu va).pa va := by
  have hin := hhit.inRam
  have hlt := h.ram_lt
  have hoff : (va &&& 0xfff).toNat < 4096 := by
    rw [BitVec.toNat_and]
    exact Nat.lt_of_le_of_lt Nat.and_le_right (by decide)
  have hsub : ((entryOf cpu va).pa - bus.ram.base).toNat =
      (entryOf cpu va).pa.toNat - bus.ram.base.toNat :=
    BitVec.toNat_sub_of_le (BitVec.le_def.mpr hin.1)
  unfold Bus.InRam at hin
  unfold hostPtr ramOffset
  rw [BitVec.toNat_add, BitVec.toNat_add, BitVec.toNat_setWidth, BitVec.toNat_setWidth, hsub]
  dsimp only at hin ⊢
  omega

omit [MmioDevice D] in
/-- The fast path runs `body` on a hit and bails on anything else. -/
theorem fastPath_ends {site : Site} {base retired : BitVec 64} {span : BitVec 64} {store : Bool}
    {body : List Instr} {g' : Guest (Bus D)} (h : Ready L bus.ram.size.toNat l)
    (hsite : SiteOk site bus l base retired) (hg : RunState (⟨cpu, bus⟩ : Guest (Bus D)))
    (hva : l 2 = .i64 va) (hpos : 0 < span.toNat) (hspan : span.toNat ≤ 4096)
    (hbody : ∀ fuel l' pa perms, Ready L bus.ram.size.toNat l' →
      OnFastPath L (⟨cpu, bus⟩ : Guest (Bus D)) va span.toNat store l' pa perms →
      (exec fuel body ⟨[], l', host L stale bus cpu⟩).Ends
        (fun s => Keeps l' s.locals ∧ s.mem = host L stale g'.mem g'.cpu ∧
          g'.cpu.pendingAbort = none) fun _ => False) :
    EmitsOrBails L stale bus l (fastPath L span store site body) cpu site base retired g' := by
  intro fuel st
  set l₁ := Function.update l addr (.i32 (entryPtr L va)) with hl₁
  have hkeeps₁ : Keeps l l₁ := (keeps_update rfl).mpr (keeps_refl l)
  have hready₁ : Ready L bus.ram.size.toNat l₁ := hkeeps₁.ready h
  have haddr₁ : l₁ 10 = .i32 (entryPtr L va) := Function.update_self ..
  have hva₁ : l₁ 2 = .i64 va := (Function.update_of_ne (by decide) _ l).trans hva
  have harms : ((exec fuel
      (if fastOk cpu va span site.ramPhys site.ramSize store then hostAddr site ++ body
        else emitBail site) ⟨[], l₁, host L stale bus cpu⟩).exitBlock 0 st).Ends
      (fun s => s.stack = st ∧ Keeps l s.locals ∧ s.mem = host L stale g'.mem g'.cpu ∧
        g'.cpu.pendingAbort = none)
      (Bailed L stale bus cpu site base retired) := by
    apply Outcome.Ends.exitBlock
    split_ifs with hok
    · rw [hsite.ramPhys, hsite.ramSize] at hok
      obtain ⟨hhit, hin⟩ := ramHit_of_fastOk hg hpos hspan hok
      rw [exec_append, exec_hostAddr hready₁ haddr₁ hva₁, Outcome.bind_next]
      set l₂ := Function.update l₁ addr (.i32 (hostPtr L cpu va site.ramPhys))
      have hkeeps₂ : Keeps l l₂ := (keeps_update rfl).mpr hkeeps₁
      have hfast : OnFastPath L (⟨cpu, bus⟩ : Guest (Bus D)) va span.toNat store l₂
          (entryOf cpu va).pa (entryOf cpu va).perms :=
        ⟨hhit, hin, (Function.update_of_ne (by decide) _ l₁).trans hva₁,
          hostPtr L cpu va site.ramPhys, Function.update_self .., by
            rw [hsite.ramPhys]
            exact toNat_hostPtr h.wf hhit⟩
      exact (hbody fuel l₂ _ _ (hkeeps₂.ready h) hfast).mono
        (fun s hs => ⟨rfl, hkeeps₂.trans hs.1, hs.2⟩) fun _ hs => hs.elim
    · exact bailed_emitBail hready₁ (hsite.keeps hkeeps₁)
  unfold fastPath
  rw [exec_append, exec_append, exec_entryAddr h hva, Outcome.bind_next,
    exec_fastPathTest h.wf haddr₁ hva₁ hready₁.regs, Outcome.bind_next, exec_ifElse]
  exact harms.bind fun s hs => by rwa [exec_nil]

/-! ## RAM at the host address -/

omit [MmioDevice D] in
theorem OnFastPath.toNat_add_le {g : Guest (Bus D)} {n : ℕ} {store : Bool} {pa : BitVec 64}
    {perms : BitVec 8} (hfast : OnFastPath L g va n store l pa perms) {k : ℕ} (hk : k ≤ n) :
    ramOffset g pa va + k ≤ g.mem.ram.size.toNat := by
  have hin := hfast.hit.inRam
  have hspan := hfast.span
  unfold Bus.InRam at hin
  unfold ramOffset
  omega

omit [MmioDevice D] in
/-- A load of a whole access, sign-extended or not. -/
theorem exec_loadOp (h : L.Wf bus.ram.size.toNat) {c : BitVec 32} {o size : ℕ}
    (hc : c.toNat = L.ramBase.toNat + o) (hsize : size ≤ 3)
    (ho : o + 1 <<< size ≤ bus.ram.size.toNat) (signed : Bool) :
    exec fuel (loadOp size signed :: is) ⟨.i32 c :: st, l, host L stale bus cpu⟩ =
      exec fuel is ⟨.i64 (extendLoad (1 <<< size) signed
        (Bytes.loadLe 64 bus.ram.bytes o (1 <<< size))) :: st, l, host L stale bus cpu⟩ := by
  have hload : LinearMemory.load (host L stale bus cpu) (c.toNat + 0) (1 <<< size) =
      some (Bytes.loadLe 64 bus.ram.bytes o (1 <<< size)) := by
    rw [Nat.add_zero, hc]
    exact HostMem.load_ram (host_wf h) (by rw [Nat.one_shiftLeft]; exact Nat.two_pow_pos size) ho
  obtain rfl | rfl | rfl | rfl : size = 0 ∨ size = 1 ∨ size = 2 ∨ size = 3 := by omega
  · cases signed <;> exact exec_i64LoadN hload
  · cases signed <;> exact exec_i64LoadN hload
  · cases signed <;> exact exec_i64LoadN hload
  · cases signed
    · exact exec_i64LoadN hload
    · have hfull (v : BitVec 64) : extendLoad 8 true v = v := by
        simp [extendLoad]
      refine (exec_i64LoadN hload).trans ?_
      rw [show (1 <<< 3 : ℕ) = 8 by rfl, hfull]
      rfl

omit [MmioDevice D] in
/-- A store of a whole access. -/
theorem exec_storeOp (h : L.Wf bus.ram.size.toNat) {c : BitVec 32} {o size : ℕ}
    (hc : c.toNat = L.ramBase.toNat + o) (hsize : size ≤ 3)
    (ho : o + 1 <<< size ≤ bus.ram.size.toNat) (v : BitVec 64) :
    exec fuel (storeOp size :: is) ⟨.i64 v :: .i32 c :: st, l, host L stale bus cpu⟩ =
      exec fuel is ⟨st, l, host L stale (Guest.setRam ⟨cpu, bus⟩
        (Bytes.storeLe bus.ram.bytes o (1 <<< size) v)).mem cpu⟩ := by
  have hstore : LinearMemory.store (host L stale bus cpu) (c.toNat + 0) (1 <<< size) v =
      some (host L stale (Guest.setRam ⟨cpu, bus⟩
        (Bytes.storeLe bus.ram.bytes o (1 <<< size) v)).mem cpu) := by
    rw [Nat.add_zero, hc]
    exact HostMem.store_ram (host_wf h) (by rw [Nat.one_shiftLeft]; exact Nat.two_pow_pos size) ho v
  obtain rfl | rfl | rfl | rfl : size = 0 ∨ size = 1 ∨ size = 2 ∨ size = 3 := by omega
  all_goals exact exec_i64StoreN hstore

end Hit

end V64.Jit
