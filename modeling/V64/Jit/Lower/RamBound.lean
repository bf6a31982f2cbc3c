import V64.Jit.Lower.Memory
import V64.Platform.Board

/-!
# Where the fast path may access

The test of `open_fast_path` in `crates/jit/src/lower/memory.rs` compares the address of the
page with the size of RAM, and says nothing of the bytes of the page that are accessed.

* `performs_iff`: when the emitted code performs an access, and where.
* `Overruns`: the accesses past the end of RAM, in a last page that RAM does not fill.
* `performs_inBuffer_iff`: they are the ones that leave the buffer, and no other is.
-/

namespace V64.Jit

open V64.Cpu V64.Interp V64.Platform Wasm
open Wasm.Instr

/-- Code at whose end nothing follows. -/
theorem bind_exec_nil {M : Type} [LinearMemory M] {fuel : ℕ} (o : Outcome M) :
    o.bind (exec fuel []) = o := by
  cases o with
  | next s => rw [Outcome.bind_next, exec_nil]
  | br n s => rfl
  | ret s => rfl
  | trap => rfl
  | outOfFuel => rfl

section Bound

variable {D : Type} {L : Layout} {stale : Flags} {bus : Bus D} {cpu : CpuState} {l : ℕ → Val}
  {site : Site} {base retired va span pa : BitVec 64} {perms : BitVec 8} {store : Bool}

/-- Every entry of the TLB is the leaf of a walk for an address of its page, made at some time
    before on the same RAM window. -/
def TableMade (bus : Bus D) (tlb : Tlb) : Prop :=
  ∀ page pa perms, tlb.lookup (pageOf page) = some (pa, perms) →
    ∃ (E : Type) (_ : MmioDevice E) (cpu : CpuState) (mem : Bus E) (va : BitVec 64) (leaf : Leaf),
      mem.ram.base = bus.ram.base ∧ mem.ram.size = bus.ram.size ∧ pageOf va = pageOf page ∧
        walkAt cpu mem va = .ok leaf ∧ pa = leaf.paPage ∧ perms = leaf.pack

/-- The emitted fast path performs its access, with `ptr` for the host address: whatever the
    access is, it runs, in the block of the test. -/
def Performs (L : Layout) (stale : Flags) (bus : Bus D) (cpu : CpuState) (l : ℕ → Val)
    (span : BitVec 64) (store : Bool) (site : Site) (ptr : BitVec 32) : Prop :=
  ∃ l', l' addr = .i32 ptr ∧ ∀ fuel st body,
    exec fuel (fastPath L span store site body) ⟨st, l, host L stale bus cpu⟩ =
      (exec fuel body ⟨[], l', host L stale bus cpu⟩).exitBlock 0 st

/-- The `n` bytes at `ptr` lie in the buffer that holds guest RAM. -/
def InBuffer (L : Layout) (ramSize : ℕ) (ptr : BitVec 32) (n : ℕ) : Prop :=
  L.ramBase.toNat ≤ ptr.toNat ∧ ptr.toNat + n ≤ L.ramBase.toNat + ramSize

/-- The offset in RAM of the last page, where RAM does not fill it. -/
def lastPage (bus : Bus D) : ℕ := bus.ram.size.toNat / 4096 * 4096

/-- The TLB maps the address to a last page that RAM does not fill, with the permission for the
    access, and the bytes of the access, all in that page, reach past the end of RAM. -/
def Overruns (bus : Bus D) (cpu : CpuState) (va : BitVec 64) (n : ℕ) (store : Bool) : Prop :=
  ∃ pa perms, cpu.tlb.lookup (pageOf va) = some (pa, perms) ∧
    checkPerms cpu.el (Leaf.unpack pa perms) (if store then .write else .read) = true ∧
    pa.toNat = bus.ram.base.toNat + lastPage bus ∧
    lastPage bus < bus.ram.size.toNat ∧
    (va &&& 0xfff).toNat + n ≤ 4096 ∧
    bus.ram.size.toNat < lastPage bus + (va &&& 0xfff).toNat + n

/-! ## The test -/

/-- The page-cross test. -/
theorem pageTest_iff (hspan : 1 ≤ span.toNat ∧ span.toNat ≤ 32) :
    (!decide (span > 1) || decide (va &&& 0xfff ≤ 0x1000 - span)) = true ↔
      (va &&& 0xfff).toNat + span.toNat ≤ 4096 := by
  refine ⟨span_of_test hspan.1 (by omega), fun h => ?_⟩
  have hsub : (0x1000 - span).toNat = 4096 - span.toNat :=
    BitVec.toNat_sub_of_le (BitVec.le_def.mpr (show span.toNat ≤ 4096 by omega))
  rw [Bool.or_eq_true, decide_eq_true_eq, BitVec.le_def, hsub]
  right
  omega

/-- What the test of the fast path says. -/
theorem fastOk_iff (hspan : 1 ≤ span.toNat ∧ span.toNat ≤ 32) {ramPhys ramSize : BitVec 64} :
    fastOk cpu va span ramPhys ramSize store = true ↔
      ∃ pa perms, cpu.tlb.lookup (pageOf va) = some (pa, perms) ∧
        checkPerms cpu.el (Leaf.unpack pa perms) (if store then .write else .read) = true ∧
        pa - ramPhys < ramSize ∧ (va &&& 0xfff).toNat + span.toNat ≤ 4096 := by
  have hlookup : cpu.tlb.lookup (pageOf va) =
      if (entryOf cpu va).tag = pageOf va then
        some ((entryOf cpu va).pa, (entryOf cpu va).perms) else none := rfl
  have hperms := checkPerms_unpack cpu.el (entryOf cpu va).pa (entryOf cpu va).perms
  have hcheck : checkPerms cpu.el (Leaf.unpack (entryOf cpu va).pa (entryOf cpu va).perms)
      (if store then .write else .read) = ((cpu.el != 0 || (entryOf cpu va).perms &&& 1 != 0) &&
        (!store || (entryOf cpu va).perms &&& 2 == 0)) := by
    cases store with
    | true => exact hperms.2
    | false => exact hperms.1.trans (Bool.and_true _).symm
  unfold fastOk
  rw [← hcheck, Bool.and_eq_true, Bool.and_eq_true, Bool.and_eq_true, beq_iff_eq,
    decide_eq_true_eq, pageTest_iff hspan, hlookup]
  constructor
  · rintro ⟨⟨⟨htag, hram⟩, hpage⟩, hread⟩
    exact ⟨_, _, if_pos htag, hread, hram, hpage⟩
  · rintro ⟨pa, perms, hhit, hread, hram, hpage⟩
    split_ifs at hhit with htag
    obtain ⟨rfl, rfl⟩ := Prod.mk.inj (Option.some.inj hhit)
    exact ⟨⟨⟨htag, hram⟩, hpage⟩, hread⟩

/-- **When the access is performed**: where the test succeeds, at the host address of its
    first byte. -/
theorem performs_iff (h : Ready L bus.ram.size.toNat l) (hsite : SiteOk site bus l base retired)
    (hva : l 2 = .i64 va) {ptr : BitVec 32} :
    Performs L stale bus cpu l span store site ptr ↔
      fastOk cpu va span bus.ram.base bus.ram.size store = true ∧
        ptr = hostPtr L cpu va bus.ram.base := by
  set l₁ := Function.update l addr (.i32 (entryPtr L va)) with hl₁
  have hkeeps₁ : Keeps l l₁ := (keeps_update rfl).mpr (keeps_refl l)
  have hready₁ : Ready L bus.ram.size.toNat l₁ := hkeeps₁.ready h
  have haddr₁ : l₁ 10 = .i32 (entryPtr L va) := Function.update_self ..
  have hva₁ : l₁ 2 = .i64 va := (Function.update_of_ne (by decide) _ l).trans hva
  have hexec (fuel : ℕ) (st : List Val) (body : List Instr) :
      exec fuel (fastPath L span store site body) ⟨st, l, host L stale bus cpu⟩ =
        (exec fuel (if fastOk cpu va span bus.ram.base bus.ram.size store then
          hostAddr site ++ body else emitBail site) ⟨[], l₁, host L stale bus cpu⟩).exitBlock 0
            st := by
    unfold fastPath
    rw [exec_append, exec_append, exec_entryAddr h hva, Outcome.bind_next,
      exec_fastPathTest h.wf haddr₁ hva₁ hready₁.regs, Outcome.bind_next, exec_ifElse,
      hsite.ramPhys, hsite.ramSize]
    exact bind_exec_nil _
  have hok (htest : fastOk cpu va span bus.ram.base bus.ram.size store = true) (fuel : ℕ)
      (st : List Val) (body : List Instr) :
      exec fuel (fastPath L span store site body) ⟨st, l, host L stale bus cpu⟩ =
        (exec fuel body ⟨[], Function.update l₁ addr (.i32 (hostPtr L cpu va bus.ram.base)),
          host L stale bus cpu⟩).exitBlock 0 st := by
    rw [hexec, htest, if_pos rfl, exec_append, exec_hostAddr hready₁ haddr₁ hva₁,
      Outcome.bind_next, hsite.ramPhys]
  constructor
  · rintro ⟨l', haddr, hrun⟩
    -- code that returns the host address
    have hprobe := hrun 0 [] [localGet addr, Instr.return]
    have hret : exec 0 [localGet addr, Instr.return] ⟨[], l', host L stale bus cpu⟩ =
        .ret ⟨[.i32 ptr], l', host L stale bus cpu⟩ := by
      rw [exec_localGet, haddr]
      rfl
    rw [hret, Outcome.exitBlock_ret] at hprobe
    cases htest : fastOk cpu va span bus.ram.base bus.ram.size store with
    | true =>
      rw [hok htest, exec_localGet, Function.update_self] at hprobe
      have hstack := congrArg State.stack (Outcome.ret.inj hprobe)
      exact ⟨rfl, (Val.i32.inj (List.cons.inj hstack).1).symm⟩
    | false =>
      rw [hexec, htest, if_neg Bool.false_ne_true, exec_emitBail hready₁ (hsite.keeps hkeeps₁)]
        at hprobe
      have hstack := congrArg State.stack (Outcome.ret.inj hprobe)
      cases (List.cons.inj hstack).1
  · rintro ⟨htest, rfl⟩
    exact ⟨_, Function.update_self .., hok htest⟩

/-! ## The bytes of the access -/

/-- A page of the TLB. -/
theorem TableMade.aligned {tlb : Tlb} (h : TableMade bus tlb)
    (hlookup : tlb.lookup (pageOf va) = some (pa, perms)) : pa.toNat % 4096 = 0 := by
  obtain ⟨E, _, cpu, mem, va', leaf, -, -, -, hwalk, hpa, -⟩ := h va pa perms hlookup
  rw [hpa]
  exact paPage_walkLoop hwalk

/-- The host address, with the sum of the code wrapping at 4 GiB. -/
theorem toNat_hostPtr_mod (hlookup : cpu.tlb.lookup (pageOf va) = some (pa, perms))
    (ramPhys : BitVec 64) : (hostPtr L cpu va ramPhys).toNat =
      (L.ramBase.toNat + (pa - ramPhys).toNat + (va &&& 0xfff).toNat) % 2 ^ 32 := by
  have hentry : (entryOf cpu va).pa = pa := by
    have hhit : (if (entryOf cpu va).tag = pageOf va then
        some ((entryOf cpu va).pa, (entryOf cpu va).perms) else none) = some (pa, perms) := hlookup
    split_ifs at hhit
    exact (Prod.mk.inj (Option.some.inj hhit)).1
  unfold hostPtr
  rw [hentry, BitVec.toNat_add, BitVec.toNat_add, BitVec.toNat_setWidth, BitVec.toNat_setWidth]
  omega

/-- **The fast path and the end of RAM.** An inlined access whose translation is cached touches
    the buffer of guest RAM alone, wherever it is performed, exactly if it does not reach past
    the end of RAM in a last page that RAM does not fill. -/
theorem performs_inBuffer_iff (hbase : bus.ram.base = Platform.ramBase)
    (hsize : bus.ram.size.toNat < 2 ^ 31) (h : Ready L bus.ram.size.toNat l)
    (hsite : SiteOk site bus l base retired) (hva : l 2 = .i64 va)
    (htlb : TableMade bus cpu.tlb) (hspan : 1 ≤ span.toNat ∧ span.toNat ≤ 32) :
    (∀ ptr, Performs L stale bus cpu l span store site ptr →
        InBuffer L bus.ram.size.toNat ptr span.toNat) ↔
      ¬ Overruns bus cpu va span.toNat store := by
  have hbase' : bus.ram.base.toNat = 0x40000000 := by
    rw [hbase]
    rfl
  have hlast : bus.ram.size.toNat < lastPage bus + 4096 ∧ lastPage bus ≤ bus.ram.size.toNat := by
    unfold lastPage
    omega
  have hoff : (va &&& 0xfff).toNat < 4096 := by
    rw [BitVec.toNat_and]
    exact Nat.lt_of_le_of_lt Nat.and_le_right (by decide)
  have hend := h.wf.ram_lt
  simp only [performs_iff h hsite hva, fastOk_iff hspan]
  constructor
  · rintro hin ⟨pa, perms, hlookup, hperms, hpa, hpart, hpage, hover⟩
    have hsub : (pa - bus.ram.base).toNat = lastPage bus := by
      rw [BitVec.toNat_sub_of_le (BitVec.le_def.mpr (by omega)), hpa]
      omega
    have hram : pa - bus.ram.base < bus.ram.size := by
      rw [BitVec.lt_def, hsub]
      exact hpart
    have hbuffer := hin _ ⟨⟨pa, perms, hlookup, hperms, hram, hpage⟩, rfl⟩
    unfold InBuffer at hbuffer
    rw [toNat_hostPtr_mod hlookup, hsub] at hbuffer
    omega
  · rintro hnot ptr ⟨⟨pa, perms, hlookup, hperms, hram, hpage⟩, rfl⟩
    have halign := htlb.aligned hlookup
    have hptr := toNat_hostPtr_mod (L := L) hlookup bus.ram.base
    rw [BitVec.lt_def] at hram
    have hle : bus.ram.base.toNat ≤ pa.toNat := by
      rw [BitVec.toNat_sub] at hram
      have := pa.isLt
      omega
    have hsub : (pa - bus.ram.base).toNat = pa.toNat - bus.ram.base.toNat :=
      BitVec.toNat_sub_of_le (BitVec.le_def.mpr hle)
    have hfits : pa.toNat - bus.ram.base.toNat + (va &&& 0xfff).toNat + span.toNat ≤
        bus.ram.size.toNat := by
      by_contra hover
      refine hnot ⟨pa, perms, hlookup, hperms, ?_, ?_, hpage, ?_⟩
      · unfold lastPage
        omega
      · unfold lastPage
        omega
      · unfold lastPage
        omega
    unfold InBuffer
    rw [hptr, hsub]
    omega

/-- RAM of whole pages has no such access. -/
theorem not_overruns_of_pages (hsize : bus.ram.size.toNat % 4096 = 0) (n : ℕ) :
    ¬ Overruns bus cpu va n store := by
  rintro ⟨pa, perms, -, -, -, hpart, -⟩
  unfold lastPage at hpart
  omega

end Bound

/-! ## A RAM of one page and eight bytes -/

/-- RAM whose first word is the descriptor of the block that holds it. -/
def partRam : Bus Empty where
  ram := {
    base := Platform.ramBase
    size := 0x1008
    bytes := Bytes.storeLe (fun _ => 0) 0 8 0x40000401#64 }
  devices := []

/-- The CPU that translates through it, with nothing cached. -/
def partCpu : CpuState :=
  { CpuState.new with el := 1, sctlrEl1 := 1, tcrEl1 := 25, ttbr0El1 := Platform.ramBase }

/-- What the walk for the second page of RAM leaves. -/
def partTlb : Tlb := (translate ⟨partCpu, partRam⟩ 0x1000 .read 1).2.cpu.tlb

/-- The CPU with that translation cached. -/
def cachedCpu : CpuState := { partCpu with tlb := partTlb }

/-- `CpuState` at 0, then the TLB and the RAM. -/
def partLayout : Layout where
  regsBase := 0
  cpuSize := 1024
  elOffset := 896
  tlbOffset := 900
  ramBase := 0x7000
  tlbBase := 0x1000

/-- The parameters of a block at `0x4000`, and the address of the access. -/
def partLocals (va : BitVec 64) : ℕ → Val
  | 0 => .i32 partLayout.regsBase
  | 1 => .i32 partLayout.ramBase
  | 2 => .i64 va
  | _ => .i64 0x4000

/-- The first instruction of that block. -/
def partSite : Site := ⟨0x4000, 0x4000, 0, Platform.ramBase, 0x1008, none⟩

theorem wf_partLayout : partLayout.Wf 0x1008 where
  el := by decide
  tlb := by decide
  cpuSize := by decide
  regs_lt := by decide
  ram_lt := by decide
  tlb_lt := by decide
  regs_ram := by decide
  regs_tlb := by decide
  ram_tlb := by decide

theorem ready_part (va : BitVec 64) : Ready partLayout partRam.ram.size.toNat (partLocals va) :=
  ⟨wf_partLayout, rfl, rfl⟩

theorem siteOk_part (va : BitVec 64) : SiteOk partSite partRam (partLocals va) 0x4000 0 :=
  ⟨rfl, rfl, rfl, rfl⟩

/-- The leaf of the second page. -/
theorem walkAt_part :
    walkAt partCpu partRam 0x1000 = .ok ⟨0x40001000, false, false, false, false, 1⟩ := by
  decide +kernel

theorem partTlb_eq : partTlb = Tlb.new.insert 0x1000 0x40001000 0x10 := by
  have hwalk : (walk partRam (region partCpu 0x1000).1 0x1000 (region partCpu 0x1000).2).1 =
      .ok ⟨0x40001000, false, false, false, false, 1⟩ := walkAt_part
  have hmiss : partCpu.tlb.lookup (pageOf 0x1000) = none := Tlb.isEmpty_new.lookup 0x1000
  unfold partTlb
  rw [translate_of_miss rfl hmiss]
  unfold translateMiss
  dsimp only
  generalize walk partRam (region partCpu 0x1000).1 0x1000 (region partCpu 0x1000).2 = r at hwalk
  obtain ⟨res, mem⟩ := r
  obtain rfl := hwalk
  rfl

theorem tableMade_part : TableMade partRam partTlb := by
  intro page pa perms hlookup
  rw [partTlb_eq] at hlookup
  rcases Tlb.lookup_insert_cases hlookup with ⟨hpage, hentry⟩ | hnone
  · obtain ⟨rfl, rfl⟩ := Prod.mk.inj hentry
    exact ⟨Empty, inferInstance, partCpu, partRam, 0x1000, _, rfl, rfl, hpage.symm, walkAt_part,
      rfl, rfl⟩
  · rw [Tlb.isEmpty_new.lookup] at hnone
    cases hnone

/-- The eight bytes that RAM has of its second page. -/
theorem performs_inBuffer_iff_part :
    (∀ ptr, Performs partLayout Flags.default partRam cachedCpu
        (partLocals 0x1000) 8 false partSite ptr → InBuffer partLayout 0x1008 ptr 8) ↔
      ¬ Overruns partRam cachedCpu 0x1000 8 false :=
  performs_inBuffer_iff rfl (by decide) (ready_part 0x1000) (siteOk_part 0x1000) rfl
    tableMade_part (by decide)

/-- The last eight bytes of that page are outside. -/
theorem not_performs_inBuffer :
    ¬ ∀ (bus : Bus Empty) (cpu : CpuState) (L : Layout) (l : ℕ → Val) (stale : Flags) (site : Site)
      (base retired va span : BitVec 64) (store : Bool) (ptr : BitVec 32),
      bus.ram.base = Platform.ramBase → bus.ram.size.toNat < 2 ^ 31 →
      Ready L bus.ram.size.toNat l → SiteOk site bus l base retired → l 2 = .i64 va →
      TableMade bus cpu.tlb → 1 ≤ span.toNat ∧ span.toNat ≤ 32 →
      Performs L stale bus cpu l span store site ptr →
      InBuffer L bus.ram.size.toNat ptr span.toNat := by
  intro h
  have hlookup : cachedCpu.tlb.lookup (pageOf 0x1ff8) = some (0x40001000, 0x10) := by
    show partTlb.lookup 0x1000 = _
    rw [partTlb_eq]
    exact Tlb.lookup_insert_self ..
  have hptr : (hostPtr partLayout cachedCpu 0x1ff8 Platform.ramBase).toNat = _ :=
    toNat_hostPtr_mod hlookup Platform.ramBase
  have hperforms : Performs partLayout Flags.default partRam cachedCpu (partLocals 0x1ff8) 8 false
      partSite 0x8ff8 := by
    refine (performs_iff (ready_part 0x1ff8) (siteOk_part 0x1ff8) rfl).mpr ⟨?_, ?_⟩
    · exact (fastOk_iff (by decide)).mpr ⟨_, _, hlookup, by decide, by decide, by decide⟩
    · apply BitVec.eq_of_toNat_eq
      exact hptr.symm
  have hin := h partRam cachedCpu partLayout (partLocals 0x1ff8)
    Flags.default partSite 0x4000 0 0x1ff8 8 false 0x8ff8 rfl (by decide) (ready_part 0x1ff8)
    (siteOk_part 0x1ff8) rfl tableMade_part (by decide) hperforms
  exact absurd hin.2 (by decide)

end V64.Jit
