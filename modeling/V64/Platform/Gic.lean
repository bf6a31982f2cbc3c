import V64.Platform.Bus

/-!
# The interrupt controller

Model of `crates/platform/src/gic.rs`: a GICv2 distributor and CPU interface for
one core. The four arrays are functions of the interrupt id; every access of the
source is below `numIrqs`.

* `scanPending_eq_some`, `scanPending_eq_none`: what the scan over all ids finds.
* `Cached`, `cached_step`: every operation keeps the cache equal to the scan.
* `pendingIrq_iff`: when the controller signals an interrupt, after any operations.
* `pendingIrq_of_passes`: a pending interrupt that nothing masks makes it signal.
-/

namespace V64.Platform

/-- `NUM_IRQS` (line 24). -/
def numIrqs : ℕ := 1024

/-- `SPURIOUS` (line 27). -/
def spurious : ℕ := 1023

/-- `IDLE_PRIO` (line 30). -/
def idlePrio : BitVec 8 := 0xFF

/-- `GicInner` (lines 33–54). `running` has the top of the stack first. -/
structure GicInner where
  distEnabled : Bool
  enabled : ℕ → Bool
  pending : ℕ → Bool
  active : ℕ → Bool
  priority : ℕ → BitVec 8
  cpuEnabled : Bool
  pmr : BitVec 8
  running : List (BitVec 8)
  cachedPending : Option (ℕ × BitVec 8)

/-- `read_bitmap` (lines 202–211). The shift amount wraps at 64, as in a release
    build. -/
def readBitmap (arr : ℕ → Bool) (byteOff size : ℕ) : BitVec 64 :=
  (List.range (size * 8)).foldl (fun v i =>
    if byteOff * 8 + i < numIrqs ∧ arr (byteOff * 8 + i) then v ||| 1#64 <<< (i % 64) else v) 0

/-- `write_bitmap` (lines 215–222). -/
def writeBitmap (arr : ℕ → Bool) (byteOff size : ℕ) (val : BitVec 64) (set : Bool) : ℕ → Bool :=
  (List.range (size * 8)).foldl (fun arr i =>
    if val.getLsbD (i % 64) ∧ byteOff * 8 + i < numIrqs then
      Function.update arr (byteOff * 8 + i) set
    else arr) arr

namespace GicInner

/-- `GicInner::new` (lines 57–69). -/
def new : GicInner where
  distEnabled := false
  enabled _ := false
  pending _ := false
  active _ := false
  priority _ := 0
  cpuEnabled := false
  pmr := 0
  running := []
  cachedPending := none

/-- `running_prio` (lines 71–73). -/
def runningPrio (g : GicInner) : BitVec 8 := g.running.head?.getD idlePrio

/-- The body of the loop of `scan_pending`. -/
def scanStep (g : GicInner) (best : Option (ℕ × BitVec 8)) (id : ℕ) : Option (ℕ × BitVec 8) :=
  if g.enabled id ∧ g.pending id then
    if best.all fun b => g.priority id < b.2 then some (id, g.priority id) else best
  else best

/-- `scan_pending` (lines 77–88). -/
@[irreducible] def scanPending (g : GicInner) : Option (ℕ × BitVec 8) :=
  (List.range numIrqs).foldl g.scanStep none

/-- `recompute` (lines 92–94). -/
def recompute (g : GicInner) : GicInner := { g with cachedPending := g.scanPending }

/-- `highest_pending` (lines 97–99). -/
def highestPending (g : GicInner) : Option (ℕ × BitVec 8) := g.cachedPending

/-- The guard that `signals_irq` and `acknowledge` put on the cached interrupt. -/
def deliverable (g : GicInner) : Option (ℕ × BitVec 8) :=
  g.highestPending.filter fun b => b.2 < g.pmr && b.2 < g.runningPrio

/-- `signals_irq` (lines 102–110), which is `Gic::pending_irq` (lines 177–179). -/
def pendingIrq (g : GicInner) : Bool :=
  if !g.distEnabled || !g.cpuEnabled then false else g.deliverable.isSome

/-- `acknowledge` (lines 115–127). -/
def acknowledge (g : GicInner) : ℕ × GicInner :=
  match g.deliverable with
  | some (id, p) =>
    (id, recompute { g with
      pending := Function.update g.pending id false
      active := Function.update g.active id true
      running := p :: g.running })
  | none => (spurious, g)

/-- `end_of_interrupt` (lines 130–135). -/
def endOfInterrupt (g : GicInner) (id : BitVec 32) : GicInner where
  __ := g
  active := if id.toNat < numIrqs then Function.update g.active id.toNat false else g.active
  running := g.running.tail

/-- `Gic::set_pending` (lines 151–159). -/
def setPending (g : GicInner) (id : BitVec 32) : GicInner :=
  if id.toNat < numIrqs ∧ g.pending id.toNat = false then
    recompute { g with pending := Function.update g.pending id.toNat true }
  else g

/-- `Gic::clear_pending` (lines 164–172). -/
def clearPending (g : GicInner) (id : BitVec 32) : GicInner :=
  if id.toNat < numIrqs ∧ g.pending id.toNat = true then
    recompute { g with pending := Function.update g.pending id.toNat false }
  else g

/-- `GicDist::read` (lines 232–267). -/
def distRead (g : GicInner) (offset : BitVec 64) (size : ℕ) : BitVec 64 :=
  let off := offset.toNat
  if off = 0x000 then (BitVec.ofBool g.distEnabled).setWidth 64
  else if off = 0x004 then BitVec.ofNat 64 (numIrqs / 32 - 1)
  else if off = 0x008 then 0
  else if 0x100 ≤ off ∧ off < 0x180 then readBitmap g.enabled (off - 0x100) size
  else if 0x180 ≤ off ∧ off < 0x200 then readBitmap g.enabled (off - 0x180) size
  else if 0x200 ≤ off ∧ off < 0x280 then readBitmap g.pending (off - 0x200) size
  else if 0x280 ≤ off ∧ off < 0x300 then readBitmap g.pending (off - 0x280) size
  else if 0x300 ≤ off ∧ off < 0x380 then readBitmap g.active (off - 0x300) size
  else if 0x380 ≤ off ∧ off < 0x400 then readBitmap g.active (off - 0x380) size
  else if 0x400 ≤ off ∧ off < 0x800 then
    (List.range size).foldl (fun v i =>
      if off - 0x400 + i < numIrqs then
        v ||| (g.priority (off - 0x400 + i)).setWidth 64 <<< (i * 8 % 64)
      else v) 0
  else if 0x800 ≤ off ∧ off < 0xC00 then
    (List.range size).foldl (fun v i => v ||| 1#64 <<< (i * 8 % 64)) 0
  else 0

/-- The write to `IPRIORITYR` (lines 280–287): one byte per interrupt. -/
def writePriority (g : GicInner) (idx size : ℕ) (val : BitVec 64) : ℕ → BitVec 8 :=
  (List.range size).foldl (fun arr i =>
    if idx + i < numIrqs then
      Function.update arr (idx + i) ((val >>> (i * 8 % 64)).setWidth 8)
    else arr) g.priority

/-- The write to `GICD_SGIR` (lines 294–305). -/
def writeSgir (g : GicInner) (val : BitVec 64) : GicInner :=
  let sgi := (val &&& 0xf).toNat
  let filter := (val >>> 24) &&& 0x3
  let toCpu0 : Bool := if filter = 0b00 then val.getLsbD 16 else filter = 0b10
  if toCpu0 then
    { g with
      enabled := Function.update g.enabled sgi true
      pending := Function.update g.pending sgi true }
  else g

/-- The registers that `GicDist::write` changes (lines 271–307). -/
def distWriteReg (g : GicInner) (off size : ℕ) (val : BitVec 64) : GicInner :=
  if off = 0x000 then { g with distEnabled := val.getLsbD 0 }
  else if 0x100 ≤ off ∧ off < 0x180 then
    { g with enabled := writeBitmap g.enabled (off - 0x100) size val true }
  else if 0x180 ≤ off ∧ off < 0x200 then
    { g with enabled := writeBitmap g.enabled (off - 0x180) size val false }
  else if 0x200 ≤ off ∧ off < 0x280 then
    { g with pending := writeBitmap g.pending (off - 0x200) size val true }
  else if 0x280 ≤ off ∧ off < 0x300 then
    { g with pending := writeBitmap g.pending (off - 0x280) size val false }
  else if 0x300 ≤ off ∧ off < 0x380 then
    { g with active := writeBitmap g.active (off - 0x300) size val true }
  else if 0x380 ≤ off ∧ off < 0x400 then
    { g with active := writeBitmap g.active (off - 0x380) size val false }
  else if 0x400 ≤ off ∧ off < 0x800 then
    { g with priority := g.writePriority (off - 0x400) size val }
  else if off = 0xF00 then g.writeSgir val
  else g

/-- `GicDist::write` (lines 269–311). -/
def distWrite (g : GicInner) (offset : BitVec 64) (size : ℕ) (val : BitVec 64) : GicInner :=
  recompute (g.distWriteReg offset.toNat size val)

/-- `GicCpu::read` (lines 322–332). -/
def cpuRead (g : GicInner) (offset : BitVec 64) : BitVec 64 × GicInner :=
  match offset.toNat with
  | 0x00 => ((BitVec.ofBool g.cpuEnabled).setWidth 64, g)
  | 0x04 => (g.pmr.setWidth 64, g)
  | 0x0C => let (id, g') := g.acknowledge; (BitVec.ofNat 64 id, g')
  | 0x14 => (g.runningPrio.setWidth 64, g)
  | 0x18 => (BitVec.ofNat 64 (g.highestPending.elim spurious Prod.fst), g)
  | _ => (0, g)

/-- `GicCpu::write` (lines 334–342). -/
def cpuWrite (g : GicInner) (offset : BitVec 64) (val : BitVec 64) : GicInner :=
  match offset.toNat with
  | 0x00 => { g with cpuEnabled := val.getLsbD 0 }
  | 0x04 => { g with pmr := val.setWidth 8 }
  | 0x10 => g.endOfInterrupt (val.setWidth 32)
  | _ => g

end GicInner

/-- What the peripherals and the guest can do to the controller. -/
inductive GicOp where
  | setPending (id : BitVec 32)
  | clearPending (id : BitVec 32)
  | distRead (offset : BitVec 64) (size : ℕ)
  | distWrite (offset : BitVec 64) (size : ℕ) (val : BitVec 64)
  | cpuRead (offset : BitVec 64) (size : ℕ)
  | cpuWrite (offset : BitVec 64) (size : ℕ) (val : BitVec 64)

namespace GicInner

/-- The controller after one operation. -/
def step (g : GicInner) : GicOp → GicInner
  | .setPending id => g.setPending id
  | .clearPending id => g.clearPending id
  | .distRead _ _ => g
  | .distWrite offset size val => g.distWrite offset size val
  | .cpuRead offset _ => (g.cpuRead offset).2
  | .cpuWrite offset _ val => g.cpuWrite offset val

/-! ## What the operations leave alone -/

@[simp] theorem active_recompute (g : GicInner) : g.recompute.active = g.active := rfl

@[simp] theorem pending_recompute (g : GicInner) : g.recompute.pending = g.pending := rfl

@[simp] theorem running_recompute (g : GicInner) : g.recompute.running = g.running := rfl

@[simp] theorem active_setPending (g : GicInner) (id : BitVec 32) :
    (g.setPending id).active = g.active := by
  unfold setPending
  split <;> rfl

@[simp] theorem running_setPending (g : GicInner) (id : BitVec 32) :
    (g.setPending id).running = g.running := by
  unfold setPending
  split <;> rfl

@[simp] theorem active_clearPending (g : GicInner) (id : BitVec 32) :
    (g.clearPending id).active = g.active := by
  unfold clearPending
  split <;> rfl

@[simp] theorem running_clearPending (g : GicInner) (id : BitVec 32) :
    (g.clearPending id).running = g.running := by
  unfold clearPending
  split <;> rfl

@[simp] theorem active_writeSgir (g : GicInner) (val : BitVec 64) :
    (g.writeSgir val).active = g.active := by
  simp only [writeSgir, apply_ite GicInner.active, ite_self]

@[simp] theorem running_writeSgir (g : GicInner) (val : BitVec 64) :
    (g.writeSgir val).running = g.running := by
  simp only [writeSgir, apply_ite GicInner.running, ite_self]

@[simp] theorem running_distWriteReg (g : GicInner) (off size : ℕ) (val : BitVec 64) :
    (g.distWriteReg off size val).running = g.running := by
  unfold distWriteReg
  simp only [apply_ite GicInner.running, running_writeSgir, ite_self]

/-- Only `ISACTIVER` and `ICACTIVER` write the active flags. -/
theorem active_distWriteReg (g : GicInner) {off : ℕ} (h : ¬(0x300 ≤ off ∧ off < 0x400)) (size : ℕ)
    (val : BitVec 64) : (g.distWriteReg off size val).active = g.active := by
  have hset : ¬(0x300 ≤ off ∧ off < 0x380) := by omega
  have hclear : ¬(0x380 ≤ off ∧ off < 0x400) := by omega
  unfold distWriteReg
  simp only [if_neg hset, if_neg hclear, apply_ite GicInner.active, active_writeSgir, ite_self]

/-! ## The scan -/

/-- `id` is the interrupt that the controller delivers next: the least priority
    value among the first `n` ids that are enabled and pending, and the lowest id
    of that value. -/
structure IsBest (g : GicInner) (n id : ℕ) : Prop where
  lt : id < n
  enabled : g.enabled id = true
  pending : g.pending id = true
  least : ∀ j < n, g.enabled j = true → g.pending j = true →
    g.priority id < g.priority j ∨ g.priority id = g.priority j ∧ id ≤ j

/-- The result of scanning the first `n` ids. -/
structure ScanSpec (g : GicInner) (n : ℕ) (best : Option (ℕ × BitVec 8)) : Prop where
  of_some : ∀ b, best = some b → b.2 = g.priority b.1 ∧ g.IsBest n b.1
  of_none : best = none → ∀ j < n, ¬(g.enabled j = true ∧ g.pending j = true)

/-- The id that a scan has just reached is the best so far. -/
theorem isBest_last {g : GicInner} {n : ℕ} (he : g.enabled n = true) (hp : g.pending n = true)
    (hless : ∀ j < n, g.enabled j = true → g.pending j = true → g.priority n < g.priority j) :
    g.IsBest (n + 1) n := by
  refine ⟨Nat.lt_succ_self n, he, hp, fun j hj hej hpj => ?_⟩
  rcases Nat.lt_succ_iff_lt_or_eq.mp hj with hlt | rfl
  · exact .inl (hless j hlt hej hpj)
  · exact .inr ⟨rfl, le_rfl⟩

/-- The best id so far stays the best when the next one does not beat it. -/
theorem IsBest.succ {g : GicInner} {n id : ℕ} (h : g.IsBest n id)
    (hn : g.enabled n = true → g.pending n = true → g.priority id ≤ g.priority n) :
    g.IsBest (n + 1) id := by
  refine ⟨Nat.lt_succ_of_lt h.lt, h.enabled, h.pending, fun j hj hej hpj => ?_⟩
  rcases Nat.lt_succ_iff_lt_or_eq.mp hj with hlt | rfl
  · exact h.least j hlt hej hpj
  · rcases eq_or_ne (g.priority id) (g.priority j) with heq | hne
    · exact .inr ⟨heq, h.lt.le⟩
    · exact .inl (BitVec.lt_of_le_ne (hn hej hpj) hne)

theorem scanSpec_succ {g : GicInner} {n : ℕ} {best : Option (ℕ × BitVec 8)}
    (h : g.ScanSpec n best) : g.ScanSpec (n + 1) (g.scanStep best n) := by
  unfold scanStep
  by_cases hn : g.enabled n = true ∧ g.pending n = true
  · rw [if_pos hn]
    split_ifs with hall
    · -- the new id is the first candidate or beats the one before
      refine ⟨fun b hb => ?_, fun hb => nomatch hb⟩
      obtain rfl := Option.some.inj hb
      refine ⟨rfl, isBest_last hn.1 hn.2 fun j hj hej hpj => ?_⟩
      cases best with
      | none => exact absurd ⟨hej, hpj⟩ (h.of_none rfl j hj)
      | some b =>
        obtain ⟨hb, hbest⟩ := h.of_some b rfl
        have hlt : g.priority n < g.priority b.1 := by simpa [hb] using hall
        rcases hbest.least j hj hej hpj with hless | ⟨heq, -⟩
        · exact BitVec.lt_trans hlt hless
        · exact heq ▸ hlt
    · refine ⟨fun b hb => ?_, fun hb => ?_⟩
      · obtain ⟨hprio, hbest⟩ := h.of_some b hb
        refine ⟨hprio, hbest.succ fun _ _ => ?_⟩
        rw [hb] at hall
        exact BitVec.not_lt.mp (by simpa [hprio] using hall)
      · rw [hb] at hall
        exact absurd rfl hall
  · rw [if_neg hn]
    refine ⟨fun b hb => ?_, fun hb j hj => ?_⟩
    · obtain ⟨hprio, hbest⟩ := h.of_some b hb
      exact ⟨hprio, hbest.succ fun he hp => absurd ⟨he, hp⟩ hn⟩
    · rcases Nat.lt_succ_iff_lt_or_eq.mp hj with hlt | rfl
      · exact h.of_none hb j hlt
      · exact hn

theorem scanSpec_foldl (g : GicInner) (n : ℕ) :
    g.ScanSpec n ((List.range n).foldl g.scanStep none) := by
  induction n with
  | zero => exact ⟨fun b hb => (nomatch hb), fun _ j hj => absurd hj (Nat.not_lt_zero j)⟩
  | succ n ih =>
    rw [List.range_succ, List.foldl_append]
    exact scanSpec_succ ih

theorem scanSpec_scanPending (g : GicInner) : g.ScanSpec numIrqs g.scanPending := by
  unfold scanPending
  exact g.scanSpec_foldl numIrqs

theorem IsBest.unique {g : GicInner} {n id id' : ℕ} (h : g.IsBest n id) (h' : g.IsBest n id') :
    id = id' := by
  have hle := h.least id' h'.lt h'.enabled h'.pending
  have hge := h'.least id h.lt h.enabled h.pending
  simp only [BitVec.lt_def, ← BitVec.toNat_inj] at hle hge
  omega

theorem scanPending_eq_some {g : GicInner} {id : ℕ} {p : BitVec 8} :
    g.scanPending = some (id, p) ↔ g.IsBest numIrqs id ∧ p = g.priority id := by
  have hspec := g.scanSpec_scanPending
  constructor
  · intro h
    obtain ⟨hp, hbest⟩ := hspec.of_some _ h
    exact ⟨hbest, hp⟩
  · rintro ⟨hbest, rfl⟩
    cases hscan : g.scanPending with
    | none => exact absurd ⟨hbest.enabled, hbest.pending⟩ (hspec.of_none hscan id hbest.lt)
    | some b =>
      obtain ⟨hb, hbest'⟩ := hspec.of_some b hscan
      rw [hbest.unique hbest', ← hb]

theorem scanPending_eq_none {g : GicInner} :
    g.scanPending = none ↔ ∀ j < numIrqs, ¬(g.enabled j = true ∧ g.pending j = true) := by
  have hspec := g.scanSpec_scanPending
  constructor
  · exact hspec.of_none
  · intro h
    cases hscan : g.scanPending with
    | none => rfl
    | some b =>
      have hbest := (hspec.of_some b hscan).2
      exact absurd ⟨hbest.enabled, hbest.pending⟩ (h b.1 hbest.lt)

/-! ## The cache -/

/-- The cached interrupt is the one a scan finds. -/
def Cached (g : GicInner) : Prop := g.cachedPending = g.scanPending

theorem cached_new : new.Cached :=
  (scanPending_eq_none.mpr fun _ _ h => Bool.false_ne_true h.1).symm

/-- Only the enable, pending and priority arrays decide what a scan finds. -/
theorem scanPending_congr {g g' : GicInner} (he : g'.enabled = g.enabled)
    (hp : g'.pending = g.pending) (hprio : g'.priority = g.priority) :
    g'.scanPending = g.scanPending := by
  unfold scanPending
  have hstep : g'.scanStep = g.scanStep := by
    funext best id
    simp only [scanStep, he, hp, hprio]
  rw [hstep]

theorem cached_recompute (g : GicInner) : g.recompute.Cached := by
  have hscan : g.recompute.scanPending = g.scanPending := scanPending_congr rfl rfl rfl
  unfold Cached
  rw [hscan]
  rfl

theorem cached_acknowledge {g : GicInner} (h : g.Cached) : g.acknowledge.2.Cached := by
  unfold acknowledge
  split
  · exact cached_recompute _
  · exact h

theorem cached_setPending {g : GicInner} (h : g.Cached) (id : BitVec 32) :
    (g.setPending id).Cached := by
  unfold setPending
  split
  · exact cached_recompute _
  · exact h

theorem cached_clearPending {g : GicInner} (h : g.Cached) (id : BitVec 32) :
    (g.clearPending id).Cached := by
  unfold clearPending
  split
  · exact cached_recompute _
  · exact h

theorem cached_cpuRead {g : GicInner} (h : g.Cached) (offset : BitVec 64) :
    (g.cpuRead offset).2.Cached := by
  unfold cpuRead
  split
  case h_3 => exact cached_acknowledge h
  all_goals exact h

/-- The registers of the CPU interface are not part of what a scan looks at. -/
theorem cached_cpuWrite {g : GicInner} (h : g.Cached) (offset val : BitVec 64) :
    (g.cpuWrite offset val).Cached := by
  have hcongr : ∀ g' : GicInner, g'.cachedPending = g.cachedPending → g'.enabled = g.enabled →
      g'.pending = g.pending → g'.priority = g.priority → g'.Cached := by
    intro g' hc he hp hprio
    unfold Cached
    rw [hc, scanPending_congr he hp hprio]
    exact h
  unfold cpuWrite
  split <;> exact hcongr _ rfl rfl rfl rfl

theorem cached_step {g : GicInner} (h : g.Cached) (op : GicOp) : (g.step op).Cached := by
  cases op with
  | setPending id => exact cached_setPending h id
  | clearPending id => exact cached_clearPending h id
  | distRead offset size => exact h
  | distWrite offset size val => exact cached_recompute _
  | cpuRead offset size => exact cached_cpuRead h offset
  | cpuWrite offset size val => exact cached_cpuWrite h offset val

theorem cached_foldl (ops : List GicOp) : (ops.foldl step new).Cached :=
  List.foldlRecOn ops step cached_new fun _ h op _ => cached_step h op

theorem deliverable_eq_some {g : GicInner} (h : g.Cached) {id : ℕ} {p : BitVec 8} :
    g.deliverable = some (id, p) ↔
      g.IsBest numIrqs id ∧ p = g.priority id ∧ p < g.pmr ∧ p < g.runningPrio := by
  unfold deliverable highestPending
  rw [Option.filter_eq_some_iff, h, scanPending_eq_some, Bool.and_eq_true, decide_eq_true_iff,
    decide_eq_true_iff, and_assoc]

/-! ## Acknowledge -/

/-- `GICC_IAR` as it is read when nothing can be delivered. -/
theorem acknowledge_none {g : GicInner} (h : g.deliverable = none) :
    g.acknowledge = (spurious, g) := by
  unfold acknowledge
  rw [h]

theorem acknowledge_some {g : GicInner} {id : ℕ} {p : BitVec 8} (h : g.deliverable = some (id, p)) :
    g.acknowledge = (id, recompute { g with
      pending := Function.update g.pending id false
      active := Function.update g.active id true
      running := p :: g.running }) := by
  unfold acknowledge
  rw [h]

theorem cpuRead_iar (g : GicInner) {offset : BitVec 64} (h : offset.toNat = 0x0C) :
    g.cpuRead offset = (BitVec.ofNat 64 g.acknowledge.1, g.acknowledge.2) := by
  unfold cpuRead
  rw [h]
  rfl

theorem toNat_iar {g : GicInner} (hc : g.Cached) {offset : BitVec 64} (h : offset.toNat = 0x0C) :
    (g.cpuRead offset).1.toNat = g.acknowledge.1 := by
  rw [cpuRead_iar g h, BitVec.toNat_ofNat]
  refine Nat.mod_eq_of_lt ?_
  cases hd : g.deliverable with
  | none =>
    rw [acknowledge_none hd]
    show spurious < 2 ^ 64
    decide
  | some b =>
    rw [acknowledge_some hd]
    have hlt := ((deliverable_eq_some hc).mp hd).1.lt
    exact Nat.lt_trans hlt (by decide)

/-- The only enabled interrupt is delivered when it is pending and passes. -/
theorem deliverable_of_unique {g : GicInner} (h : g.Cached) {id : ℕ} (hid : id < numIrqs)
    (he : g.enabled = Function.update (fun _ => false) id true) (hp : g.pending id = true)
    (hpmr : g.priority id < g.pmr) (hrun : g.priority id < g.runningPrio) :
    g.deliverable = some (id, g.priority id) := by
  refine (deliverable_eq_some h).mpr ⟨⟨hid, ?_, hp, fun j _ hej _ => ?_⟩, rfl, hpmr, hrun⟩
  · rw [he, Function.update_self]
  · have hj : j = id := by
      by_contra hne
      rw [he, Function.update_of_ne hne] at hej
      cases hej
    exact .inr ⟨congrArg g.priority hj.symm, hj.ge⟩

/-! ## The signal -/

/-- After any sequence of operations, the cache equals a scan, and the
    controller signals an interrupt exactly when both of its halves are enabled
    and the best enabled and pending interrupt passes the priority mask and the
    running priority. -/
theorem pendingIrq_iff (ops : List GicOp) :
    (ops.foldl step new).cachedPending = (ops.foldl step new).scanPending ∧
    ((ops.foldl step new).pendingIrq = true ↔
      (ops.foldl step new).distEnabled = true ∧ (ops.foldl step new).cpuEnabled = true ∧
      ∃ id, (ops.foldl step new).IsBest numIrqs id ∧
        (ops.foldl step new).priority id < (ops.foldl step new).pmr ∧
        (ops.foldl step new).priority id < (ops.foldl step new).runningPrio) := by
  have hcached := cached_foldl ops
  generalize ops.foldl step new = g at hcached ⊢
  refine ⟨hcached, ?_⟩
  have hsome : g.deliverable.isSome = true ↔ ∃ id, g.IsBest numIrqs id ∧
      g.priority id < g.pmr ∧ g.priority id < g.runningPrio := by
    rw [Option.isSome_iff_exists]
    constructor
    · rintro ⟨⟨id, p⟩, hb⟩
      obtain ⟨hbest, rfl, hpmr, hrun⟩ := (deliverable_eq_some hcached).mp hb
      exact ⟨id, hbest, hpmr, hrun⟩
    · rintro ⟨id, hbest, hpmr, hrun⟩
      exact ⟨_, (deliverable_eq_some hcached).mpr ⟨hbest, rfl, hpmr, hrun⟩⟩
  rw [← hsome]
  unfold pendingIrq
  cases g.distEnabled <;> cases g.cpuEnabled <;> simp

/-- The interrupt `id` is enabled, and nothing masks it. -/
structure Passes (g : GicInner) (id : ℕ) : Prop where
  lt : id < numIrqs
  distEnabled : g.distEnabled = true
  cpuEnabled : g.cpuEnabled = true
  enabled : g.enabled id = true
  pmr : g.priority id < g.pmr
  running : g.priority id < g.runningPrio

/-- A pending interrupt that passes is signalled, or another one before it. -/
theorem pendingIrq_of_passes {g : GicInner} (hc : g.Cached) {id : ℕ} (h : g.Passes id)
    (hpending : g.pending id = true) : g.pendingIrq = true := by
  obtain ⟨best, hbest⟩ : ∃ best, g.scanPending = some best := by
    rw [← Option.ne_none_iff_exists']
    intro hnone
    exact scanPending_eq_none.mp hnone id h.lt ⟨h.enabled, hpending⟩
  obtain ⟨hbest, hp⟩ := scanPending_eq_some.mp hbest
  have hle : g.priority best.1 ≤ g.priority id := by
    obtain hlt | ⟨heq, -⟩ := hbest.least id h.lt h.enabled hpending
    · exact BitVec.le_of_lt hlt
    · exact heq ▸ BitVec.le_refl _
  have hpmr := Nat.lt_of_le_of_lt (BitVec.le_def.mp hle) (BitVec.lt_def.mp h.pmr)
  have hrunning := Nat.lt_of_le_of_lt (BitVec.le_def.mp hle) (BitVec.lt_def.mp h.running)
  have hdeliverable : g.deliverable = some (best.1, g.priority best.1) :=
    (deliverable_eq_some hc).mpr ⟨hbest, rfl, hpmr, hrunning⟩
  unfold pendingIrq
  rw [h.distEnabled, h.cpuEnabled, hdeliverable]
  rfl

/-- Setting and clearing pending flags changes nothing that an interrupt must pass. -/
theorem passes_setPending {g : GicInner} {id : ℕ} (h : g.Passes id) (id' : BitVec 32) :
    (g.setPending id').Passes id := by
  unfold setPending
  split
  · exact ⟨h.lt, h.distEnabled, h.cpuEnabled, h.enabled, h.pmr, h.running⟩
  · exact h

@[inherit_doc passes_setPending]
theorem passes_clearPending {g : GicInner} {id : ℕ} (h : g.Passes id) (id' : BitVec 32) :
    (g.clearPending id').Passes id := by
  unfold clearPending
  split
  · exact ⟨h.lt, h.distEnabled, h.cpuEnabled, h.enabled, h.pmr, h.running⟩
  · exact h

theorem pending_setPending {g : GicInner} {id : BitVec 32} (h : id.toNat < numIrqs) :
    (g.setPending id).pending id.toNat = true := by
  unfold setPending
  split_ifs with hset
  · exact Function.update_self ..
  · exact Bool.of_not_eq_false fun hfalse => hset ⟨h, hfalse⟩

theorem pending_setPending_of_ne {g : GicInner} {id : BitVec 32} {j : ℕ} (h : j ≠ id.toNat) :
    (g.setPending id).pending j = g.pending j := by
  unfold setPending
  split_ifs
  · exact Function.update_of_ne h ..
  · rfl

theorem pending_clearPending_of_ne {g : GicInner} {id : BitVec 32} {j : ℕ} (h : j ≠ id.toNat) :
    (g.clearPending id).pending j = g.pending j := by
  unfold clearPending
  split_ifs
  · exact Function.update_of_ne h ..
  · rfl

end GicInner

/-- `Gic` (line 140): the handle on a controller that its operations have made. -/
structure Gic where
  inner : GicInner
  cached : inner.Cached

namespace Gic

/-- `Gic::new` (lines 144–146). -/
def new : Gic := ⟨GicInner.new, GicInner.cached_new⟩

/-- An operation through the handle, or through one of the two device windows. -/
def step (g : Gic) (op : GicOp) : Gic := ⟨g.inner.step op, GicInner.cached_step g.cached op⟩

/-- The controller signals the interrupt `id`, or one before it. -/
def Signals (g : Gic) (id : ℕ) : Prop := g.inner.Passes id ∧ g.inner.pending id = true

theorem Signals.pendingIrq {g : Gic} {id : ℕ} (h : g.Signals id) : g.inner.pendingIrq = true :=
  GicInner.pendingIrq_of_passes g.cached h.1 h.2

end Gic

end V64.Platform
