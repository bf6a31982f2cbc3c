import V64.Lib.Runs
import V64.Platform.Gic

/-!
# The serial console and its interrupt line

Model of `crates/platform/src/uart.rs`: a PL011 that drives one line of the
interrupt controller. A `Console` is the device together with the controller that
it shares with the bus.

* `Console.Held`: the line of a raised condition is pending or active.
* `Console.Reasserted`: the operations that do not complete the interrupt while
  the condition is raised and the line is not pending.
* `held_iff`: in a run, the line is always held exactly when every operation is
  `Reasserted`. The line is re-evaluated by accesses to the UART only, and not when
  the interrupt is completed.
-/

namespace V64.Platform

open Runs

/-- `FR_RXFE` and `FR_TXFE` (lines 44 and 45). -/
def frRxfe : BitVec 64 := 1 <<< 4

@[inherit_doc frRxfe] def frTxfe : BitVec 64 := 1 <<< 7

/-- `INT_RX`, `INT_TX` and `INT_RT` (lines 48–50). -/
def intRx : BitVec 16 := 1 <<< 4

@[inherit_doc intRx] def intTx : BitVec 16 := 1 <<< 5

@[inherit_doc intRx] def intRt : BitVec 16 := 1 <<< 6

/-- `ID_REGS` (line 54). -/
def idRegs : List (BitVec 8) := [0x11, 0x10, 0x14, 0x00, 0x0d, 0xf0, 0x05, 0xb1]

/-- `UartInner` (lines 56–72), without the handle to the controller. -/
structure UartInner where
  tx : List (BitVec 8)
  rx : List (BitVec 8)
  imsc : BitVec 16
  cr : BitVec 32
  lcrH : BitVec 32
  ibrd : BitVec 32
  fbrd : BitVec 32
  ifls : BitVec 32
  irq : BitVec 32

/-- `Uart::new` (lines 155–168). -/
def UartInner.new (irq : BitVec 32) : UartInner where
  tx := []
  rx := []
  imsc := 0
  cr := 0
  lcrH := 0
  ibrd := 0
  fbrd := 0
  ifls := 0
  irq := irq

/-- `ris` (lines 77–83). -/
def UartInner.ris (u : UartInner) : BitVec 16 :=
  if u.rx.isEmpty then intTx else intTx ||| (intRx ||| intRt)

/-- The UART and the controller that its `gic` handle shares. -/
structure Console where
  uart : UartInner
  gic : GicInner

namespace Console

/-- The masked status that drives the line. -/
def mis (c : Console) : BitVec 16 := c.uart.ris &&& c.uart.imsc

/-- `update_irq` (lines 86–92). -/
def updateIrq (c : Console) : Console where
  uart := c.uart
  gic := if c.mis ≠ 0 then c.gic.setPending c.uart.irq else c.gic.clearPending c.uart.irq

/-- `read` (lines 94–123). -/
def read (c : Console) (offset : BitVec 64) : BitVec 64 × Console :=
  let off := offset.toNat
  let u := c.uart
  if off = 0x000 then
    ((u.rx.head?.getD 0).setWidth 64, updateIrq { c with uart := { u with rx := u.rx.tail } })
  else if off = 0x018 then (if u.rx.isEmpty then frTxfe ||| frRxfe else frTxfe, c)
  else if off = 0x024 then (u.ibrd.setWidth 64, c)
  else if off = 0x028 then (u.fbrd.setWidth 64, c)
  else if off = 0x02C then (u.lcrH.setWidth 64, c)
  else if off = 0x030 then (u.cr.setWidth 64, c)
  else if off = 0x034 then (u.ifls.setWidth 64, c)
  else if off = 0x038 then (u.imsc.setWidth 64, c)
  else if off = 0x03C then (u.ris.setWidth 64, c)
  else if off = 0x040 then (c.mis.setWidth 64, c)
  else if 0xFE0 ≤ off ∧ off < 0x1000 then ((idRegs.getD ((off - 0xFE0) / 4) 0).setWidth 64, c)
  else (0, c)

/-- `write` (lines 125–145). -/
def write (c : Console) (offset val : BitVec 64) : Console :=
  let off := offset.toNat
  let u := c.uart
  if off = 0x000 then updateIrq { c with uart := { u with tx := u.tx ++ [val.setWidth 8] } }
  else if off = 0x024 then { c with uart := { u with ibrd := val.setWidth 32 } }
  else if off = 0x028 then { c with uart := { u with fbrd := val.setWidth 32 } }
  else if off = 0x02C then { c with uart := { u with lcrH := val.setWidth 32 } }
  else if off = 0x030 then { c with uart := { u with cr := val.setWidth 32 } }
  else if off = 0x034 then { c with uart := { u with ifls := val.setWidth 32 } }
  else if off = 0x038 then updateIrq { c with uart := { u with imsc := val.setWidth 16 } }
  else if off = 0x044 then c.updateIrq
  else c

/-- `feed` (lines 183–187). -/
def feed (c : Console) (bytes : List (BitVec 8)) : Console :=
  updateIrq { c with uart := { c.uart with rx := c.uart.rx ++ bytes } }

/-- `take_tx` (lines 178–180). -/
def takeTx (c : Console) : List (BitVec 8) × Console :=
  (c.uart.tx, { c with uart := { c.uart with tx := [] } })

end Console

/-- What the guest, the host and the other peripherals can do. -/
inductive ConsoleOp where
  | read (offset : BitVec 64) (size : ℕ)
  | write (offset : BitVec 64) (size : ℕ) (val : BitVec 64)
  | feed (bytes : List (BitVec 8))
  | takeTx
  | gic (op : GicOp)

namespace Console

/-- The console after one operation. -/
def next (c : Console) : ConsoleOp → Console
  | .read offset _ => (c.read offset).2
  | .write offset _ val => c.write offset val
  | .feed bytes => c.feed bytes
  | .takeTx => c.takeTx.2
  | .gic op => { c with gic := c.gic.step op }

/-- The line of a raised condition is pending or active. -/
def Held (c : Console) : Prop :=
  c.mis ≠ 0 → c.gic.pending c.uart.irq.toNat = true ∨ c.gic.active c.uart.irq.toNat = true

/-- The operation takes the line down from outside: a write to `ICPENDR` or
    `ICACTIVER`, or another peripheral that clears the line. -/
def Clears (irq : BitVec 32) : ConsoleOp → Prop
  | .gic (.distWrite offset _ _) =>
    (0x280 ≤ offset.toNat ∧ offset.toNat < 0x300) ∨ (0x380 ≤ offset.toNat ∧ offset.toNat < 0x400)
  | .gic (.clearPending id) => id = irq
  | _ => False

instance (irq : BitVec 32) (op : ConsoleOp) : Decidable (Clears irq op) := by
  unfold Clears
  split <;> infer_instance

/-- The operation does not complete the interrupt while its condition is raised
    and the line is not pending. -/
def Reasserted (c : Console) (op : ConsoleOp) : Prop :=
  ∀ offset size val, op = .gic (.cpuWrite offset size val) → offset.toNat = 0x10 →
    val.setWidth 32 = c.uart.irq → c.mis ≠ 0 → c.gic.pending c.uart.irq.toNat = true

/-- The console is wired to a line that the controller has, and the line is held. -/
structure Inv (irq : BitVec 32) (c : Console) : Prop where
  wired : c.uart.irq = irq
  held : c.Held

/-! ## Accesses to the UART -/

@[simp] theorem uart_updateIrq (c : Console) : c.updateIrq.uart = c.uart := rfl

/-- Re-evaluating the line makes it pending when the condition is raised. -/
theorem held_updateIrq (c : Console) (hirq : c.uart.irq.toNat < numIrqs) : c.updateIrq.Held := by
  intro hmis
  have hraised : c.mis ≠ 0 := hmis
  left
  simp only [updateIrq, if_pos hraised, GicInner.setPending]
  split_ifs with hedge
  · exact Function.update_self _ _ _
  · simpa [hirq] using hedge

/-- An access to the UART leaves the line as it drives it, or changes neither the
    condition nor the line. -/
theorem held_of_uart {c c' : Console} (hc : c.Held) (hirq : c'.uart.irq.toNat < numIrqs)
    (h : (∃ d : Console, c' = d.updateIrq) ∨
      (c'.mis = c.mis ∧ c'.uart.irq = c.uart.irq ∧ c'.gic = c.gic)) : c'.Held := by
  rcases h with ⟨d, rfl⟩ | ⟨hmis, hwire, hgic⟩
  · exact held_updateIrq d hirq
  · unfold Held
    rw [hmis, hwire, hgic]
    exact hc

theorem read_cases (c : Console) (offset : BitVec 64) :
    (c.read offset).2.uart.irq = c.uart.irq ∧
    ((∃ d : Console, (c.read offset).2 = d.updateIrq) ∨ (c.read offset).2 = c) := by
  by_cases hoff : offset.toNat = 0x000
  · simp only [read, if_pos hoff]
    exact ⟨rfl, .inl ⟨_, rfl⟩⟩
  · -- every other register is read without a side effect
    have hsame : (c.read offset).2 = c := by
      simp only [read, if_neg hoff, apply_ite Prod.snd, ite_self]
    rw [hsame]
    exact ⟨rfl, .inr rfl⟩

theorem write_cases (c : Console) (offset val : BitVec 64) :
    (c.write offset val).uart.irq = c.uart.irq ∧
    ((∃ d : Console, c.write offset val = d.updateIrq) ∨
      ((c.write offset val).mis = c.mis ∧ (c.write offset val).gic = c.gic)) := by
  unfold write
  dsimp only
  split_ifs
  case pos => exact ⟨rfl, .inl ⟨_, rfl⟩⟩
  all_goals first | exact ⟨rfl, .inr ⟨rfl, rfl⟩⟩ | exact ⟨rfl, .inl ⟨_, rfl⟩⟩

/-! ## Operations on the controller -/

/-- A write of ones to a set register never clears a bit. -/
theorem writeBitmap_true {arr : ℕ → Bool} {i : ℕ} (h : arr i = true) (byteOff size : ℕ)
    (val : BitVec 64) : writeBitmap arr byteOff size val true i = true := by
  refine List.foldlRecOn (motive := fun arr : ℕ → Bool => arr i = true) _ _ h fun arr h j _ => ?_
  split_ifs
  · rcases eq_or_ne i (byteOff * 8 + j) with rfl | hne
    · exact Function.update_self _ _ _
    · rwa [Function.update_of_ne hne]
  · exact h

/-- A line that is pending or active stays so. -/
def Keeps (i : ℕ) (g g' : GicInner) : Prop :=
  g.pending i = true ∨ g.active i = true → g'.pending i = true ∨ g'.active i = true

theorem keeps_of_eq {i : ℕ} {g g' : GicInner} (hp : g'.pending = g.pending)
    (ha : g'.active = g.active) : Keeps i g g' := by
  intro h
  rwa [hp, ha]

theorem keeps_setPending (i : ℕ) (g : GicInner) (id : BitVec 32) : Keeps i g (g.setPending id) := by
  intro h
  rw [GicInner.active_setPending]
  refine h.imp_left fun hp => ?_
  unfold GicInner.setPending
  split_ifs
  · change Function.update g.pending id.toNat true i = true
    rcases eq_or_ne i id.toNat with rfl | hne
    · exact Function.update_self _ _ _
    · rwa [Function.update_of_ne hne]
  · exact hp

theorem keeps_clearPending {i : ℕ} (g : GicInner) {id : BitVec 32} (hne : i ≠ id.toNat) :
    Keeps i g (g.clearPending id) := by
  intro h
  rw [GicInner.active_clearPending]
  refine h.imp_left fun hp => ?_
  unfold GicInner.clearPending
  split_ifs
  · change Function.update g.pending id.toNat false i = true
    rwa [Function.update_of_ne hne]
  · exact hp

/-- Delivering the interrupt moves its line from pending to active. -/
theorem keeps_acknowledge (i : ℕ) (g : GicInner) : Keeps i g g.acknowledge.2 := by
  intro h
  unfold GicInner.acknowledge
  split
  case h_1 id p _ =>
    change Function.update g.pending id false i = true ∨ Function.update g.active id true i = true
    rcases eq_or_ne i id with rfl | hne
    · exact .inr (Function.update_self _ _ _)
    · rwa [Function.update_of_ne hne, Function.update_of_ne hne]
  case h_2 => exact h

theorem keeps_writeSgir (i : ℕ) (g : GicInner) (val : BitVec 64) : Keeps i g (g.writeSgir val) := by
  intro h
  rw [GicInner.active_writeSgir]
  refine h.imp_left fun hp => ?_
  have hset : ∀ sgi, Function.update g.pending sgi true i = true := by
    intro sgi
    rcases eq_or_ne i sgi with rfl | hne
    · exact Function.update_self _ _ _
    · rwa [Function.update_of_ne hne]
  unfold GicInner.writeSgir
  dsimp only
  split_ifs
  all_goals first | exact hset _ | exact hp

/-- Every distributor register but `ICPENDR` and `ICACTIVER` keeps the line. -/
theorem keeps_distWriteReg (i : ℕ) (g : GicInner) {off : ℕ}
    (h : ¬((0x280 ≤ off ∧ off < 0x300) ∨ (0x380 ≤ off ∧ off < 0x400))) (size : ℕ)
    (val : BitVec 64) : Keeps i g (g.distWriteReg off size val) := by
  obtain ⟨hpend, hact⟩ := not_or.mp h
  unfold GicInner.distWriteReg
  split_ifs
  case pos => exact keeps_of_eq rfl rfl
  all_goals first
    | exact keeps_of_eq rfl rfl
    | exact fun hh => hh.imp_left fun hp => writeBitmap_true hp _ _ _
    | exact fun hh => hh.imp_right fun ha => writeBitmap_true ha _ _ _
    | exact keeps_writeSgir i g val

theorem keeps_cpuRead (i : ℕ) (g : GicInner) (offset : BitVec 64) :
    Keeps i g (g.cpuRead offset).2 := by
  unfold GicInner.cpuRead
  split
  case h_3 => exact keeps_acknowledge i g
  all_goals exact id

/-- A completion of another interrupt keeps the line, and so does one that finds
    the line pending. -/
theorem keeps_cpuWrite {i : ℕ} (g : GicInner) {offset val : BitVec 64}
    (h : offset.toNat = 0x10 → (val.setWidth 32).toNat = i → g.pending i = true) :
    Keeps i g (g.cpuWrite offset val) := by
  unfold GicInner.cpuWrite
  split
  case h_3 hoff =>
    intro hline
    change g.pending i = true ∨ (if (val.setWidth 32).toNat < numIrqs then
      Function.update g.active (val.setWidth 32).toNat false else g.active) i = true
    rcases eq_or_ne i (val.setWidth 32).toNat with hi | hne
    · exact .inl (h hoff hi.symm)
    · refine hline.imp_right fun ha => ?_
      split_ifs
      · rwa [Function.update_of_ne hne]
      · exact ha
  all_goals exact keeps_of_eq rfl rfl

/-! ## Runs -/

theorem held_of_keeps {c : Console} {g : GicInner} (hc : c.Held)
    (h : c.mis ≠ 0 → Keeps c.uart.irq.toNat c.gic g) : Held { c with gic := g } :=
  fun hmis => h hmis (hc hmis)

section Step

variable {irq : BitVec 32} (hirq : irq.toNat < numIrqs) {c : Console} (hc : c.Inv irq)
  {op : ConsoleOp} (hclear : ¬Clears irq op)

include hirq hc hclear

/-- What the operations other than completions do. -/
theorem inv_next (h : c.Reasserted op) : (c.next op).Inv irq := by
  obtain ⟨rfl, hheld⟩ := hc
  cases op with
  | read offset size =>
    obtain ⟨hwire, hcases⟩ := c.read_cases offset
    refine ⟨hwire, held_of_uart hheld (by rwa [next, hwire]) (hcases.imp_right fun hsame => ?_)⟩
    rw [next, hsame]
    exact ⟨rfl, rfl, rfl⟩
  | write offset size val =>
    obtain ⟨hwire, hcases⟩ := c.write_cases offset val
    refine ⟨hwire, held_of_uart hheld (by rwa [next, hwire]) (hcases.imp_right fun hsame => ?_)⟩
    exact ⟨hsame.1, hwire, hsame.2⟩
  | feed bytes => exact ⟨rfl, held_updateIrq _ hirq⟩
  | takeTx => exact ⟨rfl, hheld⟩
  | gic op =>
    refine ⟨rfl, held_of_keeps hheld fun hmis => ?_⟩
    cases op with
    | setPending id => exact keeps_setPending _ _ id
    | clearPending id =>
      refine keeps_clearPending _ fun hne => hclear ?_
      exact BitVec.eq_of_toNat_eq hne.symm
    | distRead offset size => exact id
    | distWrite offset size val => exact keeps_distWriteReg _ _ hclear size val
    | cpuRead offset size => exact keeps_cpuRead _ _ offset
    | cpuWrite offset size val =>
      refine keeps_cpuWrite _ fun hoff hid => ?_
      exact h offset size val rfl hoff (BitVec.eq_of_toNat_eq hid) hmis

/-- Completing the interrupt of a raised condition whose line is not pending
    leaves the line down. -/
theorem reasserted_of_held (h : (c.next op).Held) : c.Reasserted op := by
  rintro offset size val rfl hoff hid hmis
  have hline := h hmis
  have hgic : (c.next (.gic (.cpuWrite offset size val))).gic =
      c.gic.endOfInterrupt c.uart.irq := by
    simp only [next, GicInner.step, GicInner.cpuWrite, hoff, hid]
  rw [hgic] at hline
  have hlt : c.uart.irq.toNat < numIrqs := hc.wired ▸ hirq
  rcases hline with hp | ha
  · exact hp
  · change (if c.uart.irq.toNat < numIrqs then Function.update c.gic.active c.uart.irq.toNat false
      else c.gic.active) c.uart.irq.toNat = true at ha
    rw [if_pos hlt, Function.update_self] at ha
    cases ha

end Step

/-- The console at reset. -/
def reset (irq : BitVec 32) : Console := ⟨UartInner.new irq, GicInner.new⟩

theorem inv_reset (irq : BitVec 32) : (reset irq).Inv irq :=
  ⟨rfl, fun h => absurd (BitVec.and_zero) h⟩

/-- In a run that does not take the line down from outside, the line is held
    after every operation exactly when every operation is `Reasserted`. -/
theorem held_iff {irq : BitVec 32} (hirq : irq.toNat < numIrqs) (ops : List ConsoleOp)
    (hops : ∀ op ∈ ops, ¬Clears irq op) :
    Along next (fun c op => (c.next op).Held) (reset irq) ops ↔
      Along next Reasserted (reset irq) ops :=
  Along.congr (inv_reset irq)
    (fun _ op hop hc => ⟨reasserted_of_held hirq hc (hops op hop),
      fun h => (inv_next hirq hc (hops op hop) h).held⟩)
    fun _ op hop hc h =>
      inv_next hirq hc (hops op hop) (reasserted_of_held hirq hc (hops op hop) h)

/-- The controller's cache is kept by every operation on the console. -/
theorem cached_next {c : Console} (h : c.gic.Cached) (op : ConsoleOp) :
    (c.next op).gic.Cached := by
  have hupdate : ∀ d : Console, d.gic.Cached → d.updateIrq.gic.Cached := by
    intro d hd
    unfold updateIrq
    dsimp only
    split_ifs
    · exact GicInner.cached_setPending hd _
    · exact GicInner.cached_clearPending hd _
  cases op with
  | read offset size =>
    by_cases hoff : offset.toNat = 0x000
    · simp only [next, read, if_pos hoff]
      exact hupdate _ h
    · simp only [next, read, if_neg hoff, apply_ite Prod.snd, ite_self]
      exact h
  | write offset size val =>
    simp only [next, write]
    split_ifs
    all_goals first | exact h | exact hupdate _ h
  | feed bytes => exact hupdate _ h
  | takeTx => exact h
  | gic op => exact GicInner.cached_step h op

theorem cached_foldl (irq : BitVec 32) (ops : List ConsoleOp) :
    (ops.foldl next (reset irq)).gic.Cached :=
  List.foldlRecOn (motive := fun c : Console => c.gic.Cached) ops next GicInner.cached_new
    fun _ h op _ => cached_next h op

/-- A guest that enables the UART's receive interrupt, and a host that feeds a byte. -/
def receive : List ConsoleOp :=
  [.gic (.distWrite 0x104 1 2), .gic (.distWrite 0x000 4 1), .gic (.cpuWrite 0x00 4 1),
    .gic (.cpuWrite 0x04 4 0xF0), .write 0x038 4 0x10, .feed [0x41]]

theorem held_iff_receive :
    Along next (fun c op => (c.next op).Held) (reset 33)
        (receive ++ [.gic (.cpuRead 0x0C 4), .read 0x000 4, .gic (.cpuWrite 0x10 4 33)]) ↔
      Along next Reasserted (reset 33)
        (receive ++ [.gic (.cpuRead 0x0C 4), .read 0x000 4, .gic (.cpuWrite 0x10 4 33)]) :=
  held_iff (by decide) _ (by decide)

/-- The guest acknowledges the interrupt and completes it without reading the
    byte: the byte is still in the FIFO, and the line is down. -/
theorem not_held_receive : ¬ ∀ (irq : BitVec 32), irq.toNat < numIrqs → ∀ ops : List ConsoleOp,
    (∀ op ∈ ops, ¬Clears irq op) →
    Along next (fun c op => (c.next op).Held) (reset irq) ops := by
  intro h
  have halong := h 33 (by decide)
    (receive ++ [.gic (.cpuRead 0x0C 4), .gic (.cpuWrite 0x10 4 33)]) (by decide)
  obtain ⟨-, hheld, -⟩ := (along_append.mp halong).2
  have hcached := cached_foldl 33 receive
  have he : (receive.foldl next (reset 33)).gic.enabled =
      Function.update (fun _ => false) 33 true := rfl
  have hp : (receive.foldl next (reset 33)).gic.pending 33 = true := rfl
  have hpmr : (receive.foldl next (reset 33)).gic.priority 33 <
      (receive.foldl next (reset 33)).gic.pmr := by decide
  have hrun : (receive.foldl next (reset 33)).gic.priority 33 <
      (receive.foldl next (reset 33)).gic.runningPrio := by decide
  have hmis : (receive.foldl next (reset 33)).mis ≠ 0 := by decide
  have hwire : (receive.foldl next (reset 33)).uart.irq = 33 := rfl
  generalize receive.foldl next (reset 33) = c at hheld hcached he hp hpmr hrun hmis hwire
  have hack := GicInner.acknowledge_some
    (GicInner.deliverable_of_unique hcached (by decide) he hp hpmr hrun)
  rcases hheld hmis with hp | ha
  · change c.gic.acknowledge.2.pending c.uart.irq.toNat = true at hp
    rw [hack, hwire] at hp
    cases hp
  · change Function.update c.gic.acknowledge.2.active 33 false c.uart.irq.toNat = true at ha
    rw [hwire] at ha
    cases ha

end Console

end V64.Platform
