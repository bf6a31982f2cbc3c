import V64.Lib.Runs
import V64.Platform.Gic

/-!
# The acknowledge and complete handshake

A `Session` follows the controller together with the interrupts that the guest
has acknowledged and not yet completed, as the values read from `GICC_IAR` and
written to `GICC_EOIR` tell them.

* `InSync`: the running stack, the active flags and the outstanding interrupts agree.
* `Protocol`: what the handshake promises of one operation.
* `Disciplined`: the operations after which stack and flags still agree. The guest
  can leave this set, since `end_of_interrupt` pops the stack whatever it is given.
* `protocol_iff`: a run follows the protocol exactly when its operations are disciplined.
-/

namespace V64.Platform

open Runs GicInner

/-- The first id that is not an interrupt: `GICC_IAR` has no interrupt to report
    with a value from here on. -/
def firstSpecial : ℕ := 1020

/-- The interrupt that an operation acknowledges: the value of a `GICC_IAR` read. -/
def acknowledged (g : GicInner) : GicOp → Option ℕ
  | .cpuRead offset _ =>
    if offset.toNat = 0x0C ∧ (g.cpuRead offset).1.toNat < firstSpecial then
      some (g.cpuRead offset).1.toNat
    else none
  | _ => none

/-- The id that an operation completes: the value of a `GICC_EOIR` write. -/
def completed : GicOp → Option ℕ
  | .cpuWrite offset _ val => if offset.toNat = 0x10 then some (val.setWidth 32).toNat else none
  | _ => none

/-- The operation writes `ISACTIVER` or `ICACTIVER`. -/
def WritesActive : GicOp → Prop
  | .distWrite offset _ _ => 0x300 ≤ offset.toNat ∧ offset.toNat < 0x400
  | _ => False

instance (op : GicOp) : Decidable (WritesActive op) := by
  cases op <;> unfold WritesActive <;> infer_instance

/-- The controller, and the interrupts acknowledged and not yet completed, the
    latest first. -/
structure Session where
  gic : GicInner
  outstanding : List ℕ

namespace Session

/-- The session at reset. -/
def reset : Session := ⟨GicInner.new, []⟩

/-- The session after one operation. -/
def next (s : Session) (op : GicOp) : Session where
  gic := s.gic.step op
  outstanding :=
    match acknowledged s.gic op, completed op with
    | some id, _ => id :: s.outstanding
    | none, some id => s.outstanding.erase id
    | none, none => s.outstanding

/-- The stack and the active flags are two views of the outstanding interrupts. -/
structure InSync (s : Session) : Prop where
  decreasing : s.gic.running.Pairwise (· < ·)
  length : s.gic.running.length = s.outstanding.length
  active : ∀ id < numIrqs, s.gic.active id = true ↔ id ∈ s.outstanding

/-- What the handshake promises of one operation. -/
structure Protocol (s : Session) (op : GicOp) : Prop where
  inSync : (s.next op).InSync
  fresh : ∀ id, acknowledged s.gic op = some id → id ∉ s.outstanding
  ignored : ∀ id, completed op = some id →
    (firstSpecial ≤ id ∧ id ≤ spurious) ∨ ¬(id < numIrqs ∧ s.gic.active id = true) →
    s.gic.step op = s.gic

/-- A completion names an active interrupt, or finds the stack empty. An
    acknowledgement delivers an interrupt that is not active. -/
def Disciplined (s : Session) (op : GicOp) : Prop :=
  (∀ id, completed op = some id →
    (id < numIrqs ∧ s.gic.active id = true) ∨ s.gic.running = []) ∧
  (∀ offset size, op = .cpuRead offset size → offset.toNat = 0x0C →
    ∀ b ∈ s.gic.deliverable, b.1 < firstSpecial ∧ s.gic.active b.1 = false)

/-- What every session that followed the protocol so far satisfies. -/
structure Inv (s : Session) : Prop extends InSync s where
  nodup : s.outstanding.Nodup
  interrupt : ∀ id ∈ s.outstanding, id < firstSpecial
  cached : s.gic.Cached

theorem inv_reset : reset.Inv where
  decreasing := List.Pairwise.nil
  length := rfl
  active _ _ := by simp [reset, GicInner.new]
  nodup := List.nodup_nil
  interrupt _ h := absurd h List.not_mem_nil
  cached := cached_new

/-! ## Operations outside the handshake -/

/-- The operation is neither a read of `GICC_IAR` nor a write of `GICC_EOIR`. -/
def Outside : GicOp → Prop
  | .cpuRead offset _ => offset.toNat ≠ 0x0C
  | .cpuWrite offset _ _ => offset.toNat ≠ 0x10
  | _ => True

/-- Operations outside the handshake leave the stack alone. -/
theorem running_of_outside (g : GicInner) {op : GicOp} (h : Outside op) :
    (g.step op).running = g.running := by
  cases op with
  | setPending id => exact running_setPending g id
  | clearPending id => exact running_clearPending g id
  | distRead offset size => rfl
  | distWrite offset size val => exact running_distWriteReg g offset.toNat size val
  | cpuRead offset size =>
    change (g.cpuRead offset).2.running = g.running
    unfold GicInner.cpuRead
    split
    case h_3 heq => exact absurd heq h
    all_goals rfl
  | cpuWrite offset size val =>
    change (g.cpuWrite offset val).running = g.running
    unfold GicInner.cpuWrite
    split
    case h_3 heq => exact absurd heq h
    all_goals rfl

/-- Operations outside the handshake leave the active flags alone, unless they
    write them. -/
theorem active_of_outside (g : GicInner) {op : GicOp} (h : Outside op) (hw : ¬WritesActive op) :
    (g.step op).active = g.active := by
  cases op with
  | setPending id => exact active_setPending g id
  | clearPending id => exact active_clearPending g id
  | distRead offset size => rfl
  | distWrite offset size val => exact active_distWriteReg g hw size val
  | cpuRead offset size =>
    change (g.cpuRead offset).2.active = g.active
    unfold GicInner.cpuRead
    split
    case h_3 heq => exact absurd heq h
    all_goals rfl
  | cpuWrite offset size val =>
    change (g.cpuWrite offset val).active = g.active
    unfold GicInner.cpuWrite
    split
    case h_3 heq => exact absurd heq h
    all_goals rfl

theorem acknowledged_of_outside (g : GicInner) {op : GicOp} (h : Outside op) :
    acknowledged g op = none := by
  cases op with
  | cpuRead offset size => exact if_neg fun hoff => h hoff.1
  | _ => rfl

theorem completed_of_outside {op : GicOp} (h : Outside op) : completed op = none := by
  cases op with
  | cpuWrite offset size val => exact if_neg h
  | _ => rfl

theorem outstanding_of_outside (s : Session) {op : GicOp} (h : Outside op) :
    (s.next op).outstanding = s.outstanding := by
  unfold next
  rw [acknowledged_of_outside _ h, completed_of_outside h]

theorem inv_of_outside {s : Session} (hs : s.Inv) {op : GicOp} (hout : Outside op)
    (h : ¬WritesActive op) : (s.next op).Inv := by
  have hrunning : (s.next op).gic.running = s.gic.running := running_of_outside s.gic hout
  have hactive : (s.next op).gic.active = s.gic.active := active_of_outside s.gic hout h
  have hnext := s.outstanding_of_outside hout
  refine { decreasing := ?_, length := ?_, active := ?_, nodup := ?_, interrupt := ?_,
           cached := cached_step hs.cached op }
  · exact hrunning ▸ hs.decreasing
  · rw [hnext]
    exact hrunning ▸ hs.length
  · rw [hnext]
    exact hactive ▸ hs.active
  · exact hnext ▸ hs.nodup
  · exact hnext ▸ hs.interrupt

/-! ## Acknowledge -/

/-- A priority below the running priority is below the top of the stack. -/
theorem lt_head_of_lt_runningPrio {g : GicInner} {p t : BitVec 8} {rest : List (BitVec 8)}
    (h : p < g.runningPrio) (hr : g.running = t :: rest) : p < t := by
  simpa [runningPrio, hr] using h

theorem pairwise_cons_running {g : GicInner} {p : BitVec 8} (hdec : g.running.Pairwise (· < ·))
    (h : p < g.runningPrio) : (p :: g.running).Pairwise (· < ·) := by
  refine List.pairwise_cons.mpr ⟨fun q hq => ?_, hdec⟩
  cases hr : g.running with
  | nil => rw [hr] at hq; exact absurd hq List.not_mem_nil
  | cons t rest =>
    have htop := lt_head_of_lt_runningPrio h hr
    rw [hr] at hq hdec
    rcases List.mem_cons.mp hq with rfl | hrest
    · exact htop
    · exact BitVec.lt_trans htop ((List.pairwise_cons.mp hdec).1 q hrest)

section Acknowledge

variable {s : Session} (hs : s.Inv) {offset : BitVec 64} (hoff : offset.toNat = 0x0C) (size : ℕ)

include hs hoff

theorem acknowledged_none (hd : s.gic.deliverable = none) :
    acknowledged s.gic (.cpuRead offset size) = none := by
  refine if_neg fun h => ?_
  have hspurious : spurious < firstSpecial := by
    simpa only [toNat_iar hs.cached hoff, acknowledge_none hd] using h.2
  exact absurd hspurious (by decide)

theorem acknowledged_some {id : ℕ} {p : BitVec 8} (hd : s.gic.deliverable = some (id, p)) :
    acknowledged s.gic (.cpuRead offset size) = if id < firstSpecial then some id else none := by
  have hid : (s.gic.cpuRead offset).1.toNat = id := by
    rw [toNat_iar hs.cached hoff, acknowledge_some hd]
  simp only [acknowledged, hid, hoff, true_and]

/-- Acknowledging an interrupt that is not active puts it on the stack and among
    the outstanding ones. -/
theorem inv_iar (hd : ∀ b ∈ s.gic.deliverable, b.1 < firstSpecial ∧ s.gic.active b.1 = false) :
    (s.next (.cpuRead offset size)).Inv := by
  have hcached := cached_step hs.cached (.cpuRead offset size)
  cases hdel : s.gic.deliverable with
  | none =>
    have hnext : s.next (.cpuRead offset size) = s := by
      simp only [next, acknowledged_none hs hoff size hdel, completed, step, cpuRead_iar _ hoff,
        acknowledge_none hdel]
    rw [hnext]
    exact hs
  | some b =>
    obtain ⟨id, p⟩ := b
    obtain ⟨hspecial, hinactive⟩ := hd _ hdel
    obtain ⟨hbest, -, -, hrun⟩ := (deliverable_eq_some hs.cached).mp hdel
    have hfresh : id ∉ s.outstanding := by
      rw [← hs.active id hbest.lt, hinactive]
      exact Bool.false_ne_true
    have hout : (s.next (.cpuRead offset size)).outstanding = id :: s.outstanding := by
      simp only [next, acknowledged_some hs hoff size hdel, if_pos hspecial]
    have hgic : (s.next (.cpuRead offset size)).gic = recompute { s.gic with
        pending := Function.update s.gic.pending id false
        active := Function.update s.gic.active id true
        running := p :: s.gic.running } := by
      simp only [next, step, cpuRead_iar _ hoff, acknowledge_some hdel]
    refine { decreasing := ?_, length := ?_, active := ?_, nodup := ?_, interrupt := ?_,
             cached := hcached }
    · rw [hgic]
      exact pairwise_cons_running hs.decreasing hrun
    · rw [hgic, hout]
      exact congrArg Nat.succ hs.length
    · intro j hj
      rw [hgic, hout, List.mem_cons, ← hs.active j hj]
      change Function.update s.gic.active id true j = true ↔ _
      rcases eq_or_ne j id with rfl | hne
      · simp
      · simp [hne]
    · rw [hout]
      exact List.nodup_cons.mpr ⟨hfresh, hs.nodup⟩
    · rw [hout]
      intro j hj
      rcases List.mem_cons.mp hj with rfl | hj
      · exact hspecial
      · exact hs.interrupt j hj

end Acknowledge

/-! ## End of interrupt -/

section Complete

variable {s : Session} (hs : s.Inv) {offset : BitVec 64} (hoff : offset.toNat = 0x10) (size : ℕ)
  (val : BitVec 64)

theorem step_eoir (g : GicInner) {offset : BitVec 64} (hoff : offset.toNat = 0x10) (size : ℕ)
    (val : BitVec 64) :
    g.step (.cpuWrite offset size val) = g.endOfInterrupt (val.setWidth 32) := by
  simp only [step, cpuWrite, hoff]

/-- Completing an id that is not active, with an empty stack, changes nothing. -/
theorem endOfInterrupt_of_idle {g : GicInner} {id : BitVec 32}
    (hid : ¬(id.toNat < numIrqs ∧ g.active id.toNat = true)) (hrun : g.running = []) :
    g.endOfInterrupt id = g := by
  have hactive : (if id.toNat < numIrqs then Function.update g.active id.toNat false
      else g.active) = g.active := by
    split_ifs with hlt
    · have hfalse : g.active id.toNat = false := by simpa [hlt] using hid
      rw [← hfalse, Function.update_eq_self]
    · rfl
  simp only [endOfInterrupt, hactive, hrun, List.tail_nil]
  rw [← hrun]

include hs hoff

theorem inv_eoir (hd : (val.setWidth 32).toNat < numIrqs ∧
      s.gic.active (val.setWidth 32).toNat = true ∨ s.gic.running = []) :
    (s.next (.cpuWrite offset size val)).Inv := by
  have hcached := cached_step hs.cached (.cpuWrite offset size val)
  generalize hid : (val.setWidth 32).toNat = id at hd
  have hout : (s.next (.cpuWrite offset size val)).outstanding = s.outstanding.erase id := by
    simp only [next, acknowledged, completed, hoff, if_true, hid]
  have hrunning : (s.next (.cpuWrite offset size val)).gic.running = s.gic.running.tail := by
    simp only [next, step_eoir _ hoff, endOfInterrupt]
  have hlength : s.gic.running.tail.length = (s.outstanding.erase id).length := by
    rw [List.length_tail, hs.length]
    rcases hd with ⟨hlt, hactive⟩ | hempty
    · rw [List.length_erase_of_mem ((hs.active id hlt).mp hactive)]
    · have hnil : s.outstanding = [] := by
        rw [← List.length_eq_zero_iff, ← hs.length, hempty, List.length_nil]
      rw [hnil, List.erase_nil, List.length_nil]
  refine { decreasing := ?_, length := ?_, active := ?_, nodup := ?_, interrupt := ?_,
           cached := hcached }
  · rw [hrunning]
    exact hs.decreasing.sublist (List.tail_sublist _)
  · rw [hrunning, hout]
    exact hlength
  · intro j hj
    rw [hout, hs.nodup.mem_erase_iff, ← hs.active j hj]
    simp only [next, step_eoir _ hoff, endOfInterrupt, hid]
    rcases eq_or_ne j id with rfl | hne
    · simp [hj]
    · split_ifs <;> simp [hne]
  · rw [hout]
    exact hs.nodup.erase id
  · rw [hout]
    exact fun j hj => hs.interrupt j (List.mem_of_mem_erase hj)

end Complete

/-! ## Runs -/

/-- An operation is outside the handshake, or it is one of its two halves. -/
theorem handshake_cases (op : GicOp) : Outside op ∨
    (∃ offset size, op = .cpuRead offset size ∧ offset.toNat = 0x0C) ∨
    ∃ offset size val, op = .cpuWrite offset size val ∧ offset.toNat = 0x10 := by
  cases op with
  | cpuRead offset size =>
    by_cases hoff : offset.toNat = 0x0C
    · exact .inr (.inl ⟨offset, size, rfl, hoff⟩)
    · exact .inl hoff
  | cpuWrite offset size val =>
    by_cases hoff : offset.toNat = 0x10
    · exact .inr (.inr ⟨offset, size, val, rfl, hoff⟩)
    · exact .inl hoff
  | _ => exact .inl trivial

/-- A disciplined operation keeps stack and flags in step. -/
theorem inv_next {s : Session} (hs : s.Inv) {op : GicOp} (hw : ¬WritesActive op)
    (h : s.Disciplined op) : (s.next op).Inv := by
  rcases handshake_cases op with hout | ⟨offset, size, rfl, hoff⟩ | ⟨offset, size, val, rfl, hoff⟩
  · exact inv_of_outside hs hout hw
  · exact inv_iar hs hoff size (h.2 offset size rfl hoff)
  · exact inv_eoir hs hoff size val (h.1 _ (if_pos hoff))

theorem protocol_of_disciplined {s : Session} (hs : s.Inv) {op : GicOp} (hw : ¬WritesActive op)
    (h : s.Disciplined op) : s.Protocol op := by
  have hnext := inv_next hs hw h
  refine ⟨hnext.toInSync, fun id hid => ?_, fun id hid hspare => ?_⟩
  · -- an interrupt that is acknowledged again would be outstanding twice
    have hnodup := hnext.nodup
    have hout : (s.next op).outstanding = id :: s.outstanding := by simp only [next, hid]
    rw [hout] at hnodup
    exact (List.nodup_cons.mp hnodup).1
  · rcases h.1 id hid with hactive | hempty
    · rcases hspare with ⟨hspecial, -⟩ | hinactive
      · have hlt := hs.interrupt id ((hs.active id hactive.1).mp hactive.2)
        exact absurd hlt (Nat.not_lt.mpr hspecial)
      · exact absurd hactive hinactive
    · have hidle : ¬(id < numIrqs ∧ s.gic.active id = true) := by
        rintro ⟨hlt, hactive⟩
        have hnil : s.outstanding = [] := by
          rw [← List.length_eq_zero_iff, ← hs.length, hempty, List.length_nil]
        have hmem := (hs.active id hlt).mp hactive
        rw [hnil] at hmem
        exact List.not_mem_nil hmem
      rcases handshake_cases op with hout | ⟨offset, size, rfl, hoff⟩ |
        ⟨offset, size, val, rfl, hoff⟩
      · rw [completed_of_outside hout] at hid
        cases hid
      · cases hid
      · obtain rfl : (val.setWidth 32).toNat = id := by simpa [completed, hoff] using hid
        rw [step_eoir _ hoff]
        exact endOfInterrupt_of_idle hidle hempty

theorem disciplined_of_protocol {s : Session} (hs : s.Inv) {op : GicOp} (h : s.Protocol op) :
    s.Disciplined op := by
  refine ⟨fun id hid => ?_, fun offset size hop hoff b hb => ?_⟩
  · by_cases hactive : id < numIrqs ∧ s.gic.active id = true
    · exact .inl hactive
    · -- the write is to be ignored, so the pop finds nothing
      right
      have hsame := h.ignored id hid (.inr hactive)
      rcases handshake_cases op with hout | ⟨offset, size, rfl, hoff⟩ |
        ⟨offset, size, val, rfl, hoff⟩
      · rw [completed_of_outside hout] at hid
        cases hid
      · cases hid
      · rw [step_eoir _ hoff] at hsame
        have htail : s.gic.running.tail = s.gic.running := congrArg GicInner.running hsame
        have hlength := congrArg List.length htail
        rw [List.length_tail] at hlength
        exact List.length_eq_zero_iff.mp (by omega)
  · subst hop
    obtain ⟨id, p⟩ := b
    have hack := acknowledged_some hs hoff size hb
    have hspecial : id < firstSpecial := by
      -- otherwise the stack grows without an interrupt being acknowledged
      by_contra hnot
      rw [if_neg hnot] at hack
      have hlength := h.inSync.length
      simp only [next, hack, completed, step, cpuRead_iar _ hoff, acknowledge_some hb,
        running_recompute, List.length_cons, hs.length] at hlength
      omega
    rw [if_pos hspecial] at hack
    have hlt := ((deliverable_eq_some hs.cached).mp hb).1.lt
    have hfresh := h.fresh id hack
    rw [← hs.active id hlt, Bool.not_eq_true] at hfresh
    exact ⟨hspecial, hfresh⟩

/-- A run without writes to the active registers follows the handshake protocol
    exactly when every operation of it is disciplined. -/
theorem protocol_iff (ops : List GicOp) (hops : ∀ op ∈ ops, ¬WritesActive op) :
    Along next Protocol reset ops ↔ Along next Disciplined reset ops :=
  Along.congr inv_reset
    (fun _ op hop hs => ⟨disciplined_of_protocol hs, protocol_of_disciplined hs (hops op hop)⟩)
    fun _ op hop hs h => inv_next hs (hops op hop) (disciplined_of_protocol hs h)

/-- The guest enables interrupt 33 and opens the mask, a device raises the line. -/
def raise33 : List GicOp :=
  [.distWrite 0x104 1 2, .distWrite 0x000 4 1, .cpuWrite 0x00 4 1, .cpuWrite 0x04 4 0xF0,
    .setPending 33]

theorem protocol_iff_raise33 :
    Along next Protocol reset (raise33 ++ [.cpuRead 0x0C 4, .cpuWrite 0x10 4 33]) ↔
      Along next Disciplined reset (raise33 ++ [.cpuRead 0x0C 4, .cpuWrite 0x10 4 33]) :=
  protocol_iff _ (by decide)

/-- With interrupt 33 in service, completing the spurious id pops the stack. -/
theorem not_protocol_spurious : ¬ ∀ ops : List GicOp, (∀ op ∈ ops, ¬WritesActive op) →
    Along next Protocol reset ops := by
  intro h
  have halong := h ((raise33 ++ [.cpuRead 0x0C 4]) ++ [.cpuWrite 0x10 4 1023]) (by decide)
  have hlast := (along_append.mp halong).2.1
  have hsame := hlast.ignored 1023 rfl (.inl ⟨by decide, by decide⟩)
  have hgic : ((raise33 ++ [GicOp.cpuRead 0x0C 4]).foldl next reset).gic =
      (raise33.foldl step GicInner.new).acknowledge.2 := rfl
  have hdel : (raise33.foldl step GicInner.new).deliverable = some (33, 0) :=
    deliverable_of_unique (cached_foldl raise33) (by decide) rfl rfl (by decide) (by decide)
  rw [hgic, acknowledge_some hdel, step_eoir _ rfl] at hsame
  have htail : (raise33.foldl step GicInner.new).running =
      0 :: (raise33.foldl step GicInner.new).running := congrArg GicInner.running hsame
  exact List.cons_ne_self _ _ htail.symm

end Session

end V64.Platform
