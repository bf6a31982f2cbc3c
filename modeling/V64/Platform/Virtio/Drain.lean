import V64.Lib.Loops
import V64.Platform.Virtio.Queue

/-!
# Draining a queue

The loop of the devices that take their chains with `Virtq::pop`:
`while let Some((head, segs)) = queue.pop(mem)` serves the chain, appends it to the
used ring and notes that there was one. `pop` reads the available index afresh, so
nothing in the loop bounds it.

* `drainPass`: one evaluation of the loop's condition, and of its body.
* `Virtq.pop_eq_some`: taking a chain moves the cursor and nothing else.
* `Virtq.pop_isSome`, `Virtq.pushUsed_isSome`: without overflow checks a queue whose size
  is a power of two does not panic.
-/

namespace V64.Platform

open Checked Loops V64.Interp

/-- `QUEUE_MAX` of these devices (line 37 of `virtio/rng.rs`, `virtio/gpu.rs` and
    line 34 of `virtio/input.rs`), which `QueueNumMax` reads as. -/
def queueMax : BitVec 64 := 64

/-- The queues of a device that has two. -/
abbrev queue0 : Fin 2 := 0

@[inherit_doc queue0] abbrev queue1 : Fin 2 := 1

/-- `(v as usize).min(1)`: a value of `QueueSel`, for two queues. -/
def selectQueue (v : BitVec 32) : Fin 2 := if v = 0 then queue0 else queue1

/-- What a draining loop works on: the queue, what serving a chain changes in the
    device, and memory. `raised` is set once a chain was served. -/
structure Draining (τ M : Type) where
  q : Virtq
  raised : Bool
  dev : τ
  mem : M

/-- How a device serves a chain: the length for the used ring, the device and memory. -/
abbrev Serve (τ M : Type) : Type := τ → M → List Seg → Option (BitVec 32 × τ × M)

variable {τ M : Type} [GuestMem M]

/-- One pass of the loop. -/
def drainPass (t : Target) (serve : Serve τ M) (s : Draining τ M) :
    Option (Pass (Draining τ M)) := do
  let (chain, q, mem) ← s.q.pop t s.mem
  match chain with
  | none => return .leave { s with q := q, mem := mem }
  | some (head, segs) =>
    let (written, dev, mem) ← serve s.dev mem segs
    let mem ← q.pushUsed t mem head written
    return .again ⟨q, true, dev, mem⟩

namespace Virtq

/-- A chain is taken from a queue with entries, and moves the cursor. -/
theorem pop_eq_some {t : Target} {q q' : Virtq} {mem mem' : M} {head : BitVec 16}
    {segs : List Seg} (h : q.pop t mem = some (some (head, segs), q', mem')) :
    q.num ≠ 0 ∧ q' = { q with lastAvail := q.lastAvail + 1 } := by
  unfold pop at h
  split_ifs at h with hoff
  · cases h
  · refine ⟨(not_or.mp hoff).2, ?_⟩
    obtain ⟨idxAddr, -, h⟩ := Option.bind_eq_some_iff.mp h
    dsimp only at h
    split_ifs at h
    · cases h
    · obtain ⟨⟨chain, q1, mem1⟩, htake, h⟩ := Option.bind_eq_some_iff.mp h
      cases h
      unfold take at htake
      simp only [Option.bind_eq_bind, Option.bind_eq_some_iff] at htake
      obtain ⟨_, -, _, -, _, -, _, -, h⟩ := htake
      cases h
      rfl

/-- A queue that has entries has at most 32768 of them, and as many as a power of two. -/
def SizeOk (q : Virtq) : Prop := q.num ≠ 0 → ∃ k ≤ 15, q.num.toNat = 2 ^ k

theorem SizeOk.num_ne_zero {q : Virtq} (h : q.SizeOk) (hnum : q.num ≠ 0) :
    q.num.setWidth 16 ≠ (0 : BitVec 16) := by
  obtain ⟨k, hk, hpow⟩ := h hnum
  intro hzero
  have hnat := congrArg BitVec.toNat hzero
  have hlt : 2 ^ k < 2 ^ 16 := Nat.pow_lt_pow_right (by decide) (by omega)
  have hpos : 0 < 2 ^ k := Nat.two_pow_pos k
  rw [BitVec.toNat_setWidth, hpow, Nat.mod_eq_of_lt hlt] at hnat
  exact absurd hnat (Nat.ne_of_gt hpos)

/-! ## Without overflow checks -/

section Wrapping

variable {t : Target} (ht : t.overflowChecks = false)

include ht

theorem gather_isSome (desc : BitVec 64) (fuel : ℕ) (idx : BitVec 16) (mem : M) :
    ∃ r, gather t desc fuel idx mem = some r := by
  induction fuel generalizing idx mem with
  | zero =>
    unfold gather
    simp only [Target.add_of_wrap ht, Option.bind_eq_bind, Option.bind_some]
    split_ifs <;> exact ⟨_, rfl⟩
  | succ fuel ih =>
    unfold gather
    simp only [Target.add_of_wrap ht, Option.bind_eq_bind, Option.bind_some]
    split_ifs
    · obtain ⟨r, hr⟩ := ih _ _
      rw [hr]
      exact ⟨_, rfl⟩
    · exact ⟨_, rfl⟩

theorem pop_isSome {q : Virtq} {mem : M} (hq : ¬(q.ready = false ∨ q.num = 0) →
    q.lastAvail ≠ (GuestMem.readU16 mem (q.avail + 2)).1 → q.num.setWidth 16 ≠ (0 : BitVec 16)) :
    ∃ r, q.pop t mem = some r := by
  unfold pop
  split_ifs with hoff
  · exact ⟨_, rfl⟩
  · simp only [Target.add_of_wrap ht, Option.bind_eq_bind, Option.bind_some]
    split_ifs with hidle
    · exact ⟨_, rfl⟩
    · unfold take
      simp only [Target.add_of_wrap ht, rem_eq_some (hq hoff hidle),
        Option.bind_eq_bind, Option.bind_some]
      obtain ⟨r, hr⟩ := gather_isSome ht q.desc q.num.toNat
        (GuestMem.readU16 (GuestMem.readU16 mem (q.avail + 2)).2
          (q.avail + 4 + (q.lastAvail % q.num.setWidth 16).setWidth 64 * 2)).1
        (GuestMem.readU16 (GuestMem.readU16 mem (q.avail + 2)).2
          (q.avail + 4 + (q.lastAvail % q.num.setWidth 16).setWidth 64 * 2)).2
      rw [hr]
      exact ⟨_, rfl⟩

theorem pushUsed_isSome {q : Virtq} (hq : q.num.setWidth 16 ≠ (0 : BitVec 16)) (mem : M)
    (head : BitVec 16) (written : BitVec 32) : ∃ r, q.pushUsed t mem head written = some r := by
  unfold pushUsed pushUsedAt
  simp only [Target.add_of_wrap ht, rem_eq_some hq, Option.bind_eq_bind, Option.bind_some]
  exact ⟨_, rfl⟩

end Wrapping

end Virtq

end V64.Platform
