import V64.Platform.Ram
import V64.Platform.Virtio.GpuFits

/-!
# What a transfer reads

`dma_read` reads words, then the bytes that are left, and appends them to what it was
given.

* `dmaRead_append`: what it appends does not depend on that.
* `length_dmaRead`: it appends as many bytes as it was asked for.
* `Readable`: so many bytes from an address on that reading finds and leaves as they are.
* `dmaRead_of_readable`: then these are appended.
-/

namespace V64.Platform

open Checked Loops V64.Interp

section Transfer

variable {M : Type} [GuestMem M]

theorem length_wordOffsets (n : ℕ) : (wordOffsets n).length = n / 8 := by
  rw [wordOffsets, List.length_map, List.length_range]

theorem length_byteOffsets (n : ℕ) : (byteOffsets n).length = n % 8 := List.length_range'

theorem dmaReadWord_append (t : Target) (addr : BitVec 64) (out bs : List (BitVec 8)) (mem : M)
    (i : ℕ) :
    dmaReadWord t addr (out ++ bs, mem) i =
      (dmaReadWord t addr (bs, mem) i).map fun r => (out ++ r.1, r.2) := by
  unfold dmaReadWord
  cases t.add addr (BitVec.ofNat 64 i) with
  | none => rfl
  | some a => exact congrArg some (Prod.ext (List.append_assoc out bs _) rfl)

theorem dmaReadByte_append (t : Target) (addr : BitVec 64) (out bs : List (BitVec 8)) (mem : M)
    (i : ℕ) :
    dmaReadByte t addr (out ++ bs, mem) i =
      (dmaReadByte t addr (bs, mem) i).map fun r => (out ++ r.1, r.2) := by
  unfold dmaReadByte
  cases t.add addr (BitVec.ofNat 64 i) with
  | none => rfl
  | some a => exact congrArg some (Prod.ext (List.append_assoc out bs _) rfl)

/-- What is read does not depend on what was read before. -/
theorem dmaRead_append (t : Target) (addr : BitVec 64) (len : BitVec 32) (out : List (BitVec 8))
    (mem : M) :
    dmaRead t addr len out mem =
      (dmaRead t addr len [] mem).map fun r => (out ++ r.1, r.2) := by
  have hwords := foldlM_append_out (dmaReadWord_append t addr) (wordOffsets len.toNat) out [] mem
  rw [List.append_nil] at hwords
  unfold dmaRead
  rw [hwords]
  cases (wordOffsets len.toNat).foldlM (dmaReadWord t addr) ([], mem) with
  | none => rfl
  | some r =>
    exact foldlM_append_out (dmaReadByte_append t addr) (byteOffsets len.toNat) out r.1 r.2

theorem length_dmaRead {t : Target} {addr : BitVec 64} {len : BitVec 32} {out : List (BitVec 8)}
    {mem : M} {r : List (BitVec 8) × M} (h : dmaRead t addr len out mem = some r) :
    r.1.length = out.length + len.toNat := by
  have hword (s : List (BitVec 8) × M) (i : ℕ) (r) (hr : dmaReadWord t addr s i = some r) :
      r.1.length = s.1.length + 8 := by
    unfold dmaReadWord at hr
    obtain ⟨a, -, hr⟩ := Option.bind_eq_some_iff.mp hr
    cases hr
    rw [List.length_append, Bytes.length_toLe]
  have hbyte (s : List (BitVec 8) × M) (i : ℕ) (r) (hr : dmaReadByte t addr s i = some r) :
      r.1.length = s.1.length + 1 := by
    unfold dmaReadByte at hr
    obtain ⟨a, -, hr⟩ := Option.bind_eq_some_iff.mp hr
    cases hr
    exact List.length_append
  obtain ⟨s, hs, hr⟩ := Option.bind_eq_some_iff.mp h
  have hlen := length_foldlM hword hs
  rw [length_foldlM hbyte hr, hlen, length_wordOffsets, length_byteOffsets]
  show out.length + 8 * (len.toNat / 8) + 1 * (len.toNat % 8) = out.length + len.toNat
  omega

/-- A transfer that a build completes is the same without overflow checks. -/
theorem dmaRead_wrapping_of_some {t : Target} {addr : BitVec 64} {len : BitVec 32}
    {out : List (BitVec 8)} {mem : M} {r : List (BitVec 8) × M}
    (h : dmaRead t addr len out mem = some r) : dmaRead t.wrapping addr len out mem = some r := by
  cases ht : t.overflowChecks with
  | true => exact ((dmaRead_checked ht).mp h).2
  | false =>
    rw [Target.wrapping_of_unchecked ht]
    exact h

/-! ## Readable memory -/

/-- Reading any of the `n` bytes from `addr` on finds those of `view` and changes nothing. -/
structure Readable (view : ℕ → BitVec 8) (mem : M) (addr : BitVec 64) (n : ℕ) : Prop where
  u64 : ∀ i, i + 8 ≤ n → GuestMem.readU64 mem (addr + BitVec.ofNat 64 i) =
    (Bytes.loadLe 64 view (addr.toNat + i) 8, mem)
  u8 : ∀ i < n, GuestMem.readU8 mem (addr + BitVec.ofNat 64 i) = (view (addr.toNat + i), mem)

variable {view : ℕ → BitVec 8} {mem : M} {addr : BitVec 64} {t : Target}

theorem dmaReadWord_of_readable (ht : t.overflowChecks = false) {n : ℕ}
    (h : Readable view mem addr n) (out : List (BitVec 8)) {i : ℕ} (hi : i + 8 ≤ n) :
    dmaReadWord t addr (out, mem) i =
      some (out ++ (List.range 8).map fun k => view (addr.toNat + i + k), mem) := by
  rw [dmaReadWord, Target.add_of_wrap ht, Option.bind_eq_bind, Option.bind_some, h.u64 i hi]
  dsimp only
  rw [Bytes.toLe_loadLe _ _ _ (by decide)]
  rfl

theorem dmaReadByte_of_readable (ht : t.overflowChecks = false) {n : ℕ}
    (h : Readable view mem addr n) (out : List (BitVec 8)) {i : ℕ} (hi : i < n) :
    dmaReadByte t addr (out, mem) i = some (out ++ [view (addr.toNat + i)], mem) := by
  rw [dmaReadByte, Target.add_of_wrap ht, Option.bind_eq_bind, Option.bind_some, h.u8 i hi]
  rfl

/-- The words of a transfer are the bytes up to the end of the last of them. -/
theorem dmaReadWords_of_readable (ht : t.overflowChecks = false) {n : ℕ}
    (h : Readable view mem addr n) {k : ℕ} (hk : 8 * k ≤ n) :
    ((List.range k).map (8 * ·)).foldlM (dmaReadWord t addr) ([], mem) =
      some ((List.range (8 * k)).map fun i => view (addr.toNat + i), mem) := by
  induction k with
  | zero => rfl
  | succ k ih =>
    have hstep := dmaReadWord_of_readable ht h
      ((List.range (8 * k)).map fun i => view (addr.toNat + i)) (i := 8 * k) (by omega)
    rw [List.range_succ, List.map_append, List.foldlM_append, ih (by omega)]
    show dmaReadWord t addr _ (8 * k) >>= pure = _
    rw [hstep, Nat.mul_succ, List.range_add, List.map_append, List.map_map]
    simp only [Nat.add_assoc, Function.comp_def]
    rfl

theorem dmaReadBytes_of_readable (ht : t.overflowChecks = false) {n : ℕ}
    (h : Readable view mem addr n) (start : ℕ) {k : ℕ} (hk : start + k ≤ n) :
    (List.range' start k).foldlM (dmaReadByte t addr)
        ((List.range start).map fun i => view (addr.toNat + i), mem) =
      some ((List.range (start + k)).map fun i => view (addr.toNat + i), mem) := by
  induction k with
  | zero => rfl
  | succ k ih =>
    have hstep := dmaReadByte_of_readable ht h
      ((List.range (start + k)).map fun i => view (addr.toNat + i)) (i := start + k) (by omega)
    rw [List.range'_concat, Nat.one_mul, List.foldlM_append, ih (by omega)]
    show dmaReadByte t addr _ (start + k) >>= pure = _
    rw [hstep, Nat.add_succ, List.range_succ, List.map_append]
    rfl

/-- Readable bytes are what a transfer reads. -/
theorem dmaRead_of_readable (ht : t.overflowChecks = false) {len : BitVec 32}
    (h : Readable view mem addr len.toNat) :
    dmaRead t addr len [] mem =
      some ((List.range len.toNat).map fun i => view (addr.toNat + i), mem) := by
  have hwords := dmaReadWords_of_readable (k := len.toNat / 8) ht h (by omega)
  have hbytes := dmaReadBytes_of_readable (k := len.toNat % 8) ht h (8 * (len.toNat / 8)) (by omega)
  rw [Nat.div_add_mod] at hbytes
  rw [dmaRead, wordOffsets, hwords, byteOffsets]
  exact hbytes

end Transfer

end V64.Platform
