import V64.Cpu.Flags

/-!
# The direct-mapped TLB

Model of `crates/cpu/src/tlb.rs`. The table is pure storage: it maps a
4 KiB-aligned VA to a 4 KiB-aligned PA and an opaque `perms` byte.

* `lookup_insert`: an insertion is read back under its own page, hides whatever
  shared its slot and leaves every other slot alone.
* `lookup_new`, `lookup_flush`: no aligned page hits in an empty table.
* `lookup_insert_cases`: every hit after an insertion is the inserted entry or
  was a hit before.
-/

namespace V64.Cpu

/-- `TLB_SIZE` (line 27). -/
abbrev tlbSize : ℕ := 1024

/-- `EMPTY` (line 31): the tag of an empty slot, which no aligned page equals. -/
def empty : BitVec 64 := BitVec.allOnes 64

/-- `Entry` (lines 39–46). -/
structure Entry where
  tag : BitVec 64
  pa : BitVec 64
  perms : BitVec 8
  deriving DecidableEq

/-- `Tlb` (lines 58–60). -/
structure Tlb where
  entries : Fin tlbSize → Entry

/-- `va & !PAGE_MASK`: the page a 64-bit address lies in. -/
def pageOf (va : BitVec 64) : BitVec 64 := va &&& ~~~0xfff#64

@[simp] theorem pageOf_pageOf (va : BitVec 64) : pageOf (pageOf va) = pageOf va := by
  simp [pageOf, BitVec.and_assoc]

theorem pageOf_ne_empty (va : BitVec 64) : pageOf va ≠ empty := by
  intro h
  have h0 := congrArg (fun v : BitVec 64 => v.getLsbD 0) h
  simp [pageOf, empty] at h0

namespace Tlb

/-- `Tlb::new` (lines 70–72). -/
def new : Tlb := ⟨fun _ => ⟨empty, 0, 0⟩⟩

/-- `Tlb::index` (lines 75–77): `((va_page >> 12) as usize) & (TLB_SIZE - 1)`. -/
def index (vaPage : BitVec 64) : Fin tlbSize :=
  ⟨(vaPage >>> 12).toNat % tlbSize, Nat.mod_lt _ (by decide)⟩

/-- `Tlb::lookup` (lines 81–84). -/
def lookup (t : Tlb) (vaPage : BitVec 64) : Option (BitVec 64 × BitVec 8) :=
  let e := t.entries (index vaPage)
  if e.tag = vaPage then some (e.pa, e.perms) else none

/-- `Tlb::insert` (lines 87–89). -/
def insert (t : Tlb) (vaPage paPage : BitVec 64) (perms : BitVec 8) : Tlb :=
  ⟨Function.update t.entries (index vaPage) ⟨vaPage, paPage, perms⟩⟩

/-- `Tlb::flush` (lines 93–97): only the tags are overwritten. -/
def flush (t : Tlb) : Tlb := ⟨fun i => { t.entries i with tag := empty }⟩

/-- No slot holds a translation. -/
def IsEmpty (t : Tlb) : Prop := ∀ i, (t.entries i).tag = empty

@[simp] theorem isEmpty_new : new.IsEmpty := fun _ => rfl

@[simp] theorem isEmpty_flush (t : Tlb) : t.flush.IsEmpty := fun _ => rfl

theorem IsEmpty.lookup {t : Tlb} (h : t.IsEmpty) (va : BitVec 64) :
    t.lookup (pageOf va) = none := by
  unfold Tlb.lookup
  simp only [h _, ite_eq_right_iff, reduceCtorEq]
  exact fun he => absurd he.symm (pageOf_ne_empty va)

theorem lookup_insert (t : Tlb) (p q pa : BitVec 64) (perms : BitVec 8) :
    (t.insert p pa perms).lookup q =
      if q = p then some (pa, perms)
      else if index q = index p then none
      else t.lookup q := by
  unfold lookup insert
  by_cases hq : q = p
  · subst hq; simp
  · by_cases hi : index q = index p
    · simp [hi, hq, Ne.symm hq]
    · simp [hi, hq]

@[simp] theorem lookup_insert_self (t : Tlb) (p pa : BitVec 64) (perms : BitVec 8) :
    (t.insert p pa perms).lookup p = some (pa, perms) := by
  rw [lookup_insert, if_pos rfl]

/-- A direct-mapped insertion never invents a translation of another page. -/
theorem lookup_insert_cases {t : Tlb} {p q pa : BitVec 64} {perms : BitVec 8}
    {r : BitVec 64 × BitVec 8} (h : (t.insert p pa perms).lookup q = some r) :
    (q = p ∧ r = (pa, perms)) ∨ t.lookup q = some r := by
  rw [lookup_insert] at h
  split_ifs at h with hq hi
  · exact .inl ⟨hq, (Option.some.inj h).symm⟩
  · exact .inr h

end Tlb

end V64.Cpu
