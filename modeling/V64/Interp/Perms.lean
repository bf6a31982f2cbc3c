import V64.Interp.Descriptor

/-!
# Stage-1 permissions

What a walk makes of the permission bits of the descriptors it passes, against
the rules stated over those descriptors.

* `stage1_perms`: data accesses and EL0 fetches follow the rules for every chain
  of descriptors, straight from the walk and through the TLB's byte; an EL1 fetch
  is governed by the execute-never bits only.
* `el1_fetch_of_writable`: so EL1 fetches from a page that EL0 may write.
* `chain_of_walk`: every leaf that a walk returns has such a chain.
-/

namespace V64.Interp

open V64.Cpu V64.Decoder V64.Platform

/-! ## The rules -/

section Rules

variable (tables : List (BitVec 64)) (last : BitVec 64)

/-- AP[1] is set and no table of the chain has APTable[0]. -/
def El0Data : Prop := last.getLsbD 6 = true ∧ ∀ desc ∈ tables, desc.getLsbD 61 = false

/-- AP[2] is clear and no table of the chain has APTable[1]. -/
def Writable : Prop := last.getLsbD 7 = false ∧ ∀ desc ∈ tables, desc.getLsbD 62 = false

/-- UXN is clear and no table of the chain has UXNTable. -/
def UserExec : Prop := last.getLsbD 54 = false ∧ ∀ desc ∈ tables, desc.getLsbD 60 = false

/-- PXN is clear and no table of the chain has PXNTable. -/
def PrivExec : Prop := last.getLsbD 53 = false ∧ ∀ desc ∈ tables, desc.getLsbD 59 = false

/-- The accesses that the chain `tables`, ending at `last`, allows. -/
def Allowed (el : Fin 4) : Access → Prop
  | .read => el = 0 → El0Data tables last
  | .write => (el = 0 → El0Data tables last) ∧ Writable tables last
  | .exec => if el = 0 then UserExec tables last else PrivExec tables last

/-- The same rules, where EL1 also never fetches from a page that EL0 may write. -/
def AllowedStrict (el : Fin 4) : Access → Prop
  | .exec =>
    if el = 0 then UserExec tables last
    else PrivExec tables last ∧ ¬ (El0Data tables last ∧ Writable tables last)
  | access => Allowed tables last el access

end Rules

/-! ## Restrictions accumulate -/

theorem foldl_below (tp : TablePerms) (tables : List (BitVec 64)) :
    tables.foldl TablePerms.below tp =
      { noEl0 := tp.noEl0 || tables.any (·.getLsbD 61)
        noWrite := tp.noWrite || tables.any (·.getLsbD 62)
        uxn := tp.uxn || tables.any (·.getLsbD 60)
        pxn := tp.pxn || tables.any (·.getLsbD 59) } := by
  induction tables generalizing tp with
  | nil => simp
  | cons desc tables ih =>
    rw [List.foldl_cons, ih]
    simp [TablePerms.below, Bool.or_assoc]

theorem any_eq_false {tables : List (BitVec 64)} {k : ℕ} :
    tables.any (·.getLsbD k) = false ↔ ∀ desc ∈ tables, desc.getLsbD k = false := by
  rw [List.any_eq_false]
  simp

theorem checkPerms_leafOf (level : BitVec 32) (last va : BitVec 64) (tables : List (BitVec 64))
    (el : Fin 4) (access : Access) :
    checkPerms el (leafOf level last va (tables.foldl TablePerms.below TablePerms.default)) access
      = true ↔ Allowed tables last el access := by
  have hel : (el == 0) = true ↔ el = 0 := beq_iff_eq
  rw [foldl_below]
  cases access with
  | read =>
    simp only [checkPerms, leafOf, TablePerms.default, Allowed, El0Data, ← any_eq_false]
    by_cases h : el = 0 <;> simp [h]
  | write =>
    simp only [checkPerms, leafOf, TablePerms.default, Allowed, El0Data, Writable, ← any_eq_false]
    by_cases h : el = 0 <;> simp [h]
  | exec =>
    simp only [checkPerms, leafOf, TablePerms.default, Allowed, UserExec, PrivExec, ← any_eq_false]
    by_cases h : el = 0 <;> simp [h]

/-- The TLB's byte keeps the permission bits of any leaf. -/
theorem checkPerms_unpack_pack (el : Fin 4) (leaf : Leaf) (access : Access) :
    checkPerms el (Leaf.unpack leaf.paPage leaf.pack) access = checkPerms el leaf access := by
  -- only the low four bits of the level reach the byte
  have hshift : leaf.level <<< 4 = (leaf.level &&& 0xf) <<< 4 := by
    ext i hi
    have hbits : ∀ i : Fin 8, 4 ≤ i.val → (0xf#8).getLsbD (i.val - 4) = true := by decide
    rw [← BitVec.getLsbD_eq_getElem, ← BitVec.getLsbD_eq_getElem, BitVec.getLsbD_shiftLeft,
      BitVec.getLsbD_shiftLeft, BitVec.getLsbD_and]
    by_cases h4 : i < 4
    · simp [h4]
    · have hmask : (0xf : BitVec 8).getLsbD (i - 4) = true :=
        hbits ⟨i, hi⟩ (Nat.le_of_not_lt h4)
      rw [hmask, Bool.and_true]
  set low : Leaf := { leaf with level := leaf.level &&& 0xf } with hlow
  have hpack : leaf.pack = low.pack := by
    rw [hlow, Leaf.pack, Leaf.pack, hshift]
  have hlt : low.level < 16 := by
    rw [BitVec.lt_def, hlow, BitVec.toNat_and]
    exact Nat.lt_of_le_of_lt Nat.and_le_right (by decide)
  rw [hpack, show leaf.paPage = low.paPage from rfl, Leaf.unpack_pack low hlt]
  rfl

/-! ## Chains of descriptors -/

section Chains

variable {M : Type} [GuestMem M] {va : BitVec 64}

/-- From the table at `tableBase`, with `left` levels below it, the walk for `va`
    goes through the table descriptors `tables` and ends at the leaf `last`. -/
inductive WalkChain (va : BitVec 64) :
    ℕ → M → BitVec 64 → List (BitVec 64) → BitVec 64 → Prop where
  | leaf {left : ℕ} {mem : M} {tableBase last : BitVec 64}
      (hread : (GuestMem.readU64 mem (descAddr (levelOf left) tableBase va)).1 = last)
      (hvalid : last.getLsbD 0 = true) (hends : EndsWalk (levelOf left) last)
      (haf : last.getLsbD 10 = true) : WalkChain va left mem tableBase [] last
  | table {left : ℕ} {mem : M} {tableBase desc last : BitVec 64} {tables : List (BitVec 64)}
      (hread : (GuestMem.readU64 mem (descAddr (levelOf (left + 1)) tableBase va)).1 = desc)
      (hvalid : desc.getLsbD 0 = true) (hends : ¬ EndsWalk (levelOf (left + 1)) desc)
      (hrest : WalkChain va left
        (GuestMem.readU64 mem (descAddr (levelOf (left + 1)) tableBase va)).2 (desc &&& oaMask)
        tables last) : WalkChain va (left + 1) mem tableBase (desc :: tables) last

theorem walkLoop_of_chain {left : ℕ} {mem : M} {tableBase last : BitVec 64}
    {tables : List (BitVec 64)} (h : WalkChain va left mem tableBase tables last)
    (tp : TablePerms) :
    ∃ level, (walkLoop va left mem tableBase tp).1 =
      .ok (leafOf level last va (tables.foldl TablePerms.below tp)) := by
  induction h generalizing tp with
  | @leaf left mem tableBase last hread hvalid hends haf =>
    refine ⟨levelOf left, ?_⟩
    rw [walkLoop, hread, walkStep_leaf hvalid hends haf]
    rfl
  | @table left mem tableBase desc last tables hread hvalid hends hrest ih =>
    obtain ⟨level, hlevel⟩ := ih (tp.below desc)
    refine ⟨level, ?_⟩
    rw [walkLoop, hread, walkStep_table hvalid hends]
    exact hlevel

theorem chain_of_walkLoop {left : ℕ} (hleft : left ≤ 3) {mem : M} {tableBase : BitVec 64}
    {tp : TablePerms} {leaf : Leaf} (h : (walkLoop va left mem tableBase tp).1 = .ok leaf) :
    ∃ tables last, WalkChain va left mem tableBase tables last := by
  induction left generalizing mem tableBase tp with
  | zero =>
    rw [walkLoop] at h
    dsimp only at h
    set desc := (GuestMem.readU64 mem (descAddr (levelOf 0) tableBase va)).1 with hdesc
    have hends : EndsWalk (levelOf 0) desc := .inl rfl
    cases h0 : desc.getLsbD 0 with
    | false =>
      rw [walkStep_invalid h0] at h
      cases h
    | true =>
      cases h10 : desc.getLsbD 10 with
      | false =>
        rw [walkStep_noAccess h0 hends h10] at h
        cases h
      | true => exact ⟨[], desc, .leaf hdesc.symm h0 hends h10⟩
  | succ left ih =>
    rw [walkLoop] at h
    dsimp only at h
    set desc := (GuestMem.readU64 mem (descAddr (levelOf (left + 1)) tableBase va)).1 with hdesc
    cases h0 : desc.getLsbD 0 with
    | false =>
      rw [walkStep_invalid h0] at h
      cases h
    | true =>
      by_cases hends : EndsWalk (levelOf (left + 1)) desc
      · cases h10 : desc.getLsbD 10 with
        | false =>
          rw [walkStep_noAccess h0 hends h10] at h
          cases h
        | true => exact ⟨[], desc, .leaf hdesc.symm h0 hends h10⟩
      · rw [walkStep_table h0 hends] at h
        obtain ⟨tables, last, hrest⟩ := ih (by omega) h
        exact ⟨desc :: tables, last, .table hdesc.symm h0 hends hrest⟩

/-- Every leaf that a walk returns ends a chain. -/
theorem chain_of_walk {mem : M} {tableBase : BitVec 64} {tsz : BitVec 32}
    (htsz : 16 ≤ tsz.toNat ∧ tsz.toNat ≤ 51) {leaf : Leaf}
    (h : (walk mem tableBase va tsz).1 = .ok leaf) :
    ∃ tables last, WalkChain va (3 - startingLevel tsz).toNat mem tableBase tables last :=
  chain_of_walkLoop (left_of_regionOk htsz) h

/-- For every chain of table descriptors ending in a leaf, the walk returns a
    leaf that allows what the rules over the chain allow, before and after the
    TLB packs it. -/
theorem stage1_perms {mem : M} {tableBase last : BitVec 64} {tsz : BitVec 32}
    {tables : List (BitVec 64)}
    (hchain : WalkChain va (3 - startingLevel tsz).toNat mem tableBase tables last) :
    ∃ leaf, (walk mem tableBase va tsz).1 = .ok leaf ∧ ∀ el access,
      (checkPerms el leaf access = true ↔ Allowed tables last el access) ∧
        (checkPerms el (Leaf.unpack leaf.paPage leaf.pack) access = true ↔
          Allowed tables last el access) := by
  obtain ⟨level, hwalk⟩ := walkLoop_of_chain hchain TablePerms.default
  refine ⟨_, hwalk, fun el access => ?_⟩
  have hallowed := checkPerms_leafOf level last va tables el access
  refine ⟨hallowed, ?_⟩
  rw [checkPerms_unpack_pack]
  exact hallowed

end Chains

/-! ## Two chains -/

/-- RAM at 0 with a level-2 table at 0 whose first two descriptors are a table,
    read-only below it, and a block that EL0 may write. -/
def permRam : Bus Empty where
  ram := {
    base := 0
    size := 0x2000
    bytes := Bytes.storeLe (Bytes.storeLe (Bytes.storeLe (fun _ => 0) 0 8 0x4000000000001003#64)
      8 8 0x441#64) 0x1000 8 0x443#64 }
  devices := []

/-- EL0 may read and not write the page below the read-only table. -/
theorem stage1_perms_readOnlyTable :
    ∃ leaf, (walk permRam 0 0 39).1 = .ok leaf ∧ ∀ el access,
      (checkPerms el leaf access = true ↔ Allowed [0x4000000000001003] 0x443 el access) ∧
        (checkPerms el (Leaf.unpack leaf.paPage leaf.pack) access = true ↔
          Allowed [0x4000000000001003] 0x443 el access) := by
  have htable : (GuestMem.readU64 permRam (descAddr (levelOf 1) 0 0)).1 = 0x4000000000001003 := by
    decide +kernel
  have hpage : (GuestMem.readU64 (GuestMem.readU64 permRam (descAddr (levelOf 1) 0 0)).2
      (descAddr (levelOf 0) (0x4000000000001003 &&& oaMask) 0)).1 = 0x443 := by decide +kernel
  have hlast : WalkChain 0 0 (GuestMem.readU64 permRam (descAddr (levelOf 1) 0 0)).2
      (0x4000000000001003 &&& oaMask) [] 0x443 :=
    .leaf hpage (by decide) (by decide) (by decide)
  have hchain : WalkChain 0 (3 - startingLevel 39).toNat permRam 0 [0x4000000000001003] 0x443 :=
    .table htable (by decide) (by decide) hlast
  exact stage1_perms hchain

/-- EL1 may fetch from a block that EL0 may write. -/
theorem el1_fetch_of_writable :
    ¬ ∀ (mem : Bus Empty) (tableBase va : BitVec 64) (tsz : BitVec 32) (tables : List (BitVec 64))
      (last : BitVec 64), WalkChain va (3 - startingLevel tsz).toNat mem tableBase tables last →
        ∃ leaf, (walk mem tableBase va tsz).1 = .ok leaf ∧ ∀ el access, el = 0 ∨ el = 1 →
          (checkPerms el leaf access = true ↔ AllowedStrict tables last el access) := by
  intro h
  have hread : (GuestMem.readU64 permRam (descAddr (levelOf 1) 0 0x200000)).1 = 0x441 := by
    decide +kernel
  have hchain : WalkChain 0x200000 (3 - startingLevel 39).toNat permRam 0 [] 0x441 :=
    .leaf hread (by decide) (by decide) (by decide)
  obtain ⟨leaf, hwalk, hperms⟩ := h permRam 0 0x200000 39 [] 0x441 hchain
  obtain ⟨level, hleaf⟩ := walkLoop_of_chain hchain TablePerms.default
  obtain rfl : leafOf level 0x441 0x200000 TablePerms.default = leaf :=
    Except.ok.inj (hleaf.symm.trans hwalk)
  have hfetch : AllowedStrict [] 0x441 1 .exec := (hperms 1 .exec (.inr rfl)).mp rfl
  exact hfetch.2 ⟨⟨by decide, nofun⟩, ⟨by decide, nofun⟩⟩

end V64.Interp
