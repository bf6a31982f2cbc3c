import V64.Interp.Memory

/-!
# Stage-1 address translation

Model of `crates/interp/src/mmu.rs`. Levels are `u32` and wrap; shift amounts
are taken modulo the width, as release builds do. The walk ends at level 3, so
it recurses on the number of levels left; only a starting level outside
`0 ≤ level ≤ 3` makes that number large.

* `Leaf.unpack_pack`: the TLB's byte keeps a leaf whose level fits four bits.
* `translate_of_hit`, `translate_of_miss`, `translate_of_off`: the three paths.
* `translate_cpu`: a translation changes the TLB and nothing else of the CPU.
-/

namespace V64.Interp

open V64.Cpu

/-- The interpreter's state: the `cpu` and `mem` it is handed by reference. -/
structure Guest (M : Type) where
  cpu : CpuState
  mem : M

/-- `OA_MASK` (line 18). -/
def oaMask : BitVec 64 := 0x0000fffffffff000

/-- `PAGE_MASK` (line 21). -/
def pageMask : BitVec 64 := 0xfff

/-- `FSC_TRANSLATION` (line 24). -/
def fscTranslation : BitVec 8 := 0b000100

/-- `FSC_ACCESS_FLAG` (line 25). -/
def fscAccessFlag : BitVec 8 := 0b001000

/-- `FSC_PERMISSION` (line 26). -/
def fscPermission : BitVec 8 := 0b001100

/-- `Access` (lines 30–34). -/
inductive Access where
  | read
  | write
  | exec
  deriving DecidableEq

/-- `mmu_enabled` (lines 36–38). -/
def mmuEnabled (cpu : CpuState) : Bool := cpu.sctlrEl1 &&& 1 == 1

/-- `TablePerms` (lines 106–111). -/
structure TablePerms where
  noEl0 : Bool
  noWrite : Bool
  uxn : Bool
  pxn : Bool
  deriving DecidableEq

/-- `TablePerms::default`. -/
def TablePerms.default : TablePerms := ⟨false, false, false, false⟩

/-- `Leaf` (lines 118–127). -/
structure Leaf where
  paPage : BitVec 64
  el0Access : Bool
  readOnly : Bool
  uxn : Bool
  pxn : Bool
  level : BitVec 8
  deriving DecidableEq

/-- `u8::from(bool)`. -/
def bit8 (b : Bool) : BitVec 8 := if b then 1 else 0

/-- `Leaf::pack` (lines 131–137). -/
def Leaf.pack (l : Leaf) : BitVec 8 :=
  bit8 l.el0Access ||| (bit8 l.readOnly <<< 1) ||| (bit8 l.uxn <<< 2) ||| (bit8 l.pxn <<< 3) |||
    (l.level <<< 4)

/-- `Leaf::unpack` (lines 140–149). -/
def Leaf.unpack (paPage : BitVec 64) (perms : BitVec 8) : Leaf where
  paPage := paPage
  el0Access := perms &&& 1 != 0
  readOnly := perms &&& 0b10 != 0
  uxn := perms &&& 0b100 != 0
  pxn := perms &&& 0b1000 != 0
  level := perms >>> 4

theorem Leaf.unpack_pack (l : Leaf) (h : l.level < 16) : Leaf.unpack l.paPage l.pack = l := by
  obtain ⟨pa, a, b, c, d, level⟩ := l
  have key : ∀ (a b c d : Bool) (level : Fin 16),
      Leaf.unpack 0 (Leaf.pack ⟨0, a, b, c, d, BitVec.ofNat 8 level⟩) =
        ⟨0, a, b, c, d, BitVec.ofNat 8 level⟩ := by decide
  have hl : level = BitVec.ofNat 8 (⟨level.toNat, h⟩ : Fin 16) := by simp
  have h' := key a b c d ⟨level.toNat, h⟩
  rw [← hl] at h'
  simp only [Leaf.unpack, Leaf.pack, Leaf.mk.injEq, true_and] at h' ⊢
  exact h'

/-- What one descriptor of the walk says. -/
inductive WalkStep where
  | fault (fsc : BitVec 8)
  | leaf (leaf : Leaf)
  | table (base : BitVec 64) (perms : TablePerms)
  deriving DecidableEq

/-- `shift` at `level` (line 160): `39 - level * 9` in `u32`. -/
def levelShift (level : BitVec 32) : ℕ := (39 - level * 9).toNat % 64

/-- The address of the descriptor that `walk` reads (lines 160–162). -/
def descAddr (level : BitVec 32) (tableBase va : BitVec 64) : BitVec 64 :=
  tableBase + ((va >>> levelShift level) &&& 0x1ff) * 8

/-- The loop body of `walk` after the descriptor is read (lines 164–198). -/
def walkStep (level : BitVec 32) (desc va : BitVec 64) (tp : TablePerms) : WalkStep :=
  if desc &&& 1 == 0 then .fault (fscTranslation ||| level.setWidth 8)
  else if level == 3 || desc &&& 0b10 == 0 then
    if desc &&& (1 <<< 10) == 0 then .fault (fscAccessFlag ||| level.setWidth 8)
    else
      let blockMask : BitVec 64 := (1 <<< levelShift level) - 1
      let pa := (desc &&& oaMask &&& ~~~blockMask) ||| (va &&& blockMask)
      .leaf {
        paPage := pa &&& ~~~pageMask
        el0Access := (desc &&& (1 <<< 6) != 0) && !tp.noEl0
        readOnly := (desc &&& (1 <<< 7) != 0) || tp.noWrite
        uxn := (desc &&& (1 <<< 54) != 0) || tp.uxn
        pxn := (desc &&& (1 <<< 53) != 0) || tp.pxn
        level := level.setWidth 8 }
  else
    let apTable := (desc >>> 61) &&& 0b11
    .table (desc &&& oaMask) {
      noEl0 := tp.noEl0 || (apTable &&& 0b01 != 0)
      noWrite := tp.noWrite || (apTable &&& 0b10 != 0)
      uxn := tp.uxn || (desc &&& (1 <<< 60) != 0)
      pxn := tp.pxn || (desc &&& (1 <<< 59) != 0) }

/-- The level with `left` levels still below it. -/
def levelOf (left : ℕ) : BitVec 32 := 3 - BitVec.ofNat 32 left

/-- The `loop` of `walk`, from the level that has `left` below it. At level 3
    every valid descriptor is a leaf, so `.table` ends there. -/
def walkLoop {M : Type} [GuestMem M] (va : BitVec 64) :
    ℕ → M → BitVec 64 → TablePerms → Except (BitVec 8) Leaf × M
  | left, mem, tableBase, tp =>
    let r := GuestMem.readU64 mem (descAddr (levelOf left) tableBase va)
    match walkStep (levelOf left) r.1 va tp with
    | .fault fsc => (.error fsc, r.2)
    | .leaf l => (.ok l, r.2)
    | .table base tp =>
      match left with
      | 0 => (.error 0, r.2)
      | left + 1 => walkLoop va left r.2 base tp

/-- `u32::div_ceil`. -/
def divCeil (a b : BitVec 32) : BitVec 32 := a / b + if a % b > 0 then 1 else 0

/-- `starting_level` (lines 237–241). -/
def startingLevel (tsz : BitVec 32) : BitVec 32 :=
  let vaBits := 64 - tsz
  let levels := divCeil (vaBits - 12) 9
  4 - levels

/-- `walk` (lines 156–199). -/
def walk {M : Type} [GuestMem M] (mem : M) (tableBase va : BitVec 64) (tsz : BitVec 32) :
    Except (BitVec 8) Leaf × M :=
  walkLoop va (3 - startingLevel tsz).toNat mem tableBase TablePerms.default

/-- `check_perms` (lines 203–234): `true` is `Ok(())`. -/
def checkPerms (el : Fin 4) (leaf : Leaf) (access : Access) : Bool :=
  let el0 := el == 0
  match access with
  | .read => !(el0 && !leaf.el0Access)
  | .write => !(el0 && !leaf.el0Access) && !leaf.readOnly
  | .exec => if el0 then !leaf.uxn else !leaf.pxn

/-- The answer for a resolved leaf, on a hit (lines 70–74) and on a miss (lines 98–101). -/
def leafResult (el : Fin 4) (leaf : Leaf) (va : BitVec 64) (access : Access) :
    Except (BitVec 8) (BitVec 64) :=
  if checkPerms el leaf access then .ok (leaf.paPage ||| (va &&& pageMask))
  else .error (fscPermission ||| leaf.level)

/-- The table root and region size of `translate_miss` (lines 91–95). -/
def region (cpu : CpuState) (va : BitVec 64) : BitVec 64 × BitVec 32 :=
  if (va >>> 55) &&& 1 == 1 then
    (cpu.ttbr1El1 &&& oaMask, ((cpu.tcrEl1 >>> 16) &&& 0x3f).setWidth 32)
  else (cpu.ttbr0El1 &&& oaMask, (cpu.tcrEl1 &&& 0x3f).setWidth 32)

variable {M : Type} [GuestMem M]

/-- `translate_miss` (lines 82–101). -/
def translateMiss (g : Guest M) (va : BitVec 64) (access : Access) (el : Fin 4) :
    Except (BitVec 8) (BitVec 64) × Guest M :=
  let (base, tsz) := region g.cpu va
  match walk g.mem base va tsz with
  | (.error fsc, mem) => (.error fsc, { g with mem := mem })
  | (.ok leaf, mem) =>
    let tlb := g.cpu.tlb.insert (pageOf va) leaf.paPage leaf.pack
    (leafResult el leaf va access, ⟨{ g.cpu with tlb := tlb }, mem⟩)

/-- `translate` (lines 50–74). -/
def translate (g : Guest M) (va : BitVec 64) (access : Access) (el : Fin 4) :
    Except (BitVec 8) (BitVec 64) × Guest M :=
  if !mmuEnabled g.cpu then (.ok va, g)
  else
    match g.cpu.tlb.lookup (pageOf va) with
    | some (paPage, perms) => (leafResult el (Leaf.unpack paPage perms) va access, g)
    | none => translateMiss g va access el

/-! ## The three paths -/

theorem translate_of_off {g : Guest M} (h : mmuEnabled g.cpu = false) (va : BitVec 64)
    (access : Access) (el : Fin 4) : translate g va access el = (.ok va, g) := by
  simp [translate, h]

theorem translate_of_hit {g : Guest M} (h : mmuEnabled g.cpu = true) {va pa : BitVec 64}
    {perms : BitVec 8} (hit : g.cpu.tlb.lookup (pageOf va) = some (pa, perms)) (access : Access)
    (el : Fin 4) :
    translate g va access el = (leafResult el (Leaf.unpack pa perms) va access, g) := by
  simp [translate, h, hit]

theorem translate_of_miss {g : Guest M} (h : mmuEnabled g.cpu = true) {va : BitVec 64}
    (miss : g.cpu.tlb.lookup (pageOf va) = none) (access : Access) (el : Fin 4) :
    translate g va access el = translateMiss g va access el := by
  simp [translate, h, miss]

/-- A translation changes the TLB and nothing else of the CPU. -/
theorem translate_cpu (g : Guest M) (va : BitVec 64) (access : Access) (el : Fin 4) :
    ∃ tlb, (translate g va access el).2.cpu = { g.cpu with tlb := tlb } := by
  unfold translate
  split_ifs
  · exact ⟨_, rfl⟩
  · split
    · exact ⟨_, rfl⟩
    · unfold translateMiss
      dsimp only
      split <;> exact ⟨_, rfl⟩

end V64.Interp
