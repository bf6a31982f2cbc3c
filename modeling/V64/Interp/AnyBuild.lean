import V64.Interp.ByteAccess
import V64.Interp.WalkBounds
import V64.Lib.Checked

/-!
# Accesses in any build

`crates/interp/src/mem_access.rs` and the translation it calls, with the unsigned
arithmetic of a build: where that overflows, a build with overflow checks panics. The
definitions of the other modules are these without the checks.

* `walk_iff`, `xlate_iff`: the translation, where the walk's arithmetic fits.
* `gather_iff`, `scatter_iff`, `readAt_iff`, `writeAt_iff`: the accesses, where theirs does.
* `access_byteExact_iff`: an access is byte-exact where nothing overflows, and only there.
* `not_access_byteExact`: with overflow checks, a vector at the last page panics.
-/

namespace V64.Interp

open Checked V64.Cpu V64.Platform

namespace AnyBuild

variable (t : Target) {M : Type} [GuestMem M]

/-! ## The walk -/

/-- `starting_level` (lines 237–241 of `mmu.rs`). -/
def startingLevel (tsz : BitVec 32) : Option (BitVec 32) := do
  let vaBits ← t.sub 64 tsz
  let width ← t.sub vaBits 12
  t.sub 4 (divCeil width 9)

/-- `shift` (line 160 of `mmu.rs`). -/
def levelShift (level : BitVec 32) : Option (BitVec 32) := do
  let bits ← t.mul level 9
  t.sub 39 bits

/-- The `loop` of `walk` (lines 159–198 of `mmu.rs`). A shift that does not wrap is less than
    64, and `table_base + idx * 8` does not overflow: a table's address has 48 bits. -/
def walkLoop (va : BitVec 64) :
    ℕ → M → BitVec 64 → TablePerms → Option (Except (BitVec 8) Leaf × M)
  | left, mem, tableBase, tp => do
    let _ ← levelShift t (levelOf left)
    let r := GuestMem.readU64 mem (descAddr (levelOf left) tableBase va)
    match walkStep (levelOf left) r.1 va tp with
    | .fault fsc => return (.error fsc, r.2)
    | .leaf l => return (.ok l, r.2)
    | .table base tp =>
      match left with
      | 0 => return (.error 0, r.2)
      | left + 1 => walkLoop va left r.2 base tp

/-- `walk` (lines 156–199 of `mmu.rs`). -/
def walk (mem : M) (tableBase va : BitVec 64) (tsz : BitVec 32) :
    Option (Except (BitVec 8) Leaf × M) := do
  let level ← startingLevel t tsz
  walkLoop t va (3 - level).toNat mem tableBase TablePerms.default

/-- `translate_miss` (lines 82–101 of `mmu.rs`). -/
def translateMiss (g : Guest M) (va : BitVec 64) (access : Access) (el : Fin 4) :
    Option (Except (BitVec 8) (BitVec 64) × Guest M) := do
  let r ← walk t g.mem (region g.cpu va).1 va (region g.cpu va).2
  match r with
  | (.error fsc, mem) => return (.error fsc, { g with mem := mem })
  | (.ok leaf, mem) =>
    let tlb := g.cpu.tlb.insert (pageOf va) leaf.paPage leaf.pack
    return (leafResult el leaf va access, ⟨{ g.cpu with tlb := tlb }, mem⟩)

/-- `translate` (lines 50–74 of `mmu.rs`). -/
def translate (g : Guest M) (va : BitVec 64) (access : Access) (el : Fin 4) :
    Option (Except (BitVec 8) (BitVec 64) × Guest M) :=
  if !mmuEnabled g.cpu then some (.ok va, g)
  else
    match g.cpu.tlb.lookup (pageOf va) with
    | some (paPage, perms) => some (leafResult el (Leaf.unpack paPage perms) va access, g)
    | none => translateMiss t g va access el

/-- `xlate` (lines 24–33). -/
def xlate (g : Guest M) (va : BitVec 64) (write : Bool) (el : Fin 4) :
    Option (Option (BitVec 64) × Guest M) := do
  let access := if write then Access.write else Access.read
  let r ← translate t g va access el
  match r with
  | (.ok pa, g) => return (some pa, g)
  | (.error fsc, g) => return (none, g.abort { far := va, write := write, fsc := fsc })

/-! ## The accesses -/

/-- `chunk` (lines 49, 50, 66 and 67). -/
def chunkLen (cur : BitVec 64) (done n : ℕ) : Option ℕ := do
  let pageEnd ← t.add (cur &&& ~~~0xfff) 0x1000
  let left ← t.sub pageEnd cur
  return min (n - done) left.toNat

/-- The inner loop of `gather`. -/
def gatherChunk (pa : BitVec 64) (done : ℕ) :
    (chunk : ℕ) → BitVec 128 → M → Option (BitVec 128 × M)
  | 0, val, mem => some (val, mem)
  | i + 1, val, mem => do
    let (val, mem) ← gatherChunk pa done i val mem
    let addr ← t.add pa (BitVec.ofNat 64 i)
    let (byte, mem) := GuestMem.readU8 mem addr
    return (val ||| (byte.setWidth 128 <<< ((done + i) * 8)), mem)

/-- The outer loop of `gather`. -/
def gatherLoop (va : BitVec 64) (n : ℕ) (el : Fin 4) :
    (fuel : ℕ) → (val : BitVec 128) → (done : ℕ) → Guest M → Option (BitVec 128 × Guest M)
  | 0, val, _, g => some (val, g)
  | fuel + 1, val, done, g =>
    if done < n then do
      let cur ← t.add va (BitVec.ofNat 64 done)
      let chunk ← chunkLen t cur done n
      match ← xlate t g cur false el with
      | (none, g) => return (0, g)
      | (some pa, g) =>
        let (val, mem) ← gatherChunk t pa done chunk val g.mem
        gatherLoop va n el fuel val (done + chunk) { g with mem := mem }
    else some (val, g)

/-- `gather` (lines 44–58). -/
def gather (g : Guest M) (va : BitVec 64) (n : ℕ) (el : Fin 4) :
    Option (BitVec 128 × Guest M) := gatherLoop t va n el n 0 0 g

/-- The inner loop of `scatter`. -/
def scatterChunk (pa : BitVec 64) (done : ℕ) (val : BitVec 128) : (chunk : ℕ) → M → Option M
  | 0, mem => some mem
  | i + 1, mem => do
    let mem ← scatterChunk pa done val i mem
    let addr ← t.add pa (BitVec.ofNat 64 i)
    return GuestMem.writeU8 mem addr ((val >>> ((done + i) * 8)).setWidth 8)

/-- The outer loop of `scatter`. -/
def scatterLoop (va : BitVec 64) (n : ℕ) (val : BitVec 128) (el : Fin 4) :
    (fuel : ℕ) → (done : ℕ) → Guest M → Option (Guest M)
  | 0, _, g => some g
  | fuel + 1, done, g =>
    if done < n then do
      let cur ← t.add va (BitVec.ofNat 64 done)
      let chunk ← chunkLen t cur done n
      match ← xlate t g cur true el with
      | (none, g) => return g
      | (some pa, g) =>
        let mem ← scatterChunk t pa done val chunk g.mem
        scatterLoop va n val el fuel (done + chunk) { g with mem := mem }
    else some g

/-- `scatter` (lines 62–74). -/
def scatter (g : Guest M) (va : BitVec 64) (n : ℕ) (val : BitVec 128) (el : Fin 4) :
    Option (Guest M) := scatterLoop t va n val el n 0 g

/-- `read_at` (lines 77–90). -/
def readAt (g : Guest M) (va : BitVec 64) (size : ℕ) (el : Fin 4) :
    Option (BitVec 64 × Guest M) :=
  let n := 1 <<< size
  if inOnePage va n then do
    match ← xlate t g va false el with
    | (none, g) => return (0, g)
    | (some pa, g) =>
      let (val, mem) := readSized g.mem pa size
      return (val, { g with mem := mem })
  else do
    let (val, g) ← gather t g va n el
    return (val.setWidth 64, g)

/-- `write_at` (lines 93–106). -/
def writeAt (g : Guest M) (va : BitVec 64) (size : ℕ) (val : BitVec 64) (el : Fin 4) :
    Option (Guest M) :=
  let n := 1 <<< size
  if inOnePage va n then do
    match ← xlate t g va true el with
    | (none, g) => return g
    | (some pa, g) => return { g with mem := writeSized g.mem pa size val }
  else scatter t g va n (val.setWidth 128) el

end AnyBuild

/-! ## Where the arithmetic fits -/

/-- The arithmetic of a walk fits: of its starting level and of the shifts at the levels
    that it reaches. -/
def WalkFits {M : Type} [GuestMem M] (mem : M) (tableBase va : BitVec 64) (tsz : BitVec 32) :
    Prop :=
  StartOk tsz ∧ ∀ level ∈ walkLevels va (3 - startingLevel tsz).toNat mem tableBase
    TablePerms.default, ShiftOk level

variable {M : Type} [GuestMem M]

/-- The arithmetic of a translation fits: of the walk, where there is one. -/
def TranslateFits (g : Guest M) (va : BitVec 64) : Prop :=
  mmuEnabled g.cpu = true → g.cpu.tlb.lookup (pageOf va) = none →
    WalkFits g.mem (region g.cpu va).1 va (region g.cpu va).2

/-- The chunks of an access fit, as far as it gets: each starts and its page ends below
    `2 ^ 64`, and its translation fits. `move` is what is done to memory for a chunk. -/
def ChunksFit (va : BitVec 64) (n : ℕ) (write : Bool) (el : Fin 4)
    (move : BitVec 64 → ℕ → ℕ → M → M) : (fuel : ℕ) → (done : ℕ) → Guest M → Prop
  | 0, _, _ => True
  | fuel + 1, done, g =>
    let cur := va + BitVec.ofNat 64 done
    let chunk := chunkLen cur done n
    done < n → va.toNat + done < 2 ^ 64 ∧ (pageOf cur).toNat + 4096 < 2 ^ 64 ∧
      TranslateFits g cur ∧ ∀ pa g1, xlate g cur write el = (some pa, g1) →
        ChunksFit va n write el move fuel (done + chunk)
          { g1 with mem := move pa done chunk g1.mem }

/-- A read of `n` bytes in chunks fits. -/
def GatherFits (g : Guest M) (va : BitVec 64) (n : ℕ) (el : Fin 4) : Prop :=
  ChunksFit va n false el (fun pa done chunk mem => (gatherChunk pa done chunk 0 mem).2) n 0 g

/-- A write of `n` bytes in chunks fits. -/
def ScatterFits (g : Guest M) (va : BitVec 64) (n : ℕ) (val : BitVec 128) (el : Fin 4) : Prop :=
  ChunksFit va n true el (fun pa done chunk mem => scatterChunk pa done val chunk mem) n 0 g

namespace AnyBuild

variable {t : Target}

/-! ## The translation -/

theorem startingLevel_iff {tsz level : BitVec 32} : startingLevel t tsz = some level ↔
    (t.overflowChecks = true → StartOk tsz) ∧ Interp.startingLevel tsz = level := by
  unfold startingLevel StartOk Interp.startingLevel
  simp only [Option.bind_eq_bind, bind_value_iff fun _ => Target.sub_iff, Target.sub_iff,
    BitVec.le_def]
  constructor
  · rintro ⟨h64, h12, h4, rfl⟩
    exact ⟨fun hchecks => ⟨h64 hchecks, h12 hchecks, h4 hchecks⟩, rfl⟩
  · rintro ⟨h, rfl⟩
    exact ⟨fun hchecks => (h hchecks).1, fun hchecks => (h hchecks).2.1,
      fun hchecks => (h hchecks).2.2, rfl⟩

theorem levelShift_iff {level shift : BitVec 32} : levelShift t level = some shift ↔
    (t.overflowChecks = true → ShiftOk level) ∧ 39 - level * 9 = shift := by
  unfold levelShift ShiftOk Interp.levelShift
  simp only [Option.bind_eq_bind, bind_value_iff fun _ => Target.mul_iff, Target.sub_iff]
  have h9 : (9 : BitVec 32).toNat = 9 := rfl
  have h39 : (39 : BitVec 32).toNat = 39 := rfl
  have hmul : (level * 9).toNat = level.toNat * 9 % 2 ^ 32 := BitVec.toNat_mul _ _
  rw [h9, h39, hmul]
  constructor
  · rintro ⟨hmul32, hle, rfl⟩
    refine ⟨fun hchecks => ?_, rfl⟩
    have hlt := hmul32 hchecks
    have hle39 := hle hchecks
    rw [Nat.mod_eq_of_lt hlt] at hle39
    refine ⟨hle39, ?_⟩
    rw [BitVec.toNat_sub, h39, hmul]
    omega
  · rintro ⟨h, rfl⟩
    refine ⟨fun hchecks => ?_, fun hchecks => ?_, rfl⟩
    · have hle39 := (h hchecks).1
      omega
    · have hle39 := (h hchecks).1
      rw [Nat.mod_eq_of_lt (by omega)]
      exact hle39

theorem walkLoop_iff {va : BitVec 64} {left : ℕ} {mem : M} {tableBase : BitVec 64}
    {tp : TablePerms} {r : Except (BitVec 8) Leaf × M} :
    walkLoop t va left mem tableBase tp = some r ↔
      (t.overflowChecks = true → ∀ level ∈ walkLevels va left mem tableBase tp, ShiftOk level) ∧
        Interp.walkLoop va left mem tableBase tp = r := by
  have hhead : ∀ {level : BitVec 32} {levels : List (BitVec 32)},
      (t.overflowChecks = true → ∀ l ∈ level :: levels, ShiftOk l) ↔
        (t.overflowChecks = true → ShiftOk level) ∧
          (t.overflowChecks = true → ∀ l ∈ levels, ShiftOk l) := by
    intro level levels
    rw [← imp_and, List.forall_mem_cons]
  have hnone : (t.overflowChecks = true → ∀ l ∈ ([] : List (BitVec 32)), ShiftOk l) :=
    fun _ _ h => nomatch h
  induction left generalizing mem tableBase tp r with
  | zero =>
    unfold walkLoop walkLevels Interp.walkLoop
    simp only [Option.bind_eq_bind, bind_value_iff fun _ => levelShift_iff, hhead, and_assoc]
    refine and_congr_right fun _ => ?_
    cases walkStep (levelOf 0) _ va tp with
    | fault fsc =>
      rw [and_iff_right hnone]
      exact Option.some_inj
    | leaf l =>
      rw [and_iff_right hnone]
      exact Option.some_inj
    | table base tp' =>
      rw [and_iff_right hnone]
      exact Option.some_inj
  | succ left ih =>
    unfold walkLoop walkLevels Interp.walkLoop
    simp only [Option.bind_eq_bind, bind_value_iff fun _ => levelShift_iff, hhead, and_assoc]
    refine and_congr_right fun _ => ?_
    cases walkStep (levelOf (left + 1)) _ va tp with
    | fault fsc =>
      rw [and_iff_right hnone]
      exact Option.some_inj
    | leaf l =>
      rw [and_iff_right hnone]
      exact Option.some_inj
    | table base tp' => exact ih

theorem walk_iff {mem : M} {tableBase va : BitVec 64} {tsz : BitVec 32}
    {r : Except (BitVec 8) Leaf × M} :
    walk t mem tableBase va tsz = some r ↔
      (t.overflowChecks = true → WalkFits mem tableBase va tsz) ∧
        Interp.walk mem tableBase va tsz = r := by
  unfold walk WalkFits Interp.walk
  simp only [Option.bind_eq_bind, bind_value_iff fun _ => startingLevel_iff, walkLoop_iff,
    imp_and, and_assoc]

theorem translateMiss_iff {g : Guest M} {va : BitVec 64} {access : Access} {el : Fin 4}
    {r : Except (BitVec 8) (BitVec 64) × Guest M} :
    translateMiss t g va access el = some r ↔
      (t.overflowChecks = true → WalkFits g.mem (region g.cpu va).1 va (region g.cpu va).2) ∧
        Interp.translateMiss g va access el = r := by
  unfold translateMiss Interp.translateMiss
  rw [Option.bind_eq_bind, bind_value_iff fun _ => walk_iff]
  refine and_congr_right fun _ => ?_
  dsimp only
  generalize Interp.walk g.mem (region g.cpu va).1 va (region g.cpu va).2 = walked
  obtain ⟨res, mem⟩ := walked
  cases res with
  | error fsc => exact Option.some_inj
  | ok leaf => exact Option.some_inj

theorem translate_iff {g : Guest M} {va : BitVec 64} {access : Access} {el : Fin 4}
    {r : Except (BitVec 8) (BitVec 64) × Guest M} :
    translate t g va access el = some r ↔
      (t.overflowChecks = true → TranslateFits g va) ∧ Interp.translate g va access el = r := by
  cases hmmu : mmuEnabled g.cpu with
  | false =>
    have hfits : TranslateFits g va := fun h => absurd (hmmu.symm.trans h) Bool.false_ne_true
    unfold translate
    rw [hmmu, translate_of_off hmmu, and_iff_right fun _ => hfits]
    exact Option.some_inj
  | true =>
    cases hlookup : g.cpu.tlb.lookup (pageOf va) with
    | some entry =>
      obtain ⟨paPage, perms⟩ := entry
      have hfits : TranslateFits g va := fun _ h => nomatch hlookup.symm.trans h
      unfold translate
      rw [hmmu, hlookup, translate_of_hit hmmu hlookup, and_iff_right fun _ => hfits]
      exact Option.some_inj
    | none =>
      have hfits : TranslateFits g va ↔
          WalkFits g.mem (region g.cpu va).1 va (region g.cpu va).2 :=
        ⟨fun h => h hmmu hlookup, fun h _ _ => h⟩
      unfold translate
      rw [hmmu, hlookup, translate_of_miss hmmu hlookup, hfits]
      exact translateMiss_iff

theorem xlate_iff {g : Guest M} {va : BitVec 64} {write : Bool} {el : Fin 4}
    {r : Option (BitVec 64) × Guest M} :
    xlate t g va write el = some r ↔
      (t.overflowChecks = true → TranslateFits g va) ∧ Interp.xlate g va write el = r := by
  unfold xlate Interp.xlate
  dsimp only
  rw [Option.bind_eq_bind, bind_value_iff fun _ => translate_iff]
  refine and_congr_right fun _ => ?_
  generalize Interp.translate g va (if write then .write else .read) el = translated
  obtain ⟨res, g1⟩ := translated
  cases res with
  | error fsc => exact Option.some_inj
  | ok pa => exact Option.some_inj

/-! ## The loops -/

/-- The end of a page never precedes an address in it. -/
theorem chunkLen_iff {cur : BitVec 64} {done n chunk : ℕ} :
    chunkLen t cur done n = some chunk ↔
      (t.overflowChecks = true → (pageOf cur).toNat + 4096 < 2 ^ 64) ∧
        Interp.chunkLen cur done n = chunk := by
  have hpage : cur &&& ~~~0xfff = pageOf cur := rfl
  have hsize : (0x1000 : BitVec 64).toNat = 4096 := rfl
  unfold chunkLen Interp.chunkLen
  simp only [Option.bind_eq_bind, bind_value_iff fun _ => Target.add_iff,
    bind_value_iff fun _ => Target.sub_iff, hpage, hsize]
  refine and_congr_right fun hend => ?_
  rw [and_iff_right fun hchecks => ?_]
  · exact Option.some_inj
  · have hnat := toNat_pageOf cur
    have hlt := hend hchecks
    rw [BitVec.toNat_add, hsize, Nat.mod_eq_of_lt hlt]
    omega

/-- The bytes of a frame have addresses below `2 ^ 64`. -/
theorem addr_of_chunk {pa : BitVec 64} {i chunk : ℕ} (h : pa.toNat + chunk ≤ 2 ^ 64)
    (hi : i < chunk) : t.add pa (BitVec.ofNat 64 i) = some (pa + BitVec.ofNat 64 i) := by
  refine Target.add_of_lt ?_
  rw [BitVec.toNat_ofNat, Nat.mod_eq_of_lt (by omega)]
  omega

theorem gatherChunk_eq {pa : BitVec 64} {done chunk : ℕ} (h : pa.toNat + chunk ≤ 2 ^ 64)
    (val : BitVec 128) (mem : M) :
    gatherChunk t pa done chunk val mem = some (Interp.gatherChunk pa done chunk val mem) := by
  induction chunk with
  | zero => rfl
  | succ i ih =>
    rw [gatherChunk, ih (by omega), Option.bind_eq_bind, Option.bind_some]
    dsimp only
    rw [addr_of_chunk h (Nat.lt_succ_self i)]
    rfl

theorem scatterChunk_eq {pa : BitVec 64} {done chunk : ℕ} (h : pa.toNat + chunk ≤ 2 ^ 64)
    (val : BitVec 128) (mem : M) :
    scatterChunk t pa done val chunk mem = some (Interp.scatterChunk pa done val chunk mem) := by
  induction chunk with
  | zero => rfl
  | succ i ih =>
    rw [scatterChunk, ih (by omega), Option.bind_eq_bind, Option.bind_some,
      addr_of_chunk h (Nat.lt_succ_self i)]
    rfl

/-- What a chunk's reads do to memory does not depend on the bytes before. -/
theorem gatherChunk_mem (pa : BitVec 64) (done chunk : ℕ) (val : BitVec 128) (mem : M) :
    (Interp.gatherChunk pa done chunk val mem).2 = (Interp.gatherChunk pa done chunk 0 mem).2 := by
  induction chunk with
  | zero => rfl
  | succ i ih =>
    unfold Interp.gatherChunk
    dsimp only
    rw [ih]

/-- A chunk ends with its page. -/
theorem frame_of_xlate {g g1 : Guest M} {cur pa : BitVec 64} {write : Bool} {el : Fin 4}
    (halign : g.cpu.tlb.PagesAligned) (hx : Interp.xlate g cur write el = (some pa, g1))
    (done n : ℕ) : pa.toNat + Interp.chunkLen cur done n ≤ 2 ^ 64 := by
  have hoff := offset_of_translate halign (xlate_eq_some.mp hx)
  have hpa := pa.isLt
  rw [chunkLen_eq, toNat_pageOffset]
  omega

theorem gatherLoop_iff {va : BitVec 64} {n : ℕ} (hn : n < 2 ^ 64) {el : Fin 4} {fuel done : ℕ}
    {val : BitVec 128} {g : Guest M} (halign : g.cpu.tlb.PagesAligned) {r : BitVec 128 × Guest M} :
    gatherLoop t va n el fuel val done g = some r ↔
      (t.overflowChecks = true → ChunksFit va n false el
        (fun pa done chunk mem => (Interp.gatherChunk pa done chunk 0 mem).2) fuel done g) ∧
        Interp.gatherLoop va n el fuel val done g = r := by
  induction fuel generalizing val done g r with
  | zero =>
    unfold gatherLoop ChunksFit Interp.gatherLoop
    rw [and_iff_right fun _ => trivial]
    exact Option.some_inj
  | succ fuel ih =>
    unfold gatherLoop ChunksFit Interp.gatherLoop
    dsimp only
    split_ifs with hlt
    · have hdone : (BitVec.ofNat 64 done).toNat = done := by
        rw [BitVec.toNat_ofNat]
        exact Nat.mod_eq_of_lt (Nat.lt_trans hlt hn)
      simp only [Option.bind_eq_bind, bind_value_iff fun _ => Target.add_iff,
        bind_value_iff fun _ => chunkLen_iff, bind_value_iff fun _ => xlate_iff, hdone, hlt,
        true_imp_iff, imp_and, and_assoc]
      refine and_congr_right fun _ => and_congr_right fun _ => and_congr_right fun _ => ?_
      have haligned := pagesAligned_xlate halign (va + BitVec.ofNat 64 done) false el
      have hframe : ∀ pa g1, Interp.xlate g (va + BitVec.ofNat 64 done) false el = (some pa, g1) →
          pa.toNat + Interp.chunkLen (va + BitVec.ofNat 64 done) done n ≤ 2 ^ 64 :=
        fun pa g1 hx => frame_of_xlate halign hx done n
      generalize Interp.xlate g (va + BitVec.ofNat 64 done) false el = x at haligned hframe ⊢
      obtain ⟨pa?, g1⟩ := x
      cases pa? with
      | none =>
        rw [and_iff_right fun _ _ _ h => nomatch h]
        exact Option.some_inj
      | some pa =>
        have hchunk := hframe pa g1 rfl
        dsimp only
        rw [gatherChunk_eq hchunk, Option.bind_some]
        refine Iff.trans (ih ?_) ?_
        · exact haligned
        · rw [gatherChunk_mem]
          refine and_congr_left fun _ => imp_congr_right fun _ => ?_
          exact ⟨fun h _ _ hsame => by cases hsame; exact h, fun h => h pa g1 rfl⟩
    · rw [and_iff_right fun _ h => absurd h hlt]
      exact Option.some_inj

theorem gather_iff {g : Guest M} {va : BitVec 64} {n : ℕ} (hn : n < 2 ^ 64) {el : Fin 4}
    (halign : g.cpu.tlb.PagesAligned) {r : BitVec 128 × Guest M} :
    gather t g va n el = some r ↔
      (t.overflowChecks = true → GatherFits g va n el) ∧ Interp.gather g va n el = r :=
  gatherLoop_iff hn halign

theorem scatterLoop_iff {va : BitVec 64} {n : ℕ} (hn : n < 2 ^ 64) {val : BitVec 128} {el : Fin 4}
    {fuel done : ℕ} {g : Guest M} (halign : g.cpu.tlb.PagesAligned) {r : Guest M} :
    scatterLoop t va n val el fuel done g = some r ↔
      (t.overflowChecks = true → ChunksFit va n true el
        (fun pa done chunk mem => Interp.scatterChunk pa done val chunk mem) fuel done g) ∧
        Interp.scatterLoop va n val el fuel done g = r := by
  induction fuel generalizing done g r with
  | zero =>
    unfold scatterLoop ChunksFit Interp.scatterLoop
    rw [and_iff_right fun _ => trivial]
    exact Option.some_inj
  | succ fuel ih =>
    unfold scatterLoop ChunksFit Interp.scatterLoop
    dsimp only
    split_ifs with hlt
    · have hdone : (BitVec.ofNat 64 done).toNat = done := by
        rw [BitVec.toNat_ofNat]
        exact Nat.mod_eq_of_lt (Nat.lt_trans hlt hn)
      simp only [Option.bind_eq_bind, bind_value_iff fun _ => Target.add_iff,
        bind_value_iff fun _ => chunkLen_iff, bind_value_iff fun _ => xlate_iff, hdone, hlt,
        true_imp_iff, imp_and, and_assoc]
      refine and_congr_right fun _ => and_congr_right fun _ => and_congr_right fun _ => ?_
      have haligned := pagesAligned_xlate halign (va + BitVec.ofNat 64 done) true el
      have hframe : ∀ pa g1, Interp.xlate g (va + BitVec.ofNat 64 done) true el = (some pa, g1) →
          pa.toNat + Interp.chunkLen (va + BitVec.ofNat 64 done) done n ≤ 2 ^ 64 :=
        fun pa g1 hx => frame_of_xlate halign hx done n
      generalize Interp.xlate g (va + BitVec.ofNat 64 done) true el = x at haligned hframe ⊢
      obtain ⟨pa?, g1⟩ := x
      cases pa? with
      | none =>
        rw [and_iff_right fun _ _ _ h => nomatch h]
        exact Option.some_inj
      | some pa =>
        have hchunk := hframe pa g1 rfl
        dsimp only
        rw [scatterChunk_eq hchunk, Option.bind_some]
        refine Iff.trans (ih ?_) ?_
        · exact haligned
        · refine and_congr_left fun _ => imp_congr_right fun _ => ?_
          exact ⟨fun h _ _ hsame => by cases hsame; exact h, fun h => h pa g1 rfl⟩
    · rw [and_iff_right fun _ h => absurd h hlt]
      exact Option.some_inj

theorem scatter_iff {g : Guest M} {va : BitVec 64} {n : ℕ} (hn : n < 2 ^ 64) {val : BitVec 128}
    {el : Fin 4} (halign : g.cpu.tlb.PagesAligned) {r : Guest M} :
    scatter t g va n val el = some r ↔
      (t.overflowChecks = true → ScatterFits g va n val el) ∧ Interp.scatter g va n val el = r :=
  scatterLoop_iff hn halign

end AnyBuild

/-- A sized read fits: the translation of its page, or its chunks. -/
def ReadFits (g : Guest M) (va : BitVec 64) (size : ℕ) (el : Fin 4) : Prop :=
  if inOnePage va (1 <<< size) then TranslateFits g va else GatherFits g va (1 <<< size) el

/-- A sized write fits. -/
def WriteFits (g : Guest M) (va : BitVec 64) (size : ℕ) (val : BitVec 64) (el : Fin 4) : Prop :=
  if inOnePage va (1 <<< size) then TranslateFits g va
  else ScatterFits g va (1 <<< size) (val.setWidth 128) el

namespace AnyBuild

variable {t : Target}

theorem shiftLeft_lt {size : ℕ} (h : size ≤ 4) : 1 <<< size < 2 ^ 64 := by
  rw [Nat.one_shiftLeft]
  exact Nat.pow_lt_pow_right (by decide) (by omega)

theorem readAt_iff {g : Guest M} {va : BitVec 64} {size : ℕ} (hsize : size ≤ 3) {el : Fin 4}
    (halign : g.cpu.tlb.PagesAligned) {r : BitVec 64 × Guest M} :
    readAt t g va size el = some r ↔
      (t.overflowChecks = true → ReadFits g va size el) ∧ Interp.readAt g va size el = r := by
  unfold readAt ReadFits Interp.readAt
  dsimp only
  split_ifs with hone
  · rw [Option.bind_eq_bind, bind_value_iff fun _ => xlate_iff]
    refine and_congr_right fun _ => ?_
    generalize Interp.xlate g va false el = x
    obtain ⟨pa?, g1⟩ := x
    cases pa? with
    | none => exact Option.some_inj
    | some pa => exact Option.some_inj
  · rw [Option.bind_eq_bind, bind_value_iff fun _ => gather_iff (shiftLeft_lt (by omega)) halign]
    exact and_congr_right fun _ => Option.some_inj

theorem writeAt_iff {g : Guest M} {va : BitVec 64} {size : ℕ} (hsize : size ≤ 3)
    {val : BitVec 64} {el : Fin 4} (halign : g.cpu.tlb.PagesAligned) {r : Guest M} :
    writeAt t g va size val el = some r ↔
      (t.overflowChecks = true → WriteFits g va size val el) ∧
        Interp.writeAt g va size val el = r := by
  unfold writeAt WriteFits Interp.writeAt
  dsimp only
  split_ifs with hone
  · rw [Option.bind_eq_bind, bind_value_iff fun _ => xlate_iff]
    refine and_congr_right fun _ => ?_
    generalize Interp.xlate g va true el = x
    obtain ⟨pa?, g1⟩ := x
    cases pa? with
    | none => exact Option.some_inj
    | some pa => exact Option.some_inj
  · exact scatter_iff (shiftLeft_lt (by omega)) halign

end AnyBuild

/-! ## The results -/

/-- An access that the executors make (lines 109–153), ordinary or unprivileged. -/
inductive DataAccess where
  | read (size : ℕ)
  | write (size : ℕ) (val : BitVec 64)
  | readVec (log2 : ℕ)
  | writeVec (log2 : ℕ) (val : BitVec 128)

namespace DataAccess

/-- A scalar has at most 8 bytes, a vector at most 16. -/
def SizeOk : DataAccess → Prop
  | read size | write size _ => size ≤ 3
  | readVec log2 | writeVec log2 _ => log2 ≤ 4

/-- The permission that the access needs. -/
def access : DataAccess → Access
  | read _ | readVec _ => .read
  | write _ _ | writeVec _ _ => .write

/-- The access at `va`: what it reads, and the guest after it. A panic is `none`. -/
def run (t : Target) (g : Guest M) (va : BitVec 64) (el : Fin 4) :
    DataAccess → Option (BitVec 128 × Guest M)
  | read size => (AnyBuild.readAt t g va size el).map fun r => (r.1.setWidth 128, r.2)
  | write size val => (AnyBuild.writeAt t g va size val el).map fun g => (0, g)
  | readVec log2 => AnyBuild.gather t g va (1 <<< log2) el
  | writeVec log2 val => (AnyBuild.scatter t g va (1 <<< log2) val el).map fun g => (0, g)

/-- The arithmetic of the access fits. -/
def Fits (g : Guest M) (va : BitVec 64) (el : Fin 4) : DataAccess → Prop
  | read size => ReadFits g va size el
  | write size val => WriteFits g va size val el
  | readVec log2 => GatherFits g va (1 <<< log2) el
  | writeVec log2 val => ScatterFits g va (1 <<< log2) val el

/-- The access as its bytes, each at the translation of its own address. -/
def byBytes (g : Guest M) (va : BitVec 64) (el : Fin 4) : DataAccess → BitVec 128 × Guest M
  | read size =>
    let r := loaded 64 (loadBytes va el (1 <<< size) g)
    (r.1.setWidth 128, r.2)
  | write size val => (0, (storeBytes va el (val.setWidth 128) (1 <<< size) g).2)
  | readVec log2 => loaded 128 (loadBytes va el (1 <<< log2) g)
  | writeVec log2 val => (0, (storeBytes va el val (1 <<< log2) g).2)

variable {D : Type} [MmioDevice D]

/-- Where the bytes fault, it is at the first that does not translate, with the bytes
    before it done and no more. -/
def FaultsFirst (g : Guest (Bus D)) (va : BitVec 64) (el : Fin 4) : DataAccess → Prop
  | read size => ∀ g', loadBytes va el (1 <<< size) g = (none, g') →
    FaultsAt (loadByte va el) va false el (1 <<< size) g g'
  | write size val => ∀ g', storeBytes va el (val.setWidth 128) (1 <<< size) g = (none, g') →
    FaultsAt (storeByte va el (val.setWidth 128)) va true el (1 <<< size) g g'
  | readVec log2 => ∀ g', loadBytes va el (1 <<< log2) g = (none, g') →
    FaultsAt (loadByte va el) va false el (1 <<< log2) g g'
  | writeVec log2 val => ∀ g', storeBytes va el val (1 <<< log2) g = (none, g') →
    FaultsAt (storeByte va el val) va true el (1 <<< log2) g g'

/-- The access at `va` is byte-exact: it is its bytes, each at the translation of its own
    address; a read that faults gives no value but 0, and a fault is at the first byte that
    does not translate. -/
structure ByteExact (t : Target) (a : DataAccess) (g : Guest (Bus D)) (va : BitVec 64)
    (el : Fin 4) : Prop where
  bytes : a.run t g va el = some (a.byBytes g va el)
  fault : a.FaultsFirst g va el

variable {t : Target} {a : DataAccess} {g : Guest (Bus D)} {va : BitVec 64} {el : Fin 4}

theorem run_iff (ha : a.SizeOk) (halign : g.cpu.tlb.PagesAligned) (hwf : g.mem.RamWf)
    (hframe : FrameInRam g va a.access el) {r : BitVec 128 × Guest (Bus D)} :
    a.run t g va el = some r ↔
      (t.overflowChecks = true → a.Fits g va el) ∧ a.byBytes g va el = r := by
  unfold run Fits byBytes
  cases a with
  | read size =>
    dsimp only
    rw [Option.map_eq_bind, bind_value_iff fun _ => AnyBuild.readAt_iff ha halign,
      readAt_eq halign hwf hframe ha]
    exact and_congr_right fun _ => Option.some_inj
  | write size val =>
    dsimp only
    rw [Option.map_eq_bind, bind_value_iff fun _ => AnyBuild.writeAt_iff ha halign,
      writeAt_eq halign hwf hframe ha]
    exact and_congr_right fun _ => Option.some_inj
  | readVec log2 =>
    dsimp only
    rw [AnyBuild.gather_iff (AnyBuild.shiftLeft_lt ha) halign, gather_eq halign]
  | writeVec log2 val =>
    dsimp only
    rw [Option.map_eq_bind,
      bind_value_iff fun _ => AnyBuild.scatter_iff (AnyBuild.shiftLeft_lt ha) halign,
      scatter_eq halign]
    exact and_congr_right fun _ => Option.some_inj

theorem faultsFirst (halign : g.cpu.tlb.PagesAligned) : a.FaultsFirst g va el := by
  unfold FaultsFirst
  cases a with
  | read size => exact fun _ h => faultsAt_of_none halign h
  | write size val => exact fun _ h => faultsAt_of_none halign h
  | readVec log2 => exact fun _ h => faultsAt_of_none halign h
  | writeVec log2 val => exact fun _ h => faultsAt_of_none halign h

/-! ## Away from the last page -/

theorem translateFits_of_regionOk {M : Type} [GuestMem M] {g : Guest M} {va : BitVec 64}
    (h : RegionOk g.cpu va) : TranslateFits g va := by
  intro _ _
  refine ⟨startOk_of_regionOk h, fun level hlevel => ?_⟩
  obtain ⟨k, hk, rfl⟩ := mem_walkLevels hlevel
  exact (levelOf_bounded (Nat.le_trans hk (left_of_regionOk h))).2

/-- An access below the last page fits, with regions that the walk knows. -/
theorem chunksFit_of_below {M : Type} [GuestMem M] {va : BitVec 64} {n : ℕ}
    (hend : va.toNat + n ≤ 2 ^ 64 - 4096) {write : Bool} {el : Fin 4}
    {move : BitVec 64 → ℕ → ℕ → M → M} {fuel done : ℕ} {g : Guest M}
    (hregion : ∀ va, RegionOk g.cpu va) : ChunksFit va n write el move fuel done g := by
  induction fuel generalizing done g with
  | zero => exact trivial
  | succ fuel ih =>
    intro hlt
    have hcur : (va + BitVec.ofNat 64 done).toNat = va.toNat + done := by
      rw [BitVec.toNat_add, BitVec.toNat_ofNat]
      omega
    have hpage := toNat_pageOf (va + BitVec.ofNat 64 done)
    refine ⟨by omega, by omega, translateFits_of_regionOk (hregion _), fun pa g1 hx => ih ?_⟩
    -- a translation leaves the regions
    have hregs := sameRegs_xlate g (va + BitVec.ofNat 64 done) write el
    rw [hx] at hregs
    obtain ⟨tlb, pendingAbort, hcpu⟩ := hregs
    have hg1 : g1.cpu = { g.cpu with tlb := tlb, pendingAbort := pendingAbort } := hcpu
    show ∀ va, RegionOk g1.cpu va
    rw [hg1]
    exact hregion

/-! ## In any build -/

/-- An access to a page in RAM is byte-exact, across pages and around the end of the
    address space too, where its arithmetic fits, or without overflow checks. -/
theorem access_byteExact_iff (ha : a.SizeOk) (halign : g.cpu.tlb.PagesAligned)
    (hwf : g.mem.RamWf) (hframe : FrameInRam g va a.access el) :
    ByteExact t a g va el ↔ (t.overflowChecks = true → a.Fits g va el) := by
  constructor
  · intro h
    exact ((run_iff ha halign hwf hframe).mp h.bytes).1
  · intro h
    exact ⟨(run_iff ha halign hwf hframe).mpr ⟨h, rfl⟩, faultsFirst halign⟩

/-- Four bytes over the end of the first page, the second of which is not mapped. -/
theorem access_byteExact_iff_crossing :
    ByteExact Target.debug64 (.read 2) pagedGuest 0xffe 1 := by
  have hempty : pagedGuest.cpu.tlb.IsEmpty := Tlb.isEmpty_flush _
  have hframe : FrameInRam pagedGuest 0xffe .read 1 := by
    have h : (translate pagedGuest 0xffe .read 1).1.toOption = some 0x1ffe := by decide +kernel
    intro pa hpa
    rw [hpa] at h
    obtain rfl : pa = 0x1ffe := Option.some.inj h
    decide
  have hwf : pagedGuest.mem.RamWf := show 0 + 0x3000 < 2 ^ 64 by decide
  have hregion : ∀ va, RegionOk pagedGuest.cpu va := by
    intro va
    unfold RegionOk region
    split_ifs <;> decide
  have hsize : (read 2).SizeOk := show 2 ≤ 3 by decide
  exact (access_byteExact_iff hsize hempty.pagesAligned hwf hframe).mpr fun _ =>
    chunksFit_of_below (by decide) hregion

/-- The last page of the address space, mapped to `0x1000`. -/
def lastPageGuest : Guest (Bus Empty) where
  cpu := pagedGuest.cpu
  mem := {
    ram := { base := 0, size := 0x3000, bytes := Bytes.storeLe (fun _ => 0) 0xff8 8 0x1403#64 }
    devices := [] }

/-- With overflow checks the end of the last page overflows, for a vector inside it too. -/
theorem not_access_byteExact : ¬ ∀ (t : Target) (a : DataAccess) (g : Guest (Bus Empty))
    (va : BitVec 64) (el : Fin 4), a.SizeOk → g.cpu.tlb.PagesAligned → g.mem.RamWf →
      FrameInRam g va a.access el → ByteExact t a g va el := by
  intro hall
  have hempty : lastPageGuest.cpu.tlb.IsEmpty := Tlb.isEmpty_flush _
  have hframe : FrameInRam lastPageGuest 0xfffffffffffff000 .read 1 := by
    have h : (translate lastPageGuest 0xfffffffffffff000 .read 1).1.toOption = some 0x1000 := by
      decide +kernel
    intro pa hpa
    rw [hpa] at h
    obtain rfl : pa = 0x1000 := Option.some.inj h
    decide
  have hwf : lastPageGuest.mem.RamWf := show 0 + 0x3000 < 2 ^ 64 by decide
  have hsize : (readVec 4).SizeOk := show 4 ≤ 4 by decide
  have hexact := hall Target.debug64 (.readVec 4) lastPageGuest 0xfffffffffffff000 1 hsize
    hempty.pagesAligned hwf hframe
  have hfits := ((run_iff hsize hempty.pagesAligned hwf hframe).mp hexact.bytes).1 rfl
  have hend := (hfits (by decide)).2.1
  exact absurd hend (by decide)

end DataAccess

end V64.Interp
