import V64.Jit.Eligible

/-!
# Block and region discovery

Model of `crates/jit/src/region.rs`. Memory is a function that reads the code word
at an address.

* `Compilable`: the blocks that the emitter is meant for.
* `compilable_formJitBlock`, `compilable_formRegion`: discovery yields no others.
-/

namespace V64.Jit

open V64.Decoder

/-- `Region` (lines 19–24). -/
structure Region where
  entry : BitVec 64
  blocks : List Block

/-- The loop of `form_jit_block` at `pc`, with room for so many instructions. -/
def jitBlockInsns (vl : VecLowering) (read : BitVec 64 → BitVec 32) :
    ℕ → BitVec 64 → List (BitVec 64 × Insn)
  | 0, _ => []
  | room + 1, pc =>
    let insn := decode (read pc)
    if canInline vl insn then (pc, insn) :: jitBlockInsns vl read room (pc + 4)
    else if isBranch insn then [(pc, insn)]
    else []

/-- `form_jit_block` (lines 33–49). -/
def formJitBlock (vl : VecLowering) (start : BitVec 64) (maxLen : ℕ)
    (read : BitVec 64 → BitVec 32) : Block :=
  ⟨start, jitBlockInsns vl read maxLen start⟩

/-- `direct_successors` (lines 94–117). -/
def directSuccessors (block : Block) (pageBase : BitVec 64) : List (BitVec 64) :=
  let inPage (a : BitVec 64) : Bool := a &&& ~~~0xfff == pageBase
  match block.insns.getLast? with
  | none => []
  | some (pc, term) =>
    match term with
    | .branchImm false offset => [pc + offset].filter inPage
    | .condBranch _ offset | .compareBranch _ _ _ offset | .testBranch _ _ _ offset =>
      [pc + offset, pc + 4].filter inPage
    | _ => []

/-- The worklist of `form_region` (lines 64–83); its head is the next PC to form. -/
def regionLoop (vl : VecLowering) (maxBlocks maxBlockLen : ℕ) (read : BitVec 64 → BitVec 32)
    (pageBase : BitVec 64) (blocks : List Block) (seen work : List (BitVec 64)) : List Block :=
  match work with
  | [] => blocks
  | pc :: work =>
    if seen.contains pc ∨ blocks.length ≥ maxBlocks then
      regionLoop vl maxBlocks maxBlockLen read pageBase blocks seen work
    else
      let toPageEnd := ((pageBase + 0x1000 - pc) / 4).toNat
      let block := formJitBlock vl pc (min maxBlockLen toPageEnd) read
      if block.insns.isEmpty then regionLoop vl maxBlocks maxBlockLen read pageBase blocks seen work
      else
        let seen := pc :: seen
        let succs := (directSuccessors block pageBase).filter (!seen.contains ·)
        regionLoop vl maxBlocks maxBlockLen read pageBase (blocks ++ [block]) seen
          (succs.reverse ++ work)
termination_by (maxBlocks - blocks.length, work.length)
decreasing_by
  · exact Prod.Lex.right _ (Nat.lt_succ_self _)
  · exact Prod.Lex.right _ (Nat.lt_succ_self _)
  · apply Prod.Lex.left
    rw [List.length_append, List.length_singleton]
    omega

/-- `form_region` (lines 57–88). -/
def formRegion (vl : VecLowering) (start : BitVec 64) (maxBlocks maxBlockLen : ℕ)
    (read : BitVec 64 → BitVec 32) : Region :=
  ⟨start, regionLoop vl maxBlocks maxBlockLen read (start &&& ~~~0xfff) [] [] [start]⟩

/-! ## What discovery yields -/

/-- A block of decoded words that are all admitted; the last may be a branch. -/
structure Compilable (vl : VecLowering) (block : Block) : Prop where
  nonempty : block.insns ≠ []
  decoded : ∀ p ∈ block.insns, ∃ word, p.2 = decode word
  admitted : ∀ p ∈ block.insns.dropLast, canInline vl p.2 = true
  last : ∀ p ∈ block.insns.getLast?, canInline vl p.2 = true ∨ isBranch p.2 = true

section Discovery

variable {vl : VecLowering} {read : BitVec 64 → BitVec 32}

theorem decoded_jitBlockInsns (room : ℕ) (pc : BitVec 64) :
    ∀ p ∈ jitBlockInsns vl read room pc, ∃ word, p.2 = decode word := by
  induction room generalizing pc with
  | zero =>
    intro p hp
    exact absurd hp List.not_mem_nil
  | succ room ih =>
    intro p hp
    rw [jitBlockInsns] at hp
    split_ifs at hp with hinline hbranch
    · obtain rfl | hp := List.mem_cons.mp hp
      · exact ⟨read pc, rfl⟩
      · exact ih (pc + 4) p hp
    · rw [List.mem_singleton.mp hp]
      exact ⟨read pc, rfl⟩
    · exact absurd hp List.not_mem_nil

theorem admitted_jitBlockInsns (room : ℕ) (pc : BitVec 64) :
    ∀ p ∈ (jitBlockInsns vl read room pc).dropLast, canInline vl p.2 = true := by
  induction room generalizing pc with
  | zero =>
    intro p hp
    exact absurd hp List.not_mem_nil
  | succ room ih =>
    intro p hp
    rw [jitBlockInsns] at hp
    split_ifs at hp with hinline hbranch
    · by_cases hrest : jitBlockInsns vl read room (pc + 4) = []
      · rw [hrest] at hp
        exact absurd hp List.not_mem_nil
      · rw [List.dropLast_cons_of_ne_nil hrest] at hp
        obtain rfl | hp := List.mem_cons.mp hp
        · exact hinline
        · exact ih (pc + 4) p hp
    · exact absurd hp List.not_mem_nil
    · exact absurd hp List.not_mem_nil

theorem last_jitBlockInsns (room : ℕ) (pc : BitVec 64) :
    ∀ p ∈ (jitBlockInsns vl read room pc).getLast?,
      canInline vl p.2 = true ∨ isBranch p.2 = true := by
  induction room generalizing pc with
  | zero =>
    intro p hp
    cases hp
  | succ room ih =>
    intro p hp
    rw [jitBlockInsns] at hp
    split_ifs at hp with hinline hbranch
    · cases hrest : jitBlockInsns vl read room (pc + 4) with
      | nil =>
        rw [hrest] at hp
        cases hp
        exact .inl hinline
      | cons q rest =>
        rw [hrest, List.getLast?_cons_cons, ← hrest] at hp
        exact ih (pc + 4) p hp
    · cases hp
      exact .inr hbranch
    · cases hp

theorem compilable_formJitBlock (start : BitVec 64) (maxLen : ℕ)
    (h : (formJitBlock vl start maxLen read).insns ≠ []) :
    Compilable vl (formJitBlock vl start maxLen read) where
  nonempty := h
  decoded := decoded_jitBlockInsns maxLen start
  admitted := admitted_jitBlockInsns maxLen start
  last := last_jitBlockInsns maxLen start

theorem compilable_regionLoop (maxBlocks maxBlockLen : ℕ) (pageBase : BitVec 64)
    (blocks : List Block) (seen work : List (BitVec 64))
    (h : ∀ block ∈ blocks, Compilable vl block) :
    ∀ block ∈ regionLoop vl maxBlocks maxBlockLen read pageBase blocks seen work,
      Compilable vl block := by
  fun_induction regionLoop with
  | case1 blocks seen => exact h
  | case2 blocks seen pc work hskip ih => exact ih h
  | case3 blocks seen pc work hskip toPageEnd block hempty ih => exact ih h
  | case4 blocks seen pc work hskip toPageEnd block hempty seen' succs ih =>
    apply ih
    intro b hb
    obtain hb | hb := List.mem_append.mp hb
    · exact h b hb
    · rw [List.mem_singleton.mp hb]
      apply compilable_formJitBlock
      intro hnil
      exact hempty (List.isEmpty_iff.mpr hnil)

theorem compilable_formRegion (start : BitVec 64) (maxBlocks maxBlockLen : ℕ) :
    ∀ block ∈ (formRegion vl start maxBlocks maxBlockLen read).blocks, Compilable vl block :=
  compilable_regionLoop maxBlocks maxBlockLen _ [] [] [start]
    fun _ hb => absurd hb List.not_mem_nil

end Discovery

end V64.Jit
