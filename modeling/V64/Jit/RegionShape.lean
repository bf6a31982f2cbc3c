import Mathlib.Data.Fintype.Card
import V64.Interp.CodeRun
import V64.Jit.Discovery

/-!
# The shape of a region

What `form_region` returns from any start, aligned or not, as far as the code that is
emitted for it depends on it.

* `CodeAt`: instructions that are consecutive words of the code.
* `shaped_formRegion`: a region is consecutive code in one page, its entry first.
-/

namespace V64.Jit

open V64.Decoder V64.Interp

theorem add_ofNat_succ (a : BitVec 64) (n : ℕ) :
    a + BitVec.ofNat 64 (4 * (n + 1)) = a + BitVec.ofNat 64 (4 * n) + 4 := by
  rw [Nat.mul_succ, BitVec.ofNat_add, ← BitVec.add_assoc]
  rfl

theorem add_four_ofNat (a : BitVec 64) (n : ℕ) :
    a + 4 + BitVec.ofNat 64 (4 * n) = a + BitVec.ofNat 64 (4 * (n + 1)) := by
  rw [add_ofNat_succ, BitVec.add_assoc, BitVec.add_assoc, BitVec.add_comm 4]

/-- The instructions are the words from an address on, decoded. -/
def CodeAt (read : BitVec 64 → BitVec 32) : BitVec 64 → List (BitVec 64 × Insn) → Prop
  | _, [] => True
  | a, p :: rest => p = (a, decode (read a)) ∧ CodeAt read (a + 4) rest

section CodeAt

variable {vl : VecLowering} {read : BitVec 64 → BitVec 32}

theorem codeAt_jitBlockInsns (room : ℕ) (a : BitVec 64) :
    CodeAt read a (jitBlockInsns vl read room a) := by
  induction room generalizing a with
  | zero => trivial
  | succ room ih =>
    rw [jitBlockInsns]
    split_ifs
    · exact ⟨rfl, ih (a + 4)⟩
    · exact ⟨rfl, trivial⟩
    · trivial

/-- Up to the last instruction, and the last. -/
theorem CodeAt.concat {a : BitVec 64} {init : List (BitVec 64 × Insn)} {p : BitVec 64 × Insn}
    (h : CodeAt read a (init ++ [p])) :
    CodeAt read a init ∧ p = (a + BitVec.ofNat 64 (4 * init.length),
      decode (read (a + BitVec.ofNat 64 (4 * init.length)))) := by
  induction init generalizing a with
  | nil =>
    refine ⟨trivial, ?_⟩
    rw [List.length_nil, Nat.mul_zero, BitVec.add_zero]
    exact h.1
  | cons q init ih =>
    obtain ⟨hinit, hp⟩ := ih h.2
    rw [add_four_ofNat] at hp
    exact ⟨⟨h.1, hinit⟩, hp⟩

theorem CodeAt.mem {a : BitVec 64} {insns : List (BitVec 64 × Insn)} {p : BitVec 64 × Insn}
    (h : CodeAt read a insns) (hp : p ∈ insns) : p.2 = decode (read p.1) := by
  induction insns generalizing a with
  | nil => cases hp
  | cons q insns ih =>
    obtain ⟨rfl, hrest⟩ := h
    obtain rfl | hp := List.mem_cons.mp hp
    · rfl
    · exact ih hrest hp

end CodeAt

/-! ## Regions -/

/-- Blocks as `form_region` finds them from `entry`. -/
structure Shaped (vl : VecLowering) (read : BitVec 64 → BitVec 32) (entry : BitVec 64)
    (blocks : List Block) : Prop where
  first : ∀ b ∈ blocks.head?, b.start = entry
  distinct : (blocks.map Block.start).Nodup
  inPage : ∀ b ∈ blocks, b.start &&& ~~~0xfff = entry &&& ~~~0xfff
  compilable : ∀ b ∈ blocks, Compilable vl b
  code : ∀ b ∈ blocks, CodeAt read b.start b.insns
  length : ∀ b ∈ blocks, b.insns.length ≤ 1024

namespace Shaped

variable {vl : VecLowering} {read : BitVec 64 → BitVec 32} {entry : BitVec 64}
  {blocks : List Block}

theorem nil (vl : VecLowering) (read : BitVec 64 → BitVec 32) (entry : BitVec 64) :
    Shaped vl read entry [] where
  first b hb := by cases hb
  distinct := List.nodup_nil
  inPage b hb := absurd hb List.not_mem_nil
  compilable b hb := absurd hb List.not_mem_nil
  code b hb := absurd hb List.not_mem_nil
  length b hb := absurd hb List.not_mem_nil

/-- A block at a new address of the page. -/
theorem concat (h : Shaped vl read entry blocks) {pc : BitVec 64} {room : ℕ}
    (hpage : pc &&& ~~~0xfff = entry &&& ~~~0xfff) (hnew : pc ∉ blocks.map Block.start)
    (hfirst : blocks = [] → pc = entry) (hroom : room ≤ 1024)
    (hne : (formJitBlock vl pc room read).insns ≠ []) :
    Shaped vl read entry (blocks ++ [formJitBlock vl pc room read]) := by
  have hmem {Q : Block → Prop} (hold : ∀ b ∈ blocks, Q b)
      (hlast : Q (formJitBlock vl pc room read)) :
      ∀ b ∈ blocks ++ [formJitBlock vl pc room read], Q b := by
    intro b hb
    obtain hb | hb := List.mem_append.mp hb
    · exact hold b hb
    · rw [List.mem_singleton.mp hb]
      exact hlast
  refine ⟨?_, ?_, hmem h.inPage hpage, hmem h.compilable (compilable_formJitBlock pc room hne),
    hmem h.code (codeAt_jitBlockInsns room pc),
    hmem h.length ((length_jitBlockInsns_le room pc).trans hroom)⟩
  · intro b hb
    cases hblocks : blocks with
    | nil =>
      rw [hblocks] at hb
      cases hb
      exact hfirst hblocks
    | cons b' rest =>
      rw [hblocks] at hb
      obtain rfl : b' = b := Option.some.inj hb
      exact h.first b' (by rw [hblocks]; rfl)
  · rw [List.map_append, List.map_singleton]
    refine List.nodup_append.mpr ⟨h.distinct, List.nodup_singleton _, ?_⟩
    intro a ha a' ha' heq
    obtain rfl : a' = pc := List.mem_singleton.mp ha'
    exact hnew (heq ▸ ha)

/-- The starts are different addresses of one page. -/
theorem length_le (h : Shaped vl read entry blocks) : blocks.length ≤ 4096 := by
  let offset (a : BitVec 64) : Fin 4096 := ⟨a.toNat % 4096, Nat.mod_lt _ (by decide)⟩
  have hinj : ∀ a ∈ blocks.map Block.start, ∀ a' ∈ blocks.map Block.start,
      offset a = offset a' → a = a' := by
    intro a ha a' ha' heq
    obtain ⟨b, hb, rfl⟩ := List.mem_map.mp ha
    obtain ⟨b', hb', rfl⟩ := List.mem_map.mp ha'
    have hoffset : b.start &&& 0xfff = b'.start &&& 0xfff := by
      apply BitVec.eq_of_toNat_eq
      rw [toNat_pageOffset, toNat_pageOffset]
      exact congrArg Fin.val heq
    rw [← page_add_offset b.start, ← page_add_offset b'.start, h.inPage b hb, h.inPage b' hb',
      hoffset]
  have hcard := (h.distinct.map_on hinj).length_le_card
  rwa [List.length_map, List.length_map, Fintype.card_fin] at hcard

end Shaped

/-- The invariant of the worklist. -/
theorem shaped_regionLoop {vl : VecLowering} {read : BitVec 64 → BitVec 32} {entry : BitVec 64}
    (maxBlocks maxBlockLen : ℕ) {blocks : List Block} {seen work : List (BitVec 64)}
    (h : Shaped vl read entry blocks) (hseen : ∀ a ∈ blocks.map Block.start, a ∈ seen)
    (hwork : ∀ a ∈ work, a &&& ~~~0xfff = entry &&& ~~~0xfff)
    (hfresh : blocks = [] → ∀ a ∈ work, a = entry) :
    Shaped vl read entry
      (regionLoop vl maxBlocks maxBlockLen read (entry &&& ~~~0xfff) blocks seen work) := by
  fun_induction regionLoop with
  | case1 blocks seen => exact h
  | case2 blocks seen pc work hskip ih =>
    exact ih h hseen (fun a ha => hwork a (List.mem_cons_of_mem pc ha))
      fun hnil a ha => hfresh hnil a (List.mem_cons_of_mem pc ha)
  | case3 blocks seen pc work hskip toPageEnd block hempty ih =>
    exact ih h hseen (fun a ha => hwork a (List.mem_cons_of_mem pc ha))
      fun hnil a ha => hfresh hnil a (List.mem_cons_of_mem pc ha)
  | case4 blocks seen pc work hskip toPageEnd block hempty seen' succs ih =>
    have hpc := hwork pc List.mem_cons_self
    have hroom : min maxBlockLen toPageEnd ≤ 1024 := by
      refine (Nat.min_le_right _ _).trans ?_
      show (((entry &&& ~~~0xfff) + 0x1000 - pc) / 4).toNat ≤ 1024
      rw [toPageEnd_eq hpc, wordsLeft]
      omega
    apply ih
    · refine h.concat hpc ?_ (fun hnil => hfresh hnil pc List.mem_cons_self) hroom ?_
      · exact fun hmem => hskip (.inl (List.contains_iff_mem.mpr (hseen pc hmem)))
      · exact fun hnil => hempty (List.isEmpty_iff.mpr hnil)
    · intro a ha
      rw [List.map_append] at ha
      obtain ha | ha := List.mem_append.mp ha
      · exact List.mem_cons_of_mem pc (hseen a ha)
      · rw [List.mem_singleton.mp ha]
        exact List.mem_cons_self
    · intro a ha
      obtain ha | ha := List.mem_append.mp ha
      · exact (mem_directSuccessors.mp (List.mem_filter.mp (List.mem_reverse.mp ha)).1).2
      · exact hwork a (List.mem_cons_of_mem pc ha)
    · intro hnil
      exact absurd hnil (List.append_ne_nil_of_right_ne_nil _ (List.cons_ne_nil _ _))

theorem shaped_formRegion (vl : VecLowering) (start : BitVec 64) (maxBlocks maxBlockLen : ℕ)
    (read : BitVec 64 → BitVec 32) :
    Shaped vl read start (formRegion vl start maxBlocks maxBlockLen read).blocks := by
  apply shaped_regionLoop maxBlocks maxBlockLen (Shaped.nil vl read start)
  · exact fun a ha => absurd ha List.not_mem_nil
  · intro a ha
    rw [List.mem_singleton.mp ha]
  · exact fun _ a ha => List.mem_singleton.mp ha

end V64.Jit
