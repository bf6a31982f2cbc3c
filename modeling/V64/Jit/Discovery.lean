import V64.Decoder.Group
import V64.Interp.RamHit
import V64.Jit.Emit
import V64.Lib.Checked

/-!
# What region discovery finds

`form_region` with a `read` that is only defined on some addresses, as the closure of
`form_jit_region` is, which indexes the words of one page. A call outside is a panic,
`none`, and so is the end of the last page of the address space in a build with overflow
checks.

* `bytesLeft`: where that is computed; `EndFits`: the starts for which it does not overflow.
* `tryFormRegion_eq`: `read` is called in the page of the start only.
* `Discovered`: what a region consists of.
* `formRegion_discovers`: from every aligned start, over every page contents and for all
  limits, discovery returns such a region; with overflow checks it panics for the last page.
-/

namespace V64.Jit

open V64.Cpu V64.Decoder V64.Interp
open Checked (Target)

/-! ## Discovery over a partial `read` -/

section Partial

variable (vl : VecLowering) (read : BitVec 64 → Option (BitVec 32))

/-- The loop of `form_jit_block` at `pc`, with room for so many instructions. -/
def tryBlockInsns : ℕ → BitVec 64 → Option (List (BitVec 64 × Insn))
  | 0, _ => some []
  | room + 1, pc => do
    let insn := decode (← read pc)
    if canInline vl insn then
      let rest ← tryBlockInsns room (pc + 4)
      some ((pc, insn) :: rest)
    else if isBranch insn then some [(pc, insn)]
    else some []

/-- `form_jit_block` (lines 33–49). -/
def tryFormJitBlock (start : BitVec 64) (maxLen : ℕ) : Option Block :=
  (tryBlockInsns vl read maxLen start).map (⟨start, ·⟩)

variable (t : Target)

/-- `page_base + 0x1000 - pc` (line 74), with the plain operators of the source. -/
def bytesLeft (pageBase pc : BitVec 64) : Option (BitVec 64) :=
  (t.add pageBase 0x1000).bind (t.sub · pc)

/-- The worklist of `form_region` (lines 64–83). -/
def tryRegionLoop (maxBlocks maxBlockLen : ℕ) (pageBase : BitVec 64) (blocks : List Block)
    (seen work : List (BitVec 64)) : Option (List Block) :=
  match work with
  | [] => some blocks
  | pc :: work =>
    if seen.contains pc ∨ blocks.length ≥ maxBlocks then
      tryRegionLoop maxBlocks maxBlockLen pageBase blocks seen work
    else
      match (bytesLeft t pageBase pc).bind fun left =>
          tryFormJitBlock vl read pc (min maxBlockLen (left / 4).toNat) with
      | none => none
      | some block =>
        if block.insns.isEmpty then
          tryRegionLoop maxBlocks maxBlockLen pageBase blocks seen work
        else
          let seen := pc :: seen
          let succs := (directSuccessors block pageBase).filter (!seen.contains ·)
          tryRegionLoop maxBlocks maxBlockLen pageBase (blocks ++ [block]) seen
            (succs.reverse ++ work)
termination_by (maxBlocks - blocks.length, work.length)
decreasing_by
  · exact Prod.Lex.right _ (Nat.lt_succ_self _)
  · exact Prod.Lex.right _ (Nat.lt_succ_self _)
  · apply Prod.Lex.left
    rw [List.length_append, List.length_singleton]
    omega

/-- `form_region` (lines 56–86). -/
def tryFormRegion (start : BitVec 64) (maxBlocks maxBlockLen : ℕ) : Option Region :=
  (tryRegionLoop vl read t maxBlocks maxBlockLen (start &&& ~~~0xfff) [] [] [start]).map
    (⟨start, ·⟩)

end Partial

/-! ## The caller -/

/-- `PAGE`, `MAX_JIT_BLOCK` and `MAX_REGION_BLOCKS` (`machine/jit.rs`, lines 21–27). -/
def page : BitVec 64 := 0x1000

@[inherit_doc page] def maxJitBlock : ℕ := 256

@[inherit_doc page] def maxRegionBlocks : ℕ := 16

section Caller

variable {M : Type} [GuestMem M]

/-- So many words from an address on, read in order. -/
def pageWords : ℕ → BitVec 64 → M → List (BitVec 32) × M
  | 0, _, m => ([], m)
  | n + 1, addr, m =>
    let (word, m) := GuestMem.readU32 m addr
    let (words, m) := pageWords n (addr + 4) m
    (word :: words, m)

/-- The closure that `form_jit_region` passes on (lines 271–273). -/
def jitRead (t : Target) (words : List (BitVec 32)) (pageVa a : BitVec 64) :
    Option (BitVec 32) :=
  words[(((a - pageVa) / 4).setWidth t.usizeBits).toNat]?

/-- `form_jit_region` (`machine/jit.rs`, lines 267–274). -/
def formJitRegion (t : Target) (vl : VecLowering) (m : M) (pc pa : BitVec 64) :
    Option Region × M :=
  let pageVa := pc &&& ~~~(page - 1)
  let pagePa := pa &&& ~~~(page - 1)
  let (words, m) := pageWords (page / 4).toNat pagePa m
  (tryFormRegion vl (jitRead t words pageVa) t pc maxRegionBlocks maxJitBlock, m)

theorem fst_formJitRegion (t : Target) (vl : VecLowering) (m : M) (pc pa : BitVec 64) :
    (formJitRegion t vl m pc pa).1 =
      tryFormRegion vl
        (jitRead t (pageWords (page / 4).toNat (pa &&& ~~~0xfff) m).1 (pc &&& ~~~0xfff)) t pc
        maxRegionBlocks maxJitBlock := by
  have hmask : page - 1 = 0xfff := by decide
  unfold formJitRegion
  rw [hmask]

theorem length_pageWords (n : ℕ) (addr : BitVec 64) (m : M) :
    (pageWords n addr m).1.length = n := by
  induction n generalizing addr m with
  | zero => rfl
  | succ n ih => exact congrArg (· + 1) (ih (addr + 4) (GuestMem.readU32 m addr).2)

end Caller

/-! ## Addresses of a page -/

/-- The address of a code word in the page at `pageBase`. -/
def Slot (pageBase a : BitVec 64) : Prop := a &&& ~~~0xfff = pageBase ∧ a.toNat % 4 = 0

/-- The words from an address to the end of its page. -/
def wordsLeft (a : BitVec 64) : ℕ := (4096 - a.toNat % 4096) / 4

theorem toPageEnd_eq {pageBase a : BitVec 64} (h : a &&& ~~~0xfff = pageBase) :
    ((pageBase + 0x1000 - a) / 4).toNat = wordsLeft a := by
  subst h
  rw [BitVec.toNat_udiv, toNat_pageEnd_sub, toNat_pageOffset]
  rfl

/-- The end of the page of `start` can be computed: the build does not check for overflow, or
    the page is not the last of the address space. -/
def EndFits (t : Target) (start : BitVec 64) : Prop :=
  t.overflowChecks = true → start.toNat < 2 ^ 64 - 4096

instance (t : Target) (start : BitVec 64) : Decidable (EndFits t start) :=
  inferInstanceAs (Decidable (_ → _))

theorem endFits_of_wrap {t : Target} (h : t.overflowChecks = false) (start : BitVec 64) :
    EndFits t start := fun hchecks => Bool.noConfusion (h.symm.trans hchecks)

/-- All addresses of a page have the same end. -/
theorem endFits_iff {t : Target} {pageBase a : BitVec 64} (h : a &&& ~~~0xfff = pageBase) :
    EndFits t a ↔ (t.overflowChecks = true → pageBase.toNat + 4096 < 2 ^ 64) := by
  have hsum := congrArg BitVec.toNat (page_add_offset a)
  have hoff := toNat_pageOffset a
  have hpage : pageBase.toNat % 4096 = 0 := h ▸ toNat_and_not_pageMask a
  have hlt := pageBase.isLt
  rw [h, BitVec.toNat_add, hoff] at hsum
  unfold EndFits
  refine imp_congr_right fun _ => ?_
  omega

theorem bytesLeft_eq {t : Target} {pageBase a : BitVec 64} (h : a &&& ~~~0xfff = pageBase) :
    bytesLeft t pageBase a =
      if EndFits t a then some (pageBase + 0x1000 - a) else none := by
  have hlarge : (0x1000 : BitVec 64).toNat = 4096 := rfl
  unfold bytesLeft
  split_ifs with hfits
  · rw [endFits_iff h] at hfits
    cases hchecks : t.overflowChecks with
    | false =>
      rw [Target.add_of_wrap hchecks, Option.bind_some]
      exact if_neg fun hover => Bool.false_ne_true (hchecks.symm.trans hover.1)
    | true =>
      have hend := hfits hchecks
      rw [Target.add_of_lt hend, Option.bind_some]
      refine Target.sub_of_le ?_
      have hle := toNat_pageEnd_sub a
      have hoff := toNat_pageOffset a
      rw [h] at hle
      rw [BitVec.toNat_add_of_lt hend, hlarge]
      have hsum := congrArg BitVec.toNat (page_add_offset a)
      rw [h, BitVec.toNat_add, hoff] at hsum
      omega
  · rw [endFits_iff h, Classical.not_imp] at hfits
    refine congrArg (Option.bind · _) (if_pos ⟨hfits.1, ?_⟩)
    rw [hlarge]
    omega

namespace Slot

variable {pageBase a : BitVec 64}

theorem wordsLeft_pos (h : Slot pageBase a) : 0 < wordsLeft a := by
  have haligned := h.2
  unfold wordsLeft
  omega

/-- The word after one that is not the last of its page. -/
theorem next (h : Slot pageBase a) (hleft : 1 < wordsLeft a) :
    Slot pageBase (a + 4) ∧ wordsLeft (a + 4) + 1 = wordsLeft a := by
  have haligned := h.2
  unfold wordsLeft at hleft ⊢
  have hoff : (a &&& 0xfff).toNat + (4 : BitVec 64).toNat < 4096 := by
    rw [toNat_pageOffset]
    show a.toNat % 4096 + 4 < 4096
    omega
  have hpage : (a + 4) &&& ~~~0xfff = a &&& ~~~0xfff := pageOf_add hoff
  have hnext := toNat_add_pageOffset hoff
  rw [toNat_pageOffset, toNat_pageOffset] at hnext
  have hnext : (a + 4).toNat % 4096 = a.toNat % 4096 + 4 := hnext
  refine ⟨⟨hpage.trans h.1, ?_⟩, ?_⟩ <;> omega

end Slot

/-! ## Blocks -/

section Blocks

variable {vl : VecLowering} {read : BitVec 64 → BitVec 32}

theorem length_jitBlockInsns_le (room : ℕ) (pc : BitVec 64) :
    (jitBlockInsns vl read room pc).length ≤ room := by
  induction room generalizing pc with
  | zero => exact Nat.le_refl 0
  | succ room ih =>
    rw [jitBlockInsns]
    split_ifs with hinline hbranch
    · rw [List.length_cons]
      exact Nat.succ_le_succ (ih (pc + 4))
    · exact Nat.succ_le_succ (Nat.zero_le room)
    · exact Nat.zero_le _

/-- The instructions of a block are the words from its start on, decoded. -/
theorem getElem?_jitBlockInsns (room : ℕ) (pc : BitVec 64) {i : ℕ} {p : BitVec 64 × Insn}
    (h : (jitBlockInsns vl read room pc)[i]? = some p) :
    p = (pc + BitVec.ofNat 64 (4 * i), decode (read (pc + BitVec.ofNat 64 (4 * i)))) := by
  induction room generalizing pc i with
  | zero => cases h
  | succ room ih =>
    rw [jitBlockInsns] at h
    cases i with
    | zero =>
      rw [Nat.mul_zero, BitVec.add_zero]
      split_ifs at h
      · exact (Option.some.inj h).symm
      · exact (Option.some.inj h).symm
      · cases h
    | succ i =>
      split_ifs at h
      · have haddr : pc + BitVec.ofNat 64 (4 * (i + 1)) = pc + 4 + BitVec.ofNat 64 (4 * i) := by
          rw [Nat.mul_succ, Nat.add_comm, BitVec.ofNat_add, BitVec.add_assoc]
          rfl
        rw [haddr]
        exact ih (pc + 4) h
      · cases h
      · cases h

/-- The block is empty where its first word is no instruction of a block. -/
theorem jitBlockInsns_eq_nil {room : ℕ} {pc : BitVec 64} (hroom : 0 < room)
    (h : jitBlockInsns vl read room pc = []) :
    canInline vl (decode (read pc)) = false ∧ isBranch (decode (read pc)) = false := by
  obtain ⟨room, rfl⟩ := Nat.exists_eq_add_of_lt hroom
  rw [Nat.zero_add, jitBlockInsns] at h
  split_ifs at h with hinline hbranch
  exact ⟨Bool.eq_false_iff.mpr hinline, Bool.eq_false_iff.mpr hbranch⟩

/-- All instructions of a block that stays in the page are in it. -/
theorem slot_of_mem_jitBlockInsns {pageBase : BitVec 64} (room : ℕ) (pc : BitVec 64)
    (hpc : Slot pageBase pc) (hroom : room ≤ wordsLeft pc) :
    ∀ p ∈ jitBlockInsns vl read room pc, Slot pageBase p.1 := by
  induction room generalizing pc with
  | zero =>
    intro p hp
    exact absurd hp List.not_mem_nil
  | succ room ih =>
    intro p hp
    rw [jitBlockInsns] at hp
    split_ifs at hp with hinline hbranch
    · obtain rfl | hp := List.mem_cons.mp hp
      · exact hpc
      · cases room with
        | zero => exact absurd hp List.not_mem_nil
        | succ room =>
          obtain ⟨hnext, hleft⟩ := hpc.next (by omega)
          exact ih (pc + 4) hnext (by omega) p hp
    · rw [List.mem_singleton.mp hp]
      exact hpc
    · exact absurd hp List.not_mem_nil

/-- Block formation reads the words of the block and one more, all of them in the page. -/
theorem tryBlockInsns_eq {pageBase : BitVec 64} {read : BitVec 64 → Option (BitVec 32)}
    (hread : ∀ a, Slot pageBase a → (read a).isSome) (room : ℕ) (pc : BitVec 64)
    (hpc : Slot pageBase pc) (hroom : room ≤ wordsLeft pc) :
    tryBlockInsns vl read room pc =
      some (jitBlockInsns vl (fun a => (read a).getD 0) room pc) := by
  induction room generalizing pc with
  | zero => rfl
  | succ room ih =>
    obtain ⟨word, hword⟩ := Option.isSome_iff_exists.mp (hread pc hpc)
    have hrest : tryBlockInsns vl read room (pc + 4) =
        some (jitBlockInsns vl (fun a => (read a).getD 0) room (pc + 4)) := by
      cases room with
      | zero => rfl
      | succ room =>
        obtain ⟨hnext, hleft⟩ := hpc.next (by omega)
        exact ih (pc + 4) hnext (by omega)
    rw [tryBlockInsns, jitBlockInsns, hword, Option.getD_some, hrest]
    dsimp only [Option.bind_eq_bind, Option.bind_some]
    split_ifs
    · rfl
    · rfl
    · rfl

end Blocks

/-! ## Successors -/

/-- The displacement of a conditional branch. -/
def condOffset : Insn → Option (BitVec 64)
  | .condBranch _ offset | .compareBranch _ _ _ offset | .testBranch _ _ _ offset => some offset
  | _ => none

/-- The direct successors of a block: the target of an unconditional branch that is no call,
    or the target and the fall-through of a conditional one. -/
inductive IsSuccessor (block : Block) : BitVec 64 → Prop
  | jump {pc offset} (h : block.insns.getLast? = some (pc, .branchImm false offset)) :
      IsSuccessor block (pc + offset)
  | taken {pc insn offset} (h : block.insns.getLast? = some (pc, insn))
      (hcond : condOffset insn = some offset) : IsSuccessor block (pc + offset)
  | fallThrough {pc insn offset} (h : block.insns.getLast? = some (pc, insn))
      (hcond : condOffset insn = some offset) : IsSuccessor block (pc + 4)

theorem directSuccessors_of_cond {block : Block} {pc offset : BitVec 64} {insn : Insn}
    (h : block.insns.getLast? = some (pc, insn)) (hcond : condOffset insn = some offset)
    (pageBase : BitVec 64) :
    directSuccessors block pageBase =
      [pc + offset, pc + 4].filter fun a => a &&& ~~~0xfff == pageBase := by
  unfold directSuccessors
  rw [h]
  cases insn with
  | condBranch cond o => cases hcond; rfl
  | compareBranch sf negate rt o => cases hcond; rfl
  | testBranch bit negate rt o => cases hcond; rfl
  | _ => cases hcond

theorem mem_directSuccessors {block : Block} {pageBase a : BitVec 64} :
    a ∈ directSuccessors block pageBase ↔ IsSuccessor block a ∧ a &&& ~~~0xfff = pageBase := by
  constructor
  · intro h
    cases hlast : block.insns.getLast? with
    | none =>
      unfold directSuccessors at h
      rw [hlast] at h
      exact absurd h List.not_mem_nil
    | some p =>
      obtain ⟨pc, insn⟩ := p
      cases hcond : condOffset insn with
      | some offset =>
        rw [directSuccessors_of_cond hlast hcond, List.mem_filter, beq_iff_eq] at h
        refine ⟨?_, h.2⟩
        obtain htaken | hnext := List.mem_cons.mp h.1
        · exact htaken ▸ .taken hlast hcond
        · exact List.mem_singleton.mp hnext ▸ .fallThrough hlast hcond
      | none =>
        unfold directSuccessors at h
        rw [hlast] at h
        cases insn with
        | branchImm link offset =>
          cases link with
          | true => exact absurd h List.not_mem_nil
          | false =>
            obtain ⟨hjump, hpage⟩ := List.mem_filter.mp h
            rw [List.mem_singleton.mp hjump] at hpage ⊢
            exact ⟨.jump hlast, beq_iff_eq.mp hpage⟩
        | condBranch cond offset => cases hcond
        | compareBranch sf negate rt offset => cases hcond
        | testBranch bit negate rt offset => cases hcond
        | _ => exact absurd h List.not_mem_nil
  · rintro ⟨hsucc, hpage⟩
    cases hsucc with
    | jump hlast =>
      unfold directSuccessors
      rw [hlast]
      exact List.mem_filter.mpr ⟨List.mem_singleton.mpr rfl, beq_iff_eq.mpr hpage⟩
    | taken hlast hcond =>
      rw [directSuccessors_of_cond hlast hcond]
      exact List.mem_filter.mpr ⟨List.mem_cons_self, beq_iff_eq.mpr hpage⟩
    | fallThrough hlast hcond =>
      rw [directSuccessors_of_cond hlast hcond]
      exact List.mem_filter.mpr
        ⟨List.mem_cons_of_mem _ (List.mem_singleton.mpr rfl), beq_iff_eq.mpr hpage⟩

/-- The successors of a block of aligned, decoded instructions are aligned. -/
theorem IsSuccessor.aligned {block : Block} {a : BitVec 64} (h : IsSuccessor block a)
    (hpc : ∀ p ∈ block.insns, p.1.toNat % 4 = 0)
    (hdecoded : ∀ p ∈ block.insns, ∃ word, p.2 = decode word) : a.toNat % 4 = 0 := by
  have hoffset {pc insn} (hlast : block.insns.getLast? = some (pc, insn)) :
      pc.toNat % 4 = 0 ∧ OffsetAligned insn := by
    have hmem := List.mem_of_getLast? hlast
    obtain ⟨word, hword⟩ := hdecoded _ hmem
    have hword : insn = decode word := hword
    rw [hword]
    exact ⟨hpc _ hmem, offsetAligned_decode word⟩
  have hadd {x y : BitVec 64} (hx : x.toNat % 4 = 0) (hy : y.toNat % 4 = 0) :
      (x + y).toNat % 4 = 0 := by
    rw [BitVec.toNat_add]
    omega
  cases h with
  | jump hlast => exact hadd (hoffset hlast).1 (hoffset hlast).2
  | @taken pc insn offset hlast hcond =>
    obtain ⟨haligned, hoff⟩ := hoffset hlast
    cases insn with
    | condBranch cond o => cases hcond; exact hadd haligned hoff
    | compareBranch sf negate rt o => cases hcond; exact hadd haligned hoff
    | testBranch bit negate rt o => cases hcond; exact hadd haligned hoff
    | _ => cases hcond
  | fallThrough hlast hcond => exact hadd (hoffset hlast).1 rfl

/-! ## The worklist -/

section Worklist

variable {vl : VecLowering} {read : BitVec 64 → BitVec 32}

/-- The block that discovery forms at an address: it ends with the page. -/
def pageBlock (vl : VecLowering) (read : BitVec 64 → BitVec 32) (maxBlockLen : ℕ)
    (pc : BitVec 64) : Block :=
  formJitBlock vl pc (min maxBlockLen (wordsLeft pc)) read

theorem slot_of_mem_pageBlock {pageBase pc : BitVec 64} {maxBlockLen : ℕ}
    (hpc : Slot pageBase pc) :
    ∀ p ∈ (pageBlock vl read maxBlockLen pc).insns, Slot pageBase p.1 :=
  slot_of_mem_jitBlockInsns _ pc hpc (Nat.min_le_right _ _)

/-- The in-page successors of a block that discovery forms are addresses of code words. -/
theorem slot_of_mem_directSuccessors {pageBase pc a : BitVec 64} {maxBlockLen : ℕ}
    (hpc : Slot pageBase pc)
    (h : a ∈ directSuccessors (pageBlock vl read maxBlockLen pc) pageBase) : Slot pageBase a := by
  obtain ⟨hsucc, hpage⟩ := mem_directSuccessors.mp h
  exact ⟨hpage, hsucc.aligned (fun p hp => (slot_of_mem_pageBlock hpc p hp).2)
    (decoded_jitBlockInsns _ pc)⟩

/-- What holds of the blocks, the addresses seen and the worklist at every turn of the loop. -/
structure Explored (vl : VecLowering) (read : BitVec 64 → BitVec 32) (start : BitVec 64)
    (maxBlocks maxBlockLen : ℕ) (blocks : List Block) (seen work : List (BitVec 64)) : Prop where
  seen_eq : ∀ a, a ∈ seen ↔ ∃ b ∈ blocks, b.start = a
  distinct : (blocks.map Block.start).Nodup
  slots : ∀ a ∈ work, Slot (start &&& ~~~0xfff) a
  formed : ∀ b ∈ blocks, Slot (start &&& ~~~0xfff) b.start ∧
    b = pageBlock vl read maxBlockLen b.start ∧ b.insns ≠ []
  closed : ∀ b ∈ blocks, ∀ a ∈ directSuccessors b (start &&& ~~~0xfff),
    a ∈ seen ∨ a ∈ work ∨ (pageBlock vl read maxBlockLen a).insns = [] ∨
      maxBlocks ≤ blocks.length
  first : ∀ b ∈ blocks.head?, b.start = start
  fresh : blocks = [] → ∀ a ∈ work, a = start
  count : blocks.length ≤ maxBlocks

namespace Explored

variable {start pc : BitVec 64} {maxBlocks maxBlockLen : ℕ} {blocks : List Block}
  {seen work : List (BitVec 64)}

theorem init (hstart : start.toNat % 4 = 0) :
    Explored vl read start maxBlocks maxBlockLen [] [] [start] where
  seen_eq a := by
    constructor
    · intro h
      exact absurd h List.not_mem_nil
    · rintro ⟨b, hb, -⟩
      exact absurd hb List.not_mem_nil
  distinct := List.nodup_nil
  slots a ha := by
    rw [List.mem_singleton.mp ha]
    exact ⟨rfl, hstart⟩
  formed b hb := absurd hb List.not_mem_nil
  closed b hb := absurd hb List.not_mem_nil
  first b hb := by cases hb
  fresh _ a ha := List.mem_singleton.mp ha
  count := Nat.zero_le _

/-- An address is dropped that was seen, that starts no block, or that comes too late. -/
theorem skip (h : Explored vl read start maxBlocks maxBlockLen blocks seen (pc :: work))
    (hskip : pc ∈ seen ∨ (pageBlock vl read maxBlockLen pc).insns = [] ∨
      maxBlocks ≤ blocks.length) :
    Explored vl read start maxBlocks maxBlockLen blocks seen work where
  seen_eq := h.seen_eq
  distinct := h.distinct
  slots a ha := h.slots a (List.mem_cons_of_mem pc ha)
  formed := h.formed
  closed b hb a ha := by
    obtain hseen | hwork | hrest := h.closed b hb a ha
    · exact .inl hseen
    · obtain rfl | hwork := List.mem_cons.mp hwork
      · obtain hseen | hrest := hskip
        · exact .inl hseen
        · exact .inr (.inr hrest)
      · exact .inr (.inl hwork)
    · exact .inr (.inr hrest)
  first := h.first
  fresh hnil a ha := h.fresh hnil a (List.mem_cons_of_mem pc ha)
  count := h.count

/-- A block is added; its successors are seen or go on the worklist. -/
theorem add (h : Explored vl read start maxBlocks maxBlockLen blocks seen (pc :: work))
    (hnew : pc ∉ seen) (hroom : blocks.length < maxBlocks)
    (hne : (pageBlock vl read maxBlockLen pc).insns ≠ []) {succs : List (BitVec 64)}
    (hsuccs : ∀ a, a ∈ succs ↔
      a ∈ directSuccessors (pageBlock vl read maxBlockLen pc) (start &&& ~~~0xfff) ∧
        a ∉ pc :: seen) :
    Explored vl read start maxBlocks maxBlockLen (blocks ++ [pageBlock vl read maxBlockLen pc])
      (pc :: seen) (succs ++ work) := by
  have hpc : Slot (start &&& ~~~0xfff) pc := h.slots pc List.mem_cons_self
  refine ⟨fun a => ?_, ?_, fun a ha => ?_, fun b hb => ?_, fun b hb a ha => ?_, fun b hb => ?_,
    fun hnil => ?_, ?_⟩
  · rw [List.mem_cons, h.seen_eq]
    constructor
    · rintro (rfl | ⟨b, hb, hstart⟩)
      · exact ⟨_, List.mem_append_right _ (List.mem_singleton.mpr rfl), rfl⟩
      · exact ⟨b, List.mem_append_left _ hb, hstart⟩
    · rintro ⟨b, hb, hstart⟩
      obtain hb | hb := List.mem_append.mp hb
      · exact .inr ⟨b, hb, hstart⟩
      · rw [List.mem_singleton.mp hb] at hstart
        exact .inl hstart.symm
  · rw [List.map_append, List.map_singleton]
    refine List.nodup_append.mpr ⟨h.distinct, List.nodup_singleton _, ?_⟩
    intro a ha a' ha' heq
    obtain rfl : a' = pc := List.mem_singleton.mp ha'
    obtain ⟨b, hb, hstart⟩ := List.mem_map.mp ha
    exact hnew ((h.seen_eq a').mpr ⟨b, hb, hstart.trans heq⟩)
  · obtain ha | ha := List.mem_append.mp ha
    · exact slot_of_mem_directSuccessors hpc ((hsuccs a).mp ha).1
    · exact h.slots a (List.mem_cons_of_mem pc ha)
  · obtain hb | hb := List.mem_append.mp hb
    · exact h.formed b hb
    · rw [List.mem_singleton.mp hb]
      exact ⟨hpc, rfl, hne⟩
  · obtain hb | hb := List.mem_append.mp hb
    · obtain hseen | hwork | hnil | hfull := h.closed b hb a ha
      · exact .inl (List.mem_cons_of_mem pc hseen)
      · obtain rfl | hwork := List.mem_cons.mp hwork
        · exact .inl List.mem_cons_self
        · exact .inr (.inl (List.mem_append_right succs hwork))
      · exact .inr (.inr (.inl hnil))
      · omega
    · rw [List.mem_singleton.mp hb] at ha
      by_cases hseen : a ∈ pc :: seen
      · exact .inl hseen
      · exact .inr (.inl (List.mem_append_left work ((hsuccs a).mpr ⟨ha, hseen⟩)))
  · cases hblocks : blocks with
    | nil =>
      rw [hblocks] at hb
      cases hb
      exact h.fresh hblocks pc List.mem_cons_self
    | cons b' rest =>
      rw [hblocks] at hb
      obtain rfl : b' = b := Option.some.inj hb
      exact h.first b' (by rw [hblocks]; rfl)
  · exact absurd hnil (List.append_ne_nil_of_right_ne_nil _ (List.cons_ne_nil _ _))
  · rw [List.length_append, List.length_singleton]
    exact hroom

/-- The invariant holds when the worklist is empty. -/
theorem regionLoop (h : Explored vl read start maxBlocks maxBlockLen blocks seen work) :
    ∃ seen', Explored vl read start maxBlocks maxBlockLen
      (regionLoop vl maxBlocks maxBlockLen read (start &&& ~~~0xfff) blocks seen work)
      seen' [] := by
  fun_induction Jit.regionLoop with
  | case1 blocks seen => exact ⟨seen, h⟩
  | case2 blocks seen pc work hskip ih =>
    apply ih
    apply h.skip
    obtain hseen | hfull := hskip
    · exact .inl (List.contains_iff_mem.mp hseen)
    · exact .inr (.inr hfull)
  | case3 blocks seen pc work hskip toPageEnd block hempty ih =>
    apply ih
    apply h.skip
    refine .inr (.inl ?_)
    rw [pageBlock, ← toPageEnd_eq (h.slots pc List.mem_cons_self).1]
    exact List.isEmpty_iff.mp hempty
  | case4 blocks seen pc work hskip toPageEnd block hempty seen' succs ih =>
    have hblock : block = pageBlock vl read maxBlockLen pc := by
      rw [pageBlock, ← toPageEnd_eq (h.slots pc List.mem_cons_self).1]
    apply ih
    rw [hblock] at hempty ⊢
    apply h.add
    · exact fun hseen => hskip (.inl (List.contains_iff_mem.mpr hseen))
    · exact Nat.lt_of_not_le fun hfull => hskip (.inr hfull)
    · exact fun hnil => hempty (List.isEmpty_iff.mpr hnil)
    · intro a
      rw [List.mem_reverse, List.mem_filter, hblock, Bool.not_eq_true', Bool.eq_false_iff,
        Ne, List.contains_iff_mem]

end Explored

/-- Where `read` is defined on the page and the page has an end, nothing panics. -/
theorem tryRegionLoop_eq {t : Target} {pageBase : BitVec 64} {read : BitVec 64 → Option (BitVec 32)}
    (hfits : ∀ a, Slot pageBase a → EndFits t a)
    (hread : ∀ a, Slot pageBase a → (read a).isSome) (maxBlocks maxBlockLen : ℕ)
    (blocks : List Block) (seen work : List (BitVec 64)) (hwork : ∀ a ∈ work, Slot pageBase a) :
    tryRegionLoop vl read t maxBlocks maxBlockLen pageBase blocks seen work =
      some (regionLoop vl maxBlocks maxBlockLen (fun a => (read a).getD 0) pageBase blocks seen
        work) := by
  have htail {pc : BitVec 64} {work : List (BitVec 64)} (h : ∀ a ∈ pc :: work, Slot pageBase a) :
      ∀ a ∈ work, Slot pageBase a := fun a ha => h a (List.mem_cons_of_mem pc ha)
  have hform {pc : BitVec 64} (hpc : Slot pageBase pc) :
      ((bytesLeft t pageBase pc).bind fun left =>
          tryFormJitBlock vl read pc (min maxBlockLen (left / 4).toNat)) =
        some (formJitBlock vl pc (min maxBlockLen ((pageBase + 0x1000 - pc) / 4).toNat)
          fun a => (read a).getD 0) := by
    rw [bytesLeft_eq hpc.1, if_pos (hfits pc hpc), Option.bind_some, toPageEnd_eq hpc.1,
      tryFormJitBlock, tryBlockInsns_eq hread _ pc hpc (Nat.min_le_right _ _)]
    rfl
  fun_induction regionLoop with
  | case1 blocks seen => rw [tryRegionLoop]
  | case2 blocks seen pc work hskip ih =>
    rw [tryRegionLoop, if_pos hskip]
    exact ih (htail hwork)
  | case3 blocks seen pc work hskip toPageEnd block hempty ih =>
    rw [tryRegionLoop, if_neg hskip]
    dsimp only
    rw [hform (hwork pc List.mem_cons_self)]
    dsimp only
    rw [if_pos hempty]
    exact ih (htail hwork)
  | case4 blocks seen pc work hskip toPageEnd block hempty seen' succs ih =>
    have hpc := hwork pc List.mem_cons_self
    rw [tryRegionLoop, if_neg hskip]
    dsimp only
    rw [hform hpc]
    dsimp only
    rw [if_neg hempty]
    apply ih
    intro a ha
    obtain ha | ha := List.mem_append.mp ha
    · have hsucc := (List.mem_filter.mp (List.mem_reverse.mp ha)).1
      have hblock : block = pageBlock vl (fun a => (read a).getD 0) maxBlockLen pc := by
        rw [pageBlock, ← toPageEnd_eq hpc.1]
      rw [hblock] at hsucc
      exact slot_of_mem_directSuccessors hpc hsucc
    · exact htail hwork a ha

/-- `form_region` calls `read` in the page of its start only. -/
theorem tryFormRegion_eq {t : Target} {start : BitVec 64} (hfits : EndFits t start)
    (hstart : start.toNat % 4 = 0) {read : BitVec 64 → Option (BitVec 32)}
    (hread : ∀ a, Slot (start &&& ~~~0xfff) a → (read a).isSome) (maxBlocks maxBlockLen : ℕ) :
    tryFormRegion vl read t start maxBlocks maxBlockLen =
      some (formRegion vl start maxBlocks maxBlockLen fun a => (read a).getD 0) := by
  have hwork : ∀ a ∈ [start], Slot (start &&& ~~~0xfff) a := by
    intro a ha
    rw [List.mem_singleton.mp ha]
    exact ⟨rfl, hstart⟩
  have hpage : ∀ a, Slot (start &&& ~~~0xfff) a → EndFits t a := fun a ha =>
    (endFits_iff ha.1).mpr ((endFits_iff rfl).mp hfits)
  unfold tryFormRegion
  rw [tryRegionLoop_eq hpage hread maxBlocks maxBlockLen [] [] [start] hwork]
  rfl

/-- With overflow checks the end of the last page cannot be computed. -/
theorem tryFormRegion_eq_none {t : Target} {start : BitVec 64} (hfits : ¬ EndFits t start)
    (read : BitVec 64 → Option (BitVec 32)) {maxBlocks : ℕ} (hblocks : 0 < maxBlocks)
    (maxBlockLen : ℕ) : tryFormRegion vl read t start maxBlocks maxBlockLen = none := by
  have hgo : ¬ (([] : List (BitVec 64)).contains start = true ∨
      ([] : List Block).length ≥ maxBlocks) := by
    rintro (hseen | hfull)
    · cases hseen
    · exact absurd hfull (Nat.not_le_of_lt hblocks)
  have hend : bytesLeft t (start &&& ~~~0xfff) start = none := by
    rw [bytesLeft_eq rfl, if_neg hfits]
  unfold tryFormRegion
  rw [tryRegionLoop, if_neg hgo, hend, Option.bind_none]
  rfl

end Worklist

/-! ## Regions -/

/-- A region that discovery is to find at `start`, where the code words are `read`. -/
structure Discovered (vl : VecLowering) (read : BitVec 64 → Option (BitVec 32))
    (start : BitVec 64) (maxBlocks maxBlockLen : ℕ) (region : Region) : Prop where
  entry : region.entry = start
  first : ∀ b ∈ region.blocks.head?, b.start = start
  distinct : (region.blocks.map Block.start).Nodup
  nonempty : ∀ b ∈ region.blocks, b.insns ≠ []
  consecutive : ∀ b ∈ region.blocks, ∀ i p, b.insns[i]? = some p →
    p.1 = b.start + BitVec.ofNat 64 (4 * i) ∧ some p.2 = (read p.1).map decode
  inPage : ∀ b ∈ region.blocks, ∀ p ∈ b.insns, p.1 &&& ~~~0xfff = start &&& ~~~0xfff
  branchLast : ∀ b ∈ region.blocks, ∀ p ∈ b.insns.dropLast, isBranch p.2 = false
  complete : ∀ b ∈ region.blocks, ∀ a, IsSuccessor b a → a &&& ~~~0xfff = start &&& ~~~0xfff →
    (∃ b' ∈ region.blocks, b'.start = a) ∨
      (∃ word, read a = some word ∧ canInline vl (decode word) = false ∧
        isBranch (decode word) = false) ∨
      region.blocks.length = maxBlocks
  count : region.blocks.length ≤ maxBlocks
  lengths : ∀ b ∈ region.blocks, b.insns.length ≤ maxBlockLen

/-- Discovery calls `read` in the page of its start only, and what it returns is a region. -/
theorem exists_discovered {t : Target} {start : BitVec 64} (hfits : EndFits t start)
    (hstart : start.toNat % 4 = 0) {read : BitVec 64 → Option (BitVec 32)}
    (hread : ∀ a, Slot (start &&& ~~~0xfff) a → (read a).isSome) (maxBlocks maxBlockLen : ℕ) :
    ∃ region, tryFormRegion vecLowering read t start maxBlocks maxBlockLen = some region ∧
      Discovered vecLowering read start maxBlocks maxBlockLen region := by
  have hword {a : BitVec 64} (ha : Slot (start &&& ~~~0xfff) a) :
      read a = some ((read a).getD 0) := by
    obtain ⟨word, hword⟩ := Option.isSome_iff_exists.mp (hread a ha)
    rw [hword]
    rfl
  refine ⟨_, tryFormRegion_eq hfits hstart hread maxBlocks maxBlockLen, ?_⟩
  generalize hregion : formRegion vecLowering start maxBlocks maxBlockLen
    (fun a => (read a).getD 0) = region
  obtain ⟨seen, h⟩ : ∃ seen, Explored vecLowering (fun a => (read a).getD 0) start maxBlocks
      maxBlockLen region.blocks seen [] := by
    rw [← hregion]
    exact (Explored.init hstart).regionLoop
  have hentry : region.entry = start := by rw [← hregion]; rfl
  have hlen (b) (hb : b ∈ region.blocks) :
      b.insns.length ≤ min maxBlockLen (wordsLeft b.start) := by
    rw [(h.formed b hb).2.1]
    exact length_jitBlockInsns_le _ _
  have hslot (b) (hb : b ∈ region.blocks) : ∀ p ∈ b.insns, Slot (start &&& ~~~0xfff) p.1 := by
    rw [(h.formed b hb).2.1]
    exact slot_of_mem_pageBlock (h.formed b hb).1
  refine ⟨hentry, h.first, h.distinct, fun b hb => (h.formed b hb).2.2, fun b hb i p hp => ?_,
    fun b hb p hp => (hslot b hb p hp).1, fun b hb p hp => ?_, fun b hb a hsucc hpage => ?_,
    h.count, fun b hb => (hlen b hb).trans (Nat.min_le_left _ _)⟩
  · rw [hword (hslot b hb p (List.mem_of_getElem? hp))]
    rw [(h.formed b hb).2.1] at hp
    have hinsn := getElem?_jitBlockInsns _ _ hp
    rw [hinsn]
    exact ⟨rfl, rfl⟩
  · rw [(h.formed b hb).2.1] at hp
    exact isBranch_of_canInline (admitted_jitBlockInsns _ _ p hp)
  · have hmem : a ∈ directSuccessors b (start &&& ~~~0xfff) :=
      mem_directSuccessors.mpr ⟨hsucc, hpage⟩
    obtain hseen | hwork | hnil | hfull := h.closed b hb a hmem
    · exact .inl ((h.seen_eq a).mp hseen)
    · exact absurd hwork List.not_mem_nil
    · have ha : Slot (start &&& ~~~0xfff) a := by
        rw [(h.formed b hb).2.1] at hmem
        exact slot_of_mem_directSuccessors (h.formed b hb).1 hmem
      -- a block exists, so the limit on its length is not zero
      have hpos : 0 < b.insns.length := List.length_pos_iff.mpr (h.formed b hb).2.2
      have hle := (hlen b hb).trans (Nat.min_le_left _ _)
      have hroom : 0 < min maxBlockLen (wordsLeft a) :=
        Nat.lt_min.mpr ⟨by omega, ha.wordsLeft_pos⟩
      have hempty := jitBlockInsns_eq_nil hroom hnil
      exact .inr (.inl ⟨_, hword ha, hempty⟩)
    · exact .inr (.inr (Nat.le_antisymm h.count hfull))

/-- The words of the start's page; anywhere else `read` panics. -/
def pageRead (start : BitVec 64) (words : BitVec 64 → BitVec 32) (a : BitVec 64) :
    Option (BitVec 32) :=
  if a &&& ~~~0xfff = start &&& ~~~0xfff then some (words a) else none

/-- The index of a code word of the page is in the bounds of its list of words. -/
theorem isSome_jitRead (t : Target) {words : List (BitVec 32)} (hwords : words.length = 1024)
    {start a : BitVec 64} (ha : Slot (start &&& ~~~0xfff) a) :
    (jitRead t words (start &&& ~~~0xfff) a).isSome := by
  have hoff : a - (start &&& ~~~0xfff) = a &&& 0xfff := by
    rw [← ha.1]
    nth_rewrite 1 [← page_add_offset a]
    rw [BitVec.add_comm, BitVec.add_sub_cancel]
  have hindex : ((a - (start &&& ~~~0xfff)) / 4).toNat < 1024 := by
    rw [hoff, BitVec.toNat_udiv, toNat_pageOffset]
    show a.toNat % 4096 / 4 < 1024
    omega
  have hbound : (((a - (start &&& ~~~0xfff)) / 4).setWidth t.usizeBits).toNat < words.length := by
    rw [hwords, BitVec.toNat_setWidth]
    exact Nat.lt_of_le_of_lt (Nat.mod_le _ _) hindex
  unfold jitRead
  rw [List.getElem?_eq_getElem hbound]
  rfl

/-- **Region formation.** From every aligned start, over every page contents and for all
    limits, discovery ends without a call of `read` outside the page. What it returns starts
    at the entry, has distinct, non-empty blocks of consecutive instructions, no branch but
    at the end of one, and every in-page successor that could start a block, up to the limits.
    The caller's list of words serves every call. That is so in every build without overflow
    checks; in one with them, discovery panics exactly for the starts in the last page. -/
theorem formRegion_discovers (t : Target) {start : BitVec 64} (hstart : start.toNat % 4 = 0) :
    (∀ words maxBlocks maxBlockLen,
      (EndFits t start → ∃ region,
        tryFormRegion vecLowering (pageRead start words) t start maxBlocks maxBlockLen =
          some region ∧
        Discovered vecLowering (pageRead start words) start maxBlocks maxBlockLen region) ∧
      (¬ EndFits t start → 0 < maxBlocks →
        tryFormRegion vecLowering (pageRead start words) t start maxBlocks maxBlockLen = none)) ∧
    ∀ {M : Type} [GuestMem M] (m : M) (pa : BitVec 64),
      (EndFits t start → ∃ region,
        (formJitRegion t vecLowering m start pa).1 = some region ∧
        Discovered vecLowering
          (jitRead t (pageWords (page / 4).toNat (pa &&& ~~~0xfff) m).1 (start &&& ~~~0xfff)) start
          maxRegionBlocks maxJitBlock region) ∧
      (¬ EndFits t start → (formJitRegion t vecLowering m start pa).1 = none) := by
  refine ⟨fun words maxBlocks maxBlockLen => ⟨fun hfits => ?_, fun hfits hblocks => ?_⟩,
    fun m pa => ⟨fun hfits => ?_, fun hfits => ?_⟩⟩
  · apply exists_discovered hfits hstart
    intro a ha
    rw [pageRead, if_pos ha.1]
    rfl
  · exact tryFormRegion_eq_none hfits _ hblocks maxBlockLen
  · have hcount : (page / 4).toNat = 1024 := by decide
    rw [fst_formJitRegion]
    exact exists_discovered hfits hstart
      (fun a => isSome_jitRead t ((length_pageWords _ _ m).trans hcount)) _ _
  · rw [fst_formJitRegion]
    exact tryFormRegion_eq_none hfits _ (by decide) _

/-- Two words that branch to each other, from the second: two blocks of one instruction. -/
theorem formRegion_discovers_loop :
    ∃ region, tryFormRegion vecLowering
        (pageRead 0x1004 fun a => if a = 0x1000 then 0x14000001 else 0x17ffffff) .release64 0x1004
          16 256 = some region ∧
      Discovered vecLowering
        (pageRead 0x1004 fun a => if a = 0x1000 then 0x14000001 else 0x17ffffff) 0x1004 16 256
        region :=
  ((formRegion_discovers .release64 (by decide)).1 _ 16 256).1 (by decide)

end V64.Jit
