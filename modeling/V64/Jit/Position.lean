import V64.Jit.Discovery

/-!
# Position independence

The JIT keys compiled code by the physical address of its entry, so code that was compiled
while its page was mapped at one virtual address runs at another.

* `lowerInsn_shift`, `regionTerminator_shift`: emitted code has differences of addresses
  only, so that it is the same for a block or region that lies `d` bytes further on.
* `tryFormRegion_shift`: in a page that is mapped `d` bytes further on, discovery finds the
  same region, moved.
* `compileHot_congr`: so both mappings have the same compiled function.
-/

namespace V64.Jit

open V64.Cpu V64.Decoder V64.Interp V64.Platform Wasm
open Wasm.Instr
open Checked (Target)

/-! ## Code further on -/

/-- The address of an instruction moved. -/
def shiftInsn (d : BitVec 64) (p : BitVec 64 × Insn) : BitVec 64 × Insn := (p.1 + d, p.2)

/-- The block at addresses `d` bytes further on. -/
def shiftBlock (d : BitVec 64) (block : Block) : Block :=
  ⟨block.start + d, block.insns.map (shiftInsn d)⟩

/-- The region at addresses `d` bytes further on. -/
def Region.shift (d : BitVec 64) (region : Region) : Region :=
  ⟨region.entry + d, region.blocks.map (shiftBlock d)⟩

/-- The place of an instruction in a block or region `d` bytes further on. -/
def Site.shift (d : BitVec 64) (site : Site) : Site :=
  { site with pc := site.pc + d, entryPc := site.entryPc + d }

section Shift

variable (d : BitVec 64)

/-- Two addresses moved are as far apart. -/
theorem sub_shift (a b : BitVec 64) : a + d - (b + d) = a - b := by
  ring

/-- An address after one that is moved. -/
theorem add_shift (a k : BitVec 64) : a + d + k = a + k + d := by
  ring

theorem shift_inj {a b : BitVec 64} : a + d = b + d ↔ a = b := by
  constructor
  · intro h
    have hsub := congrArg (· - d) h
    simpa using hsub
  · rintro rfl
    rfl

theorem beq_shift (a b : BitVec 64) : (a + d == b + d) = (a == b) := by
  rw [Bool.eq_iff_iff, beq_iff_eq, beq_iff_eq, shift_inj]

/-! ## Emitted code -/

@[simp] theorem genRelPc_shift (abs entryPc : BitVec 64) :
    genRelPc (abs + d) (entryPc + d) = genRelPc abs entryPc := by
  unfold genRelPc
  rw [sub_shift]

@[simp] theorem genRelPc_add_shift (pc k entryPc : BitVec 64) :
    genRelPc (pc + d + k) (entryPc + d) = genRelPc (pc + k) entryPc := by
  rw [add_shift, genRelPc_shift]

@[simp] theorem emitBail_shift (site : Site) : emitBail (site.shift d) = emitBail site := by
  unfold emitBail Site.shift
  rw [genRelPc_shift]

@[simp] theorem fastPath_shift (L : Layout) (span : BitVec 64) (store : Bool) (site : Site)
    (body : List Instr) :
    fastPath L span store (site.shift d) body = fastPath L span store site body := by
  unfold fastPath
  rw [emitBail_shift]
  rfl

@[simp] theorem alignGuard_shift (bytes : BitVec 64) (site : Site) :
    alignGuard bytes (site.shift d) = alignGuard bytes site := by
  unfold alignGuard
  rw [emitBail_shift]

theorem lowerMem_shift (L : Layout) (insn : Insn) (site : Site) :
    lowerMem L insn (site.shift d) = lowerMem L insn site := by
  unfold lowerMem
  simp only [fastPath_shift]

theorem lowerMemPair_shift (L : Layout) (insn : Insn) (site : Site) :
    lowerMemPair L insn (site.shift d) = lowerMemPair L insn site := by
  unfold lowerMemPair
  simp only [fastPath_shift]

theorem lowerAtomic_shift (L : Layout) (insn : Insn) (site : Site) :
    lowerAtomic L insn (site.shift d) = lowerAtomic L insn site := by
  unfold lowerAtomic
  simp only [fastPath_shift, alignGuard_shift]

/-- ADR and ADRP: the run-time PC, and the distance from the entry. -/
theorem pcRel_shift (page : Bool) (imm : BitVec 64) (rd : Reg) (pc entryPc : BitVec 64) :
    pcRel page imm rd (pc + d) (entryPc + d) = pcRel page imm rd pc entryPc := by
  unfold pcRel
  rw [sub_shift, genRelPc_add_shift]

theorem lowerSequential_shift (vl : VecLowering) (insn : Insn) (pc entryPc : BitVec 64) :
    lowerSequential vl insn (pc + d) (entryPc + d) = lowerSequential vl insn pc entryPc := by
  cases insn with
  | pcRel page imm rd => exact congrArg some (pcRel_shift d page imm rd pc entryPc)
  | _ => rfl

theorem lowerInsn_shift (L : Layout) (vl : VecLowering) (insn : Insn) (site : Site) :
    lowerInsn L vl insn (site.shift d) = lowerInsn L vl insn site := by
  unfold lowerInsn
  rw [lowerMem_shift, lowerMemPair_shift, lowerAtomic_shift]
  exact congrArg _ (congrArg _ (congrArg _
    (lowerSequential_shift d vl insn site.pc site.entryPc)))

theorem storeLink_shift (pc entryPc : BitVec 64) :
    storeLink (pc + d) (entryPc + d) = storeLink pc entryPc := by
  unfold storeLink
  rw [genRelPc_add_shift]

theorem takenTarget_shift (insn : Insn) (pc : BitVec 64) :
    takenTarget insn (pc + d) = (takenTarget insn pc).map (· + d) := by
  cases insn with
  | condBranch cond offset => exact congrArg some (add_shift d pc offset)
  | compareBranch sf negate rt offset => exact congrArg some (add_shift d pc offset)
  | testBranch bit negate rt offset => exact congrArg some (add_shift d pc offset)
  | _ => rfl

/-- The PC that a terminator returns, and the link register. -/
theorem lowerTerminator_shift (insn : Insn) (pc entryPc : BitVec 64) :
    lowerTerminator insn (pc + d) (entryPc + d) = lowerTerminator insn pc entryPc := by
  unfold lowerTerminator branchSelect
  simp only [storeLink_shift, genRelPc_add_shift]

/-! ## A block -/

/-- The instructions of a block, each at its place. -/
theorem blockInsns_shift (L : Layout) (vl : VecLowering) (entryPc ramPhys ramSize : BitVec 64)
    (i : ℕ) (insns : List (BitVec 64 × Insn)) :
    blockInsns L vl (entryPc + d) ramPhys ramSize i (insns.map (shiftInsn d)) =
      blockInsns L vl entryPc ramPhys ramSize i insns := by
  induction insns generalizing i with
  | nil => rfl
  | cons p insns ih =>
    obtain ⟨pc, insn⟩ := p
    have hinsn := lowerInsn_shift d L vl insn
      ⟨pc, entryPc, BitVec.ofNat 64 i, ramPhys, ramSize, none⟩
    unfold Site.shift at hinsn
    rw [List.map_cons, shiftInsn]
    unfold blockInsns
    rw [List.isEmpty_map, lowerTerminator_shift, hinsn, ih, genRelPc_add_shift]

/-- `emit_body` of a block further on. -/
theorem emitBody_shift (L : Layout) (vl : VecLowering) (block : Block)
    (ramPhys ramSize : BitVec 64) :
    emitBody L vl (shiftBlock d block) ramPhys ramSize = emitBody L vl block ramPhys ramSize := by
  unfold emitBody shiftBlock
  rw [blockInsns_shift, List.length_map]

/-! ## A region -/

theorem setRpc_shift (abs entry : BitVec 64) : setRpc (abs + d) (entry + d) = setRpc abs entry := by
  unfold setRpc
  rw [genRelPc_shift]

/-- The same block of the region starts at the target. -/
theorem regionRoute_shift (region : Region) (target : BitVec 64) (loopDepth : ℕ) :
    regionRoute (region.shift d) (target + d) loopDepth = regionRoute region target loopDepth := by
  have hfind : (region.shift d).blocks.findIdx? (·.start == target + d) =
      region.blocks.findIdx? (·.start == target) := by
    unfold Region.shift
    rw [List.findIdx?_map]
    exact congrArg (List.findIdx? · region.blocks)
      (funext fun block => beq_shift d block.start target)
  unfold regionRoute
  rw [hfind]
  unfold Region.shift
  rw [setRpc_shift]

/-- The route of an edge that is an offset from the terminator. -/
theorem regionRoute_add_shift (region : Region) (pc k : BitVec 64) (loopDepth : ℕ) :
    regionRoute (region.shift d) (pc + d + k) loopDepth =
      regionRoute region (pc + k) loopDepth := by
  rw [add_shift, regionRoute_shift]

theorem regionTerminator_shift (region : Region) (loopDepth : ℕ) (term : Insn)
    (pc : BitVec 64) :
    regionTerminator (region.shift d) loopDepth term (pc + d) =
      regionTerminator region loopDepth term pc := by
  have hentry : (region.shift d).entry = region.entry + d := rfl
  have hset (k : BitVec 64) : setRpc (pc + d + k) (region.entry + d) =
      setRpc (pc + k) region.entry := by
    rw [add_shift, setRpc_shift]
  have hcond {insn : Insn} {offset : BitVec 64}
      (htaken : ∀ pc, takenTarget insn pc = some (pc + offset)) :
      (takenTarget insn (pc + d)).bind (fun taken => (emitTakenCond insn).bind fun cond =>
          some (cond ++ [ifElse 0 (regionRoute (region.shift d) taken (loopDepth + 1))
            (regionRoute (region.shift d) (pc + d + 4) (loopDepth + 1))])) =
        (takenTarget insn pc).bind fun taken => (emitTakenCond insn).bind fun cond =>
          some (cond ++ [ifElse 0 (regionRoute region taken (loopDepth + 1))
            (regionRoute region (pc + 4) (loopDepth + 1))]) := by
    rw [htaken, htaken, Option.bind_some, Option.bind_some, regionRoute_add_shift,
      regionRoute_add_shift]
  unfold regionTerminator
  rw [hentry]
  cases term with
  | branchImm link offset =>
    cases link with
    | false => exact congrArg some (regionRoute_add_shift d region pc offset loopDepth)
    | true =>
      dsimp only
      rw [storeLink_shift, hset]
  | branchReg opc rn =>
    dsimp only
    rw [storeLink_shift]
  | condBranch cond offset => exact hcond fun _ => rfl
  | compareBranch sf negate rt offset => exact hcond fun _ => rfl
  | testBranch bit negate rt offset => exact hcond fun _ => rfl
  | _ =>
    dsimp only
    rw [hset]

theorem regionBody_shift (L : Layout) (vl : VecLowering) (region : Region)
    (ramPhys ramSize : BitVec 64) (i : ℕ) (insns : List (BitVec 64 × Insn)) :
    regionBody L vl (region.shift d) ramPhys ramSize i (insns.map (shiftInsn d)) =
      regionBody L vl region ramPhys ramSize i insns := by
  induction insns generalizing i with
  | nil => rfl
  | cons p insns ih =>
    obtain ⟨pc, insn⟩ := p
    have hinsn := lowerInsn_shift d L vl insn
      ⟨pc, region.entry, BitVec.ofNat 64 i, ramPhys, ramSize, some rcount⟩
    have hentry : (region.shift d).entry = region.entry + d := rfl
    unfold Site.shift at hinsn
    rw [List.map_cons, shiftInsn]
    unfold regionBody
    rw [hentry, hinsn, ih]

theorem emitRegionBlock_shift (L : Layout) (vl : VecLowering) (region : Region)
    (ramPhys ramSize : BitVec 64) (loopDepth : ℕ) (block : Block) :
    emitRegionBlock L vl (region.shift d) ramPhys ramSize loopDepth (shiftBlock d block) =
      emitRegionBlock L vl region ramPhys ramSize loopDepth block := by
  have hentry : (region.shift d).entry = region.entry + d := rfl
  unfold emitRegionBlock shiftBlock
  dsimp only
  rw [List.getLast?_map, List.length_map, ← List.map_dropLast]
  cases hlast : block.insns.getLast? with
  | none => rfl
  | some p =>
    obtain ⟨pc, term⟩ := p
    rw [Option.map_some, shiftInsn]
    dsimp only [Option.bind_eq_bind, Option.bind_some]
    rw [← apply_ite (List.map (shiftInsn d)), regionBody_shift, regionTerminator_shift, hentry,
      add_shift, setRpc_shift]

theorem regionBlocks_shift (L : Layout) (vl : VecLowering) (region : Region)
    (ramPhys ramSize : BitVec 64) (k i : ℕ) (blocks : List Block) (code : List Instr) :
    regionBlocks L vl (region.shift d) ramPhys ramSize k i (blocks.map (shiftBlock d)) code =
      regionBlocks L vl region ramPhys ramSize k i blocks code := by
  induction blocks generalizing i code with
  | nil => rfl
  | cons block blocks ih =>
    rw [List.map_cons]
    unfold regionBlocks
    rw [emitRegionBlock_shift]
    simp only [ih]

theorem emitRegionBody_shift (L : Layout) (vl : VecLowering) (region : Region)
    (ramPhys ramSize : BitVec 64) :
    emitRegionBody L vl (region.shift d) ramPhys ramSize =
      emitRegionBody L vl region ramPhys ramSize := by
  have hblocks : (region.shift d).blocks = region.blocks.map (shiftBlock d) := rfl
  unfold emitRegionBody
  rw [hblocks, List.length_map]
  dsimp only
  rw [regionBlocks_shift]

/-- The terminator branches to the entry of its own block. -/
theorem isSelfLoop_shift (block : Block) : isSelfLoop (shiftBlock d block) = isSelfLoop block := by
  unfold isSelfLoop shiftBlock
  dsimp only
  rw [List.getLast?_map]
  cases block.insns.getLast? with
  | none => rfl
  | some p =>
    obtain ⟨pc, insn⟩ := p
    rw [Option.map_some, shiftInsn]
    dsimp only
    rw [takenTarget_shift]
    cases takenTarget insn pc with
    | none => rfl
    | some target => exact beq_shift d target block.start

/-- `emit_region` of a region further on. -/
theorem emitRegion_shift (L : Layout) (vl : VecLowering) (region : Region)
    (ramPhys ramSize : BitVec 64) :
    emitRegion L vl (region.shift d) ramPhys ramSize = emitRegion L vl region ramPhys ramSize := by
  have hblocks : (region.shift d).blocks = region.blocks.map (shiftBlock d) := rfl
  unfold emitRegion
  rw [hblocks, emitRegionBody_shift]
  match region.blocks with
  | [] => rfl
  | [b] =>
    show (if isSelfLoop (shiftBlock d b) then emitRegionBody L vl region ramPhys ramSize
      else emitBody L vl (shiftBlock d b) ramPhys ramSize) = _
    rw [isSelfLoop_shift, emitBody_shift]
  | _ :: _ :: _ => rfl

end Shift

/-! ## Discovery -/

section Discovery

variable {d : BitVec 64}

/-- The page of an address that is moved by whole pages. -/
theorem pageOf_shift (hd : d &&& 0xfff = 0) (a : BitVec 64) :
    (a + d) &&& ~~~0xfff = (a &&& ~~~0xfff) + d := by
  have ha : (a &&& ~~~0xfff).toNat % 4096 = 0 := by
    rw [← toNat_pageOffset, BitVec.and_assoc, BitVec.not_and_self]
    exact congrArg BitVec.toNat BitVec.and_zero
  have hdpage : d.toNat % 4096 = 0 := by
    rw [← toNat_pageOffset, hd]
    rfl
  have hpage : ((a &&& ~~~0xfff) + d) &&& 0xfff = 0 := by
    apply BitVec.eq_of_toNat_eq
    rw [toNat_pageOffset, BitVec.toNat_add]
    show _ = 0
    omega
  have hsum : a + d = (a &&& ~~~0xfff) + d + (a &&& 0xfff) := by
    nth_rewrite 1 [← page_add_offset a]
    ring
  have hoff : (((a &&& ~~~0xfff) + d) &&& 0xfff).toNat + (a &&& 0xfff).toNat < 4096 := by
    rw [hpage, toNat_pageOffset]
    show 0 + a.toNat % 4096 < 4096
    omega
  have hbase := page_add_offset ((a &&& ~~~0xfff) + d)
  rw [hpage, add_zero] at hbase
  rw [hsum]
  exact (pageOf_add hoff).trans hbase

theorem tryBlockInsns_shift {vl : VecLowering} {read read' : BitVec 64 → Option (BitVec 32)}
    (hread : ∀ a, read' (a + d) = read a) (room : ℕ) (pc : BitVec 64) :
    tryBlockInsns vl read' room (pc + d) =
      (tryBlockInsns vl read room pc).map (List.map (shiftInsn d)) := by
  induction room generalizing pc with
  | zero => rfl
  | succ room ih =>
    unfold tryBlockInsns
    rw [hread, add_shift, ih]
    cases read pc with
    | none => rfl
    | some word =>
      dsimp only [Option.bind_eq_bind, Option.bind_some]
      split_ifs
      · cases tryBlockInsns vl read room (pc + 4) with
        | none => rfl
        | some insns => rfl
      · rfl
      · rfl

theorem tryFormJitBlock_shift (vl : VecLowering) {read read' : BitVec 64 → Option (BitVec 32)}
    (hread : ∀ a, read' (a + d) = read a) (start : BitVec 64) (maxLen : ℕ) :
    tryFormJitBlock vl read' (start + d) maxLen =
      (tryFormJitBlock vl read start maxLen).map (shiftBlock d) := by
  unfold tryFormJitBlock
  rw [tryBlockInsns_shift hread, Option.map_map, Option.map_map]
  rfl

/-- The in-page successors of a block in a page further on. -/
theorem directSuccessors_shift (hd : d &&& 0xfff = 0) (block : Block) (pageBase : BitVec 64) :
    directSuccessors (shiftBlock d block) (pageBase + d) =
      (directSuccessors block pageBase).map (· + d) := by
  have hpage : (fun a : BitVec 64 => a &&& ~~~0xfff == pageBase + d) ∘ (· + d) =
      fun a : BitVec 64 => a &&& ~~~0xfff == pageBase := by
    funext a
    show ((a + d) &&& ~~~0xfff == pageBase + d) = _
    rw [pageOf_shift hd, beq_shift]
  have hfilter (targets : List (BitVec 64)) :
      (targets.map (· + d)).filter (fun a => a &&& ~~~0xfff == pageBase + d) =
        (targets.filter fun a => a &&& ~~~0xfff == pageBase).map (· + d) := by
    rw [List.filter_map, hpage]
  have hcond (pc offset : BitVec 64) :
      [pc + d + offset, pc + d + 4] = [pc + offset, pc + 4].map (· + d) := by
    rw [add_shift d pc offset, add_shift d pc 4]
    rfl
  have hjump (pc offset : BitVec 64) : [pc + d + offset] = [pc + offset].map (· + d) := by
    rw [add_shift]
    rfl
  unfold directSuccessors shiftBlock
  dsimp only
  rw [List.getLast?_map]
  cases block.insns.getLast? with
  | none => rfl
  | some p =>
    obtain ⟨pc, insn⟩ := p
    rw [Option.map_some, shiftInsn]
    dsimp only
    cases insn with
    | branchImm link offset =>
      cases link with
      | true => rfl
      | false =>
        dsimp only
        rw [hjump, hfilter]
    | condBranch cond offset =>
      dsimp only
      rw [hcond, hfilter]
    | compareBranch sf negate rt offset =>
      dsimp only
      rw [hcond, hfilter]
    | testBranch bit negate rt offset =>
      dsimp only
      rw [hcond, hfilter]
    | _ => rfl

theorem contains_shift (l : List (BitVec 64)) (a : BitVec 64) :
    (l.map (· + d)).contains (a + d) = l.contains a := by
  rw [Bool.eq_iff_iff, List.contains_iff_mem, List.contains_iff_mem, List.mem_map]
  constructor
  · rintro ⟨b, hb, heq⟩
    rwa [← (shift_inj d).mp heq]
  · intro ha
    exact ⟨a, ha, rfl⟩

/-- The end of the page is as far from an entry in both places, if both pages have one. -/
theorem bytesLeft_shift (hd : d &&& 0xfff = 0) {t : Target} {start : BitVec 64}
    (hfits : EndFits t start) (hfits' : EndFits t (start + d)) (pc : BitVec 64)
    (hpc : pc &&& ~~~0xfff = start &&& ~~~0xfff) :
    bytesLeft t ((start &&& ~~~0xfff) + d) (pc + d) = bytesLeft t (start &&& ~~~0xfff) pc := by
  have hpc' : (pc + d) &&& ~~~0xfff = (start &&& ~~~0xfff) + d := by
    rw [pageOf_shift hd, hpc]
  have hstart' : (start + d) &&& ~~~0xfff = (start &&& ~~~0xfff) + d := pageOf_shift hd start
  have hend : (start &&& ~~~0xfff) + d + 0x1000 - (pc + d) =
      (start &&& ~~~0xfff) + 0x1000 - pc := by
    ring
  rw [bytesLeft_eq hpc', bytesLeft_eq hpc, if_pos, if_pos, hend]
  · exact (endFits_iff hpc).mpr ((endFits_iff rfl).mp hfits)
  · exact (endFits_iff hpc').mpr ((endFits_iff hstart').mp hfits')

theorem tryRegionLoop_shift (hd : d &&& 0xfff = 0) {t : Target} (vl : VecLowering)
    {read read' : BitVec 64 → Option (BitVec 32)} (hread : ∀ a, read' (a + d) = read a)
    (maxBlocks maxBlockLen : ℕ) {pageBase : BitVec 64}
    (hend : ∀ pc, pc &&& ~~~0xfff = pageBase →
      bytesLeft t (pageBase + d) (pc + d) = bytesLeft t pageBase pc)
    (blocks : List Block) (seen work : List (BitVec 64))
    (hwork : ∀ a ∈ work, a &&& ~~~0xfff = pageBase) :
    tryRegionLoop vl read' t maxBlocks maxBlockLen (pageBase + d) (blocks.map (shiftBlock d))
        (seen.map (· + d)) (work.map (· + d)) =
      (tryRegionLoop vl read t maxBlocks maxBlockLen pageBase blocks seen work).map
        (List.map (shiftBlock d)) := by
  have htail {pc : BitVec 64} {work : List (BitVec 64)}
      (h : ∀ a ∈ pc :: work, a &&& ~~~0xfff = pageBase) : ∀ a ∈ work, a &&& ~~~0xfff = pageBase :=
    fun a ha => h a (List.mem_cons_of_mem pc ha)
  have hblock {pc : BitVec 64} {work : List (BitVec 64)}
      (h : ∀ a ∈ pc :: work, a &&& ~~~0xfff = pageBase) :
      ((bytesLeft t (pageBase + d) (pc + d)).bind fun left =>
          tryFormJitBlock vl read' (pc + d) (min maxBlockLen (left / 4).toNat)) =
        ((bytesLeft t pageBase pc).bind fun left =>
          tryFormJitBlock vl read pc (min maxBlockLen (left / 4).toNat)).map (shiftBlock d) := by
    rw [hend pc (h pc List.mem_cons_self)]
    cases bytesLeft t pageBase pc with
    | none => rfl
    | some left => exact tryFormJitBlock_shift vl hread pc _
  fun_induction tryRegionLoop vl read t maxBlocks maxBlockLen pageBase blocks seen work with
  | case1 blocks seen =>
    rw [List.map_nil, tryRegionLoop]
    rfl
  | case2 blocks seen pc work hskip ih =>
    rw [List.map_cons, tryRegionLoop, contains_shift, List.length_map, if_pos hskip,
      ih (htail hwork)]
  | case3 blocks seen pc work hskip hform =>
    rw [List.map_cons, tryRegionLoop, contains_shift, List.length_map, if_neg hskip,
      hblock hwork, hform]
    rfl
  | case4 blocks seen pc work hskip block hform hempty ih =>
    rw [List.map_cons, tryRegionLoop, contains_shift, List.length_map, if_neg hskip,
      hblock hwork, hform, Option.map_some]
    dsimp only [shiftBlock]
    rw [List.isEmpty_map, if_pos hempty]
    exact ih (htail hwork)
  | case5 blocks seen pc work hskip block hform hempty seen' succs ih =>
    have hsuccs : ((directSuccessors (shiftBlock d block) (pageBase + d)).filter
        (!((pc + d) :: seen.map (· + d)).contains ·)) = succs.map (· + d) := by
      rw [directSuccessors_shift hd, List.filter_map]
      apply congrArg (List.map (· + d))
      apply congrArg (List.filter · _)
      funext a
      exact congrArg not (contains_shift (pc :: seen) a)
    have hnext : ∀ a ∈ succs.reverse ++ work, a &&& ~~~0xfff = pageBase := by
      intro a ha
      obtain ha | ha := List.mem_append.mp ha
      · have hsucc := (List.mem_filter.mp (List.mem_reverse.mp ha)).1
        exact (mem_directSuccessors.mp hsucc).2
      · exact htail hwork a ha
    rw [List.map_cons, tryRegionLoop, contains_shift, List.length_map, if_neg hskip,
      hblock hwork, hform, Option.map_some]
    dsimp only
    rw [hsuccs, ← List.map_reverse, ← List.map_append, ← ih hnext,
      List.map_append (f := shiftBlock d)]
    have hne : ¬(shiftBlock d block).insns.isEmpty = true := by
      unfold shiftBlock
      rw [List.isEmpty_map]
      exact hempty
    rw [if_neg hne]
    rfl

theorem tryFormRegion_shift (hd : d &&& 0xfff = 0) {t : Target} (vl : VecLowering)
    {read read' : BitVec 64 → Option (BitVec 32)} (hread : ∀ a, read' (a + d) = read a)
    {start : BitVec 64} (hfits : EndFits t start) (hfits' : EndFits t (start + d))
    (maxBlocks maxBlockLen : ℕ) :
    tryFormRegion vl read' t (start + d) maxBlocks maxBlockLen =
      (tryFormRegion vl read t start maxBlocks maxBlockLen).map (Region.shift d) := by
  have hloop := tryRegionLoop_shift hd vl hread maxBlocks maxBlockLen
    (bytesLeft_shift hd hfits hfits') [] [] [start]
    fun a ha => by rw [List.mem_singleton.mp ha]
  unfold tryFormRegion
  rw [pageOf_shift hd, Option.map_map]
  rw [List.map_nil, List.map_nil, List.map_singleton] at hloop
  rw [hloop, Option.map_map]
  rfl

end Discovery

/-! ## The cache -/

/-- What `jit_step` puts into its cache for an entry that has become hot. -/
inductive Compiled where
  | plain
  | hot (code : List Instr)

section Cache

variable {M : Type} [GuestMem M] (t : Target) (L : Layout) (ramPhys ramSize : BitVec 64)

/-- The compilation in `jit_step` (`machine/jit.rs`, lines 219–231) of the entry at `pc`,
    whose physical address is `pa`. -/
def compileHot (m : M) (pc pa : BitVec 64) : Option Compiled := do
  let region ← (formJitRegion t vecLowering m pc pa).1
  if region.blocks.isEmpty then return .plain
  else
    let code ← emitRegion L vecLowering region ramPhys ramSize
    return .hot code

/-- `emit_block` of the block that `form_jit_block` finds at `pc` in a page of `words`. -/
def compileBlock (words : List (BitVec 32)) (maxLen : ℕ) (pc : BitVec 64) :
    Option (List Instr) := do
  let block ← tryFormJitBlock vecLowering (jitRead t words (pc &&& ~~~0xfff)) pc maxLen
  emitBody L vecLowering block ramPhys ramSize

/-- The words of a physical page. -/
def wordsAt (m : M) (pa : BitVec 64) : List (BitVec 32) :=
  (pageWords (page / 4).toNat (pa &&& ~~~0xfff) m).1

/-- The distance of two addresses at the same offset in their pages. -/
theorem sub_pageOffset {a b : BitVec 64} (h : b &&& 0xfff = a &&& 0xfff) :
    (b - a) &&& 0xfff = 0 := by
  have hoff := congrArg BitVec.toNat h
  rw [toNat_pageOffset, toNat_pageOffset] at hoff
  apply BitVec.eq_of_toNat_eq
  rw [toNat_pageOffset, BitVec.toNat_sub]
  show _ = 0
  omega

/-- The word at the same place of a page mapped further on. -/
theorem jitRead_shift (words : List (BitVec 32)) (d pageVa a : BitVec 64) :
    jitRead t words (pageVa + d) (a + d) = jitRead t words pageVa a := by
  unfold jitRead
  rw [sub_shift]

/-- Formation panics, for an entry whose page has no end in the build. -/
theorem compileHot_eq_none {t : Target} {pc : BitVec 64} (hfits : ¬ EndFits t pc) (m : M)
    (pa : BitVec 64) : compileHot t L ramPhys ramSize m pc pa = none := by
  unfold compileHot
  rw [fst_formJitRegion, tryFormRegion_eq_none hfits _ (by decide)]
  rfl

/-- Wherever the page of an entry is mapped, it has the same compiled function: whatever
    the entry PC is when it runs, it ends in the same way and in the same state as what is
    compiled for that PC. In a build with overflow checks nothing can be compiled for an entry
    in the last page of the address space; in one without, every page is as good. -/
theorem compileHot_congr {m m' : M} {pc pc' pa pa' : BitVec 64}
    (hoff : pc' &&& 0xfff = pc &&& 0xfff) (hwords : wordsAt m' pa' = wordsAt m pa) :
    (EndFits t pc → EndFits t pc' →
      compileHot t L ramPhys ramSize m' pc' pa' = compileHot t L ramPhys ramSize m pc pa) ∧
    (¬ EndFits t pc → compileHot t L ramPhys ramSize m pc pa = none) ∧
    (∀ words maxLen, compileBlock t L ramPhys ramSize words maxLen pc' =
      compileBlock t L ramPhys ramSize words maxLen pc) ∧
    ∀ {D : Type} (code code' : List Instr) (fuel : ℕ) (s : State (HostMem D)),
      compileHot t L ramPhys ramSize m pc pa = some (.hot code) →
      compileHot t L ramPhys ramSize m' pc' pa' = some (.hot code') →
      exec fuel code s = exec fuel code' s := by
  have hd := sub_pageOffset hoff
  have hpc : pc' = pc + (pc' - pc) := by ring
  have hpage : pc' &&& ~~~0xfff = (pc &&& ~~~0xfff) + (pc' - pc) := by
    nth_rewrite 1 [hpc]
    exact pageOf_shift hd pc
  have hread (words : List (BitVec 32)) (a : BitVec 64) :
      jitRead t words (pc' &&& ~~~0xfff) (a + (pc' - pc)) =
        jitRead t words (pc &&& ~~~0xfff) a := by
    rw [hpage, jitRead_shift]
  have hregion (hfits : EndFits t pc) (hfits' : EndFits t pc') :
      (formJitRegion t vecLowering m' pc' pa').1 =
        (formJitRegion t vecLowering m pc pa).1.map (Region.shift (pc' - pc)) := by
    have hshift := tryFormRegion_shift hd vecLowering (hread (wordsAt m pa)) hfits
      (by rwa [← hpc]) maxRegionBlocks maxJitBlock
    rw [← hpc] at hshift
    unfold wordsAt at hwords
    rw [fst_formJitRegion, fst_formJitRegion, hwords]
    exact hshift
  have hcode (hfits : EndFits t pc) (hfits' : EndFits t pc') :
      compileHot t L ramPhys ramSize m' pc' pa' = compileHot t L ramPhys ramSize m pc pa := by
    unfold compileHot
    rw [hregion hfits hfits']
    cases (formJitRegion t vecLowering m pc pa).1 with
    | none => rfl
    | some region =>
      dsimp only [Option.map_some, Option.bind_eq_bind, Option.bind_some]
      rw [emitRegion_shift]
      simp only [Region.shift, List.isEmpty_map]
  refine ⟨hcode, fun hfits => compileHot_eq_none L ramPhys ramSize hfits m pa,
    fun words maxLen => ?_, fun code code' fuel s h h' => ?_⟩
  · have hblock := tryFormJitBlock_shift vecLowering (hread words) pc maxLen
    rw [← hpc] at hblock
    unfold compileBlock
    rw [hblock]
    cases tryFormJitBlock vecLowering (jitRead t words (pc &&& ~~~0xfff)) pc maxLen with
    | none => rfl
    | some block => exact emitBody_shift (pc' - pc) L vecLowering block ramPhys ramSize
  · by_cases hfits : EndFits t pc
    · by_cases hfits' : EndFits t pc'
      · rw [hcode hfits hfits', h] at h'
        cases h'
        rfl
      · rw [compileHot_eq_none L ramPhys ramSize hfits'] at h'
        cases h'
    · rw [compileHot_eq_none L ramPhys ramSize hfits] at h
      cases h

/-- The entry at offset 4 of a page that is mapped at `0x1000` and at `0x7f000`. -/
theorem compileHot_congr_alias :
    compileHot .release64 layoutAt0 0x40000000 0x1000 emptyBus 0x7f004 0x40000004 =
      compileHot .release64 layoutAt0 0x40000000 0x1000 emptyBus 0x1004 0x40000004 :=
  (compileHot_congr .release64 layoutAt0 0x40000000 0x1000 (by decide) rfl).1 (by decide)
    (by decide)

end Cache

end V64.Jit
