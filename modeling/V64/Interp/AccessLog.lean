import V64.Interp.ByteAccess

/-!
# One access and the pending abort

What one access does does not depend on the abort that is pending: it completes and
leaves that abort, or it faults and leaves its own, whose FAR is one of its bytes. A
memory that logs the addresses it is written at tells which accesses have written.

* `Logged`: a memory with the log of its writes.
* `AccessEnd`: the two ways in which an access ends.
* `accessEnd_readAt`, `accessEnd_writeAt`, `accessEnd_gather`, `accessEnd_scatter`: each access
  ends so; a read logs nothing, a write that completes logs something.
-/

namespace V64.Interp

open V64.Cpu

/-! ## A memory that logs its writes -/

/-- A memory with the addresses of the writes so far. -/
structure Logged (M : Type) where
  mem : M
  log : List (BitVec 64)

/-- A write, logged. -/
def Logged.wrote {M : Type} (m : Logged M) (addr : BitVec 64) (mem : M) : Logged M :=
  { mem := mem, log := m.log ++ [addr] }

instance {M : Type} [GuestMem M] : GuestMem (Logged M) where
  readU8 m addr := let r := GuestMem.readU8 m.mem addr; (r.1, { m with mem := r.2 })
  readU16 m addr := let r := GuestMem.readU16 m.mem addr; (r.1, { m with mem := r.2 })
  readU32 m addr := let r := GuestMem.readU32 m.mem addr; (r.1, { m with mem := r.2 })
  readU64 m addr := let r := GuestMem.readU64 m.mem addr; (r.1, { m with mem := r.2 })
  writeU8 m addr val := m.wrote addr (GuestMem.writeU8 m.mem addr val)
  writeU16 m addr val := m.wrote addr (GuestMem.writeU16 m.mem addr val)
  writeU32 m addr val := m.wrote addr (GuestMem.writeU32 m.mem addr val)
  writeU64 m addr val := m.wrote addr (GuestMem.writeU64 m.mem addr val)

/-! ## The abort that is pending -/

/-- The guest with another pending abort. -/
def Guest.setAbort {M : Type} (g : Guest M) (x : Option Abort) : Guest M :=
  { g with cpu := { g.cpu with pendingAbort := x } }

section Translate

variable {M : Type} [GuestMem M]

/-- A translation neither reads nor changes the pending abort. -/
theorem translate_setAbort (g : Guest M) (x : Option Abort) (va : BitVec 64) (access : Access)
    (el : Fin 4) :
    translate (g.setAbort x) va access el =
      ((translate g va access el).1, (translate g va access el).2.setAbort x) := by
  cases hmmu : mmuEnabled g.cpu with
  | false =>
    have hoff : mmuEnabled (g.setAbort x).cpu = false := hmmu
    rw [translate_of_off hmmu, translate_of_off hoff]
  | true =>
    have hon : mmuEnabled (g.setAbort x).cpu = true := hmmu
    cases hlookup : g.cpu.tlb.lookup (pageOf va) with
    | some entry =>
      have hhit : (g.setAbort x).cpu.tlb.lookup (pageOf va) = some entry := hlookup
      rw [translate_of_hit hmmu hlookup, translate_of_hit hon hhit]
    | none =>
      have hmiss : (g.setAbort x).cpu.tlb.lookup (pageOf va) = none := hlookup
      rw [translate_of_miss hmmu hlookup, translate_of_miss hon hmiss]
      have hregion : region (g.setAbort x).cpu va = region g.cpu va := rfl
      have hmem : (g.setAbort x).mem = g.mem := rfl
      unfold translateMiss
      dsimp only
      rw [hregion, hmem]
      generalize walk g.mem (region g.cpu va).1 va (region g.cpu va).2 = r
      obtain ⟨leaf, mem⟩ := r
      cases leaf <;> rfl

/-- The end of one access: it completes and leaves the abort that was pending, or it
    faults at byte `k` and leaves its own. -/
inductive AccessEnd (f : Guest M → Guest M) (g : Guest M) (va : BitVec 64) (n : ℕ) (write : Bool)
    (R : M → M → Prop) : Prop where
  | ok (g1 : Guest M) (hrun : ∀ x, f (g.setAbort x) = g1.setAbort x) (hmem : R g.mem g1.mem)
  | fault (g1 : Guest M) (k : ℕ) (hk : k < n) (fsc : BitVec 8)
      (hrun : ∀ x, f (g.setAbort x) = g1.setAbort
        (some { far := va + BitVec.ofNat 64 k, write := write, fsc := fsc }))

omit [GuestMem M] in
theorem AccessEnd.mono {f : Guest M → Guest M} {g : Guest M} {va : BitVec 64} {n : ℕ} {write : Bool}
    {R R' : M → M → Prop} (h : AccessEnd f g va n write R) (hR : ∀ m m', R m m' → R' m m') :
    AccessEnd f g va n write R' := by
  cases h with
  | ok g1 hrun hmem => exact .ok g1 hrun (hR _ _ hmem)
  | fault g1 k hk fsc hrun => exact .fault g1 k hk fsc hrun

end Translate

section Log

variable {M : Type} [GuestMem M]

theorem log_walkLoop (va : BitVec 64) (left : ℕ) (m : Logged M) (tableBase : BitVec 64)
    (tp : TablePerms) : (walkLoop va left m tableBase tp).2.log = m.log := by
  induction left generalizing m tableBase tp with
  | zero =>
    rw [walkLoop]
    dsimp only
    split <;> rfl
  | succ left ih =>
    rw [walkLoop]
    dsimp only
    split
    · rfl
    · rfl
    · exact ih _ _ _

/-- A translation writes nothing. -/
theorem log_translate (g : Guest (Logged M)) (va : BitVec 64) (access : Access) (el : Fin 4) :
    (translate g va access el).2.mem.log = g.mem.log := by
  unfold translate
  split_ifs
  · rfl
  · split
    · rfl
    · have hwalk := log_walkLoop va (3 - startingLevel (region g.cpu va).2).toNat g.mem
        (region g.cpu va).1 TablePerms.default
      unfold translateMiss walk
      dsimp only
      split
      · next heq =>
        rw [heq] at hwalk
        exact hwalk
      · next heq =>
        rw [heq] at hwalk
        exact hwalk

/-- The translation of one address of an access, whatever is pending. -/
theorem xlate_setAbort (g : Guest (Logged M)) (va : BitVec 64) (write : Bool) (el : Fin 4) :
    (∃ pa, ∃ g1 : Guest (Logged M),
      (∀ x, xlate (g.setAbort x) va write el = (some pa, g1.setAbort x)) ∧
      g1.mem.log = g.mem.log) ∨
    (∃ fsc, ∃ g1 : Guest (Logged M), ∀ x, xlate (g.setAbort x) va write el =
      (none, g1.setAbort (some { far := va, write := write, fsc := fsc }))) := by
  have hlog := log_translate g va (if write then .write else .read) el
  have htranslate (x : Option Abort) :=
    translate_setAbort g x va (if write then .write else .read) el
  generalize translate g va (if write then .write else .read) el = r at hlog htranslate
  obtain ⟨result, g1⟩ := r
  cases result with
  | ok pa =>
    refine .inl ⟨pa, g1, fun x => ?_, hlog⟩
    unfold xlate
    dsimp only
    rw [htranslate x]
  | error fsc =>
    refine .inr ⟨fsc, g1, fun x => ?_⟩
    unfold xlate
    dsimp only
    rw [htranslate x]
    rfl

theorem log_gatherChunk (pa : BitVec 64) (done chunk : ℕ) (val : BitVec 128) (m : Logged M) :
    (gatherChunk pa done chunk val m).2.log = m.log := by
  induction chunk with
  | zero => rfl
  | succ i ih =>
    rw [gatherChunk]
    exact ih

theorem log_scatterChunk (pa : BitVec 64) (done chunk : ℕ) (val : BitVec 128) (m : Logged M) :
    (scatterChunk pa done val chunk m).log.length = m.log.length + chunk := by
  induction chunk with
  | zero => rfl
  | succ i ih =>
    rw [scatterChunk]
    show ((scatterChunk pa done val i m).log ++ [_]).length = _
    rw [List.length_append, ih]
    rfl

theorem log_readSized (m : Logged M) (pa : BitVec 64) (size : ℕ) :
    (readSized m pa size).2.log = m.log := by
  unfold readSized
  split <;> rfl

theorem log_writeSized (m : Logged M) (pa : BitVec 64) (size : ℕ) (val : BitVec 64) :
    m.log.length < (writeSized m pa size val).log.length := by
  have hwrote (mem : M) : m.log.length < (m.wrote pa mem).log.length := by
    show m.log.length < (m.log ++ [pa]).length
    rw [List.length_append]
    exact Nat.lt_succ_self _
  unfold writeSized
  split
  · exact hwrote _
  · exact hwrote _
  · exact hwrote _
  · exact hwrote _

/-- A read leaves the log as it is. -/
abbrev SameLog (m m' : Logged M) : Prop := m'.log = m.log

/-- A write adds to the log. -/
abbrev MoreLog (m m' : Logged M) : Prop := m.log.length < m'.log.length

variable (va : BitVec 64) (n : ℕ) (el : Fin 4)

theorem accessEnd_gatherLoop (fuel : ℕ) (val : BitVec 128) (done : ℕ) (g : Guest (Logged M)) :
    AccessEnd (fun g => (gatherLoop va n el fuel val done g).2) g va n false SameLog := by
  induction fuel generalizing val done g with
  | zero => exact .ok g (fun _ => rfl) rfl
  | succ fuel ih =>
    by_cases hlt : done < n
    · obtain ⟨pa, g1, hx, hlog⟩ | ⟨fsc, g1, hx⟩ :=
        xlate_setAbort g (va + BitVec.ofNat 64 done) false el
      · set chunk := chunkLen (va + BitVec.ofNat 64 done) done n
        set r := gatherChunk pa done chunk val g1.mem with hr
        have hrun (x : Option Abort) :
            (gatherLoop va n el (fuel + 1) val done (g.setAbort x)).2 =
              (gatherLoop va n el fuel r.1 (done + chunk)
                (({ g1 with mem := r.2 } : Guest (Logged M)).setAbort x)).2 := by
          rw [gatherLoop, if_pos hlt]
          dsimp only
          rw [hx x]
          rfl
        have hsame : r.2.log = g.mem.log := (log_gatherChunk pa done chunk val g1.mem).trans hlog
        cases ih r.1 (done + chunk) { g1 with mem := r.2 } with
        | ok g2 hrest hmem => exact .ok g2 (fun x => (hrun x).trans (hrest x)) (hmem.trans hsame)
        | fault g2 k hk fsc hrest => exact .fault g2 k hk fsc fun x => (hrun x).trans (hrest x)
      · refine .fault g1 done hlt fsc fun x => ?_
        show (gatherLoop va n el (fuel + 1) val done (g.setAbort x)).2 = _
        rw [gatherLoop, if_pos hlt]
        dsimp only
        rw [hx x]
    · refine .ok g (fun x => ?_) rfl
      show (gatherLoop va n el (fuel + 1) val done (g.setAbort x)).2 = _
      rw [gatherLoop, if_neg hlt]

theorem accessEnd_scatterLoop (val : BitVec 128) (fuel done : ℕ) (g : Guest (Logged M))
    (hfuel : n ≤ done + fuel) :
    AccessEnd (fun g => scatterLoop va n val el fuel done g) g va n true
      (fun m m' => m.log.length + (n - done) ≤ m'.log.length) := by
  induction fuel generalizing done g with
  | zero => exact .ok g (fun _ => rfl) (by omega)
  | succ fuel ih =>
    by_cases hlt : done < n
    · obtain ⟨pa, g1, hx, hlog⟩ | ⟨fsc, g1, hx⟩ :=
        xlate_setAbort g (va + BitVec.ofNat 64 done) true el
      · have hoff : ((va + BitVec.ofNat 64 done) &&& 0xfff).toNat < 4096 := by
          rw [toNat_pageOffset]
          omega
        have hpos : 0 < chunkLen (va + BitVec.ofNat 64 done) done n := by
          rw [chunkLen_eq]
          omega
        set chunk := chunkLen (va + BitVec.ofNat 64 done) done n
        set m := scatterChunk pa done val chunk g1.mem with hm
        have hrun (x : Option Abort) :
            scatterLoop va n val el (fuel + 1) done (g.setAbort x) =
              scatterLoop va n val el fuel (done + chunk)
                (({ g1 with mem := m } : Guest (Logged M)).setAbort x) := by
          rw [scatterLoop, if_pos hlt]
          dsimp only
          rw [hx x]
          rfl
        have hlen : m.log.length = g.mem.log.length + chunk := by
          rw [hm, log_scatterChunk, hlog]
        cases ih (done + chunk) { g1 with mem := m } (by omega) with
        | ok g2 hrest hmem =>
          have hmem' : m.log.length + (n - (done + chunk)) ≤ g2.mem.log.length := hmem
          exact .ok g2 (fun x => (hrun x).trans (hrest x)) (by omega)
        | fault g2 k hk fsc hrest => exact .fault g2 k hk fsc fun x => (hrun x).trans (hrest x)
      · refine .fault g1 done hlt fsc fun x => ?_
        show scatterLoop va n val el (fuel + 1) done (g.setAbort x) = _
        rw [scatterLoop, if_pos hlt]
        dsimp only
        rw [hx x]
    · refine .ok g (fun x => ?_) (by omega)
      show scatterLoop va n val el (fuel + 1) done (g.setAbort x) = _
      rw [scatterLoop, if_neg hlt]

theorem accessEnd_gather (g : Guest (Logged M)) :
    AccessEnd (fun g => (gather g va n el).2) g va n false SameLog :=
  accessEnd_gatherLoop va n el n 0 0 g

theorem accessEnd_scatter (val : BitVec 128) (hn : 0 < n) (g : Guest (Logged M)) :
    AccessEnd (fun g => scatter g va n val el) g va n true MoreLog := by
  refine (accessEnd_scatterLoop va n el val n 0 g (by omega)).mono fun m m' h => ?_
  show m.log.length < m'.log.length
  omega

theorem accessEnd_readAt (size : ℕ) (g : Guest (Logged M)) :
    AccessEnd (fun g => (readAt g va size el).2) g va (1 <<< size) false SameLog := by
  have hzero : va + BitVec.ofNat 64 0 = va := BitVec.add_zero va
  by_cases hone : inOnePage va (1 <<< size) = true
  · obtain ⟨pa, g1, hx, hlog⟩ | ⟨fsc, g1, hx⟩ := xlate_setAbort g va false el
    · refine .ok { g1 with mem := (readSized g1.mem pa size).2 } (fun x => ?_)
        ((log_readSized g1.mem pa size).trans hlog)
      show (readAt (g.setAbort x) va size el).2 = _
      unfold readAt
      rw [if_pos hone, hx x]
      rfl
    · have hpos : 0 < 1 <<< size := one_le_shiftLeft size
      refine .fault g1 0 hpos fsc fun x => ?_
      show (readAt (g.setAbort x) va size el).2 = _
      unfold readAt
      rw [if_pos hone, hx x, hzero]
  · have hsplit (x : Option Abort) : (readAt (g.setAbort x) va size el).2 =
        (gather (g.setAbort x) va (1 <<< size) el).2 := by
      unfold readAt
      rw [if_neg hone]
    cases accessEnd_gather va (1 <<< size) el g with
    | ok g1 hrun hmem => exact .ok g1 (fun x => (hsplit x).trans (hrun x)) hmem
    | fault g1 k hk fsc hrun => exact .fault g1 k hk fsc fun x => (hsplit x).trans (hrun x)

theorem accessEnd_writeAt (size : ℕ) (val : BitVec 64) (g : Guest (Logged M)) :
    AccessEnd (fun g => writeAt g va size val el) g va (1 <<< size) true MoreLog := by
  have hzero : va + BitVec.ofNat 64 0 = va := BitVec.add_zero va
  have hpos : 0 < 1 <<< size := one_le_shiftLeft size
  by_cases hone : inOnePage va (1 <<< size) = true
  · obtain ⟨pa, g1, hx, hlog⟩ | ⟨fsc, g1, hx⟩ := xlate_setAbort g va true el
    · have hmore : g.mem.log.length < (writeSized g1.mem pa size val).log.length := by
        rw [← hlog]
        exact log_writeSized g1.mem pa size val
      refine .ok { g1 with mem := writeSized g1.mem pa size val } (fun x => ?_) hmore
      show writeAt (g.setAbort x) va size val el = _
      unfold writeAt
      rw [if_pos hone, hx x]
      rfl
    · refine .fault g1 0 hpos fsc fun x => ?_
      show writeAt (g.setAbort x) va size val el = _
      unfold writeAt
      rw [if_pos hone, hx x, hzero]
  · have hsplit (x : Option Abort) : writeAt (g.setAbort x) va size val el =
        scatter (g.setAbort x) va (1 <<< size) (val.setWidth 128) el := by
      unfold writeAt
      rw [if_neg hone]
    cases accessEnd_scatter va (1 <<< size) el (val.setWidth 128) hpos g with
    | ok g1 hrun hmem => exact .ok g1 (fun x => (hsplit x).trans (hrun x)) hmem
    | fault g1 k hk fsc hrun => exact .fault g1 k hk fsc fun x => (hsplit x).trans (hrun x)

end Log

end V64.Interp
