import V64.Interp.ByteAccess
import V64.Platform.Ram

/-!
# Ranges of RAM

An access of several bytes whose bytes all lie in RAM, wherever their pages are: each byte
is at a physical address of its own.

* `RamRange`: such a range, with the physical addresses of its bytes.
* `RamRange.store`, `RamRange.load`: what writing and reading its bytes in order does.
* `RamRange.writeAt`, `RamRange.readAt`: a sized access at its beginning.
* `RamRange.drop`: what is left of it.
* `RamRange.cached`, `ramRange_of_cached`: after a write the range is mapped as it was.
-/

namespace V64.Interp

open V64.Cpu V64.Platform

/-! ## Parts of an access -/

section Parts

variable {M : Type} {α : Type}

theorem eachByte_congr {access access' : ℕ → Guest M → Option α × Guest M} {n : ℕ}
    (h : ∀ k < n, access k = access' k) (g : Guest M) :
    eachByte access n g = eachByte access' n g := by
  induction n with
  | zero => rfl
  | succ n ih =>
    rw [eachByte, eachByte, ih fun k hk => h k (Nat.lt_succ_of_lt hk), h n (Nat.lt_succ_self n)]

variable [GuestMem M] {va : BitVec 64} {write : Bool} {el : Fin 4} {act : ℕ → BitVec 64 → M → α × M}

/-- The bytes from byte `a` on are an access of their own. -/
theorem byteAccess_add (a k : ℕ) :
    byteAccess (va + BitVec.ofNat 64 a) write el (fun k => act (a + k)) k =
      byteAccess va write el act (a + k) := by
  funext g
  unfold byteAccess
  rw [addr_add]

theorem eachByte_add {a b : ℕ} {g g1 g2 : Guest M} {done done' : List α}
    (h : eachByte (byteAccess va write el act) a g = (some done, g1))
    (h' : eachByte (byteAccess (va + BitVec.ofNat 64 a) write el fun k => act (a + k)) b g1 =
      (some done', g2)) :
    eachByte (byteAccess va write el act) (a + b) g = (some (done ++ done'), g2) := by
  induction b generalizing done' g2 with
  | zero =>
    obtain ⟨hdone, rfl⟩ := Prod.mk.inj h'
    rw [← Option.some.inj hdone, List.append_nil]
    exact h
  | succ b ih =>
    obtain ⟨init, g3, last, hinit, hlast⟩ := eachByte_succ_some h'
    rw [eachByte_succ hinit hlast] at h'
    obtain ⟨hdone, -⟩ := Prod.mk.inj h'
    rw [← Option.some.inj hdone, ← List.append_assoc]
    rw [byteAccess_add] at hlast
    exact eachByte_succ (ih hinit) hlast

/-! ## Vector registers -/

omit [GuestMem M] in
/-- The guest with the vector registers `v`. -/
def Guest.withV (g : Guest M) (v : Reg → BitVec 128) : Guest M :=
  { g with cpu := { g.cpu with v := v } }

variable (g : Guest M) (v : Reg → BitVec 128)

/-- No translation reads a vector register. -/
theorem translate_withV (va : BitVec 64) (access : Access) (el : Fin 4) :
    translate (g.withV v) va access el =
      ((translate g va access el).1, (translate g va access el).2.withV v) := by
  cases hmmu : mmuEnabled g.cpu with
  | false =>
    have hoff : mmuEnabled (g.withV v).cpu = false := hmmu
    rw [translate_of_off hmmu, translate_of_off hoff]
  | true =>
    have hon : mmuEnabled (g.withV v).cpu = true := hmmu
    cases hlookup : g.cpu.tlb.lookup (pageOf va) with
    | some entry =>
      have hhit : (g.withV v).cpu.tlb.lookup (pageOf va) = some entry := hlookup
      rw [translate_of_hit hmmu hlookup, translate_of_hit hon hhit]
    | none =>
      have hmiss : (g.withV v).cpu.tlb.lookup (pageOf va) = none := hlookup
      rw [translate_of_miss hmmu hlookup, translate_of_miss hon hmiss]
      have hregion : region (g.withV v).cpu va = region g.cpu va := rfl
      have hmem : (g.withV v).mem = g.mem := rfl
      unfold translateMiss
      rw [hregion, hmem]
      dsimp only
      split <;> rfl

theorem byteAccess_withV (k : ℕ) :
    byteAccess va write el act k (g.withV v) =
      ((byteAccess va write el act k g).1, (byteAccess va write el act k g).2.withV v) := by
  unfold byteAccess xlate
  dsimp only
  rw [translate_withV]
  generalize translate g (va + BitVec.ofNat 64 k) (if write then .write else .read) el = r
  obtain ⟨res, g'⟩ := r
  cases res with
  | ok pa => rfl
  | error fsc => rfl

theorem eachByte_withV (n : ℕ) :
    eachByte (byteAccess va write el act) n (g.withV v) =
      ((eachByte (byteAccess va write el act) n g).1,
        (eachByte (byteAccess va write el act) n g).2.withV v) := by
  induction n with
  | zero => rfl
  | succ n ih =>
    rw [eachByte, eachByte, ih]
    generalize eachByte (byteAccess va write el act) n g = r
    obtain ⟨res, g'⟩ := r
    cases res with
    | none => rfl
    | some done =>
      dsimp only
      rw [byteAccess_withV]
      generalize byteAccess va write el act n g' = r
      obtain ⟨res, g'⟩ := r
      cases res with
      | none => rfl
      | some a => rfl

end Parts

section Ram

variable {D : Type} [MmioDevice D] {α : Type}

/-- `writeU8` of byte `k` of an image. -/
def writeAct (image : ℕ → BitVec 8) (k : ℕ) (pa : BitVec 64) (mem : Bus D) : Unit × Bus D :=
  ((), GuestMem.writeU8 mem pa (image k))

/-- `readU8`. -/
def readAct (_ : ℕ) (pa : BitVec 64) (mem : Bus D) : BitVec 8 × Bus D := GuestMem.readU8 mem pa

/-- The `n` bytes from `va` on lie in RAM, byte `j` at `p j`, for an access that does `act` to
    each in order: whatever guest the bytes before it leave, byte `j` translates to `p j`. -/
structure RamRange (va : BitVec 64) (write : Bool) (el : Fin 4)
    (act : ℕ → BitVec 64 → Bus D → α × Bus D) (n : ℕ) (p : ℕ → BitVec 64) (g : Guest (Bus D)) :
    Prop where
  inRam : ∀ j < n, g.mem.InRam (p j) 1
  maps : ∀ j < n, ∀ done gj, eachByte (byteAccess va write el act) j g = (some done, gj) →
    (translate gj (va + BitVec.ofNat 64 j) (if write then .write else .read) el).1 = .ok (p j)

variable {va : BitVec 64} {write : Bool} {el : Fin 4} {act : ℕ → BitVec 64 → Bus D → α × Bus D}
  {n : ℕ} {p : ℕ → BitVec 64} {g : Guest (Bus D)}

/-! ## Parts of a range -/

theorem RamRange.take (h : RamRange va write el act n p g) {m : ℕ} (hm : m ≤ n) :
    RamRange va write el act m p g :=
  ⟨fun j hj => h.inRam j (by omega), fun j hj => h.maps j (by omega)⟩

/-- After its first `a` bytes the rest is a range of its own. -/
theorem RamRange.drop {a : ℕ} (h : RamRange va write el act (a + n) p g) {done : List α}
    {ga : Guest (Bus D)} (hrun : eachByte (byteAccess va write el act) a g = (some done, ga))
    (hwin : g.mem.SameWindow ga.mem) :
    RamRange (va + BitVec.ofNat 64 a) write el (fun k => act (a + k)) n (fun k => p (a + k)) ga :=
  ⟨fun j hj => hwin.inRam (h.inRam (a + j) (by omega)), fun j hj done' gj hj' => by
    rw [← addr_add]
    exact h.maps (a + j) (by omega) _ _ (eachByte_add hrun hj')⟩

theorem RamRange.congr {act' : ℕ → BitVec 64 → Bus D → α × Bus D}
    (h : RamRange va write el act n p g) (hact : ∀ k < n, act k = act' k) :
    RamRange va write el act' n p g := by
  refine ⟨h.inRam, fun j hj done gj hrun => h.maps j hj done gj ?_⟩
  rw [← hrun]
  refine eachByte_congr (fun k hk => ?_) g
  funext g
  unfold byteAccess
  rw [hact k (by omega)]

/-- A range does not depend on the vector registers. -/
theorem RamRange.withV (h : RamRange va write el act n p g) (v : Reg → BitVec 128) :
    RamRange va write el act n p (g.withV v) := by
  refine ⟨h.inRam, fun j hj done gj hrun => ?_⟩
  rw [eachByte_withV] at hrun
  obtain ⟨hdone, rfl⟩ := Prod.mk.inj hrun
  rw [translate_withV]
  exact h.maps j hj done _ (Prod.ext hdone rfl)

/-! ## One byte after the other -/

/-- What the translation of byte `m` is, and leaves, after the bytes before it. -/
theorem RamRange.step (h : RamRange va write el act n p g) {m : ℕ} (hm : m < n) {done : List α}
    {gm : Guest (Bus D)} (hrun : eachByte (byteAccess va write el act) m g = (some done, gm))
    (halign : gm.cpu.tlb.PagesAligned) :
    ∃ g' tlb, xlate gm (va + BitVec.ofNat 64 m) write el = (some (p m), g') ∧
      g'.cpu = { gm.cpu with tlb := tlb } ∧ tlb.PagesAligned ∧ g'.mem.ram = gm.mem.ram ∧
      (p m).toNat % 4096 = (va + BitVec.ofNat 64 m).toNat % 4096 := by
  have hmaps := h.maps m hm done gm hrun
  obtain ⟨tlb, htlb⟩ := translate_cpu gm (va + BitVec.ofNat 64 m)
    (if write then .write else .read) el
  have hpages := pagesAligned_translate halign (va + BitVec.ofNat 64 m)
    (if write then .write else .read) el
  have hram := ram_translate gm (va + BitVec.ofNat 64 m) (if write then .write else .read) el
  generalize hx : translate gm (va + BitVec.ofNat 64 m) (if write then .write else .read) el = r
    at hmaps htlb hpages hram
  obtain ⟨res, g'⟩ := r
  obtain rfl : res = .ok (p m) := hmaps
  refine ⟨g', tlb, xlate_eq_some.mpr hx, htlb, ?_, hram, ?_⟩
  · rw [htlb] at hpages
    exact hpages
  · exact offset_of_translate halign hx

/-- Bytes of one range at different places of it are at different addresses. -/
theorem toNat_ne_of_offset {i j : ℕ} (hn : n ≤ 4096) (hi : i < n) (hj : j < n) (hne : i ≠ j)
    (hpi : (p i).toNat % 4096 = (va + BitVec.ofNat 64 i).toNat % 4096)
    (hpj : (p j).toNat % 4096 = (va + BitVec.ofNat 64 j).toNat % 4096) :
    (p i).toNat ≠ (p j).toNat := by
  rw [BitVec.toNat_add, BitVec.toNat_ofNat] at hpi hpj
  omega

/-- The first `m` bytes of an access have been done: the CPU is as it was up to the TLB. -/
structure After (va : BitVec 64) (m : ℕ) (p : ℕ → BitVec 64) (g gm : Guest (Bus D)) : Prop where
  cpu : ∃ tlb, gm.cpu = { g.cpu with tlb := tlb }
  aligned : gm.cpu.tlb.PagesAligned
  offsets : ∀ j < m, (p j).toNat % 4096 = (va + BitVec.ofNat 64 j).toNat % 4096

omit [MmioDevice D] in
theorem After.refl (halign : g.cpu.tlb.PagesAligned) : After va 0 p g g :=
  ⟨⟨g.cpu.tlb, rfl⟩, halign, nofun⟩

omit [MmioDevice D] in
/-- One more byte is done. -/
theorem After.succ {m : ℕ} {gm g' : Guest (Bus D)} (h : After va m p g gm) {tlb : Tlb}
    (hcpu : g'.cpu = { gm.cpu with tlb := tlb }) (halign : tlb.PagesAligned)
    (hoff : (p m).toNat % 4096 = (va + BitVec.ofNat 64 m).toNat % 4096) (mem : Bus D) :
    After va (m + 1) p g { g' with mem := mem } := by
  obtain ⟨old, hold⟩ := h.cpu
  refine ⟨⟨tlb, ?_⟩, ?_, fun j hj => ?_⟩
  · show g'.cpu = _
    rw [hcpu, hold]
  · show g'.cpu.tlb.PagesAligned
    rw [hcpu]
    exact halign
  · by_cases hlast : j < m
    · exact h.offsets j hlast
    · obtain rfl : j = m := by omega
      exact hoff

/-- **Writing a range.** Every byte is in its place and no other byte of RAM changes. -/
theorem RamRange.store {image : ℕ → BitVec 8} (h : RamRange va true el (writeAct image) n p g)
    (halign : g.cpu.tlb.PagesAligned) (hwf : g.mem.RamWf) (hn : n ≤ 4096) {m : ℕ} (hm : m ≤ n) :
    ∃ done gm, eachByte (byteAccess va true el (writeAct image)) m g = (some done, gm) ∧
      After va m p g gm ∧ Bus.OnlyWrites (fun a => ∃ j < m, a = (p j).toNat) g.mem gm.mem ∧
      ∀ j < m, gm.mem.view (p j).toNat = image j := by
  induction m with
  | zero => exact ⟨[], g, rfl, .refl halign, .refl g.mem, nofun⟩
  | succ m ih =>
    obtain ⟨done, gm, hrun, hafter, honly, hview⟩ := ih (by omega)
    obtain ⟨g', tlb, hx, hcpu, hpages, hram, hoff⟩ := h.step hm hrun hafter.aligned
    have hsame : gm.mem.SameWindow g'.mem := ⟨by rw [hram], by rw [hram]⟩
    have hwf' := hsame.ramWf (honly.window.ramWf hwf)
    have hin := hsame.inRam (honly.window.inRam (h.inRam m hm))
    have hview' : g'.mem.view = gm.mem.view := by
      unfold Bus.view
      rw [hram]
    have hbyte : (GuestMem.writeU8 g'.mem (p m) (image m)).view =
        Bytes.storeLe gm.mem.view (p m).toNat 1 (image m) := by
      rw [← hview']
      exact Bus.view_store_setWidth hwf' (by decide) rfl (by decide) hin (image m)
    have hwrites := Bus.onlyWrites_store hwf' (p m) 1 ((image m).setWidth 64)
    have hrun' := eachByte_succ hrun
      (byteAccess_of_some hx : byteAccess va true el (writeAct image) m gm = _)
    have hafter' := hafter.succ hcpu hpages hoff (GuestMem.writeU8 g'.mem (p m) (image m))
    refine ⟨_, _, hrun', hafter', ?_, fun j hj => ?_⟩
    · refine (honly.mono fun a ⟨j, hj, ha⟩ => ⟨j, Nat.lt_succ_of_lt hj, ha⟩).trans
        ((Bus.OnlyWrites.of_ram hram).trans (hwrites.mono fun a ha => ⟨m, Nat.lt_succ_self m, ?_⟩))
      omega
    · show (GuestMem.writeU8 g'.mem (p m) (image m)).view (p j).toNat = image j
      rw [hbyte]
      unfold Bytes.storeLe
      by_cases hlast : j = m
      · subst hlast
        rw [if_pos (by omega), Nat.sub_self]
        simp
      · have hne := toNat_ne_of_offset hn (by omega : j < n) (by omega : m < n) hlast
          (hafter'.offsets j hj) (hafter'.offsets m (by omega))
        rw [if_neg (by omega)]
        exact hview j (by omega)

/-- **Reading a range.** Every byte is read from its place. -/
theorem RamRange.load (h : RamRange va false el readAct n p g) (halign : g.cpu.tlb.PagesAligned)
    (hwf : g.mem.RamWf) {m : ℕ} (hm : m ≤ n) :
    ∃ gm, eachByte (byteAccess va false el readAct) m g =
        (some ((List.range m).map fun j => g.mem.view (p j).toNat), gm) ∧
      After va m p g gm ∧ gm.mem.ram = g.mem.ram := by
  induction m with
  | zero => exact ⟨g, rfl, .refl halign, rfl⟩
  | succ m ih =>
    obtain ⟨gm, hrun, hafter, hram⟩ := ih (by omega)
    obtain ⟨g', tlb, hx, hcpu, hpages, hram', hoff⟩ := h.step hm hrun hafter.aligned
    have hsame : g.mem.SameWindow g'.mem := ⟨by rw [hram', hram], by rw [hram', hram]⟩
    have hbyte : readAct m (p m) g'.mem = (g.mem.view (p m).toNat, g'.mem) := by
      have hview : g'.mem.view = g.mem.view := by
        unfold Bus.view
        rw [hram', hram]
      unfold readAct
      rw [Bus.readU8_eq (hsame.ramWf hwf) (hsame.inRam (h.inRam m hm)), hview]
      simp [Bytes.loadLe]
    have hrun' := eachByte_succ hrun
      (byteAccess_of_some hx : byteAccess va false el readAct m gm = _)
    rw [hbyte] at hrun'
    refine ⟨_, ?_, hafter.succ hcpu hpages hoff g'.mem, hram'.trans hram⟩
    rw [hrun', List.range_succ, List.map_append, List.map_singleton]

/-! ## Cached translations -/

/-- The TLB holds a translation of `va` to `pa` that permits writing, or the MMU is off. -/
def Cached (cpu : CpuState) (el : Fin 4) (va pa : BitVec 64) : Prop :=
  (mmuEnabled cpu = false ∧ pa = va) ∨
    (mmuEnabled cpu = true ∧ ∃ frame perms, cpu.tlb.lookup (pageOf va) = some (frame, perms) ∧
      leafResult el (Leaf.unpack frame perms) va .write = .ok pa)

/-- A leaf that permits writing permits reading. -/
theorem leafResult_of_write {leaf : Leaf} {pa : BitVec 64} (write : Bool)
    (h : leafResult el leaf va .write = .ok pa) :
    leafResult el leaf va (if write then .write else .read) = .ok pa := by
  cases write with
  | true => exact h
  | false =>
    unfold leafResult at h ⊢
    split_ifs at h with hperms
    have hread : checkPerms el leaf .read = true := (Bool.and_eq_true_iff.mp hperms).1
    rw [if_neg Bool.false_ne_true, if_pos hread]
    exact h

omit [MmioDevice D] in
/-- A cached translation needs no walk. -/
theorem Cached.translate_eq {M : Type} [GuestMem M] {g : Guest M} {pa : BitVec 64}
    (h : Cached g.cpu el va pa) (write : Bool) :
    translate g va (if write then .write else .read) el = (.ok pa, g) := by
  rcases h with ⟨hmmu, rfl⟩ | ⟨hmmu, frame, perms, hlookup, hleaf⟩
  · exact translate_of_off hmmu _ _ _
  · rw [translate_of_hit hmmu hlookup, leafResult_of_write write hleaf]

/-- What was translated for a write is cached. -/
theorem cached_of_translate {M : Type} [GuestMem M] {g g' : Guest M} {pa : BitVec 64}
    (h : translate g va .write el = (.ok pa, g')) : Cached g'.cpu el va pa := by
  cases hmmu : mmuEnabled g.cpu with
  | false =>
    rw [translate_of_off hmmu] at h
    obtain ⟨hpa, rfl⟩ := Prod.mk.inj h
    exact .inl ⟨hmmu, (Except.ok.inj hpa).symm⟩
  | true =>
    cases hlookup : g.cpu.tlb.lookup (pageOf va) with
    | some entry =>
      obtain ⟨frame, perms⟩ := entry
      rw [translate_of_hit hmmu hlookup] at h
      obtain ⟨hleaf, rfl⟩ := Prod.mk.inj h
      exact .inr ⟨hmmu, frame, perms, hlookup, hleaf⟩
    | none =>
      rw [translate_of_miss hmmu hlookup] at h
      unfold translateMiss at h
      dsimp only at h
      split at h
      · cases (Prod.mk.inj h).1
      · next leaf mem hwalk =>
        obtain ⟨hleaf, rfl⟩ := Prod.mk.inj h
        exact .inr ⟨hmmu, _, _, Tlb.lookup_insert_self _ _ _ _, leafResult_unpack hleaf⟩

/-- Translating an address whose page has a slot of its own keeps what is cached. -/
theorem Cached.translate {M : Type} [GuestMem M] {g : Guest M} {va' pa : BitVec 64}
    (h : Cached g.cpu el va pa)
    (hslot : pageOf va = pageOf va' ∨ Tlb.index (pageOf va) ≠ Tlb.index (pageOf va'))
    (access : Access) (el' : Fin 4) :
    Cached (Interp.translate g va' access el').2.cpu el va pa := by
  rcases h with ⟨hmmu, rfl⟩ | ⟨hmmu, frame, perms, hlookup, hleaf⟩
  · rw [translate_of_off hmmu]
    exact .inl ⟨hmmu, rfl⟩
  · have hcached : Cached g.cpu el va pa := .inr ⟨hmmu, frame, perms, hlookup, hleaf⟩
    cases hlookup' : g.cpu.tlb.lookup (pageOf va') with
    | some entry =>
      rw [translate_of_hit hmmu hlookup']
      exact hcached
    | none =>
      rw [translate_of_miss hmmu hlookup']
      unfold translateMiss
      dsimp only
      split
      · exact hcached
      · refine .inr ⟨hmmu, frame, perms, ?_, hleaf⟩
        have hne : pageOf va ≠ pageOf va' := by
          intro heq
          rw [heq, hlookup'] at hlookup
          cases hlookup
        rw [Tlb.lookup_insert, if_neg hne, if_neg (hslot.resolve_left hne)]
        exact hlookup

/-- Two addresses less than a page apart are in one page, or in pages with slots of their own. -/
theorem slot_of_range (va : BitVec 64) {i j : ℕ} (hi : i < 4096) (hj : j < 4096) :
    pageOf (va + BitVec.ofNat 64 i) = pageOf (va + BitVec.ofNat 64 j) ∨
      Tlb.index (pageOf (va + BitVec.ofNat 64 i)) ≠
        Tlb.index (pageOf (va + BitVec.ofNat 64 j)) := by
  have hindex (x : BitVec 64) : (Tlb.index (pageOf x)).val = x.toNat / 4096 % 1024 := by
    show (pageOf x >>> 12).toNat % 1024 = _
    rw [BitVec.toNat_ushiftRight, toNat_pageOf, Nat.shiftRight_eq_div_pow]
    omega
  by_cases hpage : (va + BitVec.ofNat 64 i).toNat / 4096 = (va + BitVec.ofNat 64 j).toNat / 4096
  · left
    apply BitVec.eq_of_toNat_eq
    rw [toNat_pageOf, toNat_pageOf]
    omega
  · right
    intro heq
    have hval := congrArg Fin.val heq
    rw [hindex, hindex] at hval
    rw [BitVec.toNat_add, BitVec.toNat_add, BitVec.toNat_ofNat, BitVec.toNat_ofNat] at hpage hval
    omega

/-- After the bytes of a range were written, their translations are cached. -/
theorem RamRange.cached (h : RamRange va true el act n p g) (halign : g.cpu.tlb.PagesAligned)
    (hn : n ≤ 4096) {m : ℕ} (hm : m ≤ n) {done : List α} {gm : Guest (Bus D)}
    (hrun : eachByte (byteAccess va true el act) m g = (some done, gm)) :
    gm.cpu.tlb.PagesAligned ∧ ∀ j < m, Cached gm.cpu el (va + BitVec.ofNat 64 j) (p j) := by
  induction m generalizing done gm with
  | zero =>
    obtain ⟨-, rfl⟩ := Prod.mk.inj hrun
    exact ⟨halign, nofun⟩
  | succ m ih =>
    obtain ⟨init, g1, a, hinit, hlast⟩ := eachByte_succ_some hrun
    obtain ⟨halign1, hcached⟩ := ih (by omega) hinit
    obtain ⟨g', tlb, hx, hcpu, hpages, -, -⟩ := h.step hm hinit halign1
    rw [byteAccess_of_some hx] at hlast
    obtain ⟨-, rfl⟩ := Prod.mk.inj hlast
    have htranslate : Interp.translate g1 (va + BitVec.ofNat 64 m) .write el = (.ok (p m), g') :=
      xlate_eq_some.mp hx
    refine ⟨by rw [hcpu]; exact hpages, fun j hj => ?_⟩
    by_cases hlt : j < m
    · have hkeep := (hcached j hlt).translate (slot_of_range va (by omega) (by omega : m < 4096))
        .write el
      rw [htranslate] at hkeep
      exact hkeep
    · obtain rfl : j = m := by omega
      have hlast := cached_of_translate htranslate
      exact hlast

/-- A range whose translations are cached. -/
theorem ramRange_of_cached (hram : ∀ j < n, g.mem.InRam (p j) 1)
    (hcached : ∀ j < n, Cached g.cpu el (va + BitVec.ofNat 64 j) (p j)) :
    RamRange va write el act n p g := by
  have hcpu {j : ℕ} (hj : j ≤ n) {done : List α} {gj : Guest (Bus D)}
      (hrun : eachByte (byteAccess va write el act) j g = (some done, gj)) : gj.cpu = g.cpu := by
    induction j generalizing done gj with
    | zero =>
      obtain ⟨-, rfl⟩ := Prod.mk.inj hrun
      rfl
    | succ j ih =>
      obtain ⟨init, g1, a, hinit, hlast⟩ := eachByte_succ_some hrun
      have hsame := ih (by omega) hinit
      have hc := hcached j (by omega)
      rw [← hsame] at hc
      rw [byteAccess_of_some (xlate_eq_some.mpr (hc.translate_eq write))] at hlast
      obtain ⟨-, rfl⟩ := Prod.mk.inj hlast
      exact hsame
  refine ⟨hram, fun j hj done gj hrun => ?_⟩
  have hc := hcached j hj
  rw [← hcpu (by omega) hrun] at hc
  rw [hc.translate_eq write]

/-! ## Sized accesses -/

/-- The bytes of a range inside one page lie together. -/
theorem RamRange.span (h : RamRange va write el act n p g) (halign : g.cpu.tlb.PagesAligned)
    {k : ℕ} (hk : 0 < k) (hkn : k ≤ n) (hspan : (va &&& 0xfff).toNat + k ≤ 4096) {pa : BitVec 64}
    {g1 : Guest (Bus D)}
    (hx : translate g va (if write then .write else .read) el = (.ok pa, g1)) :
    g1.mem.InRam pa k := by
  have hram := ram_translate g va (if write then .write else .read) el
  rw [hx] at hram
  have hsame : g.mem.SameWindow g1.mem := ⟨by rw [hram], by rw [hram]⟩
  have hzero : va + BitVec.ofNat 64 0 = va := BitVec.add_zero va
  have hfirst : p 0 = pa := by
    have hmaps := h.maps 0 (by omega) [] g rfl
    rw [hzero, hx] at hmaps
    exact (Except.ok.inj hmaps).symm
  have hlast : p (k - 1) = pa + BitVec.ofNat 64 (k - 1) := by
    by_cases hone : k = 1
    · subst hone
      rw [hfirst]
      exact (BitVec.add_zero pa).symm
    · have hrun := eachByte_page act halign (xlate_eq_some.mpr hx) (by omega : 1 ≤ k - 1) (by omega)
      have hmaps := h.maps (k - 1) (by omega) _ _ hrun
      have hlt : (va &&& 0xfff).toNat + (BitVec.ofNat 64 (k - 1)).toNat < 4096 := by
        rw [BitVec.toNat_ofNat]
        omega
      rw [translate_sameUp halign hx _ hlt] at hmaps
      exact (Except.ok.inj hmaps).symm
  have hlow := hsame.inRam (h.inRam 0 (by omega))
  have hhigh := hsame.inRam (h.inRam (k - 1) (by omega))
  have hoff := offset_of_translate halign hx
  have hpage := toNat_pageOffset va
  rw [hfirst] at hlow
  rw [hlast] at hhigh
  unfold Bus.InRam at hlow hhigh ⊢
  rw [BitVec.toNat_add, BitVec.toNat_ofNat] at hhigh
  omega

/-- A sized write at the beginning of a range. -/
theorem RamRange.writeAt {image : ℕ → BitVec 8} {size : ℕ} {val : BitVec 64}
    (h : RamRange va true el (writeAct image) n p g) (halign : g.cpu.tlb.PagesAligned)
    (hwf : g.mem.RamWf) (hsize : size ≤ 3) (hn : 1 <<< size ≤ n)
    (himage : ∀ k < 1 <<< size, image k = (val >>> (8 * k)).setWidth 8) :
    Interp.writeAt g va size val el =
      (eachByte (byteAccess va true el (writeAct image)) (1 <<< size) g).2 := by
  rw [writeAt_eq_of_inRam halign hwf
    (fun pa g1 hx hspan => h.span halign (one_le_shiftLeft size) hn hspan hx) hsize]
  refine congrArg Prod.snd (eachByte_congr (fun k hk => ?_) g)
  have hbyte : ((val.setWidth 128) >>> (8 * k)).setWidth 8 = image k := by
    rw [himage k hk]
    apply BitVec.eq_of_getLsbD_eq
    intro i hi
    rw [BitVec.getLsbD_setWidth, BitVec.getLsbD_ushiftRight, BitVec.getLsbD_setWidth,
      BitVec.getLsbD_setWidth, BitVec.getLsbD_ushiftRight]
    by_cases h64 : 8 * k + i < 64
    · rw [decide_eq_true (by omega : 8 * k + i < 128), Bool.true_and]
    · rw [BitVec.getLsbD_of_ge val _ (by omega), Bool.and_false]
  funext g'
  unfold storeByte byteAccess writeAct
  dsimp only
  rw [hbyte]

/-- A sized read at the beginning of a range. -/
theorem RamRange.readAt {size : ℕ} (h : RamRange va false el readAct n p g)
    (halign : g.cpu.tlb.PagesAligned) (hwf : g.mem.RamWf) (hsize : size ≤ 3) (hn : 1 <<< size ≤ n) :
    Interp.readAt g va size el =
      (Bytes.ofLe 64 ((List.range (1 <<< size)).map fun j => g.mem.view (p j).toNat),
        (eachByte (byteAccess va false el readAct) (1 <<< size) g).2) := by
  obtain ⟨gm, hrun, -, -⟩ := h.load halign hwf hn
  rw [readAt_eq_of_inRam halign hwf
    (fun pa g1 hx hspan => h.span halign (one_le_shiftLeft size) hn hspan hx) hsize, hrun]
  show loaded 64 (eachByte (byteAccess va false el readAct) (1 <<< size) g) = _
  rw [hrun]
  rfl

end Ram

end V64.Interp
