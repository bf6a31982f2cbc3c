import V64.Platform.Virtio.DeviceFits

/-!
# Where the display device's arithmetic fits

Serving a chain of the control queue in a build with overflow checks is serving it
without, where no transfer wraps around, the pixels of a new resource can be allocated
and the entries of a backing are at offsets that `usize` holds.

* `dmaRead_checked`, `dmaWrite_checked`: the transfers.
* `Display.handleCmd_checked`: a command.
* `Display.fitting_serveControl`: a chain.
-/

namespace V64.Platform

open Checked Loops V64.Interp

variable {M : Type} [GuestMem M]

/-! ## Transfers -/

/-- The accesses of a transfer of `n` bytes do not wrap around. -/
def DmaFits (addr : BitVec 64) (n : ℕ) : Prop :=
  (∀ i ∈ wordOffsets n, addr.toNat + i < 2 ^ 64) ∧ ∀ i ∈ byteOffsets n, addr.toNat + i < 2 ^ 64

theorem lt_of_mem_wordOffsets {n i : ℕ} (h : i ∈ wordOffsets n) : i + 8 ≤ n := by
  obtain ⟨j, hj, rfl⟩ := List.mem_map.mp h
  have hlt := List.mem_range.mp hj
  omega

theorem lt_of_mem_byteOffsets {n i : ℕ} (h : i ∈ byteOffsets n) : i < n := by
  have hlt := (List.mem_range'_1.mp h).2
  omega

/-- The loops of a transfer whose steps panic more often. -/
theorem dma_checked {σ : Type} {word word' byte byte' : σ → ℕ → Option σ} {addr : BitVec 64}
    (hword : ∀ s i r, word s i = some r ↔
      addr.toNat + (BitVec.ofNat 64 i).toNat < 2 ^ 64 ∧ word' s i = some r)
    (hbyte : ∀ s i r, byte s i = some r ↔
      addr.toNat + (BitVec.ofNat 64 i).toNat < 2 ^ 64 ∧ byte' s i = some r)
    {n : ℕ} (hn : n ≤ 2 ^ 64) {s r : σ} :
    ((wordOffsets n).foldlM word s).bind ((byteOffsets n).foldlM byte) = some r ↔
      DmaFits addr n ∧
        ((wordOffsets n).foldlM word' s).bind ((byteOffsets n).foldlM byte') = some r := by
  have hoffset : ∀ {l : List ℕ}, (∀ i ∈ l, i < n) →
      ((∀ i ∈ l, addr.toNat + (BitVec.ofNat 64 i).toNat < 2 ^ 64) ↔
        ∀ i ∈ l, addr.toNat + i < 2 ^ 64) := by
    intro l hl
    refine forall₂_congr fun i hi => ?_
    rw [toNat_ofNat_of_lt (hl i hi) hn]
  have hwords := hoffset fun i hi => Nat.lt_of_lt_of_le (Nat.lt_add_of_pos_right (by decide))
    (lt_of_mem_wordOffsets hi)
  have hbytes := hoffset fun i hi => lt_of_mem_byteOffsets hi
  unfold DmaFits
  simp only [Option.bind_eq_some_iff, foldlM_checked_iff hword, foldlM_checked_iff hbyte, hwords,
    hbytes]
  constructor
  · rintro ⟨s', ⟨hw, hs'⟩, hb, hr⟩
    exact ⟨⟨hw, hb⟩, s', hs', hr⟩
  · rintro ⟨⟨hw, hb⟩, s', hs', hr⟩
    exact ⟨s', ⟨hw, hs'⟩, hb, hr⟩

section Checked

variable {t : Target} (ht : t.overflowChecks = true)

include ht

theorem dmaRead_checked {addr : BitVec 64} {len : BitVec 32} {out : List (BitVec 8)} {mem : M}
    {r : List (BitVec 8) × M} :
    dmaRead t addr len out mem = some r ↔
      DmaFits addr len.toNat ∧ dmaRead t.wrapping addr len out mem = some r := by
  refine dma_checked ?_ ?_ (Nat.le_of_lt (Nat.lt_trans len.isLt (by decide)))
  · intro s i r
    unfold dmaReadWord
    simp only [Option.bind_eq_bind, Target.add_bind_eq_some_iff ht, Target.wrapping_add,
      Option.bind_some]
  · intro s i r
    unfold dmaReadByte
    simp only [Option.bind_eq_bind, Target.add_bind_eq_some_iff ht, Target.wrapping_add,
      Option.bind_some]

theorem dmaWrite_checked {addr : BitVec 64} {bytes : List (BitVec 8)} {mem r : M}
    (hn : bytes.length ≤ 2 ^ 64) :
    dmaWrite t addr bytes mem = some r ↔
      DmaFits addr bytes.length ∧ dmaWrite t.wrapping addr bytes mem = some r := by
  refine dma_checked ?_ ?_ hn
  · intro s i r
    unfold dmaWriteWord
    simp only [Option.bind_eq_bind, Option.bind_eq_some_iff, Target.add_eq_some_iff ht]
    constructor
    · rintro ⟨chunk, hchunk, a, ⟨hfits, ha⟩, hr⟩
      exact ⟨hfits, chunk, hchunk, a, ha, hr⟩
    · rintro ⟨hfits, chunk, hchunk, a, ha, hr⟩
      exact ⟨chunk, hchunk, a, ⟨hfits, ha⟩, hr⟩
  · intro s i r
    unfold dmaWriteByte
    simp only [Option.bind_eq_bind, Target.add_bind_eq_some_iff ht, Target.wrapping_add,
      Option.bind_some]

end Checked

theorem dmaWrite_isSome {t : Target} (ht : t.overflowChecks = false) (addr : BitVec 64)
    (bytes : List (BitVec 8)) (mem : M) : ∃ mem', dmaWrite t addr bytes mem = some mem' := by
  have hword : ∀ (mem : M), ∀ i ∈ wordOffsets bytes.length, True →
      ∃ mem', dmaWriteWord t addr bytes mem i = some mem' ∧ True := by
    intro mem i hi _
    rw [dmaWriteWord, subslice_eq_some (Nat.le_add_right _ _) (lt_of_mem_wordOffsets hi),
      Target.add_of_wrap ht]
    exact ⟨_, rfl, trivial⟩
  have hbyte : ∀ (mem : M), ∀ i ∈ byteOffsets bytes.length, True →
      ∃ mem', dmaWriteByte t addr bytes mem i = some mem' ∧ True := by
    intro mem i hi _
    rw [dmaWriteByte, Target.add_of_wrap ht, List.getElem?_eq_getElem (lt_of_mem_byteOffsets hi)]
    exact ⟨_, rfl, trivial⟩
  obtain ⟨mem1, h1, -⟩ := foldlM_total hword (s := mem) trivial
  obtain ⟨mem2, h2, -⟩ := foldlM_total hbyte (s := mem1) trivial
  refine ⟨mem2, ?_⟩
  rw [dmaWrite, h1]
  exact h2

namespace Display

/-! ## Commands -/

variable {t : Target}

/-- The fields of a header are at offsets that fit. -/
theorem rdU32_ofNat {k : ℕ} (hk : k + 4 < 2 ^ 32) (req : List (BitVec 8)) :
    rdU32 t req (BitVec.ofNat _ k) = some (field32 t req (BitVec.ofNat _ k)) := by
  have hbits : 2 ^ 32 ≤ 2 ^ t.usizeBits := Nat.pow_le_pow_right (by decide) (t.le_usizeBits)
  have hsum : (BitVec.ofNat t.usizeBits k).toNat + (4 : t.Usize).toNat < 2 ^ t.usizeBits := by
    have h4 : (4 : t.Usize).toNat = 4 := Target.toNat_ofNat_usize (by decide)
    rw [Target.toNat_ofNat_usize (by omega), h4]
    omega
  rw [rdU32, Target.add_of_lt hsum]
  rfl

theorem field32_wrapping (req : List (BitVec 8)) (o : t.Usize) :
    field32 t.wrapping req o = field32 t req o := rfl

/-- The pixels of a resource of `w` by `h` can be counted and allocated. -/
def CreateFits (t : Target) (req : List (BitVec 8)) : Prop :=
  (field32 t req (BitVec.ofNat _ (hdrLen + 8))).toNat *
    (field32 t req (BitVec.ofNat _ (hdrLen + 12))).toNat * 4 < 2 ^ (t.usizeBits - 1)

/-- The entries of a backing are at offsets that `usize` holds. -/
def AttachFits (t : Target) (d : Display) (req : List (BitVec 8)) : Prop :=
  d.resources (field32 t req (BitVec.ofNat _ hdrLen)) ≠ none →
    ∀ i < (field32 t req (BitVec.ofNat _ (hdrLen + 4))).toNat, 44 + 16 * i < 2 ^ t.usizeBits

/-- The transfers of a backing fit, up to the one that completes the pixels. -/
def PullFits (t : Target) (size : ℕ) : List (BitVec 64 × BitVec 32) → List (BitVec 8) × M → Prop
  | [], _ => True
  | (addr, len) :: rest, s => DmaFits addr len.toNat ∧
    ∀ s', dmaRead t.wrapping addr len s.1 s.2 = some s' → s'.1.length < size →
      PullFits t size rest s'

/-- A transfer into a resource fits. -/
def TransferFits (t : Target) (d : Display) (mem : M) (id : BitVec 32) : Prop :=
  ∀ res, d.resources id = some res → PullFits t res.pixels.length res.backing ([], mem)

/-- A command fits. -/
structure CommandFits (t : Target) (d : Display) (mem : M) (req : List (BitVec 8)) : Prop where
  create : field32 t req 0 = cmdResourceCreate2d → CreateFits t req
  attach : field32 t req 0 = cmdResourceAttachBacking → AttachFits t d req
  transfer : field32 t req 0 = cmdTransferToHost2d →
    TransferFits t d mem (field32 t req (BitVec.ofNat _ (hdrLen + 24)))

section Checked

variable (ht : t.overflowChecks = true)

include ht

theorem create2d_checked {d r : Display} {req : List (BitVec 8)} :
    create2d t d req = some r ↔ CreateFits t req ∧ create2d t.wrapping d req = some r := by
  have hbits := t.le_usizeBits
  have hfield : ∀ v : BitVec 32, (v.setWidth t.usizeBits).toNat = v.toNat := fun v =>
    BitVec.toNat_setWidth_of_le hbits
  have h4 : (4 : t.Usize).toNat = 4 := Target.toNat_ofNat_usize (by decide)
  have hhalf : 2 ^ (t.usizeBits - 1) ≤ 2 ^ t.usizeBits :=
    Nat.pow_le_pow_right (by decide) (Nat.sub_le _ _)
  unfold create2d CreateFits zeroed
  simp only [rdU32_ofNat (k := hdrLen) (by decide), rdU32_ofNat (k := hdrLen + 8) (by decide),
    rdU32_ofNat (k := hdrLen + 12) (by decide), Option.bind_eq_bind, Option.bind_some,
    Target.mul_bind_eq_some_iff ht, Target.wrapping_mul, field32_wrapping, hfield, h4]
  generalize field32 t req (BitVec.ofNat _ (hdrLen + 8)) = w
  generalize field32 t req (BitVec.ofNat _ (hdrLen + 12)) = h
  have hmul : w.toNat * h.toNat < 2 ^ t.usizeBits →
      (w.setWidth t.usizeBits * h.setWidth t.usizeBits).toNat = w.toNat * h.toNat := by
    intro harea
    rw [BitVec.toNat_mul_of_lt (by rwa [hfield, hfield]), hfield, hfield]
  have hmul4 : w.toNat * h.toNat < 2 ^ t.usizeBits → w.toNat * h.toNat * 4 < 2 ^ t.usizeBits →
      (w.setWidth t.usizeBits * h.setWidth t.usizeBits * 4).toNat = w.toNat * h.toNat * 4 := by
    intro harea hsize
    rw [BitVec.toNat_mul_of_lt (by rwa [hmul harea, h4]), hmul harea, h4]
  constructor
  · rintro ⟨harea, hsize, hr⟩
    rw [hmul harea] at hsize
    obtain ⟨pixels, halloc, hr'⟩ := Option.bind_eq_some_iff.mp hr
    split_ifs at halloc with hfits
    exact ⟨by rwa [hmul4 harea hsize] at hfits, hr⟩
  · rintro ⟨hfits, hr⟩
    have harea : w.toNat * h.toNat < 2 ^ t.usizeBits := by omega
    exact ⟨harea, by rw [hmul harea]; omega, hr⟩

theorem backingEntry_checked (req : List (BitVec 8)) (backing : List (BitVec 64 × BitVec 32))
    (i : ℕ) (r : List (BitVec 64 × BitVec 32)) :
    backingEntry t req backing i = some r ↔
      44 + 16 * (BitVec.ofNat t.usizeBits i).toNat < 2 ^ t.usizeBits ∧
        backingEntry t.wrapping req backing i = some r := by
  have h16 : (16 : t.Usize).toNat = 16 := Target.toNat_ofNat_usize (by decide)
  have h32 : (BitVec.ofNat t.usizeBits (hdrLen + 8)).toNat = 32 :=
    Target.toNat_ofNat_usize (by decide)
  have h8 : (8 : t.Usize).toNat = 8 := Target.toNat_ofNat_usize (by decide)
  have h4 : (4 : t.Usize).toNat = 4 := Target.toNat_ofNat_usize (by decide)
  unfold backingEntry rdU64 rdU32
  simp only [Option.bind_eq_bind, Option.bind_assoc, Target.mul_bind_eq_some_iff ht,
    Target.add_bind_eq_some_iff ht, Target.wrapping_add, Target.wrapping_mul, Option.bind_some,
    Option.pure_def]
  generalize BitVec.ofNat t.usizeBits i = j
  generalize hbase : BitVec.ofNat t.usizeBits (hdrLen + 8) = base at h32 ⊢
  have hstep : j.toNat * 16 < 2 ^ t.usizeBits → (j * 16).toNat = j.toNat * 16 := by
    intro h
    rw [BitVec.toNat_mul_of_lt (by rwa [h16]), h16]
  have hentry :
      32 + j.toNat * 16 < 2 ^ t.usizeBits → (base + j * 16).toNat = 32 + j.toNat * 16 := by
    intro h
    have hj := hstep (by omega)
    rw [BitVec.toNat_add_of_lt (by rwa [h32, hj]), h32, hj]
  have hlenAt : 40 + j.toNat * 16 < 2 ^ t.usizeBits →
      (base + j * 16 + 8).toNat = 40 + j.toNat * 16 := by
    intro h
    have hbase := hentry (by omega)
    rw [BitVec.toNat_add_of_lt (by rw [hbase, h8]; omega), hbase, h8]
    omega
  constructor
  · rintro ⟨h1, h2, h3, -, h5, hr⟩
    rw [h16] at h1
    rw [hstep h1, h32] at h2
    rw [hentry h2, h8] at h3
    rw [hlenAt (by omega), h4] at h5
    exact ⟨by omega, hr⟩
  · rintro ⟨hfits, hr⟩
    have h1 : (base + j * 16).toNat + (8 : t.Usize).toNat < 2 ^ t.usizeBits := by
      rw [hentry (by omega), h8]
      omega
    have h2 : (base + j * 16 + 8).toNat + (4 : t.Usize).toNat < 2 ^ t.usizeBits := by
      rw [hlenAt (by omega), h4]
      omega
    rw [h16, hstep (by omega), h32]
    exact ⟨by omega, by omega, h1, h1, h2, hr⟩

theorem attachBacking_checked {d r : Display} {req : List (BitVec 8)} :
    attachBacking t d req = some r ↔
      AttachFits t d req ∧ attachBacking t.wrapping d req = some r := by
  unfold attachBacking AttachFits
  simp only [rdU32_ofNat (k := hdrLen) (by decide), rdU32_ofNat (k := hdrLen + 4) (by decide),
    Option.bind_eq_bind, Option.bind_some, field32_wrapping]
  generalize field32 t req (BitVec.ofNat _ (hdrLen + 4)) = nr
  generalize field32 t req (BitVec.ofNat _ hdrLen) = id
  cases d.resources id with
  | none => exact ⟨fun hr => ⟨fun h => absurd rfl h, hr⟩, fun hr => hr.2⟩
  | some res =>
    have hoffset : (∀ i ∈ List.range nr.toNat,
        44 + 16 * (BitVec.ofNat t.usizeBits i).toNat < 2 ^ t.usizeBits) ↔
          ∀ i < nr.toNat, 44 + 16 * i < 2 ^ t.usizeBits := by
      have hnr := nr.isLt
      refine forall_congr' fun i => ?_
      rw [List.mem_range]
      refine imp_congr_right fun hi => ?_
      rw [Target.toNat_ofNat_usize (by omega)]
    have hentries := fun r => foldlM_checked_iff (backingEntry_checked ht req)
      (l := List.range nr.toNat) (s := []) (r := r)
    simp only [hoffset] at hentries
    simp only [bind_checked_iff hentries, ne_eq, reduceCtorEq, not_false_iff, true_imp_iff]

omit ht in
theorem detachBacking_wrapping (d : Display) (req : List (BitVec 8)) :
    detachBacking t.wrapping d req = detachBacking t d req := by
  unfold detachBacking
  rw [rdU32_ofNat (by decide), rdU32_ofNat (by decide)]
  rfl

theorem pull_checked {size : ℕ} {backing : List (BitVec 64 × BitVec 32)}
    {s r : List (BitVec 8) × M} :
    pull t size backing s = some r ↔
      PullFits t size backing s ∧ pull t.wrapping size backing s = some r := by
  induction backing generalizing s with
  | nil => exact (iff_of_eq (true_and _)).symm
  | cons seg rest ih =>
    unfold pull PullFits
    simp only [Option.bind_eq_bind, Option.bind_eq_some_iff, dmaRead_checked ht]
    constructor
    · rintro ⟨s', ⟨hseg, hs'⟩, hr⟩
      split_ifs at hr with hfull
      · refine ⟨⟨hseg, fun s1 hs1 hless => ?_⟩, s', hs', by rwa [if_pos hfull]⟩
        cases hs'.symm.trans hs1
        omega
      · obtain ⟨hrest, hr⟩ := ih.mp hr
        refine ⟨⟨hseg, fun s1 hs1 _ => ?_⟩, s', hs', by rwa [if_neg hfull]⟩
        cases hs'.symm.trans hs1
        exact hrest
    · rintro ⟨⟨hseg, hrest⟩, s', hs', hr⟩
      refine ⟨s', ⟨hseg, hs'⟩, ?_⟩
      split_ifs at hr ⊢ with hfull
      · exact hr
      · exact ih.mpr ⟨hrest s' hs' (by omega), hr⟩

theorem transfer_checked {d : Display} {mem : M} {id : BitVec 32} {r : Display × M} :
    transfer t d mem id = some r ↔
      TransferFits t d mem id ∧ transfer t.wrapping d mem id = some r := by
  unfold transfer TransferFits
  cases d.resources id with
  | none => exact ⟨fun hr => ⟨nofun, hr⟩, fun hr => hr.2⟩
  | some res =>
    simp only [Option.bind_eq_bind, bind_checked_iff fun _ => pull_checked ht, Option.some.injEq,
      forall_eq']

theorem handleCmd_checked {d : Display} {mem : M} {req : List (BitVec 8)}
    {r : List (BitVec 8) × Display × M} :
    handleCmd t d mem req = some r ↔
      CommandFits t d mem req ∧ handleCmd t.wrapping d mem req = some r := by
  have hzero : rdU32 t req 0 = some (field32 t req 0) := rdU32_ofNat (k := 0) (by decide) req
  have hzero' : rdU32 t.wrapping req 0 = some (field32 t req 0) :=
    rdU32_ofNat (t := t.wrapping) (k := 0) (by decide) req
  have hcommand : CommandFits t d mem req ↔
      (field32 t req 0 = cmdResourceCreate2d → CreateFits t req) ∧
      (field32 t req 0 = cmdResourceAttachBacking → AttachFits t d req) ∧
      (field32 t req 0 = cmdTransferToHost2d →
        TransferFits t d mem (field32 t req (BitVec.ofNat _ (hdrLen + 24)))) :=
    ⟨fun h => ⟨h.1, h.2, h.3⟩, fun h => ⟨h.1, h.2.1, h.2.2⟩⟩
  rw [hcommand]
  unfold handleCmd
  simp only [hzero, hzero', rdU32_ofNat (k := hdrLen) (by decide),
    rdU32_ofNat (k := hdrLen + 20) (by decide), rdU32_ofNat (k := hdrLen + 24) (by decide),
    Option.bind_eq_bind, Option.bind_some, field32_wrapping, detachBacking_wrapping]
  generalize field32 t req 0 = cmd
  have hother : ∀ {P Q R : Prop}, cmd ≠ cmdResourceCreate2d → cmd ≠ cmdResourceAttachBacking →
      cmd ≠ cmdTransferToHost2d → (cmd = cmdResourceCreate2d → P) ∧
        (cmd = cmdResourceAttachBacking → Q) ∧ (cmd = cmdTransferToHost2d → R) :=
    fun h1 h2 h3 => ⟨fun h => absurd h h1, fun h => absurd h h2, fun h => absurd h h3⟩
  -- only three of the commands compute something that can overflow
  split_ifs with hinfo hcreate hunref hattach hdetach hscanout htransfer hflush
  · refine (and_iff_right (hother ?_ ?_ ?_)).symm <;> rw [hinfo] <;> decide
  · rw [bind_checked_iff fun _ => create2d_checked ht]
    refine and_congr_left fun _ => ⟨fun h => ⟨fun _ => h, ?_⟩, fun h => h.1 hcreate⟩
    rw [hcreate]
    exact ⟨nofun, nofun⟩
  · refine (and_iff_right (hother hcreate ?_ ?_)).symm <;> rw [hunref] <;> decide
  · rw [bind_checked_iff fun _ => attachBacking_checked ht]
    refine and_congr_left fun _ => ⟨fun h => ⟨fun hc => absurd hc hcreate, fun _ => h, ?_⟩,
      fun h => h.2.1 hattach⟩
    rw [hattach]
    exact nofun
  · refine (and_iff_right (hother hcreate hattach ?_)).symm
    rw [hdetach]
    decide
  · refine (and_iff_right (hother hcreate hattach ?_)).symm
    rw [hscanout]
    decide
  · rw [bind_checked_iff fun _ => transfer_checked ht]
    exact and_congr_left fun _ => ⟨fun h => ⟨fun hc => absurd hc hcreate,
      fun ha => absurd ha hattach, fun _ => h⟩, fun h => h.2.2 htransfer⟩
  · exact (and_iff_right (hother hcreate hattach htransfer)).symm
  · exact (and_iff_right (hother hcreate hattach htransfer)).symm

/-! ## The control queue -/

theorem collectSeg_checked (c : Collected M) (seg : Seg) (r : Collected M) :
    collectSeg t c seg = some r ↔
      (seg.writable = false → DmaFits seg.addr seg.len.toNat) ∧
        collectSeg t.wrapping c seg = some r := by
  unfold collectSeg
  split_ifs with hw
  · rw [hw]
    exact (and_iff_right nofun).symm
  · rw [Bool.not_eq_true] at hw
    simp only [Option.bind_eq_bind, bind_checked_iff fun _ => dmaRead_checked ht, hw, true_imp_iff]

/-- The response of a chain fits. -/
def RespondFits (respAt : Option (BitVec 64 × BitVec 32)) (resp : List (BitVec 8)) : Prop :=
  ∀ addr len, respAt = some (addr, len) → DmaFits addr (min resp.length len.toNat)

theorem respond_checked {respAt : Option (BitVec 64 × BitVec 32)} {resp : List (BitVec 8)}
    {mem : M} {r : BitVec 32 × M} :
    respond t respAt resp mem = some r ↔
      RespondFits respAt resp ∧ respond t.wrapping respAt resp mem = some r := by
  unfold respond RespondFits
  cases respAt with
  | none => exact (and_iff_right nofun).symm
  | some place =>
    obtain ⟨addr, len⟩ := place
    have hlength : ((resp.drop 0).take (min resp.length len.toNat - 0)).length =
        min resp.length len.toNat := by
      rw [List.length_take, List.drop_zero, Nat.sub_zero, Nat.min_right_comm, Nat.min_self]
    have hfits : ∀ mem', dmaWrite t addr ((resp.drop 0).take (min resp.length len.toNat - 0)) mem =
        some mem' ↔ DmaFits addr (min resp.length len.toNat) ∧ dmaWrite t.wrapping addr
          ((resp.drop 0).take (min resp.length len.toNat - 0)) mem = some mem' := by
      intro mem'
      have hlen := len.isLt
      rw [dmaWrite_checked ht (by rw [hlength]; omega), hlength]
    dsimp only
    rw [subslice_eq_some (Nat.zero_le _) (Nat.min_le_left _ _)]
    simp only [Option.bind_eq_bind, Option.bind_some, bind_checked_iff hfits]
    refine and_congr_left fun _ => ⟨fun h addr' len' hat => ?_, fun h => h addr len rfl⟩
    cases hat
    exact h

/-- Serving a control chain fits: the request is read, the command done and the response
    written without overflow. -/
def ControlFits (t : Target) (d : Display) (mem : M) (segs : List Seg) : Prop :=
  (∀ seg ∈ segs, seg.writable = false → DmaFits seg.addr seg.len.toNat) ∧
    ∀ c, segs.foldlM (collectSeg t.wrapping) ⟨[], none, mem⟩ = some c →
      CommandFits t d c.mem c.req ∧ ∀ resp d' mem',
        handleCmd t.wrapping d c.mem c.req = some (resp, d', mem') → RespondFits c.respAt resp

theorem serveControl_checked {d : Display} {mem : M} {segs : List Seg}
    {r : BitVec 32 × Display × M} :
    serveControl t d mem segs = some r ↔
      ControlFits t d mem segs ∧ serveControl t.wrapping d mem segs = some r := by
  unfold serveControl ControlFits
  simp only [Option.bind_eq_bind, Option.bind_eq_some_iff,
    foldlM_checked_iff (collectSeg_checked ht), handleCmd_checked ht, respond_checked ht]
  constructor
  · rintro ⟨c, ⟨hsegs, hc⟩, ⟨resp, d', mem'⟩, ⟨hcmd, hresp⟩, w, ⟨hwrite, hw⟩, hr⟩
    refine ⟨⟨hsegs, fun c' hc' => ?_⟩, c, hc, _, hresp, w, hw, hr⟩
    cases hc.symm.trans hc'
    refine ⟨hcmd, fun resp' d1 mem1 hresp' => ?_⟩
    cases hresp.symm.trans hresp'
    exact hwrite
  · rintro ⟨⟨hsegs, hfits⟩, c, hc, ⟨resp, d', mem'⟩, hresp, w, hw, hr⟩
    obtain ⟨hcmd, hwrite⟩ := hfits c hc
    exact ⟨c, ⟨hsegs, hc⟩, _, ⟨hcmd, hresp⟩, w, ⟨hwrite _ _ _ hresp, hw⟩, hr⟩

end Checked

/-! ## Chains -/

theorem CreateFits.allocates {req : List (BitVec 8)} (h : CreateFits t req) :
    (createSize t req).toNat < 2 ^ (t.usizeBits - 1) := by
  have hfield : ∀ v : BitVec 32, (v.setWidth t.usizeBits).toNat = v.toNat := fun v =>
    BitVec.toNat_setWidth_of_le (t.le_usizeBits)
  have h4 : (4 : t.Usize).toNat = 4 := Target.toNat_ofNat_usize (by decide)
  unfold CreateFits at h
  unfold createSize
  have hmod : ∀ x N : ℕ, x % N * 4 % N ≤ x * 4 := fun x N =>
    Nat.le_trans (Nat.mod_le _ _) (Nat.mul_le_mul_right _ (Nat.mod_le _ _))
  rw [BitVec.toNat_mul, BitVec.toNat_mul, hfield, hfield, h4]
  exact Nat.lt_of_le_of_lt (hmod _ _) h

theorem respond_isSome (respAt : Option (BitVec 64 × BitVec 32)) (resp : List (BitVec 8))
    (mem : M) : ∃ r, respond t.wrapping respAt resp mem = some r := by
  unfold respond
  cases respAt with
  | none => exact ⟨_, rfl⟩
  | some place =>
    dsimp only
    rw [subslice_eq_some (Nat.zero_le _) (Nat.min_le_left _ _), Option.bind_eq_bind,
      Option.bind_some]
    obtain ⟨mem', hmem'⟩ := dmaWrite_isSome (t := t.wrapping) rfl place.1
      ((resp.drop 0).take (min resp.length place.2.toNat - 0)) mem
    rw [hmem']
    exact ⟨_, rfl⟩

theorem fitting_serveControl (ht : t.overflowChecks = true) :
    Fitting (M := M) (serveControl t) (serveControl t.wrapping) (ControlFits t) where
  checked _ _ _ _ := serveControl_checked ht
  isSome d mem segs h := by
    have hreads : ReadsKeep fun _ : M => True := ⟨fun _ _ h => h, fun _ _ h => h⟩
    have hcollect : ∃ c, segs.foldlM (collectSeg t.wrapping) ⟨[], none, mem⟩ = some c ∧ True :=
      collect_isSome (t := t.wrapping) rfl hreads segs trivial
    obtain ⟨c, hc, -⟩ := hcollect
    have hallocates : Allocates t.wrapping c.req := fun hcreate =>
      ((h.2 c hc).1.create hcreate).allocates
    have hhandle : ∃ r, handleCmd t.wrapping d c.mem c.req = some r ∧ True ∧ _ :=
      handleCmd_isSome (t := t.wrapping) rfl hreads d trivial hallocates
    obtain ⟨⟨resp, d', mem'⟩, hcmd, -⟩ := hhandle
    obtain ⟨⟨written, mem1⟩, hrespond⟩ := respond_isSome (t := t) c.respAt resp mem'
    unfold serveControl
    rw [hc, Option.bind_eq_bind, Option.bind_some, hcmd, Option.bind_eq_bind, Option.bind_some]
    dsimp only
    rw [hrespond]
    exact ⟨_, rfl⟩

omit [GuestMem M] in
theorem fitting_serveCursor :
    Fitting (M := M) serveCursor serveCursor fun _ _ _ => True where
  checked _ _ _ _ := (iff_of_eq (true_and _)).symm
  isSome _ _ _ _ := ⟨_, rfl⟩

end Display

end V64.Platform
