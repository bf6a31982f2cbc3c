import V64.Decoder.Bitfield
import V64.Interp.Execute
import V64.Platform.Bus

/-!
# Bitfield moves, bit by bit

SBFM, BFM and UBFM from the word to the register. The decoder computes the rotated and
replicated masks of `DecodeBitMasks` and the executor combines them with the rotated
source; the outcome is the extract or the insert that the fields describe.

* `movedBit`: bit `i` of the architectural result.
* `getLsbD_bitfieldResult`: bit `i` of what the executor combines.
* `execute_bitfield`: decode and execution of every accepted word.
-/

namespace V64.Interp

open V64.Cpu V64.Decoder

/-! ## The architectural result -/

/-- The bits above the field: the top bit of the field for SBFM, the destination for BFM and
    zero for UBFM. -/
def bitAbove (opc imms : ℕ) (src dst : BitVec 64) (i : ℕ) : Bool :=
  match opc with
  | 0 => src.getLsbD imms
  | 1 => dst.getLsbD i
  | _ => false

/-- The bits below the field: the destination for BFM and zero for the others. -/
def bitBelow (opc : ℕ) (dst : BitVec 64) (i : ℕ) : Bool :=
  match opc with
  | 1 => dst.getLsbD i
  | _ => false

/-- Bit `i` of a bitfield move on `n` bits: with `imms ≥ immr` the source bits
    `[imms:immr]` move to bit 0, and otherwise the source bits `[imms:0]` to bit
    `n - immr`. -/
def movedBit (n opc immr imms : ℕ) (src dst : BitVec 64) (i : ℕ) : Bool :=
  if n ≤ i then false
  else if immr ≤ imms then
    if i ≤ imms - immr then src.getLsbD (immr + i) else bitAbove opc imms src dst i
  else if i < n - immr then bitBelow opc dst i
  else if i ≤ n - immr + imms then src.getLsbD (i - (n - immr))
  else bitAbove opc imms src dst i

/-! ## The executor -/

/-- Bit `i` of the rotated source is bit `(i + r) % ds` of the source. -/
theorem getLsbD_ror (sf : Bool) (val : BitVec 64) {r i : ℕ} (hr : r < datasize sf)
    (hi : i < datasize sf) :
    (ror val r (datasize sf)).getLsbD i = val.getLsbD ((i + r) % datasize sf) := by
  have hmod : (i + r) % datasize sf =
      if i < datasize sf - r then r + i else i - (datasize sf - r) := by
    split_ifs with hlt
    · rw [Nat.mod_eq_of_lt (by omega), Nat.add_comm]
    · rw [Nat.mod_eq_sub_mod (by omega), Nat.mod_eq_of_lt (by omega)]
      omega
  rw [hmod]
  cases sf with
  | true =>
    have hi : i < 64 := hi
    have hr : r < 64 := hr
    show (val.rotateRight r).getLsbD i = _
    rw [BitVec.getLsbD_rotateRight_of_lt hr, decide_eq_true hi, Bool.true_and]
    show cond (decide (i < 64 - r)) _ _ = val.getLsbD (if i < 64 - r then _ else _)
    by_cases hlt : i < 64 - r
    · rw [decide_eq_true hlt, if_pos hlt]
      rfl
    · rw [decide_eq_false hlt, if_neg hlt]
      rfl
  | false =>
    have hi : i < 32 := hi
    have hr : r < 32 := hr
    show (((val.setWidth 32).rotateRight r).setWidth 64).getLsbD i = _
    rw [BitVec.getLsbD_setWidth, BitVec.getLsbD_rotateRight_of_lt hr, decide_eq_true hi,
      decide_eq_true (by omega : i < 64), Bool.true_and, Bool.true_and]
    show cond (decide (i < 32 - r)) _ _ = val.getLsbD (if i < 32 - r then _ else _)
    by_cases hlt : i < 32 - r
    · rw [decide_eq_true hlt, if_pos hlt, cond_true, BitVec.getLsbD_setWidth,
        decide_eq_true (by omega : r + i < 32), Bool.true_and]
    · rw [decide_eq_false hlt, if_neg hlt, cond_false, BitVec.getLsbD_setWidth,
        decide_eq_true (by omega : i - (32 - r) < 32), Bool.true_and]
      rfl

/-- `top` of `bitfield::exec`. -/
def topBits (sf : Bool) (opc imms : ℕ) (src dst : BitVec 64) : BitVec 64 :=
  match opc with
  | 0 => if (src >>> imms) &&& 1 == 1 then widthMask sf else 0
  | 1 => dst
  | _ => 0

/-- `bot` of `bitfield::exec`. -/
def botBits (sf : Bool) (opc : ℕ) (wmask : BitVec 64) (immr : ℕ) (src dst : BitVec 64) :
    BitVec 64 :=
  let rotated := ror src immr (datasize sf) &&& (wmask &&& widthMask sf)
  if opc = 1 then (dst &&& ~~~(wmask &&& widthMask sf)) ||| rotated else rotated

/-- What `bitfield::exec` writes. -/
def bitfieldResult (sf : Bool) (opc : ℕ) (wmask tmask : BitVec 64) (immr imms : ℕ)
    (src dst : BitVec 64) : BitVec 64 :=
  (topBits sf opc imms src dst &&& ~~~(tmask &&& widthMask sf)) |||
    (botBits sf opc wmask immr src dst &&& (tmask &&& widthMask sf))

theorem bitfield_eq (cpu : CpuState) (sf : Bool) (opc : ℕ) (wmask tmask : BitVec 64)
    (immr imms : BitVec 6) (rn rd : Reg) :
    bitfield cpu sf opc wmask tmask immr imms rn rd =
      write cpu rd sf (bitfieldResult sf opc wmask tmask immr.toNat imms.toNat
        (read cpu rn sf false) (read cpu rd sf false)) false := by
  cases sf <;> rfl

/-- The test of the source bit at position `k`. -/
theorem shiftRight_and_one (src : BitVec 64) (k : ℕ) :
    ((src >>> k) &&& 1 == 1) = src.getLsbD k := by
  have hone : (src >>> k) &&& 1 = if src.getLsbD k then 1 else 0 := by
    apply BitVec.eq_of_getLsbD_eq
    intro i hi
    rw [BitVec.getLsbD_and, BitVec.getLsbD_ushiftRight, show (1 : BitVec 64) = 1#64 from rfl,
      BitVec.getLsbD_one]
    by_cases hzero : i = 0
    · subst hzero
      cases src.getLsbD k <;> simp
    · cases src.getLsbD k <;> simp [hzero]
  rw [hone]
  cases src.getLsbD k <;> rfl

variable {sf : Bool} {immr imms : ℕ}

/-- The masks that `bitfield::decode` makes of the two positions. -/
structure MasksOf (sf : Bool) (immr imms : ℕ) (wmask tmask : BitVec 64) : Prop where
  immr_lt : immr < datasize sf
  imms_lt : imms < datasize sf
  wmask : ∀ i < datasize sf, wmask.getLsbD i = decide ((i + immr) % datasize sf ≤ imms)
  tmask : ∀ i < datasize sf,
    tmask.getLsbD i = decide (i ≤ if immr ≤ imms then imms - immr else datasize sf + imms - immr)

theorem masksOf_decodeBitMasks {wmask tmask : BitVec 64} (hr : immr < datasize sf)
    (hs : imms < datasize sf)
    (h : decodeBitMasks (if sf then 1 else 0) imms immr false = some (wmask, tmask)) :
    MasksOf sf immr imms wmask tmask := by
  have hle := datasize_le sf
  rw [decodeBitMasks_eq sf hs hr, Option.some.injEq, Prod.mk.injEq] at h
  obtain ⟨rfl, rfl⟩ := h
  refine ⟨hr, hs, ?_, ?_⟩
  · intro i hi
    rw [getLsbD_replicate sf _ hi]
    exact getLsbD_rorWithin hle hs hr hi
  · intro i hi
    have hdiff : (imms + 2 ^ 32 - immr) % datasize sf =
        if immr ≤ imms then imms - immr else datasize sf + imms - immr := by
      cases sf with
      | true =>
        have hr : immr < 64 := hr
        have hs : imms < 64 := hs
        show (imms + 2 ^ 32 - immr) % 64 = if immr ≤ imms then imms - immr else 64 + imms - immr
        split_ifs <;> omega
      | false =>
        have hr : immr < 32 := hr
        have hs : imms < 32 := hs
        show (imms + 2 ^ 32 - immr) % 32 = if immr ≤ imms then imms - immr else 32 + imms - immr
        split_ifs <;> omega
    rw [getLsbD_replicate sf _ hi]
    show (ones ((imms + 2 ^ 32 - immr) % datasize sf + 1)).getLsbD i = _
    have hlt := Nat.mod_lt (imms + 2 ^ 32 - immr) (datasize_pos sf)
    rw [getLsbD_ones (by omega), hdiff]
    exact decide_eq_decide.mpr Nat.lt_succ_iff

theorem getLsbD_topBits (opc : ℕ) (src dst : BitVec 64) {i : ℕ} (hi : i < datasize sf) :
    (topBits sf opc imms src dst).getLsbD i = bitAbove opc imms src dst i := by
  match opc with
  | 0 =>
    show (if (src >>> imms) &&& 1 == 1 then widthMask sf else 0).getLsbD i = src.getLsbD imms
    rw [shiftRight_and_one]
    cases src.getLsbD imms with
    | true => exact (getLsbD_widthMask sf i).trans (decide_eq_true hi)
    | false => exact BitVec.getLsbD_zero
  | 1 => rfl
  | _ + 2 => exact BitVec.getLsbD_zero

/-- Below `tmask`, a bit is of the field or is below it. -/
theorem getLsbD_botBits {wmask tmask : BitVec 64} (h : MasksOf sf immr imms wmask tmask)
    (opc : ℕ) (src dst : BitVec 64) {i : ℕ} (hi : i < datasize sf) :
    (botBits sf opc wmask immr src dst).getLsbD i =
      if (i + immr) % datasize sf ≤ imms then src.getLsbD ((i + immr) % datasize sf)
      else bitBelow opc dst i := by
  have hle := datasize_le sf
  have hrot : (ror src immr (datasize sf) &&& (wmask &&& widthMask sf)).getLsbD i =
      (src.getLsbD ((i + immr) % datasize sf) && decide ((i + immr) % datasize sf ≤ imms)) := by
    rw [BitVec.getLsbD_and, BitVec.getLsbD_and, getLsbD_widthMask, decide_eq_true hi,
      Bool.and_true, getLsbD_ror sf src h.immr_lt hi, h.wmask i hi]
  have hkeep : (dst &&& ~~~(wmask &&& widthMask sf)).getLsbD i =
      (dst.getLsbD i && !decide ((i + immr) % datasize sf ≤ imms)) := by
    rw [BitVec.getLsbD_and, BitVec.getLsbD_not, BitVec.getLsbD_and, getLsbD_widthMask,
      decide_eq_true hi, Bool.and_true, h.wmask i hi, decide_eq_true (by omega : i < 64),
      Bool.true_and]
  unfold botBits
  dsimp only
  by_cases hopc : opc = 1
  · rw [if_pos hopc, BitVec.getLsbD_or, hrot, hkeep, hopc]
    show _ = if _ then _ else dst.getLsbD i
    split_ifs with hfield
    · rw [decide_eq_true hfield, Bool.not_true, Bool.and_false, Bool.false_or, Bool.and_true]
    · rw [decide_eq_false hfield, Bool.not_false, Bool.and_true, Bool.and_false, Bool.or_false]
  · have hbelow : bitBelow opc dst i = false := by
      unfold bitBelow
      split
      · exact absurd rfl hopc
      · rfl
    rw [if_neg hopc, hrot, hbelow]
    split_ifs with hfield
    · rw [decide_eq_true hfield, Bool.and_true]
    · rw [decide_eq_false hfield, Bool.and_false]

/-- **The executor's masks move the field.** Where `tmask` is set, `wmask` tells the bits
    of the field from the bits below it. -/
theorem getLsbD_bitfieldResult {wmask tmask : BitVec 64} (h : MasksOf sf immr imms wmask tmask)
    (opc : ℕ) (src dst : BitVec 64) {i : ℕ} (hi : i < datasize sf) :
    (bitfieldResult sf opc wmask tmask immr imms src dst).getLsbD i =
      movedBit (datasize sf) opc immr imms src dst i := by
  have hr := h.immr_lt
  have hs := h.imms_lt
  have hle := datasize_le sf
  have hmod : (i + immr) % datasize sf =
      if i + immr < datasize sf then i + immr else i + immr - datasize sf := by
    split_ifs with hlt
    · exact Nat.mod_eq_of_lt hlt
    · rw [Nat.mod_eq_sub_mod (by omega), Nat.mod_eq_of_lt (by omega)]
  unfold bitfieldResult movedBit
  rw [BitVec.getLsbD_or, BitVec.getLsbD_and, BitVec.getLsbD_and, BitVec.getLsbD_not,
    BitVec.getLsbD_and, getLsbD_widthMask, decide_eq_true hi, Bool.and_true, h.tmask i hi,
    decide_eq_true (by omega : i < 64), Bool.true_and, getLsbD_topBits opc src dst hi,
    getLsbD_botBits h opc src dst hi, hmod, if_neg (by omega : ¬ datasize sf ≤ i)]
  by_cases hextract : immr ≤ imms
  · rw [if_pos hextract, if_pos hextract]
    by_cases hin : i ≤ imms - immr
    · rw [if_pos hin, decide_eq_true hin, if_pos (by omega : i + immr < datasize sf),
        if_pos (by omega), Bool.not_true, Bool.and_false, Bool.false_or, Bool.and_true,
        Nat.add_comm]
    · rw [if_neg hin, decide_eq_false hin, Bool.not_false, Bool.and_true, Bool.and_false,
        Bool.or_false]
  · rw [if_neg hextract, if_neg hextract]
    by_cases hbelow : i < datasize sf - immr
    · rw [if_pos hbelow, decide_eq_true (by omega), if_pos (by omega : i + immr < datasize sf),
        if_neg (by omega), Bool.not_true, Bool.and_false, Bool.false_or, Bool.and_true]
    · rw [if_neg hbelow, if_neg (by omega : ¬ i + immr < datasize sf)]
      by_cases hin : i ≤ datasize sf - immr + imms
      · rw [if_pos hin, decide_eq_true (by omega), if_pos (by omega), Bool.not_true, Bool.and_false,
          Bool.false_or, Bool.and_true]
        congr 1
        omega
      · rw [if_neg hin, decide_eq_false (by omega), Bool.not_false, Bool.and_true, Bool.and_false,
          Bool.or_false]

/-! ## Decode and execution -/

/-- A bitfield move reads the bits of its width. -/
theorem movedBit_read (cpu : CpuState) (rn rd : Reg) (opc : ℕ) (hr : immr < datasize sf)
    (hs : imms < datasize sf) (i : ℕ) :
    movedBit (datasize sf) opc immr imms (read cpu rn sf false) (read cpu rd sf false) i =
      movedBit (datasize sf) opc immr imms (cpu.readGpr rn false) (cpu.readGpr rd false) i := by
  have hbit (idx : Reg) {k : ℕ} (hk : k < datasize sf) :
      (read cpu idx sf false).getLsbD k = (cpu.readGpr idx false).getLsbD k := by
    rw [read_eq, BitVec.getLsbD_and, getLsbD_widthMask, decide_eq_true hk, Bool.and_true]
  have habove {k : ℕ} (hk : k < datasize sf) :
      bitAbove opc imms (read cpu rn sf false) (read cpu rd sf false) k =
        bitAbove opc imms (cpu.readGpr rn false) (cpu.readGpr rd false) k := by
    match opc with
    | 0 => exact hbit rn hs
    | 1 => exact hbit rd hk
    | _ + 2 => rfl
  have hbelow {k : ℕ} (hk : k < datasize sf) :
      bitBelow opc (read cpu rd sf false) k = bitBelow opc (cpu.readGpr rd false) k := by
    match opc with
    | 0 => rfl
    | 1 => exact hbit rd hk
    | _ + 2 => rfl
  unfold movedBit
  split_ifs with hge hextract hin hlow hin
  · rfl
  · exact hbit rn (by omega)
  · exact habove (by omega)
  · exact hbelow (by omega)
  · exact hbit rn (by omega)
  · exact habove (by omega)

theorem exists_of_isBitfield {insn : Insn} (h : insn.isBitfield = true) :
    ∃ sf opc wmask tmask immr imms rn rd,
      insn = .bitfield sf opc wmask tmask immr imms rn rd := by
  unfold Insn.isBitfield at h
  split at h
  · exact ⟨_, _, _, _, _, _, _, _, rfl⟩
  · exact Bool.noConfusion h

/-- The fields of a decoded bitfield move. -/
theorem bitfield_fields {word : BitVec 32} {opc : ℕ} {wmask tmask : BitVec 64}
    {immr imms : BitVec 6} {rn rd : Reg}
    (h : decode word = .bitfield sf opc wmask tmask immr imms rn rd) :
    sf = Decoder.sf word ∧ opc = field word 29 2 ∧ immr.toNat = field word 16 6 ∧
      imms.toNat = field word 10 6 ∧ rn = regField word 5 ∧ rd = regField word 0 ∧
      MasksOf sf immr.toNat imms.toNat wmask tmask := by
  rw [decode_eq_bitfield (congrArg Insn.isBitfield h)] at h
  unfold decodeBitfield at h
  dsimp only at h
  by_cases hfields : (if Decoder.sf word then 1 else 0) ≠ field word 22 1 ∨
      field word 16 6 ≥ (if Decoder.sf word then 64 else 32) ∨
      field word 10 6 ≥ (if Decoder.sf word then 64 else 32) ∨ field word 29 2 > 2
  · rw [if_pos hfields] at h
    exact Bool.noConfusion (congrArg Insn.isBitfield h)
  rw [if_neg hfields] at h
  split at h
  · exact Bool.noConfusion (congrArg Insn.isBitfield h)
  case h_2 w t hmasks =>
    have hnat (lsb : ℕ) : (rawField word lsb 6).toNat = field word lsb 6 := by
      rw [rawField, BitVec.toNat_ofNat, Nat.mod_eq_of_lt (field_lt word lsb 6)]
    injection h with hsf hopc hw ht hr hs hn hd
    subst hsf hopc hw ht hr hs hn hd
    rw [hnat, hnat]
    refine ⟨rfl, rfl, rfl, rfl, rfl, rfl, ?_⟩
    have hdatasize : datasize (Decoder.sf word) = if Decoder.sf word = true then 64 else 32 := rfl
    have hn : (if Decoder.sf word = true then 1 else 0) = field word 22 1 := by
      by_contra hne
      exact hfields (.inl hne)
    refine masksOf_decodeBitMasks (by omega) (by omega) ?_
    rw [hn]
    exact hmasks

/-- **Every bitfield move gives the architectural result bit by bit.** The fields are
    those of the word, and in the W forms the upper half is zero. -/
theorem execute_bitfield {M : Type} [GuestMem M] (vu : VecUnit) {word : BitVec 32}
    (h : (decode word).isBitfield = true) (g : Guest M) (pc : BitVec 64) :
    ∃ result : BitVec 64,
      execute vu g (decode word) pc =
        some (none, { g with cpu := g.cpu.writeGpr (regField word 0) false result }) ∧
      ∀ i, result.getLsbD i =
        movedBit (if field word 31 1 = 1 then 64 else 32) (field word 29 2) (field word 16 6)
          (field word 10 6) (g.cpu.readGpr (regField word 5) false)
          (g.cpu.readGpr (regField word 0) false) i := by
  obtain ⟨sf, opc, wmask, tmask, immr, imms, rn, rd, h⟩ := exists_of_isBitfield h
  obtain ⟨hsf, hopc, himmr, himms, hrn, hrd, hmasks⟩ := bitfield_fields h
  have hwidth : (if field word 31 1 = 1 then 64 else 32) = datasize sf := by
    rw [hsf]
    unfold datasize Decoder.sf flag
    by_cases hone : field word 31 1 = 1
    · rw [if_pos hone, if_pos (beq_iff_eq.mpr hone)]
    · rw [if_neg hone, if_neg (mt beq_iff_eq.mp hone)]
  refine ⟨bitfieldResult sf opc wmask tmask immr.toNat imms.toNat (read g.cpu rn sf false)
    (read g.cpu rd sf false) &&& widthMask sf, ?_, ?_⟩
  · rw [h, ← hrd]
    show seq g (bitfield g.cpu sf opc wmask tmask immr imms rn rd) = _
    rw [bitfield_eq, write_eq]
    rfl
  · intro i
    rw [hwidth, ← hopc, ← himmr, ← himms, ← hrn, ← hrd,
      ← movedBit_read g.cpu rn rd opc hmasks.immr_lt hmasks.imms_lt, BitVec.getLsbD_and,
      getLsbD_widthMask]
    by_cases hi : i < datasize sf
    · rw [decide_eq_true hi, Bool.and_true, getLsbD_bitfieldResult hmasks _ _ _ hi]
    · rw [decide_eq_false hi, Bool.and_false]
      exact (if_pos (by omega)).symm

/-- `sbfx x0, x1, #4, #8` as `sbfm x0, x1, #4, #11`. -/
theorem execute_bitfield_sbfx : ∃ result : BitVec 64,
    execute (fun _ _ => none)
        (⟨CpuState.new, ⟨⟨0, 0, fun _ => 0⟩, []⟩⟩ : Guest (Platform.Bus Empty))
        (decode 0x93442c20#32) 0 =
      some (none, ⟨CpuState.new.writeGpr (regField 0x93442c20#32 0) false result,
        ⟨⟨0, 0, fun _ => 0⟩, []⟩⟩) ∧
    ∀ i, result.getLsbD i =
      movedBit (if field 0x93442c20#32 31 1 = 1 then 64 else 32) (field 0x93442c20#32 29 2)
        (field 0x93442c20#32 16 6) (field 0x93442c20#32 10 6)
        (CpuState.new.readGpr (regField 0x93442c20#32 5) false)
        (CpuState.new.readGpr (regField 0x93442c20#32 0) false) i :=
  execute_bitfield (fun _ _ => none) (by decide +kernel) _ 0

end V64.Interp
