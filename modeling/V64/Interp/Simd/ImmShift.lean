import V64.Interp.Simd.RegShift

/-!
# Shifts by an immediate, lane by lane

The shifts by an immediate and the narrowing shifts against shifts of integers. The amounts
are coded relative to the element size: `2 * esize - immhb` to the right, from 1 to the whole
width, and `immhb - esize` to the left, below it.

* `splice`: the insertion of SRI and SLI, bit for bit.
* `exists_immLane`, `exists_narrowLane`: the lanes that the code computes.
* `execute_shiftImm`: the instructions on registers.
-/

namespace V64.Interp.Simd

open V64.Cpu V64.Decoder V64.Platform Checked

/-! ## Insertion -/

variable {e : ℕ}

/-- `low` below bit `k` and `high` from there on. -/
def splice (k : ℕ) (high low : BitVec e) : BitVec e :=
  ((high >>> k) <<< k) ||| (low.setWidth k).setWidth e

theorem getLsbD_splice (k : ℕ) (high low : BitVec e) {i : ℕ} (hi : i < e) :
    (splice k high low).getLsbD i = if i < k then low.getLsbD i else high.getLsbD i := by
  unfold splice
  rw [BitVec.getLsbD_or, BitVec.getLsbD_shiftLeft, BitVec.getLsbD_ushiftRight,
    BitVec.getLsbD_setWidth, BitVec.getLsbD_setWidth, decide_eq_true hi]
  by_cases hk : i < k
  · simp [hk]
  · rw [if_neg hk, decide_eq_false hk, show k + (i - k) = i by omega]
    simp

/-! ## The lanes of the architecture -/

/-- The shift to the right that `immhb` codes. -/
def rightAmount (e immhb : ℕ) : ℕ := 2 * e - immhb

/-- The shift to the left that `immhb` codes. -/
def leftAmount (e immhb : ℕ) : ℕ := immhb - e

/-- A lane shifted to the right by `n`. -/
def rightLane (rounding u : Bool) (n : ℕ) (x : BitVec e) : BitVec e :=
  BitVec.ofInt e (shiftValue rounding (laneValue u x) (-n))

/-- A lane shifted to the left by `n`. -/
def leftLane (n : ℕ) (x : BitVec e) : BitVec e :=
  BitVec.ofInt e (shiftValue false (laneValue true x) n)

/-- A lane shifted to the left by `n`, with `usrc` read as unsigned, and saturated. -/
def satLeftLane (usrc udst : Bool) (n : ℕ) (x : BitVec e) : BitVec e :=
  BitVec.ofInt e (saturate udst e (shiftValue false (laneValue usrc x) n))

/-- The lane that a shift by an immediate leaves for the lanes `x` of the source and `d` of
    the destination. -/
def immShiftLane (opcode : ℕ) (u : Bool) (immhb : ℕ) (x d : BitVec e) : BitVec e :=
  let right := rightAmount e immhb
  let left := leftAmount e immhb
  match opcode with
  | 0b00000 => rightLane false u right x -- SSHR, USHR
  | 0b00010 => d + rightLane false u right x -- SSRA, USRA
  | 0b00100 => rightLane true u right x -- SRSHR, URSHR
  | 0b00110 => d + rightLane true u right x -- SRSRA, URSRA
  | 0b01000 => splice (e - right) d (rightLane false true right x) -- SRI
  | 0b01010 => if u then splice left (leftLane left x) d else leftLane left x -- SLI, SHL
  | 0b01100 => satLeftLane false true left x -- SQSHLU
  | _ => satLeftLane u u left x -- SQSHL, UQSHL

/-- SQSHRUN and SQRSHRUN read a signed source for an unsigned result, SHRN and RSHRN an
    unsigned one; the other narrowing shifts read what they leave. -/
def narrowUnsigned (opcode : ℕ) (u : Bool) : Bool :=
  if opcode = 0b10000 ∨ opcode = 0b10001 then !u else u

/-- SHRN and RSHRN truncate. -/
def narrowTruncates (opcode : ℕ) (u : Bool) : Bool :=
  (opcode == 0b10000 || opcode == 0b10001) && !u

/-- The lane that a narrowing shift leaves for the element `x` of twice the width. -/
def narrowShiftLane (opcode : ℕ) (u : Bool) (immhb : ℕ) (x : BitVec (e * 2)) : BitVec e :=
  let v := shiftValue (opcode % 2 == 1) (laneValue (narrowUnsigned opcode u) x)
    (-rightAmount e immhb)
  BitVec.ofInt e (if narrowTruncates opcode u then v else saturate u e v)

/-! ## The lanes of the code -/

section Lane

variable (t : Target) (hpos : 0 < e) (he : e ≤ 64) (u : Bool) (x d : BitVec e)

/-- A floor of an unsigned lane is a shift of the vector. -/
theorem rightLane_unsigned {n : ℕ} (hn : 0 < n) : rightLane false true n x = x >>> n := by
  have hcast : (x.toNat : ℤ) / 2 ^ n = ((x.toNat / 2 ^ n : ℕ) : ℤ) := by
    push_cast
    rfl
  unfold rightLane
  rw [shiftValue_neg _ _ hn]
  show BitVec.ofInt e ((x.toNat : ℤ) / 2 ^ n) = x >>> n
  rw [hcast, BitVec.ofInt_natCast]
  apply BitVec.eq_of_toNat_eq
  rw [BitVec.toNat_ofNat, BitVec.toNat_ushiftRight, Nat.shiftRight_eq_div_pow]
  exact Nat.mod_eq_of_lt (Nat.lt_of_le_of_lt (Nat.div_le_self _ _) x.isLt)

include he

theorem and_widthMask_setWidth : x.setWidth 64 &&& widthMask e = x.setWidth 64 := by
  rw [and_widthMask he, BitVec.setWidth_setWidth_of_le _ he, BitVec.setWidth_eq]

/-- The accumulation. -/
theorem setWidth_accumulate (r : BitVec 64) :
    ((d.setWidth 64 + r) &&& widthMask e).setWidth e = d + r.setWidth e := by
  rw [setWidth_and_widthMask he, BitVec.setWidth_add _ _ he, BitVec.setWidth_setWidth_of_le _ he,
    BitVec.setWidth_eq]

theorem setWidth_sri {n : ℕ} (hn : 0 < n) :
    (sri (x.setWidth 64) (d.setWidth 64) n e (widthMask e)).setWidth e =
      splice (e - n) d (rightLane false true n x) := by
  rw [rightLane_unsigned x hn]
  apply BitVec.eq_of_getLsbD_eq
  intro i hi
  have h64 : i < 64 := by omega
  have hshifted : (if n ≥ 64 then 0 else x.setWidth 64 >>> n).getLsbD i = x.getLsbD (n + i) := by
    split_ifs with hn64
    · rw [BitVec.getLsbD_of_ge x _ (by omega)]
      exact BitVec.getLsbD_zero
    · rw [BitVec.getLsbD_ushiftRight, BitVec.getLsbD_setWidth]
      by_cases hin : n + i < 64
      · rw [decide_eq_true hin, Bool.true_and]
      · rw [decide_eq_false hin, Bool.false_and, BitVec.getLsbD_of_ge x _ (by omega)]
  have hkeep : (if n ≥ e then widthMask e else widthMask e &&& ~~~(widthMask e >>> n)).getLsbD i =
      !decide (n + i < e) := by
    split_ifs with hne
    · rw [getLsbD_widthMask he, decide_eq_true hi, decide_eq_false (by omega)]
      rfl
    · rw [BitVec.getLsbD_and, BitVec.getLsbD_not, BitVec.getLsbD_ushiftRight,
        getLsbD_widthMask he, getLsbD_widthMask he, decide_eq_true hi, decide_eq_true h64]
      rfl
  rw [getLsbD_splice _ _ _ hi, BitVec.getLsbD_ushiftRight]
  unfold sri
  rw [setWidth_and_widthMask he, and_widthMask_setWidth he, BitVec.getLsbD_setWidth,
    BitVec.getLsbD_or, BitVec.getLsbD_and, BitVec.getLsbD_setWidth, decide_eq_true hi,
    decide_eq_true h64, hshifted, hkeep]
  by_cases hin : n + i < e
  · rw [if_pos (by omega), decide_eq_true hin]
    simp
  · rw [if_neg (by omega), decide_eq_false hin, BitVec.getLsbD_of_ge x _ (by omega)]
    simp

theorem setWidth_sli {n : ℕ} (hne : n < e) :
    (sli (x.setWidth 64) (d.setWidth 64) n (widthMask e)).setWidth e =
      splice n (leftLane n x) d := by
  have hleft : leftLane n x = (x.setWidth 64 <<< n).setWidth e := by
    rw [shiftLeft_eq he true]
    exact congrArg (BitVec.ofInt e) (if_pos (Int.natCast_nonneg n))
  rw [hleft]
  apply BitVec.eq_of_getLsbD_eq
  intro i hi
  have h64 : i < 64 := by omega
  have hlow : ((1 <<< n : ℕ) - 1 : BitVec 64).getLsbD i = decide (i < n) :=
    Words.getLsbD_ones (by omega) i
  rw [getLsbD_splice _ _ _ hi]
  unfold sli
  rw [setWidth_and_widthMask he, BitVec.getLsbD_setWidth, BitVec.getLsbD_or, BitVec.getLsbD_and,
    BitVec.getLsbD_and, BitVec.getLsbD_setWidth, getLsbD_widthMask he, hlow,
    BitVec.getLsbD_setWidth, decide_eq_true hi, decide_eq_true h64, Bool.true_and, Bool.and_true,
    Bool.true_and]
  by_cases hin : i < n
  · rw [if_pos hin, BitVec.getLsbD_shiftLeft, decide_eq_true hin]
    simp
  · rw [if_neg hin, decide_eq_false hin]
    simp

include hpos

theorem exists_shr (rounding : Bool) {n : ℕ} (hn : 0 < n) (hne : n ≤ e) :
    ∃ r, shr t u rounding (x.setWidth 64) n e (widthMask e) = some r ∧
      r.setWidth e = rightLane rounding u n x := by
  obtain ⟨hlo, hhi⟩ := laneValue_range hpos he u x
  unfold shr rightLane
  rw [and_widthMask_setWidth he, source_eq hpos he u x, shiftValue_neg _ _ hn]
  cases rounding with
  | false =>
    refine ⟨_, rfl, ?_⟩
    rw [setWidth_and_widthMask he, asU64_setWidth he, shiftRight_min hlo hhi (by omega)]
    rfl
  | true =>
    obtain ⟨hhalf, hsum⟩ := signed_round t hlo hhi (by omega : n ≤ 64)
    refine ⟨asU64 ((laneValue u x + 2 ^ (n - 1)) >>> n) &&& widthMask e, ?_, ?_⟩
    · simp [hhalf, hsum]
    · rw [setWidth_and_widthMask he, asU64_setWidth he, shiftRight_eq]
      rfl

theorem exists_qshlImm (dst : QKind) (signedSrc : Bool) {n : ℕ} (hn : n < e) :
    ∃ r, qshlImm t dst signedSrc (x.setWidth 64) n e (widthMask e) = some r ∧
      r.setWidth e = satLeftLane (!signedSrc) (dst == .unsigned) n x := by
  have hvalue : (if signedSrc then sx (x.setWidth 64) e
      else ((x.setWidth 64 &&& widthMask e).toNat : ℤ)) = laneValue (!signedSrc) x := by
    rw [and_widthMask_setWidth he, ← source_eq hpos he]
    cases signedSrc with
    | false => rfl
    | true => rfl
  have hrange : (if dst = .unsigned then (0, ((widthMask e).toNat : ℤ)) else signedRange e) =
      if dst == .unsigned then (0, ((widthMask e).toNat : ℤ)) else signedRange e := by
    cases dst with
    | signed => rfl
    | unsigned => rfl
  have hshift : shiftValue false (laneValue (!signedSrc) x) n =
      laneValue (!signedSrc) x * 2 ^ n := if_pos (Int.natCast_nonneg n)
  unfold qshlImm satLeftLane
  rw [hvalue, hrange, hshift]
  dsimp only
  rw [signed_mul t hpos he _ x (.inr (by omega))]
  refine ⟨_, rfl, ?_⟩
  rw [setWidth_and_widthMask he, asU64_setWidth he, clamp_eq_saturate he]

/-- The lane of the code is the lane of the architecture. -/
theorem exists_immLane {opcode immhb : ℕ}
    (hop : opcode ∈ [0b00000, 0b00010, 0b00100, 0b00110, 0b01000, 0b01010, 0b01100, 0b01110])
    (hlo : e ≤ immhb) (hhi : immhb < 2 * e) :
    ∃ r, immLane t opcode u (x.setWidth 64) (d.setWidth 64) e immhb (widthMask e) = some r ∧
      r.setWidth e = immShiftLane opcode u immhb x d := by
  have hright : 0 < rightSh e immhb ∧ rightSh e immhb ≤ e := by
    unfold rightSh
    omega
  have hleft : leftSh e immhb < e := by
    unfold leftSh
    omega
  have hshr (rounding : Bool) := exists_shr t hpos he u x rounding hright.1 hright.2
  have hacc (rounding : Bool) : ∃ r, ((shr t u rounding (x.setWidth 64) (rightSh e immhb) e
      (widthMask e)).map fun r => (d.setWidth 64 + r) &&& widthMask e) = some r ∧
      r.setWidth e = d + rightLane rounding u (rightSh e immhb) x := by
    obtain ⟨r, hr, heq⟩ := hshr rounding
    refine ⟨_, by rw [hr]; rfl, ?_⟩
    rw [setWidth_accumulate he, heq]
  simp only [List.mem_cons, List.not_mem_nil, or_false] at hop
  obtain rfl | rfl | rfl | rfl | rfl | rfl | rfl | rfl := hop
  · exact hshr false
  · exact hacc false
  · exact hshr true
  · exact hacc true
  · exact ⟨_, rfl, setWidth_sri he x d hright.1⟩
  · cases u with
    | false =>
      refine ⟨_, rfl, ?_⟩
      rw [setWidth_and_widthMask he, shiftLeft_eq he true]
      exact (congrArg (BitVec.ofInt e) (if_pos (Int.natCast_nonneg _))).symm
    | true => exact ⟨_, rfl, setWidth_sli he x d hleft⟩
  · exact exists_qshlImm t hpos he x .unsigned true hleft
  · cases u with
    | false => exact exists_qshlImm t hpos he x .signed true hleft
    | true => exact exists_qshlImm t hpos he x .unsigned false hleft

end Lane

/-- The rounding constant, where there is one, and the sum with it. -/
theorem exists_round (t : Target) (rounding : Bool) {v : ℤ} {n : ℕ} (hlo : -2 ^ 64 ≤ v)
    (hhi : v < 2 ^ 64) (hn : 0 < n) (hn64 : n ≤ 64) :
    ∃ c, (if rounding then t.signed 128 (2 ^ (n - 1)) else some 0) = some c ∧
      t.signed 128 (v + c) = some (v + c) ∧ (v + c) >>> n = shiftValue rounding v (-n) := by
  rw [shiftValue_neg _ _ hn]
  cases rounding with
  | false =>
    refine ⟨0, if_neg Bool.false_ne_true, ?_, ?_⟩
    · exact Target.signed_of_range (by decide) (by omega) (by omega)
    · rw [add_zero, shiftRight_eq]
      rfl
  | true =>
    obtain ⟨hhalf, hsum⟩ := signed_round t hlo hhi hn64
    exact ⟨_, (if_pos rfl).trans hhalf, hsum, shiftRight_eq _ _⟩

section Narrow

variable (t : Target) (u : Bool) {opcode : ℕ}
  (hop : opcode ∈ [0b10000, 0b10001, 0b10010, 0b10011])

include hop

/-- The four forms of `narrow_lane` as one. -/
theorem narrowLane_eq (s : BitVec 64) (n e w : ℕ) :
    narrowLane t opcode u s n e w (opcode &&& 1 == 1) =
      (if opcode % 2 == 1 then t.signed 128 (2 ^ (n - 1)) else some 0).bind fun c =>
        (t.signed 128 ((if narrowUnsigned opcode u then ((s &&& widthMask w).toNat : ℤ)
          else sx s w) + c)).bind fun sum => some (asU64 (if narrowTruncates opcode u then sum >>> n
            else clamp (if u then (0, ((widthMask e).toNat : ℤ)) else signedRange e)
              (sum >>> n))) := by
  simp only [List.mem_cons, List.not_mem_nil, or_false] at hop
  obtain rfl | rfl | rfl | rfl := hop <;> cases u <;>
    simp [narrowLane, narrowUnsigned, narrowTruncates]

theorem exists_narrowLane (hpos : 0 < e) (he : e ≤ 32) (x : BitVec (e * 2)) {immhb : ℕ}
    (hlo : e ≤ immhb) (hhi : immhb < 2 * e) :
    ∃ r, narrowLane t opcode u (x.setWidth 64) (e * 2 - immhb) e (e * 2) (opcode &&& 1 == 1) =
        some r ∧
      r.setWidth e = narrowShiftLane opcode u immhb x := by
  have hsrc : (if narrowUnsigned opcode u then
      (((x.setWidth 64 &&& widthMask (e * 2)).toNat : ℕ) : ℤ) else sx (x.setWidth 64) (e * 2)) =
      laneValue (narrowUnsigned opcode u) x := by
    rw [and_widthMask_setWidth (by omega), source_eq (by omega) (by omega)]
  have hshift : e * 2 - immhb = rightAmount e immhb := by
    unfold rightAmount
    omega
  have hamount : 0 < rightAmount e immhb ∧ rightAmount e immhb ≤ 64 := by omega
  obtain ⟨hvlo, hvhi⟩ := laneValue_range (by omega) (by omega) (narrowUnsigned opcode u) x
  rw [narrowLane_eq t u hop, hsrc, hshift]
  obtain ⟨c, hc, hadd, hvalue⟩ := exists_round t (opcode % 2 == 1) hvlo hvhi hamount.1 hamount.2
  rw [hc, Option.bind_some, hadd, Option.bind_some]
  refine ⟨_, rfl, ?_⟩
  rw [asU64_setWidth (by omega), hvalue]
  unfold narrowShiftLane
  rw [clamp_eq_saturate (by omega)]

end Narrow

/-! ## Registers -/

/-- The amount that `immh:immb` codes is that of a right shift from 1 to the width, and of a
    left shift below it. -/
theorem immhb_range {immh immb : ℕ} (h0 : 0 < immh) (h16 : immh < 16) (h8 : immb < 8) :
    immSize immh ≤ 3 ∧ (immh < 8 → immSize immh ≤ 2) ∧ 8 <<< immSize immh ≤ immhb immh immb ∧
      immhb immh immb < 2 * (8 <<< immSize immh) := by
  have hsize : ∀ immh < 16, immSize immh ≤ 3 := by decide
  have hsmall : ∀ immh < 8, immSize immh ≤ 2 := by decide
  have hlo : ∀ immh < 16, 0 < immh → ∀ immb < 8, 8 <<< immSize immh ≤ immhb immh immb := by decide
  have hhi : ∀ immh < 16, ∀ immb < 8, immhb immh immb < 2 * (8 <<< immSize immh) := by decide
  exact ⟨hsize immh h16, hsmall immh, hlo immh h16 h0 immb h8, hhi immh h16 immb h8⟩

/-- The opcodes of the shifts by an immediate whose source and result have one width. -/
def sameWidthShifts : List ℕ :=
  [0b00000, 0b00010, 0b00100, 0b00110, 0b01000, 0b01010, 0b01100, 0b01110]

/-- The opcodes of the narrowing shifts. -/
def narrowingShifts : List ℕ := [0b10000, 0b10001, 0b10010, 0b10011]

variable (t : Target) (u : Bool) {immh immb opcode : ℕ} (h0 : 0 < immh) (h16 : immh < 16)
  (h8 : immb < 8) (w : VecView) (q : Bool) (rn rd : Reg)

include h0 h16 h8

theorem exists_shiftImm (hop : opcode ∈ sameWidthShifts) :
    ∃ v, shiftImm t w q u immh immb opcode rn rd = some (w.setV rd v) ∧
      HasLanes (immSize immh) q (fun i => immShiftLane opcode u (immhb immh immb)
        (Lanes.lane (8 <<< immSize immh) (w.v rn) i)
        (Lanes.lane (8 <<< immSize immh) (w.v rd) i)) v := by
  obtain ⟨hsize, -, hlo, hhi⟩ := immhb_range h0 h16 h8
  obtain ⟨lanes, hlanes, hv⟩ := exists_join_pair hsize q (w.v rn) (w.v rd)
    (f := fun x d => immLane t opcode u x d (8 <<< immSize immh) (immhb immh immb)
      (widthMask (8 <<< immSize immh)))
    (φ := fun x d => immShiftLane opcode u (immhb immh immb) x d) fun x d =>
    exists_immLane t (esize_pos hsize) (esize_le hsize) u x d hop hlo hhi
  refine ⟨_, ?_, hv⟩
  have hbind := congrArg (fun o => o.bind fun lanes => some (w.setV rd (join lanes (immSize immh))))
    hlanes
  have hopcode : ∀ opcode ∈ sameWidthShifts, opcode < 16 := by decide
  have hlt := hopcode opcode hop
  unfold shiftImm
  split
  · omega
  · omega
  · omega
  · omega
  · omega
  · exact hbind

theorem exists_shiftNarrow (hsmall : immh < 8) (hop : opcode ∈ narrowingShifts) :
    ∃ packed : BitVec 64, shiftImm t w q u immh immb opcode rn rd = some (w.setV rd
        (if q then (packed ++ (w.v rd).setWidth 64 : BitVec 128) else packed.setWidth 128)) ∧
      ∀ i < 64 / (8 <<< immSize immh), Lanes.lane (8 <<< immSize immh) packed i =
        narrowShiftLane opcode u (immhb immh immb)
          (Lanes.lane (8 <<< immSize immh * 2) (w.v rn) i) := by
  obtain ⟨-, hsize, hlo, hhi⟩ := immhb_range h0 h16 h8
  have hle : ∀ size ≤ 2, 8 <<< size ≤ 32 := by decide
  have he := hle (immSize immh) (hsize hsmall)
  have hpos := esize_pos (Nat.le_succ_of_le (hsize hsmall))
  obtain ⟨rs, hrs, hlen, hP⟩ := Loops.exists_mapM
    (f := fun s => narrowLane t opcode u s (8 <<< immSize immh * 2 - immhb immh immb)
      (8 <<< immSize immh) (8 <<< immSize immh * 2) (opcode &&& 1 == 1))
    (g := fun i => (Lanes.lane (8 <<< immSize immh * 2) (w.v rn) i).setWidth 64)
    (P := fun i r => r.setWidth (8 <<< immSize immh) = narrowShiftLane opcode u (immhb immh immb)
      (Lanes.lane (8 <<< immSize immh * 2) (w.v rn) i))
    (n := 64 / (8 <<< immSize immh))
    fun i _ => exists_narrowLane t u hop hpos he _ hlo hhi
  refine ⟨packNarrow (rs.map fun r => r &&& widthMask (8 <<< immSize immh))
    (8 <<< immSize immh), ?_, fun i hi => ?_⟩
  · have hnarrow : shiftNarrow t w q u immh immb opcode rn rd = some (w.setV rd (narrowResult q
        (packNarrow (rs.map fun r => r &&& widthMask (8 <<< immSize immh)) (8 <<< immSize immh))
        (w.v rd))) := by
      unfold shiftNarrow
      dsimp only
      rw [wideElems_eq _ (by omega), hrs]
      rfl
    rw [← narrowResult_eq, ← hnarrow]
    simp only [narrowingShifts, List.mem_cons, List.not_mem_nil, or_false] at hop
    obtain rfl | rfl | rfl | rfl := hop
    · rfl
    · rfl
    · rfl
    · rfl
  · have hdiv := Nat.div_mul_le_self 64 (8 <<< immSize immh)
    rw [lane_packNarrow (by omega) (by rw [hlen]; exact hdiv) (by rw [hlen]; exact hi)]
    exact hP i (by rw [hlen]; exact hi)

omit h0 h16 h8

/-! ## The instructions -/

/-- The scalar form of a shift by an immediate keeps the lowest lane of the vector form. -/
theorem scalarShiftImm_eq {v : BitVec 128} (hsize : immSize immh ≤ 3)
    (h : shiftImm t w false u immh immb opcode rn rd = some (w.setV rd v)) :
    scalarShiftImm t w u immh immb opcode rn rd =
      some (w.setV rd ((Lanes.lane (8 <<< immSize immh) v 0).setWidth 128)) := by
  have he := esize_le hsize
  unfold scalarShiftImm
  rw [h]
  exact congrArg some (keepLow_setV w rd v (by omega))

variable {M : Type} [GuestMem M] (rest : VecUnit) (g : Guest M) (pc : BitVec 64)

/-- No fixed-point conversion has the opcode. -/
theorem execute_shiftImm_eq (hop : opcode ∈ sameWidthShifts ++ narrowingShifts) :
    execute (vecUnit t rest) g (.simdShiftImm q u immh immb opcode rn rd) pc =
        (shiftImm t (vecView g.cpu) q u immh immb opcode rn rd).bind
          (fun w => seq g (setVecView g.cpu w)) ∧
      execute (vecUnit t rest) g (.simdScalarShiftImm u immh immb opcode rn rd) pc =
        (scalarShiftImm t (vecView g.cpu) u immh immb opcode rn rd).bind
          (fun w => seq g (setVecView g.cpu w)) := by
  have hall : ∀ opcode ∈ sameWidthShifts ++ narrowingShifts,
      ¬ (opcode = 0b11100 ∨ opcode = 0b11111) := by decide
  have hfixed := hall opcode hop
  constructor
  · show (vecUnit t rest (.simdShiftImm q u immh immb opcode rn rd) (vecView g.cpu)).bind _ = _
    unfold vecUnit
    dsimp only
    rw [if_neg hfixed]
  · show (vecUnit t rest (.simdScalarShiftImm u immh immb opcode rn rd) (vecView g.cpu)).bind _ = _
    unfold vecUnit
    dsimp only
    rw [if_neg hfixed]

/-- **A shift by an immediate is the exact shift of every lane.** Whatever word is decoded, in
    every build: the shifts of one width leave the lanes of `immShiftLane`, which SRI and SLI
    splice with the destination; the narrowing ones leave the lanes of `narrowShiftLane` in the
    half that `q` selects, over the lower half of the destination or below zeros; and the scalar
    forms leave lane 0 below zeros. -/
theorem execute_shiftImm (word : BitVec 32) :
    let e := 8 <<< immSize immh
    (decode word = .simdShiftImm q u immh immb opcode rn rd →
      (opcode ∈ sameWidthShifts → ∃ v,
        execute (vecUnit t rest) g (decode word) pc = some (none, g.setV rd v) ∧
        HasLanes (immSize immh) q (fun i => immShiftLane opcode u (immhb immh immb)
          (Lanes.lane e (g.cpu.v rn) i) (Lanes.lane e (g.cpu.v rd) i)) v) ∧
      (opcode ∈ narrowingShifts → ∃ packed : BitVec 64,
        execute (vecUnit t rest) g (decode word) pc = some (none, g.setV rd
          (if q then (packed ++ (g.cpu.v rd).setWidth 64 : BitVec 128)
            else packed.setWidth 128)) ∧
        ∀ i < 64 / e, Lanes.lane e packed i = narrowShiftLane opcode u (immhb immh immb)
          (Lanes.lane (e * 2) (g.cpu.v rn) i))) ∧
    (decode word = .simdScalarShiftImm u immh immb opcode rn rd →
      (opcode ∈ sameWidthShifts → execute (vecUnit t rest) g (decode word) pc =
        some (none, g.setV rd ((immShiftLane opcode u (immhb immh immb)
          (Lanes.lane e (g.cpu.v rn) 0) (Lanes.lane e (g.cpu.v rd) 0)).setWidth 128))) ∧
      (opcode ∈ narrowingShifts → execute (vecUnit t rest) g (decode word) pc =
        some (none, g.setV rd ((narrowShiftLane opcode u (immhb immh immb)
          (Lanes.lane (e * 2) (g.cpu.v rn) 0)).setWidth 128)))) := by
  intro e
  have hsame {opcode : ℕ} (h : opcode ∈ sameWidthShifts) :
      opcode ∈ sameWidthShifts ++ narrowingShifts := List.mem_append_left _ h
  have hnarrow {opcode : ℕ} (h : opcode ∈ narrowingShifts) :
      opcode ∈ sameWidthShifts ++ narrowingShifts := List.mem_append_right _ h
  have hok := vecFieldsOk_decode word
  constructor
  · intro hword
    rw [hword] at hok ⊢
    obtain ⟨h0, h16, h8, hshift⟩ := hok
    constructor
    · intro hop
      obtain ⟨v, hv, hlanes⟩ := exists_shiftImm t u h0 h16 h8 (vecView g.cpu) q rn rd hop
      refine ⟨v, ?_, hlanes⟩
      rw [(execute_shiftImm_eq t u q rn rd rest g pc (hsame hop)).1, hv]
      rfl
    · intro hop
      obtain ⟨packed, hv, hlanes⟩ := exists_shiftNarrow t u h0 h16 h8 (vecView g.cpu) q rn rd
        (hshift.lt_of_narrow hop) hop
      refine ⟨packed, ?_, hlanes⟩
      rw [(execute_shiftImm_eq t u q rn rd rest g pc (hnarrow hop)).1, hv]
      rfl
  · intro hword
    rw [hword] at hok ⊢
    obtain ⟨h0, h16, h8, hshift⟩ := hok
    have hsize := (immhb_range h0 h16 h8).1
    constructor
    · intro hop
      obtain ⟨v, hv, hlanes⟩ := exists_shiftImm t u h0 h16 h8 (vecView g.cpu) false rn rd hop
      rw [(execute_shiftImm_eq t u q rn rd rest g pc (hsame hop)).2,
        scalarShiftImm_eq t u (vecView g.cpu) rn rd hsize hv,
        hlanes.lanes 0 (laneCount_pos hsize false)]
      rfl
    · intro hop
      obtain ⟨packed, hv, hlanes⟩ := exists_shiftNarrow t u h0 h16 h8 (vecView g.cpu) false rn rd
        (hshift.lt_of_narrow hop) hop
      have hcount : 0 < 64 / e := Nat.div_pos (esize_le hsize) (esize_pos hsize)
      have hlane : Lanes.lane e (packed.setWidth 128) 0 = Lanes.lane e packed 0 :=
        Lanes.lane_setWidth packed (by decide) 0
      rw [(execute_shiftImm_eq t u q rn rd rest g pc (hnarrow hop)).2,
        scalarShiftImm_eq t u (vecView g.cpu) rn rd hsize hv]
      show some (none, g.setV rd ((Lanes.lane e (packed.setWidth 128) 0).setWidth 128)) = _
      rw [hlane, hlanes 0 hcount]
      rfl

/-- SRI of the bytes of V1 by 8 into V0, which keeps V0, as the shift is the whole width. -/
theorem execute_shiftImm_sri :
    ∃ v, execute (vecUnit Target.debug64 fun _ _ => none)
        (vecGuest fun r => if r = 1 then BitVec.allOnes 128 else 255) (decode 0x6f084420) 0 =
        some (none, (vecGuest fun r => if r = 1 then BitVec.allOnes 128 else 255).setV 0 v) ∧
      HasLanes 0 true (fun i => immShiftLane 0b01000 true 8 (Lanes.lane 8 (BitVec.allOnes 128) i)
        (Lanes.lane 8 (255 : BitVec 128) i)) v :=
  have hdecode : decode 0x6f084420 = .simdShiftImm true true 1 0 0b01000 1 0 := rfl
  ((execute_shiftImm Target.debug64 true true 1 0 (fun _ _ => none)
    (vecGuest fun r => if r = 1 then BitVec.allOnes 128 else 255) 0 0x6f084420).1 hdecode).1
    (by decide)

end V64.Interp.Simd
