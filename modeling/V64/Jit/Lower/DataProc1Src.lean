import V64.Jit.Lower.DataProc

/-!
# Data processing with one source

The lowering of RBIT, REV, CLZ and CLS against the executor: the emitted code
moves bytes and bits where the executor has loops.

* `revGroups_eq`, `movedBytes_swappedBits_x`, `movedBytes_swappedBits_w`: the
  emitted moves are the reversal of the executor.
* `cls_eq`: the loop of the executor counts what one `clz` counts.
* `emits_dataProc1Src`: the lowering computes what the executor does.
-/

namespace V64.Jit

open V64.Cpu V64.Decoder V64.Interp V64.Platform Wasm
open Wasm.Instr
section Exec

variable {D : Type} {L : Layout} {stale : Flags} {bus : Bus D} {cpu : CpuState} {fuel : ℕ}
  {st : List Val} {l : ℕ → Val}

/-! ## Byte reversal -/

/-- Destination byte `d` of a reversal in groups of `g` bytes. -/
def movedByte (g : ℕ) (v : BitVec 64) (d : ℕ) : BitVec 64 :=
  ((v >>> (reversedByte g d * 8)) &&& 0xff#64) <<< (d * 8)

/-- The low `n` bytes of a reversal. -/
def movedBytes (g : ℕ) (v : BitVec 64) : ℕ → BitVec 64
  | 0 => 0
  | n + 1 => movedBytes g v n ||| movedByte g v n

theorem exec_emitByteReverse (fuel : ℕ) (st : List Val) (m : HostMem D) {g : ℕ} {v : BitVec 64}
    (hv : l 2 = .i64 v) {n : ℕ} (hn : n < 8) (hg : ∀ d, d < 8 → reversedByte g d < 8) :
    exec fuel ((List.range (n + 1)).flatMap (emitReversedByte g)) ⟨st, l, m⟩ =
      .next ⟨.i64 (movedBytes g v (n + 1)) :: st, l, m⟩ := by
  induction n with
  | zero =>
    have hsrc := hg 0 (by decide)
    have hamt : reversedByte g 0 * 8 % 64 = reversedByte g 0 * 8 := by omega
    by_cases h0 : 0 < reversedByte g 0
    · simp [emitReversedByte, movedBytes, movedByte, h0, hv, hamt]
    · simp [emitReversedByte, movedBytes, movedByte, hv, Nat.eq_zero_of_not_pos h0]
  | succ n ih =>
    have hsrc := hg (n + 1) hn
    have hamt : reversedByte g (n + 1) * 8 % 64 = reversedByte g (n + 1) * 8 := by omega
    have hdst : (n + 1) * 8 % 64 = (n + 1) * 8 := by omega
    rw [List.range_succ, List.flatMap_append, exec_append, ih (by omega), Outcome.bind_next]
    by_cases h0 : 0 < reversedByte g (n + 1)
    · simp [emitReversedByte, movedBytes, movedByte, h0, hv, hamt, hdst]
    · simp [emitReversedByte, movedBytes, movedByte, hv, hdst, Nat.eq_zero_of_not_pos h0]

theorem getLsbD_byteMask (i : ℕ) : (0xff#64).getLsbD i = decide (i < 8) := by
  have hmask : (0xff#64) = (BitVec.allOnes 8).setWidth 64 := by decide
  rw [hmask, BitVec.getLsbD_setWidth, BitVec.getLsbD_allOnes]
  by_cases h : i < 8
  · simp [h, show i < 64 by omega]
  · simp [h]

theorem getLsbD_movedBytes (g : ℕ) (v : BitVec 64) {n i : ℕ} (hn : n ≤ 8) (hi : i < 64) :
    (movedBytes g v n).getLsbD i =
      (decide (i / 8 < n) && v.getLsbD (reversedByte g (i / 8) * 8 + i % 8)) := by
  induction n with
  | zero => simp [movedBytes]
  | succ n ih =>
    rw [movedBytes, BitVec.getLsbD_or, ih (by omega), movedByte, BitVec.getLsbD_shiftLeft,
      BitVec.getLsbD_and, BitVec.getLsbD_ushiftRight, getLsbD_byteMask]
    by_cases hlt : i / 8 < n
    · simp [hlt, show i / 8 < n + 1 by omega, show i < n * 8 by omega]
    · by_cases heq : i / 8 = n
      · subst heq
        have hbit : i - i / 8 * 8 = i % 8 := by omega
        simp [hi, hbit, show ¬ i < i / 8 * 8 by omega, show i % 8 < 8 by omega]
      · simp [hlt, show ¬ i / 8 < n + 1 by omega, show ¬ i - n * 8 < 8 by omega]

/-- The inner loop of `rev_groups` fills one group. -/
theorem foldl_update (a : ℕ) (f : ℕ → BitVec 8) (out : ℕ → BitVec 8) (n j : ℕ) :
    (List.range n).foldl (fun out i => Function.update out (a + i) (f i)) out j =
      if a ≤ j ∧ j < a + n then f (j - a) else out j := by
  induction n with
  | zero => simp [show ¬ (a ≤ j ∧ j < a) by omega]
  | succ n ih =>
    rw [List.range_succ, List.foldl_append, List.foldl_cons, List.foldl_nil, Function.update_apply]
    by_cases hj : j = a + n
    · subst hj
      simp
    · rw [if_neg hj, ih]
      by_cases hin : a ≤ j ∧ j < a + n
      · rw [if_pos hin, if_pos (by omega)]
      · rw [if_neg hin, if_neg (by omega)]

/-- The loops of `rev_groups` fill whole groups. -/
theorem foldl_groups (g : ℕ) (src : ℕ → BitVec 8) (n j : ℕ) (hg : 0 < g) :
    (List.range n).foldl
        (fun out k => (List.range g).foldl
          (fun out i => Function.update out (k * g + i) (src (k * g + g - 1 - i))) out)
        (fun _ => (0 : BitVec 8)) j =
      if j < n * g then src (reversedByte g j) else 0 := by
  induction n with
  | zero => simp
  | succ n ih =>
    rw [List.range_succ, List.foldl_append, List.foldl_cons, List.foldl_nil, foldl_update]
    have hmul : (n + 1) * g = n * g + g := Nat.succ_mul n g
    by_cases hin : n * g ≤ j ∧ j < n * g + g
    · have hdiv : j / g = n := by
        apply Nat.div_eq_of_lt_le
        · exact hin.1
        · rw [hmul]
          exact hin.2
      have hsrc : n * g + g - 1 - (j - n * g) = reversedByte g j := by
        unfold reversedByte
        rw [hdiv]
        dsimp only
        omega
      rw [if_pos hin, if_pos (by omega), hsrc]
    · rw [if_neg hin, ih]
      by_cases hj : j < n * g
      · rw [if_pos hj, if_pos (by omega)]
      · rw [if_neg hj, if_neg (by omega)]

/-- `rev_groups` moves bytes as the emitted code does. -/
theorem revGroups_eq (v : BitVec 64) {n g ds : ℕ} (hn : n ≤ 8) (hg : 0 < g)
    (hgroups : (ds / 8 + g - 1) / g * g = n) :
    revGroups v ds g = movedBytes g v n := by
  apply BitVec.eq_of_getLsbD_eq
  intro i hi
  rw [getLsbD_movedBytes g v hn hi, revGroups, Bytes.getLsbD_loadLe, foldl_groups _ _ _ _ hg,
    hgroups, Nat.zero_add]
  by_cases hlt : i / 8 < n
  · have hmod : i % 8 < 8 := Nat.mod_lt _ (by decide)
    simp [hlt, hi, byteOf, hmod, Nat.mul_comm]
  · simp [hlt]

/-! ## Bit reversal -/

/-- The value of one step of `swap_bits_in_byte`. -/
def swapped (mask : BitVec 64) (sh : ℕ) (v : BitVec 64) : BitVec 64 :=
  (v &&& mask) <<< sh ||| (v >>> sh &&& mask)

theorem exec_swapStep {m : HostMem D} {v : BitVec 64} (hv : l 2 = .i64 v) (mask : BitVec 64)
    {sh : ℕ} (hsh : sh < 64) :
    exec fuel (swapStep mask sh) ⟨st, l, m⟩ =
      .next ⟨st, Function.update l 2 (.i64 (swapped mask sh v)), m⟩ := by
  simp [swapStep, hv, swapped, Nat.mod_eq_of_lt hsh]

/-- Where the bit at `i` comes from when groups of `sh` bits change places. -/
def swapIndex (sh i : ℕ) : ℕ := if i / sh % 2 = 1 then i - sh else i + sh

theorem getLsbD_swapped {mask : BitVec 64} {sh n : ℕ}
    (hmask : ∀ i < 64, mask.getLsbD i = decide (i < n ∧ i / sh % 2 = 0))
    (hsh : sh = 1 ∨ sh = 2 ∨ sh = 4) (hn : n ≤ 64) (v : BitVec 64) {i : ℕ} (hi : i < n) :
    (swapped mask sh v).getLsbD i = v.getLsbD (swapIndex sh i) := by
  have hi64 : i < 64 := by omega
  rw [swapped, BitVec.getLsbD_or, BitVec.getLsbD_shiftLeft, BitVec.getLsbD_and, BitVec.getLsbD_and,
    BitVec.getLsbD_ushiftRight, hmask i hi64, hmask (i - sh) (by omega)]
  unfold swapIndex
  by_cases hodd : i / sh % 2 = 1
  · -- the upper of two groups comes from the lower one
    have hlow : ¬ i < sh ∧ (i - sh) / sh % 2 = 0 := by
      obtain rfl | rfl | rfl := hsh <;> omega
    simp [hodd, hlow, hi64, show i - sh < n by omega]
  · have heven : i / sh % 2 = 0 := by omega
    have hhigh : i < sh ∨ (i - sh) / sh % 2 ≠ 0 := by
      obtain rfl | rfl | rfl := hsh <;> omega
    obtain hlt | hne := hhigh
    · simp [heven, hlt, hi, Nat.add_comm]
    · simp [heven, hne, hi, Nat.add_comm]

/-- The three steps of `swap_bits_in_byte`. -/
def swappedBits (ds : ℕ) (v : BitVec 64) : BitVec 64 :=
  if ds = 64 then
    swapped 0x0f0f0f0f0f0f0f0f#64 4 (swapped 0x3333333333333333#64 2
      (swapped 0x5555555555555555#64 1 v))
  else swapped 0x0f0f0f0f#64 4 (swapped 0x33333333#64 2 (swapped 0x55555555#64 1 v))

theorem exec_swapBitsInByte (fuel : ℕ) (st : List Val) (m : HostMem D) {v : BitVec 64}
    (hv : l 2 = .i64 v) (ds : ℕ) :
    ∃ l', Keeps l l' ∧ l' 2 = .i64 (swappedBits ds v) ∧
      exec fuel (swapBitsInByte ds) ⟨st, l, m⟩ = .next ⟨st, l', m⟩ := by
  unfold swapBitsInByte swappedBits
  split_ifs with hds
  · refine ⟨_, ?_, ?_, by simp [exec_append, exec_swapStep, hv]; rfl⟩ <;> simp [isScratch]
  · refine ⟨_, ?_, ?_, by simp [exec_append, exec_swapStep, hv]; rfl⟩ <;> simp [isScratch]

theorem getLsbD_swappedBits {ds : ℕ} (hds : ds = 64 ∨ ds = 32) (v : BitVec 64) {i : ℕ}
    (hi : i < ds) : (swappedBits ds v).getLsbD i = v.getLsbD (i / 8 * 8 + (7 - i % 8)) := by
  have hindex : swapIndex 1 (swapIndex 2 (swapIndex 4 i)) = i / 8 * 8 + (7 - i % 8) := by
    unfold swapIndex
    split_ifs <;> omega
  have h4 : swapIndex 4 i < ds := by
    unfold swapIndex
    split_ifs <;> omega
  have h2 : swapIndex 2 (swapIndex 4 i) < ds := by
    generalize swapIndex 4 i = j at h4
    unfold swapIndex
    split_ifs <;> omega
  rw [← hindex]
  obtain rfl | rfl := hds
  · rw [swappedBits, if_pos rfl, getLsbD_swapped (by decide) (by decide) (Nat.le_refl 64) _ hi,
      getLsbD_swapped (by decide) (by decide) (Nat.le_refl 64) _ h4,
      getLsbD_swapped (by decide) (by decide) (Nat.le_refl 64) _ h2]
  · have hle : 32 ≤ 64 := by decide
    rw [swappedBits, if_neg (by decide), getLsbD_swapped (by decide) (by decide) hle _ hi,
      getLsbD_swapped (by decide) (by decide) hle _ h4,
      getLsbD_swapped (by decide) (by decide) hle _ h2]

/-- RBIT: bits swapped in each byte, then the bytes reversed. -/
theorem movedBytes_swappedBits_x (v : BitVec 64) :
    movedBytes 8 (swappedBits 64 v) 8 = v.reverse := by
  apply BitVec.eq_of_getLsbD_eq
  intro i hi
  have hsrc : reversedByte 8 (i / 8) * 8 + i % 8 < 64 := by
    unfold reversedByte
    dsimp only
    omega
  have hbit : (reversedByte 8 (i / 8) * 8 + i % 8) / 8 * 8 +
      (7 - (reversedByte 8 (i / 8) * 8 + i % 8) % 8) = 63 - i := by
    unfold reversedByte
    dsimp only
    omega
  rw [getLsbD_movedBytes _ _ (Nat.le_refl 8) hi, getLsbD_swappedBits (.inl rfl) v hsrc, hbit,
    BitVec.getLsbD_reverse, BitVec.getMsbD]
  simp [hi, show i / 8 < 8 by omega]

theorem movedBytes_swappedBits_w (x : BitVec 32) :
    movedBytes 4 (swappedBits 32 (x.setWidth 64)) 4 = x.reverse.setWidth 64 := by
  apply BitVec.eq_of_getLsbD_eq
  intro i hi
  rw [getLsbD_movedBytes _ _ (by decide) hi, BitVec.getLsbD_setWidth]
  by_cases hlt : i < 32
  · have hsrc : reversedByte 4 (i / 8) * 8 + i % 8 < 32 := by
      unfold reversedByte
      dsimp only
      omega
    have hbit : (reversedByte 4 (i / 8) * 8 + i % 8) / 8 * 8 +
        (7 - (reversedByte 4 (i / 8) * 8 + i % 8) % 8) = 31 - i := by
      unfold reversedByte
      dsimp only
      omega
    rw [getLsbD_swappedBits (.inr rfl) _ hsrc, hbit, BitVec.getLsbD_reverse, BitVec.getMsbD,
      BitVec.getLsbD_setWidth]
    simp [hi, hlt, show i / 8 < 4 by omega, show 31 - i < 64 by omega]
  · simp [show ¬ i / 8 < 4 by omega, BitVec.getLsbD_of_ge x.reverse i (by omega)]

/-! ## Leading sign bits -/

theorem ofNat_sub_one {w n : ℕ} (hw : w = 32 ∨ w = 64) (hn : 0 < n ∧ n ≤ w) :
    (BitVec.ofNat w n - 1).setWidth 64 = BitVec.ofNat 64 (n - 1) := by
  apply BitVec.eq_of_toNat_eq
  obtain rfl | rfl := hw <;>
    · simp only [BitVec.toNat_setWidth, BitVec.toNat_sub, BitVec.toNat_ofNat, BitVec.ofNat_eq_ofNat]
      omega

/-- The loop of `cls` counts what `clz` counts in the word where the sign has been
taken out of every bit. -/
theorem clsLoop_eq {w : ℕ} (hw : w = 32 ∨ w = 64) {v : BitVec 64} {y : BitVec w}
    (hy : ∀ i < w - 1, y.getLsbD i = (v.getLsbD i != v.getLsbD (w - 1))) {n : ℕ} (hn : n < w - 1) :
    clsLoop v ((v >>> (w - 1)) &&& 1) (n + 1) (BitVec.ofNat 64 (w - 2 - n)) =
      (y.clzAuxRec n - 1).setWidth 64 := by
  have hmatch (i : ℕ) : ((v >>> i) &&& 1 == (v >>> (w - 1)) &&& 1) =
      (v.getLsbD i == v.getLsbD (w - 1)) := by
    rw [and_one_eq_bit64, and_one_eq_bit64, BitVec.getLsbD_ushiftRight, BitVec.getLsbD_ushiftRight]
    cases v.getLsbD i <;> cases v.getLsbD (w - 1) <;> rfl
  have hadd (k : ℕ) : BitVec.ofNat 64 k + 1 = BitVec.ofNat 64 (k + 1) := by
    rw [BitVec.ofNat_add]
    rfl
  induction n with
  | zero =>
    rw [clsLoop, hmatch, BitVec.clzAuxRec_zero, hy 0 hn, clsLoop, hadd]
    by_cases hbit : v.getLsbD 0 = v.getLsbD (w - 1)
    · rw [hbit, beq_self_eq_true, if_pos rfl, bne_self_eq_false, if_neg Bool.false_ne_true,
        ofNat_sub_one hw ⟨by omega, Nat.le_refl w⟩]
      congr 1
      omega
    · rw [if_neg (by simpa using hbit), if_pos (by simpa using hbit),
        ofNat_sub_one hw (show 0 < w - 1 ∧ w - 1 ≤ w by omega)]
      rfl
  | succ n ih =>
    rw [clsLoop, hmatch, BitVec.clzAuxRec_succ, hy (n + 1) hn, hadd]
    by_cases hbit : v.getLsbD (n + 1) = v.getLsbD (w - 1)
    · have hnum : w - 2 - (n + 1) + 1 = w - 2 - n := by omega
      rw [hbit, beq_self_eq_true, if_pos rfl, bne_self_eq_false, if_neg Bool.false_ne_true, hnum]
      exact ih (by omega)
    · rw [if_neg (by simpa using hbit), if_pos (by simpa using hbit),
        ofNat_sub_one hw (show 0 < w - 1 - (n + 1) ∧ w - 1 - (n + 1) ≤ w by omega)]
      congr 1
      omega

theorem cls_eq {w : ℕ} (hw : w = 32 ∨ w = 64) {v : BitVec 64} {y : BitVec w}
    (hy : ∀ i < w - 1, y.getLsbD i = (v.getLsbD i != v.getLsbD (w - 1)))
    (htop : y.getLsbD (w - 1) = false) : cls v w = (y.clz - 1).setWidth 64 := by
  have hclz : y.clz = y.clzAuxRec (w - 2) := by
    obtain rfl | rfl := hw
    · rw [BitVec.clz, BitVec.clzAuxRec_succ, if_neg (by simpa using htop)]
    · rw [BitVec.clz, BitVec.clzAuxRec_succ, if_neg (by simpa using htop)]
  have hloop := clsLoop_eq hw hy (show w - 2 < w - 1 by omega)
  rw [Nat.sub_self, show w - 2 + 1 = w - 1 by omega] at hloop
  rw [cls, hclz]
  exact hloop

theorem getLsbD_sshiftRight_top {w : ℕ} (x : BitVec w) {i : ℕ} (hi : i < w) :
    (x.sshiftRight (w - 1)).getLsbD i = x.getLsbD (w - 1) := by
  rw [BitVec.getLsbD_sshiftRight, decide_eq_false (by omega), Bool.not_false, Bool.true_and]
  split_ifs with h
  · rw [show w - 1 + i = w - 1 by omega]
  · rw [BitVec.msb_eq_getLsbD_last]

theorem cls_x (v : BitVec 64) : cls v 64 = (v ^^^ v.sshiftRight 63).clz - 1 := by
  have hsign (i : ℕ) (hi : i < 64) : (v.sshiftRight 63).getLsbD i = v.getLsbD 63 :=
    getLsbD_sshiftRight_top v hi
  have hcls : cls v 64 = ((v ^^^ v.sshiftRight 63).clz - 1).setWidth 64 := by
    apply cls_eq (.inr rfl)
    · intro i hi
      rw [BitVec.getLsbD_xor, hsign i (by omega)]
    · rw [BitVec.getLsbD_xor, hsign _ (by decide), Bool.xor_self]
  rw [hcls, BitVec.setWidth_eq]

theorem cls_w (x : BitVec 32) :
    cls (x.setWidth 64) 32 = ((x ^^^ x.sshiftRight 31).clz - 1).setWidth 64 := by
  have hsign (i : ℕ) (hi : i < 32) : (x.sshiftRight 31).getLsbD i = x.getLsbD 31 :=
    getLsbD_sshiftRight_top x hi
  have hwide (i : ℕ) (hi : i < 32) : (x.setWidth 64).getLsbD i = x.getLsbD i := by
    rw [BitVec.getLsbD_setWidth, decide_eq_true (by omega), Bool.true_and]
  apply cls_eq (.inl rfl)
  · intro i hi
    rw [BitVec.getLsbD_xor, hsign i (by omega), hwide i (by omega), hwide _ (by decide)]
  · rw [BitVec.getLsbD_xor, hsign _ (by decide), Bool.xor_self]

theorem emits_cls (h : Ready L bus.ram.size.toNat l) (sf : Bool) (rn rd : Reg) :
    Emits L stale bus l
      (pushOperand rn sf false ++ [localSet t0] ++
        (if sf then
          [localGet t0, localGet t0, i64Const 63, i64ShrS, i64Xor, i64Clz, i64Const 1, i64Sub,
            localSet t0]
        else
          [localGet t0, i32WrapI64, localGet t0, i32WrapI64, i32Const 31, i32ShrS, i32Xor, i32Clz,
            i32Const 1, i32Sub, i64ExtendI32U, localSet t0]) ++ storeLocal rd sf false t0)
      cpu (write cpu rd sf (cls (read cpu rn sf false) (datasize sf)) false) := by
  intro fuel st
  cases sf
  · obtain ⟨x, hx⟩ := read_w cpu rn
    have hcls := cls_w x
    simp [exec_append, h, hx, hcls, datasize, isScratch]
  · have hcls := cls_x (read cpu rn true false)
    simp [exec_append, h, hcls, datasize, isScratch]

/-- REV, REV16 and REV32: a reversal of bytes in groups of `g`. -/
theorem emits_rev (h : Ready L bus.ram.size.toNat l) (sf : Bool) {g : ℕ}
    (hg : g = 2 ∨ g = 4 ∨ g = 8) (hgroup : g ≤ datasize sf / 8) (rn rd : Reg) :
    Emits L stale bus l
      (pushOperand rn sf false ++ [localSet t0] ++ emitByteReverse (datasize sf) g ++
        [localSet t0] ++ storeLocal rd sf false t0)
      cpu (write cpu rd sf (revGroups (read cpu rn sf false) (datasize sf) g) false) := by
  apply emits_storeT0 h
  intro fuel st
  have hsrc (d : ℕ) (hd : d < 8) : reversedByte g d < 8 := by
    unfold reversedByte
    obtain rfl | rfl | rfl := hg <;>
      · dsimp only
        omega
  refine ⟨Function.update l 2 (.i64 (read cpu rn sf false)), by simp [isScratch], ?_⟩
  -- whole groups: 4 or 8 bytes
  have hrev : revGroups (read cpu rn sf false) (datasize sf) g =
      movedBytes g (read cpu rn sf false) (datasize sf / 8) := by
    apply revGroups_eq
    · cases sf <;> decide
    · obtain rfl | rfl | rfl := hg <;> decide
    · cases sf
      · obtain rfl | rfl | rfl := hg
        · decide
        · decide
        · exact absurd hgroup (by decide)
      · obtain rfl | rfl | rfl := hg <;> decide
  have hn : datasize sf / 8 - 1 < 8 := by cases sf <;> decide
  have hbytes := exec_emitByteReverse fuel st (host L stale bus cpu)
    (Function.update_self 2 (.i64 (read cpu rn sf false)) l) hn hsrc
  have hlen : datasize sf / 8 - 1 + 1 = datasize sf / 8 := by cases sf <;> rfl
  rw [hlen] at hbytes
  rw [hrev]
  simp [exec_append, h, emitByteReverse, hbytes]

theorem emits_rbit (h : Ready L bus.ram.size.toNat l) (sf : Bool) (rn rd : Reg) :
    Emits L stale bus l
      (pushOperand rn sf false ++ [localSet t0] ++ swapBitsInByte (datasize sf) ++
        emitByteReverse (datasize sf) (datasize sf / 8) ++ [localSet t0] ++
        storeLocal rd sf false t0)
      cpu (write cpu rd sf
        (if sf then (read cpu rn sf false).reverse
        else ((read cpu rn sf false).setWidth 32).reverse.setWidth 64) false) := by
  apply emits_storeT0 h
  intro fuel st
  obtain ⟨l', hkeeps, hl', hswap⟩ := exec_swapBitsInByte fuel st (host L stale bus cpu)
    (Function.update_self 2 (.i64 (read cpu rn sf false)) l) (datasize sf)
  have hkeeps' : Keeps l (Function.update l 2 (.i64 (read cpu rn sf false))) := by
    simp [isScratch]
  refine ⟨l', hkeeps'.trans hkeeps, ?_⟩
  cases sf
  · have hsrc (d : ℕ) (hd : d < 8) : reversedByte 4 d < 8 := by
      unfold reversedByte
      dsimp only
      omega
    have hn : 3 < 8 := by decide
    have hbytes := exec_emitByteReverse fuel st (host L stale bus cpu) hl' hn hsrc
    obtain ⟨x, hx⟩ := read_w cpu rn
    have hmoved := movedBytes_swappedBits_w x
    have hds : datasize false = 32 := rfl
    rw [hx, hds] at hswap hbytes
    simp [exec_append, h, hx, hds, hswap, emitByteReverse, hbytes, hmoved]
  · have hsrc (d : ℕ) (hd : d < 8) : reversedByte 8 d < 8 := by
      unfold reversedByte
      dsimp only
      omega
    have hn : 7 < 8 := by decide
    have hbytes := exec_emitByteReverse fuel st (host L stale bus cpu) hl' hn hsrc
    have hmoved := movedBytes_swappedBits_x (read cpu rn true false)
    have hds : datasize true = 64 := rfl
    rw [hds] at hswap hbytes
    simp [exec_append, h, hds, hswap, emitByteReverse, hbytes, hmoved]

theorem emits_dataProc1Src (h : Ready L bus.ram.size.toNat l) (sf : Bool) {opcode : ℕ}
    (hop : opcode = 0 ∨ opcode = 4 ∨ opcode = 5 ∨
      (opcode = 1 ∨ opcode = 2 ∨ opcode = 3) ∧ 1 <<< opcode ≤ datasize sf / 8) (rn rd : Reg) :
    ∃ code cpu', dataProc1Src sf opcode rn rd = some code ∧
      Interp.dataProc1Src cpu sf opcode rn rd = some cpu' ∧
      Emits L stale bus l code cpu cpu' := by
  obtain rfl | rfl | rfl | ⟨hop, hgroup⟩ := hop
  · exact ⟨_, _, rfl, rfl, emits_rbit h sf rn rd⟩
  · refine ⟨_, _, rfl, rfl, ?_⟩
    apply emits_storeT0 h
    intro fuel st
    refine ⟨l, keeps_refl l, ?_⟩
    cases sf <;> simp [exec_append, h]
  · exact ⟨_, _, rfl, rfl, emits_cls h sf rn rd⟩
  · obtain rfl | rfl | rfl := hop
    · have hle : ¬ 1 <<< 1 > datasize sf / 8 := by omega
      refine ⟨_, _, ?_, rfl, emits_rev h sf (.inl rfl) hgroup rn rd⟩
      simp only [dataProc1Src, datasize] at hle ⊢
      rw [if_neg hle]
      rfl
    · have hle : ¬ 1 <<< 2 > datasize sf / 8 := by omega
      refine ⟨_, _, ?_, rfl, emits_rev h sf (.inr (.inl rfl)) hgroup rn rd⟩
      simp only [dataProc1Src, datasize] at hle ⊢
      rw [if_neg hle]
      rfl
    · have hle : ¬ 1 <<< 3 > datasize sf / 8 := by omega
      refine ⟨_, _, ?_, rfl, emits_rev h sf (.inr (.inr rfl)) hgroup rn rd⟩
      simp only [dataProc1Src, datasize] at hle ⊢
      rw [if_neg hle]
      rfl

end Exec

end V64.Jit
