import V64.Decoder.Fields
import V64.Interp.Execute
import V64.Interp.RamRange
import V64.Lib.Lanes
import V64.Lib.Loops

/-!
# Structure loads undo structure stores

The multiple-structure forms of LD1 to LD4 and ST1 to ST4 on ranges of RAM.

* `structByte`: the interleaved order of the architecture.
* `structLoop_store`, `structLoop_load`: the element loops.
* `execute_ldStMulti`: what ST leaves in memory, and that LD restores the registers from it.
-/

namespace V64.Interp

open V64.Cpu V64.Decoder V64.Platform

/-! ## Elements of a register -/

/-- An element is the word of its bytes. -/
theorem getElem_eq (v : BitVec 128) (off size : ℕ) :
    getElem v off size = Bytes.loadLe 64 (Lanes.lane 8 v) off (1 <<< size) := by
  have hloop (n : ℕ) : (List.range n).foldl
      (fun r i => r ||| (((v >>> ((off + i) * 8)).setWidth 8).setWidth 64 <<< (i * 8))) 0 =
      Bytes.loadLe 64 (Lanes.lane 8 v) off n := by
    induction n with
    | zero => rfl
    | succ n ih =>
      rw [List.range_succ, List.foldl_append, ih, Bytes.loadLe, Lanes.lane_eq, Nat.mul_comm 8 n]
      rfl
  exact hloop _

/-- One byte of a register. -/
theorem lane_setByte (v : BitVec 128) (b : BitVec 8) {o k : ℕ} (ho : o < 16) :
    Lanes.lane 8 ((v &&& ~~~(0xff#128 <<< (o * 8))) ||| (b.setWidth 128 <<< (o * 8))) k =
      if k = o then b else Lanes.lane 8 v k := by
  have hff (j : ℕ) : (0xff#128).getLsbD j = decide (j < 8) := by
    have heq : 0xff#128 = (BitVec.allOnes 8).setWidth 128 := by decide
    rw [heq, BitVec.getLsbD_setWidth, BitVec.getLsbD_allOnes]
    by_cases hj : j < 8
    · rw [decide_eq_true hj, decide_eq_true (by omega : j < 128)]
      rfl
    · rw [decide_eq_false hj, Bool.and_false]
  apply BitVec.eq_of_getLsbD_eq
  intro i hi
  rw [Lanes.getLsbD_lane, BitVec.getLsbD_or, BitVec.getLsbD_and, BitVec.getLsbD_not,
    BitVec.getLsbD_shiftLeft, BitVec.getLsbD_shiftLeft, hff, BitVec.getLsbD_setWidth]
  by_cases hk : k = o
  · subst hk
    have h128 : k * 8 + i < 128 := by omega
    have hsub : k * 8 + i - k * 8 = i := by omega
    rw [if_pos rfl, hsub, decide_eq_true hi, decide_eq_true h128,
      decide_eq_false (by omega : ¬ k * 8 + i < k * 8), decide_eq_true (by omega : i < 128)]
    simp
  · rw [if_neg hk, Lanes.getLsbD_lane, decide_eq_true hi, Bool.true_and, Bool.true_and]
    by_cases hlow : k * 8 + i < o * 8
    · rw [decide_eq_true hlow]
      by_cases h128 : k * 8 + i < 128
      · simp [h128]
      · omega
    · have hhigh : ¬ k * 8 + i - o * 8 < 8 := by omega
      have hb : b.getLsbD (k * 8 + i - o * 8) = false := BitVec.getLsbD_of_ge b _ (by omega)
      rw [decide_eq_false hhigh, hb]
      by_cases h128 : k * 8 + i < 128
      · simp [h128]
      · rw [BitVec.getLsbD_of_ge v _ (by omega)]
        simp

/-- Writing an element is storing its bytes. -/
theorem lane_setElem (v : BitVec 128) {off size : ℕ} (val : BitVec 64)
    (h : off + 1 <<< size ≤ 16) (k : ℕ) :
    Lanes.lane 8 (setElem v off size val) k =
      Bytes.storeLe (Lanes.lane 8 v) off (1 <<< size) val k := by
  have hloop (n : ℕ) (hn : off + n ≤ 16) : Lanes.lane 8 ((List.range n).foldl
      (fun v i =>
        let sh := (off + i) * 8
        (v &&& ~~~(0xff#128 <<< sh)) |||
          (((val >>> (i * 8)).setWidth 8).setWidth 128 <<< sh)) v) k =
      Bytes.storeLe (Lanes.lane 8 v) off n val k := by
    induction n with
    | zero =>
      rw [Bytes.storeLe_zero]
      rfl
    | succ n ih =>
      rw [List.range_succ, List.foldl_append, List.foldl_cons, List.foldl_nil]
      dsimp only
      rw [lane_setByte _ _ (by omega), ih (by omega)]
      unfold Bytes.storeLe
      by_cases hk : k = off + n
      · rw [if_pos hk, if_pos (by omega), hk, Nat.add_sub_cancel_left, Nat.mul_comm]
      · rw [if_neg hk]
        by_cases hmem : off ≤ k ∧ k < off + n
        · rw [if_pos hmem, if_pos (by omega)]
        · rw [if_neg hmem, if_neg (by omega)]
  exact hloop _ h

/-! ## The element loops -/

/-- Byte `j` of the elements `elems`, with the registers `src`. -/
def elemByte (src : Reg → BitVec 128) (size : ℕ) (elems : List (Reg × ℕ)) (j : ℕ) : BitVec 8 :=
  let elem := elems.getD (j / 1 <<< size) (0, 0)
  Lanes.lane 8 (src elem.1) (elem.2 + j % 1 <<< size)

theorem elemByte_head (src : Reg → BitVec 128) (size : ℕ) (tt : Reg) (off : ℕ)
    (elems : List (Reg × ℕ)) {k : ℕ} (hk : k < 1 <<< size) :
    elemByte src size ((tt, off) :: elems) k = Lanes.lane 8 (src tt) (off + k) := by
  unfold elemByte
  rw [Nat.div_eq_of_lt hk, Nat.mod_eq_of_lt hk]
  rfl

theorem elemByte_tail (src : Reg → BitVec 128) (size : ℕ) (x : Reg × ℕ) (elems : List (Reg × ℕ))
    (k : ℕ) : elemByte src size (x :: elems) (1 <<< size + k) = elemByte src size elems k := by
  unfold elemByte
  rw [Nat.add_div_left k (one_le_shiftLeft size), Nat.add_mod_left, List.getD_cons_succ]

section Loops

variable {D : Type} [MmioDevice D] {el : Fin 4} {size : ℕ}

omit [MmioDevice D] in
/-- The registers and the state that an access of a range leaves. -/
theorem After.facts {va : BitVec 64} {m : ℕ} {p : ℕ → BitVec 64} {g gm : Guest (Bus D)}
    (h : After va m p g gm) :
    gm.cpu.v = g.cpu.v ∧ gm.cpu.el = g.cpu.el ∧ gm.aborted = g.aborted := by
  obtain ⟨tlb, htlb⟩ := h.cpu
  unfold Guest.aborted
  rw [htlb]
  exact ⟨rfl, rfl, rfl⟩

/-- The loop of a store writes the bytes of its elements in order. -/
theorem structLoop_store {src : Reg → BitVec 128} {elems : List (Reg × ℕ)} {va : BitVec 64}
    {p : ℕ → BitVec 64} {g : Guest (Bus D)}
    (h : RamRange va true el (writeAct (elemByte src size elems)) (elems.length * 1 <<< size) p g)
    (halign : g.cpu.tlb.PagesAligned) (hwf : g.mem.RamWf) (hsize : size ≤ 3)
    (hlen : elems.length * 1 <<< size ≤ 4096) (hv : g.cpu.v = src) (hel : g.cpu.el = el)
    (habort : g.aborted = false) :
    structLoop (elemStep false size) (BitVec.ofNat 64 (1 <<< size)) elems va g =
      (eachByte (byteAccess va true el (writeAct (elemByte src size elems)))
        (elems.length * 1 <<< size) g).2 := by
  induction elems generalizing va p g with
  | nil =>
    rw [List.length_nil, Nat.zero_mul]
    rfl
  | cons x elems ih =>
    obtain ⟨tt, off⟩ := x
    have hcount : ((tt, off) :: elems).length * 1 <<< size =
        1 <<< size + elems.length * 1 <<< size := by
      rw [List.length_cons, Nat.succ_mul, Nat.add_comm]
    rw [hcount] at h hlen ⊢
    have himage : (fun k => writeAct (D := D) (elemByte src size ((tt, off) :: elems))
        (1 <<< size + k)) = writeAct (elemByte src size elems) := by
      funext k
      unfold writeAct
      rw [elemByte_tail]
    have hle : elems.length * 1 <<< size ≤ 4096 := Nat.le_trans (Nat.le_add_left _ _) hlen
    obtain ⟨done, gm, hrun, hafter, honly, -⟩ := h.store halign hwf hlen
      (Nat.le_add_right (1 <<< size) _)
    obtain ⟨hvm, helm, habortm⟩ := hafter.facts
    have hwrite : elemStep false size tt off va g = gm := by
      have hbytes : ∀ k < 1 <<< size, elemByte src size ((tt, off) :: elems) k =
          (getElem (g.cpu.v tt) off size >>> (8 * k)).setWidth 8 := by
        intro k hk
        have h8 : 8 * 1 <<< size ≤ 64 := by
          rw [Nat.one_shiftLeft]
          have := Nat.pow_le_pow_right Nat.two_pos hsize
          omega
        rw [elemByte_head _ _ _ _ _ hk, getElem_eq, Bytes.byte_loadLe _ _ _ h8 hk, hv]
      show writeAt g va size (getElem (g.cpu.v tt) off size) g.cpu.el = gm
      rw [hel, h.writeAt halign hwf hsize (Nat.le_add_right _ _) hbytes, hrun]
    have hrest := h.drop hrun honly.window
    rw [himage] at hrest
    have hnext := ih hrest hafter.aligned (honly.window.ramWf hwf) hle (hvm.trans hv)
      (helm.trans hel) (habortm.trans habort)
    obtain ⟨done', gn, hrun', -, -, -⟩ := hrest.store hafter.aligned (honly.window.ramWf hwf)
      hle (Nat.le_refl _)
    rw [structLoop, hwrite, if_neg (by rw [habortm, habort]; exact Bool.false_ne_true), hnext,
      hrun']
    rw [← himage] at hrun'
    rw [eachByte_add hrun hrun']

/-- The bytes that the elements cover. -/
def Covered (size : ℕ) (elems : List (Reg × ℕ)) (t : Reg) (k : ℕ) : Prop :=
  ∃ x ∈ elems, x.1 = t ∧ x.2 ≤ k ∧ k < x.2 + 1 <<< size

/-- From the registers `v` to `v'` the bytes of the elements become those of `src`, and the
    others stay. -/
structure ElemsLoaded (src : Reg → BitVec 128) (size : ℕ) (elems : List (Reg × ℕ))
    (v v' : Reg → BitVec 128) : Prop where
  covered : ∀ t k, Covered size elems t k → Lanes.lane 8 (v' t) k = Lanes.lane 8 (src t) k
  other : ∀ t k, ¬ Covered size elems t k → Lanes.lane 8 (v' t) k = Lanes.lane 8 (v t) k

omit [MmioDevice D] in
/-- One element is read before the others. -/
theorem ElemsLoaded.cons {src v v' : Reg → BitVec 128} {elems : List (Reg × ℕ)} {tt : Reg} {off : ℕ}
    {val : BitVec 64} (hoff : off + 1 <<< size ≤ 16)
    (hval : ∀ k < 1 <<< size, (val >>> (8 * k)).setWidth 8 = Lanes.lane 8 (src tt) (off + k))
    (h : ElemsLoaded src size elems (Function.update v tt (setElem (v tt) off size val)) v') :
    ElemsLoaded src size ((tt, off) :: elems) v v' := by
  -- the registers after the first element
  have hfirst (t : Reg) (k : ℕ) :
      (t = tt ∧ off ≤ k ∧ k < off + 1 <<< size →
        Lanes.lane 8 (Function.update v tt (setElem (v tt) off size val) t) k =
          Lanes.lane 8 (src t) k) ∧
      (¬ (t = tt ∧ off ≤ k ∧ k < off + 1 <<< size) →
        Lanes.lane 8 (Function.update v tt (setElem (v tt) off size val) t) k =
          Lanes.lane 8 (v t) k) := by
    by_cases ht : t = tt
    · subst ht
      rw [Function.update_self, lane_setElem _ _ hoff]
      unfold Bytes.storeLe
      constructor
      · rintro ⟨-, hmem⟩
        rw [if_pos hmem, hval _ (by omega), Nat.add_sub_cancel' hmem.1]
      · intro hmem
        rw [if_neg fun hk => hmem ⟨rfl, hk⟩]
    · rw [Function.update_of_ne ht]
      exact ⟨fun hk => absurd hk.1 ht, fun _ => rfl⟩
  constructor
  · rintro t k ⟨x, hx, rfl, hk⟩
    by_cases hrest : Covered size elems x.1 k
    · exact h.covered _ _ hrest
    · rw [h.other _ _ hrest]
      rcases List.mem_cons.mp hx with rfl | hx
      · exact (hfirst tt k).1 ⟨rfl, hk⟩
      · exact absurd ⟨x, hx, rfl, hk⟩ hrest
  · intro t k hnot
    rw [h.other t k fun ⟨x, hx, hk⟩ => hnot ⟨x, List.mem_cons_of_mem _ hx, hk⟩]
    exact (hfirst t k).2 fun ⟨ht, hk⟩ => hnot ⟨(tt, off), List.mem_cons_self, ht.symm, hk⟩

/-- The loop of a load takes its elements from the bytes of the range. -/
theorem structLoop_load {src : Reg → BitVec 128} {elems : List (Reg × ℕ)} {va : BitVec 64}
    {p : ℕ → BitVec 64} {g : Guest (Bus D)}
    (h : RamRange va false el readAct (elems.length * 1 <<< size) p g)
    (halign : g.cpu.tlb.PagesAligned) (hwf : g.mem.RamWf) (hsize : size ≤ 3)
    (hoff : ∀ x ∈ elems, x.2 + 1 <<< size ≤ 16) (hel : g.cpu.el = el) (habort : g.aborted = false)
    (hbytes : ∀ j < elems.length * 1 <<< size,
      g.mem.view (p j).toNat = elemByte src size elems j) :
    ∃ tlb v mem, structLoop (elemStep true size) (BitVec.ofNat 64 (1 <<< size)) elems va g =
        ⟨{ g.cpu with tlb := tlb, v := v }, mem⟩ ∧ mem.ram = g.mem.ram ∧
      ElemsLoaded src size elems g.cpu.v v := by
  induction elems generalizing va p g with
  | nil =>
    exact ⟨g.cpu.tlb, g.cpu.v, g.mem, rfl, rfl, fun t k ⟨x, hx, _⟩ => (nomatch hx),
      fun _ _ _ => rfl⟩
  | cons x elems ih =>
    obtain ⟨tt, off⟩ := x
    have hcount : ((tt, off) :: elems).length * 1 <<< size =
        1 <<< size + elems.length * 1 <<< size := by
      rw [List.length_cons, Nat.succ_mul, Nat.add_comm]
    rw [hcount] at h hbytes
    obtain ⟨gm, hrun, hafter, hram⟩ := h.load halign hwf (Nat.le_add_right (1 <<< size) _)
    obtain ⟨hvm, helm, habortm⟩ := hafter.facts
    obtain ⟨tlb, htlb⟩ := hafter.cpu
    have hwin : g.mem.SameWindow gm.mem := ⟨by rw [hram], by rw [hram]⟩
    have hview : gm.mem.view = g.mem.view := by
      unfold Bus.view
      rw [hram]
    generalize hval : Bytes.ofLe 64 ((List.range (1 <<< size)).map fun j =>
      g.mem.view (p j).toNat) = val
    have hbyte : ∀ k < 1 <<< size,
        (val >>> (8 * k)).setWidth 8 = Lanes.lane 8 (src tt) (off + k) := by
      intro k hk
      have h8 : 8 * 1 <<< size ≤ 64 := by
        rw [Nat.one_shiftLeft]
        have := Nat.pow_le_pow_right Nat.two_pos hsize
        omega
      rw [← hval, Bytes.byte_ofLe (by simpa using h8) (by simpa using hk), List.getElem_map,
        List.getElem_range, hbytes k (Nat.lt_add_right _ hk), elemByte_head _ _ _ _ _ hk]
    have hread : elemStep true size tt off va g =
        gm.withV (Function.update gm.cpu.v tt (setElem (gm.cpu.v tt) off size val)) := by
      have hreadAt := h.readAt halign hwf hsize (Nat.le_add_right (1 <<< size) _)
      rw [hrun, hval] at hreadAt
      show (if (readAt g va size g.cpu.el).2.aborted then (readAt g va size g.cpu.el).2
        else (readAt g va size g.cpu.el).2.setV tt (setElem ((readAt g va size g.cpu.el).2.cpu.v tt)
          off size (readAt g va size g.cpu.el).1)) = _
      rw [hel, hreadAt, if_neg (by rw [habortm, habort]; exact Bool.false_ne_true)]
      rfl
    have hrest := (h.drop hrun hwin).withV
      (Function.update gm.cpu.v tt (setElem (gm.cpu.v tt) off size val))
    obtain ⟨tlb', v', mem', hloop, hram', hrestored⟩ := ih hrest hafter.aligned (hwin.ramWf hwf)
      (fun x hx => hoff x (List.mem_cons_of_mem _ hx)) (helm.trans hel) (habortm.trans habort)
      fun j hj => by
        show gm.mem.view (p (1 <<< size + j)).toNat = _
        rw [hview, hbytes _ (Nat.add_lt_add_left hj _), elemByte_tail]
    refine ⟨tlb', v', mem', ?_, hram'.trans hram, ?_⟩
    · have hstep : (elemStep true size tt off va g).aborted = false := by
        rw [hread]
        exact habortm.trans habort
      rw [structLoop, hstep, if_neg Bool.false_ne_true, hread, hloop]
      show (⟨{ gm.cpu with tlb := tlb', v := v' }, mem'⟩ : Guest (Bus D)) = _
      rw [htlb]
    · have hhead := hoff (tt, off) List.mem_cons_self
      refine ElemsLoaded.cons hhead hbyte ?_
      rw [← hvm]
      exact hrestored

end Loops

/-! ## The order of the elements -/

/-- The bytes of a register that an arrangement uses. -/
def arrangementBytes (q : Bool) : ℕ := if q then 16 else 8

theorem elements_mul {q : Bool} {size : ℕ} (hsize : size ≤ 3) :
    arrangementBytes q / 1 <<< size * 1 <<< size = arrangementBytes q := by
  unfold arrangementBytes
  obtain h | h | h | h : size = 0 ∨ size = 1 ∨ size = 2 ∨ size = 3 := by omega
  all_goals subst h; cases q <;> rfl

/-- Byte `j` of a register list in memory: structures of `selem` registers follow each other, and
    `j` lies in element `j / 2^size`. -/
def structByte (src : Reg → BitVec 128) (rt : Reg) (q : Bool) (size selem j : ℕ) : BitVec 8 :=
  let elements := arrangementBytes q / 1 <<< size
  let i := j / 1 <<< size
  let r := i / (elements * selem)
  let e := i % (elements * selem) / selem
  let xs := i % (elements * selem) % selem
  Lanes.lane 8 (src (Fin.ofNat 32 (rt.val + r + xs))) (e * 1 <<< size + j % 1 <<< size)

/-- Register `r + s` of a list has its element `e` in structure `e` of the list that begins at
    register `r`. -/
theorem structByte_index (src : Reg → BitVec 128) (rt : Reg) (q : Bool) {size selem : ℕ}
    (r : ℕ) {e s k : ℕ} (he : e < arrangementBytes q / 1 <<< size) (hs : s < selem)
    (hk : k < 1 <<< size) :
    structByte src rt q size selem
        (((r * (arrangementBytes q / 1 <<< size) + e) * selem + s) * 1 <<< size + k) =
      Lanes.lane 8 (src (Fin.ofNat 32 (rt.val + r + s))) (e * 1 <<< size + k) := by
  unfold structByte
  dsimp only
  generalize arrangementBytes q / 1 <<< size = elements at he ⊢
  generalize 1 <<< size = ebytes at hk ⊢
  have hes : e * selem + s < elements * selem := by
    have := Nat.mul_le_mul_right selem (Nat.succ_le_of_lt he)
    rw [Nat.succ_mul] at this
    omega
  have hsum : (r * elements + e) * selem + s = elements * selem * r + (e * selem + s) := by ring
  have hselem : 0 < selem := Nat.zero_lt_of_lt hs
  have hi : (((r * elements + e) * selem + s) * ebytes + k) / ebytes =
      elements * selem * r + (e * selem + s) := by
    rw [Nat.mul_comm _ ebytes, Nat.mul_add_div (Nat.zero_lt_of_lt hk), Nat.div_eq_of_lt hk, hsum]
    rfl
  rw [hi, Nat.mul_add_div (Nat.zero_lt_of_lt hes), Nat.mul_add_mod, Nat.div_eq_of_lt hes,
    Nat.mod_eq_of_lt hes, Nat.mul_comm e selem, Nat.mul_add_div hselem, Nat.mul_add_mod,
    Nat.div_eq_of_lt hs, Nat.mod_eq_of_lt hs, Nat.add_zero, Nat.add_zero,
    Nat.mul_comm _ ebytes, Nat.mul_comm _ ebytes, Nat.mul_add_mod, Nat.mod_eq_of_lt hk]

/-- The three loops of `multi` as one. -/
theorem multiElems_eq (rt : Reg) (rpt elements selem size : ℕ) :
    multiElems rt rpt elements selem size =
      (List.range (rpt * (elements * selem))).map fun i =>
        (Fin.ofNat 32 (rt.val + i / (elements * selem) + i % (elements * selem) % selem),
          i % (elements * selem) / selem * 1 <<< size) := by
  unfold multiElems
  simp only [Loops.range_flatMap_map elements selem]
  exact Loops.range_flatMap_map rpt (elements * selem) _

/-- The loops of `multi` visit the bytes in the order of memory. -/
theorem elemByte_multiElems (src : Reg → BitVec 128) (rt : Reg) (q : Bool) {rpt selem size j : ℕ}
    (h : j < rpt * (arrangementBytes q / 1 <<< size * selem) * 1 <<< size) :
    elemByte src size (multiElems rt rpt (arrangementBytes q / 1 <<< size) selem size) j =
      structByte src rt q size selem j := by
  have hi := (Nat.div_lt_iff_lt_mul (one_le_shiftLeft size)).mpr h
  unfold elemByte
  dsimp only
  rw [multiElems_eq, List.getD_eq_getElem?_getD, List.getElem?_map, List.getElem?_range hi]
  rfl

/-! ## The registers of a list -/

/-- The registers of a list of `count` from `rt` on, which wraps around after V31. -/
def Listed (rt : Reg) (count : ℕ) (t : Reg) : Prop := ∃ c < count, t = Fin.ofNat 32 (rt.val + c)

/-- The forms of the decoder: one group of registers, or groups of one. -/
theorem covered_multiElems {rt : Reg} {q : Bool} {rpt selem size : ℕ} (hsize : size ≤ 3)
    (hform : rpt = 1 ∨ selem = 1) (t : Reg) (k : ℕ) :
    Covered size (multiElems rt rpt (arrangementBytes q / 1 <<< size) selem size) t k ↔
      Listed rt (rpt * selem) t ∧ k < arrangementBytes q := by
  have hbytes := elements_mul (q := q) hsize
  have hpos := one_le_shiftLeft size
  generalize arrangementBytes q / 1 <<< size = elements at hbytes ⊢
  constructor
  · rintro ⟨x, hx, rfl, hlow, hhigh⟩
    obtain ⟨r, hr, hx⟩ := List.mem_flatMap.mp hx
    obtain ⟨e, he, hx⟩ := List.mem_flatMap.mp hx
    obtain ⟨xs, hxs, rfl⟩ := List.mem_map.mp hx
    rw [List.mem_range] at hr he hxs
    dsimp only at hlow hhigh ⊢
    refine ⟨⟨r + xs, ?_, by rw [Nat.add_assoc]⟩, ?_⟩
    · rcases hform with rfl | rfl
      · omega
      · omega
    · have hle := Nat.mul_le_mul_right (1 <<< size) (Nat.succ_le_of_lt he)
      rw [Nat.succ_mul, hbytes] at hle
      omega
  · rintro ⟨⟨c, hc, rfl⟩, hk⟩
    -- the byte lies in element `k / 2^size`
    have he : k / 1 <<< size < elements :=
      (Nat.div_lt_iff_lt_mul hpos).mpr (by rw [hbytes]; exact hk)
    have hlow := Nat.div_mul_le_self k (1 <<< size)
    have hhigh := Nat.lt_div_mul_add hpos (a := k)
    have hmem {r xs : ℕ} (hr : r < rpt) (hxs : xs < selem) (hsum : r + xs = c) :
        Covered size (multiElems rt rpt elements selem size) (Fin.ofNat 32 (rt.val + c)) k := by
      refine ⟨(Fin.ofNat 32 (rt.val + r + xs), k / 1 <<< size * 1 <<< size), ?_, ?_, hlow, hhigh⟩
      · exact List.mem_flatMap.mpr ⟨r, List.mem_range.mpr hr, List.mem_flatMap.mpr
          ⟨k / 1 <<< size, List.mem_range.mpr he,
            List.mem_map.mpr ⟨xs, List.mem_range.mpr hxs, rfl⟩⟩⟩
      · show Fin.ofNat 32 (rt.val + r + xs) = _
        rw [Nat.add_assoc, hsum]
    rcases hform with rfl | rfl
    · exact hmem (r := 0) Nat.one_pos (by omega) (Nat.zero_add c)
    · exact hmem (r := c) (by omega) Nat.one_pos rfl

/-- `zeroUpper` clears the upper halves of a list and nothing else. -/
theorem zeroUpper_eq (cpu : CpuState) (rt : Reg) (count : ℕ) :
    ∃ v, zeroUpper cpu rt count = { cpu with v := v } ∧
      (∀ t, Listed rt count t → v t = ((cpu.v t).setWidth 64).setWidth 128) ∧
      ∀ t, ¬ Listed rt count t → v t = cpu.v t := by
  have hmask (x : BitVec 128) : x &&& (BitVec.allOnes 64).setWidth 128 =
      (x.setWidth 64).setWidth 128 := by
    apply BitVec.eq_of_getLsbD_eq
    intro i hi
    rw [BitVec.getLsbD_and, BitVec.getLsbD_setWidth, BitVec.getLsbD_allOnes,
      BitVec.getLsbD_setWidth, BitVec.getLsbD_setWidth, Bool.and_comm]
    simp [hi]
  induction count with
  | zero => exact ⟨cpu.v, rfl, fun t ⟨c, hc, _⟩ => absurd hc (Nat.not_lt_zero c), fun _ _ => rfl⟩
  | succ count ih =>
    obtain ⟨v, hv, hlisted, hother⟩ := ih
    refine ⟨Function.update v (Fin.ofNat 32 (rt.val + count))
      (v (Fin.ofNat 32 (rt.val + count)) &&& (BitVec.allOnes 64).setWidth 128), ?_, ?_, ?_⟩
    · unfold zeroUpper at hv ⊢
      rw [List.range_succ, List.foldl_append, hv]
      rfl
    · rintro t ⟨c, hc, ht⟩
      by_cases hlast : t = Fin.ofNat 32 (rt.val + count)
      · subst hlast
        rw [Function.update_self, hmask]
        by_cases hold : Listed rt count (Fin.ofNat 32 (rt.val + count))
        · rw [hlisted _ hold]
          simp
        · rw [hother _ hold]
      · rw [Function.update_of_ne hlast]
        refine hlisted t ⟨c, ?_, ht⟩
        by_contra hge
        obtain rfl : c = count := by omega
        exact hlast ht
    · intro t ht
      rw [Function.update_of_ne fun heq => ht ⟨count, Nat.lt_succ_self count, heq⟩]
      exact hother t fun ⟨c, hc, heq⟩ => ht ⟨c, Nat.lt_succ_of_lt hc, heq⟩

/-! ## Transfers of a list -/

/-- The bytes that a register list takes in memory. -/
def transferBytes (q : Bool) (rpt selem : ℕ) : ℕ := rpt * selem * arrangementBytes q

theorem length_multiElems (rt : Reg) {q : Bool} {rpt selem size : ℕ} (hsize : size ≤ 3) :
    (multiElems rt rpt (arrangementBytes q / 1 <<< size) selem size).length * 1 <<< size =
      transferBytes q rpt selem := by
  rw [multiElems_eq, List.length_map, List.length_range, transferBytes]
  calc rpt * (arrangementBytes q / 1 <<< size * selem) * 1 <<< size =
      rpt * selem * (arrangementBytes q / 1 <<< size * 1 <<< size) := by ring
    _ = rpt * selem * arrangementBytes q := by rw [elements_mul hsize]

theorem multiElems_fit {rt : Reg} {q : Bool} {rpt selem size : ℕ} (hsize : size ≤ 3) :
    ∀ x ∈ multiElems rt rpt (arrangementBytes q / 1 <<< size) selem size,
      x.2 + 1 <<< size ≤ 16 := by
  intro x hx
  obtain ⟨r, -, hx⟩ := List.mem_flatMap.mp hx
  obtain ⟨e, he, hx⟩ := List.mem_flatMap.mp hx
  obtain ⟨xs, -, rfl⟩ := List.mem_map.mp hx
  have hle := Nat.mul_le_mul_right (1 <<< size) (Nat.succ_le_of_lt (List.mem_range.mp he))
  rw [Nat.succ_mul, elements_mul hsize] at hle
  have h16 : arrangementBytes q ≤ 16 := by cases q <;> decide
  exact Nat.le_trans hle h16

theorem ebytes_eq {size : ℕ} (hsize : size ≤ 3) :
    (1 <<< size : BitVec 64) = BitVec.ofNat 64 (1 <<< size) := by
  obtain h | h | h | h : size = 0 ∨ size = 1 ∨ size = 2 ∨ size = 3 := by omega
  all_goals subst h; rfl

/-- The bytes that `multi` adds to the base. -/
theorem total_eq {q : Bool} {size : ℕ} (rpt selem : ℕ) (hsize : size ≤ 3) :
    BitVec.ofNat 64 rpt * BitVec.ofNat 64 (arrangementBytes q / 1 <<< size) *
      BitVec.ofNat 64 selem * (1 <<< size : BitVec 64) =
      BitVec.ofNat 64 (transferBytes q rpt selem) := by
  rw [ebytes_eq hsize, ← BitVec.ofNat_mul, ← BitVec.ofNat_mul, ← BitVec.ofNat_mul, transferBytes]
  congr 1
  calc rpt * (arrangementBytes q / 1 <<< size) * selem * 1 <<< size =
      rpt * selem * (arrangementBytes q / 1 <<< size * 1 <<< size) := by ring
    _ = rpt * selem * arrangementBytes q := by rw [elements_mul hsize]

section Transfer

variable {D : Type} [MmioDevice D] {q postidx : Bool} {rm rn rt : Reg} {size rpt selem : ℕ}
  {p : ℕ → BitVec 64} {g : Guest (Bus D)}

/-- `multi` where no access of its loop faults. -/
theorem simdLdStMulti_eq {isLoad : Bool} (hsize : size ≤ 3) {g' : Guest (Bus D)}
    (hloop : structLoop (elemStep isLoad size) (BitVec.ofNat 64 (1 <<< size))
      (multiElems rt rpt (arrangementBytes q / 1 <<< size) selem size) (g.cpu.readGpr rn true) g =
        g') (habort : g'.aborted = false) :
    simdLdStMulti g isLoad q postidx rm rn rt size rpt selem =
      ⟨postIndex (if isLoad && !q then zeroUpper g'.cpu rt (rpt * selem) else g'.cpu) postidx rm rn
        (g.cpu.readGpr rn true) (BitVec.ofNat 64 (transferBytes q rpt selem)), g'.mem⟩ := by
  unfold simdLdStMulti
  dsimp only
  rw [← ebytes_eq hsize] at hloop
  unfold arrangementBytes at hloop
  rw [hloop, if_neg (by rw [habort]; exact Bool.false_ne_true), ← total_eq rpt selem hsize]
  rfl

/-- ST of a register list. -/
theorem simdLdStMulti_store (hsize : size ≤ 3) (hlen : rpt * selem ≤ 4)
    (halign : g.cpu.tlb.PagesAligned) (hwf : g.mem.RamWf) (habort : g.aborted = false)
    (h : RamRange (g.cpu.readGpr rn true) true g.cpu.el
      (writeAct (structByte g.cpu.v rt q size selem)) (transferBytes q rpt selem) p g) :
    ∃ tlb mem, simdLdStMulti g false q postidx rm rn rt size rpt selem =
        ⟨postIndex { g.cpu with tlb := tlb } postidx rm rn (g.cpu.readGpr rn true)
          (BitVec.ofNat 64 (transferBytes q rpt selem)), mem⟩ ∧
      tlb.PagesAligned ∧
      (∀ j < transferBytes q rpt selem, ∀ cpu : CpuState, cpu.tlb = tlb →
        mmuEnabled cpu = mmuEnabled g.cpu →
        Cached cpu g.cpu.el (g.cpu.readGpr rn true + BitVec.ofNat 64 j) (p j)) ∧
      Bus.OnlyWrites (fun a => ∃ j < transferBytes q rpt selem, a = (p j).toNat) g.mem mem ∧
      ∀ j < transferBytes q rpt selem,
        mem.view (p j).toNat = structByte g.cpu.v rt q size selem j := by
  have hcount : (multiElems rt rpt (arrangementBytes q / 1 <<< size) selem size).length *
      1 <<< size = transferBytes q rpt selem := length_multiElems rt hsize
  have h64 : transferBytes q rpt selem ≤ 4096 := by
    have h16 : arrangementBytes q ≤ 16 := by cases q <;> decide
    have := Nat.mul_le_mul hlen h16
    unfold transferBytes
    omega
  have himage : ∀ j < transferBytes q rpt selem,
      elemByte g.cpu.v size (multiElems rt rpt (arrangementBytes q / 1 <<< size) selem size) j =
        structByte g.cpu.v rt q size selem j := by
    intro j hj
    refine elemByte_multiElems _ _ _ ?_
    rw [← hcount, multiElems_eq, List.length_map, List.length_range] at hj
    exact hj
  generalize helems : multiElems rt rpt (arrangementBytes q / 1 <<< size) selem size = elems
    at hcount himage
  have helem : RamRange (g.cpu.readGpr rn true) true g.cpu.el
      (writeAct (elemByte g.cpu.v size elems)) (transferBytes q rpt selem) p g :=
    h.congr fun k hk => by
      unfold writeAct
      rw [himage k hk]
  rw [← hcount] at helem
  have hloop := structLoop_store helem halign hwf hsize (by omega) rfl rfl habort
  obtain ⟨done, gm, hrun, hafter, honly, hview⟩ := helem.store halign hwf (by omega) (Nat.le_refl _)
  obtain ⟨halign', hcached⟩ := helem.cached halign (by omega) (Nat.le_refl _) hrun
  obtain ⟨tlb, htlb⟩ := hafter.cpu
  rw [hrun] at hloop
  rw [hcount] at honly hview hcached
  refine ⟨tlb, gm.mem, ?_, ?_, fun j hj cpu hcpu hmmu => ?_, honly, fun j hj => ?_⟩
  · rw [← helems] at hloop
    rw [simdLdStMulti_eq hsize hloop (hafter.facts.2.2.trans habort), htlb]
    rfl
  · rw [htlb] at halign'
    exact halign'
  · have hc := hcached j hj
    rw [Cached, htlb] at hc
    rw [Cached, hcpu, hmmu]
    exact hc
  · rw [hview j hj, himage j hj]

/-- What LD of a register leaves in it. -/
def loadedReg (q : Bool) (x : BitVec 128) : BitVec 128 :=
  if q then x else (x.setWidth 64).setWidth 128

/-- LD of a register list. -/
theorem simdLdStMulti_load {src : Reg → BitVec 128} (hsize : size ≤ 3)
    (hform : rpt = 1 ∨ selem = 1)
    (halign : g.cpu.tlb.PagesAligned) (hwf : g.mem.RamWf) (habort : g.aborted = false)
    (h : RamRange (g.cpu.readGpr rn true) false g.cpu.el readAct (transferBytes q rpt selem) p g)
    (hbytes : ∀ j < transferBytes q rpt selem,
      g.mem.view (p j).toNat = structByte src rt q size selem j) :
    ∃ tlb v mem, simdLdStMulti g true q postidx rm rn rt size rpt selem =
        ⟨postIndex { g.cpu with tlb := tlb, v := v } postidx rm rn (g.cpu.readGpr rn true)
          (BitVec.ofNat 64 (transferBytes q rpt selem)), mem⟩ ∧
      mem.ram = g.mem.ram ∧
      (∀ t, Listed rt (rpt * selem) t → v t = loadedReg q (src t)) ∧
      ∀ t, ¬ Listed rt (rpt * selem) t → v t = g.cpu.v t := by
  have hcount : (multiElems rt rpt (arrangementBytes q / 1 <<< size) selem size).length *
      1 <<< size = transferBytes q rpt selem := length_multiElems rt hsize
  rw [← hcount] at h hbytes
  have helems : ∀ j < (multiElems rt rpt (arrangementBytes q / 1 <<< size) selem size).length *
      1 <<< size, g.mem.view (p j).toNat = elemByte src size
        (multiElems rt rpt (arrangementBytes q / 1 <<< size) selem size) j := by
    intro j hj
    rw [hbytes j hj]
    refine (elemByte_multiElems _ _ _ ?_).symm
    rw [multiElems_eq, List.length_map, List.length_range] at hj
    exact hj
  obtain ⟨tlb, v, mem, hloop, hram, hloaded⟩ :=
    structLoop_load h halign hwf hsize (multiElems_fit hsize) rfl habort helems
  have hmulti : simdLdStMulti g true q postidx rm rn rt size rpt selem = _ :=
    simdLdStMulti_eq hsize hloop habort
  have hcovered (t : Reg) (k : ℕ) :
      Covered size (multiElems rt rpt (arrangementBytes q / 1 <<< size) selem size) t k ↔
        Listed rt (rpt * selem) t ∧ k < arrangementBytes q := covered_multiElems hsize hform t k
  have hother (t : Reg) (ht : ¬ Listed rt (rpt * selem) t) : v t = g.cpu.v t := by
    refine Lanes.eq_of_lanes (w := 8) (c := 16) (Lanes.narrow_of_le _ (by decide))
      (Lanes.narrow_of_le _ (by decide)) fun k hk => ?_
    exact hloaded.other t k fun hc => ht ((hcovered t k).mp hc).1
  cases q with
  | true =>
    refine ⟨tlb, v, mem, hmulti, hram, fun t ht => ?_, hother⟩
    refine Lanes.eq_of_lanes (w := 8) (c := 16) (Lanes.narrow_of_le _ (by decide))
      (Lanes.narrow_of_le _ (by decide)) fun k hk => ?_
    exact hloaded.covered t k ((hcovered t k).mpr ⟨ht, hk⟩)
  | false =>
    obtain ⟨v', hv', hlisted, hkept⟩ :=
      zeroUpper_eq { g.cpu with tlb := tlb, v := v } rt (rpt * selem)
    refine ⟨tlb, v', mem, ?_, hram, fun t ht => ?_, fun t ht => ?_⟩
    · rw [hmulti]
      show (⟨postIndex (zeroUpper { g.cpu with tlb := tlb, v := v } rt (rpt * selem)) _ _ _ _ _,
        mem⟩ : Guest (Bus D)) = _
      rw [hv']
    · rw [hlisted t ht]
      show ((v t).setWidth 64).setWidth 128 = ((src t).setWidth 64).setWidth 128
      congr 1
      refine Lanes.eq_of_lanes (w := 8) (c := 8) (Lanes.narrow_of_le _ (by decide))
        (Lanes.narrow_of_le _ (by decide)) fun k hk => ?_
      rw [Lanes.lane_cut _ (by omega), Lanes.lane_cut _ (by omega)]
      exact hloaded.covered t k ((hcovered t k).mpr ⟨ht, hk⟩)
    · rw [hkept t ht]
      exact hother t ht

/-- The place of byte `k` of element `e` of register `r + s` lies in the transfer. -/
theorem structIndex_lt (hsize : size ≤ 3) {r e s k : ℕ} (hr : r < rpt)
    (he : e < arrangementBytes q / 1 <<< size) (hs : s < selem) (hk : k < 1 <<< size) :
    ((r * (arrangementBytes q / 1 <<< size) + e) * selem + s) * 1 <<< size + k <
      transferBytes q rpt selem := by
  have htotal : transferBytes q rpt selem =
      rpt * (arrangementBytes q / 1 <<< size) * selem * 1 <<< size :=
    calc transferBytes q rpt selem
        = rpt * selem * (arrangementBytes q / 1 <<< size * 1 <<< size) := by
          rw [elements_mul hsize, transferBytes]
      _ = rpt * (arrangementBytes q / 1 <<< size) * selem * 1 <<< size := by ring
  rw [htotal]
  generalize arrangementBytes q / 1 <<< size = elements at he ⊢
  generalize 1 <<< size = ebytes at hk ⊢
  -- one loop after the other, from the outermost
  have h1 := Nat.mul_le_mul_right elements (Nat.succ_le_of_lt hr)
  have h2 := Nat.mul_le_mul_right selem (Nat.succ_le_of_lt (by
    rw [Nat.succ_mul] at h1
    omega : r * elements + e < rpt * elements))
  have h3 := Nat.mul_le_mul_right ebytes (Nat.succ_le_of_lt (by
    rw [Nat.succ_mul] at h2
    omega : (r * elements + e) * selem + s < rpt * elements * selem))
  rw [Nat.succ_mul] at h3
  omega

/-- **LDn undoes STn.** For every form of the decoder, every register list and every range of RAM:
    ST leaves the elements interleaved in the range and no other byte of RAM changed, and LD from
    the same range restores the registers of the list and changes no other. Either adds the
    bytes transferred or Rm to its base where it is post-indexed. -/
theorem execute_ldStMulti (vu : VecUnit) {wordSt wordLd : BitVec 32} {q postSt postLd : Bool}
    {rmSt rnSt rmLd rnLd rt : Reg} {size rpt selem : ℕ}
    (hst : decode wordSt = .simdLdStMulti false q postSt rmSt rnSt rt size rpt selem)
    (hld : decode wordLd = .simdLdStMulti true q postLd rmLd rnLd rt size rpt selem)
    {g : Guest (Bus D)} {p : ℕ → BitVec 64} (halign : g.cpu.tlb.PagesAligned) (hwf : g.mem.RamWf)
    (habort : g.aborted = false)
    (hrange : RamRange (g.cpu.readGpr rnSt true) true g.cpu.el
      (writeAct (structByte g.cpu.v rt q size selem)) (transferBytes q rpt selem) p g)
    (pc pc' : BitVec 64) :
    let start := g.cpu.readGpr rnSt true
    let total := transferBytes q rpt selem
    ∃ tlb mem, execute vu g (decode wordSt) pc = some (none,
        ⟨postIndex { g.cpu with tlb := tlb } postSt rmSt rnSt start (BitVec.ofNat 64 total), mem⟩) ∧
      (∀ r < rpt, ∀ e < arrangementBytes q / 1 <<< size, ∀ s < selem, ∀ k < 1 <<< size,
        mem.view (p (((r * (arrangementBytes q / 1 <<< size) + e) * selem + s) * 1 <<< size +
            k)).toNat =
          Lanes.lane 8 (g.cpu.v (Fin.ofNat 32 (rt.val + r + s))) (e * 1 <<< size + k)) ∧
      Bus.OnlyWrites (fun a => ∃ j < total, a = (p j).toNat) g.mem mem ∧
      -- the range is mapped for reading, too, until the translations change
      (∀ g' : Guest (Bus D), g'.mem.ram = mem.ram → g'.cpu.tlb = tlb → g'.cpu.el = g.cpu.el →
        mmuEnabled g'.cpu = mmuEnabled g.cpu →
        RamRange start false g'.cpu.el readAct total p g' ∧ g'.cpu.tlb.PagesAligned) ∧
      ∀ g' : Guest (Bus D), g'.mem.ram = mem.ram → g'.cpu.tlb.PagesAligned → g'.aborted = false →
        g'.cpu.readGpr rnLd true = start → RamRange start false g'.cpu.el readAct total p g' →
        ∃ tlb' v mem', execute vu g' (decode wordLd) pc' = some (none,
            ⟨postIndex { g'.cpu with tlb := tlb', v := v } postLd rmLd rnLd start
              (BitVec.ofNat 64 total), mem'⟩) ∧
          mem'.ram = mem.ram ∧
          (∀ t, Listed rt (rpt * selem) t → v t = loadedReg q (g.cpu.v t)) ∧
          ∀ t, ¬ Listed rt (rpt * selem) t → v t = g'.cpu.v t := by
  intro start total
  have hok := fieldsOk_decode wordSt
  rw [hst] at hok ⊢
  rw [hld]
  obtain ⟨hsize, hrpt, hselem, hsum, hform⟩ := hok
  have hlen : rpt * selem ≤ 4 := by
    rcases hform with rfl | rfl
    · omega
    · omega
  obtain ⟨tlb, mem, hstore, hpages, hcached, honly, hview⟩ :=
    @simdLdStMulti_store D _ q postSt rmSt rnSt rt size rpt selem p g hsize hlen halign hwf habort
      hrange
  refine ⟨tlb, mem, congrArg (fun g => some (none, g)) hstore, ?_, honly, ?_, ?_⟩
  · intro r hr e he s hs k hk
    rw [hview _ (structIndex_lt hsize hr he hs hk), structByte_index _ _ _ _ he hs hk]
  · intro g' hram htlb hel hmmu
    have hsame : mem.SameWindow g'.mem := ⟨by rw [hram], by rw [hram]⟩
    refine ⟨ramRange_of_cached (fun j hj => ?_) fun j hj => ?_, by rw [htlb]; exact hpages⟩
    · exact hsame.inRam (honly.window.inRam (hrange.inRam j hj))
    · rw [hel]
      exact hcached j hj g'.cpu htlb hmmu
  · intro g' hram halign' habort' hbase hrange'
    have hsame : mem.SameWindow g'.mem := ⟨by rw [hram], by rw [hram]⟩
    have hview' : g'.mem.view = mem.view := by
      unfold Bus.view
      rw [hram]
    rw [← hbase] at hrange'
    obtain ⟨tlb', v, mem', hload, hram', hlisted, hother⟩ := @simdLdStMulti_load D _ q
      postLd rmLd rnLd rt size rpt selem p g' g.cpu.v hsize hform halign'
      (hsame.ramWf (honly.window.ramWf hwf)) habort' hrange' fun j hj => by
        rw [hview', hview j hj]
    rw [hbase] at hload
    exact ⟨tlb', v, mem', congrArg (fun g => some (none, g)) hload, hram'.trans hram, hlisted,
      hother⟩

end Transfer

/-- A machine with 64 bytes of RAM, whose X1 points to them. -/
def listGuest : Guest (Bus Empty) where
  cpu := { CpuState.new with
    x := fun _ => 0x4000_0000
    v := fun r => BitVec.ofNat 128 (r.val + 1) }
  mem := ⟨⟨0x4000_0000, 64, fun _ => 0⟩, []⟩

theorem ramRange_listGuest (write : Bool) {α : Type}
    (act : ℕ → BitVec 64 → Bus Empty → α × Bus Empty) :
    RamRange (0x4000_0000 : BitVec 64) write listGuest.cpu.el act 64
      (fun j => 0x4000_0000 + BitVec.ofNat 64 j) listGuest := by
  refine ramRange_of_cached (fun j hj => ?_) fun j hj => .inl ⟨rfl, rfl⟩
  have hbase : (0x4000_0000 : BitVec 64).toNat = 0x4000_0000 := rfl
  have hsize : (64 : BitVec 64).toNat = 64 := rfl
  have haddr : (0x4000_0000 + BitVec.ofNat 64 j).toNat = 0x4000_0000 + j := by
    rw [BitVec.toNat_add, BitVec.toNat_ofNat, hbase]
    omega
  constructor
  · show (0x4000_0000 : BitVec 64).toNat ≤ _
    omega
  · show _ ≤ (0x4000_0000 : BitVec 64).toNat + (64 : BitVec 64).toNat
    omega

/-- ST4 and LD4 of V30, V31, V0 and V1 in words, the registers cleared in between. -/
theorem execute_ldStMulti_st4 :
    ∃ tlb mem, execute (fun _ _ => none) listGuest (decode 0x4c9f083e) 0 = some (none,
        ⟨postIndex { listGuest.cpu with tlb := tlb } true 31 1 0x4000_0000 64, mem⟩) ∧
      ∃ tlb' v mem', execute (fun _ _ => none)
          ⟨{ listGuest.cpu with tlb := tlb, v := fun _ => 0 }, mem⟩ (decode 0x4c40083e) 0 =
          some (none, ⟨postIndex { listGuest.cpu with tlb := tlb', v := v } false 0 1
            0x4000_0000 64, mem'⟩) ∧
        (∀ t, Listed 30 4 t → v t = BitVec.ofNat 128 (t.val + 1)) ∧
        ∀ t, ¬ Listed 30 4 t → v t = 0 := by
  have hst : decode 0x4c9f083e = .simdLdStMulti false true true 31 1 30 2 1 4 := rfl
  have hld : decode 0x4c40083e = .simdLdStMulti true true false 0 1 30 2 1 4 := rfl
  obtain ⟨tlb, mem, hstore, -, -, hmapped, hload⟩ := execute_ldStMulti (fun _ _ => none) hst hld
    (g := listGuest)
    (Tlb.IsEmpty.pagesAligned fun _ => rfl) (by unfold Bus.RamWf; decide) rfl
    (ramRange_listGuest true _) 0 0
  obtain ⟨hrange, hpages⟩ := hmapped ⟨{ listGuest.cpu with tlb := tlb, v := fun _ => 0 }, mem⟩
    rfl rfl rfl rfl
  obtain ⟨tlb', v, mem', hrun, -, hlisted, hother⟩ := hload _ rfl hpages rfl rfl hrange
  exact ⟨tlb, mem, hstore, tlb', v, mem', hrun, hlisted, hother⟩

end V64.Interp
