import V64.Interp.Simd.Unit
import V64.Lib.Sha
import V64.Platform.Bus
import Mathlib.Tactic.Ring

/-!
# The SHA instructions against FIPS 180-4

Each instruction does half of four rounds, or half of four words of a message schedule, on
four words of a register; together the halves are the algorithm.

* `sha256h_eq`, `sha256h2_eq`, `sha1_eq`: four rounds.
* `sha256_schedule`, `sha1_schedule`: the next four words of a schedule.
* `execute_sha`: the instructions on registers.
-/

namespace V64.Interp.Simd

open V64.Cpu V64.Decoder V64.Platform Checked Sha

/-! ## Registers of words -/

/-- The words, lowest first. -/
def Words.toList (m : Words) : List Word := [m.w0, m.w1, m.w2, m.w3]

theorem words_pack (w : Words) : words (pack w) = w := by
  have hbits (s : ℕ) (v : Word) (hs : ∀ i < 32, (pack w).getLsbD (s + i) = v.getLsbD i) :
      (pack w >>> s).setWidth 32 = v := by
    apply BitVec.eq_of_getLsbD_eq
    intro i hi
    rw [BitVec.getLsbD_setWidth, BitVec.getLsbD_ushiftRight, hs i hi, decide_eq_true hi,
      Bool.true_and]
  have hpack (k : ℕ) : (pack w).getLsbD k =
      (((decide (k < 128) && w.w0.getLsbD k) ||
        (decide (k < 128) && !decide (k < 32) &&
          (decide (k - 32 < 128) && w.w1.getLsbD (k - 32))) ||
        (decide (k < 128) && !decide (k < 64) &&
          (decide (k - 64 < 128) && w.w2.getLsbD (k - 64)))) ||
        (decide (k < 128) && !decide (k < 96) &&
          (decide (k - 96 < 128) && w.w3.getLsbD (k - 96)))) := by
    unfold pack
    simp only [BitVec.getLsbD_or, BitVec.getLsbD_setWidth, BitVec.getLsbD_shiftLeft]
  have hge (v : Word) {k : ℕ} (hk : 32 ≤ k) : v.getLsbD k = false := BitVec.getLsbD_of_ge v k hk
  have h0 : (pack w).setWidth 32 = w.w0 := by
    apply BitVec.eq_of_getLsbD_eq
    intro i hi
    rw [BitVec.getLsbD_setWidth, hpack]
    simp [hi, show i < 64 by omega, show i < 96 by omega, show i < 128 by omega]
  have h1 : (pack w >>> 32).setWidth 32 = w.w1 := hbits 32 w.w1 fun i hi => by
    rw [hpack, hge w.w0 (by omega)]
    simp [show 32 + i < 64 by omega, show 32 + i < 96 by omega, show 32 + i < 128 by omega,
      show i < 128 by omega]
  have h2 : (pack w >>> 64).setWidth 32 = w.w2 := hbits 64 w.w2 fun i hi => by
    rw [hpack, hge w.w0 (by omega), hge w.w1 (by omega)]
    simp [show ¬ 64 + i < 32 by omega, show 64 + i < 96 by omega, show 64 + i < 128 by omega,
      show i < 128 by omega]
  have h3 : (pack w >>> 96).setWidth 32 = w.w3 := hbits 96 w.w3 fun i hi => by
    rw [hpack, hge w.w0 (by omega), hge w.w1 (by omega), hge w.w2 (by omega)]
    simp [show ¬ 96 + i < 32 by omega, show ¬ 96 + i < 64 by omega, show 96 + i < 128 by omega,
      show i < 128 by omega]
  unfold words
  rw [h0, h1, h2, h3]

/-! ## SHA-256 -/

/-- The working variables in two registers. -/
def state256 (abcd efgh : Words) : State256 :=
  ⟨abcd.w0, abcd.w1, abcd.w2, abcd.w3, efgh.w0, efgh.w1, efgh.w2, efgh.w3⟩

/-- The register of `a` to `d`. -/
def abcd256 (s : State256) : Words := ⟨s.a, s.b, s.c, s.d⟩

/-- The register of `e` to `h`. -/
def efgh256 (s : State256) : Words := ⟨s.e, s.f, s.g, s.h⟩

/-- One iteration of SHA256H is a round. -/
theorem sha256hBody_eq (k : Word) (s : State256) :
    sha256hBody k (abcd256 s) (efgh256 s) =
      (abcd256 (round256 s k), efgh256 (round256 s k)) := by
  have hcho : cho s.e s.f s.g = ch s.e s.f s.g := (ch_eq _ _ _).symm
  have hmaj : V64.Interp.Simd.maj s.a s.b s.c = Sha.maj s.a s.b s.c := (maj_eq _ _ _).symm
  have hs0 : bigS0 s.a = bigSigma0 s.a := rfl
  have hs1 : bigS1 s.e = bigSigma1 s.e := rfl
  simp only [sha256hBody, abcd256, efgh256, round256, hcho, hmaj, hs0, hs1, Prod.mk.injEq,
    Words.mk.injEq, and_true]
  constructor
  · ring
  · ring

/-- One iteration of SHA256H2 is a round, seen in the register of `e` to `h`. -/
theorem sha256h2Body_eq (k : Word) (s : State256) :
    sha256h2Body k s.d (efgh256 s) = efgh256 (round256 s k) := by
  have hcho : cho s.e s.f s.g = ch s.e s.f s.g := (ch_eq _ _ _).symm
  have hs1 : bigS1 s.e = bigSigma1 s.e := rfl
  simp only [sha256h2Body, efgh256, round256, hcho, hs1, Words.mk.injEq, and_true]
  ring

/-- SHA256H is four rounds, seen in the register of `a` to `d`. -/
theorem sha256h_eq (abcd efgh m : Words) :
    sha256h abcd efgh m false = pack (abcd256 (m.toList.foldl round256 (state256 abcd efgh))) := by
  have hrounds (ks : List Word) (s : State256) :
      ks.foldl (fun (p : Words × Words) mi => sha256hBody mi p.1 p.2) (abcd256 s, efgh256 s) =
        (abcd256 (ks.foldl round256 s), efgh256 (ks.foldl round256 s)) := by
    induction ks generalizing s with
    | nil => rfl
    | cons k ks ih =>
      rw [List.foldl_cons, List.foldl_cons, sha256hBody_eq]
      exact ih (round256 s k)
  have habcd : abcd256 (state256 abcd efgh) = abcd := rfl
  have hefgh : efgh256 (state256 abcd efgh) = efgh := rfl
  have hall := hrounds m.toList (state256 abcd efgh)
  rw [habcd, hefgh] at hall
  have hlist : [m.w0, m.w1, m.w2, m.w3] = m.toList := rfl
  unfold sha256h
  rw [if_neg Bool.false_ne_true, hlist, hall]

/-- SHA256H2 is four rounds, seen in the register of `e` to `h`: round `i` takes its `d` from
    word `3 - i` of the old register of `a` to `d`. -/
theorem sha256h2_eq (abcd efgh m : Words) :
    sha256h efgh abcd m true = pack (efgh256 (m.toList.foldl round256 (state256 abcd efgh))) := by
  set s0 := state256 abcd efgh with hs0
  set s1 := round256 s0 m.w0 with hs1
  set s2 := round256 s1 m.w1 with hs2
  set s3 := round256 s2 m.w2 with hs3
  have h0 : sha256h2Body m.w0 abcd.w3 efgh = efgh256 s1 := sha256h2Body_eq m.w0 s0
  have h1 : sha256h2Body m.w1 abcd.w2 (efgh256 s1) = efgh256 s2 := sha256h2Body_eq m.w1 s1
  have h2 : sha256h2Body m.w2 abcd.w1 (efgh256 s2) = efgh256 s3 := sha256h2Body_eq m.w2 s2
  have h3 : sha256h2Body m.w3 abcd.w0 (efgh256 s3) = efgh256 (round256 s3 m.w3) :=
    sha256h2Body_eq m.w3 s3
  show pack (sha256h2Body m.w3 abcd.w0 (sha256h2Body m.w2 abcd.w1 (sha256h2Body m.w1 abcd.w2
    (sha256h2Body m.w0 abcd.w3 efgh)))) = pack (efgh256 (round256 s3 m.w3))
  rw [h0, h1, h2, h3]

/-- The window of the schedule in four registers. -/
def window (q0 q1 q2 q3 : Words) : Window := fun i =>
  (q0.toList ++ q1.toList ++ q2.toList ++ q3.toList).getD i 0

/-- The last four words of the window. -/
def lastWords (w : Window) : Words := ⟨w 12, w 13, w 14, w 15⟩

/-- The next four words of a schedule: the first two feed the last two. -/
theorem lastWords_next256 (w : Window) :
    lastWords (next256^[4] w) =
      let w16 := smallSigma1 (w 14) + w 9 + smallSigma0 (w 1) + w 0
      let w17 := smallSigma1 (w 15) + w 10 + smallSigma0 (w 2) + w 1
      ⟨w16, w17, smallSigma1 w16 + w 11 + smallSigma0 (w 3) + w 2,
        smallSigma1 w17 + w 12 + smallSigma0 (w 4) + w 3⟩ := rfl

/-- SHA256SU0 and then SHA256SU1. -/
theorem sha256_schedule (q0 q1 q2 q3 : Words) :
    sha256su1 (words (sha256su0 q0 q1)) q2 q3 =
      pack (lastWords (next256^[4] (window q0 q1 q2 q3))) := by
  have h16 : q0.w0 + smallSigma0 q0.w1 + smallSigma1 q3.w2 + q2.w1 =
      smallSigma1 q3.w2 + q2.w1 + smallSigma0 q0.w1 + q0.w0 := by ring
  have h17 : q0.w1 + smallSigma0 q0.w2 + smallSigma1 q3.w3 + q2.w2 =
      smallSigma1 q3.w3 + q2.w2 + smallSigma0 q0.w2 + q0.w1 := by ring
  rw [lastWords_next256]
  unfold sha256su0 sha256su1
  rw [words_pack]
  refine congrArg pack ?_
  show (⟨q0.w0 + smallSigma0 q0.w1 + smallSigma1 q3.w2 + q2.w1,
    q0.w1 + smallSigma0 q0.w2 + smallSigma1 q3.w3 + q2.w2,
    q0.w2 + smallSigma0 q0.w3 +
      smallSigma1 (q0.w0 + smallSigma0 q0.w1 + smallSigma1 q3.w2 + q2.w1) + q2.w3,
    q0.w3 + smallSigma0 q1.w0 +
      smallSigma1 (q0.w1 + smallSigma0 q0.w2 + smallSigma1 q3.w3 + q2.w2) + q3.w0⟩ : Words) =
    ⟨smallSigma1 q3.w2 + q2.w1 + smallSigma0 q0.w1 + q0.w0,
      smallSigma1 q3.w3 + q2.w2 + smallSigma0 q0.w2 + q0.w1,
      smallSigma1 (smallSigma1 q3.w2 + q2.w1 + smallSigma0 q0.w1 + q0.w0) + q2.w3 +
        smallSigma0 q0.w3 + q0.w2,
      smallSigma1 (smallSigma1 q3.w3 + q2.w2 + smallSigma0 q0.w2 + q0.w1) + q3.w0 +
        smallSigma0 q1.w0 + q0.w3⟩
  rw [h16, h17, Words.mk.injEq]
  refine ⟨rfl, rfl, ?_, ?_⟩
  · ring
  · ring

/-! ## SHA-1 -/

/-- The working variables in a register and the word `e`. -/
def state160 (abcd : Words) (e : Word) : State160 := ⟨abcd.w0, abcd.w1, abcd.w2, abcd.w3, e⟩

/-- The register of `a` to `d`. -/
def abcd160 (s : State160) : Words := ⟨s.a, s.b, s.c, s.d⟩

/-- The function of SHA1C, SHA1P and SHA1M. -/
def sha1Function (opcode : ℕ) : Word → Word → Word → Word :=
  match opcode with
  | 0 => ch
  | 1 => parity
  | _ => Sha.maj

theorem rotateRight_two (x : Word) : x.rotateRight 2 = x.rotateLeft 30 := by
  show (x >>> 2) ||| (x <<< 30) = (x <<< 30) ||| (x >>> 2)
  exact BitVec.or_comm _ _

/-- The loop body with the value `f` of its function. -/
theorem sha1Body_of_eq {opcode : ℕ} {d : Words} (k : Word) (nn : Words) {f : Word}
    (hf : sha1Function opcode d.w1 d.w2 d.w3 = f) :
    sha1Body opcode k d nn =
      (⟨f + d.w0.rotateLeft 5 + nn.w0 + k, d.w0, d.w1.rotateRight 2, d.w2⟩,
        { nn with w0 := d.w3 }) := by
  subst hf
  match opcode with
  | 0 =>
    have hcho : cho d.w1 d.w2 d.w3 = ch d.w1 d.w2 d.w3 := (ch_eq _ _ _).symm
    unfold sha1Body sha1Function
    dsimp only
    rw [hcho]
    rfl
  | 1 => rfl
  | _ + 2 =>
    have hmaj : V64.Interp.Simd.maj d.w1 d.w2 d.w3 = Sha.maj d.w1 d.w2 d.w3 := (maj_eq _ _ _).symm
    unfold sha1Body sha1Function
    dsimp only
    rw [hmaj]
    rfl

/-- One iteration of SHA1C, SHA1P or SHA1M is a round. -/
theorem sha1Body_eq (opcode : ℕ) (k : Word) (s : State160) {nn : Words} (he : nn.w0 = s.e) :
    ∃ nn' : Words, sha1Body opcode k (abcd160 s) nn =
      (abcd160 (round160 (sha1Function opcode) s k), nn') ∧
      nn'.w0 = (round160 (sha1Function opcode) s k).e := by
  refine ⟨{ nn with w0 := s.d }, ?_, rfl⟩
  rw [sha1Body_of_eq k nn rfl, he]
  have ht : sha1Function opcode s.b s.c s.d + s.a.rotateLeft 5 + s.e + k =
      s.a.rotateLeft 5 + sha1Function opcode s.b s.c s.d + s.e + k := by ring
  show (Words.mk (sha1Function opcode s.b s.c s.d + s.a.rotateLeft 5 + s.e + k) s.a
    (s.b.rotateRight 2) s.c, _) = (Words.mk (s.a.rotateLeft 5 + sha1Function opcode s.b s.c s.d +
      s.e + k) s.a (s.b.rotateLeft 30) s.c, _)
  rw [ht, rotateRight_two]
  rfl

/-- SHA1C, SHA1P and SHA1M are four rounds, seen in the register of `a` to `d`. -/
theorem sha1_eq (opcode : ℕ) (abcd nn m : Words) :
    pack (m.toList.foldl (fun (p : Words × Words) mi => sha1Body opcode mi p.1 p.2) (abcd, nn)).1 =
      pack (abcd160 (m.toList.foldl (round160 (sha1Function opcode)) (state160 abcd nn.w0))) := by
  have hrounds (ks : List Word) (s : State160) (nn : Words) (he : nn.w0 = s.e) :
      (ks.foldl (fun (p : Words × Words) mi => sha1Body opcode mi p.1 p.2) (abcd160 s, nn)).1 =
        abcd160 (ks.foldl (round160 (sha1Function opcode)) s) := by
    induction ks generalizing s nn with
    | nil => rfl
    | cons k ks ih =>
      obtain ⟨nn', hbody, he'⟩ := sha1Body_eq opcode k s he
      rw [List.foldl_cons, List.foldl_cons, hbody]
      exact ih _ nn' he'
  have hall := hrounds m.toList (state160 abcd nn.w0) nn rfl
  have habcd : abcd160 (state160 abcd nn.w0) = abcd := rfl
  rw [habcd] at hall
  rw [hall]

/-- SHA1H: the `e` of four rounds on is the old `a`, rotated. -/
theorem sha1h_eq (f : Word → Word → Word → Word) (abcd m : Words) (e : Word) :
    abcd.w0.rotateRight 2 = (m.toList.foldl (round160 f) (state160 abcd e)).e :=
  rotateRight_two abcd.w0

/-- The next four words of a schedule: the first feeds the last. -/
theorem lastWords_next160 (w : Window) :
    lastWords (next160^[4] w) =
      let w16 := (w 13 ^^^ w 8 ^^^ w 2 ^^^ w 0).rotateLeft 1
      ⟨w16, (w 14 ^^^ w 9 ^^^ w 3 ^^^ w 1).rotateLeft 1,
        (w 15 ^^^ w 10 ^^^ w 4 ^^^ w 2).rotateLeft 1,
        (w16 ^^^ w 11 ^^^ w 5 ^^^ w 3).rotateLeft 1⟩ := rfl

/-- SHA1SU0 is an exclusive or of words. -/
theorem sha1su0_eq (d n m : Words) :
    words (sha1su0 d n m) = ⟨d.w0 ^^^ (d.w2 ^^^ m.w0), d.w1 ^^^ (d.w3 ^^^ m.w1),
      d.w2 ^^^ (n.w0 ^^^ m.w2), d.w3 ^^^ (n.w1 ^^^ m.w3)⟩ := by
  have hpair (a b c d e f : Word) :
      (a.setWidth 64 ||| b.setWidth 64 <<< 32) ^^^ ((c.setWidth 64 ||| d.setWidth 64 <<< 32) ^^^
        (e.setWidth 64 ||| f.setWidth 64 <<< 32)) =
      ((a ^^^ (c ^^^ e)).setWidth 64 ||| (b ^^^ (d ^^^ f)).setWidth 64 <<< 32 : BitVec 64) := by
    apply BitVec.eq_of_getLsbD_eq
    intro i hi
    simp only [BitVec.getLsbD_xor, BitVec.getLsbD_or, BitVec.getLsbD_setWidth,
      BitVec.getLsbD_shiftLeft, decide_eq_true hi, Bool.true_and]
    by_cases hlow : i < 32
    · simp [hlow]
    · simp [hlow, BitVec.getLsbD_of_ge _ i (by omega : 32 ≤ i), show i - 32 < 64 by omega]
  have hjoin (a b c d : Word) :
      (a.setWidth 64 ||| b.setWidth 64 <<< 32 : BitVec 64).setWidth 128 |||
        (c.setWidth 64 ||| d.setWidth 64 <<< 32 : BitVec 64).setWidth 128 <<< 64 =
      pack ⟨a, b, c, d⟩ := by
    apply BitVec.eq_of_getLsbD_eq
    intro i hi
    unfold pack
    simp only [BitVec.getLsbD_or, BitVec.getLsbD_setWidth, BitVec.getLsbD_shiftLeft,
      decide_eq_true hi, Bool.true_and]
    by_cases h32 : i < 32
    · simp [h32, show i < 64 by omega, show i < 96 by omega]
    by_cases h64 : i < 64
    · simp [h32, h64, show i < 96 by omega, show i - 32 < 128 by omega,
        show i - 32 < 64 by omega]
    by_cases h96 : i < 96
    · simp [h32, h64, h96, show i - 64 < 128 by omega, show i - 64 < 64 by omega,
        show i - 64 < 32 by omega, BitVec.getLsbD_of_ge a i (by omega),
        BitVec.getLsbD_of_ge _ (i - 32) (by omega : 32 ≤ i - 32)]
    · simp [h32, h64, h96, show i - 64 < 128 by omega, show i - 64 < 64 by omega,
        show i - 96 < 128 by omega, show ¬ i - 64 < 32 by omega, show i - 64 - 32 = i - 96 by omega,
        show i - 96 < 64 by omega, BitVec.getLsbD_of_ge a i (by omega),
        BitVec.getLsbD_of_ge _ (i - 32) (by omega : 32 ≤ i - 32),
        BitVec.getLsbD_of_ge _ (i - 64) (by omega : 32 ≤ i - 64)]
  unfold sha1su0
  dsimp only
  rw [hpair, hpair, hjoin, words_pack]

/-- SHA1SU0 and then SHA1SU1. -/
theorem sha1_schedule (q0 q1 q2 q3 : Words) :
    sha1su1 (words (sha1su0 q0 q1 q2)) q3 =
      pack (lastWords (next160^[4] (window q0 q1 q2 q3))) := by
  have hword (a b c d : Word) : a ^^^ (b ^^^ c) ^^^ d = d ^^^ c ^^^ b ^^^ a := by
    rw [BitVec.xor_comm, BitVec.xor_comm a, BitVec.xor_comm b, BitVec.xor_assoc, BitVec.xor_assoc,
      BitVec.xor_assoc]
  have hlast (a b c d : Word) : a ^^^ (b ^^^ c) ^^^ d = d ^^^ c ^^^ b ^^^ a := hword a b c d
  rw [lastWords_next160, sha1su0_eq]
  refine congrArg pack ?_
  show (⟨(q0.w0 ^^^ (q0.w2 ^^^ q2.w0) ^^^ q3.w1).rotateLeft 1,
    (q0.w1 ^^^ (q0.w3 ^^^ q2.w1) ^^^ q3.w2).rotateLeft 1,
    (q0.w2 ^^^ (q1.w0 ^^^ q2.w2) ^^^ q3.w3).rotateLeft 1,
    (q0.w3 ^^^ (q1.w1 ^^^ q2.w3) ^^^
      (q0.w0 ^^^ (q0.w2 ^^^ q2.w0) ^^^ q3.w1).rotateLeft 1).rotateLeft 1⟩ : Words) =
    ⟨(q3.w1 ^^^ q2.w0 ^^^ q0.w2 ^^^ q0.w0).rotateLeft 1,
      (q3.w2 ^^^ q2.w1 ^^^ q0.w3 ^^^ q0.w1).rotateLeft 1,
      (q3.w3 ^^^ q2.w2 ^^^ q1.w0 ^^^ q0.w2).rotateLeft 1,
      ((q3.w1 ^^^ q2.w0 ^^^ q0.w2 ^^^ q0.w0).rotateLeft 1 ^^^ q2.w3 ^^^ q1.w1 ^^^
        q0.w3).rotateLeft 1⟩
  rw [hword, hword, hword, hword]

/-! ## The instructions -/

variable {M : Type} [GuestMem M]

/-- **The SHA instructions are the algorithms.** SHA256H and SHA256H2 are four rounds of
    SHA-256, SHA1C, SHA1P and SHA1M with SHA1H four rounds of SHA-1, and SHA256SU0 before
    SHA256SU1, as SHA1SU0 before SHA1SU1, the next four words of a schedule. -/
theorem execute_sha (t : Target) (rest : VecUnit) (g : Guest M) (pc pc' : BitVec 64)
    (q0 q1 q2 q3 : Reg) :
    let s := state256 (words (g.cpu.v q0)) (words (g.cpu.v q1))
    let s1 := state160 (words (g.cpu.v q0)) (words (g.cpu.v q1)).w0
    let ks := (words (g.cpu.v q2)).toList
    (execute (vecUnit t rest) g (.cryptoSha3 4 q2 q1 q0) pc =
        some (none, g.setV q0 (pack (abcd256 (ks.foldl round256 s)))) ∧
      execute (vecUnit t rest) g (.cryptoSha3 5 q2 q0 q1) pc =
        some (none, g.setV q1 (pack (efgh256 (ks.foldl round256 s))))) ∧
    (∀ opcode ≤ 2, execute (vecUnit t rest) g (.cryptoSha3 opcode q2 q1 q0) pc =
        some (none, g.setV q0 (pack (abcd160 (ks.foldl (round160 (sha1Function opcode)) s1)))) ∧
      execute (vecUnit t rest) g (.cryptoSha2 0 q0 q3) pc =
        some (none, g.setV q3
          (pack ⟨(ks.foldl (round160 (sha1Function opcode)) s1).e, 0, 0, 0⟩))) ∧
    (q2 ≠ q0 → q3 ≠ q0 →
      let w := window (words (g.cpu.v q0)) (words (g.cpu.v q1)) (words (g.cpu.v q2))
        (words (g.cpu.v q3))
      (∃ g', execute (vecUnit t rest) g (.cryptoSha2 2 q1 q0) pc = some (none, g') ∧
        execute (vecUnit t rest) g' (.cryptoSha3 6 q3 q2 q0) pc' =
          some (none, g.setV q0 (pack (lastWords (next256^[4] w))))) ∧
      ∃ g', execute (vecUnit t rest) g (.cryptoSha3 3 q2 q1 q0) pc = some (none, g') ∧
        execute (vecUnit t rest) g' (.cryptoSha2 1 q3 q0) pc' =
          some (none, g.setV q0 (pack (lastWords (next160^[4] w))))) := by
  intro s s1 ks
  refine ⟨⟨?_, ?_⟩, ?_, ?_⟩
  · show some (none, g.setV q0 (sha256h (words (g.cpu.v q0)) (words (g.cpu.v q1))
      (words (g.cpu.v q2)) false)) = _
    rw [sha256h_eq]
  · show some (none, g.setV q1 (sha256h (words (g.cpu.v q1)) (words (g.cpu.v q0))
      (words (g.cpu.v q2)) true)) = _
    rw [sha256h2_eq]
  · intro opcode hopcode
    have hexec : execute (vecUnit t rest) g (.cryptoSha3 opcode q2 q1 q0) pc =
        some (none, g.setV q0 (pack (ks.foldl
          (fun (p : Words × Words) mi => sha1Body opcode mi p.1 p.2)
          (words (g.cpu.v q0), words (g.cpu.v q1))).1)) := by
      obtain rfl | rfl | rfl : opcode = 0 ∨ opcode = 1 ∨ opcode = 2 := by omega
      · rfl
      · rfl
      · rfl
    constructor
    · rw [hexec, sha1_eq]
    · show some (none, g.setV q3 (pack ⟨(words (g.cpu.v q0)).w0.rotateRight 2, 0, 0, 0⟩)) = _
      rw [sha1h_eq (sha1Function opcode) (words (g.cpu.v q0)) (words (g.cpu.v q2))
        (words (g.cpu.v q1)).w0]
  · intro h2 h3 w
    have hkeep (x : BitVec 128) {r : Reg} (hr : r ≠ q0) : (g.setV q0 x).cpu.v r = g.cpu.v r := by
      show Function.update g.cpu.v q0 x r = g.cpu.v r
      rw [Function.update_of_ne hr]
    have hnew (x : BitVec 128) : (g.setV q0 x).cpu.v q0 = x := by
      show Function.update g.cpu.v q0 x q0 = x
      rw [Function.update_self]
    have hset (x y : BitVec 128) : (g.setV q0 x).setV q0 y = g.setV q0 y := by
      unfold Guest.setV
      dsimp only
      rw [Function.update_idem]
    refine ⟨⟨_, rfl, ?_⟩, ⟨_, rfl, ?_⟩⟩
    · show some (none, (g.setV q0 (sha256su0 (words (g.cpu.v q0)) (words (g.cpu.v q1)))).setV q0
        (sha256su1
          (words ((g.setV q0 (sha256su0 (words (g.cpu.v q0)) (words (g.cpu.v q1)))).cpu.v q0))
          (words ((g.setV q0 (sha256su0 (words (g.cpu.v q0)) (words (g.cpu.v q1)))).cpu.v q2))
          (words ((g.setV q0 (sha256su0 (words (g.cpu.v q0)) (words (g.cpu.v q1)))).cpu.v q3)))) = _
      rw [hset, hnew, hkeep _ h2, hkeep _ h3, sha256_schedule]
    · show some (none, (g.setV q0 (sha1su0 (words (g.cpu.v q0)) (words (g.cpu.v q1))
          (words (g.cpu.v q2)))).setV q0 (sha1su1
        (words ((g.setV q0 (sha1su0 (words (g.cpu.v q0)) (words (g.cpu.v q1))
          (words (g.cpu.v q2)))).cpu.v q0))
        (words ((g.setV q0 (sha1su0 (words (g.cpu.v q0)) (words (g.cpu.v q1))
          (words (g.cpu.v q2)))).cpu.v q3)))) = _
      rw [hset, hnew, hkeep _ h3, sha1_schedule]

/-- A guest with the words 1 to 16 in V0 to V3. -/
def countGuest : Guest (Bus Empty) where
  cpu := { CpuState.new with
    v := fun r => pack ⟨BitVec.ofNat 32 (4 * r.val + 1), BitVec.ofNat 32 (4 * r.val + 2),
      BitVec.ofNat 32 (4 * r.val + 3), BitVec.ofNat 32 (4 * r.val + 4)⟩ }
  mem := ⟨⟨0, 0, fun _ => 0⟩, []⟩

theorem execute_sha_countGuest :
    ∃ g', execute (vecUnit Target.release64 fun _ _ => none) countGuest (.cryptoSha2 2 1 0) 0 =
        some (none, g') ∧
      execute (vecUnit Target.release64 fun _ _ => none) g' (.cryptoSha3 6 3 2 0) 4 =
        some (none, countGuest.setV 0 (pack (lastWords (next256^[4]
          (window (words (countGuest.cpu.v 0)) (words (countGuest.cpu.v 1))
            (words (countGuest.cpu.v 2)) (words (countGuest.cpu.v 3))))))) :=
  ((execute_sha Target.release64 (fun _ _ => none) countGuest 0 4 0 1 2 3).2.2 (by decide)
    (by decide)).1

end V64.Interp.Simd
