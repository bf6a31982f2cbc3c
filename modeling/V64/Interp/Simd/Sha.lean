import V64.Interp.Simd.Lanes

/-!
# SHA-1 and SHA-256

Model of `crates/interp/src/simd/sha.rs`. The arrays of four words are `Words`.
-/

namespace V64.Interp.Simd

open V64.Cpu V64.Decoder

/-- `[u32; 4]`. -/
structure Words where
  w0 : BitVec 32
  w1 : BitVec 32
  w2 : BitVec 32
  w3 : BitVec 32
  deriving DecidableEq

/-- `words` (lines 6–8). -/
def words (v : BitVec 128) : Words :=
  ⟨v.setWidth 32, (v >>> 32).setWidth 32, (v >>> 64).setWidth 32, (v >>> 96).setWidth 32⟩

/-- `pack` (lines 9–11). -/
def pack (w : Words) : BitVec 128 :=
  w.w0.setWidth 128 ||| (w.w1.setWidth 128 <<< 32) ||| (w.w2.setWidth 128 <<< 64) |||
    (w.w3.setWidth 128 <<< 96)

/-- `cho` (lines 13–15). -/
def cho (x y z : BitVec 32) : BitVec 32 := (x &&& (y ^^^ z)) ^^^ z

/-- `maj` (lines 16–18). -/
def maj (x y z : BitVec 32) : BitVec 32 := (x &&& y) ||| ((x ||| y) &&& z)

/-- `par` (lines 19–21). -/
def par (x y z : BitVec 32) : BitVec 32 := x ^^^ y ^^^ z

/-- `big_s0` (lines 22–24). -/
def bigS0 (x : BitVec 32) : BitVec 32 := x.rotateRight 2 ^^^ x.rotateRight 13 ^^^ x.rotateRight 22

/-- `big_s1` (lines 25–27). -/
def bigS1 (x : BitVec 32) : BitVec 32 := x.rotateRight 6 ^^^ x.rotateRight 11 ^^^ x.rotateRight 25

/-- `sml_s0` (lines 28–30). -/
def smlS0 (x : BitVec 32) : BitVec 32 := x.rotateRight 7 ^^^ x.rotateRight 18 ^^^ (x >>> 3)

/-- `sml_s1` (lines 31–33). -/
def smlS1 (x : BitVec 32) : BitVec 32 := x.rotateRight 17 ^^^ x.rotateRight 19 ^^^ (x >>> 10)

/-- The loop body for SHA256H (`part2 = false`) and the word `mi` of `m`. -/
def sha256hBody (mi : BitVec 32) (d n : Words) : Words × Words :=
  let t := cho n.w0 n.w1 n.w2 + n.w3 + bigS1 n.w0 + mi
  let n : Words := ⟨d.w3 + t, n.w0, n.w1, n.w2⟩
  let t := t + maj d.w0 d.w1 d.w2 + bigS0 d.w0
  (⟨t, d.w0, d.w1, d.w2⟩, n)

/-- The loop body for SHA256H2 (`part2 = true`), for the words `mi` of `m` and `ni` of
    `n`. -/
def sha256h2Body (mi ni : BitVec 32) (d : Words) : Words :=
  let t := cho d.w0 d.w1 d.w2 + d.w3 + bigS1 d.w0 + mi
  ⟨ni + t, d.w0, d.w1, d.w2⟩

/-- `sha256h` (lines 86–114). -/
def sha256h (d n m : Words) (part2 : Bool) : BitVec 128 :=
  if part2 then
    pack ([(m.w0, n.w3), (m.w1, n.w2), (m.w2, n.w1), (m.w3, n.w0)].foldl
      (fun d p => sha256h2Body p.1 p.2 d) d)
  else
    pack ([m.w0, m.w1, m.w2, m.w3].foldl
      (fun (p : Words × Words) mi => sha256hBody mi p.1 p.2) (d, n)).1

/-- The loop body of SHA1C, SHA1P and SHA1M. -/
def sha1Body (opcode : ℕ) (mi : BitVec 32) (d nn : Words) : Words × Words :=
  let f := match opcode with
    | 0 => cho d.w1 d.w2 d.w3
    | 1 => par d.w1 d.w2 d.w3
    | _ => maj d.w1 d.w2 d.w3
  let t := f + d.w0.rotateLeft 5 + nn.w0 + mi
  (⟨t, d.w0, d.w1.rotateRight 2, d.w2⟩, { nn with w0 := d.w3 })

/-- SHA1SU0, on pairs of words. -/
def sha1su0 (d n m : Words) : BitVec 128 :=
  let pair (lo hi : BitVec 32) : BitVec 64 := lo.setWidth 64 ||| (hi.setWidth 64 <<< 32)
  let dl0 := pair d.w0 d.w1
  let dl1 := pair d.w2 d.w3
  let nl := pair n.w0 n.w1
  let ml0 := pair m.w0 m.w1
  let ml1 := pair m.w2 m.w3
  let dl0 := dl0 ^^^ (dl1 ^^^ ml0)
  let dl1 := dl1 ^^^ (nl ^^^ ml1)
  dl0.setWidth 128 ||| (dl1.setWidth 128 <<< 64)

/-- SHA256SU1, in place. -/
def sha256su1 (d n m : Words) : BitVec 128 :=
  let d := { d with w0 := d.w0 + smlS1 m.w2 + n.w1 }
  let d := { d with w1 := d.w1 + smlS1 m.w3 + n.w2 }
  let d := { d with w2 := d.w2 + smlS1 d.w0 + n.w3 }
  let d := { d with w3 := d.w3 + smlS1 d.w1 + m.w0 }
  pack d

/-- `three_reg` (lines 35–83). -/
def threeReg (w : VecView) (opcode : ℕ) (rm rn rd : Reg) : VecView :=
  let d := words (w.v rd)
  let n := words (w.v rn)
  let m := words (w.v rm)
  w.setV rd <| match opcode with
    | 3 => sha1su0 d n m
    | 0 | 1 | 2 =>
      pack ([m.w0, m.w1, m.w2, m.w3].foldl
        (fun (p : Words × Words) mi => sha1Body opcode mi p.1 p.2) (d, n)).1
    | 4 => sha256h d n m false
    | 5 => sha256h d n m true
    | _ => sha256su1 d n m

/-- SHA1SU1, in place. -/
def sha1su1 (d m : Words) : BitVec 128 :=
  let d := { d with w0 := (d.w0 ^^^ m.w1).rotateLeft 1 }
  let d := { d with w1 := (d.w1 ^^^ m.w2).rotateLeft 1 }
  let d := { d with w2 := (d.w2 ^^^ m.w3).rotateLeft 1 }
  let d := { d with w3 := (d.w3 ^^^ d.w0).rotateLeft 1 }
  pack d

/-- SHA256SU0, in place. -/
def sha256su0 (d m : Words) : BitVec 128 :=
  let d := { d with w0 := d.w0 + smlS0 d.w1 }
  let d := { d with w1 := d.w1 + smlS0 d.w2 }
  let d := { d with w2 := d.w2 + smlS0 d.w3 }
  let d := { d with w3 := d.w3 + smlS0 m.w0 }
  pack d

/-- `two_reg` (lines 116–143). -/
def twoReg (w : VecView) (opcode : ℕ) (rn rd : Reg) : VecView :=
  let m := words (w.v rn)
  let d := words (w.v rd)
  w.setV rd <| match opcode with
    | 0 => pack ⟨m.w0.rotateRight 2, 0, 0, 0⟩
    | 1 => sha1su1 d m
    | _ => sha256su0 d m

end V64.Interp.Simd
