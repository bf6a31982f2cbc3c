import V64.Interp.Simd.Lanes

/-!
# Copies and immediates

Models of `crates/interp/src/simd/copy.rs`, `dup.rs` and `mod_imm.rs`.
-/

namespace V64.Interp

open V64.Cpu V64.Decoder

/-- `cpu.read_gpr(idx, false)`. -/
def VecView.readGpr (w : VecView) (idx : Reg) : BitVec 64 :=
  if h : idx.val < 31 then w.x ⟨idx.val, h⟩ else 0

/-- `cpu.write_gpr(idx, false, val)`. -/
def VecView.writeGpr (w : VecView) (idx : Reg) (val : BitVec 64) : VecView :=
  if h : idx.val < 31 then { w with x := Function.update w.x ⟨idx.val, h⟩ val } else w

namespace Simd

/-! ## `copy.rs` -/

/-- `elem_mask` (lines 5–11). -/
def elemMask (ebits : ℕ) : BitVec 128 :=
  if ebits ≥ 128 then BitVec.allOnes 128 else (1 <<< ebits) - 1

/-- `get_lane` (lines 13–15). -/
def getLane (v : BitVec 128) (index ebits : ℕ) : BitVec 128 :=
  (v >>> (index * ebits)) &&& elemMask ebits

/-- `set_lane` (lines 17–20). -/
def setLane (v : BitVec 128) (index ebits : ℕ) (elem : BitVec 128) : BitVec 128 :=
  let shift := index * ebits
  (v &&& ~~~(elemMask ebits <<< shift)) ||| ((elem &&& elemMask ebits) <<< shift)

/-- The loop that replicates an element, here and in `dup.rs`. -/
def replicateElem (elem : BitVec 128) (n ebits : ℕ) : BitVec 128 :=
  (List.range n).foldl (fun v i => v ||| (elem <<< (i * ebits))) 0

/-- `dup_element` (lines 23–33). -/
def dupElement (w : VecView) (q : Bool) (size index : ℕ) (rn rd : Reg) : VecView :=
  let ebits := 8 <<< size
  let elem := getLane (w.v rn) index ebits
  w.setV rd (replicateElem elem ((if q then 128 else 64) / ebits) ebits)

/-- `ins_general` (lines 36–41). -/
def insGeneral (w : VecView) (size index : ℕ) (rn rd : Reg) : VecView :=
  let ebits := 8 <<< size
  let elem := (w.readGpr rn).setWidth 128
  w.setV rd (setLane (w.v rd) index ebits elem)

/-- `ins_element` (lines 44–49). -/
def insElement (w : VecView) (size dst src : ℕ) (rn rd : Reg) : VecView :=
  let ebits := 8 <<< size
  let elem := getLane (w.v rn) src ebits
  w.setV rd (setLane (w.v rd) dst ebits elem)

/-- `mov_to_gpr` (lines 52–75). -/
def movToGpr (w : VecView) (signed dst64 : Bool) (size index : ℕ) (vn rd : Reg) : VecView :=
  let ebits := 8 <<< size
  let elem := (getLane (w.v vn) index ebits).setWidth 64
  let val : BitVec 64 :=
    if signed then
      let s := 64 - ebits
      (elem <<< s).sshiftRight s
    else elem
  if dst64 then w.writeGpr rd val else w.writeGpr rd (val &&& 0xffffffff#64)

/-! ## `dup.rs` -/

/-- `dup::exec` (lines 5–21). -/
def dupGeneral (w : VecView) (q : Bool) (size : ℕ) (rn rd : Reg) : VecView :=
  let ebits := 8 <<< size
  let src := w.readGpr rn
  let elem : BitVec 128 :=
    if ebits ≥ 64 then src.setWidth 128 else (src &&& ((1 <<< ebits) - 1)).setWidth 128
  w.setV rd (replicateElem elem ((if q then 128 else 64) / ebits) ebits)

/-! ## `mod_imm.rs` -/

/-- `rep32` of `expand`. -/
def rep32 (v : BitVec 64) : BitVec 64 := (v &&& 0xffffffff) ||| ((v &&& 0xffffffff) <<< 32)

/-- `rep16` of `expand`. -/
def rep16 (v : BitVec 64) : BitVec 64 :=
  let h := v &&& 0xffff
  h ||| (h <<< 16) ||| (h <<< 32) ||| (h <<< 48)

/-- `expand_imm_s` (`fp.rs`, lines 369–376). -/
def expandImmS (imm8 : BitVec 8) : BitVec 32 :=
  let a : BitVec 32 := (imm8 >>> 7).setWidth 32 &&& 1
  let b : BitVec 32 := (imm8 >>> 6).setWidth 32 &&& 1
  let rep5 : BitVec 32 := if b = 1 then 0b11111 else 0
  let exp := ((b ^^^ 1) <<< 7) ||| (rep5 <<< 2) ||| ((imm8 >>> 4).setWidth 32 &&& 0b11)
  let frac := (imm8.setWidth 32 &&& 0xf) <<< 19
  (a <<< 31) ||| (exp <<< 23) ||| frac

/-- `expand_imm_d` (`fp.rs`, lines 379–386). -/
def expandImmD (imm8 : BitVec 8) : BitVec 64 :=
  let a : BitVec 64 := (imm8 >>> 7).setWidth 64 &&& 1
  let b : BitVec 64 := (imm8 >>> 6).setWidth 64 &&& 1
  let rep8 : BitVec 64 := if b = 1 then 0xff else 0
  let exp := ((b ^^^ 1) <<< 10) ||| (rep8 <<< 2) ||| ((imm8 >>> 4).setWidth 64 &&& 0b11)
  let frac := (imm8.setWidth 64 &&& 0xf) <<< 48
  (a <<< 63) ||| (exp <<< 52) ||| frac

/-- `expand` (lines 43–90). -/
def expand (op : Bool) (cmode : ℕ) (imm8 : BitVec 8) : BitVec 64 :=
  let i : BitVec 64 := imm8.setWidth 64
  match cmode >>> 1 with
  | 0b000 => rep32 i
  | 0b001 => rep32 (i <<< 8)
  | 0b010 => rep32 (i <<< 16)
  | 0b011 => rep32 (i <<< 24)
  | 0b100 => rep16 i
  | 0b101 => rep16 (i <<< 8)
  | 0b110 =>
    let v := if cmode &&& 1 = 0 then (i <<< 8) ||| 0xff else (i <<< 16) ||| 0xffff
    rep32 v
  | _ =>
    if cmode &&& 1 = 0 then
      if !op then (List.range 8).foldl (fun v k => v ||| (i <<< (8 * k))) 0
      else
        (List.range 8).foldl
          (fun v k =>
            if (imm8 >>> k) &&& 1#8 = 1#8 then v ||| ((0xff : BitVec 64) <<< (8 * k)) else v)
          0
    else if !op then
      let s := (expandImmS imm8).setWidth 64
      s ||| (s <<< 32)
    else expandImmD imm8

/-- `mod_imm::exec` (lines 5–40). -/
def modImm (w : VecView) (q op : Bool) (cmode : ℕ) (imm8 : BitVec 8) (rd : Reg) : VecView :=
  let imm := expand op cmode imm8
  let val : BitVec 128 :=
    if q then (imm.setWidth 128 <<< 64) ||| imm.setWidth 128 else imm.setWidth 128
  let cmodeHi := cmode >>> 1
  let result :=
    if cmodeHi ≤ 0b101 ∧ cmode &&& 1 = 1 then
      if op then w.v rd &&& ~~~val else w.v rd ||| val
    else if op ∧ cmodeHi ≤ 0b110 then ~~~val
    else val
  let mask := if q then BitVec.allOnes 128 else lowHalf
  w.setV rd (result &&& mask)

end Simd

end V64.Interp
