import V64.Decoder.Insn

/-!
# Bit fields and bitmask immediates

Models of `crates/decoder/src/bits.rs` and `crates/decoder/src/bitmask.rs`.
Fields are read as natural numbers, `field_lt` bounds them.
-/

namespace V64.Decoder

open V64.Cpu (Reg)

/-- `field` (`bits.rs`, lines 11–13). -/
def field (word : BitVec 32) (lsb len : ℕ) : ℕ := (word >>> lsb).toNat % 2 ^ len

theorem field_lt (word : BitVec 32) (lsb len : ℕ) : field word lsb len < 2 ^ len :=
  Nat.mod_lt _ (Nat.two_pow_pos len)

/-- `field(word, lsb, len) == 1` for the one-bit flags. -/
def flag (word : BitVec 32) (lsb : ℕ) : Bool := field word lsb 1 == 1

/-- `sf` (`bits.rs`, lines 5–7). -/
def sf (word : BitVec 32) : Bool := flag word 31

/-- `sfield` (`bits.rs`, lines 17–21). -/
def sfield (word : BitVec 32) (lsb len : ℕ) : BitVec 64 :=
  (BitVec.ofNat len (field word lsb len)).signExtend 64

/-- `field(word, lsb, 5) as u8`: a register number. -/
def regField (word : BitVec 32) (lsb : ℕ) : Reg := ⟨field word lsb 5, field_lt word lsb 5⟩

/-- A register operand of the decoded word keeps the exact width `n` of its field. -/
def rawField (word : BitVec 32) (lsb n : ℕ) : BitVec n := BitVec.ofNat n (field word lsb n)

/-! ## `DecodeBitMasks` -/

/-- `ones` (`bitmask.rs`, lines 10–16). -/
def ones (len : ℕ) : BitVec 64 := if len ≥ 64 then BitVec.allOnes 64 else (1 <<< len) - 1

/-- `ror_within` (`bitmask.rs`, lines 19–25). -/
def rorWithin (val : BitVec 64) (r esize : ℕ) : BitVec 64 :=
  if r = 0 then val else ((val >>> r) ||| (val <<< (esize - r))) &&& ones esize

/-- The `while e < 64` loop of `replicate`; `e` doubles, so from `esize ≥ 2` it
    runs at most five times. -/
def replicateLoop : (fuel : ℕ) → (elem : BitVec 64) → (e : ℕ) → BitVec 64
  | 0, elem, _ => elem
  | fuel + 1, elem, e =>
    if e < 64 then replicateLoop fuel (elem ||| (elem <<< e)) (e * 2) else elem

/-- `replicate` (`bitmask.rs`, lines 28–35). -/
def replicate (elem : BitVec 64) (esize : ℕ) : BitVec 64 := replicateLoop 6 elem esize

/-- `decode_bit_masks` (`bitmask.rs`, lines 42–71): `(wmask, tmask)`. The index
    of the highest set bit of `x` is `31 - x.leading_zeros()`. -/
def decodeBitMasks (n imms immr : ℕ) (immediate : Bool) : Option (BitVec 64 × BitVec 64) :=
  let x := (n <<< 6) ||| (imms ^^^ 0x3f)
  if x = 0 then none
  else
    let len := Nat.log2 x
    if len < 1 then none
    else
      let esize := 1 <<< len
      let levels := esize - 1
      let s := imms &&& levels
      let r := immr &&& levels
      if immediate && s == levels then none
      else
        let diff := (s + 2 ^ 32 - r) &&& levels
        let welem := ones (s + 1)
        let telem := ones (diff + 1)
        some (replicate (rorWithin welem r esize) esize, replicate telem esize)

end V64.Decoder
