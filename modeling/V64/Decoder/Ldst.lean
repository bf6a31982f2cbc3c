import V64.Decoder.Bits

/-!
# Decoding loads and stores

Models of `crates/decoder/src/ldst.rs` and the class modules under `ldst/`.
-/

namespace V64.Decoder

open V64.Cpu (Reg)

/-- `is_prefetch` (`ldst.rs`, lines 66–68). -/
def isPrefetch (size opc : ℕ) : Bool := size == 3 && opc == 0b10

/-- `kind` (`ldst.rs`, lines 73–83): `(is_load, signed, dst64)`. -/
def kind (size opc : ℕ) : Option (Bool × Bool × Bool) :=
  match size, opc with
  | _, 0b00 => some (false, false, size == 3)
  | _, 0b01 => some (true, false, size == 3)
  | 3, 0b10 | 3, 0b11 | 2, 0b11 => none
  | _, 0b10 => some (true, true, true)
  | _, 0b11 => some (true, true, false)
  | _, _ => none

/-- `vec_kind` (`ldst.rs`, lines 87–99): `(is_load, log2_bytes)`. -/
def vecKind (size opc : ℕ) : Option (Bool × ℕ) :=
  let isLoad := opc &&& 1 == 1
  if opc &&& 0b10 ≠ 0 then
    if size = 0 then some (isLoad, 4) else none
  else some (isLoad, size)

/-- The operand kinds `(size, is_load, signed, dst64, vec)` that the
    single-register classes share: `vec_kind` for `V = 1`, else `kind`. -/
def regKind (word : BitVec 32) : Option (ℕ × Bool × Bool × Bool × Bool) :=
  let size := field word 30 2
  let opc := field word 22 2
  if field word 26 1 = 1 then
    (vecKind size opc).map fun (isLoad, log2) => (log2, isLoad, false, false, true)
  else (kind size opc).map fun (isLoad, signed, dst64) => (size, isLoad, signed, dst64, false)

/-- The integer prefetch forms, `PRFM`, of the classes that have them. -/
def isPrefetchWord (word : BitVec 32) : Bool :=
  field word 26 1 != 1 && isPrefetch (field word 30 2) (field word 22 2)

/-- `Insn::LoadStore` for a decoded kind and addressing mode. -/
def loadStoreOf (word : BitVec 32) (unpriv : Bool) (addr : ℕ → AddrMode) : Insn :=
  match regKind word with
  | none => .unsupported word
  | some (size, isLoad, signed, dst64, vec) =>
    .loadStore size isLoad signed dst64 vec unpriv (regField word 0) (addr size)

/-- `uimm::decode` (`ldst/uimm.rs`). -/
def decodeUimm (word : BitVec 32) : Insn :=
  if isPrefetchWord word then .prfm
  else
    loadStoreOf word false fun size =>
      .unsignedImm (regField word 5) (BitVec.ofNat 64 (field word 10 12) <<< size)

/-- `unscaled::decode` (`ldst/unscaled.rs`). -/
def decodeUnscaled (word : BitVec 32) (unpriv : Bool) : Insn :=
  if isPrefetchWord word then .prfm
  else loadStoreOf word unpriv fun _ => .unscaled (regField word 5) (sfield word 12 9)

/-- `post::decode` (`ldst/post.rs`). -/
def decodePost (word : BitVec 32) : Insn :=
  loadStoreOf word false fun _ => .postIndex (regField word 5) (sfield word 12 9)

/-- `pre::decode` (`ldst/pre.rs`). -/
def decodePre (word : BitVec 32) : Insn :=
  loadStoreOf word false fun _ => .preIndex (regField word 5) (sfield word 12 9)

/-- `reg::decode` (`ldst/reg.rs`). The kind is resolved before the `option` field
    is checked; both failures are the same `Unsupported`. -/
def decodeReg (word : BitVec 32) : Insn :=
  let option := field word 13 3
  if isPrefetchWord word then .prfm
  else if option &&& 0b010 = 0 then .unsupported word
  else
    loadStoreOf word false fun size =>
      .regOffset (regField word 5) (regField word 16) option
        (if field word 12 1 = 1 then size else 0)

/-- `literal::decode` (`ldst/literal.rs`). -/
def decodeLiteral (word : BitVec 32) : Insn :=
  let load (size : ℕ) (signed dst64 vec : Bool) : Insn :=
    .loadStore size true signed dst64 vec false (regField word 0)
      (.literal (sfield word 5 19 * 4))
  if field word 26 1 = 1 then
    match field word 30 2 with
    | 0b00 => load 2 false false true
    | 0b01 => load 3 false false true
    | 0b10 => load 4 false false true
    | _ => .unsupported word
  else
    match field word 30 2 with
    | 0b00 => load 2 false false false
    | 0b01 => load 3 false true false
    | 0b10 => load 2 true true false
    | _ => .prfm

/-- `pair::decode` (`ldst/pair.rs`). -/
def decodePair (word : BitVec 32) : Insn :=
  let idx := field word 23 3
  let index : Option PairIndex := match idx with
    | 0b000 | 0b010 => some .offset
    | 0b001 => some .post
    | 0b011 => some .pre
    | _ => none
  let isLoad := flag word 22
  let vec := flag word 26
  let shape : Option (Bool × Bool × ℕ) :=
    if vec then
      match field word 30 2 with
      | 0b00 => some (false, false, 2)
      | 0b01 => some (false, false, 3)
      | 0b10 => some (false, false, 4)
      | _ => none
    else
      match field word 30 2 with
      | 0b00 => some (false, false, 2)
      | 0b10 => some (true, false, 3)
      | 0b01 => if isLoad && idx != 0b000 then some (false, true, 2) else none
      | _ => none
  match index, shape with
  | some index, some (width8, signed, vesize) =>
    .loadStorePair isLoad signed width8 vec vesize (regField word 0) (regField word 10)
      (regField word 5) (sfield word 15 7 <<< vesize) index
  | _, _ => .unsupported word

/-- `atomic::decode` (`ldst/atomic.rs`). -/
def decodeAtomic (word : BitVec 32) : Insn :=
  let o3 := field word 15 1
  let opc := field word 12 3
  let size := field word 30 2
  let rmw (op : ℕ) : Insn :=
    .atomicRmw size op (regField word 16) (regField word 5) (regField word 0)
  if o3 = 1 ∧ opc = 0b100 ∧ field word 23 1 = 1 ∧ field word 22 1 = 0 ∧
      field word 16 5 = 0b11111 then
    .loadStore size true false (size == 3) false false (regField word 0)
      (.unsignedImm (regField word 5) 0)
  else
    match o3, opc with
    | 0, n => rmw n
    | 1, 0 => rmw 8
    | _, _ => .unsupported word

/-- `excl::decode` (`ldst/excl.rs`). -/
def decodeExcl (word : BitVec 32) : Insn :=
  let o2 := field word 23 1
  let l := field word 22 1
  let o1 := field word 21 1
  let o0 := field word 15 1
  let rs := field word 16 5
  let rt2 := field word 10 5
  let size := field word 30 2
  let rt := regField word 0
  let rn := regField word 5
  if o2 = 1 ∧ o1 = 1 ∧ rt2 = 0b11111 then .compareSwap size (regField word 16) rn rt
  else if o2 = 0 ∧ o1 = 1 ∧ rt2 = 0b11111 then
    .compareSwapPair (field word 30 1) (regField word 16) rn rt
  else if o2 = 1 ∧ o1 = 0 ∧ o0 = 1 ∧ rs = 0b11111 ∧ rt2 = 0b11111 then
    .loadStore size (l == 1) false (size == 3) false false rt (.unsignedImm rn 0)
  else if o2 = 0 ∧ o1 = 0 ∧ rt2 = 0b11111 then
    if l = 1 then .loadExclusive size rt rn else .storeExclusive size (regField word 16) rt rn
  else if o2 = 0 ∧ o1 = 1 then
    if l = 1 then .loadExclusivePair size rt (regField word 10) rn
    else .storeExclusivePair size (regField word 16) rt (regField word 10) rn
  else .unsupported word

/-- `structs::multiple` (`ldst/structs.rs`, lines 15–50). -/
def decodeStructMultiple (word : BitVec 32) : Insn :=
  let postidx := flag word 23
  let rm := regField word 16
  let size := field word 10 2
  let q := flag word 30
  let shape : Option (ℕ × ℕ) := match field word 12 4 with
    | 0x0 => some (1, 4)
    | 0x2 => some (4, 1)
    | 0x4 => some (1, 3)
    | 0x6 => some (3, 1)
    | 0x7 => some (1, 1)
    | 0x8 => some (1, 2)
    | 0xa => some (2, 1)
    | _ => none
  if field word 31 1 = 1 ∨ field word 21 1 = 1 then .unsupported word
  else if !postidx && rm != 0 then .unsupported word
  else
    match shape with
    | none => .unsupported word
    | some (rpt, selem) =>
      if size == 3 && !q && selem != 1 then .unsupported word
      else
        .simdLdStMulti (flag word 22) q postidx rm (regField word 5) (regField word 0) size rpt
          selem

/-- `structs::single` (`ldst/structs.rs`, lines 52–117). -/
def decodeStructSingle (word : BitVec 32) : Insn :=
  let postidx := flag word 23
  let rm := regField word 16
  let size := field word 10 2
  let sBit := field word 12 1
  let opc := field word 13 3
  let isLoad := flag word 22
  let q := flag word 30
  let selem := (((opc &&& 1) <<< 1) ||| field word 21 1) + 1
  let index := ((field word 30 1) <<< 3) ||| (sBit <<< 2) ||| size
  let single (replicate : Bool) (scale index : ℕ) : Insn :=
    .simdLdStSingle isLoad replicate postidx rm (regField word 5) (regField word 0) scale selem
      index q
  if field word 31 1 = 1 then .unsupported word
  else if !postidx && rm != 0 then .unsupported word
  else
    match opc >>> 1 with
    | 3 => if !isLoad || sBit == 1 then .unsupported word else single true size index
    | 0 => single false 0 index
    | 1 => if size &&& 1 = 1 then .unsupported word else single false 1 (index >>> 1)
    | _ =>
      if size &&& 2 ≠ 0 then .unsupported word
      else if size &&& 1 = 0 then single false 2 (index >>> 2)
      else if sBit = 1 then .unsupported word
      else single false 3 (index >>> 3)

/-- `structs::decode` (`ldst/structs.rs`, lines 7–13). -/
def decodeStructs (word : BitVec 32) : Insn :=
  if field word 24 1 = 0 then decodeStructMultiple word else decodeStructSingle word

/-- `register_form` (`ldst.rs`, lines 42–61). -/
def decodeRegisterForm (word : BitVec 32) : Insn :=
  match field word 24 2 with
  | 0b01 => decodeUimm word
  | 0b00 =>
    match flag word 21, field word 10 2 with
    | true, 0b10 => decodeReg word
    | true, 0b00 => decodeAtomic word
    | false, 0b00 => decodeUnscaled word false
    | false, 0b01 => decodePost word
    | false, 0b11 => decodePre word
    | false, 0b10 => decodeUnscaled word true
    | _, _ => .unsupported word
  | _ => .unsupported word

/-- `ldst::decode` (`ldst.rs`, lines 21–39). -/
def decodeLdst (word : BitVec 32) : Insn :=
  if field word 24 6 = 0b001000 then decodeExcl word
  else if field word 26 4 = 0b0011 ∧ field word 25 1 = 0 then decodeStructs word
  else
    match field word 27 3 with
    | 0b111 => decodeRegisterForm word
    | 0b011 => if field word 24 2 = 0b00 then decodeLiteral word else .unsupported word
    | 0b101 => decodePair word
    | _ => .unsupported word

end V64.Decoder
