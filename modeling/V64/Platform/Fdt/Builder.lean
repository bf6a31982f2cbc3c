import V64.Lib.Bytes
import V64.Lib.Stream

/-!
# Building a flattened device tree

Model of `FdtBuilder` in `crates/platform/src/fdt.rs`. A `&str` is the list of its
bytes, and the map from the property names to their offsets a partial function. The
sizes and offsets are the `u32` of a build without overflow checks.

* `padTo4_append`: the padding loop fills up to a multiple of four.
* `struct_beginNode`, `struct_prop`: what a call appends to the structure block.
-/

namespace V64.Platform

/-- A `&str`, by `as_bytes`. -/
abbrev Str := List (BitVec 8)

/-- The bytes of a literal. -/
def utf8 (s : String) : Str := s.toUTF8.data.toList.map UInt8.toBitVec

/-- `FDT_BEGIN_NODE` (line 12). -/
def fdtBeginNode : BitVec 32 := 0x1

/-- `FDT_END_NODE` (line 13). -/
def fdtEndNode : BitVec 32 := 0x2

/-- `FDT_PROP` (line 14). -/
def fdtProp : BitVec 32 := 0x3

/-- `FDT_END` (line 15). -/
def fdtEnd : BitVec 32 := 0x9

/-- `FDT_MAGIC` (line 17). -/
def fdtMagic : BitVec 32 := 0xd00dfeed

/-- `FDT_VERSION` (line 18). -/
def fdtVersion : BitVec 32 := 17

/-- `FDT_LAST_COMP_VERSION` (line 19). -/
def fdtLastCompVersion : BitVec 32 := 16

/-- `u32::to_be_bytes`. -/
abbrev toBeBytes (v : BitVec 32) : List (BitVec 8) := Bytes.toBe 4 v

/-- `FdtBuilder` (lines 24–29). -/
structure FdtBuilder where
  struct : List (BitVec 8)
  strings : List (BitVec 8)
  stringOffsets : Str → Option (BitVec 32)

/-- The loop of `pad_to_4`, for at most `fuel` turns. -/
def padLoop : (fuel : ℕ) → List (BitVec 8) → List (BitVec 8)
  | 0, v => v
  | fuel + 1, v => if v.length % 4 = 0 then v else padLoop fuel (v ++ [0])

/-- `FdtBuilder::pad_to_4` (lines 37–41). Three turns are enough. -/
def padTo4 (v : List (BitVec 8)) : List (BitVec 8) := padLoop 3 v

namespace FdtBuilder

/-- `FdtBuilder::new` (lines 33–35). -/
def new : FdtBuilder where
  struct := []
  strings := []
  stringOffsets := fun _ => none

/-- `FdtBuilder::intern` (lines 44–53). -/
def intern (fdt : FdtBuilder) (name : Str) : BitVec 32 × FdtBuilder :=
  match fdt.stringOffsets name with
  | some off => (off, fdt)
  | none =>
    let off := BitVec.ofNat 32 fdt.strings.length
    (off, { fdt with
      strings := fdt.strings ++ name ++ [0]
      stringOffsets := Function.update fdt.stringOffsets name (some off) })

/-- `FdtBuilder::begin_node` (lines 56–61). -/
def beginNode (fdt : FdtBuilder) (name : Str) : FdtBuilder :=
  { fdt with struct := padTo4 (fdt.struct ++ toBeBytes fdtBeginNode ++ name ++ [0]) }

/-- `FdtBuilder::end_node` (lines 64–66). -/
def endNode (fdt : FdtBuilder) : FdtBuilder :=
  { fdt with struct := fdt.struct ++ toBeBytes fdtEndNode }

/-- `FdtBuilder::prop` (lines 69–76). -/
def prop (fdt : FdtBuilder) (name : Str) (value : List (BitVec 8)) : FdtBuilder :=
  let (nameoff, fdt) := fdt.intern name
  { fdt with
    struct := padTo4 (fdt.struct ++ toBeBytes fdtProp ++
      toBeBytes (BitVec.ofNat 32 value.length) ++ toBeBytes nameoff ++ value) }

/-- `FdtBuilder::prop_empty` (lines 79–81). -/
def propEmpty (fdt : FdtBuilder) (name : Str) : FdtBuilder := fdt.prop name []

/-- `FdtBuilder::prop_u32` (lines 83–85). -/
def propU32 (fdt : FdtBuilder) (name : Str) (v : BitVec 32) : FdtBuilder :=
  fdt.prop name (toBeBytes v)

/-- `FdtBuilder::prop_u64` (lines 87–89). -/
def propU64 (fdt : FdtBuilder) (name : Str) (v : BitVec 64) : FdtBuilder :=
  fdt.prop name (Bytes.toBe 8 v)

/-- `FdtBuilder::prop_cells` (lines 92–98). -/
def propCells (fdt : FdtBuilder) (name : Str) (cells : List (BitVec 32)) : FdtBuilder :=
  fdt.prop name (cells.flatMap toBeBytes)

/-- `FdtBuilder::prop_str` (lines 101–105). -/
def propStr (fdt : FdtBuilder) (name s : Str) : FdtBuilder := fdt.prop name (s ++ [0])

/-- `FdtBuilder::prop_strlist` (lines 108–115). -/
def propStrlist (fdt : FdtBuilder) (name : Str) (items : List Str) : FdtBuilder :=
  fdt.prop name (items.flatMap fun s => s ++ [0])

/-- `HEADER_LEN` (line 123). -/
def headerLen : BitVec 32 := 40

/-- The words of the header (lines 127–146) for a structure block and a strings block of
    these lengths, in the order they are written. -/
def headerWords (structLen stringsLen : ℕ) : List (BitVec 32) :=
  let offMemRsvmap := headerLen
  let offDtStruct := offMemRsvmap + 16
  let sizeDtStruct := BitVec.ofNat 32 structLen
  let offDtStrings := offDtStruct + sizeDtStruct
  let sizeDtStrings := BitVec.ofNat 32 stringsLen
  let totalsize := offDtStrings + sizeDtStrings
  [fdtMagic, totalsize, offDtStruct, offDtStrings, offMemRsvmap, fdtVersion,
    fdtLastCompVersion, 0, sizeDtStrings, sizeDtStruct]

/-- `FdtBuilder::finish` (lines 120–153): header, reservation map, structure, strings. -/
def finish (fdt : FdtBuilder) : List (BitVec 8) :=
  let struct := fdt.struct ++ toBeBytes fdtEnd
  (headerWords struct.length fdt.strings.length).flatMap toBeBytes ++ List.replicate 16 0 ++
    struct ++ fdt.strings

end FdtBuilder

/-! ## Padding -/

/-- A field with its padding. -/
def fill (bs : List (BitVec 8)) : List (BitVec 8) :=
  bs ++ List.replicate (Stream.padding 4 bs.length) 0

theorem length_fill (bs : List (BitVec 8)) : (fill bs).length % 4 = 0 := by
  rw [fill, List.length_append, List.length_replicate]
  exact Stream.padding_add 4 _ (by decide)

theorem padLoop_eq {fuel : ℕ} {v : List (BitVec 8)} (h : Stream.padding 4 v.length ≤ fuel) :
    padLoop fuel v = fill v := by
  unfold fill
  induction fuel generalizing v with
  | zero =>
    rw [Nat.le_zero.mp h, List.replicate_zero, List.append_nil]
    rfl
  | succ fuel ih =>
    rw [padLoop]
    split_ifs with haligned
    · have hpad : Stream.padding 4 v.length = 0 := by
        unfold Stream.padding
        omega
      rw [hpad, List.replicate_zero, List.append_nil]
    · -- one byte more, one byte of padding less
      have hpad : Stream.padding 4 v.length = Stream.padding 4 (v ++ [0]).length + 1 := by
        unfold Stream.padding
        rw [List.length_append, List.length_singleton]
        omega
      rw [ih (by omega), hpad, List.replicate_succ, List.append_assoc, List.singleton_append]

theorem padTo4_append {v : List (BitVec 8)} (h : v.length % 4 = 0) (bs : List (BitVec 8)) :
    padTo4 (v ++ bs) = v ++ fill bs := by
  have hlt := Stream.padding_lt 4 (v ++ bs).length (by decide)
  rw [padTo4, padLoop_eq (Nat.le_of_lt_succ hlt), fill, fill, List.length_append,
    Stream.padding_add_left _ h, List.append_assoc]

/-! ## Tokens -/

/-- What `begin_node` writes. -/
def beginToken (name : Str) : List (BitVec 8) := toBeBytes fdtBeginNode ++ fill (name ++ [0])

/-- What `prop` writes for a name at `nameoff`. -/
def propToken (nameoff : BitVec 32) (value : List (BitVec 8)) : List (BitVec 8) :=
  toBeBytes fdtProp ++
    (toBeBytes (BitVec.ofNat 32 value.length) ++ (toBeBytes nameoff ++ fill value))

theorem length_beginToken (name : Str) : (beginToken name).length % 4 = 0 := by
  have hfill := length_fill (name ++ [0])
  rw [beginToken, List.length_append, Bytes.length_toBe]
  omega

theorem length_propToken (nameoff : BitVec 32) (value : List (BitVec 8)) :
    (propToken nameoff value).length % 4 = 0 := by
  have hfill := length_fill value
  rw [propToken, List.length_append, List.length_append, List.length_append, Bytes.length_toBe,
    Bytes.length_toBe, Bytes.length_toBe]
  omega

namespace FdtBuilder

variable {fdt : FdtBuilder}

theorem struct_beginNode (h : fdt.struct.length % 4 = 0) (name : Str) :
    (fdt.beginNode name).struct = fdt.struct ++ beginToken name := by
  have htoken : (fdt.struct ++ toBeBytes fdtBeginNode).length % 4 = 0 := by
    rw [List.length_append, Bytes.length_toBe]
    omega
  rw [beginNode, beginToken, List.append_assoc _ name, padTo4_append htoken, List.append_assoc]

theorem struct_intern (fdt : FdtBuilder) (name : Str) :
    (fdt.intern name).2.struct = fdt.struct := by
  unfold intern
  cases fdt.stringOffsets name <;> rfl

theorem struct_prop (h : fdt.struct.length % 4 = 0) (name : Str) (value : List (BitVec 8)) :
    (fdt.prop name value).struct = fdt.struct ++ propToken (fdt.intern name).1 value := by
  have htoken : (fdt.struct ++ toBeBytes fdtProp ++ toBeBytes (BitVec.ofNat 32 value.length) ++
      toBeBytes (fdt.intern name).1).length % 4 = 0 := by
    rw [List.length_append, List.length_append, List.length_append, Bytes.length_toBe,
      Bytes.length_toBe, Bytes.length_toBe]
    omega
  rw [prop, propToken]
  dsimp only
  rw [struct_intern, padTo4_append htoken, List.append_assoc, List.append_assoc, List.append_assoc]

end FdtBuilder

end V64.Platform
