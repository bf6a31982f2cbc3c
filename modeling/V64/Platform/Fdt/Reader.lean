import V64.Platform.Fdt.Builder

/-!
# Reading a flattened device tree

What a tree says to a reader of the format, version 17: the header with the offsets and
sizes of the three blocks, the reservation map, and the structure block with its names
in the strings block. A token at an offset that is not a multiple of four, a name
without an end, padding that is not zero and a block outside of the blob are errors.

* `Items`: what a node holds, in order.
* `read`: the reader. With `strict` it insists on the properties of a node before its
  subnodes.
* `Encodes`, `readItems_of_encodes`: a run of tokens for given items is read as them.
-/

namespace V64.Platform.Fdt

open Stream

/-- The items of a node, in order: its properties and its subnodes. -/
inductive Items (α : Type) where
  | done
  | prop (name : Str) (value : α) (rest : Items α)
  | node (name : Str) (items rest : Items α)
  deriving DecidableEq

/-- The items with their values seen through `f`. -/
def Items.map {α β : Type} (f : α → β) : Items α → Items β
  | .done => .done
  | .prop name value rest => .prop name (f value) (rest.map f)
  | .node name items rest => .node name (items.map f) (rest.map f)

/-- The property values of a blob. -/
abbrev Blob := List (BitVec 8)

/-- A tree as it is read: its reservations and its root node. -/
structure DeviceTree where
  reserved : List (BitVec 64 × BitVec 64)
  name : Str
  items : Items Blob
  deriving DecidableEq

/-! ## Words -/

/-- The 32-bit word at `pos`. -/
def word (bs : Blob) (pos : ℕ) : Option (BitVec 32) := (slice bs pos 4).map (Bytes.ofBe 32)

/-- The 64-bit word at `pos`. -/
def wide (bs : Blob) (pos : ℕ) : Option (BitVec 64) := (slice bs pos 8).map (Bytes.ofBe 64)

/-- The token at `pos`, which is aligned. -/
def token (bs : Blob) (pos : ℕ) : Option (BitVec 32) := if pos % 4 = 0 then word bs pos else none

/-- The offset after the padding at `pos`, which is zero. -/
def skipPadding (bs : Blob) (pos : ℕ) : Option ℕ :=
  if slice bs pos (padding 4 pos) = some (List.replicate (padding 4 pos) 0) then
    some (pos + padding 4 pos)
  else none

/-! ## The structure block -/

/-- The token that a reader skips. -/
def fdtNop : BitVec 32 := 0x4

/-- The items from `pos` up to the token `stop`, and the offset behind it. `nodes` says that
    there was a subnode before. -/
def readItems (strict : Bool) (strings struct : Blob) :
    (fuel : ℕ) → (stop : BitVec 32) → (nodes : Bool) → (pos : ℕ) → Option (Items Blob × ℕ)
  | 0, _, _, _ => none
  | fuel + 1, stop, nodes, pos => do
    let tok ← token struct pos
    if tok = stop then return (.done, pos + 4)
    else if tok = fdtNop then readItems strict strings struct fuel stop nodes (pos + 4)
    else if tok = fdtProp ∧ ¬(strict ∧ nodes) then
      let len ← word struct (pos + 4)
      let nameoff ← word struct (pos + 8)
      let value ← slice struct (pos + 12) len.toNat
      let name ← terminated 0 strings nameoff.toNat
      let pos ← skipPadding struct (pos + 12 + len.toNat)
      let (rest, pos) ← readItems strict strings struct fuel stop nodes pos
      return (.prop name value rest, pos)
    else if tok = fdtBeginNode then
      let name ← terminated 0 struct (pos + 4)
      let pos ← skipPadding struct (pos + 4 + (name.length + 1))
      let (items, pos) ← readItems strict strings struct fuel fdtEndNode false pos
      let (rest, pos) ← readItems strict strings struct fuel stop true pos
      return (.node name items rest, pos)
    else none

/-- The structure block holds one node and ends behind `FDT_END`. -/
def readStruct (strict : Bool) (strings struct : Blob) : Option (Str × Items Blob) := do
  let (items, pos) ← readItems strict strings struct struct.length fdtEnd false 0
  match items with
  | .node name items .done => if pos = struct.length then some (name, items) else none
  | _ => none

/-! ## The blob -/

/-- The header of a blob. -/
structure Header where
  magic : BitVec 32
  totalsize : BitVec 32
  offDtStruct : BitVec 32
  offDtStrings : BitVec 32
  offMemRsvmap : BitVec 32
  version : BitVec 32
  lastCompVersion : BitVec 32
  bootCpuidPhys : BitVec 32
  sizeDtStrings : BitVec 32
  sizeDtStruct : BitVec 32

def readHeader (blob : Blob) : Option Header := do
  return {
    magic := ← word blob 0
    totalsize := ← word blob 4
    offDtStruct := ← word blob 8
    offDtStrings := ← word blob 12
    offMemRsvmap := ← word blob 16
    version := ← word blob 20
    lastCompVersion := ← word blob 24
    bootCpuidPhys := ← word blob 28
    sizeDtStrings := ← word blob 32
    sizeDtStruct := ← word blob 36 }

/-- The entries of the reservation map from `pos` up to the zero entry, and the offset
    behind it. -/
def readRsvmap (blob : Blob) : (fuel : ℕ) → (pos : ℕ) → Option (List (BitVec 64 × BitVec 64) × ℕ)
  | 0, _ => none
  | fuel + 1, pos => do
    let address ← wide blob pos
    let size ← wide blob (pos + 8)
    if address = 0 ∧ size = 0 then return ([], pos + 16)
    let (rest, pos) ← readRsvmap blob fuel (pos + 16)
    return ((address, size) :: rest, pos)

/-- A header of this version, for a blob of `size` bytes whose reservation map ends at
    `rsvEnd`: its blocks are aligned, apart from each other and inside of the blob. -/
structure Header.WellFormed (h : Header) (rsvEnd size : ℕ) : Prop where
  magic : h.magic = 0xd00dfeed
  version : h.lastCompVersion.toNat ≤ 17 ∧ 17 ≤ h.version.toNat
  totalsize : h.totalsize.toNat = size
  rsvmapAligned : h.offMemRsvmap.toNat % 8 = 0
  structAligned : h.offDtStruct.toNat % 4 = 0 ∧ h.sizeDtStruct.toNat % 4 = 0
  rsvmap : 40 ≤ h.offMemRsvmap.toNat
  struct : rsvEnd ≤ h.offDtStruct.toNat
  strings : h.offDtStruct.toNat + h.sizeDtStruct.toNat ≤ h.offDtStrings.toNat
  size : h.offDtStrings.toNat + h.sizeDtStrings.toNat ≤ size

instance (h : Header) (rsvEnd size : ℕ) : Decidable (h.WellFormed rsvEnd size) :=
  decidable_of_iff (h.magic = 0xd00dfeed ∧
    (h.lastCompVersion.toNat ≤ 17 ∧ 17 ≤ h.version.toNat) ∧ h.totalsize.toNat = size ∧
    h.offMemRsvmap.toNat % 8 = 0 ∧
    (h.offDtStruct.toNat % 4 = 0 ∧ h.sizeDtStruct.toNat % 4 = 0) ∧
    40 ≤ h.offMemRsvmap.toNat ∧ rsvEnd ≤ h.offDtStruct.toNat ∧
    h.offDtStruct.toNat + h.sizeDtStruct.toNat ≤ h.offDtStrings.toNat ∧
    h.offDtStrings.toNat + h.sizeDtStrings.toNat ≤ size)
    ⟨fun ⟨h1, h2, h3, h4, h5, h6, h7, h8, h9⟩ => ⟨h1, h2, h3, h4, h5, h6, h7, h8, h9⟩,
      fun ⟨h1, h2, h3, h4, h5, h6, h7, h8, h9⟩ => ⟨h1, h2, h3, h4, h5, h6, h7, h8, h9⟩⟩

/-- The tree of a blob. -/
def read (strict : Bool) (blob : Blob) : Option DeviceTree := do
  let h ← readHeader blob
  let (reserved, rsvEnd) ← readRsvmap blob blob.length h.offMemRsvmap.toNat
  if h.WellFormed rsvEnd blob.length then
    let struct ← slice blob h.offDtStruct.toNat h.sizeDtStruct.toNat
    let strings ← slice blob h.offDtStrings.toNat h.sizeDtStrings.toNat
    let (name, items) ← readStruct strict strings struct
    return ⟨reserved, name, items⟩
  else none

/-! ## Runs of tokens -/

/-- The properties of each node come before its subnodes; `nodes` says that there was a
    subnode before. -/
def Items.PropsFirst {α : Type} : (nodes : Bool) → Items α → Prop
  | _, .done => True
  | nodes, .prop _ _ rest => nodes = false ∧ rest.PropsFirst nodes
  | _, .node _ items rest => items.PropsFirst false ∧ rest.PropsFirst true

/-- No name holds a zero byte. -/
def Items.NulFree {α : Type} : Items α → Prop
  | .done => True
  | .prop name _ rest => 0 ∉ name ∧ rest.NulFree
  | .node name items rest => 0 ∉ name ∧ items.NulFree ∧ rest.NulFree

/-- `struct` is a run of tokens for the items, with the property names in `strings`. -/
inductive Encodes (strings : Blob) : Blob → Items Blob → Prop where
  | done : Encodes strings [] .done
  | prop {name : Str} {value : Blob} {rest : Items Blob} {bs : Blob} {off : ℕ}
      (hname : At strings off (name ++ [0])) (hrest : Encodes strings bs rest) :
      Encodes strings (propToken (BitVec.ofNat 32 off) value ++ bs) (.prop name value rest)
  | node {name : Str} {items rest : Items Blob} {bs bs' : Blob}
      (hitems : Encodes strings bs items) (hrest : Encodes strings bs' rest) :
      Encodes strings (beginToken name ++ (bs ++ (toBeBytes fdtEndNode ++ bs')))
        (.node name items rest)

theorem Encodes.length_mod {strings bs : Blob} {items : Items Blob} (h : Encodes strings bs items) :
    bs.length % 4 = 0 := by
  induction h with
  | done => rfl
  | @prop _ value _ _ off _ _ ih =>
    have htoken := length_propToken (BitVec.ofNat 32 off) value
    rw [List.length_append]
    omega
  | @node name _ _ _ _ _ _ ih ih' =>
    have htoken := length_beginToken name
    rw [List.length_append, List.length_append, List.length_append, Bytes.length_toBe]
    omega

theorem word_of_at {bs : Blob} {pos : ℕ} {v : BitVec 32} (h : At bs pos (toBeBytes v)) :
    word bs pos = some v := by
  have hslice := slice_of_at h
  rw [Bytes.length_toBe] at hslice
  rw [word, hslice, Option.map_some, Bytes.ofBe_toBe _ _ (by decide)]

theorem token_of_at {bs : Blob} {pos : ℕ} {v : BitVec 32} (h : At bs pos (toBeBytes v))
    (hpos : pos % 4 = 0) : token bs pos = some v := by
  rw [token, if_pos hpos, word_of_at h]

theorem skipPadding_of_at {bs : Blob} {pos : ℕ} {part : Blob} (h : At bs pos (fill part))
    (hpos : pos % 4 = 0) :
    skipPadding bs (pos + part.length) = some (pos + (fill part).length) := by
  have hpad : padding 4 (pos + part.length) = padding 4 part.length := padding_add_left _ hpos
  have hslice := slice_of_at h.right
  rw [List.length_replicate] at hslice
  rw [skipPadding, hpad, if_pos hslice, fill, List.length_append, List.length_replicate,
    Nat.add_assoc]

section Reader

variable {strict nodes : Bool} {strings struct : Blob} {fuel pos : ℕ} {stop : BitVec 32}

/-- At its stop token the reader is done. -/
theorem readItems_done (hat : At struct pos (toBeBytes stop)) (hpos : pos % 4 = 0) :
    readItems strict strings struct (fuel + 1) stop nodes pos = some (.done, pos + 4) := by
  unfold readItems
  rw [token_of_at hat hpos]
  dsimp only [Option.bind_eq_bind, Option.bind_some]
  rw [if_pos rfl]
  rfl

/-- One turn of the reader at a property. -/
theorem readItems_prop (hstrings : strings.length ≤ 2 ^ 32) (hstruct : struct.length ≤ 2 ^ 32)
    (hstop : stop = fdtEndNode ∨ stop = fdtEnd) (hfirst : ¬(strict ∧ nodes)) {off : ℕ} {name : Str}
    {value : Blob} (hat : At struct pos (propToken (BitVec.ofNat 32 off) value))
    (hpos : pos % 4 = 0) (hname : At strings off (name ++ [0])) (hnul : 0 ∉ name) :
    readItems strict strings struct (fuel + 1) stop nodes pos =
      (readItems strict strings struct fuel stop nodes
        (pos + (propToken (BitVec.ofNat 32 off) value).length)).map
        fun r => (.prop name value r.1, r.2) := by
  have htoken := token_of_at hat.left hpos
  have hlenAt := hat.right
  rw [Bytes.length_toBe] at hlenAt
  have hlen := word_of_at hlenAt.left
  have hoffAt := hlenAt.right
  rw [Bytes.length_toBe] at hoffAt
  have hoff := word_of_at hoffAt.left
  have hfillAt := hoffAt.right
  rw [Bytes.length_toBe] at hfillAt
  -- the sizes fit their words
  have hvalueLt : value.length < 2 ^ 32 := by
    have hle := hfillAt.left.le_length
    omega
  have hvalueNat : (BitVec.ofNat 32 value.length).toNat = value.length := by
    rw [BitVec.toNat_ofNat, Nat.mod_eq_of_lt hvalueLt]
  have hoffNat : (BitVec.ofNat 32 off).toNat = off := by
    have hle := hname.le_length
    rw [List.length_append, List.length_singleton] at hle
    rw [BitVec.toNat_ofNat, Nat.mod_eq_of_lt (by omega)]
  have hvalue := slice_of_at hfillAt.left
  have hpadding := skipPadding_of_at hfillAt (by omega)
  have hend : pos + 4 + 4 + 4 + (fill value).length =
      pos + (propToken (BitVec.ofNat 32 off) value).length := by
    rw [propToken, List.length_append, List.length_append, List.length_append,
      Bytes.length_toBe, Bytes.length_toBe, Bytes.length_toBe]
    omega
  rw [hend] at hpadding
  have hne : fdtProp ≠ stop ∧ fdtProp ≠ fdtNop := by
    rcases hstop with rfl | rfl <;> decide
  rw [readItems, htoken]
  simp only [Option.bind_eq_bind, Option.bind_some]
  rw [if_neg hne.1, if_neg hne.2, if_pos ⟨trivial, hfirst⟩, hlen, hoff]
  simp only [Option.bind_some, hvalueNat, hoffNat, terminated_of_at hname hnul]
  rw [hvalue]
  simp only [Option.bind_some]
  rw [hpadding]
  simp only [Option.bind_some, Option.map_eq_bind]
  rfl

/-- One turn of the reader at a subnode. -/
theorem readItems_node (hstop : stop = fdtEndNode ∨ stop = fdtEnd) {name : Str}
    (hat : At struct pos (beginToken name)) (hpos : pos % 4 = 0) (hnul : 0 ∉ name) :
    readItems strict strings struct (fuel + 1) stop nodes pos =
      (readItems strict strings struct fuel fdtEndNode false
          (pos + (beginToken name).length)).bind fun r =>
        (readItems strict strings struct fuel stop true r.2).map
          fun r' => (.node name r.1 r'.1, r'.2) := by
  have htoken := token_of_at hat.left hpos
  have hfillAt := hat.right
  rw [Bytes.length_toBe] at hfillAt
  have hname := terminated_of_at hfillAt.left hnul
  have hpadding := skipPadding_of_at hfillAt (by omega)
  have hend : pos + 4 + (fill (name ++ [0])).length = pos + (beginToken name).length := by
    rw [beginToken, List.length_append, Bytes.length_toBe]
    omega
  rw [hend, List.length_append, List.length_singleton] at hpadding
  have hne : fdtBeginNode ≠ stop ∧ fdtBeginNode ≠ fdtNop ∧ fdtBeginNode ≠ fdtProp := by
    rcases hstop with rfl | rfl <;> decide
  rw [readItems, htoken]
  simp only [Option.bind_eq_bind, Option.bind_some]
  rw [if_neg hne.1, if_neg hne.2.1, if_neg fun h => hne.2.2 h.1, if_pos trivial, hname]
  simp only [Option.bind_some]
  rw [hpadding]
  simp only [Option.bind_some, Option.map_eq_bind]
  rfl

/-- A run of tokens is read as its items. -/
theorem readItems_of_encodes (hstrings : strings.length ≤ 2 ^ 32)
    (hstruct : struct.length ≤ 2 ^ 32) {bs : Blob} {items : Items Blob}
    (h : Encodes strings bs items) (hnul : items.NulFree)
    (hfirst : strict = true → items.PropsFirst nodes)
    (hstop : stop = fdtEndNode ∨ stop = fdtEnd) (hat : At struct pos (bs ++ toBeBytes stop))
    (hpos : pos % 4 = 0) (hfuel : bs.length < fuel) :
    readItems strict strings struct fuel stop nodes pos = some (items, pos + bs.length + 4) := by
  induction h generalizing nodes fuel pos stop with
  | done =>
    obtain ⟨fuel, rfl⟩ : ∃ f, fuel = f + 1 := ⟨fuel - 1, by omega⟩
    exact readItems_done hat hpos
  | @prop name value rest bs off hname hrest ih =>
    obtain ⟨fuel, rfl⟩ : ∃ f, fuel = f + 1 := ⟨fuel - 1, by omega⟩
    rw [List.append_assoc] at hat
    have hmod := length_propToken (BitVec.ofNat 32 off) value
    have hpositive : 0 < (propToken (BitVec.ofNat 32 off) value).length := by
      rw [propToken, List.length_append, Bytes.length_toBe]
      omega
    rw [List.length_append] at hfuel
    have hord : ¬(strict ∧ nodes) := by
      rintro ⟨hs, hn⟩
      have hcase := (hfirst hs).1
      rw [hn] at hcase
      exact Bool.noConfusion hcase
    rw [readItems_prop hstrings hstruct hstop hord hat.left hpos hname hnul.1,
      ih hnul.2 (fun hs => (hfirst hs).2) hstop hat.right (by omega) (by omega),
      List.length_append, Option.map_some, Nat.add_assoc pos]
  | @node name items rest bs bs' hitems hrest ih ih' =>
    obtain ⟨fuel, rfl⟩ : ∃ f, fuel = f + 1 := ⟨fuel - 1, by omega⟩
    rw [List.append_assoc, List.append_assoc, List.append_assoc] at hat
    have hmod := length_beginToken name
    have hmod' := hitems.length_mod
    rw [List.length_append, List.length_append, List.length_append, Bytes.length_toBe] at hfuel
    have hinner : At struct (pos + (beginToken name).length) (bs ++ toBeBytes fdtEndNode) := by
      have hbody := hat.right
      rw [← List.append_assoc bs] at hbody
      exact hbody.left
    have hafter : At struct (pos + (beginToken name).length + bs.length + 4)
        (bs' ++ toBeBytes stop) := by
      have htail := hat.right.right.right
      rw [Bytes.length_toBe] at htail
      exact htail
    rw [readItems_node hstop hat.left hpos hnul.1,
      ih hnul.2.1 (fun hs => (hfirst hs).1) (.inl rfl) hinner (by omega) (by omega),
      Option.bind_some, ih' hnul.2.2 (fun hs => (hfirst hs).2) hstop hafter (by omega) (by omega),
      Option.map_some, List.length_append, List.length_append, List.length_append,
      Bytes.length_toBe]
    have hend : pos + (beginToken name).length + bs.length + 4 + bs'.length + 4 =
        pos + ((beginToken name).length + (bs.length + (4 + bs'.length))) + 4 := by omega
    rw [hend]

end Reader

end V64.Platform.Fdt
