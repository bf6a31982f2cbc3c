import V64.Platform.Fdt.Reader

/-!
# The blob of a tree is read as the tree

A tree emitted through the builder. The builder's calls and the reader meet at
`Encodes`: every call appends to the run of tokens, and the property names of the run
stay where they are in the strings block, since both blocks only grow.

* `PropValue`: the values by the helper that writes them.
* `Emitted`, `emitted`: what emitting items does to a builder.
* `read_finish`: a finished builder is read as its run of tokens.
* `read_build`: the round trip.
-/

namespace V64.Platform.Fdt

open Stream

/-! ## Trees -/

/-- A property value, by the helper that writes it. -/
inductive PropValue where
  | raw (value : Blob)
  | empty
  | u32 (v : BitVec 32)
  | u64 (v : BitVec 64)
  | cells (cs : List (BitVec 32))
  | str (s : Str)
  | strlist (items : List Str)

namespace PropValue

/-- The call that adds the property. -/
def emit (fdt : FdtBuilder) (name : Str) : PropValue → FdtBuilder
  | raw value => fdt.prop name value
  | empty => fdt.propEmpty name
  | u32 v => fdt.propU32 name v
  | u64 v => fdt.propU64 name v
  | cells cs => fdt.propCells name cs
  | str s => fdt.propStr name s
  | strlist items => fdt.propStrlist name items

/-- The bytes of the value. -/
def bytes : PropValue → Blob
  | raw value => value
  | empty => []
  | u32 v => Bytes.toBe 4 v
  | u64 v => Bytes.toBe 8 v
  | cells cs => cs.flatMap (Bytes.toBe 4)
  | str s => s ++ [0]
  | strlist items => items.flatMap fun s => s ++ [0]

theorem emit_eq (fdt : FdtBuilder) (name : Str) (v : PropValue) :
    v.emit fdt name = fdt.prop name v.bytes := by
  cases v <;> rfl

end PropValue

/-- The calls that emit the items of a node, in order. -/
def Items.emit : Items PropValue → FdtBuilder → FdtBuilder
  | .done, fdt => fdt
  | .prop name value rest, fdt => rest.emit (value.emit fdt name)
  | .node name items rest, fdt => rest.emit (items.emit (fdt.beginNode name)).endNode

/-- The blob of the tree with the root node `name`. -/
def build (name : Str) (items : Items PropValue) : Blob :=
  ((items.emit (FdtBuilder.new.beginNode name)).endNode).finish

theorem Items.nulFree_map {α β : Type} (f : α → β) {items : Items α} (h : items.NulFree) :
    (items.map f).NulFree := by
  induction items with
  | done => trivial
  | prop name value rest ih => exact ⟨h.1, ih h.2⟩
  | node name items rest ih ih' => exact ⟨h.1, ih h.2.1, ih' h.2.2⟩

theorem Items.propsFirst_map {α β : Type} (f : α → β) {items : Items α} {nodes : Bool}
    (h : items.PropsFirst nodes) : (items.map f).PropsFirst nodes := by
  induction items generalizing nodes with
  | done => trivial
  | prop name value rest ih => exact ⟨h.1, ih h.2⟩
  | node name items rest ih ih' => exact ⟨ih h.1, ih' h.2⟩

/-! ## Names -/

/-- Every interned name stands in the strings block where its offset says. -/
def Interned (fdt : FdtBuilder) : Prop :=
  ∀ name off, fdt.stringOffsets name = some off →
    ∃ n, off = BitVec.ofNat 32 n ∧ At fdt.strings n (name ++ [0])

theorem interned_new : Interned .new := nofun

/-- The step of `intern`: the name stands where its offset says, and so do the others. -/
theorem intern_spec {fdt : FdtBuilder} (h : Interned fdt) (name : Str) :
    Interned (fdt.intern name).2 ∧ fdt.strings <+: (fdt.intern name).2.strings ∧
      ∃ n, (fdt.intern name).1 = BitVec.ofNat 32 n ∧
        At (fdt.intern name).2.strings n (name ++ [0]) := by
  unfold FdtBuilder.intern
  cases hfound : fdt.stringOffsets name with
  | some off => exact ⟨h, List.prefix_rfl, h name off hfound⟩
  | none =>
    have hstrings : fdt.strings <+: fdt.strings ++ (name ++ [0]) := List.prefix_append _ _
    have hname : At (fdt.strings ++ (name ++ [0])) fdt.strings.length (name ++ [0]) :=
      at_append _ _
    dsimp only
    rw [List.append_assoc]
    refine ⟨?_, hstrings, _, rfl, hname⟩
    intro other off hother
    dsimp only at hother
    by_cases heq : other = name
    · subst heq
      rw [Function.update_self] at hother
      exact ⟨_, (Option.some.inj hother).symm, hname⟩
    · rw [Function.update_of_ne heq] at hother
      obtain ⟨n, hoff, hat⟩ := h other off hother
      exact ⟨n, hoff, hat.mono hstrings⟩

/-- A run of tokens stays one when the strings block grows. -/
theorem Encodes.mono {strings strings' bs : Blob} {items : Items Blob}
    (h : Encodes strings bs items) (hgrows : strings <+: strings') :
    Encodes strings' bs items := by
  induction h with
  | done => exact .done
  | prop hname _ ih => exact .prop (hname.mono hgrows) ih
  | node _ _ ih ih' => exact .node ih ih'

/-! ## Emitting -/

/-- `fdt'` is `fdt` with a run of tokens for the items appended. -/
structure Emitted (fdt fdt' : FdtBuilder) (items : Items Blob) : Prop where
  struct : ∃ bs, fdt'.struct = fdt.struct ++ bs ∧ Encodes fdt'.strings bs items
  strings : fdt.strings <+: fdt'.strings
  interned : Interned fdt'

theorem emitted {fdt : FdtBuilder} (hinterned : Interned fdt) (hmod : fdt.struct.length % 4 = 0)
    (items : Items PropValue) : Emitted fdt (items.emit fdt) (items.map PropValue.bytes) := by
  induction items generalizing fdt with
  | done => exact ⟨⟨[], (List.append_nil _).symm, .done⟩, List.prefix_rfl, hinterned⟩
  | prop name value rest ih =>
    obtain ⟨hinterned1, hgrows1, n, hoff, hname⟩ := intern_spec hinterned name
    have hstruct1 := FdtBuilder.struct_prop hmod name value.bytes
    rw [hoff] at hstruct1
    have htoken := length_propToken (BitVec.ofNat 32 n) value.bytes
    have hmod1 : (fdt.prop name value.bytes).struct.length % 4 = 0 := by
      rw [hstruct1, List.length_append]
      omega
    obtain ⟨⟨bs, hstruct, hencodes⟩, hgrows, hfinal⟩ :=
      @ih (fdt.prop name value.bytes) hinterned1 hmod1
    rw [Items.emit, PropValue.emit_eq]
    refine ⟨⟨_, ?_, .prop (hname.mono hgrows) hencodes⟩, hgrows1.trans hgrows, hfinal⟩
    rw [hstruct, hstruct1, List.append_assoc]
  | node name items rest ih ih' =>
    have hstruct1 := FdtBuilder.struct_beginNode hmod name
    have htoken := length_beginToken name
    have hmod1 : (fdt.beginNode name).struct.length % 4 = 0 := by
      rw [hstruct1, List.length_append]
      omega
    obtain ⟨⟨bs, hstruct2, hencodes⟩, hgrows2, hinterned2⟩ :=
      @ih (fdt.beginNode name) hinterned hmod1
    have hmod3 : (items.emit (fdt.beginNode name)).endNode.struct.length % 4 = 0 := by
      have hrun := hencodes.length_mod
      rw [FdtBuilder.endNode, List.length_append, hstruct2, List.length_append, Bytes.length_toBe]
      omega
    obtain ⟨⟨bs', hstruct, hencodes'⟩, hgrows, hfinal⟩ :=
      @ih' (items.emit (fdt.beginNode name)).endNode hinterned2 hmod3
    rw [Items.emit]
    refine ⟨⟨_, ?_, .node (hencodes.mono hgrows) hencodes'⟩, hgrows2.trans hgrows, hfinal⟩
    rw [hstruct, FdtBuilder.endNode, hstruct2, hstruct1]
    simp only [List.append_assoc]

/-! ## The header -/

theorem length_flatMap_toBeBytes (ws : List (BitVec 32)) :
    (ws.flatMap toBeBytes).length = 4 * ws.length := by
  induction ws with
  | nil => rfl
  | cons w ws ih =>
    rw [List.flatMap_cons, List.length_append, ih, Bytes.length_toBe, List.length_cons]
    omega

theorem word_flatMap {ws : List (BitVec 32)} {i : ℕ} {w : BitVec 32} (h : ws[i]? = some w)
    (tail : Blob) : word (ws.flatMap toBeBytes ++ tail) (4 * i) = some w := by
  obtain ⟨hi, hw⟩ := List.getElem?_eq_some_iff.mp h
  refine word_of_at ⟨(ws.take i).flatMap toBeBytes, (ws.drop (i + 1)).flatMap toBeBytes ++ tail,
    ?_, ?_⟩
  · conv_lhs => rw [← List.take_append_drop i ws, List.drop_eq_getElem_cons hi, hw]
    rw [List.flatMap_append, List.flatMap_cons, List.append_assoc, List.append_assoc]
  · rw [length_flatMap_toBeBytes, List.length_take, Nat.min_eq_left hi.le]

/-- The header of a finished builder. -/
def header (structLen stringsLen : ℕ) : Header where
  magic := fdtMagic
  totalsize := 56 + BitVec.ofNat 32 structLen + BitVec.ofNat 32 stringsLen
  offDtStruct := 56
  offDtStrings := 56 + BitVec.ofNat 32 structLen
  offMemRsvmap := 40
  version := fdtVersion
  lastCompVersion := fdtLastCompVersion
  bootCpuidPhys := 0
  sizeDtStrings := BitVec.ofNat 32 stringsLen
  sizeDtStruct := BitVec.ofNat 32 structLen

theorem readHeader_headerWords (structLen stringsLen : ℕ) (tail : Blob) :
    readHeader ((FdtBuilder.headerWords structLen stringsLen).flatMap toBeBytes ++ tail) =
      some (header structLen stringsLen) := by
  have hword : ∀ i w, (FdtBuilder.headerWords structLen stringsLen)[i]? = some w →
      word ((FdtBuilder.headerWords structLen stringsLen).flatMap toBeBytes ++ tail) (4 * i) =
        some w := fun i w h => word_flatMap h tail
  unfold readHeader
  rw [hword 0 _ rfl, hword 1 _ rfl, hword 2 _ rfl, hword 3 _ rfl, hword 4 _ rfl, hword 5 _ rfl,
    hword 6 _ rfl, hword 7 _ rfl, hword 8 _ rfl, hword 9 _ rfl]
  rfl

theorem toNat_offDtStrings {structLen : ℕ} (h : 56 + structLen < 2 ^ 32) :
    (56 + BitVec.ofNat 32 structLen : BitVec 32).toNat = 56 + structLen := by
  rw [BitVec.toNat_add, BitVec.toNat_ofNat]
  change (56 + structLen % 2 ^ 32) % 2 ^ 32 = _
  omega

/-- Below 4 GiB the sums of the header do not wrap. -/
theorem wellFormed_header {structLen stringsLen : ℕ} (hmod : structLen % 4 = 0)
    (hsize : 56 + structLen + stringsLen < 2 ^ 32) :
    (header structLen stringsLen).WellFormed 56 (56 + structLen + stringsLen) := by
  have hstrings := @toNat_offDtStrings structLen (by omega)
  have hstructNat : (BitVec.ofNat 32 structLen).toNat = structLen := by
    rw [BitVec.toNat_ofNat, Nat.mod_eq_of_lt (by omega)]
  have hstringsNat : (BitVec.ofNat 32 stringsLen).toNat = stringsLen := by
    rw [BitVec.toNat_ofNat, Nat.mod_eq_of_lt (by omega)]
  have htotal : (56 + BitVec.ofNat 32 structLen + BitVec.ofNat 32 stringsLen : BitVec 32).toNat =
      56 + structLen + stringsLen := by
    rw [BitVec.toNat_add, hstrings, hstringsNat, Nat.mod_eq_of_lt hsize]
  have hversion : fdtLastCompVersion.toNat ≤ 17 ∧ 17 ≤ fdtVersion.toNat := by decide
  have hrsvmap : (40 : BitVec 32).toNat = 40 := rfl
  have hstruct : (56 : BitVec 32).toNat = 56 := rfl
  unfold header
  constructor
  · rfl
  · exact hversion
  · exact htotal
  · rw [hrsvmap]
  · rw [hstruct, hstructNat]
    exact ⟨rfl, hmod⟩
  · rw [hrsvmap]
  · rw [hstruct]
  · rw [hstruct, hstrings, hstructNat]
  · rw [hstrings, hstringsNat]

/-- The reservation map of a finished builder is empty. -/
theorem readRsvmap_zeros {blob : Blob} {pos : ℕ} (h : At blob pos (List.replicate 16 0))
    (fuel : ℕ) : readRsvmap blob (fuel + 1) pos = some ([], pos + 16) := by
  have hsplit : List.replicate 16 (0 : BitVec 8) =
      Bytes.toBe 8 (0 : BitVec 64) ++ Bytes.toBe 8 (0 : BitVec 64) := by decide
  rw [hsplit] at h
  have haddress := slice_of_at h.left
  have hsizeAt := slice_of_at h.right
  rw [Bytes.length_toBe] at haddress hsizeAt
  rw [readRsvmap, wide, wide, haddress, hsizeAt]
  rfl

/-! ## The round trip -/

/-- The blocks of a finished builder, by their offsets. -/
theorem at_finish (fdt : FdtBuilder) :
    At fdt.finish 40 (List.replicate 16 0) ∧
      At fdt.finish 56 (fdt.struct ++ toBeBytes fdtEnd) ∧
      At fdt.finish (56 + (fdt.struct ++ toBeBytes fdtEnd).length) fdt.strings := by
  have hwords := length_flatMap_toBeBytes
    (FdtBuilder.headerWords (fdt.struct ++ toBeBytes fdtEnd).length fdt.strings.length)
  have hall := at_zero fdt.finish
  unfold FdtBuilder.finish at hall
  dsimp only at hall
  rw [List.append_assoc, List.append_assoc] at hall
  have hrsvmap := hall.right
  rw [hwords] at hrsvmap
  have hstruct := hrsvmap.right
  rw [List.length_replicate] at hstruct
  unfold FdtBuilder.finish
  dsimp only
  rw [List.append_assoc, List.append_assoc]
  exact ⟨hrsvmap.left, hstruct.left, hstruct.right⟩

theorem length_finish (fdt : FdtBuilder) : fdt.finish.length =
    56 + (fdt.struct ++ toBeBytes fdtEnd).length + fdt.strings.length := by
  unfold FdtBuilder.finish
  dsimp only
  rw [List.length_append, List.length_append, List.length_append, length_flatMap_toBeBytes,
    List.length_replicate]
  rfl

theorem readHeader_finish (fdt : FdtBuilder) : readHeader fdt.finish =
    some (header (fdt.struct ++ toBeBytes fdtEnd).length fdt.strings.length) := by
  unfold FdtBuilder.finish
  dsimp only
  rw [List.append_assoc, List.append_assoc]
  exact readHeader_headerWords _ _ _

/-- A finished builder is read as the node that its structure block encodes. -/
theorem read_finish {strict : Bool} {fdt : FdtBuilder} {name : Str} {items : Items Blob}
    (hencodes : Encodes fdt.strings fdt.struct (.node name items .done)) (hname : 0 ∉ name)
    (hnul : items.NulFree) (hfirst : strict = true → items.PropsFirst false)
    (hsize : fdt.finish.length < 2 ^ 32) :
    (∃ h, readHeader fdt.finish = some h ∧ h.WellFormed 56 fdt.finish.length) ∧
      read strict fdt.finish = some ⟨[], name, items⟩ := by
  obtain ⟨hrsvmap, hstruct, hstrings⟩ := at_finish fdt
  have hheader := readHeader_finish fdt
  have hlength := length_finish fdt
  have hmod := hencodes.length_mod
  generalize hblock : fdt.struct ++ toBeBytes fdtEnd = struct at *
  have hblockMod : struct.length % 4 = 0 := by
    rw [← hblock, List.length_append, Bytes.length_toBe]
    omega
  rw [hlength] at hsize
  have hwell := wellFormed_header hblockMod hsize
  rw [← hlength] at hwell
  refine ⟨⟨_, hheader, hwell⟩, ?_⟩
  have hstructNat : (BitVec.ofNat 32 struct.length).toNat = struct.length := by
    rw [BitVec.toNat_ofNat, Nat.mod_eq_of_lt (by omega)]
  have hstringsNat : (BitVec.ofNat 32 fdt.strings.length).toNat = fdt.strings.length := by
    rw [BitVec.toNat_ofNat, Nat.mod_eq_of_lt (by omega)]
  have hitems : readItems strict fdt.strings struct struct.length fdtEnd false 0 =
      some (.node name items .done, struct.length) := by
    have hat : At struct 0 (fdt.struct ++ toBeBytes fdtEnd) := by
      rw [hblock]
      exact at_zero struct
    have hblockLength : struct.length = fdt.struct.length + 4 := by
      rw [← hblock, List.length_append, Bytes.length_toBe]
    rw [readItems_of_encodes (by omega) (by omega) hencodes ⟨hname, hnul, trivial⟩
      (fun hs => ⟨hfirst hs, trivial⟩) (.inr rfl) hat rfl (by omega), hblockLength, Nat.zero_add]
  have hreadStruct : readStruct strict fdt.strings struct = some (name, items) := by
    rw [readStruct, hitems]
    exact if_pos rfl
  obtain ⟨fuel, hfuel⟩ : ∃ f, fdt.finish.length = f + 1 := ⟨fdt.finish.length - 1, by omega⟩
  have hreserved : readRsvmap fdt.finish fdt.finish.length 40 = some ([], 56) := by
    rw [hfuel]
    exact readRsvmap_zeros hrsvmap fuel
  have hstructSlice := slice_of_at hstruct
  have hstringsSlice := slice_of_at hstrings
  have hoff : (56 + BitVec.ofNat 32 struct.length : BitVec 32).toNat = 56 + struct.length :=
    toNat_offDtStrings (by omega)
  rw [read, hheader]
  simp only [Option.bind_eq_bind, Option.bind_some]
  rw [show (header struct.length fdt.strings.length).offMemRsvmap.toNat = 40 from rfl, hreserved]
  simp only [Option.bind_some]
  rw [if_pos hwell]
  simp only [header, hstructNat, hstringsNat, hoff]
  rw [show (56 : BitVec 32).toNat = 56 from rfl, hstructSlice, hstringsSlice]
  simp only [Option.bind_some, hreadStruct]
  rfl

/-- **The round trip.** The blob of a tree is read as the tree, by a reader that takes
    properties and subnodes in any order and, where the properties come first, by one that
    insists on that. -/
theorem read_build {strict : Bool} {name : Str} {items : Items PropValue} (hname : 0 ∉ name)
    (hnul : items.NulFree) (hfirst : strict = true → items.PropsFirst false)
    (hsize : (build name items).length < 2 ^ 32) :
    (∃ h, readHeader (build name items) = some h ∧
        h.WellFormed 56 (build name items).length) ∧
      read strict (build name items) = some ⟨[], name, items.map PropValue.bytes⟩ := by
  obtain ⟨⟨bs, hstruct, hencodes⟩, -, -⟩ :=
    emitted interned_new (show FdtBuilder.new.struct.length % 4 = 0 from rfl)
      (.node name items .done)
  rw [show FdtBuilder.new.struct = [] from rfl, List.nil_append] at hstruct
  rw [← hstruct] at hencodes
  exact read_finish hencodes hname (Items.nulFree_map _ hnul)
    (fun hs => Items.propsFirst_map _ (hfirst hs)) hsize

/-- A tree in which two nodes have a property of one name. -/
def cpuTree : Items PropValue :=
  .prop (utf8 "model") (.str (utf8 "v64-virt")) <|
  .node (utf8 "cpu@0") (.prop (utf8 "reg") (.u32 0) .done) <|
  .node (utf8 "psci") (.prop (utf8 "method") (.str (utf8 "hvc")) (.prop (utf8 "reg") .empty .done))
  .done

theorem read_build_cpuTree :
    read true (build [] cpuTree) = some ⟨[], [], cpuTree.map PropValue.bytes⟩ := by
  have hnul : cpuTree.NulFree :=
    ⟨by decide, by decide, ⟨by decide, trivial⟩, by decide, ⟨by decide, by decide, trivial⟩,
      trivial⟩
  have hfirst : cpuTree.PropsFirst false :=
    ⟨rfl, ⟨rfl, trivial⟩, ⟨rfl, rfl, trivial⟩, trivial⟩
  exact (read_build List.not_mem_nil hnul (fun _ => hfirst) (by decide +kernel)).2

end V64.Platform.Fdt
