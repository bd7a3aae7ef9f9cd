import ApiDocs.Proofs.Docs.Nesting
import ApiDocs.Proofs.Extract.Closure
import ApiDocs.Proofs.Extract.Numbering

/-!
# Stored documentation of a graph is read back

Line numbers and literals in an extracted documentation are those of the graph, and its positions are
below the number of symbols, of which a graph of words cannot reach more than there are words. So it can
be stored, and all that keeps it from being read back is the limit of the reader on nesting.

Describing a type stops at a number of levels, but it counts levels of types and the reader counts
arrays and objects. A type argument costs three of these, so the limit of the describer is too high for
the reader: types of up to 39 levels are read back in every record, and there are documentations with
types of 42 levels that are not.

## Main definitions

* `SymbolGraph.reachable`: the graph without symbols that no word can refer to.
* `RefTable.InWords`: positions in the table of references are words.
* `SymbolGraph.nestedBoxes`: a variable of a type with many levels of type arguments.

## Main results

* `SymbolGraph.extract_readBack`: an extracted documentation is read back unless it is too deep.
* `SymbolGraph.nestedBoxes_refused`: one that is too deep.
-/

namespace ApiDocs

open Json (nestingLimit)
open Number (twoTo)

/-! ## Symbols that no word reaches -/

namespace SymbolGraph

variable {g : SymbolGraph} {o : ExtractOptions}

/-- The graph without symbols that no word can refer to. -/
def reachable (g : SymbolGraph) : SymbolGraph :=
  { g with symbols := g.symbols.extract 0 (twoTo 32) }

theorem size_reachable_le (g : SymbolGraph) : g.reachable.symbols.size ≤ twoTo 32 := by
  simp [reachable]

theorem mem_of_mem_reachable {s : Symbol} (hs : s ∈ g.reachable.symbols) : s ∈ g.symbols := by
  obtain ⟨i, hi, rfl⟩ := Array.mem_iff_getElem.mp hs
  simp [reachable]

/-- In a graph of words no symbol is missed. -/
theorem reachable_closed (hg : g.Closed) (hwords : g.InWords) : g.reachable.Closed := by
  have hle : (g.extent.inf .words).Le g.reachable.extent := by
    refine ⟨?_, Nat.min_le_left _ _, Nat.min_le_left _ _⟩
    simp [Extent.inf, extent, Extent.words, reachable, Nat.min_comm]
  exact {
    files := fun f hf id hid => ((hg.files f hf id hid).inf (hwords.files f hf id hid)).mono hle
    symbols := fun s hs =>
      have hs := mem_of_mem_reachable hs
      ((hg.symbols s hs).inf (hwords.symbols s hs).within).mono hle
    types := fun t ht => ((hg.types t ht).inf (hwords.types t ht)).mono hle
    signatures := fun s hs =>
      ((hg.signatures s hs).inf (hwords.signatures s hs).within).mono hle }

theorem reachable_inWords (hwords : g.InWords) : g.reachable.InWords :=
  { hwords with symbols := fun s hs => hwords.symbols s (mem_of_mem_reachable hs) }

theorem reachable_renamedIn (g : SymbolGraph) : g.reachable.RenamedIn .keep g where
  layout := rfl
  files := ((List.map_congr_left fun f _ => f.rename_keep).trans (List.map_id' _)).symm
  symbol {id s} hs := by
    rw [s.rename_keep]
    simp only [symbol?, reachable, Array.getElem?_extract] at hs
    split at hs
    · rw [Nat.zero_add] at hs
      exact hs
    · cases hs
  type {id t} ht := by rw [t.rename_keep]; exact ht
  signature {id s} hs := by rw [s.rename_keep]; exact hs

/-- Extraction comes to no symbol that no word can refer to. -/
theorem extract_reachable (hg : g.Closed) (hwords : g.InWords) : g.extract o = g.reachable.extract o :=
  extract_eq_of_embeds (g.reachable_renamedIn.embeds Function.injective_id _) (reachable_closed hg hwords)

end SymbolGraph

/-! ## The table of references -/

namespace RefTable

/-- Positions of references, classes and enums are words. -/
structure InWords (t : RefTable SymbolId) : Prop where
  has : ∀ {id r}, t.Has id r → r.InWord
  built : ∀ {id x}, t.Built id x → x.InWord

variable {g : SymbolGraph} {t : RefTable SymbolId}

/-- There are no more records than symbols. -/
theorem Sound.records_le (h : t.Sound g) : t.records.size ≤ g.symbols.size := by
  have hsymbol : ∀ i : Fin t.records.size, ∃ j : Fin g.symbols.size,
      ∃ d, t.records[i.val]? = some (⟨j⟩, d) := by
    intro i
    have hrecord := Array.getElem?_eq_getElem i.isLt
    obtain ⟨s, hs, -⟩ := h.named hrecord
    exact ⟨⟨_, SymbolGraph.within_of_symbol? hs⟩, _, hrecord⟩
  choose f hf using hsymbol
  have hinj : Function.Injective f := by
    intro i j hij
    obtain ⟨d, hd⟩ := hf i
    obtain ⟨d', hd'⟩ := hf j
    rw [hij] at hd
    exact Fin.ext (h.unique hd hd')
  simpa using Fintype.card_le_of_injective f hinj

/-- There are no more targets than records. -/
theorem targets_le {f : Nat → RefTarget} (hf : Function.Injective f) {n : Nat}
    (h : ∀ i < n, ∃ id, t.Built id (f i)) : n ≤ t.records.size := by
  have hrecord : ∀ i : Fin n, ∃ j : Fin t.records.size, ∃ id d,
      t.records[j.val]? = some (id, d) ∧ d.target = some (f i) := by
    intro i
    obtain ⟨id, j, d, hd, ht⟩ := h i i.isLt
    exact ⟨⟨j, (Array.getElem?_eq_some_iff.mp hd).1⟩, id, d, hd, ht⟩
  choose record hrecord using hrecord
  have hinj : Function.Injective record := by
    intro i j hij
    obtain ⟨id, d, hd, ht⟩ := hrecord i
    obtain ⟨id', d', hd', ht'⟩ := hrecord j
    rw [hij] at hd
    cases hd.symm.trans hd'
    exact Fin.ext (hf (Option.some.inj (ht.symm.trans ht')))
  simpa using Fintype.card_le_of_injective record hinj

end RefTable

/-! ## Types -/

/-- The value in the shape of an enum member is the literal of the type. -/
theorem TypeNode.literal_of_shape {n : TypeNode} {primitive : String} {value : Literal}
    (h : n.shape = .enumLiteral primitive value) : n.literal = some value := by
  have hreference : ∀ arguments, n.referenceShape arguments ≠ .enumLiteral primitive value := by
    intro arguments
    unfold referenceShape
    split <;> nofun
  have hinstance : n.instantiationShape ≠ .enumLiteral primitive value := by
    unfold instantiationShape
    split
    · split
      · nofun
      · exact hreference _
    · exact hreference _
  unfold shape at h
  split at h
  · unfold enumShape at h
    split at h
    · split at h <;> cases h
    · split at h
      next literal hliteral =>
        cases h
        exact hliteral
      next => cases h
  repeat' split at h
  all_goals first | cases h | exact absurd h hinstance | exact absurd h (hreference _)

namespace SymbolGraph

variable {g : SymbolGraph} {o : ExtractOptions} {t : RefTable SymbolId} {doc : Documentation}

/-- A described type has at most one level more than were asked for: what lies below them is given by
its display. -/
theorem Described.levels_le {levels : Nat} {id : TypeId} {d : TypeDoc}
    (h : g.Described t levels id d) : d.levels ≤ levels + 1 := by
  have hall : ∀ {levels xs}, (∀ x ∈ xs, TypeDoc.levels x ≤ levels + 1) →
      TypeDoc.levelsOfAll xs + 1 ≤ levels + 1 + 1 := fun hxs =>
    Nat.succ_le_succ (TypeDoc.levelsOfAll_le_iff.mpr hxs)
  refine Described.ind (P := fun levels d => d.levels ≤ levels + 1) ?name ?literal ?ref ?arrayOf
    ?unionOf ?intersectionOf ?unsupported h
  case name => exact fun levels _ => Nat.le_add_left 1 _
  case literal => exact fun levels _ _ _ _ _ _ => Nat.le_add_left 1 _
  case ref => exact fun levels _ _ _ _ ih => hall ih
  case arrayOf => exact fun levels _ ih => Nat.succ_le_succ ih
  case unionOf => exact fun levels _ ih => hall ih
  case intersectionOf => exact fun levels _ ih => hall ih
  case unsupported => exact fun levels _ _ => Nat.le_add_left 1 levels

theorem NumbersReadBack.literal (h : g.NumbersReadBack) {id : TypeId} {n : TypeNode}
    (hn : g.type? id = some n) {l : Literal} (hl : l ∈ n.literal) : l.ReadsBack :=
  h n (Array.mem_of_getElem? hn) l hl

theorem Described.storable (hnumbers : g.NumbersReadBack) (ht : t.InWords) {levels : Nat} {id : TypeId}
    {d : TypeDoc} (h : g.Described t levels id d) : d.Storable := by
  refine Described.ind (P := fun _ d => d.Storable) ?name ?literal ?ref ?arrayOf ?unionOf ?intersectionOf
    ?unsupported h
  case name => exact fun _ _ => .name
  case literal =>
    intro levels id n primitive value hn hshape
    exact .literal (hnumbers.literal hn (TypeNode.literal_of_shape hshape))
  case ref => exact fun _ _ _ _ hr ih => .ref (ht.has hr) ih
  case arrayOf => exact fun _ _ ih => .arrayOf ih
  case unionOf => exact fun _ _ ih => .unionOf ih
  case intersectionOf => exact fun _ _ ih => .intersectionOf ih
  case unsupported => exact fun _ _ _ => .unsupported

/-! ## The types in records -/

/-- Each of the types describes a type of the graph. -/
def DescribesAll (g : SymbolGraph) (t : RefTable SymbolId) (ts : List TypeDoc) : Prop :=
  ∀ x ∈ ts, ∃ id, g.Described t describedLevels id x

theorem describesAll_append {ts us : List TypeDoc} :
    g.DescribesAll t (ts ++ us) ↔ g.DescribesAll t ts ∧ g.DescribesAll t us := List.forall_mem_append

theorem describesAll_flatMap {α : Type} {f : α → List TypeDoc} {xs : List α} :
    g.DescribesAll t (xs.flatMap f) ↔ ∀ x ∈ xs, g.DescribesAll t (f x) := List.forall_mem_flatMap

theorem describesAll_toList {id : Option TypeId} {d : Option TypeDoc}
    (h : Option.Rel (g.Described t describedLevels) id d) : g.DescribesAll t d.toList := by
  intro x hx
  obtain ⟨i, -, hd⟩ := optionRel_mem_right h (Option.mem_toList.mp hx)
  exact ⟨i, hd⟩

theorem IdentifierOf.types {v : SymbolView} {optional : Bool} {d : IdentifierDoc}
    (h : g.IdentifierOf t v optional d) : g.DescribesAll t d.types := describesAll_toList h.type

theorem SignatureOf.types {id : SignatureId} {d : SignatureDoc} (h : g.SignatureOf t id d) :
    g.DescribesAll t d.types := by
  obtain ⟨s, -, hreturn, hparams, -⟩ := h
  refine describesAll_append.mpr ⟨describesAll_flatMap.mpr fun p hp => ?_, ?_⟩
  · obtain ⟨i, -, hid⟩ := forall₂_mem_right hparams hp
    exact IdentifierOf.types hid
  · exact List.forall_mem_singleton.mpr ⟨_, hreturn⟩

theorem types_of_signatures {ids : List SignatureId} {ds : List SignatureDoc}
    (h : List.Forall₂ (g.SignatureOf t) ids ds) : g.DescribesAll t (ds.flatMap (·.types)) := by
  refine describesAll_flatMap.mpr fun s hs => ?_
  obtain ⟨i, -, hid⟩ := forall₂_mem_right h hs
  exact hid.types

theorem FunctionOf.types {v : SymbolView} {d : FunctionDoc} (h : g.FunctionOf t v d) :
    g.DescribesAll t d.types := types_of_signatures h.signatures

theorem IndexOf.types {x : IndexTypes} {d : IndexDoc} (h : g.IndexOf t x d) : g.DescribesAll t d.types :=
  describesAll_append.mpr ⟨describesAll_toList h.signature, describesAll_toList h.value⟩

theorem EnumOf.types {id : SymbolId} {d : EnumDoc} (h : g.EnumOf t id d) : g.DescribesAll t d.types := by
  refine describesAll_flatMap.mpr fun x hx => ?_
  obtain ⟨m, -, hm⟩ := forall₂_mem_right h.members hx
  exact hm.types

theorem ModuleOf.types {ids : List SymbolId} {m : ModuleDoc} (h : g.ModuleOf t ids m) :
    g.DescribesAll t m.types := by
  refine describesAll_append.mpr ⟨describesAll_flatMap.mpr ?_, describesAll_flatMap.mpr ?_⟩
  · intro f hf
    obtain ⟨id, -, hid⟩ := forall₂_mem_right h.functions hf
    exact hid.types
  · intro x hx
    obtain ⟨id, -, hid⟩ := forall₂_mem_right h.values hx
    exact hid.types

theorem mem_constructorWith {ds : List SignatureDoc} {f : FunctionDoc} (h : f ∈ constructorWith ds) :
    f.signatureList = ds := by
  cases ds with
  | nil => cases h
  | cons s rest => cases h; rfl

theorem ClassOf.types {id : SymbolId} {d : ClassDoc} (h : g.ClassOf t id d) : g.DescribesAll t d.types := by
  obtain ⟨signatures, hsignatures, hconstruct⟩ := h.construct
  simp only [ClassDoc.types, describesAll_append, describesAll_flatMap]
  refine ⟨⟨⟨⟨?_, ?_⟩, ?_⟩, ?_⟩, h.exports.types⟩
  · intro f hf
    rw [hconstruct, Option.mem_toList] at hf
    rw [FunctionDoc.types, mem_constructorWith hf]
    exact types_of_signatures hsignatures
  · intro f hf
    obtain ⟨m, -, hm⟩ := forall₂_mem_right h.body.methods hf
    exact hm.types
  · intro x hx
    obtain ⟨m, -, hm⟩ := forall₂_mem_right h.body.properties hx
    exact IdentifierOf.types hm
  · intro x hx
    obtain ⟨index, -, hindex⟩ := optionRel_mem_right h.body.index (Option.mem_toList.mp hx)
    exact hindex.types

/-- Each type in the documentation describes a type of the graph. -/
theorem Documents.types (h : g.Documents o t doc) : g.DescribesAll t doc.types := by
  simp only [Documentation.types, describesAll_append, describesAll_flatMap]
  refine ⟨⟨?_, ?_⟩, ?_⟩
  · intro m hm
    obtain ⟨id, -, hof⟩ := forall₂_mem_right h.modules hm
    exact hof.types
  · intro c hc
    obtain ⟨i, hi, rfl⟩ := Array.mem_iff_getElem.mp (Array.mem_toList_iff.mp hc)
    obtain ⟨id, -, -, hclass, -⟩ := h.classes (c := ⟨i⟩) (Array.getElem?_eq_getElem hi)
    exact hclass.types
  · intro e he
    obtain ⟨i, hi, rfl⟩ := Array.mem_iff_getElem.mp (Array.mem_toList_iff.mp he)
    obtain ⟨id, -, -, henum⟩ := h.enums (e := ⟨i⟩) (Array.getElem?_eq_getElem hi)
    exact henum.types

/-! ## Records that can be stored -/

/-- The position of a view is that of a declaration. -/
theorem InWords.viewAt_pos (h : g.InWords) (id : SymbolId) : ∀ p ∈ (g.viewAt id).pos, p.InWords := by
  intro p hp
  obtain ⟨d, hd, rfl⟩ := Option.map_eq_some_iff.mp hp
  have hmem := Symbol.mem_declarations_of_ownDeclaration hd
  unfold symbolAt at hmem
  cases hs : g.symbol? id with
  | none =>
    rw [hs] at hmem
    cases hmem
  | some s =>
    rw [hs] at hmem
    exact (h.symbols s (Array.mem_of_getElem? hs)).declarations d hmem

section Records

variable (hwords : g.InWords) (hnumbers : g.NumbersReadBack) (ht : t.InWords)

include hnumbers ht

theorem storable_of_optional {id : Option TypeId} {d : Option TypeDoc} {levels : Nat}
    (h : Option.Rel (g.Described t levels) id d) : ∀ x ∈ d, x.Storable := by
  intro x hx
  obtain ⟨i, -, hd⟩ := optionRel_mem_right h hx
  exact hd.storable hnumbers ht

theorem IndexOf.storable {x : IndexTypes} {d : IndexDoc} (h : g.IndexOf t x d) : d.Storable :=
  ⟨storable_of_optional hnumbers ht h.signature, storable_of_optional hnumbers ht h.value⟩

include hwords

/-- The value of an identifier is in its type, or it is the literal of a type of the graph. -/
theorem IdentifierOf.storable {id : SymbolId} {optional : Bool} {d : IdentifierDoc}
    (h : g.IdentifierOf t (g.viewAt id) optional d) : d.Storable where
  type := storable_of_optional hnumbers ht h.type
  value := by
    have htype := storable_of_optional hnumbers ht h.type
    intro l hl
    rw [h.value] at hl
    unfold Walk.literalValue at hl
    split at hl
    next primitive value hd =>
      cases hl
      cases htype _ hd with
      | literal hvalue => exact hvalue
    next =>
      obtain ⟨n, hn, hl⟩ := Option.bind_eq_some_iff.mp hl
      obtain ⟨i, -, hn⟩ := Option.bind_eq_some_iff.mp hn
      split at hl
      · exact hnumbers.literal hn hl
      · cases hl
  pos := by
    rw [h.pos]
    exact hwords.viewAt_pos id

theorem SignatureOf.storable {id : SignatureId} {d : SignatureDoc} (h : g.SignatureOf t id d) :
    d.Storable := by
  obtain ⟨s, hs, hreturn, hparams, hpos, -⟩ := h
  refine ⟨?_, ?_, hreturn.storable hnumbers ht⟩
  · rw [hpos]
    exact (hwords.signatures s (Array.mem_of_getElem? hs)).pos
  · intro p hp
    obtain ⟨i, -, hid⟩ := forall₂_mem_right hparams hp
    exact IdentifierOf.storable hwords hnumbers ht hid

theorem storable_of_signatures {ids : List SignatureId} {ds : List SignatureDoc}
    (h : List.Forall₂ (g.SignatureOf t) ids ds) : ∀ s ∈ ds, s.Storable := by
  intro s hs
  obtain ⟨i, -, hid⟩ := forall₂_mem_right h hs
  exact hid.storable hwords hnumbers ht

theorem FunctionOf.storable {v : SymbolView} {d : FunctionDoc} (h : g.FunctionOf t v d) : d.Storable :=
  storable_of_signatures hwords hnumbers ht h.signatures

theorem EnumOf.storable {id : SymbolId} {d : EnumDoc} (h : g.EnumOf t id d) : d.Storable where
  pos := by
    rw [h.pos]
    exact hwords.viewAt_pos id
  memberList x hx := by
    obtain ⟨m, -, hm⟩ := forall₂_mem_right h.members hx
    exact hm.storable hwords hnumbers ht

theorem ModuleOf.storable {ids : List SymbolId} {m : ModuleDoc} (h : g.ModuleOf t ids m) :
    m.Storable where
  enumList e he := by
    obtain ⟨id, -, hb⟩ := forall₂_mem_right h.enums he
    exact ht.built hb
  classList c hc := by
    obtain ⟨id, -, hb⟩ := forall₂_mem_right h.classes hc
    exact ht.built hb
  interfaceList c hc := by
    obtain ⟨id, -, hb⟩ := forall₂_mem_right h.interfaces hc
    exact ht.built hb
  functionList f hf := by
    obtain ⟨id, -, hid⟩ := forall₂_mem_right h.functions hf
    exact hid.storable hwords hnumbers ht
  variableList x hx := by
    obtain ⟨id, -, hid⟩ := forall₂_mem_right h.values hx
    exact hid.storable hwords hnumbers ht

/-- What a class extends is not part of the record of its symbol. -/
theorem ClassOf.storable {id : SymbolId} {d : ClassDoc} (h : g.ClassOf t id d)
    (hextend : ∀ c ∈ d.extendList, c.InWord) : d.Storable where
  pos := by
    rw [h.pos]
    exact hwords.viewAt_pos id
  construct := by
    obtain ⟨signatures, hsignatures, hconstruct⟩ := h.construct
    intro f hf
    rw [hconstruct] at hf
    rw [FunctionDoc.Storable, mem_constructorWith hf]
    exact storable_of_signatures hwords hnumbers ht hsignatures
  methodList f hf := by
    obtain ⟨m, -, hm⟩ := forall₂_mem_right h.body.methods hf
    exact hm.storable hwords hnumbers ht
  propertyList x hx := by
    obtain ⟨m, -, hm⟩ := forall₂_mem_right h.body.properties hx
    exact IdentifierOf.storable hwords hnumbers ht hm
  index x hx := by
    obtain ⟨index, -, hindex⟩ := optionRel_mem_right h.body.index hx
    exact hindex.storable hnumbers ht
  extendList := hextend
  exports := h.exports.storable hwords hnumbers ht

end Records

/-! ## The documentation -/

namespace Documents

variable (h : g.Documents o t doc)

include h

/-- Everything listed was built for a symbol. -/
theorem exists_built {x : RefTarget} (hx : doc.Holds x) : ∃ id, t.Built id x := by
  cases x with
  | toClass c =>
    obtain ⟨id, -, hb, -⟩ := h.classes (c := c) (Array.getElem?_eq_getElem hx)
    exact ⟨id, hb⟩
  | toEnum e =>
    obtain ⟨id, -, hb, -⟩ := h.enums (e := e) (Array.getElem?_eq_getElem hx)
    exact ⟨id, hb⟩

theorem table_inWords (hsize : g.symbols.size ≤ twoTo 32) : t.InWords := by
  have hrecords := h.sound.records_le.trans hsize
  refine ⟨fun hr => hr.index_lt.trans_le hrecords, fun {id x} hb => ?_⟩
  have hx := h.holds hb
  cases x with
  | toClass c =>
    have hclasses : doc.classes.size ≤ t.records.size :=
      RefTable.targets_le (f := fun i => .toClass ⟨i⟩) (fun i j hij => by simpa using hij)
        fun i hi => h.exists_built hi
    exact Nat.lt_of_lt_of_le hx (hclasses.trans hrecords)
  | toEnum e =>
    have henums : doc.enums.size ≤ t.records.size :=
      RefTable.targets_le (f := fun i => .toEnum ⟨i⟩) (fun i j hij => by simpa using hij)
        fun i hi => h.exists_built hi
    exact Nat.lt_of_lt_of_le hx (henums.trans hrecords)

theorem storable (hwords : g.InWords) (hnumbers : g.NumbersReadBack) (ht : t.InWords) :
    doc.Storable where
  modules m hm := by
    obtain ⟨id, -, hof⟩ := forall₂_mem_right h.modules hm
    exact hof.storable hwords hnumbers ht
  classes c hc := by
    have hextend : ∀ b ∈ c.extendList, b.InWord := by
      intro b hb
      obtain ⟨id, hbuilt⟩ := h.exists_built (x := .toClass b) (h.index_lt_of_base hc hb)
      exact ht.built hbuilt
    obtain ⟨i, hi, rfl⟩ := Array.mem_iff_getElem.mp hc
    obtain ⟨id, -, -, hclass, -⟩ := h.classes (c := ⟨i⟩) (Array.getElem?_eq_getElem hi)
    exact hclass.storable hwords hnumbers ht hextend
  enums e he := by
    obtain ⟨i, hi, rfl⟩ := Array.mem_iff_getElem.mp he
    obtain ⟨id, -, -, henum⟩ := h.enums (e := ⟨i⟩) (Array.getElem?_eq_getElem hi)
    exact henum.storable hwords hnumbers ht
  refs r hr x hx := by
    obtain ⟨id, hbuilt⟩ := h.exists_built (h.holds_of_target hr hx)
    exact ht.built hbuilt

end Documents

/-- An extracted documentation can be stored. -/
theorem extract_storable (hvalid : g.Valid) (hwords : g.InWords) (hnumbers : g.NumbersReadBack)
    (hdoc : g.extract o = .ok doc) : doc.Storable := by
  have hclosed := valid_iff_closed.mp hvalid
  rw [extract_reachable hclosed hwords] at hdoc
  have hreachable := valid_iff_closed.mpr (reachable_closed hclosed hwords)
  obtain ⟨t, h⟩ := exists_documents hreachable hdoc
  exact h.storable (reachable_inWords hwords) hnumbers (h.table_inWords g.size_reachable_le)

/-- The levels of types in an extracted documentation. -/
theorem extract_levels_le (hvalid : g.Valid) (hdoc : g.extract o = .ok doc) :
    ∀ t ∈ doc.types, t.levels ≤ describedLevels + 1 := by
  obtain ⟨t, h⟩ := exists_documents hvalid hdoc
  intro x hx
  obtain ⟨id, hd⟩ := h.types x hx
  exact hd.levels_le

/-- **An extracted documentation is read back unless it is too deep** for the reader of texts. Its types
have the levels that are described and one more; with at most 39 of them it is never too deep. -/
theorem extract_readBack (hvalid : g.Valid) (hwords : g.InWords) (hnumbers : g.NumbersReadBack)
    (hdoc : g.extract o = .ok doc) :
    (∀ t ∈ doc.types, t.levels ≤ describedLevels + 1) ∧
      (Documentation.ofText? doc.toJson.compact =
        if doc.toJson.nesting ≤ nestingLimit then some doc else none) ∧
      (Documentation.ofText? doc.toJson.pretty =
        if doc.toJson.nesting ≤ nestingLimit then some doc else none) ∧
      ((∀ t ∈ doc.types, t.levels ≤ 39) → doc.toJson.nesting ≤ nestingLimit) := by
  have hstorable := extract_storable hvalid hwords hnumbers hdoc
  refine ⟨extract_levels_le hvalid hdoc, Documentation.ofText?_compact hstorable,
    Documentation.ofText?_pretty hstorable, fun hlevels => ?_⟩
  exact (Documentation.nesting_toJson_le (n := 38) hlevels).trans (by decide)

/-! ## Boxes in boxes -/

/-- A variable whose type is a number of boxes around a string, each the type argument of the next. -/
def nestedBoxes (n : Nat) : SymbolGraph where
  files := [⟨"lib.d.ts", none⟩, ⟨"a.ts", some ⟨0⟩⟩]
  symbols := #[
    { name := "a", flags := SymbolFlags.moduleBit, exports := .ofList [("x", ⟨1⟩)] },
    { name := "x", flags := SymbolFlags.variableBit, typeId := some ⟨0⟩,
      declarations := [{ kind := .variableDecl, pos := ⟨"a.ts", 2, 2⟩ }] },
    { name := "Box", flags := SymbolFlags.interfaceBit,
      declarations := [{ kind := .interfaceDecl, pos := ⟨"a.ts", 1, 1⟩ }] }]
  types := .mk <|
    (List.range n).map (fun i =>
      { flags := TypeFlags.objectBit, objectFlags := ObjectFlags.referenceBit, symbol := some ⟨2⟩,
        targetName := some "Box", typeArguments := [⟨i + 1⟩], display := "Box" }) ++
      [{ flags := TypeFlags.stringBit, display := "string" }]

theorem nestedBoxes_valid : ∀ n ∈ [40, 41], (nestedBoxes n).Valid := by decide +kernel

theorem nestedBoxes_inWords : ∀ n ∈ [40, 41], (nestedBoxes n).InWords := by
  have htypes : ∀ n ∈ [40, 41], (nestedBoxes n).types.size ≤ twoTo 32 := by decide +kernel
  have hsymbols : ∀ s ∈ (nestedBoxes 0).symbols, (∀ i ∈ s.valueDeclaration, i < twoTo 64) ∧
      ∀ d ∈ s.declarations, d.pos.InWords := by decide +kernel
  exact fun n hn =>
    (nestedBoxes_valid n hn).inWords
      ⟨show 3 ≤ twoTo 32 by decide +kernel, htypes n hn, Nat.zero_le _⟩ hsymbols nofun

theorem nestedBoxes_literal (n : Nat) : ∀ t ∈ (nestedBoxes n).types, t.literal = none := by
  intro t ht
  rcases List.mem_append.mp (Array.mem_def.mp ht) with ht | ht
  · obtain ⟨i, -, rfl⟩ := List.mem_map.mp ht
    rfl
  · rw [List.mem_singleton.mp ht]

theorem nestedBoxes_numbersReadBack (n : Nat) : (nestedBoxes n).NumbersReadBack := by
  intro t ht l hl
  rw [nestedBoxes_literal n t ht] at hl
  cases hl

theorem nesting_extract_nestedBoxes :
    ((nestedBoxes 40).extract {}).toOption.map (·.toJson.nesting) = some 126 ∧
      ((nestedBoxes 41).extract {}).toOption.map (·.toJson.nesting) = some 129 := by
  have hfiles : ∀ n, (nestedBoxes n).ownFiles.filter ((nestedBoxes n).accepts {}) = [⟨"a.ts", some ⟨0⟩⟩] :=
    fun _ => rfl
  have hexports : ∀ n, ((nestedBoxes n).symbol? ⟨0⟩).map (·.exports.entries) = some [("x", ⟨1⟩)] := fun _ => rfl
  rw [extract_of_sole (hfiles 40) (hexports 40), extract_of_sole (hfiles 41) (hexports 41)]
  decide +kernel

theorem exists_extract_of_nesting {n k : Nat}
    (h : ((nestedBoxes n).extract {}).toOption.map (·.toJson.nesting) = some k) :
    ∃ doc, (nestedBoxes n).extract {} = .ok doc ∧ doc.toJson.nesting = k := by
  cases hdoc : (nestedBoxes n).extract {} with
  | ok doc => exact ⟨doc, rfl, by simpa [hdoc, Except.toOption] using h⟩
  | error e => simp [hdoc, Except.toOption] at h

/-- Forty boxes are read back. -/
theorem nestedBoxes_readBack :
    (nestedBoxes 40).Valid ∧ (nestedBoxes 40).InWords ∧ (nestedBoxes 40).NumbersReadBack ∧
      ∃ doc, (nestedBoxes 40).extract {} = .ok doc ∧
        Documentation.ofText? doc.toJson.compact = some doc ∧
        Documentation.ofText? doc.toJson.pretty = some doc := by
  have hvalid := nestedBoxes_valid 40 (by decide)
  have hwords := nestedBoxes_inWords 40 (by decide)
  have hnumbers := nestedBoxes_numbersReadBack 40
  obtain ⟨doc, hdoc, hnesting⟩ := exists_extract_of_nesting nesting_extract_nestedBoxes.1
  obtain ⟨-, hcompact, hpretty, -⟩ := extract_readBack hvalid hwords hnumbers hdoc
  rw [hnesting, if_pos (by decide)] at hcompact hpretty
  exact ⟨hvalid, hwords, hnumbers, doc, hdoc, hcompact, hpretty⟩

/-- **One box more is described, but its text is refused**: 42 levels of a type are fewer than are
described, and they take 129 arrays and objects around one another. -/
theorem nestedBoxes_refused :
    (nestedBoxes 41).Valid ∧ (nestedBoxes 41).InWords ∧
      (∀ t ∈ (nestedBoxes 41).types, t.literal = none) ∧
      ∃ doc, (nestedBoxes 41).extract {} = .ok doc ∧
        Documentation.ofText? doc.toJson.compact = none ∧
        Documentation.ofText? doc.toJson.pretty = none := by
  have hvalid := nestedBoxes_valid 41 (by decide)
  have hwords := nestedBoxes_inWords 41 (by decide)
  obtain ⟨doc, hdoc, hnesting⟩ := exists_extract_of_nesting nesting_extract_nestedBoxes.2
  have hstorable := extract_storable hvalid hwords (nestedBoxes_numbersReadBack 41) hdoc
  have htoo : ¬ doc.toJson.nesting ≤ nestingLimit := by
    rw [hnesting]
    decide
  refine ⟨hvalid, hwords, nestedBoxes_literal 41, doc, hdoc, ?_, ?_⟩
  · rw [Documentation.ofText?_compact hstorable, if_neg htoo]
  · rw [Documentation.ofText?_pretty hstorable, if_neg htoo]

end SymbolGraph

end ApiDocs
