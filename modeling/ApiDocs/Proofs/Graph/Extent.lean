import ApiDocs.Graph.Validity

/-!
# Positions within an extent

Validity of a graph speaks of one list of mentions. Here the same is said part by part: each symbol,
type, signature and file is within the extent of the graph, that is, it mentions only positions below
the sizes of the lists. An extent is three numbers, so a part that is within one extent is within every
larger one, whatever graph the part belongs to. This is what lets a graph grow without a second look at
what it holds already.

## Main definitions

* `Extent`: how many symbols, types and signatures there are.
* `Symbol.Within`, `TypeNode.Within`, …: a part mentions only positions below these numbers.
* `SymbolGraph.Closed`: every part of a graph is within its extent.
* `SymbolGraph.valid_iff_closed`: that is validity.
-/

namespace ApiDocs

/-- How many symbols, types and signatures there are. -/
structure Extent where
  symbols : Nat
  types : Nat
  signatures : Nat

/-- One extent is larger than another. -/
structure Extent.Le (e e' : Extent) : Prop where
  symbols : e.symbols ≤ e'.symbols
  types : e.types ≤ e'.types
  signatures : e.signatures ≤ e'.signatures

namespace Extent

variable {e e' e'' : Extent}

theorem Le.refl (e : Extent) : e.Le e := ⟨Nat.le_refl _, Nat.le_refl _, Nat.le_refl _⟩

theorem Le.trans (h : e.Le e') (h' : e'.Le e'') : e.Le e'' :=
  ⟨Nat.le_trans h.symbols h'.symbols, Nat.le_trans h.types h'.types,
    Nat.le_trans h.signatures h'.signatures⟩

end Extent

/-! ## Parts of a graph -/

def SymbolId.Within (id : SymbolId) (e : Extent) : Prop := id.index < e.symbols

instance (id : SymbolId) (e : Extent) : Decidable (id.Within e) :=
  inferInstanceAs (Decidable (id.index < e.symbols))

def TypeId.Within (id : TypeId) (e : Extent) : Prop := id.index < e.types

instance (id : TypeId) (e : Extent) : Decidable (id.Within e) :=
  inferInstanceAs (Decidable (id.index < e.types))

def SignatureId.Within (id : SignatureId) (e : Extent) : Prop := id.index < e.signatures

instance (id : SignatureId) (e : Extent) : Decidable (id.Within e) :=
  inferInstanceAs (Decidable (id.index < e.signatures))

/-- The types of an index signature are there. -/
structure IndexTypes.Within (x : IndexTypes) (e : Extent) : Prop where
  key : ∀ t ∈ x.key, t.Within e
  value : ∀ t ∈ x.value, t.Within e

/-- A declaration mentions only what is there. -/
structure Declaration.Within (d : Declaration) (e : Extent) : Prop where
  heritage : ∀ id ∈ d.heritage, id.Within e
  index : ∀ x ∈ d.index, x.Within e

/-- A symbol mentions only what is there. -/
structure Symbol.Within (s : Symbol) (e : Extent) : Prop where
  exports : ∀ id ∈ s.exports.values, id.Within e
  members : ∀ id ∈ s.members.values, id.Within e
  aliasOf : ∀ id ∈ s.aliasOf, id.Within e
  typeId : ∀ t ∈ s.typeId, t.Within e
  valueDeclaration : ∀ i ∈ s.valueDeclaration, i < s.declarations.length
  declarations : ∀ d ∈ s.declarations, d.Within e

/-- A type mentions only what is there. -/
structure TypeNode.Within (t : TypeNode) (e : Extent) : Prop where
  symbol : ∀ id ∈ t.symbol, id.Within e
  typeArguments : ∀ id ∈ t.typeArguments, id.Within e
  constituents : ∀ id ∈ t.constituents, id.Within e
  callSignatures : ∀ id ∈ t.callSignatures, id.Within e
  constructSignatures : ∀ id ∈ t.constructSignatures, id.Within e

/-- A signature mentions only what is there. -/
structure Signature.Within (s : Signature) (e : Extent) : Prop where
  returnType : s.returnType.Within e
  parameters : ∀ id ∈ s.parameters, id.Within e

/-- A file mentions only what is there. -/
def SourceFile.Within (f : SourceFile) (e : Extent) : Prop := ∀ id ∈ f.symbol, id.Within e

/-! ## Larger extents -/

section Mono

variable {e e' : Extent} (h : e.Le e')

include h

theorem SymbolId.Within.mono {id : SymbolId} (hid : id.Within e) : id.Within e' :=
  Nat.lt_of_lt_of_le hid h.symbols

theorem TypeId.Within.mono {id : TypeId} (hid : id.Within e) : id.Within e' :=
  Nat.lt_of_lt_of_le hid h.types

theorem SignatureId.Within.mono {id : SignatureId} (hid : id.Within e) : id.Within e' :=
  Nat.lt_of_lt_of_le hid h.signatures

theorem IndexTypes.Within.mono {x : IndexTypes} (hx : x.Within e) : x.Within e' where
  key t ht := (hx.key t ht).mono h
  value t ht := (hx.value t ht).mono h

theorem Declaration.Within.mono {d : Declaration} (hd : d.Within e) : d.Within e' where
  heritage id hid := (hd.heritage id hid).mono h
  index x hx := (hd.index x hx).mono h

theorem Symbol.Within.mono {s : Symbol} (hs : s.Within e) : s.Within e' where
  exports id hid := (hs.exports id hid).mono h
  members id hid := (hs.members id hid).mono h
  aliasOf id hid := (hs.aliasOf id hid).mono h
  typeId t ht := (hs.typeId t ht).mono h
  valueDeclaration := hs.valueDeclaration
  declarations d hd := (hs.declarations d hd).mono h

theorem TypeNode.Within.mono {t : TypeNode} (ht : t.Within e) : t.Within e' where
  symbol id hid := (ht.symbol id hid).mono h
  typeArguments id hid := (ht.typeArguments id hid).mono h
  constituents id hid := (ht.constituents id hid).mono h
  callSignatures id hid := (ht.callSignatures id hid).mono h
  constructSignatures id hid := (ht.constructSignatures id hid).mono h

theorem Signature.Within.mono {s : Signature} (hs : s.Within e) : s.Within e' where
  returnType := hs.returnType.mono h
  parameters id hid := (hs.parameters id hid).mono h

theorem SourceFile.Within.mono {f : SourceFile} (hf : f.Within e) : f.Within e' :=
  fun id hid => (hf id hid).mono h

end Mono

/-! ## Two extents -/

/-- The largest extent below both. -/
def Extent.inf (e e' : Extent) : Extent :=
  ⟨min e.symbols e'.symbols, min e.types e'.types, min e.signatures e'.signatures⟩

section Inf

variable {e e' : Extent}

theorem SymbolId.Within.inf {id : SymbolId} (h : id.Within e) (h' : id.Within e') :
    id.Within (e.inf e') := Nat.lt_min.mpr ⟨h, h'⟩

theorem TypeId.Within.inf {id : TypeId} (h : id.Within e) (h' : id.Within e') :
    id.Within (e.inf e') := Nat.lt_min.mpr ⟨h, h'⟩

theorem SignatureId.Within.inf {id : SignatureId} (h : id.Within e) (h' : id.Within e') :
    id.Within (e.inf e') := Nat.lt_min.mpr ⟨h, h'⟩

theorem IndexTypes.Within.inf {x : IndexTypes} (h : x.Within e) (h' : x.Within e') :
    x.Within (e.inf e') where
  key t ht := (h.key t ht).inf (h'.key t ht)
  value t ht := (h.value t ht).inf (h'.value t ht)

theorem Declaration.Within.inf {d : Declaration} (h : d.Within e) (h' : d.Within e') :
    d.Within (e.inf e') where
  heritage id hid := (h.heritage id hid).inf (h'.heritage id hid)
  index x hx := (h.index x hx).inf (h'.index x hx)

theorem Symbol.Within.inf {s : Symbol} (h : s.Within e) (h' : s.Within e') : s.Within (e.inf e') where
  exports id hid := (h.exports id hid).inf (h'.exports id hid)
  members id hid := (h.members id hid).inf (h'.members id hid)
  aliasOf id hid := (h.aliasOf id hid).inf (h'.aliasOf id hid)
  typeId t ht := (h.typeId t ht).inf (h'.typeId t ht)
  valueDeclaration := h.valueDeclaration
  declarations d hd := (h.declarations d hd).inf (h'.declarations d hd)

theorem TypeNode.Within.inf {t : TypeNode} (h : t.Within e) (h' : t.Within e') :
    t.Within (e.inf e') where
  symbol id hid := (h.symbol id hid).inf (h'.symbol id hid)
  typeArguments id hid := (h.typeArguments id hid).inf (h'.typeArguments id hid)
  constituents id hid := (h.constituents id hid).inf (h'.constituents id hid)
  callSignatures id hid := (h.callSignatures id hid).inf (h'.callSignatures id hid)
  constructSignatures id hid := (h.constructSignatures id hid).inf (h'.constructSignatures id hid)

theorem Signature.Within.inf {s : Signature} (h : s.Within e) (h' : s.Within e') :
    s.Within (e.inf e') where
  returnType := h.returnType.inf h'.returnType
  parameters id hid := (h.parameters id hid).inf (h'.parameters id hid)

end Inf

/-! ## Graphs -/

namespace SymbolGraph

variable (g : SymbolGraph)

/-- How many symbols, types and signatures the graph has. -/
def extent : Extent := ⟨g.symbols.size, g.types.size, g.signatures.size⟩

/-- Every part of the graph is within its extent. -/
structure Closed : Prop where
  files : ∀ f ∈ g.files, f.Within g.extent
  symbols : ∀ s ∈ g.symbols, s.Within g.extent
  types : ∀ t ∈ g.types, t.Within g.extent
  signatures : ∀ s ∈ g.signatures, s.Within g.extent

variable {g}

theorem forall_mentionSymbol_iff {owner : String} {ids : List SymbolId} :
    (∀ m ∈ ids.map (g.mentionSymbol owner), m.inRange = true) ↔ ∀ id ∈ ids, id.Within g.extent := by
  simp [mentionSymbol, Mention.inRange, SymbolId.Within, extent]

theorem forall_mentionType_iff {owner : String} {ids : List TypeId} :
    (∀ m ∈ ids.map (g.mentionType owner), m.inRange = true) ↔ ∀ id ∈ ids, id.Within g.extent := by
  simp [mentionType, Mention.inRange, TypeId.Within, extent]

theorem forall_mentionSignature_iff {owner : String} {ids : List SignatureId} :
    (∀ m ∈ ids.map (g.mentionSignature owner), m.inRange = true) ↔
      ∀ id ∈ ids, id.Within g.extent := by
  simp [mentionSignature, Mention.inRange, SignatureId.Within, extent]

theorem forall_fileMentions_iff {f : SourceFile} :
    (∀ m ∈ g.fileMentions f, m.inRange = true) ↔ f.Within g.extent := by
  simp only [fileMentions, forall_mentionSymbol_iff, Option.mem_toList, SourceFile.Within,
    Option.mem_def]

theorem forall_declarationMentions_iff {owner : String} {d : Declaration} :
    (∀ m ∈ g.declarationMentions owner d, m.inRange = true) ↔ d.Within g.extent := by
  simp only [declarationMentions, List.forall_mem_append, forall_mentionSymbol_iff]
  constructor
  · rintro ⟨hh, hi⟩
    refine ⟨hh, ?_⟩
    intro x hx
    rw [Option.mem_def] at hx
    simp only [hx, forall_mentionType_iff, List.forall_mem_append, Option.mem_toList] at hi
    exact ⟨hi.1, hi.2⟩
  · intro hd
    refine ⟨hd.heritage, ?_⟩
    cases hx : d.index with
    | none => simp
    | some x =>
      simp only [forall_mentionType_iff, List.forall_mem_append, Option.mem_toList]
      exact ⟨(hd.index x hx).key, (hd.index x hx).value⟩

theorem forall_symbolMentions_iff {s : Symbol} :
    (∀ m ∈ g.symbolMentions s, m.inRange = true) ↔ s.Within g.extent := by
  have hvalue : (∀ m ∈ s.valueDeclaration.toList.map
        (fun i => (⟨s.name, .declarations, i, s.declarations.length⟩ : Mention)), m.inRange = true) ↔
      ∀ i ∈ s.valueDeclaration, i < s.declarations.length := by
    simp [Mention.inRange]
  have hdecls : (∀ m ∈ s.declarations.flatMap (g.declarationMentions s.name), m.inRange = true) ↔
      ∀ d ∈ s.declarations, d.Within g.extent := by
    simp only [List.forall_mem_flatMap, forall_declarationMentions_iff]
  simp only [symbolMentions, List.forall_mem_append, forall_mentionSymbol_iff,
    forall_mentionType_iff, Option.mem_toList, hvalue, hdecls]
  constructor
  · rintro ⟨⟨⟨⟨⟨he, hm⟩, ha⟩, ht⟩, hv⟩, hd⟩
    exact ⟨he, hm, ha, ht, hv, hd⟩
  · rintro ⟨he, hm, ha, ht, hv, hd⟩
    exact ⟨⟨⟨⟨⟨he, hm⟩, ha⟩, ht⟩, hv⟩, hd⟩

theorem forall_typeMentions_iff {t : TypeNode} :
    (∀ m ∈ g.typeMentions t, m.inRange = true) ↔ t.Within g.extent := by
  simp only [typeMentions, List.forall_mem_append, forall_mentionSymbol_iff,
    forall_mentionType_iff, forall_mentionSignature_iff, Option.mem_toList]
  constructor
  · rintro ⟨⟨hs, ha, hc⟩, hcall, hcons⟩
    exact ⟨hs, ha, hc, hcall, hcons⟩
  · rintro ⟨hs, ha, hc, hcall, hcons⟩
    exact ⟨⟨hs, ha, hc⟩, hcall, hcons⟩

theorem forall_signatureMentions_iff {s : Signature} :
    (∀ m ∈ g.signatureMentions s, m.inRange = true) ↔ s.Within g.extent := by
  simp only [signatureMentions, List.forall_mem_cons, forall_mentionSymbol_iff]
  have hreturn : (g.mentionType "signature" s.returnType).inRange = true ↔
      s.returnType.Within g.extent :=
    decide_eq_true_iff
  rw [hreturn]
  exact ⟨fun ⟨hr, hp⟩ => ⟨hr, hp⟩, fun ⟨hr, hp⟩ => ⟨hr, hp⟩⟩

/-- **Validity, part by part.** -/
theorem valid_iff_closed : g.Valid ↔ g.Closed := by
  simp only [Valid, mentions, List.forall_mem_append, List.forall_mem_flatMap, Array.mem_toList_iff,
    forall_fileMentions_iff, forall_symbolMentions_iff, forall_typeMentions_iff,
    forall_signatureMentions_iff]
  constructor
  · rintro ⟨⟨⟨hf, hs⟩, ht⟩, hg⟩
    exact ⟨hf, hs, ht, hg⟩
  · rintro ⟨hf, hs, ht, hg⟩
    exact ⟨⟨⟨hf, hs⟩, ht⟩, hg⟩

end SymbolGraph

end ApiDocs
