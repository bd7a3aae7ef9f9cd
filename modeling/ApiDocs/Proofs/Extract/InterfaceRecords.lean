import ApiDocs.Proofs.Binding.EnumValues
import ApiDocs.Proofs.Binding.InterfaceDrafts
import ApiDocs.Proofs.Extract.LinkedSymbols

/-!
# Records of interfaces

The record of an interface that is declared once lists its body: one record for each property, as they are written,
with what its annotation tells, and that of the index signature, if there is one.

The symbol of an index signature is in the table of the interface under a name of its own, and a property may have
this name, too. They get one symbol then. It is seen as it was declared first: what is behind is lost.

## Main definitions

* `ClassDoc.ListsBody`: a record lists the body of an interface.

## Main results

* `GraphDraft.listsBody_of_drawn`: what is drawn up in a draft is in the record when the draft is linked.
* `SymbolGraph.extract_listsBodies`: so it is for the interfaces of any sources.
* `SymbolGraph.indexMember_lost`: behind a property that has its name an index signature is lost.
-/

namespace ApiDocs

open TypeScript

/-- A member with the flag of properties becomes one. -/
theorem SymbolView.role_of_property {v : SymbolView} (hvisible : v.declaration.any (·.isPrivate) = false)
    (hmethod : v.flags.has SymbolFlags.methodBit = false) (hproperty : v.flags.has SymbolFlags.propertyBit = true) :
    v.role = .property := by
  have hmeets : v.flags.meets (SymbolFlags.propertyBit ∪ SymbolFlags.accessorBit) = true := by
    by_contra hnot
    exact absurd (FlagSet.meets_eq_false_of_has hproperty (Bool.eq_false_iff.mpr hnot)) (by decide)
  simp [role, hvisible, hmethod, hmeets]

/-! ## What a record lists -/

/-- The record is that of a property. -/
structure IdentifierDoc.IsProperty (d : GraphDraft) (refs : RefTable SymbolId) (site : Site) (p : PropertyTree)
    (doc : IdentifierDoc) : Prop where
  name : p.key = .known doc.name
  optional : doc.optional = p.isOptional
  pos : doc.pos = some (site.pos p.span)
  type : ∃ type, doc.type = some type ∧ d.linked.Tells d.enums refs describedLevels (site.propertyType p) type

/-- The record is that of an index signature. -/
structure IndexDoc.IsIndex (d : GraphDraft) (refs : RefTable SymbolId) (site : Site) (i : IndexTree)
    (doc : IndexDoc) : Prop where
  signature : Option.Rel (fun t type => d.linked.Tells d.enums refs describedLevels (site.typeExpr t) type) i.key
    doc.signature
  value : ∃ type, doc.value = some type ∧ d.linked.Tells d.enums refs describedLevels (site.typeExpr i.value) type

/-- **The record lists the body of an interface**: its properties in their order, and its index signature. -/
structure ClassDoc.ListsBody (d : GraphDraft) (refs : RefTable SymbolId) (site : Site)
    (members : List InterfaceMember) (doc : ClassDoc) : Prop where
  properties : List.Forall₂ (IdentifierDoc.IsProperty d refs site) (propertiesIn members) doc.propertyList
  index : Option.Rel (IndexDoc.IsIndex d refs site) (indexesIn members).head? doc.index

namespace GraphDraft

open Linking

variable {d : GraphDraft} {s m : SymbolId} {site : Site} {members : List InterfaceMember} {p : PropertyTree}
  {i : IndexTree} {e : String × SymbolId} {refs : RefTable SymbolId}

/-! ## Types of members -/

theorem firstNote_of_notes {e : TypeExpr} (h : (d.notesOf m).types = [e]) : firstNote d.symbolTypes m = some e := by
  have hhead := congrArg List.head? h
  rw [notesOf, List.head?_map, List.head?_filter] at hhead
  exact hhead

/-! ## Members that are linked -/

/-- The symbol of a property is seen as that of one. -/
theorem Drawn.property_role (hd : d.Sound) (hu : d.Untyped) (h : Drawn site d (.property p) e) :
    (d.link.viewAt e.2).role = .property := by
  obtain ⟨n, -, hfacts⟩ := h.property_facts
  have htouches := linked_touches hd hu
  obtain ⟨y, hbare, -, hview⟩ := link_viewAt_of_sole hd hu h.within (congrArg SymbolFacts.declarations hfacts)
  have hvisible : y.isPrivate = false := by
    have hmodifiers : y.modifiers = Site.memberModifiers none false p.isReadonly false := congrArg (·.modifiers) hbare
    rw [Declaration.isPrivate, hmodifiers]
    cases p.isReadonly <;> decide
  have hflags : d.builder.flagsOf e.2 = Site.withOptional SymbolFlags.propertyBit p.isOptional :=
    congrArg SymbolFacts.flags hfacts
  rw [hview]
  refine SymbolView.role_of_property hvisible ?_ ?_
  · change (d.linked.builder.flagsOf e.2).has _ = _
    rw [htouches.has_flag h.within (by decide), hflags]
    cases p.isOptional <;> decide
  · change (d.linked.builder.flagsOf e.2).has _ = _
    rw [htouches.has_flag h.within (by decide), hflags]
    cases p.isOptional <;> decide

/-- **The record of a property** has its name and its type. -/
theorem Drawn.property_record (hd : d.Sound) (hu : d.Untyped) (henum : d.Enumerated) (h : Drawn site d (.property p) e)
    {doc : IdentifierDoc} (hdoc : d.link.MarkedOf refs (d.link.viewAt e.2) doc) :
    doc.IsProperty d refs site p := by
  obtain ⟨n, hkey, hfacts⟩ := h.property_facts
  have hname : d.builder.nameOf e.2 = n := congrArg SymbolFacts.name hfacts
  have hflags : d.builder.flagsOf e.2 = Site.withOptional SymbolFlags.propertyBit p.isOptional :=
    congrArg SymbolFacts.flags hfacts
  have hdeclarations : d.builder.declarationsOf e.2 = _ := congrArg SymbolFacts.declarations hfacts
  have hnotes : d.notesOf e.2 = { types := [site.propertyType p] } := congrArg SymbolFacts.notes hfacts
  obtain ⟨y, -, -, hview⟩ := link_viewAt_of_sole hd hu h.within hdeclarations
  have hoptional : (d.linked.builder.flagsOf e.2).has SymbolFlags.optionalBit = p.isOptional := by
    rw [(linked_touches hd hu).has_flag h.within (by decide), hflags]
    cases p.isOptional <;> decide
  have haside : ¬ d.TypedAside e.2 := by
    refine henum.not_typedAside (.of_notes (congrArg SymbolNotes.signatures hnotes)
      (congrArg SymbolNotes.classes hnotes) (congrArg SymbolNotes.enums hnotes)) ?_
    rw [GraphBuilder.kindsOf, hdeclarations]
    simp [Site.propertyFacts]
  have hnote := firstNote_of_notes (congrArg SymbolNotes.types hnotes)
  obtain ⟨t, ht, htold⟩ := linked_typedBy hd hu h.within haside hnote
  rw [hview] at hdoc
  have htype := hdoc.type
  rw [ht] at htype
  obtain ⟨type, htype, hdescribed⟩ := optionRel_some_left htype
  refine ⟨?_, hdoc.optional.trans hoptional, hdoc.pos, type, htype, ?_⟩
  · rw [hkey, hdoc.name, hname]
  · exact htold.tells d.linked (.refl _) refs describedLevels type hdescribed

/-- The symbol of an index signature is seen as that of one. -/
theorem Drawn.index_role (hd : d.Sound) (hu : d.Untyped) (h : Drawn site d (.index i) e) :
    (d.link.viewAt e.2).role = .index := by
  have hfacts := h.index_facts
  have htouches := linked_touches hd hu
  obtain ⟨y, hbare, -, hview⟩ := link_viewAt_of_sole hd hu h.within (congrArg SymbolFacts.declarations hfacts)
  have hkind : y.kind = .indexSignature := congrArg (·.kind) hbare
  have hvisible : y.isPrivate = false := by
    have hmodifiers : y.modifiers = Site.flagIf i.isReadonly ModifierFlags.readonlyBit := congrArg (·.modifiers) hbare
    rw [Declaration.isPrivate, hmodifiers]
    cases i.isReadonly <;> decide
  have hflags : d.builder.flagsOf e.2 = SymbolFlags.indexSignatureBit := congrArg SymbolFacts.flags hfacts
  have hmethod : (d.linked.builder.flagsOf e.2).has SymbolFlags.methodBit = false := by
    rw [htouches.has_flag h.within (by decide), hflags]
    decide
  have hproperty :
      (d.linked.builder.flagsOf e.2).meets (SymbolFlags.propertyBit ∪ SymbolFlags.accessorBit) = false := by
    refine htouches.meets_eq_false h.within ?_
    rw [hflags]
    decide
  rw [hview]
  simp [SymbolView.role, SymbolView.kind, hvisible, hmethod, hproperty, hkind]

/-- **The record of an index signature** has its types. -/
theorem Drawn.index_record (hd : d.Sound) (hu : d.Untyped) (h : Drawn site d (.index i) e) :
    ∃ types, (d.link.viewAt e.2).declaration.bind (·.index) = some types ∧
      ∀ {refs doc}, d.link.IndexOf refs types doc → doc.IsIndex d refs site i := by
  have hfacts := h.index_facts
  have hdeclarations : d.builder.declarationsOf e.2 = _ := congrArg SymbolFacts.declarations hfacts
  have hnoted : ∀ x, x ∈ d.indexes ∧ x.symbol = e.2 ↔ x = site.indexDraft e.2 i := by
    intro x
    have hindexes : d.indexes.filter (·.symbol = e.2) = [site.indexDraft e.2 i] := congrArg (·.notes.indexes) hfacts
    have hmem : x ∈ d.indexes.filter (·.symbol = e.2) ↔ x ∈ [site.indexDraft e.2 i] := by rw [hindexes]
    rwa [List.mem_filter, decide_eq_true_iff, List.mem_singleton] at hmem
  have hthere : HasDeclaration e.2 0 d.begun := by
    have hlength : (d.builder.graph.symbolAt e.2).declarations.length = 1 := by
      rw [GraphBuilder.symbolAt_declarations h.within, hdeclarations]
      rfl
    exact ⟨_, SymbolGraph.symbol?_eq_some h.within, hlength ▸ Nat.one_pos⟩
  obtain ⟨y, -, hindex, hview⟩ := link_viewAt_of_sole hd hu h.within hdeclarations
  obtain ⟨types, htypes⟩ := Option.isSome_iff_exists.mp (linked_indexAt_isSome hd hu ((hnoted _).mpr rfl).1 hthere)
  obtain ⟨x, hx, hsymbol, -, hkey, v, hv, hvalue⟩ := linked_indexAt_cases hd hu htypes
  obtain rfl := (hnoted x).mp ⟨hx, hsymbol⟩
  rw [hview]
  refine ⟨types, hindex.symm.trans htypes, fun {refs doc} hdoc => ?_⟩
  have htells : ∀ {e : TypeExpr} {t : TypeId} {type : TypeDoc}, Told d.enums e t d.linked →
      d.link.Described refs describedLevels t type → d.linked.Tells d.enums refs describedLevels e type :=
    fun htold hdescribed => htold.tells d.linked (.refl _) refs describedLevels _ hdescribed
  have hvalues := hdoc.value
  rw [hv] at hvalues
  obtain ⟨type, htype, hdescribed⟩ := optionRel_some_left hvalues
  have hkeys : Option.Rel (d.linked.Tells d.enums refs describedLevels) (i.key.map site.typeExpr) doc.signature := by
    refine optionRel_trans (fun e t type htold hdescribed => ?_) hkey hdoc.signature
    exact htells htold hdescribed
  exact ⟨optionRel_map_left hkeys, type, htype, htells hvalue hdescribed⟩

/-! ## Bodies that are linked -/

/-- A member becomes what it is written as. -/
theorem Drawn.role_cases (hd : d.Sound) (hu : d.Untyped) {x : InterfaceMember} (h : Drawn site d x e) :
    (∃ p, x = .property p ∧ (d.link.viewAt e.2).role = .property) ∨
      ∃ i, x = .index i ∧ (d.link.viewAt e.2).role = .index := by
  obtain ⟨p, rfl⟩ | ⟨i, rfl⟩ := h.part_cases
  · exact .inl ⟨p, rfl, h.property_role hd hu⟩
  · exact .inr ⟨i, rfl, h.index_role hd hu⟩

/-- The symbols with a role are those of the members that are written so, in their order. -/
theorem forall₂_membersAs {γ : Type} {role : MemberRole} {part? : InterfaceMember → Option γ}
    {P : γ → SymbolId → Prop} {entries : List (String × SymbolId)}
    (hdrawn : List.Forall₂ (Drawn site d) members entries)
    (hpart : ∀ {x e}, Drawn site d x e → match part? x with
      | some a => (d.link.viewAt e.2).role = role ∧ P a e.2
      | none => (d.link.viewAt e.2).role ≠ role) :
    List.Forall₂ P (members.filterMap part?) (d.link.membersAs role (entries.map Prod.snd)) := by
  rw [SymbolGraph.membersAs, ← List.filterMap_eq_filter, List.filterMap_map]
  refine List.rel_filterMap (fun x e h => ?_) hdrawn
  have hx := hpart h
  cases ha : part? x with
  | none =>
    rw [ha] at hx
    simp [Option.guard, hx]
  | some a =>
    rw [ha] at hx
    simp [Option.guard, hx.1, hx.2]

theorem forall₂_properties (hd : d.Sound) (hu : d.Untyped) {entries : List (String × SymbolId)}
    (hdrawn : List.Forall₂ (Drawn site d) members entries) :
    List.Forall₂ (fun p m => ∃ n, Drawn site d (.property p) (n, m)) (propertiesIn members)
      (d.link.membersAs .property (entries.map Prod.snd)) := by
  refine forall₂_membersAs hdrawn fun {x e} h => ?_
  obtain ⟨p, rfl, hrole⟩ | ⟨i, rfl, hrole⟩ := h.role_cases hd hu
  · exact ⟨hrole, e.1, h⟩
  · change _ ≠ _
    rw [hrole]
    decide

theorem forall₂_indexes (hd : d.Sound) (hu : d.Untyped) {entries : List (String × SymbolId)}
    (hdrawn : List.Forall₂ (Drawn site d) members entries) :
    List.Forall₂ (fun i m => ∃ n, Drawn site d (.index i) (n, m)) (indexesIn members)
      (d.link.membersAs .index (entries.map Prod.snd)) := by
  refine forall₂_membersAs hdrawn fun {x e} h => ?_
  obtain ⟨p, rfl, hrole⟩ | ⟨i, rfl, hrole⟩ := h.role_cases hd hu
  · change _ ≠ _
    rw [hrole]
    decide
  · exact ⟨hrole, e.1, h⟩

/-- **What is drawn up in a draft is in the record** when the draft is linked. -/
theorem listsBody_of_drawn (hd : d.Sound) (hu : d.Untyped) (henum : d.Enumerated) (hs : s.Within d.extent)
    (hdrawn : List.Forall₂ (Drawn site d) members (d.builder.membersOf s).entries)
    (hsingle : (indexesIn members).length ≤ 1) {doc : ClassDoc} (hdoc : d.link.ClassOf refs s doc) :
    doc.ListsBody d refs site members := by
  have hmembers : (d.link.symbolAt s).members.values = (d.builder.membersOf s).entries.map Prod.snd := by
    have htouches := linked_touches hd hu
    rw [link_eq, GraphBuilder.symbolAt_members (htouches.within hs), htouches.membersOf_eq hs]
    rfl
  obtain ⟨-, hproperties, hindex⟩ := hmembers ▸ hdoc.body
  refine ⟨forall₂_trans (fun p m x h hx => ?_) (forall₂_properties hd hu hdrawn) hproperties, ?_⟩
  · obtain ⟨n, h⟩ := h
    exact h.property_record hd hu henum hx
  have hindexes := forall₂_indexes hd hu hdrawn
  change Option.Rel _ _ doc.index at hindex
  rw [SymbolGraph.lastIndex] at hindex
  generalize d.link.membersAs .index _ = ids at hindexes hindex
  generalize indexesIn members = is at hindexes hsingle ⊢
  cases hindexes with
  | nil =>
    generalize doc.index = index at hindex ⊢
    cases hindex
    exact .none
  | @cons i m is ms h hrest =>
    obtain rfl : is = [] := List.length_eq_zero_iff.mp (by simpa using hsingle)
    cases hrest
    obtain ⟨n, h⟩ := h
    obtain ⟨types, htypes, hrecord⟩ := h.index_record hd hu
    rw [List.getLast?_singleton, Option.bind_some, htypes] at hindex
    obtain ⟨x, hx, hof⟩ := optionRel_some_left hindex
    rw [hx]
    exact .some (hrecord hof)

end GraphDraft

namespace SymbolGraph

open GraphDraft (SoleInterface)

variable {sources : List ParsedSource} {layout : Option OutputLayout} {o : ExtractOptions} {doc : Documentation}

/-- **The body of an interface is documented.** An interface that extraction comes to and that is declared once has a
record, which lists the properties and the index signature of its body, if none of the properties has the name that
the index signature goes by. Extraction fails for a cause about aliases only. -/
theorem extract_listsBodies (sources : List ParsedSource) (layout : Option OutputLayout) (o : ExtractOptions) :
    (∃ doc t, (ofSources sources layout).extract o = .ok doc ∧ (ofSources sources layout).Documents o t doc ∧
      ∀ {c i s}, SoleInterface sources c i s → PropertyBody i.members →
        (indexesIn i.members = [] ∨ ∀ p ∈ propertiesIn i.members, p.key ≠ .known Site.indexMember) →
        (ofSources sources layout).Assembled o s → ∃ (k : ClassId) (x : ClassDoc) (site : Site) (place : Placement)
          (before : GraphDraft), t.Built s (.toClass k) ∧ doc.class? k = some x ∧ x.kind = .ofInterface ∧
            GraphDraft.ComesTo sources site place (.interfaceLike i) before ∧ place.container = c ∧
            x.ListsBody ((GraphDraft.ofSources sources).laidOut layout) t
              ((site.inside ⟨before.nextScope, Site.boundTypeParameters i.typeParameters⟩).within s) i.members) ∨
    ∃ e, (ofSources sources layout).extract o = .error e ∧ e.OfAlias o.maxAliasDepth := by
  have hclosed := (ofSources_closed sources layout).1
  obtain ⟨doc, t, hdoc, ht⟩ | herror := extract_outcome hclosed o
  · refine .inl ⟨doc, t, hdoc, ht, fun {c i s} hi hbody hfree hs => ?_⟩
    obtain ⟨hkinds, site, place, before, hcomes, hplace, hdrawn⟩ := GraphDraft.ofSources_drawn hi hbody hfree
    have hd := GraphDraft.laidOut_sound (GraphDraft.ofSources_sound sources).1 layout
    have hu := (GraphDraft.laidOut_noted (GraphDraft.ofSources_noted sources) layout).untyped
    have henum := GraphDraft.laidOut_enumerated (GraphDraft.ofSources_enumerated sources) layout
    have hlaid : ((GraphDraft.ofSources sources).laidOut layout).builder.kindsOf s = [.interfaceDecl] ∧
        List.Forall₂ (GraphDraft.Drawn
          ((site.inside ⟨before.nextScope, Site.boundTypeParameters i.typeParameters⟩).within s)
          ((GraphDraft.ofSources sources).laidOut layout)) i.members
          (((GraphDraft.ofSources sources).laidOut layout).builder.membersOf s).entries := by
      -- A layout changes nothing that is known of symbols.
      cases layout <;> exact ⟨hkinds, hdrawn.imp fun _ _ h => ⟨h.slot, h.within, h.facts⟩⟩
    have hroute := GraphDraft.link_route?_of_sole hd hu hlaid.1
    obtain ⟨ids, m, hid, hof, -⟩ := ht.exists_reaches hs
    obtain ⟨k, hbuilt, -⟩ := hof.exists_class hid hroute
    obtain ⟨x, hx, -, hrecord⟩ := ht.class_of_built hbuilt
    have hkind : x.kind = .ofInterface := Route.toClass.inj (Option.some.inj (hrecord.kind.symm.trans hroute))
    refine ⟨k, x, site, place, before, hbuilt, hx, hkind, hcomes, hplace, ?_⟩
    have hin := GraphBuilder.within_of_kindsOf (List.ne_nil_of_mem (hlaid.1 ▸ List.mem_singleton_self _))
    exact GraphDraft.listsBody_of_drawn hd hu henum hin hlaid.2 hbody.single hrecord
  · exact .inr herror

/-! ## An interface that is listed, and one that is not -/

/-- A module that exports an interface with these members. -/
def interfacing (members : List InterfaceMember) : ParsedSource where
  path := "a.ts"
  text := ""
  tree := {
    statements := [.exported ⟨0, 0⟩ (.interfaceLike ⟨"Card", [], [], members, false⟩)]
    docs := [] }
  scoping := .lexical

/-- The properties of the records of classes, each with whether it is optional, and whether they have indexes. -/
def bodyListings (doc : Documentation) : List (List (String × Bool) × Bool) :=
  doc.classes.toList.map fun d => (d.propertyList.map fun x => (x.name, x.optional), d.index.isSome)

/-- The only interface of a module is declared once. -/
theorem interfacing_sole {members : List InterfaceMember}
    (hfiles : GraphDraft.containerOf (GraphDraft.ofSources [interfacing members]).builder.graph.files 0 = .symbol ⟨1⟩)
    (hname : (GraphDraft.ofSources [interfacing members]).named.get? (.symbol ⟨1⟩, "Card") = some ⟨2⟩)
    (honce : ((GraphDraft.ofSources [interfacing members]).builder.kindsOf ⟨2⟩).length = 1) :
    SoleInterface [interfacing members] (.symbol ⟨1⟩) ⟨"Card", [], [], members, false⟩ ⟨2⟩ where
  declared := by
    rw [GraphDraft.declarationsOf, GraphDraft.declarationsIn, interfacing]
    simp only [List.zipIdx_singleton, List.flatMap_cons, List.flatMap_nil, List.append_nil]
    rw [← interfacing, hfiles]
    exact List.mem_singleton_self _
  named := hname
  once := honce

/-- An optional property, an index signature and a property without an annotation. -/
def cardMembers : List InterfaceMember := [
  .property ⟨⟨0, 0⟩, .known "full name", false, true, false, none, some (.keyword .string), none⟩,
  .index ⟨⟨0, 0⟩, false, false, some (.keyword .string), .keyword .number⟩,
  .property ⟨⟨0, 0⟩, .known "age", false, false, true, none, none, none⟩]

theorem cardMembers_propertyBody : PropertyBody cardMembers where
  plain := by simp [cardMembers, InterfaceMember.IsPlain]
  distinct := by decide
  single := by decide

/-- All that extraction comes to is the export of the module. -/
theorem card_sole : (ofSources [interfacing cardMembers] none).ownFiles.filter
      ((ofSources [interfacing cardMembers] none).accepts {}) = [⟨"a.ts", some ⟨1⟩⟩] ∧
    ((ofSources [interfacing cardMembers] none).symbol? ⟨1⟩).map (·.exports.entries) = some [("Card", ⟨2⟩)] :=
  ⟨by decide +kernel, by decide +kernel⟩

theorem extract_card : ((ofSources [interfacing cardMembers] none).extract {}).toOption.map bodyListings =
    some [([("full name", true), ("age", false)], true)] := by
  rw [extract_of_sole card_sole.1 card_sole.2]
  decide +kernel

/-- The record of such an interface lists its body. -/
theorem card_listsBody : ∃ doc t k d site, (ofSources [interfacing cardMembers] none).extract {} = .ok doc ∧
    doc.class? k = some d ∧
      d.ListsBody ((GraphDraft.ofSources [interfacing cardMembers]).laidOut none) t site cardMembers := by
  have hlistings := extract_card
  obtain ⟨doc, t, hdoc, -, hbodies⟩ | ⟨e, he, -⟩ := extract_listsBodies [interfacing cardMembers] none {}
  · have hsole : SoleInterface [interfacing cardMembers] (.symbol ⟨1⟩) ⟨"Card", [], [], cardMembers, false⟩ ⟨2⟩ :=
      interfacing_sole (by decide +kernel) (by decide +kernel) (by decide +kernel)
    have hreached : (ofSources [interfacing cardMembers] none).Assembled {} ⟨2⟩ :=
      assembled_of_sole card_sole.1 card_sole.2 (by decide +kernel)
    obtain ⟨k, d, site, place, before, -, hd, -, -, -, hlists⟩ := hbodies hsole cardMembers_propertyBody
      (.inr (by decide)) hreached
    exact ⟨doc, t, k, d, _, hdoc, hd, hlists⟩
  · simp [he, Except.toOption] at hlistings

/-- A property with the name of an index signature, and one. -/
def lostMembers : List InterfaceMember := [
  .property ⟨⟨0, 0⟩, .known Site.indexMember, false, false, false, none, some (.keyword .string), none⟩,
  .index ⟨⟨0, 0⟩, false, false, some (.keyword .string), .keyword .number⟩]

/-- **Behind a property that has its name an index signature is lost**: the body has one, and it is documented as the
property only. -/
theorem indexMember_lost : PropertyBody lostMembers ∧ (indexesIn lostMembers).length = 1 ∧
    SoleInterface [interfacing lostMembers] (.symbol ⟨1⟩) ⟨"Card", [], [], lostMembers, false⟩ ⟨2⟩ ∧
      ((ofSources [interfacing lostMembers] none).extract {}).toOption.map bodyListings =
        some [([("__index", false)], false)] := by
  refine ⟨⟨by simp [lostMembers, InterfaceMember.IsPlain], by decide, by decide⟩, rfl, ?_, ?_⟩
  · exact interfacing_sole (by decide +kernel) (by decide +kernel) (by decide +kernel)
  · have hfiles : (ofSources [interfacing lostMembers] none).ownFiles.filter
        ((ofSources [interfacing lostMembers] none).accepts {}) = [⟨"a.ts", some ⟨1⟩⟩] := by decide +kernel
    have hexports : ((ofSources [interfacing lostMembers] none).symbol? ⟨1⟩).map (·.exports.entries) =
        some [("Card", ⟨2⟩)] := by decide +kernel
    rw [extract_of_sole hfiles hexports]
    decide +kernel

end SymbolGraph

end ApiDocs
