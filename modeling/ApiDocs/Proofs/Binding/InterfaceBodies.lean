import ApiDocs.Proofs.Binding.SymbolFacts

/-!
# Bodies of interfaces

A member of an interface gets a symbol of its own in the table of the interface, if nothing has its name there. An
index signature has a name in this table, too, so a body is kept as it is written where its properties have names
of their own and none has that of an index signature.

## Main definitions

* `TypeScript.InterfaceMember.IsPlain`: properties and index signatures.
* `Site.Draws`: what is known of the symbol of a member.

## Main results

* `GraphDraft.interfaceMembers_add`: the members of an interface get symbols one after the other.
-/

namespace ApiDocs

open TypeScript

/-! ## Bodies -/

namespace TypeScript.InterfaceMember

/-- The member as a property. -/
def property? : InterfaceMember → Option PropertyTree
  | .property p => some p
  | _ => none

/-- The member as an index signature. -/
def index? : InterfaceMember → Option IndexTree
  | .index i => some i
  | _ => none

/-- The member is a property signature with a name that is not computed, or an index signature. -/
def IsPlain : InterfaceMember → Prop
  | .property p => (∃ n, p.key = .known n) ∧ p.isStatic = false ∧ p.access = none
  | .index i => i.isStatic = false
  | _ => False

/-- The name of the member in the table of the interface. -/
def slot : InterfaceMember → Option String
  | .property p => Site.memberName? p.key
  | .index _ => some Site.indexMember
  | _ => none

end TypeScript.InterfaceMember

/-- The properties in the body of an interface. -/
def propertiesIn (members : List InterfaceMember) : List PropertyTree := members.filterMap (·.property?)

/-- The index signatures in the body of an interface. -/
def indexesIn (members : List InterfaceMember) : List IndexTree := members.filterMap (·.index?)

/-- The body consists of properties that have names of their own, and of one index signature at most. -/
structure PropertyBody (members : List InterfaceMember) : Prop where
  plain : ∀ x ∈ members, x.IsPlain
  distinct : ((propertiesIn members).map (·.key)).Nodup
  single : (indexesIn members).length ≤ 1

namespace Site

/-- The expression of the type of a property. -/
def propertyType (site : Site) (p : PropertyTree) : TypeExpr :=
  (match p.type with
    | some t => some (site.typeExpr t)
    | none => p.value.bind (site.infer? p.isReadonly)).getD .any

/-- What is known of the symbol of a property. -/
def propertyFacts (site : Site) (name : String) (p : PropertyTree) : SymbolFacts where
  name := name
  flags := withOptional SymbolFlags.propertyBit p.isOptional
  declarations := [{
    kind := .property, pos := site.pos p.span, modifiers := memberModifiers none false p.isReadonly false }]
  notes := { types := [site.propertyType p] }

/-- What is noted of an index signature. -/
def indexDraft (site : Site) (m : SymbolId) (i : IndexTree) : IndexDraft where
  symbol := m
  declaration := 0
  key := i.key.map site.typeExpr
  value := site.typeExpr i.value

/-- What is known of the symbol of an index signature. -/
def indexFacts (site : Site) (m : SymbolId) (i : IndexTree) : SymbolFacts where
  name := indexMember
  flags := SymbolFlags.indexSignatureBit
  declarations := [{
    kind := .indexSignature, pos := site.pos i.span, modifiers := flagIf i.isReadonly ModifierFlags.readonlyBit }]
  notes := { indexes := [site.indexDraft m i] }

/-- **What is known of the symbol of a member.** -/
inductive Draws (site : Site) (m : SymbolId) : InterfaceMember → SymbolFacts → Prop where
  | property {p : PropertyTree} {n : String} : p.key = .known n → p.isStatic = false → p.access = none →
    Draws site m (.property p) (site.propertyFacts n p)
  | index {i : IndexTree} : i.isStatic = false → Draws site m (.index i) (site.indexFacts m i)

end Site

namespace GraphDraft

variable {d d' : GraphDraft} {s m : SymbolId} {name : String} {flags : SymbolFlags} {x : Declaration}
  {facts : SymbolFacts}

/-! ## One more member -/

/-- The symbol of a new member is in the table of its owner, and other symbols stay as they are. -/
structure AddsMember (d : GraphDraft) (s : SymbolId) (name : String) (facts : SymbolFacts) (d' : GraphDraft) :
    Prop where
  entries : (d'.builder.membersOf s).entries = (d.builder.membersOf s).entries ++ [(name, d.builder.next)]
  facts : d'.factsOf d.builder.next = facts
  kept : ∀ m, m.Within d.extent → d'.factsOf m = d.factsOf m

theorem addMember_adds (hd : d.Housed) (hs : s.Within d.extent)
    (hnone : (d.builder.membersOf s).get? name = none) (flags : SymbolFlags) (x : Declaration) :
    d.AddsMember s name ⟨name, flags, [x], {}⟩ { d with builder := d.builder.addMember s name flags false x } := by
  refine ⟨?_, ?_, fun m hm => factsOf_addMember hm s name flags false x⟩
  · have htable := GraphBuilder.memberTable_addMember hs name flags false x s false
    rw [if_pos ⟨rfl, rfl⟩] at htable
    change ((d.builder.addMember s name flags false x).memberTable s false).entries = _
    rw [htable, Table.entries_insert_of_notMem]
    · rfl
    · intro hkey
      obtain ⟨m, hm⟩ := Table.mem_keys_iff.mp hkey
      exact Option.some_ne_none _ ((Table.get?_eq_some_iff.mpr hm).symm.trans hnone)
  · have hnotes : d.notesOf d.builder.next = {} := (hd _ (GraphBuilder.kindsOf_next d.builder)).2
    change SymbolFacts.mk _ _ _ (d.notesOf d.builder.next) = _
    rw [hnotes, GraphBuilder.nameOf_addMember, GraphBuilder.flagsOf_addMember, if_pos rfl,
      GraphBuilder.declarationsOf_addMember, if_pos rfl]

/-- The member is documented. -/
theorem AddsMember.attachDoc (h : d.AddsMember s name facts d') (hle : d.builder.Enlarges d'.builder)
    (hnext : d.builder.next.Within d'.extent) (m : SymbolId) (doc : String) :
    d.AddsMember s name facts (attachDoc m doc d').2 := by
  have hrun : GraphDraft.attachDoc m doc d' =
      (if !doc.isEmpty && (d'.builder.docOf m).isEmpty then rebuild (·.setDoc m doc) else pure ()) d' := rfl
  rw [hrun]
  split
  · refine ⟨?_, ?_, fun m' hm' => ?_⟩
    · have htable := GraphBuilder.memberTable_setDoc (b := d'.builder) m doc s false
      exact (congrArg Table.entries htable).trans h.entries
    · exact (factsOf_setDoc hnext m doc).trans h.facts
    · exact (factsOf_setDoc (hle.within hm') m doc).trans (h.kept m' hm')
  · exact h

/-- Something is noted of the member. -/
theorem AddsMember.note {d'' : GraphDraft} {notes : SymbolNotes} {declarations : List Declaration}
    (h : d.AddsMember s name ⟨name, flags, declarations, {}⟩ d')
    (hbuilder : d''.builder = d'.builder) (hnotes : d'.notesOf d.builder.next = {} → d''.notesOf d.builder.next = notes)
    (hothers : ∀ m, d.builder.next ≠ m → d''.notesOf m = d'.notesOf m) :
    d.AddsMember s name ⟨name, flags, declarations, notes⟩ d'' := by
  obtain ⟨hentries, hfacts, hkept⟩ := h
  refine ⟨?_, ?_, fun m hm => ?_⟩
  · rw [hbuilder]
    exact hentries
  · have hblank : d'.notesOf d.builder.next = {} := congrArg SymbolFacts.notes hfacts
    rw [factsOf, hnotes hblank, hbuilder]
    rw [factsOf, hblank] at hfacts
    injection hfacts with hname hflags hdeclarations
    rw [hname, hflags, hdeclarations]
  · exact (factsOf_noted hbuilder (hothers m (GraphBuilder.ne_next_of_within hm).symm)).trans (hkept m hm)

theorem bindMember_eq (hnone : (d.builder.membersOf s).get? name = none) (flags : SymbolFlags) :
    bindMember s name flags false d = (d.builder.next,
      { d with builder := (d.builder.addSymbol name flags).2.enlist s name d.builder.next false }) := by
  cases (bindMember_binds d s name flags false).post with
  | again hget _ => exact nomatch hnone.symm.trans hget
  | new _ hs hd => exact Prod.ext hs hd

/-- A property gets a symbol of its own. -/
theorem property_adds (hd : d.Housed) (hs : s.Within d.extent) (site : Site) {p : PropertyTree} {n : String}
    (hkey : p.key = .known n) (hstatic : p.isStatic = false) (haccess : p.access = none)
    (hnone : (d.builder.membersOf s).get? n = none) :
    ∃ facts, site.Draws d.builder.next (.property p) facts ∧ d.AddsMember s n facts (site.property s p d).2 := by
  refine ⟨_, .property hkey hstatic haccess, ?_⟩
  let x : Declaration :=
    { kind := .property, pos := site.pos p.span, modifiers := Site.memberModifiers none false p.isReadonly false }
  have hadded := addMember_adds hd hs hnone (Site.withOptional SymbolFlags.propertyBit p.isOptional) x
  have hdocumented := hadded.attachDoc (.addMember s n _ false x) (GraphBuilder.next_within_addMember _ s n _ false x)
    d.builder.next (site.docAt p.span.start).summaryText
  have hrun : (site.property s p d).2 = (noteType d.builder.next (site.propertyType p)
      (GraphDraft.attachDoc d.builder.next (site.docAt p.span.start).summaryText { d with
        builder :=
          d.builder.addMember s n (Site.withOptional SymbolFlags.propertyBit p.isOptional) false x }).2).2 := by
    have hbound := bindMember_eq hnone (Site.withOptional SymbolFlags.propertyBit p.isOptional)
    unfold Site.property
    rw [hkey, hstatic, haccess]
    change ((fun r : SymbolId × GraphDraft => (do
      discard (site.declare r.1 .property p.span (Site.memberModifiers none false p.isReadonly false))
      GraphDraft.attachDoc r.1 (site.docAt p.span.start).summaryText
      noteType r.1 (site.propertyType p) : Drafting Unit) r.2) (bindMember s n _ false d)).2 = _
    rw [hbound]
    rfl
  rw [hrun]
  exact hdocumented.note rfl (fun h => notesOf_typed_self h _) fun m hm => notesOf_typed hm _

/-- An index signature gets a symbol of its own. -/
theorem indexSignature_adds (hd : d.Housed) (hs : s.Within d.extent) (site : Site) {i : IndexTree}
    (hstatic : i.isStatic = false) (hnone : (d.builder.membersOf s).get? Site.indexMember = none) :
    ∃ facts, site.Draws d.builder.next (.index i) facts ∧
      d.AddsMember s Site.indexMember facts (site.indexSignature s i d).2 := by
  refine ⟨_, .index hstatic, ?_⟩
  let x : Declaration := {
    kind := .indexSignature, pos := site.pos i.span
    modifiers := Site.flagIf i.isReadonly ModifierFlags.readonlyBit }
  have hadded := addMember_adds hd hs hnone SymbolFlags.indexSignatureBit x
  let y := site.indexDraft d.builder.next i
  have hrun : (site.indexSignature s i d).2 = { d with
      builder := d.builder.addMember s Site.indexMember SymbolFlags.indexSignatureBit false x
      indexes := d.indexes ++ [y] } := by
    have hbound := bindMember_eq hnone SymbolFlags.indexSignatureBit
    let b := (d.builder.addSymbol Site.indexMember SymbolFlags.indexSignatureBit).2.enlist s Site.indexMember
      d.builder.next false
    have hposition : (b.declare d.builder.next x).1 = 0 := by
      rw [GraphBuilder.declare_fst, GraphBuilder.declarationsOf_enlist, GraphBuilder.declarationsOf_addSymbol,
        GraphBuilder.declarationsOf_next, List.length_nil]
    unfold Site.indexSignature
    rw [hstatic]
    change ((fun r : SymbolId × GraphDraft => (do
      let declaration ← site.declare r.1 .indexSignature i.span x.modifiers
      modify fun d => { d with indexes := d.indexes ++ [{
        symbol := r.1, declaration, key := i.key.map site.typeExpr, value := site.typeExpr i.value }] } :
          Drafting Unit) r.2) (bindMember s Site.indexMember SymbolFlags.indexSignatureBit false d)).2 = _
    rw [hbound]
    change ({ d with
      builder := (b.declare d.builder.next x).2
      indexes := d.indexes ++ [{ y with declaration := (b.declare d.builder.next x).1 }] } : GraphDraft) = _
    rw [hposition]
    rfl
  rw [hrun]
  exact hadded.note rfl (fun h => notesOf_indexed_self h rfl) fun m hm => notesOf_indexed hm

/-- A member gets a symbol of its own. -/
theorem interfaceMember_adds (hd : d.Housed) (hs : s.Within d.extent) (site : Site) {x : InterfaceMember} {n : String}
    (hx : x.IsPlain) (hslot : x.slot = some n) (hnone : (d.builder.membersOf s).get? n = none) :
    ∃ facts, site.Draws d.builder.next x facts ∧ d.AddsMember s n facts (site.interfaceMember s x d).2 := by
  cases x with
  | property p =>
    obtain ⟨⟨n', hkey⟩, hstatic, haccess⟩ := hx
    obtain rfl : n' = n := by simpa [InterfaceMember.slot, hkey, Site.memberName?] using hslot
    exact property_adds hd hs site hkey hstatic haccess hnone
  | index i =>
    obtain rfl := Option.some.inj hslot
    exact indexSignature_adds hd hs site hx hnone
  | method m => exact hx.elim
  | construct span f => exact hx.elim
  | call => exact hx.elim

/-! ## All members -/

/-- **The member is drawn up**: it has its name in the table, and its symbol is as it is written. -/
structure Drawn (site : Site) (d : GraphDraft) (x : InterfaceMember) (e : String × SymbolId) : Prop where
  slot : x.slot = some e.1
  within : e.2.Within d.extent
  facts : site.Draws e.2 x (d.factsOf e.2)

theorem Drawn.kept {site : Site} {x : InterfaceMember} {e : String × SymbolId} (h : Drawn site d x e)
    (hle : d.builder.Enlarges d'.builder) (hfacts : d'.factsOf e.2 = d.factsOf e.2) : Drawn site d' x e :=
  ⟨h.slot, hle.within h.within, hfacts ▸ h.facts⟩

theorem Drawn.part_cases {site : Site} {x : InterfaceMember} {e : String × SymbolId} (h : Drawn site d x e) :
    (∃ p, x = .property p) ∨ ∃ i, x = .index i := by
  obtain ⟨-, -, hfacts⟩ := h
  generalize d.factsOf e.2 = facts at hfacts
  cases hfacts with
  | property => exact .inl ⟨_, rfl⟩
  | index => exact .inr ⟨_, rfl⟩

theorem Drawn.property_facts {site : Site} {p : PropertyTree} {e : String × SymbolId}
    (h : Drawn site d (.property p) e) : ∃ n, p.key = .known n ∧ d.factsOf e.2 = site.propertyFacts n p := by
  obtain ⟨-, -, hfacts⟩ := h
  generalize d.factsOf e.2 = facts at hfacts ⊢
  cases hfacts with
  | property hkey => exact ⟨_, hkey, rfl⟩

theorem Drawn.index_facts {site : Site} {i : IndexTree} {e : String × SymbolId} (h : Drawn site d (.index i) e) :
    d.factsOf e.2 = site.indexFacts e.2 i := by
  obtain ⟨-, -, hfacts⟩ := h
  generalize d.factsOf e.2 = facts at hfacts ⊢
  cases hfacts with
  | index => rfl

/-- **The members of an interface** get symbols one after the other. -/
theorem interfaceMembers_add {members : List InterfaceMember} (hplain : ∀ x ∈ members, x.IsPlain)
    (hslots : (members.map (·.slot)).Nodup) (site : Site) (hd : housing.Good d) (hs : housing.There d s)
    (hnone : ∀ x ∈ members, ∀ n ∈ x.slot, (d.builder.membersOf s).get? n = none) :
    ∃ new, d.builder.Enlarges (members.forM (site.interfaceMember s) d).2.builder ∧
      ((members.forM (site.interfaceMember s) d).2.builder.membersOf s).entries =
        (d.builder.membersOf s).entries ++ new ∧
      List.Forall₂ (Drawn site (members.forM (site.interfaceMember s) d).2) members new ∧
      ∀ m, m.Within d.extent → (members.forM (site.interfaceMember s) d).2.factsOf m = d.factsOf m := by
  induction members generalizing d with
  | nil => exact ⟨[], .refl _, (List.append_nil _).symm, .nil, fun _ _ => rfl⟩
  | cons x members ih =>
    obtain ⟨hx, hplain⟩ := List.forall_mem_cons.mp hplain
    obtain ⟨hfresh, hslots⟩ := List.nodup_cons.mp hslots
    obtain ⟨n, hn⟩ : ∃ n, x.slot = some n := by
      cases x with
      | property p =>
        obtain ⟨⟨n, hkey⟩, -, -⟩ := hx
        exact ⟨n, by rw [InterfaceMember.slot, hkey]; rfl⟩
      | index i => exact ⟨_, rfl⟩
      | method m => exact hx.elim
      | construct span f => exact hx.elim
      | call => exact hx.elim
    obtain ⟨facts, hdraws, hadds⟩ := interfaceMember_adds hd.2 hs.1 site hx hn (hnone x (by simp) n hn)
    obtain ⟨hgood, hle, -⟩ := Rule.interfaceMember_obeys hd hs site x fun _ _ => trivial
    have hrun : ((x :: members).forM (site.interfaceMember s) d).2 =
        (members.forM (site.interfaceMember s) (site.interfaceMember s x d).2).2 := rfl
    rw [hrun]
    generalize (site.interfaceMember s x d).2 = d₁ at hadds hgood hle ⊢
    have hrest : ∀ y ∈ members, ∀ k ∈ y.slot, (d₁.builder.membersOf s).get? k = none := by
      intro y hy k hk
      by_contra hsome
      obtain ⟨m, hm⟩ := Option.ne_none_iff_exists'.mp hsome
      rw [Table.get?_eq_some_iff, hadds.entries, List.mem_append, List.mem_singleton] at hm
      rcases hm with hold | hnew
      · have hget := Table.get?_eq_some_iff.mpr hold
        rw [hnone y (List.mem_cons_of_mem x hy) k hk] at hget
        cases hget
      · obtain ⟨rfl, -⟩ := Prod.mk.inj hnew
        exact hfresh (List.mem_map.mpr ⟨y, hy, (Option.mem_def.mp hk).trans hn.symm⟩)
    obtain ⟨new, hrestLe, hentries, hdrawn, hkept⟩ := ih hplain hslots hgood (Rule.there_mono hle hs) hrest
    have hnext : d.builder.next.Within d₁.extent := by
      have hentry : (n, d.builder.next) ∈ (d₁.builder.memberTable s false).entries := by
        rw [GraphBuilder.memberTable_false, hadds.entries]
        exact List.mem_append_right _ (List.mem_singleton.mpr rfl)
      exact hgood.1.builder.within_of_memberTable (Table.get?_eq_some_iff.mpr hentry)
    refine ⟨(n, d.builder.next) :: new, hle.trans hrestLe, ?_, .cons ⟨hn, hrestLe.within hnext, ?_⟩ hdrawn,
      fun m hm => ?_⟩
    · rw [hentries, hadds.entries, List.append_assoc]
      rfl
    · rw [hkept _ hnext, hadds.facts]
      exact hdraws
    · exact (hkept m (hle.within hm)).trans (hadds.kept m hm)

end GraphDraft

end ApiDocs
