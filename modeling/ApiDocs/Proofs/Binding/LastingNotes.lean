import ApiDocs.Proofs.Binding.SymbolFacts

/-!
# Notes that last

What is noted stays, and other notes come behind it. An index signature is noted once, as it is declared once. No
name and no table leads to a parameter, so nothing is noted of it later on. Nor is it of anything else that is not
declared again: only then something may become an enum, a function or a class besides, and a type alias get another
type.

## Main definitions

* `GraphDraft.Follows`: notes come behind those of another draft.
* `GraphDraft.Numbered`: no two index signatures are noted for one declaration.
* `GraphDraft.OnlyTyped`: nothing but types is noted of a symbol.
* `GraphDraft.Unreached`: nothing leads to a symbol.
* `GraphDraft.Lone`: what is noted of a symbol stays, unless that is declared again.

## Main results

* `GraphDraft.following`, `GraphDraft.numbering`, `GraphDraft.secluding`, `GraphDraft.keeping`: reading preserves
  these.
-/

namespace ApiDocs

namespace GraphDraft

variable {d d' d₀ : GraphDraft} {s m : SymbolId} {b : GraphBuilder} {e : TypeExpr} {ks : List DeclarationKind}

/-! ## Notes -/

/-- Notes come behind those of the other draft. -/
structure Follows (d₀ d : GraphDraft) : Prop where
  types : d₀.symbolTypes <+: d.symbolTypes
  signatures : d₀.signatures <+: d.signatures
  indexes : d₀.indexes <+: d.indexes

theorem Follows.refl (d : GraphDraft) : d.Follows d := ⟨List.prefix_rfl, List.prefix_rfl, List.prefix_rfl⟩

theorem Follows.same (h : d₀.Follows d) (htypes : d'.symbolTypes = d.symbolTypes)
    (hsignatures : d'.signatures = d.signatures) (hindexes : d'.indexes = d.indexes) : d₀.Follows d' :=
  ⟨htypes ▸ h.types, hsignatures ▸ h.signatures, hindexes ▸ h.indexes⟩

/-- **What is noted stays.** -/
def following (d₀ : GraphDraft) : Rule where
  Inv := d₀.Follows
  Open _ _ := True
  open_mono _ h := h
  alike halike h := h.same halike.symbolTypes halike.signatures halike.indexes
  fresh _ _ _ h _ := ⟨{ h with }, trivial⟩
  named _ _ _ _ h _ _ := ⟨{ h with }, trivial⟩
  again _ _ _ _ _ h _ _ _ := ⟨{ h with }, trivial⟩
  member _ _ _ _ _ h _ _ _ _ := ⟨{ h with }, trivial⟩
  memberAgain _ _ _ _ _ _ h _ _ _ _ _ := ⟨{ h with }, trivial⟩
  documented _ h _ := { h with }
  exported _ _ h _ _ _ := { h with }
  typed h _ _ := { h with types := h.types.trans (List.prefix_append ..) }
  aliased _ _ h _ := { h with }
  signed _ h _ _ := { h with signatures := h.signatures.trans (List.prefix_append ..) }
  indexed _ h _ _ _ _ _ := { h with indexes := h.indexes.trans (List.prefix_append ..) }
  classed _ h _ := { h with }
  linked _ h _ := { h with }

theorem following_admitsAll (d₀ : GraphDraft) : (following d₀).AdmitsAll where
  may _ _ := trivial
  counts _ _ := trivial
  enumerates := by
    refine Rule.enumerates_of_members (fun _ _ _ h _ _ _ _ _ => ⟨?_, trivial⟩)
      (fun _ _ _ _ h _ _ _ _ _ _ => ⟨?_, trivial⟩) fun {d s} members h _ => ?_
    · exact Follows.same h rfl rfl rfl
    · exact Follows.same h rfl rfl rfl
    · change d₀.Follows (if _ then _ else _ : GraphDraft)
      split <;> exact Follows.same h rfl rfl rfl
  files := ⟨fun _ h => { h.2 with }, fun _ h => { h.2 with }⟩

theorem LeadsWith.follows {os : List SymbolId} (h : LeadsWith os d d') (hd : d.Inside)
    (hos : ∀ s ∈ os, s.Within d.extent) : d.Follows d' :=
  (h (following d) (following_admitsAll d) ⟨hd, .refl d⟩ fun s hs => ⟨hos s hs, trivial⟩).1.2

/-! ## Index signatures -/

/-- **Index signatures that are noted were declared**, and no two of them are one declaration. -/
structure Numbered (d : GraphDraft) : Prop where
  declared : ∀ x ∈ d.indexes, x.declaration < (d.builder.kindsOf x.symbol).length
  distinct : (d.indexes.map fun x => (x.symbol, x.declaration)).Nodup

/-- Of a declaration one index signature is noted. -/
theorem Numbered.eq_of_declaration (h : d.Numbered) {x y : IndexDraft} (hx : x ∈ d.indexes) (hy : y ∈ d.indexes)
    (hsymbol : x.symbol = y.symbol) (hdeclaration : x.declaration = y.declaration) : x = y :=
  List.inj_on_of_nodup_map h.distinct hx hy (Prod.ext hsymbol hdeclaration)

theorem Numbered.rebuilt (h : d.Numbered) (hle : d.builder.Enlarges b) : Numbered { d with builder := b } :=
  ⟨fun x hx => Nat.lt_of_lt_of_le (h.declared x hx) (hle.kinds x.symbol).length_le, h.distinct⟩

theorem Numbered.same (h : d.Numbered) (hbuilder : d'.builder = d.builder) (hindexes : d'.indexes = d.indexes) :
    d'.Numbered := by
  refine ⟨fun x hx => ?_, ?_⟩
  · rw [hindexes] at hx
    rw [hbuilder]
    exact h.declared x hx
  · rw [hindexes]
    exact h.distinct

/-- A declaration of which nothing was noted before is noted. -/
theorem Numbered.noted (h : d.Numbered) {x : IndexDraft}
    (hposition : x.declaration + 1 = (d.builder.kindsOf x.symbol).length)
    (hfresh : ∀ y ∈ d.indexes, y.symbol = x.symbol → y.declaration < x.declaration) :
    Numbered { d with indexes := d.indexes ++ [x] } := by
  have hlast : x.declaration < (d.builder.kindsOf x.symbol).length := by omega
  refine ⟨List.forall_mem_append.mpr ⟨h.declared, List.forall_mem_singleton.mpr hlast⟩, ?_⟩
  rw [List.map_append, List.map_singleton]
  refine h.distinct.append (List.nodup_singleton _) (List.disjoint_singleton.mpr fun hmem => ?_)
  obtain ⟨y, hy, hplace⟩ := List.mem_map.mp hmem
  obtain ⟨hsymbol, hdeclaration⟩ := Prod.mk.inj hplace
  exact absurd hdeclaration (hfresh y hy hsymbol).ne

/-- **Reading notes index signatures once.** -/
def numbering : Rule where
  Inv := Numbered
  Open _ _ := True
  open_mono _ h := h
  alike halike h := h.same halike.builder halike.indexes
  fresh name flags x h _ := ⟨h.rebuilt (.addDeclared name flags x), trivial⟩
  named _ name flags x h _ _ := ⟨(h.rebuilt (.addDeclared name flags x)).same rfl rfl, trivial⟩
  again _ _ s flags x h _ _ _ := ⟨h.rebuilt (.declareAgain s flags x), trivial⟩
  member owner name flags isStatic x h _ _ _ _ := ⟨h.rebuilt (.addMember owner name flags isStatic x), trivial⟩
  memberAgain _ _ s flags _ x h _ _ _ _ _ := ⟨h.rebuilt (.declareAgain s flags x), trivial⟩
  documented _ h _ := h.rebuilt (.modifyAside (fun _ => rfl) (fun _ => rfl) fun _ => rfl)
  exported _ _ h _ _ _ := h.rebuilt (.modifyAside (fun _ => rfl) (fun _ => rfl) fun _ => rfl)
  typed h _ _ := h.same rfl rfl
  aliased _ _ h _ := h.same rfl rfl
  signed _ h _ _ := h.same rfl rfl
  indexed {d} x h _ _ _ hposition hbefore := by
    obtain ⟨before, hnumbered, hindexes, hlength⟩ := hbefore
    refine h.noted hposition fun y hy hsymbol => ?_
    rw [← hindexes] at hy
    rw [← hlength, ← hsymbol]
    exact hnumbered.declared y hy
  classed _ h _ := h.same rfl rfl
  linked _ h _ := h.same rfl rfl

theorem numbering_admitsAll : numbering.AdmitsAll where
  may _ _ := trivial
  counts _ _ := trivial
  enumerates := by
    refine Rule.enumerates_of_members (fun owner name x h _ _ _ _ _ => ?_) (fun _ _ s x h _ _ _ _ _ _ => ?_)
      fun {d s} members h _ => ?_
    · exact ⟨Numbered.rebuilt h (.addMember owner name _ true x), trivial⟩
    · exact ⟨Numbered.rebuilt h (.declareAgain s _ x), trivial⟩
    · change Numbered (if _ then _ else _ : GraphDraft)
      split <;> exact Numbered.same h rfl rfl
  files := {
    script := fun path h => h.2.rebuilt (.addScript path)
    newModule := fun path h => (h.2.rebuilt (.addModule path)).same rfl rfl }

theorem ofSources_numbered (sources : List ParsedSource) : (ofSources sources).Numbered :=
  Rule.ofSources (R := numbering) (fun _ _ => trivial) (fun c e _ => numbering_admitsAll.admits _ c e)
    numbering_admitsAll.files ⟨by simp [start], List.nodup_nil⟩

/-! ## Symbols of which only types are noted -/

/-- **Nothing but types is noted of the symbol**: it is neither an enum nor a class, and it has no signatures. -/
structure OnlyTyped (s : SymbolId) (d : GraphDraft) : Prop where
  signatures : ∀ x ∈ d.signatures, x.owner.symbol ≠ s
  classes : ∀ x ∈ d.classes, x.symbol ≠ s
  enums : ∀ x ∈ d.enums, x.symbol ≠ s

namespace OnlyTyped

theorem of_notes (hsignatures : (d.notesOf s).signatures = []) (hclasses : (d.notesOf s).classes = [])
    (henums : (d.notesOf s).enums = []) : OnlyTyped s d where
  signatures x hx heq := List.filter_eq_nil_iff.mp hsignatures x hx (decide_eq_true heq)
  classes x hx heq := List.filter_eq_nil_iff.mp hclasses x hx (decide_eq_true heq)
  enums x hx heq := List.filter_eq_nil_iff.mp henums x hx (decide_eq_true heq)

theorem same (h : OnlyTyped s d) (hsignatures : d'.signatures = d.signatures) (hclasses : d'.classes = d.classes)
    (henums : d'.enums = d.enums) : OnlyTyped s d' :=
  ⟨hsignatures ▸ h.signatures, hclasses ▸ h.classes, henums ▸ h.enums⟩

theorem signed (h : OnlyTyped s d) {x : SignatureDraft} (hx : x.owner.symbol ≠ s) :
    OnlyTyped s { d with signatures := d.signatures ++ [x] } :=
  { h with signatures := List.forall_mem_append.mpr ⟨h.signatures, List.forall_mem_singleton.mpr hx⟩ }

theorem classed (h : OnlyTyped s d) {x : ClassDraft} (hx : x.symbol ≠ s) :
    OnlyTyped s { d with classes := d.classes ++ [x] } :=
  { h with classes := List.forall_mem_append.mpr ⟨h.classes, List.forall_mem_singleton.mpr hx⟩ }

theorem noteEnum (h : OnlyTyped s d) (hm : m ≠ s) (members : List (SymbolId × Option Literal)) :
    OnlyTyped s (noteEnum m members d).2 := by
  change OnlyTyped s (if _ then _ else _ : GraphDraft)
  split
  · refine { h with enums := fun x hx => ?_ }
    obtain ⟨y, hy, rfl⟩ := List.mem_map.mp hx
    split
    · exact h.enums y hy
    · exact h.enums y hy
  · exact { h with enums := List.forall_mem_append.mpr ⟨h.enums, List.forall_mem_singleton.mpr hm⟩ }

end OnlyTyped

/-! ## Parameters -/

/-- **Nothing leads to the symbol**, no name and no table. Its declarations are of these kinds, and only types are
noted of it. -/
structure Unreached (s : SymbolId) (ks : List DeclarationKind) (d : GraphDraft) : Prop where
  within : s.Within d.extent
  named : s ∉ d.named.values
  tables : ∀ c isStatic, s ∉ (d.builder.memberTable c isStatic).values
  kinds : d.builder.kindsOf s = ks
  typed : OnlyTyped s d

namespace Unreached

theorem rebuilt (h : Unreached s ks d) (hle : d.builder.Enlarges b)
    (htables : ∀ c isStatic, s ∉ (b.memberTable c isStatic).values) (hkinds : b.kindsOf s = d.builder.kindsOf s) :
    Unreached s ks { d with builder := b } :=
  ⟨hle.within h.within, h.named, htables, hkinds.trans h.kinds, { h.typed with }⟩

theorem addDeclared (h : Unreached s ks d) (name : String) (flags : SymbolFlags) (x : Declaration) :
    Unreached s ks { d with builder := d.builder.addDeclared name flags x } := by
  refine h.rebuilt (.addDeclared name flags x) (fun c isStatic => ?_) ?_
  · rw [GraphBuilder.memberTable_addDeclared]
    exact h.tables c isStatic
  · rw [GraphBuilder.kindsOf_addDeclared, if_neg (GraphBuilder.ne_next_of_within h.within)]

theorem declareAgain (h : Unreached s ks d) (hm : m.Within d.extent) (hne : m ≠ s) (flags : SymbolFlags)
    (x : Declaration) : Unreached s ks { d with builder := d.builder.declareAgain m flags x } := by
  refine h.rebuilt (.declareAgain m flags x) (fun c isStatic => ?_) ?_
  · rw [GraphBuilder.memberTable_declareAgain]
    exact h.tables c isStatic
  · rw [GraphBuilder.kindsOf_declareAgain hm, if_neg hne.symm]

theorem addMember (h : Unreached s ks d) {owner : SymbolId} (howner : owner.Within d.extent) (name : String)
    (flags : SymbolFlags) (isStatic : Bool) (x : Declaration) :
    Unreached s ks { d with builder := d.builder.addMember owner name flags isStatic x } := by
  have hne := GraphBuilder.ne_next_of_within h.within
  refine h.rebuilt (.addMember owner name flags isStatic x) (fun c isStatic' hmem => ?_) ?_
  · rw [GraphBuilder.memberTable_addMember howner] at hmem
    split at hmem
    · exact (Table.mem_values_insert hmem).elim hne (h.tables c isStatic')
    · exact h.tables c isStatic' hmem
  · rw [GraphBuilder.kindsOf_addMember, if_neg hne]

theorem exportAs (h : Unreached s ks d) (hne : m ≠ s) (container : SymbolId) (name : String) :
    Unreached s ks { d with builder := d.builder.exportAs container name m } := by
  refine h.rebuilt (.modifyAside (fun _ => rfl) (fun _ => rfl) fun _ => rfl) (fun c isStatic hmem => ?_) ?_
  · rw [GraphBuilder.memberTable_exportAs] at hmem
    split at hmem
    · exact (Table.mem_values_insert hmem).elim hne.symm (h.tables c isStatic)
    · exact h.tables c isStatic hmem
  · exact GraphBuilder.kindsOf_exportAs container name m s

/-- Something is noted. -/
theorem noted (h : Unreached s ks d) (hbuilder : d'.builder = d.builder) (hnamed : d'.named = d.named)
    (htyped : OnlyTyped s d') : Unreached s ks d' := by
  refine ⟨?_, hnamed ▸ h.named, hbuilder ▸ h.tables, hbuilder ▸ h.kinds, htyped⟩
  rw [extent, hbuilder]
  exact h.within

end Unreached

/-- **Nothing gets to a symbol that nothing leads to.** -/
def secluding (s : SymbolId) (ks : List DeclarationKind) : Rule where
  Inv := Unreached s ks
  Open d m := m.Within d.extent ∧ m ≠ s
  open_mono hle hm := ⟨hle.within hm.1, hm.2⟩
  alike halike h := h.noted halike.builder halike.named (h.typed.same halike.signatures halike.classes halike.enums)
  fresh name flags x h _ := ⟨h.addDeclared name flags x, GraphBuilder.next_within_addDeclared _ name flags x,
    (GraphBuilder.ne_next_of_within h.within).symm⟩
  named {d} container name flags x h _ _ := by
    have hne := GraphBuilder.ne_next_of_within h.within
    refine ⟨{ h.addDeclared name flags x with named := fun hmem => ?_, typed := { h.typed with } },
      GraphBuilder.next_within_addDeclared _ name flags x, hne.symm⟩
    exact (Table.mem_values_insert hmem).elim hne h.named
  again _ _ m flags x h _ hget hm := by
    have hne : m ≠ s := fun heq => h.named (heq ▸ Table.mem_values_of_get? hget)
    exact ⟨h.declareAgain hm hne flags x, (GraphBuilder.Enlarges.declareAgain m flags x).within hm, hne⟩
  member owner name flags isStatic x h howner _ _ _ :=
    ⟨h.addMember howner.1 name flags isStatic x, GraphBuilder.next_within_addMember _ owner name flags isStatic x,
      (GraphBuilder.ne_next_of_within h.within).symm⟩
  memberAgain owner _ m flags isStatic x h _ _ _ hget hm := by
    have hne : m ≠ s := fun heq => h.tables owner isStatic (heq ▸ Table.mem_values_of_get? hget)
    exact ⟨h.declareAgain hm hne flags x, (GraphBuilder.Enlarges.declareAgain m flags x).within hm, hne⟩
  documented {d m} doc h _ := by
    refine h.rebuilt (.modifyAside (fun _ => rfl) (fun _ => rfl) fun _ => rfl) (fun c isStatic => ?_) ?_
    · rw [GraphBuilder.memberTable_setDoc]
      exact h.tables c isStatic
    · exact GraphBuilder.kindsOf_setDoc m doc s
  exported container name h hm _ _ := h.exportAs hm.2 container name
  typed h _ _ := h.noted rfl rfl { h.typed with }
  aliased _ _ h _ := h.noted rfl rfl { h.typed with }
  signed _ h hm _ := h.noted rfl rfl (h.typed.signed hm.2)
  indexed _ h _ _ _ _ _ := h.noted rfl rfl { h.typed with }
  classed _ h hm := h.noted rfl rfl (h.typed.classed hm.2)
  linked _ h _ := h.noted rfl rfl { h.typed with }

theorem secluding_admitsAll (s : SymbolId) (ks : List DeclarationKind) : (secluding s ks).AdmitsAll where
  may _ _ := trivial
  counts _ _ := trivial
  enumerates := by
    refine Rule.enumerates_of_members (fun owner name x h howner _ _ _ _ => ?_)
      (fun {d} owner name m x h _ _ _ _ hget hm => ?_) fun {d m} members h hm => ?_
    · exact ⟨Unreached.addMember h howner.1 name _ true x, GraphBuilder.next_within_addMember _ owner name _ true x,
        (GraphBuilder.ne_next_of_within h.within).symm⟩
    · have hne : m ≠ s := fun heq => h.tables owner true (heq ▸ Table.mem_values_of_get? hget)
      exact ⟨Unreached.declareAgain h hm hne _ x, (GraphBuilder.Enlarges.declareAgain m _ x).within hm, hne⟩
    · obtain ⟨hbuilder, hnamed⟩ := noteEnum_aside m members d
      exact Unreached.noted h hbuilder hnamed (h.typed.noteEnum hm.2 members)
  files := {
    script := fun path h => h.2.rebuilt (.addScript path) h.2.tables rfl
    newModule := fun {d} path h => by
      have hadded : Unreached s ks { d with builder := (d.builder.addModule path).2 } := by
        refine h.2.rebuilt (.addModule path) (fun c isStatic => ?_) (GraphBuilder.kindsOf_addSymbol d.builder _ _ s)
        exact (GraphBuilder.memberTable_addSymbol d.builder _ _ c isStatic).symm ▸ h.2.tables c isStatic
      exact hadded.noted rfl rfl { hadded.typed with } }

/-! ## Symbols that are declared once -/

/-- **Nothing but types is noted of the symbol**, and it is this type alias if it is one, unless it is declared
again. -/
structure Lone (s : SymbolId) (a : Option TypeExpr) (d : GraphDraft) : Prop where
  declared : d.builder.kindsOf s ≠ []
  kept : Redeclared s d ∨ OnlyTyped s d ∧ d.typeAliases.get? s = a

namespace Lone

variable {a : Option TypeExpr}

theorem grow (h : Lone s a d) (hle : d.builder.Enlarges d'.builder)
    (hkept : ¬ Redeclared s d' → OnlyTyped s d → OnlyTyped s d' ∧ d'.typeAliases.get? s = d.typeAliases.get? s) :
    Lone s a d' := by
  refine ⟨fun hnil => h.declared (List.prefix_nil.mp (hnil ▸ hle.kinds s)), ?_⟩
  by_cases hagain : Redeclared s d'
  · exact .inl hagain
  · obtain ⟨htyped, hget⟩ := h.kept.resolve_left fun h => hagain (h.mono hle)
    obtain ⟨htyped', hsame⟩ := hkept hagain htyped
    exact .inr ⟨htyped', hsame.trans hget⟩

theorem rebuilt (h : Lone s a d) (hle : d.builder.Enlarges b) : Lone s a { d with builder := b } :=
  h.grow hle fun _ htyped => ⟨{ htyped with }, rfl⟩

/-- Something is noted. -/
theorem noted (h : Lone s a d) (hbuilder : d'.builder = d.builder)
    (hkept : ¬ Redeclared s d → OnlyTyped s d → OnlyTyped s d' ∧ d'.typeAliases.get? s = d.typeAliases.get? s) :
    Lone s a d' := by
  refine h.grow (hbuilder ▸ .refl _) fun hagain => hkept ?_
  rwa [Redeclared, hbuilder] at hagain

theorem ne_next (h : Lone s a d) : d.builder.next ≠ s :=
  (GraphBuilder.ne_next_of_within (GraphBuilder.within_of_kindsOf h.declared)).symm

/-- What is declared again is redeclared. -/
theorem declareAgain (h : Lone s a d) (hm : m.Within d.extent) (flags : SymbolFlags) (x : Declaration) :
    Lone s a { d with builder := d.builder.declareAgain m flags x } ∧
      (m = s → Redeclared s { d with builder := d.builder.declareAgain m flags x }) := by
  refine ⟨h.rebuilt (.declareAgain m flags x), ?_⟩
  rintro rfl
  change 1 < ((d.builder.declareAgain m flags x).kindsOf m).length
  rw [GraphBuilder.kindsOf_declareAgain hm, if_pos rfl, List.length_append]
  exact Nat.lt_add_of_pos_left (List.length_pos_iff.mpr h.declared)

end Lone

/-- **Only of what is declared again more is noted than types.** -/
def keeping (s : SymbolId) (a : Option TypeExpr) : Rule where
  Inv := Lone s a
  Open d m := m = s → Redeclared s d
  open_mono hle hm heq := (hm heq).mono hle
  alike halike h := h.noted halike.builder fun _ htyped =>
    ⟨htyped.same halike.signatures halike.classes halike.enums, by rw [halike.typeAliases]⟩
  fresh name flags x h _ := ⟨h.rebuilt (.addDeclared name flags x), fun heq => absurd heq h.ne_next⟩
  named _ name flags x h _ _ := by
    refine ⟨(h.rebuilt (.addDeclared name flags x)).noted rfl fun _ htyped => ⟨{ htyped with }, rfl⟩, fun heq => ?_⟩
    exact absurd heq h.ne_next
  again _ _ _ flags x h _ _ hm := h.declareAgain hm flags x
  member owner name flags isStatic x h _ _ _ _ :=
    ⟨h.rebuilt (.addMember owner name flags isStatic x), fun heq => absurd heq h.ne_next⟩
  memberAgain _ _ _ flags _ x h _ _ _ _ hm := h.declareAgain hm flags x
  documented _ h _ := h.rebuilt (.modifyAside (fun _ => rfl) (fun _ => rfl) fun _ => rfl)
  exported _ _ h _ _ _ := h.rebuilt (.modifyAside (fun _ => rfl) (fun _ => rfl) fun _ => rfl)
  typed h _ _ := h.noted rfl fun _ htyped => ⟨{ htyped with }, rfl⟩
  aliased {d m} site t h hm := h.noted rfl fun hagain htyped =>
    ⟨{ htyped with }, Table.get?_insert_of_ne fun heq => hagain (hm heq.symm)⟩
  signed _ h hm _ := h.noted rfl fun hagain htyped => ⟨htyped.signed fun heq => hagain (hm heq), rfl⟩
  indexed _ h _ _ _ _ _ := h.noted rfl fun _ htyped => ⟨{ htyped with }, rfl⟩
  classed _ h hm := h.noted rfl fun hagain htyped => ⟨htyped.classed fun heq => hagain (hm heq), rfl⟩
  linked _ h _ := h.noted rfl fun _ htyped => ⟨{ htyped with }, rfl⟩

theorem keeping_admitsAll (s : SymbolId) (a : Option TypeExpr) : (keeping s a).AdmitsAll where
  may _ _ := trivial
  counts _ _ := trivial
  enumerates := by
    refine Rule.enumerates_of_members (fun owner name x h _ _ _ _ _ => ?_) (fun _ _ m x h _ _ _ _ _ hm => ?_)
      fun {d m} members h hm => ?_
    · exact ⟨Lone.rebuilt h (.addMember owner name _ true x), fun heq => absurd heq h.ne_next⟩
    · exact Lone.declareAgain h hm _ x
    · obtain ⟨hbuilder, -⟩ := noteEnum_aside m members d
      refine Lone.noted h hbuilder fun hagain htyped => ⟨htyped.noteEnum (fun heq => hagain (hm heq)) members, ?_⟩
      change (if _ then _ else _ : GraphDraft).typeAliases.get? s = _
      split <;> rfl
  files := {
    script := fun path h => h.2.rebuilt (.addScript path)
    newModule := fun path h => (h.2.rebuilt (.addModule path)).noted rfl fun _ htyped => ⟨{ htyped with }, rfl⟩ }

/-- What is declared once stays as it was noted. -/
theorem Lone.of_once {a : Option TypeExpr} (h : Lone s a d) (hone : (d.builder.kindsOf s).length = 1) :
    OnlyTyped s d ∧ d.typeAliases.get? s = a :=
  h.kept.resolve_left fun hagain => absurd hone hagain.ne'

end GraphDraft

end ApiDocs
