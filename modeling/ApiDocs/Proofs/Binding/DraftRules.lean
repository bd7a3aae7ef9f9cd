import ApiDocs.Proofs.Binding.SymbolTables

/-!
# What holds of all drafts

What the steps of reading preserve holds of the draft of any sources. A rule says this once, step by step, and
here it is carried through the syntax of members, declarations, imports and exports.

What a rule needs of a symbol before something is noted of it may be a matter of the rule: the symbol is *open*
to the step. A symbol is open once it was declared, and stays so. What may be exported under which name may be a
matter of the rule, too; then the syntax has to export nothing else.

## Main definitions

* `GraphDraft.BelongsTo`: a symbol may be exported from a container.

* `GraphDraft.Rule`: an invariant of drafts that each kind of step preserves.
* `GraphDraft.Rule.Enumerates`: so do enums.

## Main results

* `GraphDraft.Rule.classLike_obeys`, `GraphDraft.Rule.enumLike_obeys`, …: all syntax preserves the invariant.
-/

namespace ApiDocs

open TypeScript

/-! ## What is exported -/

/-- What is exported where something that has a name is declared. -/
def exportedAs (c : Container) (visibility : Visibility) (name : String) : List (SymbolId × String) :=
  match c, visibility with
  | .symbol c, .exported => [(c, name)]
  | .symbol c, .default => [(c, defaultName)]
  | _, _ => []

/-- The name under which a member is exported, if it is static. -/
def exportedMember (isStatic : Bool) (key : MemberKey) : List String :=
  if isStatic then (Site.memberName? key).toList else []

/-- The names under which a member of a class is exported. -/
def exportedOfClass : ClassMember → List String
  | .method m => exportedMember m.isStatic m.key
  | .property p => exportedMember p.isStatic p.key
  | .index i => if i.isStatic then [Site.indexMember] else []
  | .other => []

/-- The names under which a member of an interface is exported. -/
def exportedOfInterface : InterfaceMember → List String
  | .method m => exportedMember m.isStatic m.key
  | .property p => exportedMember p.isStatic p.key
  | .index i => if i.isStatic then [Site.indexMember] else []
  | .construct .. => []
  | .call => []

theorem mem_exportedMember {name : String} {isStatic : Bool} {key : MemberKey}
    (hname : Site.memberName? key = some name) (hstatic : isStatic = true) :
    name ∈ exportedMember isStatic key := by
  simp [exportedMember, hstatic, hname]

/-! ## Rules -/

namespace GraphDraft

/-- Nothing leads to the symbol, no name and no table, and it is no member of an enum. -/
structure Unlisted (d : GraphDraft) (s : SymbolId) : Prop where
  named : s ∉ d.named.values
  tables : ∀ c isStatic, s ∉ (d.builder.memberTable c isStatic).values
  kinds : .enumMember ∉ d.builder.kindsOf s

/-- What is exported from a container has a name there, or nothing led to it before. -/
def BelongsTo (d : GraphDraft) (s c : SymbolId) : Prop :=
  (∃ n, d.named.get? (.symbol c, n) = some s) ∨ d.Unlisted s

/-- Nothing leads to the symbol that is added next. -/
theorem Inside.unlisted_next {d : GraphDraft} (h : d.Inside) : d.Unlisted d.builder.next where
  named hmem := GraphBuilder.ne_next_of_within (h.named _ hmem) rfl
  tables _ _ hmem := GraphBuilder.ne_next_of_within (h.builder.within_of_mem_memberTable hmem) rfl
  kinds := by simp [GraphBuilder.kindsOf_next]

/-- **An invariant of drafts that each kind of step preserves.** Members of enums are another matter, as only
they are declared without being named or noted. -/
structure Rule where
  Inv : GraphDraft → Prop
  /-- Something may be noted of the symbol. -/
  Open : GraphDraft → SymbolId → Prop
  /-- Something other than a member of an enum may be exported from the symbol under the name. -/
  May : SymbolId → String → Prop := fun _ _ => True
  /-- The enum that has the symbol may have a member of the name. -/
  MayCount : SymbolId → String → Prop := fun _ _ => True
  open_mono : ∀ {d d' : GraphDraft} {s}, d.builder.Enlarges d'.builder → Open d s → Open d' s
  alike : ∀ {d d'}, d.Alike d' → Inv d → Inv d'
  /-- A symbol that no name leads to. -/
  fresh : ∀ {d} name flags x, Inv d → x.AsRead flags →
    Inv { d with builder := d.builder.addDeclared name flags x } ∧
      Open { d with builder := d.builder.addDeclared name flags x } d.builder.next
  /-- A name that is declared for the first time. -/
  named : ∀ {d} container name flags x, Inv d → x.AsRead flags → d.named.get? (container, name) = none →
    Inv { d with
      builder := d.builder.addDeclared name flags x
      named := d.named.insert (container, name) d.builder.next } ∧
    Open { d with
      builder := d.builder.addDeclared name flags x
      named := d.named.insert (container, name) d.builder.next } d.builder.next
  /-- A name that is declared again. -/
  again : ∀ {d} container name s flags x, Inv d → x.AsRead flags →
    d.named.get? (container, name) = some s → s.Within d.extent →
    Inv { d with builder := d.builder.declareAgain s flags x } ∧
      Open { d with builder := d.builder.declareAgain s flags x } s
  /-- A member that is declared for the first time. -/
  member : ∀ {d} owner name flags isStatic x, Inv d → Open d owner → x.AsRead flags →
    (isStatic = true → May owner name) → (d.builder.memberTable owner isStatic).get? name = none →
    Inv { d with builder := d.builder.addMember owner name flags isStatic x } ∧
      Open { d with builder := d.builder.addMember owner name flags isStatic x } d.builder.next
  /-- A member that is declared again. -/
  memberAgain : ∀ {d} owner name s flags isStatic x, Inv d → Open d owner → x.AsRead flags →
    (isStatic = true → May owner name) → (d.builder.memberTable owner isStatic).get? name = some s →
    s.Within d.extent →
    Inv { d with builder := d.builder.declareAgain s flags x } ∧
      Open { d with builder := d.builder.declareAgain s flags x } s
  documented : ∀ {d s} doc, Inv d → Open d s → Inv { d with builder := d.builder.setDoc s doc }
  exported : ∀ {d s} container name, Inv d → Open d s → d.BelongsTo s container → May container name →
    Inv { d with builder := d.builder.exportAs container name s }
  typed : ∀ {d s e}, Inv d → Open d s → e.Written → Inv { d with symbolTypes := d.symbolTypes ++ [(s, e)] }
  aliased : ∀ {d s} (site : Site) t, Inv d → Open d s →
    Inv { d with typeAliases := d.typeAliases.insert s (site.typeExpr t) }
  signed : ∀ {d} x, Inv d → Open d x.owner.symbol → (∀ e ∈ x.result, e.Written) →
    Inv { d with signatures := d.signatures ++ [x] }
  /-- An index signature is noted when it was declared last, and none was noted since. -/
  indexed : ∀ {d} x, Inv d → Open d x.symbol → (∀ e ∈ x.key, e.Written) → x.value.Written →
    x.declaration + 1 = (d.builder.kindsOf x.symbol).length →
    (∃ before, Inv before ∧ before.indexes = d.indexes ∧
      (before.builder.kindsOf x.symbol).length = x.declaration) →
    Inv { d with indexes := d.indexes ++ [x] }
  classed : ∀ {d} x, Inv d → Open d x.symbol → Inv { d with classes := d.classes ++ [x] }
  linked : ∀ {d} x, Inv d → Open d x.symbol → Inv { d with aliases := d.aliases ++ [x] }

end GraphDraft

namespace GraphDraft

variable {d d' : GraphDraft} {s : SymbolId}

/-- Documentation preserves an invariant if it does so where there was none. -/
theorem attachDoc_keeps {Inv : GraphDraft → Prop} {doc : String} (hd : Inv d)
    (h : Inv { d with builder := d.builder.setDoc s doc }) :
    (enlarging Inv).Runs (attachDoc s doc) d Anything := by
  unfold attachDoc
  refine Growth.runs_get ?_
  split
  · exact ⟨h, GraphBuilder.Enlarges.modifyAside (fun _ => rfl) (fun _ => rfl) fun _ => rfl, trivial⟩
  · exact Growth.runs_pure hd trivial

theorem bindLocal_alike (site : Site) (name : String) (s : SymbolId) (d : GraphDraft) :
    d.Alike (site.bindLocal name s d).2 := by
  unfold Site.bindLocal
  cases site.localRef? name <;> (constructor <;> rfl)

/-- What stays of a name that is bound where it stands. -/
theorem bindHere_names (site : Site) (d : GraphDraft) (container : Container) (name : String)
    (flags : SymbolFlags) :
    outcome.Runs (site.bindHere container name flags) d (Names d container name flags) := by
  refine (bindNamed_names d container name flags).bind fun s d₁ _ _ hnames => ?_
  exact ⟨trivial, trivial, hnames.alike (bindLocal_alike site name s d₁)⟩

theorem bindMaybe_names (site : Site) (d : GraphDraft) (container : Container) (name : Option String)
    (flags : SymbolFlags) : outcome.Runs (site.bindMaybe container name flags) d
      (Names d container (name.getD defaultName) flags) := by
  cases name with
  | some name => exact bindHere_names site d container name flags
  | none => exact bindNamed_names d container defaultName flags

/-- A name leads to its symbol. -/
theorem Names.get? {container : Container} {name : String} {flags : SymbolFlags} {s : SymbolId}
    (h : Names d container name flags s d') : d'.named.get? (container, name) = some s := by
  cases h with
  | again hget halike =>
    rw [halike.named]
    exact hget
  | new _ hs halike =>
    rw [halike.named, hs, Table.get?_insert_self]

/-- A symbol has the flags that go with its name. -/
theorem Names.flags {container : Container} {name : String} {flags : SymbolFlags} {s : SymbolId}
    (h : Names d container name flags s d') (hd : d.Inside) :
    s.Within d'.extent ∧ (d'.builder.flagsOf s).has flags = true := by
  cases h with
  | again hget halike =>
    have hs : s.Within d.extent := hd.named s (Table.mem_values_of_get? hget)
    rw [extent, halike.builder]
    refine ⟨(GraphBuilder.Enlarges.addFlags s flags).within hs, ?_⟩
    rw [GraphBuilder.flagsOf_addFlags_self hs]
    exact FlagSet.has_union_self _ flags
  | new _ hs halike =>
    rw [extent, halike.builder, hs]
    refine ⟨GraphBuilder.next_within_addSymbol _ name flags, ?_⟩
    change ((d.builder.addSymbol name flags).2.flagsOf d.builder.next).has flags = true
    rw [GraphBuilder.flagsOf_next_addSymbol]
    exact beq_iff_eq.mpr UInt32.and_self

/-- The symbol of a member is there. -/
theorem Binds.within {owner : SymbolId} {name : String} {flags : SymbolFlags} {isStatic : Bool}
    (h : Binds d owner name flags isStatic s d') (hd : d.Inside) : s.Within d'.extent := by
  cases h with
  | again hget h =>
    subst h
    exact (GraphBuilder.Enlarges.addFlags s flags).within (hd.builder.within_of_memberTable hget)
  | new _ hs h =>
    subst hs h
    exact (GraphBuilder.Enlarges.enlist owner name _ isStatic).within
      (GraphBuilder.next_within_addSymbol d.builder name flags)

/-- To find or make the symbol of a name declares nothing. -/
theorem Names.declarationsOf_eq {container : Container} {name : String} {flags : SymbolFlags}
    (h : Names d container name flags s d') (m : SymbolId) :
    d'.builder.declarationsOf m = d.builder.declarationsOf m := by
  cases h with
  | again _ halike =>
    rw [halike.builder]
    refine GraphBuilder.declarationsOf_modifyAside ?_ m
    exact fun _ => rfl
  | new _ _ halike =>
    rw [halike.builder]
    exact GraphBuilder.declarationsOf_addSymbol _ _ _ m

/-- Neither does it to find or make that of a member, and nothing is noted. -/
theorem Binds.declarationsOf_eq {owner : SymbolId} {name : String} {flags : SymbolFlags} {isStatic : Bool}
    (h : Binds d owner name flags isStatic s d') (m : SymbolId) :
    d'.builder.declarationsOf m = d.builder.declarationsOf m := by
  cases h with
  | again _ h =>
    subst h
    refine GraphBuilder.declarationsOf_modifyAside ?_ m
    exact fun _ => rfl
  | new _ hs h =>
    subst hs h
    exact (GraphBuilder.declarationsOf_enlist owner isStatic m).trans
      (GraphBuilder.declarationsOf_addSymbol d.builder name flags m)

theorem Binds.indexes_eq {owner : SymbolId} {name : String} {flags : SymbolFlags} {isStatic : Bool}
    (h : Binds d owner name flags isStatic s d') : d'.indexes = d.indexes := by
  cases h with
  | again _ h | new _ _ h =>
    subst h
    rfl

/-- A new declaration comes behind those that are there. -/
theorem declare_fst (site : Site) (kind : DeclarationKind) (span : Span) (modifiers : ModifierFlags)
    (d : GraphDraft) : (site.declare s kind span modifiers d).1 = (d.builder.kindsOf s).length := by
  rw [GraphBuilder.kindsOf, List.length_map]
  exact GraphBuilder.declare_fst d.builder s { kind, pos := site.pos span, modifiers }

/-- The position of a new declaration is the last one. -/
theorem declare_position (hs : s.Within d.extent) (site : Site) (kind : DeclarationKind) (span : Span)
    (modifiers : ModifierFlags) : (site.declare s kind span modifiers d).1 + 1 =
      ((site.declare s kind span modifiers d).2.builder.kindsOf s).length := by
  let x : Declaration := { kind, pos := site.pos span, modifiers }
  change (d.builder.declare s x).1 + 1 = ((d.builder.declare s x).2.kindsOf s).length
  rw [GraphBuilder.kindsOf, List.length_map, GraphBuilder.declarationsOf_declare hs, if_pos rfl,
    GraphBuilder.declare_fst, List.length_append, List.length_singleton]

/-- Documentation is work on the graph, and no matter of members. -/
theorem attachDoc_builds (s : SymbolId) (doc : String) (d : GraphDraft) :
    ∃ b, d.builder.Enlarges b ∧ (∀ c, b.membersOf c = d.builder.membersOf c) ∧
      (attachDoc s doc d).2 = { d with builder := b } := by
  have hrun : attachDoc s doc d =
      (if !doc.isEmpty && (d.builder.docOf s).isEmpty then rebuild (·.setDoc s doc) else pure ()) d := rfl
  rw [hrun]
  split
  · exact ⟨d.builder.setDoc s doc, .modifyAside (fun _ => rfl) (fun _ => rfl) fun _ => rfl,
      fun c => GraphBuilder.memberTable_setDoc s doc c false, rfl⟩
  · exact ⟨d.builder, .refl _, fun _ => rfl, rfl⟩

/-- So is exporting. -/
theorem publish_builds (place : Placement) (name : String) (s : SymbolId) (d : GraphDraft) :
    ∃ b, d.builder.Enlarges b ∧ (∀ c, b.membersOf c = d.builder.membersOf c) ∧
      (Site.publish place name s d).2 = { d with builder := b } := by
  have hnothing : ∃ b, d.builder.Enlarges b ∧ (∀ c, b.membersOf c = d.builder.membersOf c) ∧
      d = { d with builder := b } := ⟨d.builder, .refl _, fun _ => rfl, rfl⟩
  have hexport : ∀ c name, d.builder.Enlarges (d.builder.exportAs c name s) ∧
      ∀ c', (d.builder.exportAs c name s).membersOf c' = d.builder.membersOf c' := fun c name =>
    ⟨.modifyAside (fun _ => rfl) (fun _ => rfl) fun _ => rfl, fun c' => by
      simpa using GraphBuilder.memberTable_exportAs d.builder c name s c' false⟩
  unfold Site.publish
  cases place.container with
  | script file => cases place.visibility <;> exact hnothing
  | symbol c =>
    cases place.visibility with
    | hidden => exact hnothing
    | exported => exact ⟨_, (hexport c name).1, (hexport c name).2, rfl⟩
    | default => exact ⟨_, (hexport c defaultName).1, (hexport c defaultName).2, rfl⟩

/-- To declare something is work on the graph, and no matter of members. -/
theorem introduce_builds (site : Site) (place : Placement) (name : String) (s : SymbolId) (kind : DeclarationKind)
    (modifiers : ModifierFlags) (d : GraphDraft) :
    ∃ b x, x.kind = kind ∧ (d.builder.declare s x).2.Enlarges b ∧ (∀ c, b.membersOf c = d.builder.membersOf c) ∧
      (site.introduce place name s kind modifiers d).2 = { d with builder := b } := by
  let x : Declaration := { kind, pos := site.pos place.span, modifiers := place.visibility.modifiers ∪ modifiers }
  obtain ⟨b, hle, hmembers, hb⟩ := attachDoc_builds s (site.docAt place.span.start).summaryText
    { d with builder := (d.builder.declare s x).2 }
  obtain ⟨b', hle', hmembers', hb'⟩ := publish_builds place name s { d with builder := b }
  refine ⟨b', x, rfl, hle.trans hle', fun c => ?_, Eq.trans ?_ hb'⟩
  · exact (hmembers' c).trans ((hmembers c).trans (GraphBuilder.memberTable_declare s x c false))
  · exact congrArg (fun d => (Site.publish place name s d).2) hb

/-- Names, tables and kinds of declarations stay. -/
structure Aside (d d' : GraphDraft) : Prop where
  named : d'.named = d.named
  tables : ∀ c isStatic, d'.builder.memberTable c isStatic = d.builder.memberTable c isStatic
  kinds : ∀ s, d'.builder.kindsOf s = d.builder.kindsOf s

/-- Steps that leave names, tables and kinds of declarations alone. -/
def aside : Growth GraphDraft where
  Good _ := True
  Le := Aside
  refl _ := ⟨rfl, fun _ _ => rfl, fun _ => rfl⟩
  trans h h' := ⟨h'.named.trans h.named, fun c isStatic => (h'.tables c isStatic).trans (h.tables c isStatic),
    fun s => (h'.kinds s).trans (h.kinds s)⟩

theorem Unlisted.aside (h : d.Unlisted s) (hle : d.Aside d') : d'.Unlisted s where
  named := by
    rw [hle.named]
    exact h.named
  tables c isStatic := by
    rw [hle.tables]
    exact h.tables c isStatic
  kinds := by
    rw [hle.kinds]
    exact h.kinds

theorem attachDoc_aside (d : GraphDraft) (s : SymbolId) (doc : String) : aside.Runs (attachDoc s doc) d Anything := by
  unfold attachDoc
  refine Growth.runs_get ?_
  split
  · exact ⟨trivial, ⟨rfl, GraphBuilder.memberTable_setDoc s doc, GraphBuilder.kindsOf_setDoc s doc⟩, trivial⟩
  · exact Growth.runs_pure trivial trivial

theorem noteType_aside (d : GraphDraft) (s : SymbolId) (e : TypeExpr) : aside.Runs (noteType s e) d Anything :=
  ⟨trivial, ⟨rfl, fun _ _ => rfl, fun _ => rfl⟩, trivial⟩

/-- Enums are noted beside names and the graph. -/
theorem noteEnum_aside (m : SymbolId) (members : List (SymbolId × Option Literal)) (d : GraphDraft) :
    (noteEnum m members d).2.builder = d.builder ∧ (noteEnum m members d).2.named = d.named := by
  change (if _ then _ else _ : GraphDraft).builder = _ ∧ (if _ then _ else _ : GraphDraft).named = _
  split <;> exact ⟨rfl, rfl⟩

/-- A draft to which a symbol was added. -/
def AddsSymbol (d : GraphDraft) (name : String) (flags : SymbolFlags) (s : SymbolId) (d' : GraphDraft) : Prop :=
  s = d.builder.next ∧ d' = { d with builder := (d.builder.addSymbol name flags).2 }

end GraphDraft

namespace GraphDraft.Rule

variable (R : Rule) {d d' : GraphDraft} {s owner : SymbolId} {container : Container} {flags : SymbolFlags}
  {name : String} {isStatic : Bool} {kind : DeclarationKind}

/-- The invariant holds, and names and tables lead to symbols that are there. -/
def Good (d : GraphDraft) : Prop := d.Inside ∧ R.Inv d

/-- The symbol is there, and something may be noted of it. -/
def There (d : GraphDraft) (s : SymbolId) : Prop := s.Within d.extent ∧ R.Open d s

/-- Drafts get larger and keep the invariant of the rule. -/
abbrev growth : Growth GraphDraft := enlarging R.Good

/-- So do enums, which have names. -/
def Enumerates : Prop :=
  ∀ {d s} (site : Site) next members, R.Good d → R.There d s → s ∈ d.named.values →
    (d.builder.flagsOf s).has SymbolFlags.enumBit → (∀ m ∈ members, ∀ n ∈ m.name, R.MayCount s n) →
    R.growth.Runs (do noteEnum s (← site.enumMembers s next members)) d Anything

variable {R}

theorem there_mono (hle : d.builder.Enlarges d'.builder) (h : R.There d s) : R.There d' s :=
  ⟨hle.within h.1, R.open_mono hle h.2⟩

theorem Good.alike (hd : R.Good d) (halike : d.Alike d') : R.Good d' :=
  ⟨hd.1.alike halike, R.alike halike hd.2⟩

/-! ## Notes -/

/-- Something is noted. -/
theorem note_obeys {f : GraphDraft → GraphDraft} (hd : R.Good d) (hbuilder : (f d).builder = d.builder)
    (hnamed : (f d).named = d.named) (h : R.Inv (f d)) : R.growth.Runs (modify f) d Anything := by
  have hinside : (f d).Inside := by
    refine ⟨?_, ?_⟩
    · rw [hbuilder]
      exact hd.1.builder
    · change ∀ s ∈ (f d).named.values, s.Within (f d).builder.extent
      rw [hbuilder, hnamed]
      exact hd.1.named
  refine Growth.runs_modify (G := R.growth) ⟨hinside, h⟩ ?_
  change d.builder.Enlarges (f d).builder
  rw [hbuilder]
  exact .refl _

/-- Something is done that only matters for the look-up of names and for exports. -/
theorem alike_obeys {α : Type} {x : Drafting α} (hd : R.Good d) (halike : d.Alike (x d).2) :
    R.growth.Runs x d Anything := by
  refine ⟨hd.alike halike, ?_, trivial⟩
  change d.builder.Enlarges (x d).2.builder
  rw [halike.builder]
  exact .refl _

theorem freshScope_obeys (hd : R.Good d) : R.growth.Runs freshScope d Anything :=
  alike_obeys hd (by constructor <;> rfl)

theorem enter_obeys (hd : R.Good d) (site : Site) (bound : List Bound) :
    R.growth.Runs (site.enter bound) d Anything :=
  (freshScope_obeys hd).bind fun _ _ hd' _ _ => Growth.runs_pure hd' trivial

theorem bindLocal_obeys (hd : R.Good d) (site : Site) (name : String) (s : SymbolId) :
    R.growth.Runs (site.bindLocal name s) d Anything :=
  alike_obeys hd (bindLocal_alike site name s d)

theorem attachDoc_obeys (hd : R.Good d) (hs : R.There d s) (doc : String) :
    R.growth.Runs (attachDoc s doc) d Anything := by
  have hle : d.builder.Enlarges (d.builder.setDoc s doc) := .modifyAside (fun _ => rfl) (fun _ => rfl) fun _ => rfl
  have hinside : (d.builder.setDoc s doc).Inside := hd.1.builder.modifyAside (fun _ => rfl) fun _ => rfl
  exact attachDoc_keeps hd ⟨hd.1.rebuilt hle hinside, R.documented doc hd.2 hs.2⟩

theorem noteType_obeys (hd : R.Good d) (hs : R.There d s) {e : TypeExpr} (he : e.Written) :
    R.growth.Runs (noteType s e) d Anything :=
  note_obeys hd rfl rfl (R.typed hd.2 hs.2 he)

theorem exportAs_obeys (hd : R.Good d) (hs : R.There d s) {c : SymbolId} (hc : d.BelongsTo s c) {name : String}
    (hmay : R.May c name) : R.growth.Runs (rebuild (·.exportAs c name s)) d Anything := by
  have hle : d.builder.Enlarges (d.builder.exportAs c name s) :=
    .modifyAside (fun _ => rfl) (fun _ => rfl) fun _ => rfl
  exact ⟨⟨hd.1.rebuilt hle (hd.1.builder.exportAs c name hs.1), R.exported c name hd.2 hs.2 hc hmay⟩, hle, trivial⟩

/-! ## Symbols with their declarations -/

theorem addSymbol_adds (d : GraphDraft) (name : String) (flags : SymbolFlags) :
    outcome.Runs (build (·.addSymbol name flags)) d (AddsSymbol d name flags) :=
  ⟨trivial, trivial, rfl, rfl⟩

theorem declareFresh_obeys (hd : R.Good d) (hadds : AddsSymbol d name flags s d') (site : Site)
    (hkind : kind ≠ .enumMember) (hflags : flags.meets SymbolFlags.enumMemberBit = false) (span : Span)
    (modifiers : ModifierFlags) :
    R.growth.Completes d (discard (site.declare s kind span modifiers)) d' fun _ d₂ =>
      R.There d₂ s ∧ d₂.Unlisted s := by
  obtain ⟨rfl, rfl⟩ := hadds
  let x : Declaration := { kind, pos := site.pos span, modifiers }
  have hle : d.builder.Enlarges (d.builder.addDeclared name flags x) := .addDeclared name flags x
  obtain ⟨hinv, hopen⟩ := R.fresh name flags x hd.2 ⟨hkind, rfl, rfl, hflags⟩
  have hunlisted : d.Unlisted d.builder.next := hd.1.unlisted_next
  refine ⟨⟨hd.1.rebuilt hle (hd.1.builder.addDeclared name flags x), hinv⟩, hle,
    ⟨GraphBuilder.next_within_addDeclared _ _ _ _, hopen⟩, hunlisted.named, fun c isStatic => ?_, ?_⟩
  · exact (GraphBuilder.memberTable_addDeclared d.builder name flags x c isStatic).symm ▸ hunlisted.tables c isStatic
  · have hkinds := GraphBuilder.kindsOf_addDeclared d.builder name flags x d.builder.next
    rw [if_pos rfl] at hkinds
    change .enumMember ∉ (d.builder.addDeclared name flags x).kindsOf d.builder.next
    rw [hkinds]
    exact fun h => hkind (List.mem_singleton.mp h).symm

theorem declareNamed_obeys (hd : R.Good d) (hnames : Names d container name flags s d') (site : Site)
    (hkind : kind ≠ .enumMember) (hflags : flags.meets SymbolFlags.enumMemberBit = false) (span : Span)
    (modifiers : ModifierFlags) :
    R.growth.Completes d (site.declare s kind span modifiers) d' fun _ d₂ =>
      R.There d₂ s ∧ d₂.named.get? (container, name) = some s := by
  let x : Declaration := { kind, pos := site.pos span, modifiers }
  have hname := hnames.get?
  suffices h : R.Good { d' with builder := (d'.builder.declare s x).2 } ∧
      d.builder.Enlarges (d'.builder.declare s x).2 ∧
      R.There { d' with builder := (d'.builder.declare s x).2 } s from ⟨h.1, h.2.1, h.2.2, hname⟩
  cases hnames with
  | again hget halike =>
    have hdeclared := halike.build fun b => (b.declare s x).2
    have hbuilder : (d'.builder.declare s x).2 = d.builder.declareAgain s flags x := hdeclared.builder
    have hle : d.builder.Enlarges (d.builder.declareAgain s flags x) := .declareAgain s flags x
    have hs : s.Within d.extent := hd.1.named s (Table.mem_values_of_get? hget)
    obtain ⟨hinv, hopen⟩ := R.again container name s flags x hd.2 ⟨hkind, rfl, rfl, hflags⟩ hget hs
    have hinside := hd.1.rebuilt hle (hd.1.builder.declareAgain s flags x)
    have hthere : R.There { d with builder := d.builder.declareAgain s flags x } s := ⟨hle.within hs, hopen⟩
    refine ⟨Good.alike ⟨hinside, hinv⟩ hdeclared, ?_, there_mono ?_ hthere⟩
    · rw [hbuilder]
      exact hle
    · exact hbuilder ▸ .refl _
  | new hget hs halike =>
    subst hs
    have hdeclared := halike.build fun b => (b.declare d.builder.next x).2
    have hbuilder : (d'.builder.declare d.builder.next x).2 = d.builder.addDeclared name flags x :=
      hdeclared.builder
    have hle : d.builder.Enlarges (d.builder.addDeclared name flags x) := .addDeclared name flags x
    have hnext := GraphBuilder.next_within_addDeclared d.builder name flags x
    obtain ⟨hinv, hopen⟩ := R.named container name flags x hd.2 ⟨hkind, rfl, rfl, hflags⟩ hget
    have hinside := hd.1.rebuilt hle (hd.1.builder.addDeclared name flags x)
    have hnamed : Inside { d with
        builder := d.builder.addDeclared name flags x
        named := d.named.insert (container, name) d.builder.next } :=
      ⟨hinside.builder, Table.forall_values_insert hinside.named hnext⟩
    refine ⟨Good.alike ⟨hnamed, hinv⟩ hdeclared, ?_, there_mono ?_ ⟨hnext, hopen⟩⟩
    · rw [hbuilder]
      exact hle
    · exact hbuilder ▸ .refl _

/-- A member is declared, if the invariant is preserved in either case. -/
theorem declareBound_obeys (hd : R.Good d) (hbinds : Binds d owner name flags isStatic s d') (site : Site)
    (span : Span) (modifiers : ModifierFlags) {x : Declaration} (hx : x = { kind, pos := site.pos span, modifiers })
    (hagain : (d.builder.memberTable owner isStatic).get? name = some s → s.Within d.extent →
      R.Inv { d with builder := d.builder.declareAgain s flags x } ∧
        R.Open { d with builder := d.builder.declareAgain s flags x } s)
    (hnew : (d.builder.memberTable owner isStatic).get? name = none →
      R.Inv { d with builder := d.builder.addMember owner name flags isStatic x } ∧
        R.Open { d with builder := d.builder.addMember owner name flags isStatic x } d.builder.next) :
    R.growth.Completes d (site.declare s kind span modifiers) d' fun _ d₂ => R.There d₂ s := by
  subst hx
  cases hbinds with
  | again hget h =>
    subst h
    have hs : s.Within d.extent := hd.1.builder.within_of_memberTable hget
    have hle := GraphBuilder.Enlarges.declareAgain (b := d.builder) s flags
      { kind, pos := site.pos span, modifiers }
    obtain ⟨hinv, hopen⟩ := hagain hget hs
    exact ⟨⟨hd.1.rebuilt hle (hd.1.builder.declareAgain s flags _), hinv⟩, hle, hle.within hs, hopen⟩
  | new hget hs h =>
    subst hs h
    have hle := GraphBuilder.Enlarges.addMember (b := d.builder) owner name flags isStatic
      { kind, pos := site.pos span, modifiers }
    obtain ⟨hinv, hopen⟩ := hnew hget
    exact ⟨⟨hd.1.rebuilt hle (hd.1.builder.addMember owner name flags isStatic _), hinv⟩, hle,
      GraphBuilder.next_within_addMember .., hopen⟩

theorem declareMember_obeys (hd : R.Good d) (howner : R.There d owner)
    (hbinds : Binds d owner name flags isStatic s d') (site : Site) (hkind : kind ≠ .enumMember)
    (hflags : flags.meets SymbolFlags.enumMemberBit = false) (hmay : isStatic = true → R.May owner name)
    (span : Span) (modifiers : ModifierFlags) :
    R.growth.Completes d (site.declare s kind span modifiers) d' fun _ d₂ => R.There d₂ s :=
  declareBound_obeys hd hbinds site span modifiers rfl
    (fun hget hs => R.memberAgain owner name s flags isStatic _ hd.2 howner.2 ⟨hkind, rfl, rfl, hflags⟩ hmay hget hs)
    fun hget => R.member owner name flags isStatic _ hd.2 howner.2 ⟨hkind, rfl, rfl, hflags⟩ hmay hget

/-! ## Members of enums -/

/-- Enums preserve the invariant of a rule if their members do so one by one, as other members do. -/
theorem enumerates_of_members
    (hmember : ∀ {d : GraphDraft} owner name x, R.Inv d → R.Open d owner → x.kind = .enumMember →
      x.heritage = [] → x.index = none → (d.builder.exportsOf owner).get? name = none →
      R.Inv { d with builder := d.builder.addMember owner name SymbolFlags.enumMemberBit true x } ∧
        R.Open { d with builder := d.builder.addMember owner name SymbolFlags.enumMemberBit true x } d.builder.next)
    (hagain : ∀ {d : GraphDraft} owner name s x, R.Inv d → R.Open d owner → x.kind = .enumMember →
      x.heritage = [] → x.index = none → (d.builder.exportsOf owner).get? name = some s → s.Within d.extent →
      R.Inv { d with builder := d.builder.declareAgain s SymbolFlags.enumMemberBit x } ∧
        R.Open { d with builder := d.builder.declareAgain s SymbolFlags.enumMemberBit x } s)
    (hnote : ∀ {d : GraphDraft} {s} members, R.Inv d → R.Open d s → R.Inv (noteEnum s members d).2) :
    R.Enumerates := by
  intro d s site next members hd hs hnamed hflags hcounts
  clear hnamed hflags hcounts
  have hmembers : R.growth.Runs (site.enumMembers s next members) d Anything := by
    induction members generalizing next d with
    | nil => exact Growth.runs_pure hd trivial
    | cons m rest ih =>
      unfold Site.enumMembers
      split
      · exact ih _ hd hs
      next name _ =>
        refine Growth.runs_of_completes (bindMember_binds d s name SymbolFlags.enumMemberBit true)
          fun member d₁ hbinds => ?_
        have hdeclared := declareBound_obeys hd hbinds site m.span .none rfl
          (fun hget hin => hagain s name member _ hd.2 hs.2 rfl rfl rfl hget hin)
          fun hget => hmember s name _ hd.2 hs.2 rfl rfl rfl hget
        refine hdeclared.discard.bind fun _ d₂ hd₂ hle₂ hmember₂ => ?_
        refine (attachDoc_obeys hd₂ hmember₂ _).bind fun _ d₃ hd₃ hle₃ _ => ?_
        exact (ih _ hd₃ (there_mono (R.growth.trans hle₂ hle₃) hs)).bind
          fun _ d₄ hd₄ _ _ => Growth.runs_pure hd₄ trivial
  refine hmembers.bind fun ms d₁ hd₁ hle₁ _ => ?_
  obtain ⟨hbuilder, hnamed⟩ := noteEnum_aside s ms d₁
  exact note_obeys hd₁ hbuilder hnamed (hnote ms hd₁.2 (there_mono hle₁ hs).2)

/-! ## Members -/

theorem typeParameters_obey (hd : R.Good d) (site : Site) (ps : List TypeParameter) :
    R.growth.Runs (site.typeParameters ps) d Anything := by
  refine Growth.runs_forM (G := R.growth) hd fun p _ d₁ hd₁ _ => ?_
  refine Growth.runs_of_completes (addSymbol_adds d₁ _ _) fun s d₂ hadds => ?_
  refine (declareFresh_obeys hd₁ hadds site (by decide) (by decide) _ _).bind fun _ d₃ hd₃ _ _ => ?_
  exact bindLocal_obeys hd₃ site p.name s

/-- What parameters of both kinds start with. -/
theorem parameterSymbol_obeys (hd : R.Good d) (site : Site) (name doc : String) {flags : SymbolFlags}
    (hflags : flags.meets SymbolFlags.enumMemberBit = false) (span : Span) (single : Bool) {α : Type}
    {rest : SymbolId → Drafting α} {P : α → GraphDraft → Prop}
    (hrest : ∀ s d', R.Good d' → R.growth.Le d d' → R.There d' s → R.growth.Runs (rest s) d' P) :
    R.growth.Runs (do
      let symbol ← build (·.addSymbol name flags)
      discard (site.declare symbol .parameter span .none)
      if single then site.bindLocal name symbol
      attachDoc symbol doc
      rest symbol) d P := by
  refine Growth.runs_of_completes (addSymbol_adds d name flags) fun s d₁ hadds => ?_
  refine (declareFresh_obeys hd hadds site (by decide) hflags _ _).bind fun _ d₂ hd₂ hle₂ ⟨hs₂, _⟩ => ?_
  have hdoc : ∀ d₃, R.Good d₃ → R.growth.Le d₂ d₃ →
      R.growth.Runs (do attachDoc s doc; rest s) d₃ P := by
    intro d₃ hd₃ hle₃
    have hs₃ : R.There d₃ s := there_mono hle₃ hs₂
    refine (attachDoc_obeys hd₃ hs₃ doc).bind fun _ d₄ hd₄ hle₄ _ => ?_
    exact hrest s d₄ hd₄ (R.growth.trans hle₂ (R.growth.trans hle₃ hle₄)) (there_mono hle₄ hs₃)
  cases single with
  | true => exact (bindLocal_obeys hd₂ site name s).bind fun _ d₃ hd₃ hle₃ _ => hdoc d₃ hd₃ hle₃
  | false => exact hdoc d₂ hd₂ (R.growth.refl d₂)

/-- What all members start with. -/
theorem memberSymbol_obeys (hd : R.Good d) (howner : R.There d owner) (site : Site) (name doc : String)
    {flags : SymbolFlags} (hflags : flags.meets SymbolFlags.enumMemberBit = false) {isStatic : Bool}
    (hmay : isStatic = true → R.May owner name) (hkind : kind ≠ .enumMember) (span : Span)
    (modifiers : ModifierFlags) {α : Type} {rest : SymbolId → Drafting α} {P : α → GraphDraft → Prop}
    (hrest : ∀ s d', R.Good d' → R.growth.Le d d' → R.There d' s → R.growth.Runs (rest s) d' P) :
    R.growth.Runs (do
      let member ← bindMember owner name flags isStatic
      discard (site.declare member kind span modifiers)
      attachDoc member doc
      rest member) d P := by
  refine Growth.runs_of_completes (bindMember_binds d owner name flags isStatic) fun s d₁ hbinds => ?_
  refine (declareMember_obeys hd howner hbinds site hkind hflags hmay span modifiers).discard.bind
    fun _ d₂ hd₂ hle₂ hs₂ => ?_
  refine (attachDoc_obeys hd₂ hs₂ doc).bind fun _ d₃ hd₃ hle₃ _ => ?_
  exact hrest s d₃ hd₃ (R.growth.trans hle₂ hle₃) (there_mono hle₃ hs₂)

theorem withOptional_meets {flags : SymbolFlags} (h : flags.meets SymbolFlags.enumMemberBit = false)
    (isOptional : Bool) : (Site.withOptional flags isOptional).meets SymbolFlags.enumMemberBit = false := by
  cases isOptional with
  | false => exact h
  | true => exact FlagSet.meets_union h (by decide)

theorem written_infer?_getD (site : Site) (literal : Bool) (value : Option Expr) :
    ((value.bind (site.infer? literal)).getD .any).Written := by
  cases h : value.bind (site.infer? literal) with
  | none => exact .nothing
  | some e =>
    obtain ⟨value, -, he⟩ := Option.bind_eq_some_iff.mp h
    exact .initializer site he

theorem written_map_typeExpr (site : Site) (t : Option TypeTree) :
    ∀ e ∈ t.map site.typeExpr, e.Written := by
  intro e he
  obtain ⟨t, -, rfl⟩ := Option.map_eq_some_iff.mp he
  exact .read site t

/-- The type of what may have an annotation, or else an initializer. -/
theorem written_type (site : Site) (literal : Bool) (type : Option TypeTree) (value : Option Expr) :
    ((match type with
      | some t => some (site.typeExpr t)
      | none => value.bind (site.infer? literal)).getD .any).Written := by
  cases type with
  | some t => exact .read site t
  | none => exact written_infer?_getD site literal value

theorem parameter_obeys (hd : R.Good d) (site : Site) (doc : DocComment) {propertyOwner : Option SymbolId}
    (howner : ∀ o ∈ propertyOwner, R.There d o) (position : Nat) (p : Parameter) :
    R.growth.Runs (site.parameter doc propertyOwner position p) d Anything := by
  have hwritten : (match p.type with
      | some t => site.typeExpr t
      | none => (p.default.bind (site.infer? false)).getD .any : TypeExpr).Written := by
    cases p.type with
    | some t => exact .read site t
    | none => exact written_infer?_getD site false p.default
  refine parameterSymbol_obeys hd site (Site.parameterName p.pattern position) _ (withOptional_meets (by decide) _) _ _ ?_
  intro s d₁ hd₁ hle₁ hs₁
  refine (noteType_obeys hd₁ hs₁ hwritten).bind fun _ d₂ hd₂ hle₂ _ => ?_
  cases propertyOwner with
  | none => exact Growth.runs_pure hd₂ trivial
  | some owner =>
    dsimp only
    split
    · have howner₂ : R.There d₂ owner := there_mono (R.growth.trans hle₁ hle₂) (howner owner rfl)
      refine memberSymbol_obeys hd₂ howner₂ site _ _ (by decide) Bool.noConfusion (by decide) _ _
        fun property d₃ hd₃ hle₃ hs₃ => ?_
      exact (noteType_obeys hd₃ hs₃ hwritten).bind fun _ d₄ hd₄ _ _ => Growth.runs_pure hd₄ trivial
    · exact Growth.runs_pure hd₂ trivial

theorem restParameter_obeys (hd : R.Good d) (site : Site) (doc : DocComment) (position : Nat)
    (p : RestParameter) : R.growth.Runs (site.restParameter doc position p) d Anything := by
  refine parameterSymbol_obeys hd site (Site.parameterName p.pattern position) _ (by decide) _ _ ?_
  intro s d₁ hd₁ hle₁ hs₁
  have hwritten : ((p.type.map site.typeExpr).getD (.array .any)).Written := by
    cases p.type with
    | some t => exact .read site t
    | none => exact .rest
  exact (noteType_obeys hd₁ hs₁ hwritten).bind fun _ d₂ hd₂ _ _ => Growth.runs_pure hd₂ trivial

theorem parameters_obey (hd : R.Good d) (site : Site) (ps : Parameters) (doc : DocComment)
    {propertyOwner : Option SymbolId} (howner : ∀ o ∈ propertyOwner, R.There d o) :
    R.growth.Runs (site.parameters ps doc propertyOwner) d Anything := by
  have hstable : ∀ _ : SymbolId, R.growth.Stable fun _ => True := fun _ _ _ _ h => h
  have hitems := Growth.runs_mapM (G := R.growth) (l := ps.items.zipIdx) hd hstable
    fun x _ d' hd' hle => parameter_obeys hd' site doc (fun o ho => there_mono hle (howner o ho)) x.2 x.1
  refine hitems.bind fun items d₁ hd₁ _ _ => ?_
  have hrest := Growth.runs_mapM (G := R.growth) (l := ps.rest.toList) hd₁ hstable
    fun p _ d' hd' _ => restParameter_obeys hd' site doc ps.items.length p
  exact hrest.bind fun rest d₂ hd₂ _ _ => Growth.runs_pure hd₂ trivial

theorem signature_obeys (hd : R.Good d) (site : Site) {o : SignatureOwner} (ho : R.There d o.symbol)
    (f : FunctionTree) (span : Span) (doc : DocComment) {propertyOwner : Option SymbolId}
    (howner : ∀ o ∈ propertyOwner, R.There d o) (result : Option TypeTree) :
    R.growth.Runs (site.signature o f span doc propertyOwner result) d Anything := by
  refine (typeParameters_obey hd site _).bind fun _ d₁ hd₁ hle₁ _ => ?_
  refine (parameters_obey hd₁ site _ doc fun o ho => there_mono hle₁ (howner o ho)).bind
    fun ids d₂ hd₂ hle₂ _ => ?_
  exact note_obeys hd₂ rfl rfl (R.signed _ hd₂.2 (there_mono (R.growth.trans hle₁ hle₂) ho).2
    (written_map_typeExpr site result))

theorem callSignature_obeys (hd : R.Good d) (hs : R.There d s) (site : Site) (f : FunctionTree) (span : Span)
    (doc : DocComment) : R.growth.Runs (site.callSignature s f span doc) d Anything := by
  refine (enter_obeys hd site _).bind fun inner d₁ hd₁ hle₁ _ => ?_
  exact signature_obeys hd₁ inner (o := .call s) (there_mono hle₁ hs) f span doc (by simp) f.result

/-- A constructor, of a class or of an interface. -/
theorem constructSignature_obeys (hd : R.Good d) (howner : R.There d owner) (site : Site) (f : FunctionTree)
    (span : Span) (doc : DocComment) {propertyOwner : Option SymbolId}
    (hproperty : ∀ o ∈ propertyOwner, o = owner) (result : Option TypeTree) :
    R.growth.Runs (do
      let inner ← site.enter (Site.boundInFunction f)
      inner.signature (.construct owner) f span doc propertyOwner result) d Anything := by
  refine (enter_obeys hd site _).bind fun inner d₁ hd₁ hle₁ _ => ?_
  have howner₁ : R.There d₁ owner := there_mono hle₁ howner
  refine signature_obeys hd₁ inner (o := .construct owner) howner₁ f span doc (fun o ho => ?_) result
  rw [hproperty o ho]
  exact howner₁

theorem accessor_obeys (hd : R.Good d) (howner : R.There d owner) (site : Site) (name : String)
    (m : MethodTree) (hmay : m.isStatic = true → R.May owner name) (modifiers : ModifierFlags) :
    R.growth.Runs (site.accessor owner name m modifiers) d Anything := by
  refine memberSymbol_obeys hd howner site name _ (by decide) hmay (by decide) _ _ fun s d₁ hd₁ _ hs₁ => ?_
  refine (enter_obeys hd₁ site _).bind fun inner d₂ hd₂ hle₂ _ => ?_
  split
  · exact noteType_obeys hd₂ (there_mono hle₂ hs₁) (.read inner _)
  · exact Growth.runs_pure hd₂ trivial

theorem plainMethod_obeys (hd : R.Good d) (howner : R.There d owner) (site : Site) (name : String)
    (m : MethodTree) (hmay : m.isStatic = true → R.May owner name) (modifiers : ModifierFlags) :
    R.growth.Runs (site.plainMethod owner name m modifiers) d Anything :=
  memberSymbol_obeys hd howner site name _ (withOptional_meets (by decide) _) hmay (by decide) _ _
    fun _ _ hd₁ _ hs₁ => callSignature_obeys hd₁ hs₁ site _ _ _

theorem method_obeys (hd : R.Good d) (howner : R.There d owner) (site : Site) (m : MethodTree)
    (hmay : ∀ n ∈ exportedMember m.isStatic m.key, R.May owner n) :
    R.growth.Runs (site.method owner m) d Anything := by
  unfold Site.method
  split
  · exact constructSignature_obeys hd howner site _ _ _ (by simp) _
  · split
    · exact Growth.runs_pure hd trivial
    next name hname =>
      have hmay' : m.isStatic = true → R.May owner name := fun h => hmay name (mem_exportedMember hname h)
      dsimp only
      split
      · exact accessor_obeys hd howner site _ m hmay' _
      · exact accessor_obeys hd howner site _ m hmay' _
      · exact plainMethod_obeys hd howner site _ m hmay' _

theorem property_obeys (hd : R.Good d) (howner : R.There d owner) (site : Site) (p : PropertyTree)
    (hmay : ∀ n ∈ exportedMember p.isStatic p.key, R.May owner n) :
    R.growth.Runs (site.property owner p) d Anything := by
  unfold Site.property
  split
  · exact Growth.runs_pure hd trivial
  next name hname =>
    exact memberSymbol_obeys hd howner site _ _ (withOptional_meets (by decide) _)
      (fun h => hmay name (mem_exportedMember hname h)) (by decide) _ _ fun s d₁ hd₁ _ hs₁ =>
        noteType_obeys hd₁ hs₁ (written_type site p.isReadonly p.type p.value)

theorem indexSignature_obeys (hd : R.Good d) (howner : R.There d owner) (site : Site) (i : IndexTree)
    (hmay : i.isStatic = true → R.May owner Site.indexMember) :
    R.growth.Runs (site.indexSignature owner i) d Anything := by
  refine Growth.runs_of_completes (bindMember_binds d owner _ _ i.isStatic) fun s d₁ hbinds => ?_
  have hdeclared := declareMember_obeys hd howner hbinds site
    (show DeclarationKind.indexSignature ≠ .enumMember by decide) (by decide) hmay i.span
    (Site.flagIf i.isReadonly ModifierFlags.readonlyBit)
  -- Where the declaration was not there yet, nothing was noted of it.
  refine Growth.Completes.bind (P := fun n d₂ => R.There d₂ s ∧ n + 1 = (d₂.builder.kindsOf s).length ∧
      d.indexes = d₂.indexes ∧ (d.builder.kindsOf s).length = n)
    ⟨hdeclared.good, hdeclared.le, hdeclared.post, declare_position (hbinds.within hd.1) site _ _ _,
      hbinds.indexes_eq.symm, ?_⟩ fun n d₂ hd₂ _ ⟨hs₂, hn, hindexes, hbefore⟩ => ?_
  · rw [declare_fst, GraphBuilder.kindsOf, GraphBuilder.kindsOf, hbinds.declarationsOf_eq]
  · exact note_obeys hd₂ rfl rfl (R.indexed _ hd₂.2 hs₂.2 (written_map_typeExpr site i.key) (.read site i.value) hn
      ⟨d, hd.2, hindexes, hbefore⟩)

theorem classMember_obeys (hd : R.Good d) (howner : R.There d owner) (site : Site) (m : ClassMember)
    (hmay : ∀ n ∈ exportedOfClass m, R.May owner n) : R.growth.Runs (site.classMember owner m) d Anything := by
  cases m with
  | method m => exact method_obeys hd howner site m hmay
  | property p => exact property_obeys hd howner site p hmay
  | index i => exact indexSignature_obeys hd howner site i fun h => hmay _ (by simp [exportedOfClass, h])
  | other => exact Growth.runs_pure hd trivial

theorem interfaceMember_obeys (hd : R.Good d) (howner : R.There d owner) (site : Site) (m : InterfaceMember)
    (hmay : ∀ n ∈ exportedOfInterface m, R.May owner n) :
    R.growth.Runs (site.interfaceMember owner m) d Anything := by
  cases m with
  | method m => exact method_obeys hd howner site m hmay
  | property p => exact property_obeys hd howner site p hmay
  | index i => exact indexSignature_obeys hd howner site i fun h => hmay _ (by simp [exportedOfInterface, h])
  | construct span f => exact constructSignature_obeys hd howner site f span _ (by simp) _
  | call => exact Growth.runs_pure hd trivial

/-! ## Declarations -/

theorem publish_obeys (hd : R.Good d) (hs : R.There d s) (place : Placement) {own : String}
    (hname : d.named.get? (place.container, own) = some s) {name : String}
    (hmay : ∀ e ∈ exportedAs place.container place.visibility name, R.May e.1 e.2) :
    R.growth.Runs (Site.publish place name s) d Anything := by
  obtain ⟨container, visibility, span⟩ := place
  cases container with
  | script file => cases visibility <;> exact Growth.runs_pure hd trivial
  | symbol c =>
    cases visibility with
    | hidden => exact Growth.runs_pure hd trivial
    | exported => exact exportAs_obeys hd hs (.inl ⟨own, hname⟩) (hmay (c, name) (List.mem_singleton.mpr rfl))
    | default => exact exportAs_obeys hd hs (.inl ⟨own, hname⟩) (hmay (c, defaultName) (List.mem_singleton.mpr rfl))

theorem introduce_obeys (hd : R.Good d) {place : Placement} (hnames : Names d place.container name flags s d')
    (site : Site) (shown : String)
    (hmay : ∀ e ∈ exportedAs place.container place.visibility shown, R.May e.1 e.2) (hkind : kind ≠ .enumMember)
    (hflags : flags.meets SymbolFlags.enumMemberBit = false)
    (modifiers : ModifierFlags) :
    R.growth.Completes d (site.introduce place shown s kind modifiers) d' fun _ d₂ => R.There d₂ s := by
  refine (declareNamed_obeys hd hnames site hkind hflags _ _).bind fun declaration d₁ hd₁ hle₁ ⟨hs₁, hname₁⟩ => ?_
  refine ((attachDoc_obeys hd₁ hs₁ _).framed (attachDoc_aside d₁ s _)).bind fun _ d₂ hd₂ hle₂ ⟨_, hsame⟩ => ?_
  have hs₂ : R.There d₂ s := there_mono hle₂ hs₁
  exact (publish_obeys hd₂ hs₂ place (by rw [hsame.named]; exact hname₁) hmay).handBack (fun _ _ => there_mono) hs₂

theorem variableItem_obeys (hd : R.Good d) (site : Site) (place : Placement) (tree : VariablesTree)
    (v : VariableTree)
    (hmay : ∀ n ∈ v.pattern.single, ∀ e ∈ exportedAs place.container place.visibility n, R.May e.1 e.2) :
    R.growth.Runs (site.variableItem place tree v) d Anything := by
  unfold Site.variableItem
  split
  next name hsingle =>
    refine Growth.runs_of_completes (bindHere_names site d _ name _) fun s d₁ hnames => ?_
    refine Growth.Completes.bind (P := fun _ d₂ => R.There d₂ s ∧ d₂.named.get? (place.container, name) = some s)
      ?_ fun _ d₂ hd₂ hle₂ ⟨hs₂, hname₂⟩ => ?_
    · obtain ⟨hgood, hle, hpost⟩ := declareNamed_obeys hd hnames site
        (show DeclarationKind.variableDecl ≠ .enumMember by decide) (by decide)
        (if (tree.items.length == 1) = true then place.span else v.span)
        (place.visibility.modifiers ∪ Site.flagIf tree.isDeclared ModifierFlags.declareBit)
      exact ⟨hgood, hle, hpost⟩
    refine ((attachDoc_obeys hd₂ hs₂ _).framed (attachDoc_aside d₂ s _)).bind fun _ d₃ hd₃ hle₃ ⟨_, hsame₃⟩ => ?_
    have hs₃ : R.There d₃ s := there_mono hle₃ hs₂
    refine ((noteType_obeys hd₃ hs₃ (written_type site _ v.type v.value)).framed (noteType_aside d₃ s _)).bind
      fun _ d₄ hd₄ hle₄ ⟨_, hsame₄⟩ => ?_
    have hname₄ : d₄.named.get? (place.container, name) = some s := by
      rw [hsame₄.named, hsame₃.named]
      exact hname₂
    exact publish_obeys hd₄ (there_mono hle₄ hs₃) place hname₄ (hmay name hsingle)
  next => exact Growth.runs_pure hd trivial

theorem function_obeys (hd : R.Good d) (site : Site) (place : Placement) (f : FunctionTree)
    (hmay : ∀ e ∈ exportedAs place.container place.visibility (f.name.getD defaultName), R.May e.1 e.2) :
    R.growth.Runs (site.function place f) d Anything := by
  refine Growth.runs_of_completes (bindMaybe_names site d _ f.name _) fun s d₁ hnames => ?_
  refine (introduce_obeys hd hnames site _ hmay (by decide) (by decide) _).discard.bind fun _ d₂ hd₂ _ hs₂ => ?_
  exact callSignature_obeys hd₂ hs₂ site f _ _

theorem noteHeritage_obeys (hd : R.Good d) (s : SymbolId) (declaration : Nat) (names : List NameRef) :
    R.growth.Runs (Site.noteHeritage s declaration names) d Anything := by
  unfold Site.noteHeritage
  split
  · exact alike_obeys hd (by constructor <;> rfl)
  · exact Growth.runs_pure hd trivial

/-- What comes before the members of a class, and the site of these. -/
def classHead (site : Site) (c : ClassTree) (s : SymbolId) (declaration : Nat) : Drafting Site := do
  let inner := (← site.enter (Site.boundTypeParameters c.typeParameters)).within s
  let base := c.base.map (inner.refer .asValue)
  Site.noteHeritage s declaration (base.toList ++ c.implemented.map (inner.refer .asType))
  modify fun d => { d with classes := d.classes ++ [⟨s, base⟩] }
  inner.typeParameters c.typeParameters
  return inner

/-- What is in a class. -/
def classBody (site : Site) (c : ClassTree) (s : SymbolId) (declaration : Nat) : Drafting Unit := do
  let inner ← classHead site c s declaration
  c.members.forM (inner.classMember s)

theorem classHead_obeys (hd : R.Good d) (hs : R.There d s) (site : Site) (c : ClassTree) (declaration : Nat) :
    R.growth.Runs (classHead site c s declaration) d fun _ d' => R.There d' s := by
  refine (enter_obeys hd site _).bind fun inner d₁ hd₁ hle₁ _ => ?_
  refine (noteHeritage_obeys hd₁ s declaration _).bind fun _ d₂ hd₂ hle₂ _ => ?_
  have hs₂ : R.There d₂ s := there_mono (R.growth.trans hle₁ hle₂) hs
  refine (note_obeys hd₂ rfl rfl (R.classed ⟨s, _⟩ hd₂.2 hs₂.2)).bind fun _ d₃ hd₃ hle₃ _ => ?_
  refine (typeParameters_obey hd₃ _ _).bind fun _ d₄ hd₄ hle₄ _ => ?_
  exact Growth.runs_pure hd₄ (there_mono (R.growth.trans hle₃ hle₄) hs₂)

theorem classBody_obeys (hd : R.Good d) (hs : R.There d s) (site : Site) (c : ClassTree)
    (hmay : ∀ n ∈ c.members.flatMap exportedOfClass, R.May s n) (declaration : Nat) :
    R.growth.Runs (classBody site c s declaration) d Anything := by
  refine (classHead_obeys hd hs site c declaration).bind fun inner d₁ hd₁ _ hs₁ => ?_
  exact Growth.runs_forM (G := R.growth) hd₁ fun m hm d' hd' hle' =>
    classMember_obeys hd' (there_mono hle' hs₁) inner m fun n hn => hmay n (List.mem_flatMap.mpr ⟨m, hm, hn⟩)

theorem classLike_obeys (hd : R.Good d) (site : Site) (place : Placement) (c : ClassTree)
    (hmay : ∀ e ∈ exportedAs place.container place.visibility (c.name.getD defaultName), R.May e.1 e.2)
    (hmembers : ∀ n ∈ c.members.flatMap exportedOfClass,
      R.May (site.bindMaybe place.container c.name SymbolFlags.classBit d).1 n) :
    R.growth.Runs (site.classLike place c) d Anything := by
  have hintroduced := introduce_obeys hd (bindMaybe_names site d place.container c.name SymbolFlags.classBit).post site
    _ hmay (show DeclarationKind.classDecl ≠ .enumMember by decide) (by decide)
    (Site.flagIf c.isAbstract ModifierFlags.abstractBit ∪ Site.flagIf c.isDeclared ModifierFlags.declareBit)
  have hbody := classBody_obeys hintroduced.good hintroduced.post site c hmembers
  exact ⟨(hbody _).good, R.growth.trans hintroduced.le (hbody _).le, trivial⟩

/-- What comes before the members of an interface, and the site of these. -/
def interfaceHead (site : Site) (i : InterfaceTree) (s : SymbolId) (declaration : Nat) : Drafting Site := do
  let inner := (← site.enter (Site.boundTypeParameters i.typeParameters)).within s
  Site.noteHeritage s declaration (i.bases.map (inner.refer .asType))
  noteType s (.instanceOf s)
  inner.typeParameters i.typeParameters
  return inner

/-- What is in an interface. -/
def interfaceBody (site : Site) (i : InterfaceTree) (s : SymbolId) (declaration : Nat) : Drafting Unit := do
  let inner ← interfaceHead site i s declaration
  i.members.forM (inner.interfaceMember s)

theorem interfaceHead_obeys (hd : R.Good d) (hs : R.There d s) (site : Site) (i : InterfaceTree)
    (declaration : Nat) : R.growth.Runs (interfaceHead site i s declaration) d fun _ d' => R.There d' s := by
  refine (enter_obeys hd site _).bind fun inner d₁ hd₁ hle₁ _ => ?_
  refine (noteHeritage_obeys hd₁ s declaration _).bind fun _ d₂ hd₂ hle₂ _ => ?_
  have hs₂ : R.There d₂ s := there_mono (R.growth.trans hle₁ hle₂) hs
  refine (noteType_obeys hd₂ hs₂ (.instances s)).bind fun _ d₃ hd₃ hle₃ _ => ?_
  refine (typeParameters_obey hd₃ _ _).bind fun _ d₄ hd₄ hle₄ _ => ?_
  exact Growth.runs_pure hd₄ (there_mono (R.growth.trans hle₃ hle₄) hs₂)

theorem interfaceBody_obeys (hd : R.Good d) (hs : R.There d s) (site : Site) (i : InterfaceTree)
    (hmay : ∀ n ∈ i.members.flatMap exportedOfInterface, R.May s n) (declaration : Nat) :
    R.growth.Runs (interfaceBody site i s declaration) d Anything := by
  refine (interfaceHead_obeys hd hs site i declaration).bind fun inner d₁ hd₁ _ hs₁ => ?_
  exact Growth.runs_forM (G := R.growth) hd₁ fun m hm d' hd' hle' =>
    interfaceMember_obeys hd' (there_mono hle' hs₁) inner m fun n hn => hmay n (List.mem_flatMap.mpr ⟨m, hm, hn⟩)

theorem interfaceLike_obeys (hd : R.Good d) (site : Site) (place : Placement) (i : InterfaceTree)
    (hmay : ∀ e ∈ exportedAs place.container place.visibility i.name, R.May e.1 e.2)
    (hmembers : ∀ n ∈ i.members.flatMap exportedOfInterface,
      R.May (site.bindHere place.container i.name SymbolFlags.interfaceBit d).1 n) :
    R.growth.Runs (site.interfaceLike place i) d Anything := by
  have hintroduced := introduce_obeys hd
    (bindHere_names site d place.container i.name SymbolFlags.interfaceBit).post site _ hmay (show DeclarationKind.interfaceDecl ≠ .enumMember by decide) (by decide)
    (Site.flagIf i.isDeclared ModifierFlags.declareBit)
  have hbody := interfaceBody_obeys hintroduced.good hintroduced.post site i hmembers
  exact ⟨(hbody _).good, R.growth.trans hintroduced.le (hbody _).le, trivial⟩

theorem typeAlias_obeys (hd : R.Good d) (site : Site) (place : Placement) (a : AliasTree)
    (hmay : ∀ e ∈ exportedAs place.container place.visibility a.name, R.May e.1 e.2) :
    R.growth.Runs (site.typeAlias place a) d Anything := by
  refine Growth.runs_of_completes (bindHere_names site d _ a.name _) fun s d₁ hnames => ?_
  refine (introduce_obeys hd hnames site _ hmay (by decide) (by decide) _).discard.bind fun _ d₂ hd₂ _ hs₂ => ?_
  refine (enter_obeys hd₂ site _).bind fun inner d₃ hd₃ hle₃ _ => ?_
  refine (typeParameters_obey hd₃ inner _).bind fun _ d₄ hd₄ hle₄ _ => ?_
  exact note_obeys hd₄ rfl rfl (R.aliased inner a.type hd₄.2 (there_mono (R.growth.trans hle₃ hle₄) hs₂).2)

theorem enumLike_obeys (henum : R.Enumerates) (hd : R.Good d) (site : Site) (place : Placement) (e : EnumTree)
    (hmay : ∀ x ∈ exportedAs place.container place.visibility e.name, R.May x.1 x.2)
    (hcounts : ∀ m ∈ e.members, ∀ n ∈ m.name,
      R.MayCount (site.bindHere place.container e.name SymbolFlags.enumBit d).1 n) :
    R.growth.Runs (site.enumLike place e) d Anything := by
  have hnames := (bindHere_names site d place.container e.name SymbolFlags.enumBit).post
  have hintroduced := introduce_obeys hd hnames site _ hmay (show DeclarationKind.enumDecl ≠ .enumMember by decide)
    (by decide) (Site.flagIf e.isDeclared ModifierFlags.declareBit)
  obtain ⟨b, x, -, hdeclared, -, hb⟩ := introduce_builds site place e.name _ .enumDecl
    (Site.flagIf e.isDeclared ModifierFlags.declareBit) _
  have hle := (GraphBuilder.Enlarges.declare _ x).trans hdeclared
  obtain ⟨hs, hflags⟩ := hnames.flags hd.1
  have hbody := henum site (some (.zero false)) e.members hintroduced.good hintroduced.post
    (by rw [hb]; exact Table.mem_values_of_get? hnames.get?) (by rw [hb]; exact hle.flags hs hflags) hcounts
  exact ⟨hbody.good, R.growth.trans hintroduced.le hbody.le, trivial⟩

/-! ## Imports and exports -/

theorem importSpecifier_obeys (hd : R.Good d) (site : Site) (container : Container) (source : String)
    (x : ImportSpecifier) : R.growth.Runs (site.importSpecifier container source x) d Anything := by
  refine Growth.runs_of_completes (bindHere_names site d _ x.localName _) fun s d₁ hnames => ?_
  refine (declareNamed_obeys hd hnames site (by decide) (by decide) _ _).discard.bind fun _ d₂ hd₂ _ hs₂ => ?_
  exact note_obeys hd₂ rfl rfl (R.linked _ hd₂.2 hs₂.1.2)

theorem exportAlias_obeys (hd : R.Good d) (site : Site) {c : SymbolId} {name : String} (hmay : R.May c name)
    (span : Span) (modifiers : ModifierFlags) (target : AliasTarget) :
    R.growth.Runs (site.exportAlias c name span modifiers target) d Anything := by
  refine Growth.runs_of_completes (addSymbol_adds d name _) fun s d₁ hadds => ?_
  refine (declareFresh_obeys hd hadds site (by decide) (by decide) _ _).bind
    fun _ d₂ hd₂ hle₂ ⟨hs₂, hunlisted⟩ => ?_
  have haside : aside.Runs (noteAlias s target) d₂ Anything := ⟨trivial, ⟨rfl, fun _ _ => rfl, fun _ => rfl⟩, trivial⟩
  refine ((note_obeys hd₂ rfl rfl (R.linked ⟨s, target⟩ hd₂.2 hs₂.2)).framed haside).bind
    fun _ d₃ hd₃ hle₃ ⟨_, hsame⟩ => ?_
  exact exportAs_obeys hd₃ (there_mono hle₃ hs₂) (.inr (hunlisted.aside hsame)) hmay

theorem exportVariable_obeys (hd : R.Good d) (site : Site) {c : SymbolId} (hmay : R.May c defaultName) (span : Span)
    (value : Expr) :
    R.growth.Runs (do
      let symbol ← build (·.addSymbol defaultName SymbolFlags.variableBit)
      discard (site.declare symbol .variableDecl span Visibility.default.modifiers)
      attachDoc symbol (site.docAt span.start).summaryText
      noteType symbol ((site.infer? true value).getD .any)
      rebuild (·.exportAs c defaultName symbol)) d Anything := by
  refine Growth.runs_of_completes (addSymbol_adds d _ _) fun s d₁ hadds => ?_
  refine (declareFresh_obeys hd hadds site (by decide) (by decide) _ _).bind
    fun _ d₂ hd₂ hle₂ ⟨hs₂, hunlisted⟩ => ?_
  refine ((attachDoc_obeys hd₂ hs₂ _).framed (attachDoc_aside d₂ s _)).bind fun _ d₃ hd₃ hle₃ ⟨_, hsame₃⟩ => ?_
  have hs₃ : R.There d₃ s := there_mono hle₃ hs₂
  have hwritten := written_infer?_getD site true (some value)
  refine ((noteType_obeys hd₃ hs₃ hwritten).framed (noteType_aside d₃ s _)).bind fun _ d₄ hd₄ hle₄ ⟨_, hsame₄⟩ => ?_
  exact exportAs_obeys hd₄ (there_mono hle₄ hs₃) (.inr ((hunlisted.aside hsame₃).aside hsame₄)) hmay

theorem exportValue_obeys (hd : R.Good d) (site : Site) {c : SymbolId} (hmay : R.May c defaultName) (span : Span)
    (value : Expr) : R.growth.Runs (site.exportValue c span value) d Anything := by
  unfold Site.exportValue
  split
  · exact exportAlias_obeys hd site hmay _ _ _
  · exact exportVariable_obeys hd site hmay span value

theorem exportAll_obeys (hd : R.Good d) (site : Site) {c : SymbolId} (span : Span) {name : Option String}
    (hmay : ∀ n ∈ name, R.May c n) (source : String) :
    R.growth.Runs (site.exportAll c span name source) d Anything := by
  cases name with
  | some name => exact exportAlias_obeys hd site (hmay name rfl) _ _ _
  | none => exact alike_obeys hd (by constructor <;> rfl)

theorem inModule_obeys (hd : R.Good d) {f : SymbolId → Drafting Unit}
    (hf : ∀ c, container = .symbol c → R.growth.Runs (f c) d Anything) :
    R.growth.Runs (Site.inModule container f) d Anything := by
  cases container with
  | symbol c => exact hf c rfl
  | script file => exact Growth.runs_pure hd trivial

end GraphDraft.Rule

end ApiDocs
