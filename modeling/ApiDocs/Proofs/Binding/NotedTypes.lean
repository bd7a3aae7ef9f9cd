import ApiDocs.Proofs.Binding.EnumValues
import ApiDocs.Proofs.Binding.InterfaceBodies
import ApiDocs.Proofs.Binding.LastingNotes
import ApiDocs.Proofs.Binding.RecordedTypes
import ApiDocs.Proofs.Binding.WrittenTypes

/-!
# What is noted of written types

Of all that reading comes to, the expressions of the types that are written there are noted, and they are noted at
the end. What is written of a variable, a property or an accessor is the first note of its symbol if it is declared
once, or if nothing was noted of the symbol before. All parameters of a signature have symbols of their own, with
what is written there as their first notes.

## Main definitions

* `GraphDraft.NotesType`: a symbol is declared once more, and a type is noted of it.
* `GraphDraft.NotedParameter`: what is noted of a parameter, which nothing leads to.

## Main results

* `GraphDraft.ComesToSignature.noted`: the types of a signature and of its parameters are noted.
* `GraphDraft.LeadsWith.of_once`: what is declared once was not declared before, and stays as it was noted.
* `GraphDraft.ComesToTyped.firstNote`, `GraphDraft.ComesToTyped.firstNote_of_once`: so is the type of a variable, a
  property or an accessor, and it is the first note if the symbol is declared once.
* `GraphDraft.ComesToMember.indexNoted`, `GraphDraft.ComesTo.aliasNoted`: and those of index signatures and aliases.
-/

namespace ApiDocs

open TypeScript

namespace GraphDraft

variable {sources : List ParsedSource} {site inner : Site} {place : Placement} {owner s m : SymbolId}
  {d d' d₁ d₂ d₃ before after : GraphDraft} {name : String} {kind : DeclarationKind} {e : TypeExpr}

/-! ## Steps -/

/-- Steps that note nothing, while the graph gets larger. -/
def quiet : Growth GraphDraft where
  Good _ := True
  Le d d' := d.Silent d' ∧ d.builder.Enlarges d'.builder
  refl d := ⟨.refl d, .refl _⟩
  trans h h' := ⟨h.1.trans h'.1, h.2.trans h'.2⟩

theorem attachDoc_quiet (d : GraphDraft) (s : SymbolId) (doc : String) : quiet.Runs (attachDoc s doc) d Anything := by
  obtain ⟨b, hle, -, hb⟩ := attachDoc_builds s doc d
  refine ⟨trivial, ⟨(attachDoc_silent d s doc).le.1, ?_⟩, trivial⟩
  rw [hb]
  exact hle

theorem publish_quiet (d : GraphDraft) (place : Placement) (name : String) (s : SymbolId) :
    quiet.Runs (Site.publish place name s) d Anything := by
  obtain ⟨b, hle, -, hb⟩ := publish_builds place name s d
  refine ⟨trivial, ?_, trivial⟩
  change d.Silent (Site.publish place name s d).2 ∧ d.builder.Enlarges (Site.publish place name s d).2.builder
  rw [hb]
  exact ⟨⟨rfl, rfl, rfl, rfl, rfl, rfl⟩, hle⟩

theorem enter_quiet (d : GraphDraft) (site : Site) (bound : List Bound) : quiet.Runs (site.enter bound) d Anything :=
  ⟨trivial, ⟨⟨rfl, rfl, rfl, rfl, rfl, rfl⟩, .refl _⟩, trivial⟩

/-- **The symbol is declared once more, and a type is noted of it.** -/
structure NotesType (d : GraphDraft) (s : SymbolId) (e : TypeExpr) (d' : GraphDraft) : Prop where
  kinds : ∃ kind, kind ≠ .enumMember ∧ d.builder.kindsOf s ++ [kind] <+: d'.builder.kindsOf s
  types : d'.symbolTypes = d.symbolTypes ++ [(s, e)]
  signatures : d'.signatures = d.signatures
  classes : d'.classes = d.classes
  enums : d'.enums = d.enums

/-- The steps in which that happens. -/
theorem NotesType.of_steps (site : Site) (span : Span) (modifiers : ModifierFlags) (hkind : kind ≠ .enumMember)
    (hbound : d.Silent d₁) (hsame : d₁.builder.declarationsOf s = d.builder.declarationsOf s) (hs : s.Within d₁.extent)
    (hbefore : quiet.Le (site.declare s kind span modifiers d₁).2 d₂) (hbehind : quiet.Le (noteType s e d₂).2 d₃) :
    NotesType d s e d₃ := by
  obtain ⟨hsaid, hle⟩ := hbefore
  obtain ⟨hsaid', hle'⟩ := hbehind
  have hdeclared : (site.declare s kind span modifiers d₁).2.builder.kindsOf s = d.builder.kindsOf s ++ [kind] := by
    rw [GraphBuilder.kindsOf, GraphBuilder.kindsOf, ← hsame]
    have h := GraphBuilder.declarationsOf_declare hs { kind, pos := site.pos span, modifiers } s
    rw [if_pos rfl] at h
    exact (congrArg (List.map Declaration.kind) h).trans List.map_append
  refine ⟨⟨kind, hkind, ?_⟩, ?_, ?_, ?_, ?_⟩
  · rw [← hdeclared]
    exact (hle.kinds s).trans (hle'.kinds s)
  · rw [hsaid'.symbolTypes]
    exact congrArg (· ++ [(s, e)]) (hsaid.symbolTypes.trans hbound.symbolTypes)
  · exact hsaid'.signatures.trans (hsaid.signatures.trans hbound.signatures)
  · exact hsaid'.classes.trans (hsaid.classes.trans hbound.classes)
  · exact hsaid'.enums.trans (hsaid.enums.trans hbound.enums)

/-! ## Types of symbols -/

theorem variableItem_notes (hd : d.Inside) (site : Site) (place : Placement) (g : VariablesTree) {v : VariableTree}
    (hname : v.pattern.single = some name)
    (hs : (site.bindHere place.container name SymbolFlags.variableBit d).1 = s) :
    NotesType d s
      (TypeSource.expr { site, type := v.type, value := v.value, literal := g.kind == VariableKind.isConst })
      (site.variableItem place g v d).2 := by
  have hrun : (site.variableItem place g v d).2 = (fun r : SymbolId × GraphDraft =>
      (Site.publish place name r.1 (noteType r.1 (TypeSource.expr
          { site, type := v.type, value := v.value, literal := g.kind == VariableKind.isConst })
        (attachDoc r.1 (site.docAt place.span.start).summaryText
          (site.declare r.1 .variableDecl (if (g.items.length == 1) = true then place.span else v.span)
            (place.visibility.modifiers ∪ Site.flagIf g.isDeclared ModifierFlags.declareBit) r.2).2).2).2).2)
      (site.bindHere place.container name SymbolFlags.variableBit d) := by
    unfold Site.variableItem
    rw [hname]
    rfl
  have hnames := (bindHere_names site d place.container name SymbolFlags.variableBit).post
  have hsilent := (bindHere_silent d site place.container name SymbolFlags.variableBit).le.1
  rw [hrun]
  generalize site.bindHere place.container name SymbolFlags.variableBit d = run at *
  obtain ⟨s', d₁⟩ := run
  obtain rfl : s' = s := hs
  exact .of_steps site _ _ (show DeclarationKind.variableDecl ≠ .enumMember by decide) hsilent
    (hnames.declarationsOf_eq s') (hnames.flags hd).1 (attachDoc_quiet _ s' _).le (publish_quiet _ place name s').le

/-- What gives a member a type notes it. -/
theorem member_notes (hd : d.Inside) {flags : SymbolFlags} {isStatic : Bool}
    (hs : (bindMember owner name flags isStatic d).1 = s) (site : Site) (hkind : kind ≠ .enumMember) (span : Span)
    (modifiers : ModifierFlags) (doc : String) (e : TypeExpr) {f : GraphDraft → GraphDraft}
    (hf : ∀ d, quiet.Le d (f d)) :
    let run := bindMember owner name flags isStatic d
    NotesType d s e
      (noteType run.1 e (f (attachDoc run.1 doc (site.declare run.1 kind span modifiers run.2).2).2)).2 := by
  have hbinds := (bindMember_binds d owner name flags isStatic).post
  have hsilent := (bindMember_silent d owner name flags isStatic).le.1
  generalize bindMember owner name flags isStatic d = run at *
  obtain ⟨s', d₁⟩ := run
  obtain rfl : s' = s := hs
  exact .of_steps site _ _ hkind hsilent (hbinds.declarationsOf_eq s') (hbinds.within hd)
    (quiet.trans (attachDoc_quiet _ s' doc).le (hf _)) (quiet.refl _)

theorem property_notes (hd : d.Inside) (site : Site) {p : PropertyTree} (hname : Site.memberName? p.key = some name)
    (hs : (bindMember owner name (Site.withOptional SymbolFlags.propertyBit p.isOptional) p.isStatic d).1 = s) :
    NotesType d s (TypeSource.expr { site, type := p.type, value := p.value, literal := p.isReadonly })
      (site.property owner p d).2 := by
  unfold Site.property
  rw [hname]
  exact member_notes hd hs site (show DeclarationKind.property ≠ .enumMember by decide) p.span
    (Site.memberModifiers p.access p.isStatic p.isReadonly (Site.isPrivateKey p.key))
    (site.docAt p.span.start).summaryText _ (f := id) quiet.refl

theorem accessor_notes (hd : d.Inside) (site : Site) {m : MethodTree} {t : TypeTree}
    (ht : Site.accessorType? m = some t) (modifiers : ModifierFlags)
    (hs : (bindMember owner name SymbolFlags.accessorBit m.isStatic d).1 = s) :
    NotesType d s ((site.inside ⟨d.nextScope, Site.boundInFunction m.function⟩).typeExpr t)
      (site.accessor owner name m modifiers d).2 := by
  have hscope := (memberSymbol_silent d site owner name (site.docAt m.span.start).summaryText SymbolFlags.accessorBit
    m.isStatic .accessor m.span modifiers).le.2
  have hnotes := member_notes hd hs site (show DeclarationKind.accessor ≠ .enumMember by decide) m.span modifiers
    (site.docAt m.span.start).summaryText ((site.inside ⟨d.nextScope, Site.boundInFunction m.function⟩).typeExpr t)
    fun d => (enter_quiet d site (Site.boundInFunction m.function)).le
  unfold Site.accessor
  rw [ht]
  rw [← hscope] at hnotes ⊢
  exact hnotes

/-! ## Parameters -/

/-- What a parameter that is a property, too, does besides. -/
def parameterProperty (site : Site) (doc : DocComment) (owner : SymbolId) (position : Nat) (p : Parameter) :
    Drafting Unit := do
  let name := Site.parameterName p.pattern position
  let property ← bindMember owner name SymbolFlags.propertyBit false
  discard (site.declare property .property p.span (Site.memberModifiers p.access false p.isReadonly false))
  attachDoc property (doc.parameter name)
  noteType property (TypeSource.expr { site, type := p.type, value := p.default })

variable {os : List SymbolId} {propertyOwner : Option SymbolId} {doc : DocComment} {position : Nat}
  {ks : List DeclarationKind}

/-- The expression of the type of a parameter. -/
theorem parameter_expr (site : Site) (p : Parameter) :
    (match p.type with
      | some t => site.typeExpr t
      | none => (p.default.bind (site.infer? false)).getD .any : TypeExpr) =
      TypeSource.expr { site, type := p.type, value := p.default } := by
  rw [TypeSource.expr]
  cases p.type <;> rfl

/-- A parameter that is a property is one besides. -/
theorem parameter_property (site : Site) (doc : DocComment) {p : Parameter}
    (hp : (p.access.isSome || p.isReadonly) = true) (position : Nat) :
    site.parameter doc (some owner) position p = (do
      let s ← site.parameter doc none position p
      parameterProperty site doc owner position p
      return s) := by
  have hexpr := parameter_expr site p
  unfold Site.parameter parameterProperty
  simp only [hp, if_true, bind_assoc]
  rw [← hexpr]
  cases p.pattern.single.isSome <;> rfl

theorem parameter_plain (site : Site) (doc : DocComment) {p : Parameter}
    (hp : ∀ o ∈ propertyOwner, ¬ (p.access.isSome || p.isReadonly) = true) (position : Nat) :
    site.parameter doc propertyOwner position p = site.parameter doc none position p := by
  cases propertyOwner with
  | none => rfl
  | some owner =>
    unfold Site.parameter
    simp only [if_neg (hp owner rfl)]

theorem parameterProperty_notes (hd : d.Inside) (site : Site) (doc : DocComment) {p : Parameter}
    (hs : (bindMember owner (Site.parameterName p.pattern position) SymbolFlags.propertyBit false d).1 = s) :
    NotesType d s (TypeSource.expr { site, type := p.type, value := p.default })
      (parameterProperty site doc owner position p d).2 :=
  member_notes hd hs site (show DeclarationKind.property ≠ .enumMember by decide) p.span
    (Site.memberModifiers p.access false p.isReadonly false)
    (doc.parameter (Site.parameterName p.pattern position)) _ (f := id) quiet.refl

/-! ### What leads on -/

theorem typeParameters_leads (site : Site) (ps : List TypeParameter) (d : GraphDraft) :
    LeadsWith os d (site.typeParameters ps d).2 :=
  .of_runs fun _ _ hd _ => Rule.typeParameters_obey hd site ps

theorem parameter_leads (howner : ∀ o ∈ propertyOwner, o ∈ os) (site : Site) (doc : DocComment) (position : Nat)
    (p : Parameter) (d : GraphDraft) : LeadsWith os d (site.parameter doc propertyOwner position p d).2 :=
  .of_runs fun _ _ hd hthere => Rule.parameter_obeys hd site doc (fun o ho => hthere o (howner o ho)) position p

theorem parameterProperty_leads (howner : owner ∈ os) (site : Site) (doc : DocComment) (position : Nat) (p : Parameter)
    (d : GraphDraft) : LeadsWith os d (parameterProperty site doc owner position p d).2 := by
  refine .of_runs (P := Anything) fun R _ hd hthere => ?_
  refine Rule.memberSymbol_obeys hd (hthere owner howner) site _ _ (by decide) Bool.noConfusion (by decide) _ _
    fun property d₁ hd₁ _ hs₁ => ?_
  exact Rule.noteType_obeys hd₁ hs₁ (TypeSource.written _)

theorem restParameter_leads (site : Site) (doc : DocComment) (position : Nat) (p : RestParameter) (d : GraphDraft) :
    LeadsWith os d (site.restParameter doc position p d).2 :=
  .of_runs fun _ _ hd _ => Rule.restParameter_obeys hd site doc position p

theorem noteSignature_leads {x : SignatureDraft} (howner : x.owner.symbol ∈ os) (hresult : ∀ e ∈ x.result, e.Written)
    (d : GraphDraft) : LeadsWith os d (noteSignature x d).2 :=
  .of_runs (x := noteSignature x) fun R _ hd hthere =>
    Rule.note_obeys hd rfl rfl (R.signed x hd.2 (hthere _ howner).2 hresult)

theorem LeadsWith.mapM {α β : Type} {f : α → Drafting β} {xs : List α} (h : ∀ x d, LeadsWith os d (f x d).2)
    (d : GraphDraft) : LeadsWith os d (xs.mapM f d).2 := by
  induction xs generalizing d with
  | nil => exact .refl d
  | cons x xs ih =>
    rw [List.mapM_cons]
    exact (h x d).trans (ih (f x d).2)

theorem LeadsWith.bind {α β : Type} {x : Drafting α} {f : α → Drafting β} (hx : LeadsWith os d (x d).2)
    (hf : ∀ a d', LeadsWith os d' (f a d').2) : LeadsWith os d ((x >>= f) d).2 :=
  hx.trans (hf (x d).1 (x d).2)

/-- What is read behind two steps. -/
theorem LeadsWith.behind {α β γ : Type} {x : Drafting α} {y : Drafting β} {f : α → β → Drafting γ}
    (hf : ∀ a b d', LeadsWith os d' (f a b d').2) (d : GraphDraft) :
    LeadsWith os (y (x d).2).2 ((x >>= fun a => y >>= f a) d).2 :=
  hf (x d).1 (y (x d).2).1 (y (x d).2).2

/-! ### Symbols that nothing leads to -/

/-- Something is read to which the symbols are open. -/
def leading (os : List SymbolId) : Growth GraphDraft where
  Good d := housing.Good d ∧ ∀ o ∈ os, housing.There d o
  Le := LeadsWith os
  refl := .refl
  trans := .trans

theorem leading_of_leads {α : Type} {x : Drafting α} (hd : (leading os).Good d) (h : LeadsWith os d (x d).2) :
    (leading os).Runs x d Anything := by
  obtain ⟨hgood, hle⟩ := h housing housing_admitsAll hd.1 hd.2
  exact ⟨⟨hgood, fun o ho => Rule.there_mono hle (hd.2 o ho)⟩, h, trivial⟩

/-- What is noted stays. -/
theorem LeadsWith.lasts (h : LeadsWith os d d') (hd : (leading os).Good d) : d.Follows d' :=
  h.follows hd.1.1 fun o ho => (hd.2 o ho).1

theorem firstNote_of_prefix {notes notes' : List (SymbolId × TypeExpr)} (h : notes <+: notes')
    (hnote : Linking.firstNote notes s = some e) : Linking.firstNote notes' s = some e := by
  obtain ⟨rest, rfl⟩ := h
  obtain ⟨p, hp, rfl⟩ := Option.map_eq_some_iff.mp hnote
  rw [Linking.firstNote, List.find?_append, hp]
  rfl

theorem firstNote_append_self {notes : List (SymbolId × TypeExpr)} (h : Linking.firstNote notes s = none) :
    Linking.firstNote (notes ++ [(s, e)]) s = some e := by
  rw [Linking.firstNote, Option.map_eq_none_iff] at h
  rw [Linking.firstNote, List.find?_append, h]
  simp

/-- Of what is not declared nothing is noted. -/
theorem Housed.blank (h : d.Housed) (hs : d.builder.kindsOf s = []) :
    Linking.firstNote d.symbolTypes s = none ∧ OnlyTyped s d := by
  have hnotes := (h s hs).2
  refine ⟨?_, .of_notes (congrArg SymbolNotes.signatures hnotes) (congrArg SymbolNotes.classes hnotes)
    (congrArg SymbolNotes.enums hnotes)⟩
  have hhead := congrArg (fun n : SymbolNotes => n.types.head?) hnotes
  rwa [notesOf, List.head?_map, List.head?_filter] at hhead

theorem Unreached.quiet (h : Unreached s ks d) (haside : d.Aside d') (hquiet : quiet.Le d d') : Unreached s ks d' where
  within := hquiet.2.within h.within
  named := haside.named ▸ h.named
  tables c isStatic := haside.tables c isStatic ▸ h.tables c isStatic
  kinds := (haside.kinds s).trans h.kinds
  typed := h.typed.same hquiet.1.signatures hquiet.1.classes hquiet.1.enums

/-- **What is noted of a parameter**, which nothing leads to. -/
structure NotedParameter (os : List SymbolId) (e : TypeExpr) (s : SymbolId) (d : GraphDraft) : Prop where
  good : (leading os).Good d
  others : ∀ o ∈ os, o ≠ s
  unreached : Unreached s [.parameter] d
  note : Linking.firstNote d.symbolTypes s = some e

theorem NotedParameter.mono (h : NotedParameter os e s d) (hle : LeadsWith os d d') : NotedParameter os e s d' := by
  have hos : ∀ o ∈ os, o.Within d.extent := fun o ho => (h.good.2 o ho).1
  obtain ⟨⟨-, hunreached⟩, -⟩ := hle (secluding s [.parameter]) (secluding_admitsAll s _)
    ⟨h.good.1.1, h.unreached⟩ fun o ho => ⟨hos o ho, hos o ho, h.others o ho⟩
  obtain ⟨hgood, hgrows⟩ := hle housing housing_admitsAll h.good.1 h.good.2
  exact ⟨⟨hgood, fun o ho => Rule.there_mono hgrows (h.good.2 o ho)⟩, h.others, hunreached,
    firstNote_of_prefix (hle.lasts h.good).types h.note⟩

theorem bindLocal_aside (d : GraphDraft) (site : Site) (name : String) (s : SymbolId) :
    d.Aside (site.bindLocal name s d).2 ∧ quiet.Le d (site.bindLocal name s d).2 := by
  have halike := bindLocal_alike site name s d
  refine ⟨⟨halike.named, fun c isStatic => ?_, fun m => ?_⟩, (bindLocal_silent d site name s).le.1, ?_⟩
  · rw [halike.builder]
  · rw [halike.builder]
  · rw [halike.builder]
    exact .refl _

/-- A symbol of its own for a parameter, with its type. -/
def parameterSymbol (site : Site) (name doc : String) (flags : SymbolFlags) (span : Span) (single : Bool)
    (e : TypeExpr) : Drafting SymbolId := do
  let symbol ← build (·.addSymbol name flags)
  discard (site.declare symbol .parameter span .none)
  if single then site.bindLocal name symbol
  attachDoc symbol doc
  noteType symbol e
  return symbol

theorem parameterSymbol_run (site : Site) (name doc : String) (flags : SymbolFlags) (span : Span) (single : Bool)
    (e : TypeExpr) (d : GraphDraft) : ∃ d₂ x, x.kind = .parameter ∧
      Aside { d with builder := d.builder.addDeclared name flags x } d₂ ∧
      quiet.Le { d with builder := d.builder.addDeclared name flags x } d₂ ∧
      parameterSymbol site name doc flags span single e d =
        (d.builder.next, { d₂ with symbolTypes := d₂.symbolTypes ++ [(d.builder.next, e)] }) := by
  let x : Declaration := { kind := .parameter, pos := site.pos span, modifiers := .none }
  let d₁ : GraphDraft := { d with builder := d.builder.addDeclared name flags x }
  have hdoc : ∀ d₂, aside.Le d₁ d₂ → quiet.Le d₁ d₂ →
      aside.Le d₁ (attachDoc d.builder.next doc d₂).2 ∧ quiet.Le d₁ (attachDoc d.builder.next doc d₂).2 :=
    fun d₂ haside hquiet => ⟨aside.trans haside (attachDoc_aside d₂ _ doc).le,
      quiet.trans hquiet (attachDoc_quiet d₂ _ doc).le⟩
  cases single with
  | true =>
    obtain ⟨haside, hquiet⟩ := bindLocal_aside d₁ site name d.builder.next
    obtain ⟨haside, hquiet⟩ := hdoc _ haside hquiet
    exact ⟨_, x, rfl, haside, hquiet, rfl⟩
  | false =>
    obtain ⟨haside, hquiet⟩ := hdoc d₁ (aside.refl d₁) (quiet.refl d₁)
    exact ⟨_, x, rfl, haside, hquiet, rfl⟩

/-- **A parameter gets a symbol of its own**, and its type is noted. -/
theorem parameterSymbol_notes (hd : (leading os).Good d) (site : Site) (name doc : String) {flags : SymbolFlags}
    (hflags : flags.meets SymbolFlags.enumMemberBit = false) (span : Span) (single : Bool) {e : TypeExpr}
    (he : e.Written) :
    (leading os).Runs (parameterSymbol site name doc flags span single e) d (NotedParameter os e) := by
  have hleads : LeadsWith os d (parameterSymbol site name doc flags span single e d).2 := by
    have hrest : ∀ R : Rule, ∀ s d', R.Good d' → R.growth.Le d d' → R.There d' s →
        R.growth.Runs (do noteType s e; return s) d' Anything := fun R s d' hd' _ hs =>
      (Rule.noteType_obeys hd' hs he).bind fun _ _ hd'' _ _ => Growth.runs_pure hd'' trivial
    exact .of_runs fun R _ hgood _ =>
      Rule.parameterSymbol_obeys hgood site name doc hflags span single (hrest R)
  have hend := leading_of_leads hd hleads
  refine ⟨hend.good, hend.le, hend.good, fun o ho => ?_, ?_, ?_⟩
  all_goals
    obtain ⟨d₂, x, hkind, haside, hquiet, hrun⟩ := parameterSymbol_run site name doc flags span single e d
    rw [hrun]
  · exact GraphBuilder.ne_next_of_within (hd.2 o ho).1
  · obtain ⟨-, htyped⟩ := hd.1.2.blank (GraphBuilder.kindsOf_next d.builder)
    have hunlisted := hd.1.1.unlisted_next
    have hunreached : Unreached d.builder.next [.parameter]
        { d with builder := d.builder.addDeclared name flags x } := by
      refine ⟨GraphBuilder.next_within_addDeclared _ name flags x, hunlisted.named, fun c isStatic => ?_, ?_,
        { htyped with }⟩
      · rw [GraphBuilder.memberTable_addDeclared]
        exact hunlisted.tables c isStatic
      · rw [GraphBuilder.kindsOf_addDeclared, if_pos rfl, hkind]
    have hsecluded := hunreached.quiet haside hquiet
    exact hsecluded.noted rfl rfl { hsecluded.typed with }
  · obtain ⟨hnone, -⟩ := hd.1.2.blank (GraphBuilder.kindsOf_next d.builder)
    change Linking.firstNote (d₂.symbolTypes ++ [(d.builder.next, e)]) d.builder.next = some e
    rw [hquiet.1.symbolTypes]
    exact firstNote_append_self hnone

theorem parameter_notes (hd : (leading os).Good d) (howner : ∀ o ∈ propertyOwner, o ∈ os) (site : Site)
    (doc : DocComment) (position : Nat) (p : Parameter) :
    (leading os).Runs (site.parameter doc propertyOwner position p) d
      (NotedParameter os (TypeSource.expr { site, type := p.type, value := p.default })) := by
  have hflags : (Site.withOptional SymbolFlags.variableBit (p.isOptional || p.default.isSome)).meets
      SymbolFlags.enumMemberBit = false := Rule.withOptional_meets (by decide) _
  have hsymbol : (leading os).Runs (site.parameter doc none position p) d
      (NotedParameter os (TypeSource.expr { site, type := p.type, value := p.default })) := by
    have hrun : site.parameter doc none position p = parameterSymbol site (Site.parameterName p.pattern position)
        (doc.parameter (Site.parameterName p.pattern position))
        (Site.withOptional SymbolFlags.variableBit (p.isOptional || p.default.isSome)) p.span p.pattern.single.isSome
        (TypeSource.expr { site, type := p.type, value := p.default }) := by
      rw [← parameter_expr]
      rfl
    rw [hrun]
    exact parameterSymbol_notes hd site _ _ hflags _ _ (TypeSource.written _)
  by_cases hproperty : ∃ o ∈ propertyOwner, (p.access.isSome || p.isReadonly) = true
  · obtain ⟨o, rfl, hp⟩ := hproperty
    rw [parameter_property site doc hp]
    refine hsymbol.bind fun s d₁ hd₁ _ hnoted => ?_
    have hleads := parameterProperty_leads (howner o rfl) site doc position p d₁
    exact (leading_of_leads hd₁ hleads).bind fun _ d₂ hd₂ hle₂ _ => Growth.runs_pure hd₂ (hnoted.mono hle₂)
  · rw [parameter_plain site doc fun o ho hp => hproperty ⟨o, ho, hp⟩]
    exact hsymbol

theorem restParameter_notes (hd : (leading os).Good d) (site : Site) (doc : DocComment) (position : Nat)
    (p : RestParameter) : (leading os).Runs (site.restParameter doc position p) d
      (NotedParameter os ((p.type.map site.typeExpr).getD (.array .any))) := by
  have hwritten : ((p.type.map site.typeExpr).getD (.array .any)).Written := by
    cases p.type with
    | some t => exact .read site t
    | none => exact .rest
  exact parameterSymbol_notes hd site (Site.parameterName p.pattern position)
    (doc.parameter (Site.parameterName p.pattern position)) (by decide) p.span p.pattern.single.isSome hwritten

/-! ## Signatures -/

end GraphDraft

/-- What is noted of a signature, with the symbols of its parameters. -/
def SignatureSource.draft (x : SignatureSource) (parameters : List SymbolId) : SignatureDraft where
  owner := x.owner
  parameters := parameters
  result := x.result.map x.site.typeExpr
  pos := x.site.pos x.span
  doc := x.doc.summaryText
  hasBody := x.function.body.isSome

namespace GraphDraft

variable {sources : List ParsedSource} {site inner : Site} {place : Placement} {owner s m : SymbolId}
  {d before after : GraphDraft} {os : List SymbolId} {x : SignatureSource}

/-- The parameters of a signature get symbols of their own. -/
theorem parameters_note (hd : (leading os).Good d) (hproperty : ∀ o ∈ x.propertyOwner, o ∈ os) :
    (leading os).Runs (x.site.parameters x.function.parameters x.doc x.propertyOwner) d fun ids d' =>
      List.Forall₂ (fun e s => NotedParameter os e s d') x.parameterTypes ids := by
  let P (p : Parameter × Nat) :=
    NotedParameter os (TypeSource.expr { site := x.site, type := p.1.type, value := p.1.default })
  have hitems := Growth.runs_mapM_forall₂ (G := leading os) (P := P) (l := x.function.parameters.items.zipIdx) hd
    (fun p s _ _ hle h => h.mono hle) fun p _ d' hd' _ => parameter_notes hd' hproperty x.site x.doc p.2 p.1
  refine hitems.bind fun items d₁ hd₁ _ hitems => ?_
  let Q (p : RestParameter) := NotedParameter os ((p.type.map x.site.typeExpr).getD (.array .any))
  have hrest := Growth.runs_mapM_forall₂ (G := leading os) (P := Q) (l := x.function.parameters.rest.toList) hd₁
    (fun p s _ _ hle h => h.mono hle) fun p _ d' hd' _ =>
      restParameter_notes hd' x.site x.doc x.function.parameters.items.length p
  refine hrest.bind fun rest d₂ hd₂ hle₂ hrest => Growth.runs_pure hd₂ (List.rel_append ?_ ?_)
  · have hkept : List.Forall₂ (fun p s => NotedParameter os
        (TypeSource.expr { site := x.site, type := p.1.type, value := p.1.default }) s d₂)
        x.function.parameters.items.zipIdx items := hitems.imp fun p s h => h.mono hle₂
    rw [← List.zipIdx_map_fst 0 x.function.parameters.items, List.map_map]
    exact List.forall₂_map_left_iff.mpr hkept
  · exact List.forall₂_map_left_iff.mpr hrest

/-- **The types of a signature and of its parameters are noted.** -/
theorem read_notes (hd : (leading os).Good d) (howner : x.owner.symbol ∈ os)
    (hproperty : ∀ o ∈ x.propertyOwner, o ∈ os) :
    (leading os).Runs x.read d fun _ d' => ∃ ids,
      List.Forall₂ (fun e s => NotedParameter os e s d') x.parameterTypes ids ∧ x.draft ids ∈ d'.signatures := by
  refine (leading_of_leads hd (typeParameters_leads x.site _ d)).bind fun _ d₁ hd₁ _ _ => ?_
  refine (parameters_note hd₁ hproperty).bind fun ids d₂ hd₂ _ hids => ?_
  have hnote : LeadsWith os d₂ (noteSignature (x.draft ids) d₂).2 :=
    noteSignature_leads howner (Rule.written_map_typeExpr x.site x.result) d₂
  have hend := leading_of_leads hd₂ hnote
  exact ⟨hend.good, hend.le, ids, hids.imp fun _ _ h => h.mono hnote,
    List.mem_append_right _ (List.mem_singleton_self _)⟩

theorem Amid.leading (h : Amid os before after (ofSources sources)) : (leading os).Good before :=
  h.first housing housing_admitsAll ⟨start_sound.inside, start_housed⟩

/-- **What is noted of a signature** in the end. -/
theorem ComesToSignature.noted (h : ComesToSignature sources x before) : ∃ ids,
    List.Forall₂ (fun e s => Unreached s [.parameter] (ofSources sources) ∧
      Linking.firstNote (ofSources sources).symbolTypes s = some e) x.parameterTypes ids ∧
    x.draft ids ∈ (ofSources sources).signatures := by
  obtain ⟨os, howner, hproperty, hamid⟩ := h.amid
  obtain ⟨hgood, -, ids, hids, hdraft⟩ := read_notes hamid.leading howner hproperty
  refine ⟨ids, hids.imp fun e s hnoted => ?_, ?_⟩
  · have hend := hnoted.mono hamid.rest
    exact ⟨hend.unreached, hend.note⟩
  · exact (hamid.rest.lasts hgood).signatures.subset hdraft

/-! ## What has a type of its own -/

theorem variableItem_leads (site : Site) (place : Placement) (g : VariablesTree) (v : VariableTree) (d : GraphDraft) :
    LeadsWith [] d (site.variableItem place g v d).2 :=
  .of_runs fun _ hR hd _ => Rule.variableItem_obeys hd site place g v fun _ _ _ _ => hR.may _ _

theorem parameters_lead (hproperty : ∀ o ∈ x.propertyOwner, o ∈ os) (ps : List (Parameter × Nat)) (d : GraphDraft) :
    LeadsWith os d (ps.mapM (fun (p, i) => x.site.parameter x.doc x.propertyOwner i p) d).2 := by
  refine LeadsWith.mapM (f := fun (p, i) => x.site.parameter x.doc x.propertyOwner i p) (fun p d => ?_) d
  exact parameter_leads hproperty x.site x.doc p.2 p.1 d

theorem parameterOpening_leads (hproperty : ∀ o ∈ x.propertyOwner, o ∈ os) (earlier : List Parameter) (p : Parameter)
    (d : GraphDraft) : LeadsWith os d (parameterOpening x earlier p d).2 := by
  refine .bind (typeParameters_leads x.site _ d) fun _ d₁ => ?_
  refine .bind (parameters_lead hproperty earlier.zipIdx d₁) fun ids d₂ => ?_
  exact .bind (parameter_leads (by simp) x.site x.doc earlier.length p d₂) fun _ _ => .refl _

/-- The parts of a signature around the property that a parameter is. -/
theorem read_eq {earlier later : List Parameter} {p : Parameter} (howner : x.propertyOwner = some owner)
    (hitems : x.function.parameters.items = earlier ++ p :: later)
    (hp : (p.access.isSome || p.isReadonly) = true) : x.read = (do
      let ids ← parameterOpening x earlier p
      parameterProperty x.site x.doc owner earlier.length p
      let ids' ← (later.zipIdx (earlier.length + 1)).mapM fun (p, i) => x.site.parameter x.doc x.propertyOwner i p
      let rest ← x.function.parameters.rest.toList.mapM
        (x.site.restParameter x.doc x.function.parameters.items.length)
      noteSignature (x.draft (ids ++ ids' ++ rest))) := by
  have hzip : x.function.parameters.items.zipIdx =
      earlier.zipIdx ++ (p, earlier.length) :: later.zipIdx (earlier.length + 1) := by
    rw [hitems, List.zipIdx_append, List.zipIdx_cons, Nat.zero_add]
  unfold SignatureSource.read Site.signature Site.parameters parameterOpening
  rw [hzip, List.mapM_append, List.mapM_cons, howner]
  simp only [parameter_property x.site x.doc hp, bind_assoc, pure_bind, List.append_assoc, List.singleton_append]
  rfl

/-- What is read of a signature behind the property that a parameter is. -/
theorem parameterProperty_leads_read {earlier later : List Parameter} {p : Parameter}
    (howner : x.propertyOwner = some owner) (hitems : x.function.parameters.items = earlier ++ p :: later)
    (hp : (p.access.isSome || p.isReadonly) = true) (hos : x.owner.symbol ∈ os)
    (hproperty : ∀ o ∈ x.propertyOwner, o ∈ os) (d : GraphDraft) :
    LeadsWith os (parameterProperty x.site x.doc owner earlier.length p (parameterOpening x earlier p d).2).2
      (x.read d).2 := by
  rw [read_eq howner hitems hp]
  refine .behind (fun ids _ d₁ => ?_) d
  refine .bind (parameters_lead hproperty (later.zipIdx (earlier.length + 1)) d₁) fun ids' d₂ => ?_
  refine .bind (.mapM (fun p d => restParameter_leads x.site x.doc _ p d) d₂) fun rest d₃ => ?_
  exact noteSignature_leads hos (Rule.written_map_typeExpr x.site x.result) d₃

/-- **What is read before and behind the note of a type.** -/
theorem ComesToTyped.amid {x : TypeSource} (h : ComesToTyped sources x s before) :
    ∃ os after, Amid os before after (ofSources sources) ∧ LeadsWith os before after ∧
      NotesType before s x.expr after := by
  cases h with
  | @item site place g earlier later v name d _ _ hcomes hitems hname hbefore hs =>
    subst hbefore
    have hamid := Amid.loop (f := site.variableItem place g) hcomes.amid hitems (variableItem_leads site place g)
    exact ⟨[], _, hamid, variableItem_leads site place g v _,
      variableItem_notes hamid.leading.1.1 site place g hname hs⟩
  | property hcomes hname hs =>
    exact ⟨_, _, hcomes.amid, interfaceMember_leads _ _ _ _, property_notes hcomes.amid.leading.1.1 _ hname hs⟩
  | @accessor site owner _ m name t _ hcomes hkind hname ht hs =>
    have hrun : site.interfaceMember owner (.method m) = site.accessor owner name m
        (Site.memberModifiers m.access m.isStatic false (Site.isPrivateKey m.key)) := by
      rw [Site.interfaceMember, Site.method, hname]
      obtain hkind | hkind := hkind <;> rw [hkind] <;> rfl
    have hleads := interfaceMember_leads site owner (.method m) before
    have hamid := hcomes.amid
    rw [hrun] at hleads hamid
    exact ⟨_, _, hamid, hleads, accessor_notes hamid.leading.1.1 site ht _ hs⟩
  | @parameter x owner _ earlier later p d _ hcomes howner hitems hp hbefore hs =>
    subst hbefore
    obtain ⟨os, hos, hproperty, hamid⟩ := hcomes.amid
    have hamid := hamid.between (parameterOpening_leads hproperty earlier p d)
      (parameterProperty_leads_read howner hitems hp hos hproperty d)
    exact ⟨os, _, hamid, parameterProperty_leads (hproperty owner howner) x.site x.doc _ p _,
      parameterProperty_notes hamid.leading.1.1 x.site x.doc hs⟩

/-- **What is written of a variable, a property or an accessor is the first note** of its symbol, if nothing was
noted of that before. -/
theorem ComesToTyped.firstNote {x : TypeSource} (h : ComesToTyped sources x s before)
    (hfirst : Linking.firstNote before.symbolTypes s = none) :
    Linking.firstNote (ofSources sources).symbolTypes s = some x.expr := by
  obtain ⟨os, after, hamid, hleads, hnotes⟩ := h.amid
  have hafter := (leading_of_leads (x := fun _ => ((), after)) hamid.leading hleads).good
  refine firstNote_of_prefix (hamid.rest.lasts hafter).types ?_
  rw [hnotes.types]
  exact firstNote_append_self hfirst

theorem Enumerated.not_typedAside (h : d.Enumerated) (htyped : OnlyTyped m d)
    (hkinds : .enumMember ∉ d.builder.kindsOf m) : ¬ d.TypedAside m := by
  rintro (⟨y, hy, heq | ⟨x, hx, rfl⟩⟩ | ⟨x, hx, howner⟩ | ⟨x, hx, hsymbol⟩)
  · exact htyped.enums y hy heq
  · exact hkinds (h.mem_kinds (List.mem_flatMap.mpr ⟨y, hy, hx⟩))
  · exact htyped.signatures x hx (by rw [howner]; rfl)
  · exact htyped.classes x hx hsymbol

/-- **What is declared once** was not declared before that. Nothing but types is noted of it later on, and as a type
alias it stays what it is. -/
theorem LeadsWith.of_once {a : Option TypeExpr} (h : LeadsWith os after d) (hbefore : (leading os).Good before)
    (hafter : (leading os).Good after) (hkinds : before.builder.kindsOf s ++ [kind] <+: after.builder.kindsOf s)
    (htyped : OnlyTyped s before → OnlyTyped s after) (ha : after.typeAliases.get? s = a)
    (hone : (d.builder.kindsOf s).length = 1) : before.builder.kindsOf s = [] ∧ d.builder.kindsOf s = [kind] ∧
      OnlyTyped s d ∧ d.typeAliases.get? s = a := by
  obtain ⟨-, hle⟩ := h housing housing_admitsAll hafter.1 hafter.2
  obtain ⟨hblank, hsole⟩ := eq_singleton_of_prefix (hkinds.trans (hle.kinds s)) hone
  obtain ⟨-, honly⟩ := hbefore.1.2.blank hblank
  -- From here on more than types is noted only of what is declared again.
  have hlone : Lone s a after := ⟨fun hnil => by simp [hnil] at hkinds, .inr ⟨htyped honly, ha⟩⟩
  have hopen : ∀ o ∈ os, (keeping s a).There after o := by
    refine fun o ho => ⟨(hafter.2 o ho).1, ?_⟩
    rintro rfl
    exact absurd hblank (hbefore.2 o ho).2
  obtain ⟨⟨-, hkept⟩, -⟩ := h (keeping s a) (keeping_admitsAll s a) ⟨hafter.1.1, hlone⟩ hopen
  exact ⟨hblank, hsole, hkept.of_once hone⟩

/-- If the symbol is declared once, nothing was, and it has its type in no other way. -/
theorem ComesToTyped.firstNote_of_once {x : TypeSource} (h : ComesToTyped sources x s before)
    (hone : ((ofSources sources).builder.kindsOf s).length = 1) :
    Linking.firstNote (ofSources sources).symbolTypes s = some x.expr ∧ ¬ (ofSources sources).TypedAside s := by
  obtain ⟨os, after, hamid, hleads, hnotes⟩ := h.amid
  have hbefore := hamid.leading
  have hafter := (leading_of_leads (x := fun _ => ((), after)) hbefore hleads).good
  obtain ⟨kind, hkind, hkinds⟩ := hnotes.kinds
  obtain ⟨hblank, hsole, htyped, -⟩ := hamid.rest.of_once hbefore hafter hkinds
    (fun honly => honly.same hnotes.signatures hnotes.classes hnotes.enums) rfl hone
  refine ⟨h.firstNote (hbefore.1.2.blank hblank).1, (ofSources_enumerated sources).not_typedAside htyped ?_⟩
  rw [hsole, List.mem_singleton]
  exact hkind.symm

/-! ## Index signatures and type aliases -/

/-- **The types of an index signature are noted.** -/
theorem ComesToMember.indexNoted {i : IndexTree} (h : ComesToMember sources inner owner (.index i) before)
    (hs : (bindMember owner Site.indexMember SymbolFlags.indexSignatureBit i.isStatic before).1 = s) :
    { inner.indexDraft s i with declaration := (before.builder.kindsOf s).length } ∈ (ofSources sources).indexes := by
  have hafter := (leading_of_leads h.amid.leading (interfaceMember_leads inner owner (.index i) before)).good
  refine (h.amid.rest.lasts hafter).indexes.subset ?_
  have hbinds := (bindMember_binds before owner Site.indexMember SymbolFlags.indexSignatureBit i.isStatic).post
  have hrun : (inner.interfaceMember owner (.index i) before).2 = (fun r : SymbolId × GraphDraft =>
      let declared := inner.declare r.1 .indexSignature i.span (Site.flagIf i.isReadonly ModifierFlags.readonlyBit) r.2
      { declared.2 with
        indexes := declared.2.indexes ++ [{ inner.indexDraft r.1 i with declaration := declared.1 }] })
      (bindMember owner Site.indexMember SymbolFlags.indexSignatureBit i.isStatic before) := rfl
  rw [hrun]
  generalize bindMember owner Site.indexMember SymbolFlags.indexSignatureBit i.isStatic before = run at *
  obtain ⟨s', d₁⟩ := run
  obtain rfl : s' = s := hs
  have hlast : (inner.declare s' .indexSignature i.span (Site.flagIf i.isReadonly ModifierFlags.readonlyBit) d₁).1 =
      (before.builder.kindsOf s').length := by
    rw [declare_fst, GraphBuilder.kindsOf, GraphBuilder.kindsOf, hbinds.declarationsOf_eq]
  rw [← hlast]
  exact List.mem_append_right _ (List.mem_singleton_self _)

theorem typeParameters_quiet (d : GraphDraft) (site : Site) (ps : List TypeParameter) :
    quiet.Runs (site.typeParameters ps) d Anything :=
  Growth.runs_forM trivial fun p _ d _ _ => by
    let x : Declaration := { kind := .typeParameter, pos := site.pos p.span, modifiers := .none }
    let d₁ : GraphDraft := { d with builder := d.builder.addDeclared p.name SymbolFlags.typeParameterBit x }
    have hle : quiet.Le d d₁ := ⟨⟨rfl, rfl, rfl, rfl, rfl, rfl⟩, .addDeclared p.name _ x⟩
    exact ⟨trivial, quiet.trans hle (bindLocal_aside d₁ site p.name d.builder.next).2, trivial⟩

/-- What comes before the note of a type alias: its symbol, and the site inside. -/
def aliasOpening (site : Site) (place : Placement) (a : AliasTree) : Drafting (SymbolId × Site) := do
  let symbol ← site.bindHere place.container a.name SymbolFlags.typeAliasBit
  discard (site.introduce place a.name symbol .typeAlias .none)
  let inner ← site.enter (Site.boundTypeParameters a.typeParameters)
  inner.typeParameters a.typeParameters
  return (symbol, inner)

/-- A type alias is noted behind its declaration, which is one more of its symbol. -/
theorem aliasOpening_run (hd : d.Inside) (site : Site) (place : Placement) (a : AliasTree)
    (hs : (site.bindHere place.container a.name SymbolFlags.typeAliasBit d).1 = s) :
    (aliasOpening site place a d).1 =
        (s, site.inside ⟨d.nextScope, Site.boundTypeParameters a.typeParameters⟩) ∧
      d.Silent (aliasOpening site place a d).2 ∧
      d.builder.kindsOf s ++ [.typeAlias] <+: (aliasOpening site place a d).2.builder.kindsOf s := by
  have hnames := (bindHere_names site d place.container a.name SymbolFlags.typeAliasBit).post
  obtain ⟨hsilent, hscope⟩ := (bindHere_silent d site place.container a.name SymbolFlags.typeAliasBit).le
  have hrun : aliasOpening site place a d = (fun r : SymbolId × GraphDraft =>
      let introduced := (site.introduce place a.name r.1 .typeAlias .none r.2).2
      let inner := site.inside ⟨introduced.nextScope, Site.boundTypeParameters a.typeParameters⟩
      ((r.1, inner), (inner.typeParameters a.typeParameters
        { introduced with nextScope := introduced.nextScope + 1 }).2))
      (site.bindHere place.container a.name SymbolFlags.typeAliasBit d) := rfl
  rw [hrun]
  generalize site.bindHere place.container a.name SymbolFlags.typeAliasBit d = run at *
  obtain ⟨s', d₁⟩ := run
  obtain rfl : s' = s := hs
  obtain ⟨b, x, hx, hle, -, hb⟩ := introduce_builds site place a.name s' .typeAlias .none d₁
  dsimp only
  rw [hb]
  obtain ⟨hsaid, hgrows⟩ := (typeParameters_quiet { d₁ with builder := b, nextScope := d₁.nextScope + 1 }
    (site.inside ⟨d₁.nextScope, Site.boundTypeParameters a.typeParameters⟩) a.typeParameters).le
  have hopened : d₁.Silent { d₁ with builder := b, nextScope := d₁.nextScope + 1 } := by constructor <;> rfl
  refine ⟨by rw [← hscope], (hsilent.trans hopened).trans hsaid, ?_⟩
  have hdeclared : (d₁.builder.declare s' x).2.kindsOf s' = d.builder.kindsOf s' ++ [.typeAlias] := by
    rw [GraphBuilder.kindsOf, GraphBuilder.declarationsOf_declare (hnames.flags hd).1, if_pos rfl,
      hnames.declarationsOf_eq, List.map_append, ← GraphBuilder.kindsOf, List.map_singleton, hx]
  rw [← hdeclared]
  exact (hle.kinds s').trans (hgrows.kinds s')

/-- **The type of a type alias is noted.** -/
theorem ComesTo.aliasNoted {a : AliasTree} (h : ComesTo sources site place (.typeAlias a) before)
    (hs : (site.bindHere place.container a.name SymbolFlags.typeAliasBit before).1 = s)
    (hone : ((ofSources sources).builder.kindsOf s).length = 1) :
    (ofSources sources).typeAliases.get? s =
      some ((site.inside ⟨before.nextScope, Site.boundTypeParameters a.typeParameters⟩).typeExpr a.type) := by
  have hbefore := h.amid.leading
  obtain ⟨hfst, hsilent, hkinds⟩ := aliasOpening_run hbefore.1.1 site place a hs
  have hafter : (GraphDraft.leading []).Good (site.declared place (.typeAlias a) before).2 :=
    ⟨(Rule.typeAlias_obeys hbefore.1 site place a fun _ _ => trivial).good, by simp⟩
  have hrest := h.amid.rest
  have hrun : (site.declared place (.typeAlias a) before).2 = (fun r : (SymbolId × Site) × GraphDraft =>
      { r.2 with typeAliases := r.2.typeAliases.insert r.1.1 (r.1.2.typeExpr a.type) })
      (aliasOpening site place a before) := rfl
  rw [hrun] at hafter hrest
  generalize aliasOpening site place a before = run at *
  obtain ⟨⟨s', inner⟩, d₁⟩ := run
  obtain ⟨rfl, rfl⟩ := Prod.mk.inj hfst
  obtain ⟨-, -, -, halias⟩ := hrest.of_once hbefore hafter hkinds
    (fun honly => honly.same hsilent.signatures hsilent.classes hsilent.enums) Table.get?_insert_self hone
  exact halias

end GraphDraft

end ApiDocs
