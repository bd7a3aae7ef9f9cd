import ApiDocs.Proofs.Binding.DraftCuts
import ApiDocs.Proofs.Binding.SilentSteps

/-!
# Where types are written

Types are written with variables, properties, accessors, index signatures, parameters and results. To read sources
comes to each of these in its turn: to a declaration first, then to a member of a class or interface, and then to the
signature of a function. How far reading has come is known all the way, and so are the scopes: the one of a class, an
interface or a function is the next that is entered.

## Main definitions

* `TypeSource`: an annotation, or else an initializer, with its site.
* `GraphDraft.ComesToMember`, `GraphDraft.ComesToSignature`, `GraphDraft.ComesToTyped`: at which site, and behind
  which draft, a member, a signature and what has a type of its own are read.
* `GraphDraft.Amid`: what is read before and behind a step.

## Main results

* `GraphDraft.ComesToMember.amid`, `GraphDraft.ComesToSignature.amid`: the draft of sources cut at a member and at a
  signature.
* `GraphDraft.classOpening_fst`, `GraphDraft.functionOpening_fst`, …: the sites inside of classes and functions.
-/

namespace ApiDocs

open TypeScript

/-! ## What types come from -/

/-- What something has its type from: an annotation, or else an initializer. -/
structure TypeSource where
  site : Site
  type : Option TypeTree
  value : Option Expr := none
  /-- Literals keep their value. -/
  literal : Bool := false

/-- The expression of the type. -/
def TypeSource.expr (x : TypeSource) : TypeExpr :=
  (match x.type with
    | some t => some (x.site.typeExpr t)
    | none => x.value.bind (x.site.infer? x.literal)).getD .any

/-- An annotation says what the type is. -/
theorem TypeSource.expr_of_type {x : TypeSource} {t : TypeTree} (h : x.type = some t) :
    x.expr = x.site.typeExpr t := by
  rw [TypeSource.expr, h]
  rfl

theorem TypeSource.written (x : TypeSource) : x.expr.Written :=
  GraphDraft.Rule.written_type x.site x.literal x.type x.value

/-- A member of a class as one of an interface. -/
def TypeScript.ClassMember.asInterface : ClassMember → InterfaceMember
  | .method m => .method m
  | .property p => .property p
  | .index i => .index i
  | .other => .call

theorem Site.classMember_eq (site : Site) (owner : SymbolId) (m : ClassMember) :
    site.classMember owner m = site.interfaceMember owner m.asInterface := by
  cases m <;> rfl

/-- A signature that is read: its site inside the scope of the function, and what it is the signature of. -/
structure SignatureSource where
  site : Site
  owner : SignatureOwner
  function : FunctionTree
  span : Span
  doc : DocComment
  /-- The class that parameters of the signature are properties of. -/
  propertyOwner : Option SymbolId
  result : Option TypeTree

namespace SignatureSource

/-- Read a signature. -/
def read (x : SignatureSource) : GraphDraft.Drafting Unit :=
  x.site.signature x.owner x.function x.span x.doc x.propertyOwner x.result

/-- The expressions of the types of the parameters. -/
def parameterTypes (x : SignatureSource) : List TypeExpr :=
  x.function.parameters.items.map (fun p => TypeSource.expr { site := x.site, type := p.type, value := p.default }) ++
    x.function.parameters.rest.toList.map fun p => (p.type.map x.site.typeExpr).getD (.array .any)

end SignatureSource

namespace GraphDraft

/-! ## The ways inside -/

/-- What comes before the members of a class: its symbol, and their site. -/
def classOpening (site : Site) (place : Placement) (c : ClassTree) : Drafting (SymbolId × Site) := do
  let symbol ← site.bindMaybe place.container c.name SymbolFlags.classBit
  let declaration ← site.introduce place (c.name.getD defaultName) symbol .classDecl
    (Site.flagIf c.isAbstract ModifierFlags.abstractBit ∪ Site.flagIf c.isDeclared ModifierFlags.declareBit)
  return (symbol, ← Rule.classHead site c symbol declaration)

/-- What comes before the members of an interface: its symbol, and their site. -/
def interfaceOpening (site : Site) (place : Placement) (i : InterfaceTree) : Drafting (SymbolId × Site) := do
  let symbol ← site.bindHere place.container i.name SymbolFlags.interfaceBit
  let declaration ← site.introduce place i.name symbol .interfaceDecl
    (Site.flagIf i.isDeclared ModifierFlags.declareBit)
  return (symbol, ← Rule.interfaceHead site i symbol declaration)

/-- What comes before the signature of a function: its symbol, and the site inside. -/
def functionOpening (site : Site) (place : Placement) (f : FunctionTree) : Drafting (SymbolId × Site) := do
  let symbol ← site.bindMaybe place.container f.name SymbolFlags.functionBit
  discard (site.introduce place (f.name.getD defaultName) symbol .functionDecl
    (Site.flagIf f.isDeclared ModifierFlags.declareBit ∪ Site.flagIf f.isAsync ModifierFlags.asyncBit))
  return (symbol, ← site.enter (Site.boundInFunction f))

/-- What comes before the signature of a method: its symbol, and the site inside. -/
def methodOpening (site : Site) (owner : SymbolId) (name : String) (m : MethodTree) :
    Drafting (SymbolId × Site) := do
  let member ← bindMember owner name (Site.withOptional SymbolFlags.methodBit m.isOptional) m.isStatic
  discard (site.declare member .method m.span
    (Site.memberModifiers m.access m.isStatic false (Site.isPrivateKey m.key)))
  attachDoc member (site.docAt m.span.start).summaryText
  return (member, ← site.enter (Site.boundInFunction m.function))

/-- What comes before the property that a parameter is: the parameters before, and the parameter by itself. Their
symbols come back. -/
def parameterOpening (x : SignatureSource) (earlier : List Parameter) (p : Parameter) : Drafting (List SymbolId) := do
  x.site.typeParameters x.function.typeParameters
  let ids ← earlier.zipIdx.mapM fun (p, i) => x.site.parameter x.doc x.propertyOwner i p
  return ids ++ [← x.site.parameter x.doc none earlier.length p]

/-! ## Members, signatures and symbols -/

/-- **To read sources comes to a member** of a class or interface: inside the scope of the type parameters, which is
the next one, and behind the draft of the members before. -/
inductive ComesToMember (sources : List ParsedSource) : Site → SymbolId → InterfaceMember → GraphDraft → Prop where
  | ofClass {site inner : Site} {place : Placement} {c : ClassTree} {d : GraphDraft} {s : SymbolId}
    {earlier later : List ClassMember} {m : ClassMember} : ComesTo sources site place (.classLike c) d →
    (site.bindMaybe place.container c.name SymbolFlags.classBit d).1 = s →
    (site.inside ⟨d.nextScope, Site.boundTypeParameters c.typeParameters⟩).within s = inner →
    c.members = earlier ++ m :: later →
    ComesToMember sources inner s m.asInterface (earlier.forM (inner.classMember s) (classOpening site place c d).2).2
  | ofInterface {site inner : Site} {place : Placement} {i : InterfaceTree} {d : GraphDraft} {s : SymbolId}
    {earlier later : List InterfaceMember} {m : InterfaceMember} : ComesTo sources site place (.interfaceLike i) d →
    (site.bindHere place.container i.name SymbolFlags.interfaceBit d).1 = s →
    (site.inside ⟨d.nextScope, Site.boundTypeParameters i.typeParameters⟩).within s = inner →
    i.members = earlier ++ m :: later →
    ComesToMember sources inner s m (earlier.forM (inner.interfaceMember s) (interfaceOpening site place i d).2).2

/-- **To read sources comes to a signature**: that of a function, a method or a constructor, inside the scope of its
parameters, which is the next one. -/
inductive ComesToSignature (sources : List ParsedSource) : SignatureSource → GraphDraft → Prop where
  | function {site : Site} {place : Placement} {f : FunctionTree} {d : GraphDraft} {s : SymbolId} :
    ComesTo sources site place (.functionLike f) d →
    (site.bindMaybe place.container f.name SymbolFlags.functionBit d).1 = s →
    ComesToSignature sources ⟨site.inside ⟨d.nextScope, Site.boundInFunction f⟩, .call s, f, place.span,
      site.docAt place.span.start, none, f.result⟩ (functionOpening site place f d).2
  | method {site : Site} {owner s : SymbolId} {m : MethodTree} {name : String} {d : GraphDraft} :
    ComesToMember sources site owner (.method m) d → m.kind = .method → Site.memberName? m.key = some name →
    (bindMember owner name (Site.withOptional SymbolFlags.methodBit m.isOptional) m.isStatic d).1 = s →
    ComesToSignature sources ⟨site.inside ⟨d.nextScope, Site.boundInFunction m.function⟩, .call s, m.function,
      m.span, site.docAt m.span.start, none, m.function.result⟩ (methodOpening site owner name m d).2
  | constructor {site : Site} {owner : SymbolId} {m : MethodTree} {d : GraphDraft} :
    ComesToMember sources site owner (.method m) d → m.kind = .construct →
    ComesToSignature sources ⟨site.inside ⟨d.nextScope, Site.boundInFunction m.function⟩, .construct owner,
      m.function, m.span, site.docAt m.span.start, some owner, none⟩
      (site.enter (Site.boundInFunction m.function) d).2
  | construct {site : Site} {owner : SymbolId} {span : Span} {f : FunctionTree} {d : GraphDraft} :
    ComesToMember sources site owner (.construct span f) d →
    ComesToSignature sources ⟨site.inside ⟨d.nextScope, Site.boundInFunction f⟩, .construct owner, f, span,
      site.docAt span.start, none, f.result⟩ (site.enter (Site.boundInFunction f) d).2

/-- **To read sources comes to what has a type of its own**: a variable, a property, an accessor, or a parameter that
is a property, too. Its symbol is found or made next. -/
inductive ComesToTyped (sources : List ParsedSource) : TypeSource → SymbolId → GraphDraft → Prop where
  | item {site : Site} {place : Placement} {g : VariablesTree} {earlier later : List VariableTree}
    {v : VariableTree} {name : String} {d before : GraphDraft} {s : SymbolId} :
    ComesTo sources site place (.variableGroup g) d → g.items = earlier ++ v :: later →
    v.pattern.single = some name → (earlier.forM (site.variableItem place g) d).2 = before →
    (site.bindHere place.container name SymbolFlags.variableBit before).1 = s →
    ComesToTyped sources
      { site := site, type := v.type, value := v.value, literal := g.kind == VariableKind.isConst } s before
  | property {site : Site} {owner s : SymbolId} {p : PropertyTree} {name : String} {before : GraphDraft} :
    ComesToMember sources site owner (.property p) before → Site.memberName? p.key = some name →
    (bindMember owner name (Site.withOptional SymbolFlags.propertyBit p.isOptional) p.isStatic before).1 = s →
    ComesToTyped sources { site := site, type := p.type, value := p.value, literal := p.isReadonly } s before
  | accessor {site : Site} {owner s : SymbolId} {m : MethodTree} {name : String} {t : TypeTree}
    {before : GraphDraft} :
    ComesToMember sources site owner (.method m) before → m.kind = .getter ∨ m.kind = .setter →
    Site.memberName? m.key = some name → Site.accessorType? m = some t →
    (bindMember owner name SymbolFlags.accessorBit m.isStatic before).1 = s →
    ComesToTyped sources
      { site := site.inside ⟨before.nextScope, Site.boundInFunction m.function⟩, type := some t } s before
  | parameter {x : SignatureSource} {owner s : SymbolId} {earlier later : List Parameter} {p : Parameter}
    {d before : GraphDraft} :
    ComesToSignature sources x d → x.propertyOwner = some owner →
    x.function.parameters.items = earlier ++ p :: later → (p.access.isSome || p.isReadonly) = true →
    (parameterOpening x earlier p d).2 = before →
    (bindMember owner (Site.parameterName p.pattern earlier.length) SymbolFlags.propertyBit false before).1 = s →
    ComesToTyped sources { site := x.site, type := p.type, value := p.default } s before

variable {sources : List ParsedSource} {site inner : Site} {place : Placement} {owner s : SymbolId}
  {d d' d₁ before after : GraphDraft} {name : String}

/-! ## Sites -/

/-- The members of a class are read inside the scope of its type parameters, which is the next one. -/
theorem classOpening_fst (site : Site) (place : Placement) (c : ClassTree) (d : GraphDraft) :
    (classOpening site place c d).1 = ((site.bindMaybe place.container c.name SymbolFlags.classBit d).1,
      (site.inside ⟨d.nextScope, Site.boundTypeParameters c.typeParameters⟩).within
        (site.bindMaybe place.container c.name SymbolFlags.classBit d).1) := by
  have hbound : (site.bindMaybe place.container c.name SymbolFlags.classBit d).2.nextScope = d.nextScope :=
    (bindMaybe_silent d site place.container c.name SymbolFlags.classBit).le.2
  rw [← hbound]
  generalize hrun : site.bindMaybe place.container c.name SymbolFlags.classBit d = run
  have hintroduced : (site.introduce place (c.name.getD defaultName) run.1 .classDecl
      (Site.flagIf c.isAbstract ModifierFlags.abstractBit ∪ Site.flagIf c.isDeclared ModifierFlags.declareBit)
      run.2).2.nextScope = run.2.nextScope := (introduce_silent run.2 site place _ run.1 _ _).le.2
  rw [← hintroduced, ← hrun]
  rfl

/-- So are those of an interface. -/
theorem interfaceOpening_fst (site : Site) (place : Placement) (i : InterfaceTree) (d : GraphDraft) :
    (interfaceOpening site place i d).1 = ((site.bindHere place.container i.name SymbolFlags.interfaceBit d).1,
      (site.inside ⟨d.nextScope, Site.boundTypeParameters i.typeParameters⟩).within
        (site.bindHere place.container i.name SymbolFlags.interfaceBit d).1) := by
  have hbound : (site.bindHere place.container i.name SymbolFlags.interfaceBit d).2.nextScope = d.nextScope :=
    (bindHere_silent d site place.container i.name SymbolFlags.interfaceBit).le.2
  rw [← hbound]
  generalize hrun : site.bindHere place.container i.name SymbolFlags.interfaceBit d = run
  have hintroduced : (site.introduce place i.name run.1 .interfaceDecl
      (Site.flagIf i.isDeclared ModifierFlags.declareBit) run.2).2.nextScope = run.2.nextScope :=
    (introduce_silent run.2 site place _ run.1 _ _).le.2
  rw [← hintroduced, ← hrun]
  rfl

/-- The signature of a function is read inside the scope of its parameters, which is the next one. -/
theorem functionOpening_fst (site : Site) (place : Placement) (f : FunctionTree) (d : GraphDraft) :
    (functionOpening site place f d).1 = ((site.bindMaybe place.container f.name SymbolFlags.functionBit d).1,
      site.inside ⟨d.nextScope, Site.boundInFunction f⟩) := by
  have hbound : (site.bindMaybe place.container f.name SymbolFlags.functionBit d).2.nextScope = d.nextScope :=
    (bindMaybe_silent d site place.container f.name SymbolFlags.functionBit).le.2
  rw [← hbound]
  generalize hrun : site.bindMaybe place.container f.name SymbolFlags.functionBit d = run
  have hintroduced : (site.introduce place (f.name.getD defaultName) run.1 .functionDecl
      (Site.flagIf f.isDeclared ModifierFlags.declareBit ∪ Site.flagIf f.isAsync ModifierFlags.asyncBit)
      run.2).2.nextScope = run.2.nextScope := (introduce_silent run.2 site place _ run.1 _ _).le.2
  rw [← hintroduced, ← hrun]
  rfl

/-- So is that of a method. -/
theorem methodOpening_fst (site : Site) (owner : SymbolId) (name : String) (m : MethodTree) (d : GraphDraft) :
    (methodOpening site owner name m d).1 =
      ((bindMember owner name (Site.withOptional SymbolFlags.methodBit m.isOptional) m.isStatic d).1,
        site.inside ⟨d.nextScope, Site.boundInFunction m.function⟩) := by
  have hmember := (memberSymbol_silent d site owner name (site.docAt m.span.start).summaryText
    (Site.withOptional SymbolFlags.methodBit m.isOptional) m.isStatic .method m.span
    (Site.memberModifiers m.access m.isStatic false (Site.isPrivateKey m.key))).le.2
  rw [← show _ = d.nextScope from hmember]
  rfl

/-! ## What is read before and behind -/

/-- **A step on the way to a draft.** What rules say is preserved before it and behind it, and the symbols are open to
what is read in it. -/
structure Amid (os : List SymbolId) (before after d : GraphDraft) : Prop where
  first : ∀ R : Rule, R.AdmitsAll → R.Good .start → R.Good before ∧ ∀ s ∈ os, R.There before s
  rest : LeadsWith os after d

theorem LeadsWith.forM {os : List SymbolId} {α : Type} {f : α → Drafting Unit} {xs : List α}
    (h : ∀ x d, LeadsWith os d (f x d).2) (d : GraphDraft) : LeadsWith os d (xs.forM f d).2 := by
  induction xs generalizing d with
  | nil => exact .refl d
  | cons x xs ih => exact (h x d).trans (ih (f x d).2)

namespace Amid

variable {os os' : List SymbolId} {before' after' : GraphDraft}

/-- A step in a step, to which more symbols are open. -/
theorem part (h : Amid os before after d) (hos : ∀ s ∈ os, s ∈ os')
    (hinto : ∀ R : Rule, R.AdmitsAll → R.Good before → (∀ s ∈ os, R.There before s) →
      R.Good before' ∧ ∀ s ∈ os', R.There before' s)
    (hout : LeadsWith os' after' after) : Amid os' before' after' d where
  first R hR hstart := by
    obtain ⟨hbefore, hthere⟩ := h.first R hR hstart
    exact hinto R hR hbefore hthere
  rest R hR hafter hthere := by
    obtain ⟨hgood, hle⟩ := hout R hR hafter hthere
    obtain ⟨hend, hle'⟩ := h.rest R hR hgood fun s hs => Rule.there_mono hle (hthere s (hos s hs))
    exact ⟨hend, hle.trans hle'⟩

/-- A step that opens a symbol to the rest. -/
theorem opening (h : Amid os before after d) (hinto : ∀ R : Rule, R.AdmitsAll → R.Good before →
      (∀ s ∈ os, R.There before s) → R.Good before' ∧ before.builder.Enlarges before'.builder ∧ R.There before' s) :
    Amid (s :: os) before' after d := by
  refine h.part (fun s hs => List.mem_cons_of_mem _ hs) (fun R hR hbefore hthere => ?_) (.refl after)
  obtain ⟨hgood, hle, hs⟩ := hinto R hR hbefore hthere
  exact ⟨hgood, List.forall_mem_cons.mpr ⟨hs, fun s hs => Rule.there_mono hle (hthere s hs)⟩⟩

/-- A step in a step. -/
theorem between (h : Amid os before after d) (hinto : LeadsWith os before before')
    (hout : LeadsWith os after' after) : Amid os before' after' d := by
  refine h.part (fun s hs => hs) (fun R hR hbefore hthere => ?_) hout
  obtain ⟨hgood, hle⟩ := hinto R hR hbefore hthere
  exact ⟨hgood, fun s hs => Rule.there_mono hle (hthere s hs)⟩

/-- One step of a loop. -/
theorem loop {α : Type} {f : α → Drafting Unit} {xs earlier later : List α} {x : α}
    (h : Amid os before (xs.forM f before).2 d) (hxs : xs = earlier ++ x :: later)
    (hf : ∀ x d, LeadsWith os d (f x d).2) :
    Amid os (earlier.forM f before).2 (f x (earlier.forM f before).2).2 d := by
  have hrun : ∀ (earlier : List α) d,
      ((earlier ++ x :: later).forM f d).2 = (later.forM f (f x (earlier.forM f d).2).2).2 := by
    intro earlier
    induction earlier with
    | nil => exact fun d => rfl
    | cons y earlier ih => exact fun d => ih (f y d).2
  refine h.between (LeadsWith.forM hf before) ?_
  rw [hxs, hrun]
  exact LeadsWith.forM hf _

end Amid

theorem ComesTo.amid {x : Declared} (h : ComesTo sources site place x before) :
    Amid [] before (site.declared place x before).2 (ofSources sources) where
  first R hR hstart := ⟨h.leads.1.obeys hR hstart, by simp⟩
  rest := h.leads.2

/-! ## Members -/

theorem Rule.classOpening_obeys {R : Rule} (hR : R.AdmitsAll) (hd : R.Good d) (site : Site) (place : Placement)
    (c : ClassTree) : R.growth.Runs (classOpening site place c) d fun r d' => R.There d' r.1 := by
  refine Growth.runs_of_completes (bindMaybe_names site d _ c.name _) fun s d₁ hnames => ?_
  refine (Rule.introduce_obeys hd hnames site _ (fun _ _ => hR.may _ _) (by decide) (by decide) _).bind
    fun declaration d₂ hd₂ _ hs₂ => ?_
  exact (Rule.classHead_obeys hd₂ hs₂ site c declaration).bind fun _ d₃ hd₃ _ hs₃ => Growth.runs_pure hd₃ hs₃

theorem Rule.interfaceOpening_obeys {R : Rule} (hR : R.AdmitsAll) (hd : R.Good d) (site : Site) (place : Placement)
    (i : InterfaceTree) : R.growth.Runs (interfaceOpening site place i) d fun r d' => R.There d' r.1 := by
  refine Growth.runs_of_completes (bindHere_names site d _ i.name _) fun s d₁ hnames => ?_
  refine (Rule.introduce_obeys hd hnames site _ (fun _ _ => hR.may _ _) (by decide) (by decide) _).bind
    fun declaration d₂ hd₂ _ hs₂ => ?_
  exact (Rule.interfaceHead_obeys hd₂ hs₂ site i declaration).bind fun _ d₃ hd₃ _ hs₃ => Growth.runs_pure hd₃ hs₃

theorem classLike_opens (site : Site) (place : Placement) (c : ClassTree) (d : GraphDraft) :
    (site.classLike place c d).2 = (c.members.forM ((classOpening site place c d).1.2.classMember
      (classOpening site place c d).1.1) (classOpening site place c d).2).2 := rfl

theorem interfaceLike_opens (site : Site) (place : Placement) (i : InterfaceTree) (d : GraphDraft) :
    (site.interfaceLike place i d).2 = (i.members.forM ((interfaceOpening site place i d).1.2.interfaceMember
      (interfaceOpening site place i d).1.1) (interfaceOpening site place i d).2).2 := rfl

theorem interfaceMember_leads (site : Site) (owner : SymbolId) (m : InterfaceMember) (d : GraphDraft) :
    LeadsWith [owner] d (site.interfaceMember owner m d).2 :=
  .of_runs fun _ hR hd hthere =>
    Rule.interfaceMember_obeys hd (hthere owner (List.mem_singleton_self _)) site m fun _ _ => hR.may _ _

theorem classMember_leads (site : Site) (owner : SymbolId) (m : ClassMember) (d : GraphDraft) :
    LeadsWith [owner] d (site.classMember owner m d).2 := by
  rw [Site.classMember_eq]
  exact interfaceMember_leads site owner m.asInterface d

/-- **What is read before and behind a member.** -/
theorem ComesToMember.amid {m : InterfaceMember} (h : ComesToMember sources inner owner m before) :
    Amid [owner] before (inner.interfaceMember owner m before).2 (ofSources sources) := by
  cases h with
  | @ofClass site _ place c d _ earlier later m hcomes hs hinner hmembers =>
    have hrun : (site.declared place (.classLike c) d).2 =
        (c.members.forM (inner.classMember owner) (classOpening site place c d).2).2 := by
      have hfst := classOpening_fst site place c d
      rw [hs, hinner] at hfst
      rw [Site.declared, classLike_opens, hfst]
    have hopened : Amid [owner] (classOpening site place c d).2 (site.declared place (.classLike c) d).2
        (ofSources sources) := by
      refine hcomes.amid.opening fun R hR hd _ => ?_
      have hopening := Rule.classOpening_obeys hR hd site place c
      refine ⟨hopening.good, hopening.le, ?_⟩
      rw [← hs, ← congrArg Prod.fst (classOpening_fst site place c d)]
      exact hopening.post
    rw [hrun] at hopened
    rw [← Site.classMember_eq]
    exact hopened.loop hmembers (classMember_leads _ _)
  | @ofInterface site _ place i d _ earlier later m hcomes hs hinner hmembers =>
    have hrun : (site.declared place (.interfaceLike i) d).2 =
        (i.members.forM (inner.interfaceMember owner) (interfaceOpening site place i d).2).2 := by
      have hfst := interfaceOpening_fst site place i d
      rw [hs, hinner] at hfst
      rw [Site.declared, interfaceLike_opens, hfst]
    have hopened : Amid [owner] (interfaceOpening site place i d).2 (site.declared place (.interfaceLike i) d).2
        (ofSources sources) := by
      refine hcomes.amid.opening fun R hR hd _ => ?_
      have hopening := Rule.interfaceOpening_obeys hR hd site place i
      refine ⟨hopening.good, hopening.le, ?_⟩
      rw [← hs, ← congrArg Prod.fst (interfaceOpening_fst site place i d)]
      exact hopening.post
    rw [hrun] at hopened
    exact hopened.loop hmembers (interfaceMember_leads _ _)

/-! ## Signatures -/

theorem function_opens (site : Site) (place : Placement) (f : FunctionTree) (d : GraphDraft) :
    (site.function place f d).2 = ((functionOpening site place f d).1.2.signature
      (.call (functionOpening site place f d).1.1) f place.span (site.docAt place.span.start) none f.result
      (functionOpening site place f d).2).2 := rfl

theorem method_opens {m : MethodTree} (hkind : m.kind = .method) (hname : Site.memberName? m.key = some name)
    (site : Site) (owner : SymbolId) (d : GraphDraft) : (site.interfaceMember owner (.method m) d).2 =
      ((methodOpening site owner name m d).1.2.signature (.call (methodOpening site owner name m d).1.1) m.function
        m.span (site.docAt m.span.start) none m.function.result (methodOpening site owner name m d).2).2 := by
  have hmethod : site.interfaceMember owner (.method m) = site.plainMethod owner name m
      (Site.memberModifiers m.access m.isStatic false (Site.isPrivateKey m.key)) := by
    rw [Site.interfaceMember, Site.method, hkind, hname]
    rfl
  rw [hmethod]
  rfl

theorem Rule.functionOpening_obeys {R : Rule} (hR : R.AdmitsAll) (hd : R.Good d) (site : Site) (place : Placement)
    (f : FunctionTree) : R.growth.Runs (functionOpening site place f) d fun r d' => R.There d' r.1 := by
  refine Growth.runs_of_completes (bindMaybe_names site d _ f.name _) fun s d₁ hnames => ?_
  refine (Rule.introduce_obeys hd hnames site _ (fun _ _ => hR.may _ _) (by decide) (by decide) _).discard.bind
    fun _ d₂ hd₂ _ hs₂ => ?_
  exact (Rule.enter_obeys hd₂ site _).bind fun _ d₃ hd₃ hle₃ _ =>
    Growth.runs_pure hd₃ (Rule.there_mono hle₃ hs₂)

theorem Rule.methodOpening_obeys {R : Rule} (hR : R.AdmitsAll) (hd : R.Good d) (howner : R.There d owner)
    (site : Site) (name : String) (m : MethodTree) :
    R.growth.Runs (methodOpening site owner name m) d fun r d' => R.There d' r.1 :=
  Rule.memberSymbol_obeys hd howner site name _ (Rule.withOptional_meets (by decide) _) (fun _ => hR.may _ _)
    (by decide) _ _ fun _ d₁ hd₁ _ hs₁ => (Rule.enter_obeys hd₁ site _).bind fun _ d₂ hd₂ hle₂ _ =>
      Growth.runs_pure hd₂ (Rule.there_mono hle₂ hs₁)

/-- A scope is entered before a step. -/
theorem Amid.entering {os : List SymbolId} (h : Amid os before after d) (site : Site) (bound : List Bound) :
    Amid os (site.enter bound before).2 after d :=
  h.between (.of_runs fun _ _ hd _ => Rule.enter_obeys hd site bound) (.refl after)

/-- **What is read before and behind a signature.** -/
theorem ComesToSignature.amid {x : SignatureSource} (h : ComesToSignature sources x before) :
    ∃ os, x.owner.symbol ∈ os ∧ (∀ o ∈ x.propertyOwner, o ∈ os) ∧
      Amid os before (x.read before).2 (ofSources sources) := by
  cases h with
  | @function site place f d s hcomes hs =>
    have hfst := functionOpening_fst site place f d
    rw [hs] at hfst
    have hopened := hcomes.amid.opening (s := s) fun R hR hd _ => by
      have hopening := Rule.functionOpening_obeys hR hd site place f
      refine ⟨hopening.good, hopening.le, ?_⟩
      have hthere := hopening.post
      rwa [hfst] at hthere
    rw [Site.declared, function_opens, hfst] at hopened
    exact ⟨[s], List.mem_singleton_self s, by simp, hopened⟩
  | @method site owner s m name d hcomes hkind hname hs =>
    have hfst := methodOpening_fst site owner name m d
    rw [hs] at hfst
    have hopened := hcomes.amid.opening (s := s) fun R hR hd hthere => by
      have hopening := Rule.methodOpening_obeys hR hd (hthere owner (List.mem_singleton_self _)) site name m
      refine ⟨hopening.good, hopening.le, ?_⟩
      have hthere := hopening.post
      rwa [hfst] at hthere
    rw [method_opens hkind hname, hfst] at hopened
    exact ⟨[s, owner], List.mem_cons_self, by simp, hopened⟩
  | @constructor site owner m d hcomes hkind =>
    have hentered := hcomes.amid.entering site (Site.boundInFunction m.function)
    rw [Site.interfaceMember, Site.method, hkind] at hentered
    exact ⟨[owner], List.mem_singleton_self owner, by simp, hentered⟩
  | @construct site owner span f d hcomes =>
    exact ⟨[owner], List.mem_singleton_self owner, by simp, hcomes.amid.entering site (Site.boundInFunction f)⟩

end GraphDraft

end ApiDocs
