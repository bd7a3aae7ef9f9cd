import ApiDocs.Binding.Declarations
import ApiDocs.Proofs.Binding.Members

/-!
# Reading sources keeps drafts sound

A declaration, a statement and so a whole source keep drafts sound, whatever tree the source has and
whatever its names mean. A source adds one file, which is a module just if the source has module
syntax; nothing that its statements do touches the files.

## Main results

* `Site.statements_runs`: statements keep drafts sound, and files as they are.
* `GraphDraft.addSource_adds`: a source adds its file.
-/

namespace ApiDocs

open TypeScript
open GraphDraft

namespace Site

variable {site : Site} {d : GraphDraft} {symbol : SymbolId}

/-! ## Names -/

theorem publish_runs (hd : d.Sound) (place : Placement) (name : String)
    (hs : symbol.Within d.extent) : growth.Runs (publish place name symbol) d Anything := by
  unfold publish
  split
  · split
    · exact Growth.runs_pure hd trivial
    · exact exportAs_runs hd name hs
    · exact exportAs_runs hd defaultName hs
  · exact Growth.runs_pure hd trivial

theorem bindHere_runs (hd : d.Sound) (site : Site) (container : Container) (name : String)
    (flags : SymbolFlags) : growth.Runs (site.bindHere container name flags) d SymbolThere := by
  refine (bindNamed_runs hd container name flags).bind fun symbol d₁ hd₁ _ hs => ?_
  exact (bindLocal_runs hd₁ site name hs).handBack (within_stable symbol) hs

theorem bindMaybe_runs (hd : d.Sound) (site : Site) (container : Container) (name : Option String)
    (flags : SymbolFlags) : growth.Runs (site.bindMaybe container name flags) d SymbolThere := by
  cases name with
  | some name => exact bindHere_runs hd site container name flags
  | none => exact bindNamed_runs hd container defaultName flags

theorem introduce_runs (hd : d.Sound) (site : Site) (place : Placement) (name : String)
    (hs : symbol.Within d.extent) (kind : DeclarationKind) (modifiers : ModifierFlags) :
    growth.Runs (site.introduce place name symbol kind modifiers) d Anything := by
  refine (declare_runs hd site _ _ _ _).bind fun declaration d₁ hd₁ hle₁ _ => ?_
  refine (attachDoc_runs hd₁ _ _).bind fun _ d₂ hd₂ hle₂ _ => ?_
  have hs₂ : symbol.Within d₂.extent := hs.mono (growth.trans hle₁ hle₂).1
  refine (publish_runs hd₂ place name hs₂).bind fun _ d₃ hd₃ _ _ => ?_
  exact Growth.runs_pure hd₃ trivial

/-! ## Variables and functions -/

theorem variableItem_runs (hd : d.Sound) (hsite : site.Within d.extent) (place : Placement)
    (tree : VariablesTree) (v : VariableTree) :
    growth.Runs (site.variableItem place tree v) d Anything := by
  unfold variableItem
  split
  next name _ =>
    refine (bindHere_runs hd site _ name _).bind fun symbol d₁ hd₁ hle₁ hs₁ => ?_
    refine (declare_runs hd₁ site _ _ _ _).discard.bind fun _ d₂ hd₂ hle₂ _ => ?_
    refine (attachDoc_runs hd₂ _ _).bind fun _ d₃ hd₃ hle₃ _ => ?_
    have hle := growth.trans hle₂ hle₃
    have hsite₃ := hsite.mono (growth.trans hle₁ hle).1
    refine (noteType_runs hd₃ symbol (getD_any_within ?_)).bind fun _ d₄ hd₄ hle₄ _ => ?_
    · cases v.type with
      | some t => simpa using typeExpr_within hsite₃ t
      | none => exact bind_infer?_within hsite₃ _ _
    · exact publish_runs hd₄ place name (hs₁.mono (growth.trans hle hle₄).1)
  next => exact Growth.runs_pure hd trivial

theorem function_runs (hd : d.Sound) (hsite : site.Within d.extent) (place : Placement)
    (f : FunctionTree) : growth.Runs (site.function place f) d Anything := by
  refine (bindMaybe_runs hd site _ _ _).bind fun symbol d₁ hd₁ hle₁ hs₁ => ?_
  refine (introduce_runs hd₁ site place _ hs₁ _ _).discard.bind fun _ d₂ hd₂ hle₂ _ => ?_
  exact callSignature_runs hd₂ (hsite.mono (growth.trans hle₁ hle₂).1) (hs₁.mono hle₂.1) _ _ _

/-! ## Classes and interfaces -/

theorem noteHeritage_runs (hd : d.Sound) (symbol : SymbolId) (declaration : Nat)
    (names : List NameRef) : growth.Runs (noteHeritage symbol declaration names) d Anything := by
  unfold noteHeritage
  split
  · exact note_runs hd rfl { hd.notes with }
  · exact Growth.runs_pure hd trivial

theorem classLike_runs (hd : d.Sound) (hsite : site.Within d.extent) (place : Placement)
    (c : ClassTree) : growth.Runs (site.classLike place c) d Anything := by
  refine (bindMaybe_runs hd site _ _ _).bind fun symbol d₁ hd₁ hle₁ hs₁ => ?_
  refine (introduce_runs hd₁ site place _ hs₁ _ _).bind fun declaration d₂ hd₂ hle₂ _ => ?_
  have hsite₂ := hsite.mono (growth.trans hle₁ hle₂).1
  refine (enter_runs hd₂ hsite₂ _).bind fun inner d₃ hd₃ hle₃ _ => ?_
  refine (noteHeritage_runs hd₃ symbol declaration _).bind fun _ d₄ hd₄ hle₄ _ => ?_
  have hs₄ : symbol.Within d₄.extent := hs₁.mono (growth.trans hle₂ (growth.trans hle₃ hle₄)).1
  have hclasses : ∀ base, ∀ x ∈ d₄.classes ++ [⟨symbol, base⟩], x.symbol.Within d₄.extent := by
    intro base x hx
    rcases List.mem_append.mp hx with hx | hx
    · exact hd₄.notes.classes x hx
    · rw [List.mem_singleton.mp hx]
      exact hs₄
  refine (note_runs hd₄ rfl { hd₄.notes with classes := hclasses _ }).bind fun _ d₅ hd₅ hle₅ _ => ?_
  refine (typeParameters_runs hd₅ _ _).bind fun _ d₆ hd₆ hle₆ _ => ?_
  refine Growth.runs_forM hd₆ fun m _ d' hd' hle' => ?_
  have hs : symbol.Within d'.extent := hs₄.mono (growth.trans hle₅ (growth.trans hle₆ hle')).1
  exact classMember_runs hd' (within_within hs) hs m

theorem interfaceLike_runs (hd : d.Sound) (hsite : site.Within d.extent) (place : Placement)
    (i : InterfaceTree) : growth.Runs (site.interfaceLike place i) d Anything := by
  refine (bindHere_runs hd site _ _ _).bind fun symbol d₁ hd₁ hle₁ hs₁ => ?_
  refine (introduce_runs hd₁ site place _ hs₁ _ _).bind fun declaration d₂ hd₂ hle₂ _ => ?_
  have hsite₂ := hsite.mono (growth.trans hle₁ hle₂).1
  refine (enter_runs hd₂ hsite₂ _).bind fun inner d₃ hd₃ hle₃ _ => ?_
  refine (noteHeritage_runs hd₃ symbol declaration _).bind fun _ d₄ hd₄ hle₄ _ => ?_
  have hs₄ : symbol.Within d₄.extent := hs₁.mono (growth.trans hle₂ (growth.trans hle₃ hle₄)).1
  refine (noteType_runs hd₄ symbol (t := .instanceOf symbol) hs₄).bind fun _ d₅ hd₅ hle₅ _ => ?_
  refine (typeParameters_runs hd₅ _ _).bind fun _ d₆ hd₆ hle₆ _ => ?_
  refine Growth.runs_forM hd₆ fun m _ d' hd' hle' => ?_
  have hs : symbol.Within d'.extent := hs₄.mono (growth.trans hle₅ (growth.trans hle₆ hle')).1
  exact interfaceMember_runs hd' (within_within hs) hs m

/-! ## Type aliases and enums -/

theorem typeAlias_runs (hd : d.Sound) (hsite : site.Within d.extent) (place : Placement)
    (a : AliasTree) : growth.Runs (site.typeAlias place a) d Anything := by
  refine (bindHere_runs hd site _ _ _).bind fun symbol d₁ hd₁ hle₁ hs₁ => ?_
  refine (introduce_runs hd₁ site place _ hs₁ _ _).discard.bind fun _ d₂ hd₂ hle₂ _ => ?_
  have hsite₂ := hsite.mono (growth.trans hle₁ hle₂).1
  refine (enter_runs hd₂ hsite₂ _).bind fun inner d₃ hd₃ _ hinner => ?_
  refine (typeParameters_runs hd₃ inner _).bind fun _ d₄ hd₄ hle₄ _ => ?_
  have htype := typeExpr_within (hinner.mono hle₄.1) a.type
  exact note_runs hd₄ rfl
    { hd₄.notes with typeAliases := Table.forall_values_insert hd₄.notes.typeAliases htype }

theorem enumMembers_runs (hd : d.Sound) (site : Site) (enum : SymbolId) (next : Option Binary64)
    (members : List EnumMemberTree) :
    growth.Runs (site.enumMembers enum next members) d fun ms d' => ∀ m ∈ ms, m.1.Within d'.extent := by
  induction members generalizing next d with
  | nil => exact Growth.runs_pure hd (by simp)
  | cons m rest ih =>
    unfold enumMembers
    split
    · exact ih hd next
    · refine (bindMember_runs hd enum _ _ _).bind fun symbol d₁ hd₁ _ hs₁ => ?_
      refine (declare_runs hd₁ site _ _ _ _).discard.bind fun _ d₂ hd₂ hle₂ _ => ?_
      refine (attachDoc_runs hd₂ _ _).bind fun _ d₃ hd₃ hle₃ _ => ?_
      refine (ih hd₃ _).bind fun ms d₄ hd₄ hle₄ hms => Growth.runs_pure hd₄ ?_
      have hs₄ : symbol.Within d₄.extent := hs₁.mono (growth.trans hle₂ (growth.trans hle₃ hle₄)).1
      simpa using ⟨hs₄, fun a b => hms (a, b)⟩

theorem enumLike_runs (hd : d.Sound) (site : Site) (place : Placement) (e : EnumTree) :
    growth.Runs (site.enumLike place e) d Anything := by
  refine (bindHere_runs hd site _ _ _).bind fun symbol d₁ hd₁ _ hs₁ => ?_
  refine (introduce_runs hd₁ site place _ hs₁ _ _).discard.bind fun _ d₂ hd₂ hle₂ _ => ?_
  refine (enumMembers_runs hd₂ site symbol _ _).bind fun members d₃ hd₃ hle₃ hmembers => ?_
  exact noteEnum_runs hd₃ (hs₁.mono (growth.trans hle₂ hle₃).1) hmembers

/-! ## Imports and exports -/

theorem importSpecifier_runs (hd : d.Sound) (site : Site) (container : Container) (source : String)
    (s : ImportSpecifier) : growth.Runs (site.importSpecifier container source s) d Anything := by
  refine (bindHere_runs hd site _ _ _).bind fun symbol d₁ hd₁ _ _ => ?_
  refine (declare_runs hd₁ site _ _ _ _).discard.bind fun _ d₂ hd₂ _ _ => ?_
  exact noteAlias_runs hd₂ symbol _

theorem exportAlias_runs (hd : d.Sound) (site : Site) (container : SymbolId) (name : String)
    (span : Span) (modifiers : ModifierFlags) (target : AliasTarget) :
    growth.Runs (site.exportAlias container name span modifiers target) d Anything := by
  refine (addSymbol_runs hd name _).bind fun symbol d₁ hd₁ _ hs₁ => ?_
  refine (declare_runs hd₁ site _ _ _ _).discard.bind fun _ d₂ hd₂ hle₂ _ => ?_
  refine (noteAlias_runs hd₂ symbol target).bind fun _ d₃ hd₃ hle₃ _ => ?_
  exact exportAs_runs hd₃ name (hs₁.mono (growth.trans hle₂ hle₃).1)

theorem exportVariable_runs (hd : d.Sound) (hsite : site.Within d.extent) (container : SymbolId)
    (span : Span) (value : Expr) :
    growth.Runs (do
      let symbol ← build (·.addSymbol defaultName SymbolFlags.variableBit)
      discard (site.declare symbol .variableDecl span Visibility.default.modifiers)
      attachDoc symbol (site.docAt span.start).summaryText
      noteType symbol ((site.infer? true value).getD .any)
      rebuild (·.exportAs container defaultName symbol)) d Anything := by
  refine (addSymbol_runs hd _ _).bind fun symbol d₁ hd₁ hle₁ hs₁ => ?_
  refine (declare_runs hd₁ site _ _ _ _).discard.bind fun _ d₂ hd₂ hle₂ _ => ?_
  refine (attachDoc_runs hd₂ _ _).bind fun _ d₃ hd₃ hle₃ _ => ?_
  have hle := growth.trans hle₂ hle₃
  have htype := infer?_within (hsite.mono (growth.trans hle₁ hle).1) true value
  refine (noteType_runs hd₃ symbol (getD_any_within htype)).bind fun _ d₄ hd₄ hle₄ _ => ?_
  exact exportAs_runs hd₄ _ (hs₁.mono (growth.trans hle hle₄).1)

theorem exportValue_runs (hd : d.Sound) (hsite : site.Within d.extent) (container : SymbolId)
    (span : Span) (value : Expr) :
    growth.Runs (site.exportValue container span value) d Anything := by
  unfold exportValue
  split
  · exact exportAlias_runs hd site _ _ _ _ _
  · exact exportVariable_runs hd hsite container span value

theorem exportAll_runs (hd : d.Sound) (site : Site) (container : SymbolId) (span : Span)
    (name : Option String) (source : String) :
    growth.Runs (site.exportAll container span name source) d Anything := by
  cases name with
  | some name => exact exportAlias_runs hd site _ _ _ _ _
  | none => exact note_runs hd rfl { hd.notes with }

theorem inModule_runs (hd : d.Sound) {container : Container} {f : SymbolId → Drafting Unit}
    (hf : ∀ id, growth.Runs (f id) d Anything) : growth.Runs (inModule container f) d Anything := by
  cases container with
  | symbol id => exact hf id
  | script file => exact Growth.runs_pure hd trivial

/-! ## Statements -/

-- A namespace holds statements, so the three kinds of syntax are gone through together.
mutual

theorem declared_runs {site : Site} {d : GraphDraft} (hd : d.Sound) (hsite : site.Within d.extent)
    (place : Placement) : ∀ x : Declared, growth.Runs (site.declared place x) d Anything
  | .variableGroup t => by
    rw [declared]
    exact Growth.runs_forM hd fun v _ d' hd' hle =>
      variableItem_runs hd' (hsite.mono hle.1) place t v
  | .functionLike f => by
    rw [declared]
    exact function_runs hd hsite place f
  | .classLike c => by
    rw [declared]
    exact classLike_runs hd hsite place c
  | .interfaceLike i => by
    rw [declared]
    exact interfaceLike_runs hd hsite place i
  | .typeAlias a => by
    rw [declared]
    exact typeAlias_runs hd hsite place a
  | .enumLike e => by
    rw [declared]
    exact enumLike_runs hd site place e
  | .namespaceLike name body => by
    rw [declared]
    refine (bindHere_runs hd site _ name _).bind fun symbol d₁ hd₁ hle₁ hs₁ => ?_
    refine (introduce_runs hd₁ site place _ hs₁ _ _).discard.bind fun _ d₂ hd₂ hle₂ _ => ?_
    match body with
    | some body =>
      have hsite₂ := hsite.mono (growth.trans hle₁ hle₂).1
      refine (enter_runs hd₂ hsite₂ _).bind fun inner d₃ hd₃ _ hinner => ?_
      exact statements_runs hd₃ hinner (.symbol symbol) body
    | none => exact Growth.runs_pure hd₂ trivial
  | .importEquals _ => by
    rw [declared]
    exact Growth.runs_pure hd trivial
  | .nameless => by
    rw [declared]
    exact Growth.runs_pure hd trivial

theorem statement_runs {site : Site} {d : GraphDraft} (hd : d.Sound) (hsite : site.Within d.extent)
    (container : Container) : ∀ x : Statement, growth.Runs (site.statement container x) d Anything
  | .declared span x => by
    rw [statement]
    exact declared_runs hd hsite _ x
  | .exported span x => by
    rw [statement]
    exact declared_runs hd hsite _ x
  | .exportNames specifiers source => by
    rw [statement]
    exact inModule_runs hd fun id => Growth.runs_forM hd fun s _ d' hd' _ =>
      exportAlias_runs hd' site _ _ _ _ _
  | .exportFunction span f => by
    rw [statement]
    exact function_runs hd hsite _ f
  | .exportClass span c => by
    rw [statement]
    exact classLike_runs hd hsite _ c
  | .exportInterface span i => by
    rw [statement]
    exact interfaceLike_runs hd hsite _ i
  | .exportValue span value => by
    rw [statement]
    exact inModule_runs hd fun id => exportValue_runs hd hsite id span value
  | .exportAll span name source => by
    rw [statement]
    exact inModule_runs hd fun id => exportAll_runs hd site id span name source
  | .imported specifiers source => by
    rw [statement]
    exact Growth.runs_forM hd fun s _ d' hd' _ => importSpecifier_runs hd' site container source s
  | .exportAssignment => by
    rw [statement]
    exact Growth.runs_pure hd trivial
  | .other _ => by
    rw [statement]
    exact Growth.runs_pure hd trivial

/-- **Statements keep drafts sound**, and the files as they are. -/
theorem statements_runs {site : Site} {d : GraphDraft} (hd : d.Sound)
    (hsite : site.Within d.extent) (container : Container) :
    ∀ xs : List Statement, growth.Runs (site.statements container xs) d Anything
  | [] => by
    rw [statements]
    exact Growth.runs_pure hd trivial
  | x :: xs => by
    rw [statements]
    refine (statement_runs hd hsite container x).bind fun _ d' hd' hle _ => ?_
    exact statements_runs hd' (hsite.mono hle.1) container xs

end

end Site

/-! ## Files -/

/-- A file for a source at a path: it is a module just if the source is. -/
structure SourceFile.Shows (f : SourceFile) (path : String) (tree : SourceTree) : Prop where
  path : f.path = path
  isModule : f.symbol.isSome = tree.isModule

namespace GraphDraft

variable {d : GraphDraft}

/-- A step that adds one file, for a source, at the end of the files. -/
structure Adds (d d' : GraphDraft) (path : String) (tree : SourceTree) : Prop where
  sound : d'.Sound
  layout : d'.builder.graph.layout = d.builder.graph.layout
  files : ∃ f, d'.builder.graph.files = d.builder.graph.files ++ [f] ∧ f.Shows path tree

theorem addFile_adds (hd : d.Sound) (file : Nat) (path : String) (tree : SourceTree) :
    d.Adds ((addFile file path tree).run d).2 path tree := by
  cases htree : tree.isModule with
  | true =>
    obtain ⟨hclosed, hle, hid⟩ := GraphBuilder.addModule_closed hd.builder path
    have hrun : ((addFile file path tree).run d).2 = { d with
        builder := (d.builder.addModule path).2
        modules := d.modules.insert path (d.builder.addModule path).1 } := by
      simp only [addFile, htree]
      rfl
    rw [hrun]
    have hnotes := hd.notes.mono hle
    exact ⟨⟨hclosed, { hnotes with modules := Table.forall_values_insert hnotes.modules hid }⟩,
      rfl, _, rfl, rfl, htree.symm⟩
  | false =>
    obtain ⟨hclosed, hle⟩ := GraphBuilder.addScript_closed hd.builder path
    have hrun : ((addFile file path tree).run d).2 =
        { d with builder := d.builder.addScript path } := by
      simp only [addFile, htree]
      rfl
    rw [hrun]
    exact ⟨⟨hclosed, { hd.notes.mono hle with }⟩, rfl, _, rfl, rfl, htree.symm⟩

/-- **A source adds its file**, and all its statements keep the draft sound. -/
theorem addSource_adds (hd : d.Sound) (file : Nat) (path text : String) (tree : SourceTree)
    (scoping : Scoping) :
    d.Adds ((addSource file path text tree scoping).run d).2 path tree := by
  obtain ⟨hsound, hlayout, f, hfiles, hshows⟩ := addFile_adds hd file path tree
  have hsite : ∀ (scope : Nat) (d' : GraphDraft), Site.Within {
      file, path, scoping
      lines := LineIndex.ofText text
      docs := tree.docs
      frames := [⟨scope, tree.statements.flatMap Statement.bound⟩]
      owner := none } d'.extent := by
    simp [Site.Within]
  have hrest := (freshScope_runs hsound).bind fun scope d' hd' _ _ =>
    Site.statements_runs hd' (hsite scope d') ((addFile file path tree).run d).1 tree.statements
  exact ⟨hrest.good, hrest.le.2.2.trans hlayout, f, hrest.le.2.1.trans hfiles, hshows⟩

end GraphDraft

end ApiDocs
