import ApiDocs.Proofs.Binding.DraftRules
import ApiDocs.Proofs.Binding.SelfContained
import Mathlib.Data.List.Induction

/-!
# Reading declaration by declaration

To read sources is to come to one declaration after the other, each in its container. What is read besides
declares no name but those of namespaces and of what is imported, and preserves what a rule says.

Which declarations there are, in which containers, and what is exported from what under which name, is seen from
the sources alone, but for the symbols that names have in the end.

## Main definitions

* `Container.declarations`: the declarations in statements, with what each is declared in.
* `Container.exports`: what statements export, but for members of enums.
* `GraphDraft.Comes`, `GraphDraft.ComesTo`: at which site, and behind which draft, a declaration is read.
* `GraphDraft.Reads`, `GraphDraft.ReadsFiles`: drafts lead to drafts by reading declarations.
* `GraphDraft.declarationsIn`, `GraphDraft.exportsIn`: the declarations of all sources, and what these export.

## Main results

* `GraphDraft.Reads.obeys`: to read declarations preserves the invariant of a rule.
* `GraphDraft.ofSources_reads`: the draft of sources is reached by reading their declarations.
-/

namespace ApiDocs

open TypeScript

/-- The site of the statements of a source. -/
def Site.outermost (file : Nat) (x : ParsedSource) (scope : Nat) : Site where
  file := file
  path := x.path
  scoping := x.scoping
  lines := LineIndex.ofText x.text
  docs := x.tree.docs
  frames := [⟨scope, x.tree.statements.flatMap Statement.bound⟩]
  owner := none

/-- Is the declaration other than a namespace? -/
def IsSingle : Declared → Prop
  | .namespaceLike .. => False
  | _ => True

namespace Container

-- Namespaces hold statements, and their symbols are looked up by their names.
mutual

/-- The declarations in a declaration. -/
def declared (names : Table (Container × String) SymbolId) (c : Container) : Declared → List (Container × Declared)
  | .namespaceLike name (some body) =>
    match names.get? (c, name) with
    | some s => declarations names (.symbol s) body
    | none => []
  | .namespaceLike _ none => []
  | .variableGroup t => [(c, .variableGroup t)]
  | .functionLike f => [(c, .functionLike f)]
  | .classLike x => [(c, .classLike x)]
  | .interfaceLike i => [(c, .interfaceLike i)]
  | .typeAlias a => [(c, .typeAlias a)]
  | .enumLike e => [(c, .enumLike e)]
  | .importEquals name => [(c, .importEquals name)]
  | .nameless => [(c, .nameless)]

/-- The declarations in a statement. -/
def stated (names : Table (Container × String) SymbolId) (c : Container) : Statement → List (Container × Declared)
  | .declared _ x => declared names c x
  | .exported _ x => declared names c x
  | .exportFunction _ f => [(c, .functionLike f)]
  | .exportClass _ x => [(c, .classLike x)]
  | .exportInterface _ i => [(c, .interfaceLike i)]
  | .exportNames .. => []
  | .exportValue .. => []
  | .exportAll .. => []
  | .imported .. => []
  | .exportAssignment => []
  | .other _ => []

/-- The declarations in statements, with what each is declared in. -/
def declarations (names : Table (Container × String) SymbolId) (c : Container) :
    List Statement → List (Container × Declared)
  | [] => []
  | x :: xs => stated names c x ++ declarations names c xs

end

/-- What is exported from the symbol of a name. -/
def exportedFrom (names : Table (Container × String) SymbolId) (c : Container) (name : String) (ns : List String) :
    List (SymbolId × String) :=
  (names.get? (c, name)).toList.flatMap fun s => ns.map fun n => (s, n)

/-- What a declaration exports that holds no statements, but for members of enums. -/
def singleExports (names : Table (Container × String) SymbolId) (c : Container) (v : Visibility) :
    Declared → List (SymbolId × String)
  | .variableGroup t => t.items.flatMap fun x => x.pattern.single.toList.flatMap (exportedAs c v)
  | .functionLike f => exportedAs c v (f.name.getD defaultName)
  | .classLike x => exportedAs c v (x.name.getD defaultName) ++
      exportedFrom names c (x.name.getD defaultName) (x.members.flatMap exportedOfClass)
  | .interfaceLike i => exportedAs c v i.name ++ exportedFrom names c i.name (i.members.flatMap exportedOfInterface)
  | .typeAlias a => exportedAs c v a.name
  | .enumLike e => exportedAs c v e.name
  | .namespaceLike name _ => exportedAs c v name
  | .importEquals _ => []
  | .nameless => []

mutual

/-- What a declaration exports, but for members of enums. -/
def declaredExports (names : Table (Container × String) SymbolId) (c : Container) (v : Visibility) :
    Declared → List (SymbolId × String)
  | .namespaceLike name (some body) => exportedAs c v name ++
    match names.get? (c, name) with
    | some s => exports names (.symbol s) body
    | none => []
  | .namespaceLike name none => singleExports names c v (.namespaceLike name none)
  | .variableGroup t => singleExports names c v (.variableGroup t)
  | .functionLike f => singleExports names c v (.functionLike f)
  | .classLike x => singleExports names c v (.classLike x)
  | .interfaceLike i => singleExports names c v (.interfaceLike i)
  | .typeAlias a => singleExports names c v (.typeAlias a)
  | .enumLike e => singleExports names c v (.enumLike e)
  | .importEquals name => singleExports names c v (.importEquals name)
  | .nameless => singleExports names c v .nameless

/-- What a statement exports, but for members of enums. -/
def statedExports (names : Table (Container × String) SymbolId) (c : Container) :
    Statement → List (SymbolId × String)
  | .declared _ x => declaredExports names c .hidden x
  | .exported _ x => declaredExports names c .exported x
  | .exportFunction _ f => singleExports names c .default (.functionLike f)
  | .exportClass _ x => singleExports names c .default (.classLike x)
  | .exportInterface _ i => singleExports names c .default (.interfaceLike i)
  | .exportNames specifiers _ => specifiers.flatMap fun x => exportedAs c .exported x.exported
  | .exportValue .. => exportedAs c .default defaultName
  | .exportAll _ name _ => name.toList.flatMap (exportedAs c .exported)
  | .imported .. => []
  | .exportAssignment => []
  | .other _ => []

/-- What statements export, but for members of enums. -/
def exports (names : Table (Container × String) SymbolId) (c : Container) : List Statement → List (SymbolId × String)
  | [] => []
  | x :: xs => statedExports names c x ++ exports names c xs

end

end Container

namespace GraphDraft

variable {d d' d'' : GraphDraft} {R : Rule} {xs ys : List (Container × Declared)} {es es' : List (SymbolId × String)}
  {names : Table (Container × String) SymbolId} {comes : Site → Placement → Declared → GraphDraft → Prop}

/-! ## Names -/

/-- The names that lead to symbols lead to the same ones in the table. -/
def NamedIn (d : GraphDraft) (names : Table (Container × String) SymbolId) : Prop :=
  ∀ {k s}, d.named.get? k = some s → names.get? k = some s

/-- Names keep their symbols. -/
def naming (names : Table (Container × String) SymbolId) : Rule where
  Inv d := ∀ {k s}, names.get? k = some s → d.named.get? k = some s
  Open _ _ := True
  open_mono _ _ := trivial
  alike {d d'} halike h := by
    intro k s hk
    rw [halike.named]
    exact h hk
  fresh _ _ _ h _ := ⟨h, trivial⟩
  named {d} container name flags x h _ hnone := by
    refine ⟨fun {k s} hk => ?_, trivial⟩
    have hkey : k ≠ (container, name) := by
      rintro rfl
      exact nomatch hnone.symm.trans (h hk)
    change (d.named.insert (container, name) d.builder.next).get? k = some s
    rw [Table.get?_insert_of_ne hkey]
    exact h hk
  again _ _ _ _ _ h _ _ _ := ⟨h, trivial⟩
  member _ _ _ _ _ h _ _ _ _ := ⟨h, trivial⟩
  memberAgain _ _ _ _ _ _ h _ _ _ _ _ := ⟨h, trivial⟩
  documented _ h _ := h
  exported _ _ h _ _ _ := h
  typed h _ _ := h
  aliased _ _ h _ := h
  signed _ h _ _ := h
  indexed _ h _ _ _ _ _ := h
  classed _ h _ := h
  linked _ h _ := h

theorem naming_enumerates (names : Table (Container × String) SymbolId) : (naming names).Enumerates := by
  refine Rule.enumerates_of_members (fun _ _ _ h _ _ _ _ _ => ⟨h, trivial⟩)
    (fun _ _ _ _ h _ _ _ _ _ _ => ⟨h, trivial⟩) fun {d s} members h _ => ?_
  have hnamed : (noteEnum s members d).2.named = d.named := by
    change (if _ then _ else _ : GraphDraft).named = _
    split <;> rfl
  intro k s' hk
  rw [hnamed]
  exact h hk

/-- The name of what is introduced leads to its symbol in the end. -/
theorem get?_of_introduced (hd : d.Inside) {place : Placement} {name shown : String} {flags : SymbolFlags} {s : SymbolId}
    (hbound : Names d place.container name flags s d') (hflags : flags.meets SymbolFlags.enumMemberBit = false)
    (site : Site) {kind : DeclarationKind} (hkind : kind ≠ .enumMember) (modifiers : ModifierFlags)
    {body : Nat → Drafting Unit}
    (hbody : ∀ T d₂ declaration, (naming T).Good d₂ → (naming T).There d₂ s → s ∈ d₂.named.values →
      (d₂.builder.flagsOf s).has flags → (naming T).growth.Runs (body declaration) d₂ Anything) :
    ((site.introduce place shown s kind modifiers >>= body) d').2.named.get? (place.container, name) = some s := by
  have hgood : (naming .empty).Good d := ⟨hd, fun hk => nomatch hk⟩
  have hintroduced := Rule.introduce_obeys hgood hbound site shown (fun _ _ => trivial) hkind hflags modifiers
  obtain ⟨b, x, -, hdeclared, -, hb⟩ := introduce_builds site place shown s kind modifiers d'
  have hle := (GraphBuilder.Enlarges.declare s x).trans hdeclared
  have hname : (site.introduce place shown s kind modifiers d').2.named.get? (place.container, name) = some s := by
    rw [hb]
    exact hbound.get?
  have hflags' : ((site.introduce place shown s kind modifiers d').2.builder.flagsOf s).has flags := by
    obtain ⟨hs, hflags⟩ := hbound.flags hd
    rw [hb]
    exact hle.flags hs hflags
  have hrun := hbody (site.introduce place shown s kind modifiers d').2.named _
    (site.introduce place shown s kind modifiers d').1 ⟨hintroduced.good.1, fun hk => hk⟩
    ⟨hintroduced.post.1, trivial⟩ (Table.mem_values_of_get? hname) hflags'
  exact hrun.good.2 hname

theorem classLike_get? (hd : d.Inside) (site : Site) (place : Placement) (c : ClassTree) :
    (site.classLike place c d).2.named.get? (place.container, c.name.getD defaultName) =
      some (site.bindMaybe place.container c.name SymbolFlags.classBit d).1 :=
  get?_of_introduced hd (bindMaybe_names site d place.container c.name SymbolFlags.classBit).post (by decide) site
    (show DeclarationKind.classDecl ≠ .enumMember by decide) _
    fun _ _ declaration hd₂ hs₂ _ _ => Rule.classBody_obeys hd₂ hs₂ site c (fun _ _ => trivial) declaration

theorem interfaceLike_get? (hd : d.Inside) (site : Site) (place : Placement) (i : InterfaceTree) :
    (site.interfaceLike place i d).2.named.get? (place.container, i.name) =
      some (site.bindHere place.container i.name SymbolFlags.interfaceBit d).1 :=
  get?_of_introduced hd (bindHere_names site d place.container i.name SymbolFlags.interfaceBit).post (by decide) site
    (show DeclarationKind.interfaceDecl ≠ .enumMember by decide) _
    fun _ _ declaration hd₂ hs₂ _ _ => Rule.interfaceBody_obeys hd₂ hs₂ site i (fun _ _ => trivial) declaration

theorem enumLike_get? (hd : d.Inside) (site : Site) (place : Placement) (e : EnumTree) :
    (site.enumLike place e d).2.named.get? (place.container, e.name) =
      some (site.bindHere place.container e.name SymbolFlags.enumBit d).1 :=
  get?_of_introduced hd (bindHere_names site d place.container e.name SymbolFlags.enumBit).post (by decide) site
    (show DeclarationKind.enumDecl ≠ .enumMember by decide) _
    fun T _ _ hd₂ hs₂ hnamed hflags => naming_enumerates T site _ e.members hd₂ hs₂ hnamed hflags fun _ _ _ _ => trivial

namespace Rule

/-- A rule admits the enum that has a name in a container. -/
structure Admits (R : Rule) (names : Table (Container × String) SymbolId) (c : Container) (e : EnumTree) : Prop where
  enumerates : R.Enumerates
  counts : ∀ s, names.get? (c, e.name) = some s → ∀ m ∈ e.members, ∀ n ∈ m.name, R.MayCount s n

/-- A rule may admit all enums. -/
theorem admits_of_enumerates (henum : R.Enumerates) (hcounts : ∀ s n, R.MayCount s n) (c : Container) (e : EnumTree) :
    R.Admits names c e :=
  ⟨henum, fun s _ _ _ n _ => hcounts s n⟩

/-- A declaration preserves the invariant of a rule that admits what it exports. -/
theorem declared_obeys (hd : R.Good d) (site : Site) (place : Placement) {x : Declared} (hx : IsSingle x)
    (hnames : (site.declared place x d).2.NamedIn names)
    (hmay : ∀ e ∈ place.container.singleExports names place.visibility x, R.May e.1 e.2)
    (henum : ∀ e, x = .enumLike e → R.Admits names place.container e) : R.growth.Runs (site.declared place x) d Anything := by
  have hfrom : ∀ {name : String} {ns : List String} {s : SymbolId}, names.get? (place.container, name) = some s →
      (∀ e ∈ place.container.exportedFrom names name ns, R.May e.1 e.2) → ∀ n ∈ ns, R.May s n := by
    intro name ns s hs h n hn
    refine h (s, n) ?_
    simp [Container.exportedFrom, hs, hn]
  cases x with
  | variableGroup t =>
    rw [Site.declared]
    rw [Container.singleExports] at hmay
    refine Growth.runs_forM (G := R.growth) hd fun v hv d' hd' _ => variableItem_obeys hd' site place t v ?_
    intro n hn e he
    exact hmay e (List.mem_flatMap.mpr ⟨v, hv, List.mem_flatMap.mpr ⟨n, Option.mem_toList.mpr hn, he⟩⟩)
  | functionLike f =>
    rw [Site.declared]
    rw [Container.singleExports] at hmay
    exact function_obeys hd site place f hmay
  | classLike c =>
    rw [Site.declared] at hnames ⊢
    rw [Container.singleExports, List.forall_mem_append] at hmay
    exact classLike_obeys hd site place c hmay.1 (hfrom (hnames (classLike_get? hd.1 site place c)) hmay.2)
  | interfaceLike i =>
    rw [Site.declared] at hnames ⊢
    rw [Container.singleExports, List.forall_mem_append] at hmay
    exact interfaceLike_obeys hd site place i hmay.1 (hfrom (hnames (interfaceLike_get? hd.1 site place i)) hmay.2)
  | typeAlias a =>
    rw [Site.declared]
    rw [Container.singleExports] at hmay
    exact typeAlias_obeys hd site place a hmay
  | enumLike e =>
    rw [Site.declared] at hnames ⊢
    rw [Container.singleExports] at hmay
    exact enumLike_obeys (henum e rfl).enumerates hd site place e hmay
      ((henum e rfl).counts _ (hnames (enumLike_get? hd.1 site place e)))
  | namespaceLike name body => exact hx.elim
  | importEquals name =>
    rw [Site.declared]
    exact Growth.runs_pure hd trivial
  | nameless =>
    rw [Site.declared]
    exact Growth.runs_pure hd trivial

/-- Files preserve the invariant of a rule. -/
structure AddsFiles (R : Rule) : Prop where
  script : ∀ {d} path, R.Good d → R.Inv { d with builder := d.builder.addScript path }
  newModule : ∀ {d} path, R.Good d → R.Inv { d with
    builder := (d.builder.addModule path).2
    modules := d.modules.insert path d.builder.next }

theorem addFile_obeys (hfiles : R.AddsFiles) (hd : R.Good d) (file : Nat) (path : String) (tree : SourceTree) :
    R.growth.Runs (addFile file path tree) d Anything := by
  unfold addFile
  split
  · have hle : d.builder.Enlarges (d.builder.addModule path).2 := .addModule path
    have hinside := hd.1.rebuilt hle (hd.1.builder.addModule path)
    exact ⟨⟨{ hinside with }, hfiles.newModule path hd⟩, hle, trivial⟩
  · have hle : d.builder.Enlarges (d.builder.addScript path) := .addScript path
    exact ⟨⟨hd.1.rebuilt hle hd.1.builder, hfiles.script path hd⟩, hle, trivial⟩

end Rule

/-! ## Steps -/

/-- Whatever a rule says is preserved if it admits what is exported, also where enums are another matter. -/
def Passes (es : List (SymbolId × String)) (d d' : GraphDraft) : Prop :=
  ∀ R : Rule, (∀ e ∈ es, R.May e.1 e.2) → R.Good d → R.Good d' ∧ d.builder.Enlarges d'.builder

theorem Passes.of_runs {α : Type} {x : Drafting α}
    (h : ∀ R : Rule, (∀ e ∈ es, R.May e.1 e.2) → R.Good d → R.growth.Runs x d Anything) : Passes es d (x d).2 :=
  fun R hmay hd => ⟨(h R hmay hd).good, (h R hmay hd).le⟩

theorem Passes.trans (h : Passes es d d') (h' : Passes es' d' d'') : Passes (es ++ es') d d'' := by
  intro R hmay hd
  obtain ⟨hfirst, hrest⟩ := List.forall_mem_append.mp hmay
  obtain ⟨hd', hle⟩ := h R hfirst hd
  obtain ⟨hd'', hle'⟩ := h' R hrest hd'
  exact ⟨hd'', hle.trans hle'⟩

theorem Passes.keeps_names (h : Passes es d d') (hd : d.Inside) :
    d'.Inside ∧ ∀ {k s}, d.named.get? k = some s → d'.named.get? k = some s :=
  (h (naming d.named) (fun _ _ => trivial) ⟨hd, fun hk => hk⟩).1

theorem Passes.inside (h : Passes es d d') (hd : d.Inside) : d'.Inside := (h.keeps_names hd).1

/-- Declarations are read one after the other, each at a site and behind a draft, and export something. -/
inductive Reads (names : Table (Container × String) SymbolId)
    (comes : Site → Placement → Declared → GraphDraft → Prop) :
    List (Container × Declared) → List (SymbolId × String) → GraphDraft → GraphDraft → Prop where
  | pass {es : List (SymbolId × String)} {d d' : GraphDraft} : Passes es d d' → Reads names comes [] es d d'
  | declared (site : Site) (place : Placement) {x : Declared} (d : GraphDraft) : IsSingle x →
    comes site place x d → Reads names comes [(place.container, x)] (place.container.singleExports names place.visibility x) d
      (site.declared place x d).2
  | append {xs ys : List (Container × Declared)} {es es' : List (SymbolId × String)} {d d' d'' : GraphDraft} :
    Reads names comes xs es d d' → Reads names comes ys es' d' d'' → Reads names comes (xs ++ ys) (es ++ es') d d''

namespace Reads

theorem before (h : Passes es d d') (h' : Reads names comes xs es' d' d'') : Reads names comes xs (es ++ es') d d'' :=
  .append (.pass h) h'

/-- What is read besides declares nothing. -/
theorem of_runs {α : Type} {x : Drafting α}
    (h : ∀ R : Rule, (∀ e ∈ es, R.May e.1 e.2) → R.Good d → R.growth.Runs x d Anything) :
    Reads names comes [] es d (x d).2 :=
  .pass (.of_runs h)

/-- To read declarations keeps names, and these and tables lead to symbols that are there. -/
theorem keeps_names (h : Reads names comes xs es d d') (hd : d.Inside) :
    d'.Inside ∧ ∀ {k s}, d.named.get? k = some s → d'.named.get? k = some s := by
  induction h with
  | pass h => exact h.keeps_names hd
  | @declared site place x d hx _ =>
    have hruns := Rule.declared_obeys (R := naming d.named) ⟨hd, fun hk => hk⟩ site place hx (fun hk => hk)
      (fun _ _ => trivial) fun e _ => Rule.admits_of_enumerates (naming_enumerates _) (fun _ _ => trivial) _ e
    exact hruns.good
  | append _ _ ih ih' =>
    obtain ⟨hd', hkept⟩ := ih hd
    obtain ⟨hd'', hkept'⟩ := ih' hd'
    exact ⟨hd'', fun hk => hkept' (hkept hk)⟩

theorem inside (h : Reads names comes xs es d d') (hd : d.Inside) : d'.Inside := (h.keeps_names hd).1

theorem namedIn (h : Reads names comes xs es d d') (hd : d.Inside) (hnames : d'.NamedIn names) : d.NamedIn names :=
  fun hk => hnames ((h.keeps_names hd).2 hk)

end Reads

/-- **To read declarations preserves the invariant of a rule** that admits what they export. -/
theorem Reads.obeys (h : Reads names comes xs es d d') (hnames : d'.NamedIn names) (hmay : ∀ e ∈ es, R.May e.1 e.2)
    (henum : ∀ c e, (c, .enumLike e) ∈ xs → R.Admits names c e) (hd : R.Good d) :
    R.Good d' ∧ d.builder.Enlarges d'.builder := by
  induction h with
  | pass h => exact h R hmay hd
  | declared site place d hx _ =>
    have hruns := Rule.declared_obeys hd site place hx hnames hmay fun e he => henum place.container e (by simp [he])
    exact ⟨hruns.good, hruns.le⟩
  | @append xs ys es es' d d' d'' h h' ih ih' =>
    obtain ⟨hfirst, hrest⟩ := List.forall_mem_append.mp hmay
    have hnames' : d'.NamedIn names := h'.namedIn (h.inside hd.1) hnames
    obtain ⟨hd', hle⟩ := ih hnames' hfirst (fun c e he => henum c e (List.mem_append_left _ he)) hd
    obtain ⟨hd'', hle'⟩ := ih' hnames hrest (fun c e he => henum c e (List.mem_append_right _ he)) hd'
    exact ⟨hd'', hle.trans hle'⟩

/-! ## Statements -/

/-- Find or make the symbol of a namespace. -/
def bindNamespace (site : Site) (place : Placement) (name : String) : Drafting SymbolId := do
  let symbol ← site.bindHere place.container name SymbolFlags.moduleBit
  discard (site.introduce place name symbol .moduleDecl .none)
  return symbol

theorem bindNamespace_passes (d : GraphDraft) (site : Site) (place : Placement) (name : String) :
    Passes (exportedAs place.container place.visibility name) d (bindNamespace site place name d).2 ∧
      (bindNamespace site place name d).2.named.get? (place.container, name) =
        some (bindNamespace site place name d).1 := by
  have hnames := (bindHere_names site d place.container name SymbolFlags.moduleBit).post
  refine ⟨fun R hmay hd => ?_, ?_⟩
  · have hintroduced := Rule.introduce_obeys hd hnames site _ hmay
      (show DeclarationKind.moduleDecl ≠ .enumMember by decide) (by decide) .none
    exact ⟨hintroduced.good, hintroduced.le⟩
  · obtain ⟨b, -, -, -, -, hb⟩ := introduce_builds site place name
      (site.bindHere place.container name SymbolFlags.moduleBit d).1 .moduleDecl .none
      (site.bindHere place.container name SymbolFlags.moduleBit d).2
    exact (congrArg (fun d' => d'.named.get? (place.container, name)) hb).trans hnames.get?

/-- What a statement declares, how that is exported, and the stretch of the statement. -/
def heldBy : Statement → Option (Visibility × Span × Declared)
  | .declared span x => some (.hidden, span, x)
  | .exported span x => some (.exported, span, x)
  | .exportFunction span f => some (.default, span, .functionLike f)
  | .exportClass span c => some (.default, span, .classLike c)
  | .exportInterface span i => some (.default, span, .interfaceLike i)
  | _ => none

/-- **To read statements comes to a declaration**: to the declaration of one of the statements, behind the draft of
those before, or to one in a namespace, inside the scope of that. -/
inductive Comes : Site → Container → List Statement → GraphDraft → Site → Placement → Declared → GraphDraft → Prop where
  | here {site : Site} {c : Container} {st : Statement} {v : Visibility} {span : Span} {x : Declared}
    (rest : List Statement) (d : GraphDraft) : heldBy st = some (v, span, x) → IsSingle x →
    Comes site c (st :: rest) d site ⟨c, v, span⟩ x d
  | inside {site inner : Site} {c : Container} {st : Statement} {v : Visibility} {span : Span} {name : String}
    {body : List Statement} {s : SymbolId} {d d₁ d₂ before : GraphDraft} {found : Site} {place : Placement}
    {x : Declared} (rest : List Statement) : heldBy st = some (v, span, .namespaceLike name (some body)) →
    bindNamespace site ⟨c, v, span⟩ name d = (s, d₁) → site.enter (body.flatMap Statement.bound) d₁ = (inner, d₂) →
    Comes inner (.symbol s) body d₂ found place x before →
    Comes site c (st :: rest) d found place x before
  | later {site : Site} {c : Container} {rest : List Statement} {d before : GraphDraft} {found : Site}
    {place : Placement} {x : Declared} (st : Statement) :
    Comes site c rest (site.statement c st d).2 found place x before →
    Comes site c (st :: rest) d found place x before

/-- What the first statement comes to. -/
theorem Comes.first {site found : Site} {c : Container} {st : Statement} {place : Placement} {x : Declared}
    {before : GraphDraft} (h : Comes site c [st] d found place x before) (rest : List Statement) :
    Comes site c (st :: rest) d found place x before := by
  cases h with
  | here _ _ hst hx => exact .here rest d hst hx
  | inside _ hst hbound henter h => exact .inside rest hst hbound henter h
  | later _ h => cases h

-- A namespace holds statements, so the three kinds of syntax are gone through together.
mutual

theorem declared_reads {names : Table (Container × String) SymbolId}
    {comes : Site → Placement → Declared → GraphDraft → Prop} {site : Site} {d : GraphDraft} {st : Statement}
    (hd : d.Inside) (place : Placement)
    (hcomes : ∀ found place' x before, Comes site place.container [st] d found place' x before →
      comes found place' x before) :
    ∀ x : Declared, heldBy st = some (place.visibility, place.span, x) → (site.declared place x d).2.NamedIn names →
      Reads names comes (place.container.declared names x) (place.container.declaredExports names place.visibility x) d
        (site.declared place x d).2
  | .namespaceLike name (some body), hst, hnames => by
    obtain ⟨hpass, hget⟩ := bindNamespace_passes d site place name
    have hrun : (site.declared place (.namespaceLike name (some body)) d).2 =
        ((do
          let inner ← site.enter (body.flatMap Statement.bound)
          inner.statements (.symbol (bindNamespace site place name d).1) body : Drafting Unit)
        (bindNamespace site place name d).2).2 := by
      rw [Site.declared]
      rfl
    have henter : Passes [] (bindNamespace site place name d).2 (site.enter (body.flatMap Statement.bound)
        (bindNamespace site place name d).2).2 := .of_runs fun R _ hd' => Rule.enter_obeys hd' site _
    have hpassed := hpass.trans henter
    rw [List.append_nil] at hpassed
    rw [hrun] at hnames ⊢
    have hbody := statements_read (hpassed.inside hd) body
      (fun found place' x before h => hcomes found place' x before (.inside [] hst rfl rfl h)) hnames
    have hname : names.get? (place.container, name) = some (bindNamespace site place name d).1 :=
      (hbody.before henter).namedIn (hpass.inside hd) hnames hget
    rw [Container.declared, Container.declaredExports, hname]
    exact hbody.before hpassed
  | .namespaceLike name none, _, _ => by
    rw [Site.declared, Container.declared, Container.declaredExports, Container.singleExports]
    exact .pass (bindNamespace_passes d site place name).1
  | .variableGroup t, hst, _ => by
    rw [Container.declared, Container.declaredExports]
    exact .declared site place d trivial (hcomes _ _ _ _ (.here [] d hst trivial))
  | .functionLike f, hst, _ => by
    rw [Container.declared, Container.declaredExports]
    exact .declared site place d trivial (hcomes _ _ _ _ (.here [] d hst trivial))
  | .classLike c, hst, _ => by
    rw [Container.declared, Container.declaredExports]
    exact .declared site place d trivial (hcomes _ _ _ _ (.here [] d hst trivial))
  | .interfaceLike i, hst, _ => by
    rw [Container.declared, Container.declaredExports]
    exact .declared site place d trivial (hcomes _ _ _ _ (.here [] d hst trivial))
  | .typeAlias a, hst, _ => by
    rw [Container.declared, Container.declaredExports]
    exact .declared site place d trivial (hcomes _ _ _ _ (.here [] d hst trivial))
  | .enumLike e, hst, _ => by
    rw [Container.declared, Container.declaredExports]
    exact .declared site place d trivial (hcomes _ _ _ _ (.here [] d hst trivial))
  | .importEquals name, hst, _ => by
    rw [Container.declared, Container.declaredExports]
    exact .declared site place d trivial (hcomes _ _ _ _ (.here [] d hst trivial))
  | .nameless, hst, _ => by
    rw [Container.declared, Container.declaredExports]
    exact .declared site place d trivial (hcomes _ _ _ _ (.here [] d hst trivial))

theorem statement_reads {names : Table (Container × String) SymbolId}
    {comes : Site → Placement → Declared → GraphDraft → Prop} {site : Site} {d : GraphDraft} (hd : d.Inside)
    {container : Container} : ∀ x : Statement,
      (∀ found place y before, Comes site container [x] d found place y before → comes found place y before) →
      (site.statement container x d).2.NamedIn names →
      Reads names comes (container.stated names x) (container.statedExports names x) d (site.statement container x d).2
  | .declared span x, hcomes, hnames => by
    rw [Site.statement] at hnames ⊢
    rw [Container.stated, Container.statedExports]
    exact declared_reads hd ⟨container, .hidden, span⟩ hcomes x rfl hnames
  | .exported span x, hcomes, hnames => by
    rw [Site.statement] at hnames ⊢
    rw [Container.stated, Container.statedExports]
    exact declared_reads hd ⟨container, .exported, span⟩ hcomes x rfl hnames
  | .exportFunction span f, hcomes, _ => by
    rw [Site.statement, Container.stated, Container.statedExports, ← Site.declared]
    exact .declared site ⟨container, .default, span⟩ d trivial (hcomes _ _ _ _ (.here [] d rfl trivial))
  | .exportClass span c, hcomes, _ => by
    rw [Site.statement, Container.stated, Container.statedExports, ← Site.declared]
    exact .declared site ⟨container, .default, span⟩ d trivial (hcomes _ _ _ _ (.here [] d rfl trivial))
  | .exportInterface span i, hcomes, _ => by
    rw [Site.statement, Container.stated, Container.statedExports, ← Site.declared]
    exact .declared site ⟨container, .default, span⟩ d trivial (hcomes _ _ _ _ (.here [] d rfl trivial))
  | .exportNames specifiers source, _, _ => by
    rw [Site.statement, Container.stated, Container.statedExports]
    refine .of_runs fun R hmay hd' => Rule.inModule_obeys hd' fun c hc => ?_
    refine Growth.runs_forM (G := R.growth) hd' fun x hx d'' hd'' _ => Rule.exportAlias_obeys hd'' site ?_ _ _ _
    exact hmay (c, x.exported) (List.mem_flatMap.mpr ⟨x, hx, by simp [exportedAs, hc]⟩)
  | .exportValue span value, _, _ => by
    rw [Site.statement, Container.stated, Container.statedExports]
    refine .of_runs fun R hmay hd' => Rule.inModule_obeys hd' fun c hc => Rule.exportValue_obeys hd' site ?_ span value
    exact hmay (c, defaultName) (by simp [exportedAs, hc])
  | .exportAll span name source, _, _ => by
    rw [Site.statement, Container.stated, Container.statedExports]
    refine .of_runs fun R hmay hd' => Rule.inModule_obeys hd' fun c hc => Rule.exportAll_obeys hd' site span ?_ source
    exact fun n hn => hmay (c, n) (List.mem_flatMap.mpr ⟨n, Option.mem_toList.mpr hn, by simp [exportedAs, hc]⟩)
  | .imported specifiers source, _, _ => by
    rw [Site.statement, Container.stated, Container.statedExports]
    exact .of_runs fun R _ hd' => Growth.runs_forM (G := R.growth) hd' fun x _ d'' hd'' _ =>
      Rule.importSpecifier_obeys hd'' site container source x
  | .exportAssignment, _, _ => by
    rw [Site.statement, Container.stated, Container.statedExports]
    exact .of_runs fun R _ hd' => Growth.runs_pure hd' trivial
  | .other _, _, _ => by
    rw [Site.statement, Container.stated, Container.statedExports]
    exact .of_runs fun R _ hd' => Growth.runs_pure hd' trivial

/-- **To read statements is to read the declarations in them.** -/
theorem statements_read {names : Table (Container × String) SymbolId}
    {comes : Site → Placement → Declared → GraphDraft → Prop} {site : Site} {d : GraphDraft} (hd : d.Inside)
    {container : Container} : ∀ xs : List Statement,
      (∀ found place y before, Comes site container xs d found place y before → comes found place y before) →
      (site.statements container xs d).2.NamedIn names →
      Reads names comes (container.declarations names xs) (container.exports names xs) d
        (site.statements container xs d).2
  | [], _, _ => by
    rw [Site.statements, Container.declarations, Container.exports]
    exact .of_runs fun R _ hd' => Growth.runs_pure hd' trivial
  | x :: xs, hcomes, hnames => by
    have hrun : (site.statements container (x :: xs) d).2 =
        (site.statements container xs (site.statement container x d).2).2 := by
      rw [Site.statements]
      rfl
    rw [hrun] at hnames ⊢
    have hfirst : ∀ found place y before, Comes site container [x] d found place y before →
        comes found place y before := fun found place y before h => hcomes found place y before (h.first xs)
    have hinside : (site.statement container x d).2.Inside := (statement_reads hd x hfirst fun hk => hk).inside hd
    have hrest := statements_read hinside xs (fun found place y before h => hcomes found place y before (.later x h))
      hnames
    rw [Container.declarations, Container.exports]
    exact .append (statement_reads hd x hfirst (hrest.namedIn hinside hnames)) hrest

end

/-! ## Sources -/

/-- What the statements of a file are in, given the files of a graph: the first of these is the library. -/
def containerOf (files : List SourceFile) (file : Nat) : Container :=
  match (files[file + 1]?).bind (·.symbol) with
  | some s => .symbol s
  | none => .script file

/-- The declarations of sources, with what each is declared in. -/
def declarationsIn (files : List SourceFile) (names : Table (Container × String) SymbolId)
    (sources : List ParsedSource) : List (Container × Declared) :=
  sources.zipIdx.flatMap fun (x, file) => (containerOf files file).declarations names x.tree.statements

/-- What sources export, but for members of enums. -/
def exportsIn (files : List SourceFile) (names : Table (Container × String) SymbolId)
    (sources : List ParsedSource) : List (SymbolId × String) :=
  sources.zipIdx.flatMap fun (x, file) => (containerOf files file).exports names x.tree.statements

/-- Files are read one after the other. -/
inductive ReadsFiles (names : Table (Container × String) SymbolId)
    (comes : Site → Placement → Declared → GraphDraft → Prop) :
    List (Container × Declared) → List (SymbolId × String) → GraphDraft → GraphDraft → Prop where
  | refl (d : GraphDraft) : ReadsFiles names comes [] [] d d
  | file {xs ys : List (Container × Declared)} {es es' : List (SymbolId × String)} {d d' d'' : GraphDraft} (file : Nat)
    (path : String) (tree : SourceTree) : ReadsFiles names comes xs es d d' →
    Reads names comes ys es' (addFile file path tree d').2 d'' → ReadsFiles names comes (xs ++ ys) (es ++ es') d d''

/-- To add a file is no matter of names and enums. -/
theorem addFile_alike (file : Nat) (path : String) (tree : SourceTree) (d : GraphDraft) :
    (addFile file path tree d).2.named = d.named ∧ (addFile file path tree d).2.enums = d.enums := by
  unfold addFile
  split <;> exact ⟨rfl, rfl⟩

theorem inside_of_addFile (hd : d.Inside) (file : Nat) (path : String) (tree : SourceTree) :
    (addFile file path tree d).2.Inside :=
  (Rule.addFile_obeys (R := naming .empty) ⟨fun _ h => h.2, fun _ h => h.2⟩ ⟨hd, fun hk => nomatch hk⟩ file path
    tree).good.1

theorem ReadsFiles.inside (h : ReadsFiles names comes xs es d d') (hd : d.Inside) : d'.Inside := by
  induction h with
  | refl d => exact hd
  | file file path tree _ hreads ih => exact hreads.inside (inside_of_addFile (ih hd) file path tree)

/-- The names before a source are among those behind it. -/
theorem Reads.namedIn_addFile {file : Nat} {path : String} {tree : SourceTree}
    (h : Reads names comes ys es' (addFile file path tree d).2 d') (hd : d.Inside) (hnames : d'.NamedIn names) :
    d.NamedIn names := by
  intro k s hk
  rw [← (addFile_alike file path tree d).1] at hk
  exact h.namedIn (inside_of_addFile hd file path tree) hnames hk

/-- To read files preserves the invariant of a rule that admits what they export. -/
theorem ReadsFiles.obeys (h : ReadsFiles names comes xs es d d') (hnames : d'.NamedIn names)
    (hmay : ∀ e ∈ es, R.May e.1 e.2) (henum : ∀ c e, (c, .enumLike e) ∈ xs → R.Admits names c e)
    (hfiles : R.AddsFiles) (hd : R.Good d) : R.Good d' ∧ d.builder.Enlarges d'.builder := by
  induction h with
  | refl d => exact ⟨hd, .refl _⟩
  | @file xs ys es es' d d' d'' file path tree h hreads ih =>
    obtain ⟨hfirst, hrest⟩ := List.forall_mem_append.mp hmay
    have hnames' : d'.NamedIn names := hreads.namedIn_addFile (h.inside hd.1) hnames
    obtain ⟨hd', hle⟩ := ih hnames' hfirst (fun c e he => henum c e (List.mem_append_left _ he)) hd
    have hadded := Rule.addFile_obeys hfiles hd' file path tree
    obtain ⟨hd'', hle'⟩ := hreads.obeys hnames hrest (fun c e he => henum c e (List.mem_append_right _ he)) hadded.good
    exact ⟨hd'', hle.trans (R.growth.trans hadded.le hle')⟩

/-- Only files add files. -/
def filing (files : List SourceFile) : Rule where
  Inv d := d.builder.graph.files = files
  Open _ _ := True
  open_mono _ _ := trivial
  alike halike h := by
    rw [halike.builder]
    exact h
  fresh _ _ _ h _ := ⟨h, trivial⟩
  named _ _ _ _ h _ _ := ⟨h, trivial⟩
  again _ _ _ _ _ h _ _ _ := ⟨h, trivial⟩
  member _ _ _ isStatic _ h _ _ _ _ := by
    cases isStatic <;> exact ⟨h, trivial⟩
  memberAgain _ _ _ _ _ _ h _ _ _ _ _ := ⟨h, trivial⟩
  documented _ h _ := h
  exported _ _ h _ _ _ := h
  typed h _ _ := h
  aliased _ _ h _ := h
  signed _ h _ _ := h
  indexed _ h _ _ _ _ _ := h
  classed _ h _ := h
  linked _ h _ := h

theorem filing_enumerates (files : List SourceFile) : (filing files).Enumerates := by
  refine Rule.enumerates_of_members (fun _ _ _ h _ _ _ _ _ => ⟨h, trivial⟩)
    (fun _ _ _ _ h _ _ _ _ _ _ => ⟨h, trivial⟩) fun {d s} members h _ => ?_
  have hbuilder : (noteEnum s members d).2.builder = d.builder := by
    change (if _ then _ else _ : GraphDraft).builder = _
    split <;> rfl
  change (noteEnum s members d).2.builder.graph.files = _
  rw [hbuilder]
  exact h

/-- To read declarations adds no files. -/
theorem Reads.files_eq (h : Reads names comes xs es d d') (hnames : d'.NamedIn names) (hd : d.Inside) :
    d'.builder.graph.files = d.builder.graph.files :=
  (h.obeys (R := filing d.builder.graph.files) hnames (fun _ _ => trivial)
    (fun c e _ => Rule.admits_of_enumerates (filing_enumerates _) (fun _ _ => trivial) c e) ⟨hd, rfl⟩).1.2

/-- One more source. -/
theorem ofSources_append (sources : List ParsedSource) (x : ParsedSource) :
    ofSources (sources ++ [x]) =
      (addSource sources.length x.path x.text x.tree x.scoping (ofSources sources)).2 := by
  rw [ofSources, List.zipIdx_append, List.foldl_append]
  simp only [List.zipIdx_singleton, Nat.zero_add, List.foldl_cons, List.foldl_nil]
  rfl

/-- The file of a source is in its place, and names are as they were. -/
theorem addFile_places (d : GraphDraft) {file : Nat} (path : String) (tree : SourceTree)
    (hfile : d.builder.graph.files.length = file + 1) :
    (addFile file path tree d).2.named = d.named ∧ ∃ x : SourceFile,
      (addFile file path tree d).2.builder.graph.files = d.builder.graph.files ++ [x] ∧
        containerOf (d.builder.graph.files ++ [x]) file = (addFile file path tree d).1 := by
  unfold addFile
  split
  · exact ⟨rfl, ⟨path, some d.builder.next⟩, rfl, by simp [containerOf, ← hfile]; rfl⟩
  · exact ⟨rfl, { path }, rfl, by simp [containerOf, ← hfile]; rfl⟩

theorem containerOf_of_prefix {files files' : List SourceFile} (h : files <+: files') {file : Nat}
    (hfile : file + 1 < files.length) : containerOf files' file = containerOf files file := by
  obtain ⟨rest, rfl⟩ := h
  rw [containerOf, containerOf, List.getElem?_append_left hfile]

/-- **To read sources comes to a declaration** among the statements of one of them, at a site in it and behind a
draft to which the sources before have led. -/
inductive ComesTo (sources : List ParsedSource) : Site → Placement → Declared → GraphDraft → Prop where
  | source {earlier later : List ParsedSource} {source : ParsedSource} {c : Container} {d₁ d₂ before : GraphDraft}
    {scope : Nat} {found : Site} {place : Placement} {x : Declared} : sources = earlier ++ source :: later →
    addFile earlier.length source.path source.tree (ofSources earlier) = (c, d₁) → freshScope d₁ = (scope, d₂) →
    Comes (.outermost earlier.length source scope) c source.tree.statements d₂ found place x before →
    ComesTo sources found place x before

theorem ComesTo.append {sources : List ParsedSource} {site : Site} {place : Placement} {x : Declared}
    {before : GraphDraft} (h : ComesTo sources site place x before) (more : List ParsedSource) :
    ComesTo (sources ++ more) site place x before := by
  obtain ⟨rfl, hfile, hscope, h⟩ := h
  exact .source (by rw [List.append_assoc, List.cons_append]) hfile hscope h

/-- **The draft of sources is reached by reading their declarations**, each source in its file. -/
theorem ofSources_reads (sources : List ParsedSource) {files : List SourceFile}
    (hfiles : (ofSources sources).builder.graph.files <+: files) (hnames : (ofSources sources).NamedIn names)
    (hcomes : ∀ site place x before, ComesTo sources site place x before → comes site place x before) :
    ReadsFiles names comes (declarationsIn files names sources) (exportsIn files names sources) .start
      (ofSources sources) := by
  induction sources using List.reverseRecOn with
  | nil => exact .refl _
  | append_singleton sources x ih =>
    rw [ofSources_append] at hfiles hnames ⊢
    obtain ⟨hsound, -, rest, hrest, hshows⟩ := ofSources_sound sources
    have hd := hsound.inside
    have hfile : (ofSources sources).builder.graph.files.length = sources.length + 1 := by
      rw [hrest, List.length_cons, hshows.length_eq]
    have hadded := inside_of_addFile hd sources.length x.path x.tree
    have hcome : ∀ found place y before, Comes (.outermost sources.length x
        (freshScope (addFile sources.length x.path x.tree (ofSources sources)).2).1)
          (addFile sources.length x.path x.tree (ofSources sources)).1 x.tree.statements
          (freshScope (addFile sources.length x.path x.tree (ofSources sources)).2).2 found place y before →
        comes found place y before :=
      fun found place y before h => hcomes found place y before (.source rfl rfl rfl h)
    generalize ofSources sources = d at *
    let site : Site := .outermost sources.length x (freshScope (addFile sources.length x.path x.tree d).2).1
    have hrun : (addSource sources.length x.path x.text x.tree x.scoping d).2 =
        (site.statements (addFile sources.length x.path x.tree d).1 x.tree.statements
          (freshScope (addFile sources.length x.path x.tree d).2).2).2 := rfl
    have hscope : Passes [] (addFile sources.length x.path x.tree d).2
        (freshScope (addFile sources.length x.path x.tree d).2).2 :=
      .of_runs fun R _ hd' => Rule.freshScope_obeys hd'
    have hinside : (freshScope (addFile sources.length x.path x.tree d).2).2.Inside :=
      hscope.inside hadded
    rw [hrun] at hfiles hnames ⊢
    have hreads := (statements_read hinside x.tree.statements hcome hnames).before hscope
    obtain ⟨hnamed, f, hf, hcontainer⟩ := addFile_places d x.path x.tree hfile
    have hfiles' : d.builder.graph.files ++ [f] <+: files := by
      rw [← hf, ← hreads.files_eq hnames hadded]
      exact hfiles
    have hnames' : d.NamedIn names := hreads.namedIn_addFile hd hnames
    have hplace : (addFile sources.length x.path x.tree d).1 = containerOf files sources.length := by
      rw [← hcontainer, containerOf_of_prefix hfiles' (by simp [hfile])]
    rw [hplace] at hreads
    have hdeclarations : declarationsIn files names (sources ++ [x]) = declarationsIn files names sources ++
        (containerOf files sources.length).declarations names x.tree.statements := by
      simp [declarationsIn, List.zipIdx_append]
    have hexports : exportsIn files names (sources ++ [x]) = exportsIn files names sources ++
        ([] ++ (containerOf files sources.length).exports names x.tree.statements) := by
      simp [exportsIn, List.zipIdx_append]
    rw [hdeclarations, hexports, hplace]
    exact .file sources.length x.path x.tree (ih ((List.prefix_append _ _).trans hfiles') hnames' fun site place y before h =>
      hcomes site place y before (h.append [x])) hreads

/-- The declarations of sources, given what names lead to in the end. -/
def declarationsOf (sources : List ParsedSource) : List (Container × Declared) :=
  declarationsIn (ofSources sources).builder.graph.files (ofSources sources).named sources

/-- What sources export, given what names lead to in the end, but for members of enums. -/
def exportsOf (sources : List ParsedSource) : List (SymbolId × String) :=
  exportsIn (ofSources sources).builder.graph.files (ofSources sources).named sources

/-- **The invariant of a rule holds of the draft of sources** if it holds of the library alone, and the rule admits
what the sources export. -/
theorem Rule.ofSources {sources : List ParsedSource} (hmay : ∀ e ∈ exportsOf sources, R.May e.1 e.2)
    (henum : ∀ c e, (c, .enumLike e) ∈ declarationsOf sources → R.Admits (GraphDraft.ofSources sources).named c e)
    (hfiles : R.AddsFiles) (hstart : R.Inv .start) : R.Inv (GraphDraft.ofSources sources) := by
  have hreads := ofSources_reads sources List.prefix_rfl (fun hk => hk) fun _ _ _ _ h => h
  exact (hreads.obeys (fun hk => hk) hmay henum hfiles ⟨start_sound.inside, hstart⟩).1.2

end GraphDraft

end ApiDocs
