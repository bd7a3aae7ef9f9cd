import ApiDocs.Binding.Link
import ApiDocs.Proofs.Binding.Draft
import Mathlib.Data.List.Induction

/-!
# Linking keeps graphs closed

All passes of linking keep one invariant: the graph is closed, and what the tables hold is there. The
passes only look symbols up in the tables, follow aliases and exports, and add types and signatures of
what they found, so nothing that is stored can be missing. Circles of aliases, of type aliases and of
base classes do not matter: wherever a walk is cut off, it is at something that is there.

The tables of types that are made once grow together with the graph. What they hold was there when it
was stored, and so it is later.

## Main definitions

* `Linking.Sound`: a closed graph, with tables of what is there.
* `Linking.growth`: linking lets the graph grow, stays sound and keeps the files and the layout.

## Main results

* `Linking.materialize_runs`: the type of an expression is there.
* `GraphDraft.link_closed`: the graph of a sound draft is closed and has its files and its layout.
-/

namespace ApiDocs

namespace Linking

/-! ## Sound linking -/

/-- What the tables hold is there. -/
structure TablesWithin (l : Linking) (e : Extent) : Prop where
  modules : ∀ s ∈ l.modules.values, s.Within e
  locals : ∀ s ∈ l.locals.values, s.Within e
  globals : ∀ s ∈ l.globals.values, s.Within e
  typeAliases : ∀ t ∈ l.typeAliases.values, t.Within e
  instances : ∀ t ∈ l.instances.values, t.Within e
  parameterTypes : ∀ t ∈ l.parameterTypes.values, t.Within e
  enumTypes : ∀ t ∈ l.enumTypes.values, t.Within e
  aliasTypes : ∀ t ∈ l.aliasTypes.values, t.Within e
  constructors : ∀ xs ∈ l.constructors.values, ∀ x ∈ xs, x.Within e

theorem TablesWithin.mono {l : Linking} {e e' : Extent} (h : e.Le e') (hl : l.TablesWithin e) :
    l.TablesWithin e' where
  modules s hs := (hl.modules s hs).mono h
  locals s hs := (hl.locals s hs).mono h
  globals s hs := (hl.globals s hs).mono h
  typeAliases t ht := (hl.typeAliases t ht).mono h
  instances t ht := (hl.instances t ht).mono h
  parameterTypes t ht := (hl.parameterTypes t ht).mono h
  enumTypes t ht := (hl.enumTypes t ht).mono h
  aliasTypes t ht := (hl.aliasTypes t ht).mono h
  constructors xs hxs x hx := (hl.constructors xs hxs x hx).mono h

variable {l : Linking} {s : SymbolId} {b : GraphBuilder}

/-- How many symbols, types and signatures there are. -/
abbrev extent (l : Linking) : Extent := l.builder.extent

/-- The graph is closed, and what the tables hold is there. -/
structure Sound (l : Linking) : Prop where
  builder : l.builder.Closed
  tables : l.TablesWithin l.extent

/-- Linking lets the graph grow and keeps its files. -/
def growth : Growth Linking where
  Good := Sound
  Le l l' := GraphBuilder.growth.Le l.builder l'.builder
  refl l := GraphBuilder.growth.refl l.builder
  trans := GraphBuilder.growth.trans

theorem symbol_stable (s : SymbolId) : growth.Stable fun l => s.Within l.extent :=
  fun _ _ hle hs => hs.mono hle.1

theorem type_stable (t : TypeId) : growth.Stable fun l => t.Within l.extent :=
  fun _ _ hle ht => ht.mono hle.1

theorem signature_stable (x : SignatureId) : growth.Stable fun l => x.Within l.extent :=
  fun _ _ hle hx => hx.mono hle.1

/-- What a step hands back is a symbol that is there. -/
abbrev SymbolThere (s : SymbolId) (l : Linking) : Prop := s.Within l.extent

/-- What a step hands back is a type that is there. -/
abbrev TypeThere (t : TypeId) (l : Linking) : Prop := t.Within l.extent

/-- What a step hands back are types that are there. -/
abbrev TypesThere (ts : List TypeId) (l : Linking) : Prop := ∀ t ∈ ts, t.Within l.extent

/-- What a step hands back are signatures that are there. -/
abbrev SignaturesThere (xs : List SignatureId) (l : Linking) : Prop := ∀ x ∈ xs, x.Within l.extent

/-- A step that hands back nothing of interest. -/
abbrev Anything {α : Type} (_ : α) (_ : Linking) : Prop := True

theorem build_runs {α : Type} {f : GraphBuilder → α × GraphBuilder} {P : α → GraphBuilder → Prop}
    (hl : l.Sound) (h : GraphBuilder.growth.Runs f l.builder P) :
    growth.Runs (build f) l fun a l' => P a l'.builder := by
  have hle : l.extent.Le (f l.builder).2.extent := h.le.1
  exact ⟨⟨h.good, { hl.tables.mono hle with }⟩, h.le, h.post⟩

theorem rebuild_runs {f : GraphBuilder → GraphBuilder} (hl : l.Sound)
    (h : l.builder.GrownTo (f l.builder)) : growth.Runs (rebuild f) l Anything :=
  ⟨⟨h.1, { hl.tables.mono h.2.1 with }⟩, h.2, trivial⟩

/-- A step that only changes tables. -/
theorem store_runs {f : Linking → Linking} (hl : l.Sound) (hbuilder : (f l).builder = l.builder)
    (h : (f l).TablesWithin l.extent) : growth.Runs (modify f) l Anything := by
  refine Growth.runs_modify ⟨by rw [hbuilder]; exact hl.builder, ?_⟩ ?_
  · rw [extent, hbuilder]
    exact h
  · change GraphBuilder.growth.Le l.builder (f l).builder
    rw [hbuilder]
    exact GraphBuilder.growth.refl _

theorem setType_runs {t : TypeId} (hl : l.Sound) (symbol : SymbolId) (ht : t.Within l.extent) :
    growth.Runs (rebuild (·.setType symbol t)) l Anything :=
  rebuild_runs hl (GraphBuilder.setType_grown hl.builder ht)

/-! ## Names -/

theorem followFrom_within (hb : b.Closed) (n : Nat) (seen : List SymbolId) (hs : s.Within b.extent) :
    (followFrom b n seen s).Within b.extent := by
  induction n generalizing seen s with
  | zero => exact hs
  | succ n ih =>
    unfold followFrom
    split
    next t ht =>
      split
      · exact hs
      · exact ih _ (GraphBuilder.within_of_aliasOf hb ht)
    next => exact hs

theorem followAlias_within (hb : b.Closed) (hs : s.Within b.extent) :
    (followAlias b s).Within b.extent :=
  followFrom_within hb _ _ hs

theorem exportOf?_within (hb : b.Closed) (container : SymbolId) (name : String) :
    ∀ x ∈ exportOf? b container name, x.Within b.extent :=
  fun x hx => GraphBuilder.within_of_exportsOf hb x (Table.mem_values_of_get? hx)

theorem lookup?_within (hl : l.Sound) (ref : NameRef) : ∀ x ∈ l.lookup? ref, x.Within l.extent := by
  intro x hx
  cases ref with
  | bound binding => exact hl.tables.locals x (Table.mem_values_of_get? hx)
  | within left name =>
    obtain ⟨y, -, hy⟩ := Option.bind_eq_some_iff.mp hx
    exact exportOf?_within hl.builder _ _ x hy
  | global name => exact hl.tables.globals x (Table.mem_values_of_get? hx)

theorem mem_values_of_resolve? {modules : Table String SymbolId} {source specifier : String}
    (h : ModulePath.resolve? modules source specifier = some s) : s ∈ modules.values := by
  unfold ModulePath.resolve? at h
  split at h
  · obtain ⟨path, -, hpath⟩ := List.exists_of_findSome?_eq_some h
    exact Table.mem_values_of_get? hpath
  · cases h

theorem declareGlobal_runs (hl : l.Sound) (name : String) :
    growth.Runs (declareGlobal name) l SymbolThere := by
  refine (build_runs hl (GraphBuilder.addSymbol_runs hl.builder name _)).bind
    fun symbol l₁ hl₁ _ hs₁ => ?_
  have hlibrary : GraphBuilder.libraryDeclaration.Within l₁.extent :=
    ⟨by simp [GraphBuilder.libraryDeclaration], by simp [GraphBuilder.libraryDeclaration]⟩
  refine (build_runs hl₁ (GraphBuilder.declare_runs hl₁.builder hlibrary)).discard.bind
    fun _ l₂ hl₂ hle₂ _ => ?_
  have hs₂ : symbol.Within l₂.extent := hs₁.mono hle₂.1
  have hglobals := Table.forall_values_insert (k := name) hl₂.tables.globals hs₂
  exact (store_runs hl₂ rfl { hl₂.tables with globals := hglobals }).handBack
    (symbol_stable symbol) hs₂

theorem resolveType_runs (hl : l.Sound) (ref : NameRef) :
    growth.Runs (resolveType ref) l fun found l' => ∀ x ∈ found, x.Within l'.extent := by
  unfold resolveType
  refine Growth.runs_get ?_
  split
  next symbol hlookup =>
    refine Growth.runs_pure hl fun x hx => ?_
    cases hx
    exact lookup?_within hl _ symbol hlookup
  next name _ =>
    refine (declareGlobal_runs hl name).bind fun symbol l' hl' _ hs => Growth.runs_pure hl' ?_
    simpa using hs
  next => exact Growth.runs_pure hl (by simp)

/-! ## Exports of exports -/

theorem copyExports_grown (hb : b.Closed) (container target : SymbolId) :
    b.GrownTo (copyExports b container target) := by
  have hloop : ∀ (entries : List (String × SymbolId)) (b : GraphBuilder), b.Closed →
      (∀ x ∈ entries, x.2.Within b.extent) → b.GrownTo (entries.foldl (fun b x =>
        if x.1 == "default" || (b.exportsOf container).contains x.1 then b
        else b.exportAs container x.1 x.2) b) := by
    intro entries
    induction entries with
    | nil => exact fun b hb _ => ⟨hb, GraphBuilder.growth.refl b⟩
    | cons x entries ih =>
      intro b hb hx
      have hstep : b.GrownTo (if x.1 == "default" || (b.exportsOf container).contains x.1 then b
          else b.exportAs container x.1 x.2) := by
        split
        · exact ⟨hb, GraphBuilder.growth.refl b⟩
        · exact GraphBuilder.exportAs_grown hb (hx x (by simp))
      refine hstep.trans (ih _ hstep.1 fun y hy => ?_)
      exact (hx y (by simp [hy])).mono hstep.2.1
  refine hloop _ b hb fun x hx => ?_
  exact GraphBuilder.within_of_exportsOf hb x.2 (List.mem_map_of_mem hx)

theorem starRound_grown (hb : b.Closed) (edges : List (SymbolId × SymbolId)) :
    b.GrownTo (starRound edges b) := by
  induction edges generalizing b with
  | nil => exact ⟨hb, GraphBuilder.growth.refl b⟩
  | cons edge edges ih =>
    have hstep := copyExports_grown hb edge.1 edge.2
    exact hstep.trans (ih hstep.1)

theorem linkStars_runs (hl : l.Sound) (stars : List StarDraft) :
    growth.Runs (linkStars stars) l Anything := by
  refine Growth.runs_get (rebuild_runs hl ?_)
  have htimes : ∀ (edges : List (SymbolId × SymbolId)) (n : Nat) (b : GraphBuilder), b.Closed →
      b.GrownTo (times (starRound edges) n b) := by
    intro edges n
    induction n with
    | zero => exact fun b hb => ⟨hb, GraphBuilder.growth.refl b⟩
    | succ n ih =>
      intro b hb
      have hround := starRound_grown hb edges
      exact hround.trans (ih _ hround.1)
  exact htimes _ _ _ hl.builder

/-! ## Aliases and heritage -/

theorem aliasTarget?_within (hl : l.Sound) (target : AliasTarget) :
    ∀ x ∈ l.aliasTarget? target, x.Within l.extent := by
  cases target with
  | name ref => exact lookup?_within hl ref
  | imported source specifier what =>
    intro x hx
    obtain ⟨y, hy, hx⟩ := Option.bind_eq_some_iff.mp hx
    cases what with
    | wholeModule =>
      cases hx
      exact hl.tables.modules _ (mem_values_of_resolve? hy)
    | defaultExport => exact exportOf?_within hl.builder y _ x hx
    | named name => exact exportOf?_within hl.builder y name x hx

theorem linkAlias_runs (hl : l.Sound) (draft : AliasDraft) :
    growth.Runs (linkAlias draft) l Anything := by
  unfold linkAlias
  refine Growth.runs_get ?_
  split
  next target htarget =>
    split
    · have hs := aliasTarget?_within hl _ target htarget
      exact rebuild_runs hl (GraphBuilder.aliasTo_grown hl.builder hs)
    · exact Growth.runs_pure hl trivial
  next => exact Growth.runs_pure hl trivial

theorem linkHeritage_runs (hl : l.Sound) (draft : HeritageDraft) :
    growth.Runs (linkHeritage draft) l Anything := by
  have hsymbols := Growth.runs_mapM_filterMap (l := draft.names) hl symbol_stable
    fun ref _ l' hl' _ => resolveType_runs hl' ref
  refine hsymbols.bind fun found l₁ hl₁ _ hfound => ?_
  exact rebuild_runs hl₁ (GraphBuilder.modifyDeclaration_grown hl₁.builder fun d hd =>
    { hd with heritage := hfound })

/-! ## Types -/

/-- A type that is made once: either it is in its table, or it is made and stored. -/
theorem instanceType_runs (hl : l.Sound) (hs : s.Within l.extent) :
    growth.Runs (instanceType s) l TypeThere := by
  unfold instanceType
  refine Growth.runs_get ?_
  split
  next t ht => exact Growth.runs_pure hl (hl.tables.instances t (Table.mem_values_of_get? ht))
  next =>
    have hmade := GraphBuilder.reference_runs hl.builder hs (List.forall_mem_nil _)
    refine (build_runs hl hmade).bind fun t l₁ hl₁ _ ht₁ => ?_
    have hinstances := Table.forall_values_insert (k := s) hl₁.tables.instances ht₁
    exact (store_runs hl₁ rfl { hl₁.tables with instances := hinstances }).handBack
      (type_stable t) ht₁

theorem parameterType_runs (hl : l.Sound) (hs : s.Within l.extent) :
    growth.Runs (parameterType s) l TypeThere := by
  unfold parameterType
  refine Growth.runs_get ?_
  split
  next t ht => exact Growth.runs_pure hl (hl.tables.parameterTypes t (Table.mem_values_of_get? ht))
  next =>
    refine (build_runs hl (GraphBuilder.typeParameter_runs hl.builder hs)).bind
      fun t l₁ hl₁ _ ht₁ => ?_
    have htypes := Table.forall_values_insert (k := s) hl₁.tables.parameterTypes ht₁
    exact (store_runs hl₁ rfl { hl₁.tables with parameterTypes := htypes }).handBack
      (type_stable t) ht₁

theorem instantiate_runs {ts : List TypeId} (hl : l.Sound) (hs : s.Within l.extent)
    (hts : TypesThere ts l) : growth.Runs (instantiate s ts) l TypeThere := by
  unfold instantiate
  split
  · exact instanceType_runs hl hs
  · split
    · exact build_runs hl (GraphBuilder.arrayOf_runs hl.builder (hts _ (by simp)))
    · exact build_runs hl (GraphBuilder.reference_runs hl.builder hs hts)
  · exact build_runs hl (GraphBuilder.reference_runs hl.builder hs hts)

theorem enumTypes_of_known {t : TypeId} (h : l.meaningOf s = .known t) :
    l.enumTypes.get? s = some t := by
  unfold meaningOf at h
  dsimp only at h
  split at h
  next t' ht' =>
    cases h
    split at ht'
    · exact ht'
    · cases ht'
  next => split_ifs at h

theorem meaningOf_known {t : TypeId} (hl : l.Sound) (h : l.meaningOf s = .known t) :
    t.Within l.extent :=
  hl.tables.enumTypes _ (Table.mem_values_of_get? (enumTypes_of_known h))

/-- An expansion of type aliases that gives types that are there. -/
def Expands (expand : Expansion) : Prop :=
  ∀ (s : SymbolId) (name : String) (l : Linking), l.Sound → growth.Runs (expand s name) l TypeThere

mutual

/-- **The type of an expression is there**, given that those of type aliases are. -/
theorem materializeWith_runs {expand : Expansion} (hexpand : Expands expand) {l : Linking}
    (hl : l.Sound) : ∀ t : TypeExpr, t.Within l.extent →
      growth.Runs (materializeWith expand t) l TypeThere
  | .keyword k, _ => by
    rw [materializeWith]
    exact build_runs hl (GraphBuilder.intrinsic_runs hl.builder _ _)
  | .text v, _ => by
    rw [materializeWith]
    exact build_runs hl (GraphBuilder.literal_runs hl.builder _)
  | .number v, _ => by
    rw [materializeWith]
    exact build_runs hl (GraphBuilder.literal_runs hl.builder _)
  | .boolean v, _ => by
    rw [materializeWith]
    exact build_runs hl (GraphBuilder.intrinsic_runs hl.builder _ _)
  | .reference name target arguments, h => by
    rw [materializeWith]
    refine (resolveType_runs hl target).bind fun found l₁ hl₁ hle₁ hfound => ?_
    cases found with
    | none => exact build_runs hl₁ (GraphBuilder.anonymous_runs hl₁.builder name)
    | some symbol =>
      refine Growth.runs_get (Growth.runs_get ?_)
      have hs := followAlias_within hl₁.builder (hfound symbol rfl)
      split
      next t ht => exact Growth.runs_pure hl₁ (meaningOf_known hl₁ ht)
      next =>
        have harguments := TypeExpr.AllWithin.mono hle₁.1 h
        refine (materializeAll_runs hexpand hl₁ arguments harguments).bind
          fun ts l₂ hl₂ hle₂ hts => ?_
        exact instantiate_runs hl₂ (hs.mono hle₂.1) hts
      next => exact parameterType_runs hl₁ hs
      next => exact hexpand _ name l₁ hl₁
      next => exact build_runs hl₁ (GraphBuilder.anonymous_runs hl₁.builder name)
  | .instanceOf symbol, h => by
    rw [materializeWith]
    exact instanceType_runs hl h
  | .array element, h => by
    rw [materializeWith]
    refine (materializeWith_runs hexpand hl element h).bind fun t l₁ hl₁ _ ht => ?_
    exact build_runs hl₁ (GraphBuilder.arrayOf_runs hl₁.builder ht)
  | .union members, h => by
    rw [materializeWith]
    refine (materializeAll_runs hexpand hl members h).bind fun ts l₁ hl₁ _ hts => ?_
    exact build_runs hl₁ (GraphBuilder.union_runs hl₁.builder hts)
  | .intersection members, h => by
    rw [materializeWith]
    refine (materializeAll_runs hexpand hl members h).bind fun ts l₁ hl₁ _ hts => ?_
    exact build_runs hl₁ (GraphBuilder.intersection_runs hl₁.builder hts)
  | .tuple elements, h => by
    rw [materializeWith]
    refine (materializeAll_runs hexpand hl elements h).bind fun ts l₁ hl₁ _ hts => ?_
    exact build_runs hl₁ (GraphBuilder.tuple_runs hl₁.builder hts)
  | .this (some owner), h => by
    rw [materializeWith]
    exact build_runs hl (GraphBuilder.thisType_runs hl.builder (h owner rfl))
  | .this none, _ => by
    rw [materializeWith]
    exact build_runs hl (GraphBuilder.any_runs hl.builder)
  | .verbatim written, _ => by
    rw [materializeWith]
    exact build_runs hl (GraphBuilder.anonymous_runs hl.builder written)

theorem materializeAll_runs {expand : Expansion} (hexpand : Expands expand) {l : Linking}
    (hl : l.Sound) : ∀ ts : List TypeExpr, TypeExpr.AllWithin l.extent ts →
      growth.Runs (materializeAll expand ts) l TypesThere
  | [], _ => by
    rw [materializeAll]
    exact Growth.runs_pure hl (by simp [TypesThere])
  | t :: ts, h => by
    rw [materializeAll]
    refine (materializeWith_runs hexpand hl t h.1).bind fun u l₁ hl₁ hle₁ hu => ?_
    have hts := TypeExpr.AllWithin.mono hle₁.1 h.2
    refine (materializeAll_runs hexpand hl₁ ts hts).bind fun us l₂ hl₂ hle₂ hus => ?_
    exact Growth.runs_pure hl₂ (List.forall_mem_cons.mpr ⟨hu.mono hle₂.1, hus⟩)

end

/-- What is done within one more type alias is done as anywhere, if nobody looks at the count. -/
theorem runs_expanding {α : Type} {G : Growth Linking} {x : LinkM α} {P : α → Linking → Prop}
    (hcount : ∀ l depth, G.Good l →
      G.Good { l with expansionDepth := depth } ∧ G.Le l { l with expansionDepth := depth })
    (stable : ∀ a, G.Stable (P a)) (hl : G.Good l)
    (h : ∀ l', G.Good l' → G.Le l l' → G.Runs x l' P) : G.Runs (expanding x) l P := by
  have hcounted : ∀ {l}, G.Good l → ∀ f : Nat → Nat, G.Runs
      (modify fun l : Linking => { l with expansionDepth := f l.expansionDepth }) l Anything :=
    fun hl f => Growth.runs_modify (hcount _ _ hl).1 (hcount _ _ hl).2
  refine (hcounted hl (· + 1)).bind fun _ l₁ hl₁ hle₁ _ => ?_
  refine (h l₁ hl₁ hle₁).bind fun a l₂ hl₂ _ ha => ?_
  exact (hcounted hl₂ (· - 1)).handBack (stable a) ha

theorem growth_count (l : Linking) (depth : Nat) (hl : l.Sound) :
    growth.Good { l with expansionDepth := depth } ∧ growth.Le l { l with expansionDepth := depth } :=
  ⟨⟨hl.builder, { hl.tables with }⟩, growth.refl l⟩

theorem aliasType_expands {make? : Option (TypeExpr → LinkM TypeId)}
    (hmake : ∀ make ∈ make?, ∀ (l : Linking) (t : TypeExpr), l.Sound → t.Within l.extent →
      growth.Runs (make t) l TypeThere) : Expands (aliasType make?) := by
  intro symbol name l hl
  unfold aliasType
  refine Growth.runs_get (Growth.runs_get ?_)
  split
  next t ht => exact Growth.runs_pure hl (hl.tables.aliasTypes t (Table.mem_values_of_get? ht))
  next expr make _ hexpr =>
    have hin := hl.tables.typeAliases expr (Table.mem_values_of_get? hexpr)
    refine (runs_expanding growth_count type_stable hl fun l' hl' hle' =>
      hmake make rfl l' expr hl' (hin.mono hle'.1)).bind fun t l₁ hl₁ _ ht₁ => ?_
    have htypes := Table.forall_values_insert (k := symbol) hl₁.tables.aliasTypes ht₁
    exact (store_runs hl₁ rfl { hl₁.tables with aliasTypes := htypes }).handBack
      (type_stable t) ht₁
  next => exact build_runs hl (GraphBuilder.anonymous_runs hl.builder name)

/-- At every depth, expansion gives types that are there: by induction on the depth, which bounds how
often an alias can come back within itself. -/
theorem expandAlias_expands (depth : Nat) : Expands (expandAlias depth) := by
  induction depth with
  | zero => exact aliasType_expands (by simp)
  | succ depth ih =>
    refine aliasType_expands fun make hmake l t hl ht => ?_
    cases hmake
    exact materializeWith_runs ih hl t ht

theorem materialize_runs (hl : l.Sound) {t : TypeExpr} (ht : t.Within l.extent) :
    growth.Runs (materialize t) l TypeThere :=
  materializeWith_runs (expandAlias_expands maxExpansion) hl t ht

/-! ## Types of symbols -/

theorem storeEnumType_runs {t : TypeId} (hl : l.Sound) (symbol : SymbolId)
    (ht : t.Within l.extent) :
    growth.Runs (do
      rebuild (·.setType symbol t)
      modify fun l => { l with enumTypes := l.enumTypes.insert symbol t }) l Anything := by
  refine (setType_runs hl symbol ht).bind fun _ l₁ hl₁ hle₁ _ => ?_
  have htypes := Table.forall_values_insert (k := symbol) hl₁.tables.enumTypes (ht.mono hle₁.1)
  exact store_runs hl₁ rfl { hl₁.tables with enumTypes := htypes }

theorem enumMemberType_runs (hl : l.Sound) (hs : s.Within l.extent) (value : Option Literal) :
    growth.Runs (enumMemberType s value) l TypeThere := by
  cases value with
  | some value => exact build_runs hl (GraphBuilder.enumLiteral_runs hl.builder hs value)
  | none => exact build_runs hl (GraphBuilder.number_runs hl.builder)

theorem linkEnum_runs (hl : l.Sound) {draft : EnumDraft} (hdraft : draft.Within l.extent) :
    growth.Runs (linkEnum draft) l Anything := by
  unfold linkEnum
  have hliterals : growth.Runs (draft.members.mapM fun m => do
      let t ← enumMemberType m.1 m.2
      rebuild (·.setType m.1 t)
      modify fun l => { l with enumTypes := l.enumTypes.insert m.1 t }
      return if m.2.isSome then some t else none) l
      fun found l' => ∀ t ∈ found.filterMap id, t.Within l'.extent := by
    refine Growth.runs_mapM_filterMap hl type_stable fun m hm l' hl' hle' => ?_
    have hmember := (hdraft.members m hm).mono hle'.1
    refine (enumMemberType_runs hl' hmember m.2).bind fun t l₁ hl₁ _ ht₁ => ?_
    refine (storeEnumType_runs hl₁ m.1 ht₁).bind fun _ l₂ hl₂ hle₂ _ => Growth.runs_pure hl₂ ?_
    intro t' ht'
    split at ht'
    · cases ht'
      exact ht₁.mono hle₂.1
    · cases ht'
  refine hliterals.bind fun found l₁ hl₁ hle₁ hfound => ?_
  have htype := GraphBuilder.enumType_runs hl₁.builder (hdraft.symbol.mono hle₁.1) hfound
  refine (build_runs hl₁ htype).bind fun t l₂ hl₂ _ ht₂ => ?_
  exact storeEnumType_runs hl₂ draft.symbol ht₂

theorem linkType_runs (hl : l.Sound) (symbol : SymbolId) {t : TypeExpr} (ht : t.Within l.extent) :
    growth.Runs (linkType symbol t) l Anything := by
  unfold linkType
  refine Growth.runs_get ?_
  split
  · exact (materialize_runs hl ht).bind fun t l₁ hl₁ _ ht₁ => setType_runs hl₁ symbol ht₁
  · exact Growth.runs_pure hl trivial

theorem linkIndex_runs (hl : l.Sound) {draft : IndexDraft} (hdraft : draft.Within l.extent) :
    growth.Runs (linkIndex draft) l Anything := by
  have hkey : growth.Runs (draft.key.mapM materialize) l fun o l' => ∀ t ∈ o, t.Within l'.extent := by
    cases hkey : draft.key with
    | none => exact Growth.runs_pure hl (by simp)
    | some key =>
      rw [Option.mapM_some, map_eq_pure_bind]
      refine (materialize_runs hl (hdraft.key key hkey)).bind fun t l₁ hl₁ _ ht => ?_
      exact Growth.runs_pure hl₁ (by simpa using ht)
  refine hkey.bind fun key l₁ hl₁ hle₁ hkey₁ => ?_
  refine (materialize_runs hl₁ (hdraft.value.mono hle₁.1)).bind fun value l₂ hl₂ hle₂ hvalue => ?_
  refine rebuild_runs hl₂ (GraphBuilder.modifyDeclaration_grown hl₂.builder fun d hd => ?_)
  have hindex : IndexTypes.Within ⟨key, some value⟩ l₂.extent :=
    ⟨fun t ht => (hkey₁ t ht).mono hle₂.1, by simpa using hvalue⟩
  exact { hd with index := by simpa using hindex }

/-! ## Signatures -/

/-- The group of an owner has all of its signatures, in order. -/
theorem get?_groupByOwner (drafts : List SignatureDraft) (owner : SignatureOwner) :
    (groupByOwner drafts).get? owner =
      if drafts.filter (·.owner = owner) = [] then none else some (drafts.filter (·.owner = owner)) := by
  induction drafts using List.reverseRecOn with
  | nil => rfl
  | append_singleton drafts d ih =>
    have hgroup : groupByOwner (drafts ++ [d]) = (groupByOwner drafts).modify d.owner [] (· ++ [d]) := by
      rw [groupByOwner, List.foldl_append]
      rfl
    rw [hgroup, Table.modify, List.filter_append]
    by_cases hd : d.owner = owner
    · subst hd
      rw [Table.get?_insert_self, ih]
      split <;> simp [*]
    · rw [Table.get?_insert_of_ne (Ne.symm hd), ih]
      simp [hd]

theorem mem_groupByOwner_iff {drafts group : List SignatureDraft} {owner : SignatureOwner} :
    (owner, group) ∈ (groupByOwner drafts).entries ↔
      group = drafts.filter (·.owner = owner) ∧ group ≠ [] := by
  rw [← Table.get?_eq_some_iff, get?_groupByOwner]
  split
  next h => simp [h]
  next h =>
    rw [Option.some_inj]
    constructor
    · rintro rfl
      exact ⟨rfl, h⟩
    · rintro ⟨rfl, -⟩
      rfl

theorem groupByOwner_within {e : Extent} {drafts : List SignatureDraft}
    (h : ∀ x ∈ drafts, x.Within e) :
    ∀ g ∈ (groupByOwner drafts).entries, g.1.Within e ∧ ∀ x ∈ g.2, x.Within e := by
  rintro ⟨owner, group⟩ hg
  obtain ⟨rfl, hne⟩ := mem_groupByOwner_iff.mp hg
  obtain ⟨x, hx⟩ := List.exists_mem_of_ne_nil _ hne
  obtain ⟨hmem, howner⟩ := List.mem_filter.mp hx
  obtain rfl := of_decide_eq_true howner
  exact ⟨(h x hmem).owner, fun y hy => h y (List.mem_filter.mp hy).1⟩

theorem mem_of_mem_visibleSignatures {drafts : List SignatureDraft} {x : SignatureDraft}
    (h : x ∈ visibleSignatures drafts) : x ∈ drafts := by
  unfold visibleSignatures at h
  split at h
  · exact (List.mem_filter.mp h).1
  · exact h

theorem makeSignature_runs (hl : l.Sound) {draft : SignatureDraft} (hdraft : draft.Within l.extent) :
    growth.Runs (makeSignature draft) l fun x l' => x.Within l'.extent := by
  have hresult : growth.Runs (resultType draft) l TypeThere := by
    unfold resultType
    split
    next expr hexpr => exact materialize_runs hl (hdraft.result expr hexpr)
    next symbol howner =>
      have ho := hdraft.owner
      rw [howner] at ho
      exact instanceType_runs hl ho
    next => exact build_runs hl (GraphBuilder.any_runs hl.builder)
  refine hresult.bind fun t l₁ hl₁ hle₁ ht => ?_
  exact build_runs hl₁ (GraphBuilder.addSignature_runs hl₁.builder
    ⟨ht, fun p hp => (hdraft.parameters p hp).mono hle₁.1⟩)

theorem linkOwner_runs (hl : l.Sound) {owner : SignatureOwner} {drafts : List SignatureDraft}
    (howner : owner.Within l.extent) (hdrafts : ∀ x ∈ drafts, x.Within l.extent) :
    growth.Runs (linkOwner owner drafts) l Anything := by
  have hsignatures : growth.Runs ((visibleSignatures drafts).mapM makeSignature) l
      SignaturesThere :=
    Growth.runs_mapM hl signature_stable fun x hx l' hl' hle' =>
      makeSignature_runs hl' ((hdrafts x (mem_of_mem_visibleSignatures hx)).mono hle'.1)
  refine hsignatures.bind fun signatures l₁ hl₁ hle₁ hxs => ?_
  cases owner with
  | call symbol =>
    refine (build_runs hl₁ (GraphBuilder.functionType_runs hl₁.builder _ hxs)).bind
      fun t l₂ hl₂ _ ht => setType_runs hl₂ symbol ht
  | construct symbol =>
    refine Growth.runs_get ?_
    split
    · have hstored := Table.forall_values_insert (k := symbol) hl₁.tables.constructors hxs
      exact store_runs hl₁ rfl { hl₁.tables with constructors := hstored }
    · refine (instanceType_runs hl₁ (s := symbol) (howner.mono hle₁.1)).bind
        fun t l₂ hl₂ hle₂ _ => ?_
      refine Growth.runs_forM hl₂ fun x hx l' hl' hle' => ?_
      have hin := (hxs x hx).mono (growth.trans hle₂ hle').1
      exact rebuild_runs hl' (GraphBuilder.addConstructSignature_grown hl'.builder hin)

/-! ## Constructors -/

theorem baseOf?_within (hl : l.Sound) (bases : Table SymbolId NameRef) (symbol : SymbolId) :
    ∀ x ∈ l.baseOf? bases symbol, x.Within l.extent := by
  intro x hx
  obtain ⟨ref, -, hx⟩ := Option.bind_eq_some_iff.mp hx
  obtain ⟨base, hbase, hx⟩ := Option.bind_eq_some_iff.mp hx
  dsimp only at hx
  split at hx
  · cases hx
    exact followAlias_within hl.builder (lookup?_within hl ref base hbase)
  · cases hx

theorem inheritSignature_runs (hl : l.Sound) {t : TypeId} (ht : t.Within l.extent)
    (id : SignatureId) :
    growth.Runs (inheritSignature t id) l fun o l' => ∀ x ∈ o, x.Within l'.extent := by
  unfold inheritSignature
  refine Growth.runs_get ?_
  split
  next x hx =>
    have hin := hl.builder.graph.signatures x (Array.mem_of_getElem? hx)
    have hcopy := GraphBuilder.addSignature_runs hl.builder (x := { x with returnType := t })
      ⟨ht, hin.parameters⟩
    refine (build_runs hl hcopy).bind fun y l₁ hl₁ _ hy => Growth.runs_pure hl₁ ?_
    simpa using hy
  next => exact Growth.runs_pure hl (by simp)

/-- How constructors of a class are got, for every class that is there. -/
def Constructs (f : SymbolId → LinkM (List SignatureId)) : Prop :=
  ∀ (s : SymbolId) (l : Linking), l.Sound → s.Within l.extent → growth.Runs (f s) l SignaturesThere

theorem impliedConstructors_runs {inherit? : Option (SymbolId → LinkM (List SignatureId))}
    (hinherit : ∀ f ∈ inherit?, Constructs f) (hl : l.Sound) {base : Option SymbolId} {t : TypeId}
    (hbase : ∀ x ∈ base, x.Within l.extent) (ht : t.Within l.extent) :
    growth.Runs (impliedConstructors inherit? base t) l SignaturesThere := by
  unfold impliedConstructors
  split
  next base inherit =>
    refine (hinherit inherit rfl base l hl (hbase base rfl)).bind fun inherited l₁ hl₁ hle₁ _ => ?_
    have hcopies := Growth.runs_mapM_filterMap (l := inherited) hl₁ signature_stable
      fun id _ l' hl' hle' => inheritSignature_runs hl' (ht.mono (growth.trans hle₁ hle').1) id
    exact hcopies.bind fun found l₂ hl₂ _ hfound => Growth.runs_pure hl₂ hfound
  next =>
    have hnew := GraphBuilder.addSignature_runs hl.builder
      (x := { parameters := [], returnType := t }) ⟨ht, by simp⟩
    refine (build_runs hl hnew).bind fun x l₁ hl₁ _ hx => Growth.runs_pure hl₁ ?_
    exact List.forall_mem_singleton.mpr hx

theorem constructorsVia_constructs {inherit? : Option (SymbolId → LinkM (List SignatureId))}
    (hinherit : ∀ f ∈ inherit?, Constructs f) (bases : Table SymbolId NameRef) :
    Constructs (constructorsVia inherit? bases) := by
  intro s l hl hs
  unfold constructorsVia
  refine Growth.runs_get ?_
  split
  next xs hxs => exact Growth.runs_pure hl (hl.tables.constructors xs (Table.mem_values_of_get? hxs))
  next =>
    refine Growth.runs_get ?_
    refine (instanceType_runs hl hs).bind fun t l₁ hl₁ hle₁ ht => ?_
    have hbase : ∀ x ∈ l.baseOf? bases s, x.Within l₁.extent :=
      fun x hx => (baseOf?_within hl bases s x hx).mono hle₁.1
    refine (impliedConstructors_runs hinherit hl₁ hbase ht).bind fun xs l₂ hl₂ _ hxs => ?_
    have hstored := Table.forall_values_insert (k := s) hl₂.tables.constructors hxs
    exact (store_runs hl₂ rfl { hl₂.tables with constructors := hstored }).handBack
      (fun _ _ hle h x hx => (h x hx).mono hle.1) hxs

theorem constructorsOf_constructs (bases : Table SymbolId NameRef) (depth : Nat) :
    Constructs (constructorsOf bases depth) := by
  induction depth with
  | zero => exact constructorsVia_constructs (by simp) bases
  | succ depth ih =>
    refine constructorsVia_constructs (fun f hf => ?_) bases
    cases hf
    exact ih

theorem linkClass_runs (hl : l.Sound) (bases : Table SymbolId NameRef) {draft : ClassDraft}
    (hs : draft.symbol.Within l.extent) : growth.Runs (linkClass bases draft) l Anything := by
  refine (constructorsOf_constructs bases maxExpansion draft.symbol l hl hs).bind
    fun xs l₁ hl₁ hle₁ hxs => ?_
  have htype := GraphBuilder.constructorType_runs hl₁.builder (hs.mono hle₁.1) hxs
  exact (build_runs hl₁ htype).bind fun t l₂ hl₂ _ ht => setType_runs hl₂ draft.symbol ht

end Linking

/-! ## The graph -/

namespace GraphDraft

variable {d : GraphDraft}

/-- **Settling the notes of a draft keeps the graph closed**: every pass does, and what a pass needs to
be there was there when the notes were made. -/
theorem settle_runs {l : Linking} (hl : l.Sound) (hnotes : d.NotesWithin l.extent) :
    Linking.growth.Runs d.settle l Linking.Anything := by
  refine (Linking.linkStars_runs hl d.stars).bind fun _ l₁ hl₁ hle₁ _ => ?_
  refine (Growth.runs_forM hl₁ fun x _ l' hl' _ => Linking.linkAlias_runs hl' x).bind
    fun _ l₂ hl₂ hle₂ _ => ?_
  refine (Growth.runs_forM hl₂ fun x _ l' hl' _ => Linking.linkHeritage_runs hl' x).bind
    fun _ l₃ hl₃ hle₃ _ => ?_
  have hle := Linking.growth.trans hle₁ (Linking.growth.trans hle₂ hle₃)
  have hnotes₃ := hnotes.mono hle.1
  refine (Growth.runs_forM hl₃ fun x hx l' hl' hle' =>
    Linking.linkEnum_runs hl' ((hnotes₃.enums x hx).mono hle'.1)).bind fun _ l₄ hl₄ hle₄ _ => ?_
  have hnotes₄ := hnotes₃.mono hle₄.1
  refine (Growth.runs_forM hl₄ fun x hx l' hl' hle' =>
    Linking.linkType_runs hl' x.1 ((hnotes₄.symbolTypes x hx).mono hle'.1)).bind
      fun _ l₅ hl₅ hle₅ _ => ?_
  have hnotes₅ := hnotes₄.mono hle₅.1
  refine (Growth.runs_forM hl₅ fun x hx l' hl' hle' =>
    Linking.linkIndex_runs hl' ((hnotes₅.indexes x hx).mono hle'.1)).bind fun _ l₆ hl₆ hle₆ _ => ?_
  have hnotes₆ := hnotes₅.mono hle₆.1
  have hgroups := Linking.groupByOwner_within hnotes₆.signatures
  refine (Growth.runs_forM hl₆ fun x hx l' hl' hle' =>
    Linking.linkOwner_runs hl' ((hgroups x hx).1.mono hle'.1)
      fun y hy => ((hgroups x hx).2 y hy).mono hle'.1).bind fun _ l₇ hl₇ hle₇ _ => ?_
  have hnotes₇ := hnotes₆.mono hle₇.1
  exact Growth.runs_forM hl₇ fun x hx l' hl' hle' =>
    Linking.linkClass_runs hl' _ ((hnotes₇.classes x hx).mono hle'.1)

/-- **The graph of a sound draft is closed**, and has the files and the layout of the draft. -/
theorem link_closed (hd : d.Sound) : d.link.Closed ∧ d.link.files = d.builder.graph.files ∧
    d.link.layout = d.builder.graph.layout := by
  have hstart : Linking.Sound {
      builder := d.builder, modules := d.modules, locals := d.locals, globals := d.globals,
      typeAliases := d.typeAliases } := by
    refine ⟨hd.builder, hd.notes.modules, hd.notes.locals, hd.notes.globals, hd.notes.typeAliases,
      ?_, ?_, ?_, ?_, ?_⟩ <;> simp
  obtain ⟨hgood, hle, -⟩ := settle_runs hstart hd.notes
  exact ⟨hgood.builder.graph, hle.2.1, hle.2.2⟩

end GraphDraft

end ApiDocs
