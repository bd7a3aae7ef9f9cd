import ApiDocs.Proofs.Binding.SelfContained
import ApiDocs.Proofs.Text.EmittedPaths

/-!
# Rebasing

A layout sees the sources from its root directory and puts what is emitted for them under the output
directory. Sources are added under the normal form of their path, but the root directory is compared as
it is given. So what is emitted follows the directory, and not how it is written, as long as the root
directory is direct: its components are those of its normal form. This is so for `src`, `src/` and
`src//./`, but not for `./src` or `src/../src`. A layout with such a root directory has no effect at all:
each source keeps its directory, although it lies under the root.

## Main definitions

* `SymbolGraph.Emits`: what a graph with a layout emits for a source.

## Main results

* `Binder.bind_rebases`: what bound sources are emitted to.
-/

namespace ApiDocs

open SourcePath

/-! ## Layouts -/

namespace OutputLayout

variable {layout : OutputLayout} {path relative ext : String}

/-- Two direct ways to write the root directory have the same components, and only these count. -/
theorem map_of_normalize_eq {root : String}
    (hroot : SourcePath.normalize root = SourcePath.normalize layout.rootDir)
    (hdirect : IsDirect root) (hdirect' : IsDirect layout.rootDir) (source ext : String) :
    { layout with rootDir := root : OutputLayout }.map source ext = layout.map source ext := by
  have hcomponents : components root.toList = components layout.rootDir.toList :=
    calc components root.toList
        = components (SourcePath.normalize root).toList := hdirect
      _ = components (SourcePath.normalize layout.rootDir).toList := by rw [hroot]
      _ = components layout.rootDir.toList := hdirect'.symm
  simp only [map, strip?, hcomponents]

/-- What is emitted for a source under a direct root directory: its relative path with the extension,
put behind the output directory. Only with something else in place of an extension the relative path
can lose dots and slashes at its ends. -/
theorem map_of_liesUnder (hdirect : IsDirect layout.rootDir) (h : LiesUnder path layout.rootDir relative)
    (ext : String) : ∃ rest, layout.map (SourcePath.normalize path) ext =
        String.ofList (join layout.outDir.toList rest) ∧
      bodyComponents rest = bodyComponents (replaceExtension relative ext).toList ∧
      (IsExtension ext.toList → rest = (replaceExtension relative ext).toList) := by
  obtain ⟨rest, hstrip, hrest⟩ := exists_strip?_of_liesUnder hdirect h ext
  exact ⟨rest, by simp only [map, hstrip], hrest⟩

/-- A root directory that is not direct has no effect. -/
theorem map_of_not_isDirect (hdirect : ¬ IsDirect layout.rootDir) (path : String)
    (hext : IsExtension ext.toList) :
    layout.map (SourcePath.normalize path) ext = replaceExtension (SourcePath.normalize path) ext := by
  simp only [map, strip?_of_not_isDirect hdirect path hext]

end OutputLayout

/-! ## Bound sources -/

/-- What a graph with a layout emits for a source at `path`. -/
structure SymbolGraph.Emits (g : SymbolGraph) (layout : OutputLayout) (path : String) : Prop where
  /-- The source has its file, at the normal form of the path. -/
  source : ∃ file ∈ g.files, file.path = SourcePath.normalize path
  /-- Under a direct root directory, the relative path goes behind the output directory. -/
  under : IsDirect layout.rootDir → ∀ relative, LiesUnder path layout.rootDir relative →
    ∀ ext, ∃ rest, g.outputPath (SourcePath.normalize path) ext =
        String.ofList (join layout.outDir.toList rest) ∧
      bodyComponents rest = bodyComponents (replaceExtension relative ext).toList ∧
      (IsExtension ext.toList → rest = (replaceExtension relative ext).toList)
  /-- With any other root directory, the source keeps its directory. -/
  ignored : ¬ IsDirect layout.rootDir → ∀ ext, IsExtension ext.toList →
    g.outputPath (SourcePath.normalize path) ext = replaceExtension (SourcePath.normalize path) ext

namespace Binder

variable {parser : SourceParser} {b b' : Binder} {g : SymbolGraph} {sources : List (String × String)}

/-- A source that is added is the last one. -/
theorem sources_of_addSource {path text : String} (h : b.addSource path text = .ok b') :
    b'.sources = b.sources ++ [(SourcePath.normalize path, text)] := by
  simp only [addSource] at h
  split at h
  · cases h
  · cases h
    rfl

/-- Sources that are added stand in order, under the normal forms of their paths. -/
theorem sources_of_foldlM_addSource
    (h : sources.foldlM (fun (b : Binder) s => b.addSource s.1 s.2) b = .ok b') :
    b'.sources = b.sources ++ sources.map fun s => (SourcePath.normalize s.1, s.2) := by
  induction sources generalizing b with
  | nil =>
    cases h
    simp
  | cons s sources ih =>
    rw [List.foldlM_cons] at h
    cases hadd : b.addSource s.1 s.2 with
    | error e =>
      rw [hadd] at h
      cases h
    | ok b₁ =>
      rw [hadd] at h
      rw [ih h, sources_of_addSource hadd]
      simp

/-- A graph has the layout that was set. -/
theorem layout_of_bindWith (h : b.bindWith parser = .ok g) : g.layout = b.layout := by
  obtain ⟨parsed, -, rfl⟩ := bindWith_eq_ok_iff.mp h
  exact (SymbolGraph.ofSources_closed parsed b.layout).2.1

/-- Each source has its file. -/
theorem exists_file_of_bindWith (h : b.bindWith parser = .ok g) {path text : String}
    (hsource : (path, text) ∈ b.sources) : ∃ file ∈ g.files, file.path = path := by
  obtain ⟨parsed, hparsed, rfl⟩ := bindWith_eq_ok_iff.mp h
  obtain ⟨-, -, files, hfiles, hshown⟩ := SymbolGraph.ofSources_closed parsed b.layout
  obtain ⟨i, hi⟩ := List.mem_iff_getElem?.mp hsource
  obtain ⟨p, hp, hparse⟩ := forall₂_getElem? hparsed hi
  obtain ⟨file, hfile, hshows⟩ := forall₂_getElem? hshown hp
  refine ⟨file, ?_, ?_⟩
  · rw [hfiles]
    exact List.mem_cons_of_mem _ (List.mem_of_getElem? hfile)
  · cases hread : parser path text with
    | error complaints => simp [ParsedSource.parse, hread] at hparse
    | ok read =>
      simp only [ParsedSource.parse, hread, Except.ok.injEq] at hparse
      subst hparse
      exact hshows.path

/-- The layout does not decide whether sources are bound. -/
theorem exists_bindWith_withLayout (h : b.bindWith parser = .ok g) (layout : OutputLayout) :
    ∃ g', (b.withLayout layout).bindWith parser = .ok g' := by
  obtain ⟨parsed, hparsed, -⟩ := bindWith_eq_ok_iff.mp h
  exact ⟨_, bindWith_eq_ok_iff.mpr ⟨parsed, hparsed, rfl⟩⟩

/-- The emitted paths are those of the layout that was set. -/
theorem outputPath_of_bindWith {layout : OutputLayout}
    (h : (b.withLayout layout).bindWith parser = .ok g) (source ext : String) :
    g.outputPath source ext = layout.map source ext := by
  have hlayout : g.layout = some layout := layout_of_bindWith h
  simp only [SymbolGraph.outputPath, hlayout]

/-- **Rebasing follows the directories.** Let sources be added and bound with a layout, by any parser.
Each source has a file at the normal form of its path. If the root directory is direct, then any other
direct way to write it binds as well and emits each source to the same path, whatever the extension; and a
source that lies under the root directory is emitted to its relative path with the extension, behind the
output directory. If it is not direct, then every source keeps its directory. -/
theorem bind_rebases (parser : SourceParser) (layout : OutputLayout)
    (hadd : sources.foldlM (fun (b : Binder) s => b.addSource s.1 s.2) {} = .ok b)
    (hbind : (b.withLayout layout).bindWith parser = .ok g) :
    (∀ s ∈ sources, g.Emits layout s.1) ∧
      ∀ root, SourcePath.normalize root = SourcePath.normalize layout.rootDir →
        IsDirect root → IsDirect layout.rootDir →
        ∃ g', (b.withLayout { layout with rootDir := root }).bindWith parser = .ok g' ∧
          ∀ s ∈ sources, ∀ ext,
            g'.outputPath (SourcePath.normalize s.1) ext =
              g.outputPath (SourcePath.normalize s.1) ext := by
  have houtput := outputPath_of_bindWith hbind
  constructor
  · intro s hs
    have hsource : (SourcePath.normalize s.1, s.2) ∈ (b.withLayout layout).sources := by
      have hsources : b.sources = sources.map fun s => (SourcePath.normalize s.1, s.2) := by
        simpa using sources_of_foldlM_addSource hadd
      exact hsources ▸ List.mem_map_of_mem hs
    refine ⟨exists_file_of_bindWith hbind hsource, ?_, ?_⟩
    · intro hdirect relative hunder ext
      rw [houtput]
      exact OutputLayout.map_of_liesUnder hdirect hunder ext
    · intro hdirect ext hext
      rw [houtput]
      exact OutputLayout.map_of_not_isDirect hdirect s.1 hext
  · intro root hroot hdirect hdirect'
    obtain ⟨g', hbind'⟩ := exists_bindWith_withLayout hbind { layout with rootDir := root }
    refine ⟨g', hbind', fun s _ ext => ?_⟩
    rw [houtput, outputPath_of_bindWith hbind']
    exact OutputLayout.map_of_normalize_eq hroot hdirect hdirect' _ ext

/-- A module in a directory. -/
def lone : List (String × String) := [("./src/a.ts", "export const x = 1;")]

/-- The lone module is bound with any layout. -/
theorem lone_binds (layout : OutputLayout) : ∃ b g,
    lone.foldlM (fun (b : Binder) s => b.addSource s.1 s.2) {} = .ok b ∧
      (b.withLayout layout).bind = .ok g := by
  have hbound : ((lone.foldlM (fun (b : Binder) s => b.addSource s.1 s.2) {}).bind bind).isOk = true := by
    decide +kernel
  cases hadd : lone.foldlM (fun (b : Binder) s => b.addSource s.1 s.2) {} with
  | error e => simp [hadd, Except.bind, Except.isOk, Except.toBool] at hbound
  | ok b =>
    cases hbind : b.bind with
    | error e => simp [hadd, hbind, Except.bind, Except.isOk, Except.toBool] at hbound
    | ok g =>
      obtain ⟨g', hbind'⟩ := exists_bindWith_withLayout hbind layout
      exact ⟨b, g', rfl, hbind'⟩

/-- The lone module is emitted behind the output directory, with either of two ways to write its own. -/
theorem lone_rebases : ∃ b g g',
    lone.foldlM (fun (b : Binder) s => b.addSource s.1 s.2) {} = .ok b ∧
      (b.withLayout ⟨"src/", "dist"⟩).bind = .ok g ∧ g.outputPath "src/a.ts" ".js" = "dist/a.js" ∧
      (b.withLayout ⟨"src", "dist"⟩).bind = .ok g' ∧ g'.outputPath "src/a.ts" ".js" = "dist/a.js" := by
  obtain ⟨b, g, hadd, hbind⟩ := lone_binds ⟨"src/", "dist"⟩
  obtain ⟨hemits, hsame⟩ := bind_rebases .standard ⟨"src/", "dist"⟩ hadd hbind
  obtain ⟨g', hbind', hall⟩ := hsame "src" (by decide) (by decide) (by decide)
  have hnormal : SourcePath.normalize "./src/a.ts" = "src/a.ts" := by decide
  have hunder : LiesUnder "./src/a.ts" "src/" "a.ts" := ⟨by decide, by decide, by decide⟩
  have hemitted : g.outputPath "src/a.ts" ".js" = "dist/a.js" := by
    obtain ⟨rest, houtput, -, hrest⟩ :=
      (hemits _ (List.mem_singleton_self _)).under (by decide) "a.ts" hunder ".js"
    rw [hnormal, hrest (by decide)] at houtput
    exact houtput.trans (by decide)
  refine ⟨b, g, g', hadd, hbind, hemitted, hbind', ?_⟩
  have hpath := hall _ (List.mem_singleton_self _) ".js"
  rw [hnormal] at hpath
  exact hpath.trans hemitted

/-- **A dot in front of the root directory turns the layout off.** Both directories have one normal form
and the module lies under it, but only one of the two programs emits it behind the output directory. -/
theorem dotted_ignored : SourcePath.normalize "./src" = SourcePath.normalize "src" ∧
    LiesUnder "./src/a.ts" "./src" "a.ts" ∧
    ∃ b g g', lone.foldlM (fun (b : Binder) s => b.addSource s.1 s.2) {} = .ok b ∧
      (b.withLayout ⟨"src", "dist"⟩).bind = .ok g ∧ g.outputPath "src/a.ts" ".js" = "dist/a.js" ∧
      (b.withLayout ⟨"./src", "dist"⟩).bind = .ok g' ∧ g'.outputPath "src/a.ts" ".js" = "src/a.js" := by
  obtain ⟨b, g, hadd, hbind⟩ := lone_binds ⟨"src", "dist"⟩
  obtain ⟨g', hbind'⟩ := exists_bindWith_withLayout hbind ⟨"./src", "dist"⟩
  refine ⟨by decide, ⟨by decide, by decide, by decide⟩, b, g, g', hadd, hbind, ?_, hbind', ?_⟩
  · rw [outputPath_of_bindWith hbind]
    decide
  · rw [outputPath_of_bindWith hbind']
    decide

end Binder

end ApiDocs
