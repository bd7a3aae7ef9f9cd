import ApiDocs.Binding.Binder
import ApiDocs.Proofs.Binding.Declarations
import ApiDocs.Proofs.Binding.Linking
import ApiDocs.Proofs.Extract.Extraction

/-!
# Bound sources are self-contained

Whatever a parser makes of the sources, the graph that they are bound into mentions only what is in it.
Reading a source keeps the draft sound and adds one file; linking a sound draft gives a closed graph
with the same files. Nothing is asked of the parser: its trees may declare a name in two files, extend
what is not there or alias in a circle, and its scopes may give any binding to any name.

## Main results

* `SymbolGraph.ofSources_closed`: the graph of parsed sources is closed and has their files.
* `Binder.bind_selfContained`: a graph that sources are bound into is valid, its files are the library
  and the sources in order, and extraction from it is safe.
-/

namespace ApiDocs

open TypeScript (SourceTree)

/-! ## Parsed sources -/

namespace GraphDraft

/-- Reading sources one after another adds their files in order. -/
theorem foldl_addSource (sources : List ParsedSource) (n : Nat) {d d' : GraphDraft} (hd : d.Sound)
    (h : (sources.zipIdx n).foldl
      (fun d x => ((addSource x.2 x.1.path x.1.text x.1.tree x.1.scoping).run d).2) d = d') :
    d'.Sound ∧ d'.builder.graph.layout = d.builder.graph.layout ∧
      ∃ files, d'.builder.graph.files = d.builder.graph.files ++ files ∧
      List.Forall₂ (fun s f => SourceFile.Shows f s.path s.tree) sources files := by
  induction sources generalizing n d with
  | nil =>
    cases h
    exact ⟨hd, rfl, [], by simp, .nil⟩
  | cons s sources ih =>
    obtain ⟨hsound, hlayout, f, hf, hshows⟩ := addSource_adds hd n s.path s.text s.tree s.scoping
    obtain ⟨hsound', hlayout', files, hfiles, hall⟩ := ih (n + 1) hsound h
    refine ⟨hsound', hlayout'.trans hlayout, f :: files, ?_, .cons hshows hall⟩
    rw [hfiles, hf]
    simp

theorem ofSources_sound (sources : List ParsedSource) :
    (ofSources sources).Sound ∧ (ofSources sources).builder.graph.layout = none ∧ ∃ files,
      (ofSources sources).builder.graph.files = { path := SymbolGraph.libraryPath } :: files ∧
      List.Forall₂ (fun s f => SourceFile.Shows f s.path s.tree) sources files :=
  foldl_addSource sources 0 start_sound rfl

end GraphDraft

/-- **The graph of parsed sources is closed**, it has the layout that was set, and its files are the
library and those of the sources. -/
theorem SymbolGraph.ofSources_closed (sources : List ParsedSource) (layout : Option OutputLayout) :
    (ofSources sources layout).Closed ∧ (ofSources sources layout).layout = layout ∧ ∃ files,
      (ofSources sources layout).files = { path := libraryPath } :: files ∧
      List.Forall₂ (fun s f => SourceFile.Shows f s.path s.tree) sources files := by
  obtain ⟨hsound, hlayout, files, hfiles, hall⟩ := GraphDraft.ofSources_sound sources
  -- The layout is no position, so setting it changes nothing that is checked.
  cases layout with
  | none =>
    obtain ⟨hclosed, hlink, hkept⟩ := GraphDraft.link_closed hsound
    exact ⟨hclosed, hkept.trans hlayout, files, hlink.trans hfiles, hall⟩
  | some layout =>
    let d := { GraphDraft.ofSources sources with
      builder := (GraphDraft.ofSources sources).builder.setLayout layout }
    have hd : d.Sound := ⟨{ hsound.builder with graph := { hsound.builder.graph with } },
      { hsound.notes with }⟩
    obtain ⟨hclosed, hlink, hkept⟩ := GraphDraft.link_closed hd
    exact ⟨hclosed, hkept, files, hlink.trans hfiles, hall⟩

/-! ## Bound sources -/

namespace Binder

/-- Sources with distinct paths can all be added. -/
theorem foldlM_addSource {b : Binder} {sources : List (String × String)}
    (h : (b.sources.map Prod.fst ++ sources.map fun s => SourcePath.normalize s.1).Nodup) :
    sources.foldlM (fun b s => b.addSource s.1 s.2) b = .ok { b with
      sources := b.sources ++ sources.map fun s => (SourcePath.normalize s.1, s.2) } := by
  induction sources generalizing b with
  | nil => simp [pure, Except.pure]
  | cons s sources ih =>
    have hnew : b.addSource s.1 s.2 =
        .ok { b with sources := b.sources ++ [(SourcePath.normalize s.1, s.2)] } := by
      refine if_neg ?_
      intro hany
      obtain ⟨x, hx, heq⟩ := List.any_eq_true.mp hany
      have hpath : x.1 = SourcePath.normalize s.1 := by simpa using heq
      exact (List.nodup_append.mp h).2.2 x.1 (List.mem_map_of_mem hx) _ (by simp) hpath
    rw [List.foldlM_cons, hnew]
    change List.foldlM _ _ sources = _
    rw [ih (by simpa using h)]
    simp

/-- Sources are bound just if all of them parse, and then their graph is that of the parsed ones. -/
theorem bindWith_eq_ok_iff {parser : SourceParser} {b : Binder} {g : SymbolGraph} :
    b.bindWith parser = .ok g ↔ ∃ parsed,
      List.Forall₂ (fun s p => ParsedSource.parse parser s.1 s.2 = .ok p) b.sources parsed ∧
        g = SymbolGraph.ofSources parsed b.layout := by
  unfold bindWith
  simp only [← mapM_eq_ok_iff]
  cases hparsed : b.sources.mapM fun s => ParsedSource.parse parser s.1 s.2 with
  | error e => simp [Bind.bind, Except.bind]
  | ok parsed => simp [Bind.bind, Except.bind, pure, Except.pure, eq_comm]

/-- **Bound sources are self-contained.** Sources with distinct paths can be added. If they are bound,
then whatever their trees and scopes are, the graph is valid, its files are the library and one for
each source in order, at the path of the source and a module just if some statement of the source is
module syntax, and extraction from the graph can fail for nothing but a chain of aliases. -/
theorem bind_selfContained (parser : SourceParser) (layout : Option OutputLayout)
    (sources : List (String × String))
    (hdistinct : (sources.map fun s => SourcePath.normalize s.1).Nodup) :
    ∃ b, sources.foldlM (fun (b : Binder) s => b.addSource s.1 s.2) { layout } = .ok b ∧
      ∀ g, b.bindWith parser = .ok g →
        g.Valid ∧ g.files.length = sources.length + 1 ∧
        g.files[0]? = some { path := SymbolGraph.libraryPath } ∧
        (∀ i path text, sources[i]? = some (path, text) → ∃ file tree scoping,
          g.files[i + 1]? = some file ∧
          parser (SourcePath.normalize path) text = .ok (tree, scoping) ∧
          file.path = SourcePath.normalize path ∧
          (file.symbol.isSome ↔ ∃ s ∈ tree.statements, s.isModule)) ∧
        ∀ o, (∃ doc, g.extract o = .ok doc) ∨
          (∃ name chain, g.extract o = .error (.aliasCycle name chain)) ∨
          ∃ name, g.extract o = .error (.aliasDepthExceeded name o.maxAliasDepth) := by
  refine ⟨_, foldlM_addSource (by simpa using hdistinct), fun g hbind => ?_⟩
  obtain ⟨parsed, hparsed, rfl⟩ := bindWith_eq_ok_iff.mp hbind
  obtain ⟨hclosed, -, files, hfiles, hshown⟩ := SymbolGraph.ofSources_closed parsed layout
  have hvalid := SymbolGraph.valid_iff_closed.mpr hclosed
  refine ⟨hvalid, ?_, by rw [hfiles]; rfl, ?_, SymbolGraph.extract_cases hvalid⟩
  · have hlength := hparsed.length_eq.trans hshown.length_eq
    simpa [hfiles] using hlength.symm
  · intro i path text hi
    obtain ⟨p, hp, hparse⟩ := forall₂_getElem? (i := i) (a := (SourcePath.normalize path, text)) hparsed
      (by simp [hi])
    obtain ⟨file, hfile, hshows⟩ := forall₂_getElem? hshown hp
    cases hread : parser (SourcePath.normalize path) text with
    | error complaints => simp [ParsedSource.parse, hread] at hparse
    | ok read =>
      simp only [ParsedSource.parse, hread, Except.ok.injEq] at hparse
      subst hparse
      refine ⟨file, read.1, read.2, ?_, rfl, hshows.path, ?_⟩
      · rw [hfiles]
        exact hfile
      · rw [hshows.isModule]
        simp [SourceTree.isModule]

/-- Two modules that export all of each other, with a type that is made of itself, and a script. -/
def entangled : List (String × String) := [
  ("./src/a.ts", "export type Tree = Tree[]; export * from \"./b\""),
  ("src/b.ts", "export * from \"./a\""),
  ("src/c.ts", "let count = 1")]

/-- The entangled modules are bound. -/
theorem entangled_selfContained : ∃ b g,
    entangled.foldlM (fun (b : Binder) s => b.addSource s.1 s.2) {} = .ok b ∧
      b.bindWith .standard = .ok g ∧ g.Valid ∧ g.files.length = 4 := by
  obtain ⟨b, hb, hall⟩ := bind_selfContained .standard none entangled (by decide +kernel)
  have hbound : ((entangled.foldlM (fun (b : Binder) s => b.addSource s.1 s.2) {}).bind
      (bindWith .standard)).isOk = true := by decide +kernel
  rw [hb] at hbound
  cases hg : b.bindWith .standard with
  | error e => simp [Except.bind, hg, Except.isOk, Except.toBool] at hbound
  | ok g => exact ⟨b, g, hb, hg, (hall g hg).1, (hall g hg).2.1⟩

end Binder

end ApiDocs
