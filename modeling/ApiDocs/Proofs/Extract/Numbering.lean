import ApiDocs.Proofs.Extract.Renaming

/-!
# Extraction and the numbering of a graph

A run of extraction is a walk over the exports of files, which it sorts by name first. What it gives
depends on the graph alone: not on the positions that symbols, types and signatures have, not on parts
that nothing leads to, and not on the order of exports that are sorted.

## Main definitions

* `SymbolGraph.Ordered`: the symbols whose exports are gone through in the order of the table.
-/

namespace ApiDocs

variable {ρ : Renaming}

/-! ## Sorted exports -/

namespace Table

variable {α : Type}

/-- Sorted by name, the entries of a table have increasing names. -/
theorem pairwise_mergeSort (t : Table String α) :
    (t.entries.mergeSort fun a b => a.1 ≤ b.1).Pairwise fun a b => a.1 < b.1 := by
  have hperm := List.mergeSort_perm t.entries fun a b => decide (a.1 ≤ b.1)
  have hle : (t.entries.mergeSort fun a b => a.1 ≤ b.1).Pairwise fun a b => decide (a.1 ≤ b.1) = true :=
    List.pairwise_mergeSort (fun a b c => by simpa using fun h h' => String.le_trans h h')
      (fun a b => by simpa using String.le_total a.1 b.1) t.entries
  have hne : (t.entries.mergeSort fun a b => a.1 ≤ b.1).Pairwise fun a b => a.1 ≠ b.1 :=
    List.pairwise_map.mp ((hperm.map Prod.fst).nodup_iff.mpr t.distinct)
  refine (hle.and hne).imp fun h => ?_
  exact String.not_le.mp fun h' => h.2 (String.le_antisymm (by simpa using h.1) h')

/-- Sorted by name, the entries of a table do not depend on the order they had. -/
theorem mergeSort_eq_of_perm {t t' : Table String α} (h : t'.entries.Perm t.entries) :
    (t'.entries.mergeSort fun a b => a.1 ≤ b.1) = t.entries.mergeSort fun a b => a.1 ≤ b.1 := by
  refine List.Perm.eq_of_pairwise ?_ t'.pairwise_mergeSort t.pairwise_mergeSort ?_
  · intro a b _ _ hab hba
    exact absurd hab (String.lt_asymm hba)
  · exact (List.mergeSort_perm _ _).trans (h.trans (List.mergeSort_perm _ _).symm)

end Table

namespace SymbolGraph

variable {g g' : SymbolGraph} {o : ExtractOptions}

/-- The symbols whose exports a walk goes through in the order of the table: those that it comes to
and builds as a class or enum. -/
def Ordered (g : SymbolGraph) (o : ExtractOptions) (id : SymbolId) : Prop :=
  g.Assembled o id ∧ ∃ x, g.RoutedTo id x

section Run

variable (h : g.Embeds ρ (g.Ordered o) g') (hg : g.Closed)

include h hg

theorem sortedExports_renamed {file : SourceFile} (hf : file ∈ g.files) :
    g'.sortedExports (file.rename ρ) =
      .ok ((g.exportEntries file).map fun e => (e.1, ρ.symbol e.2)) := by
  unfold sortedExports exportEntries
  cases hs : file.symbol with
  | none => simp only [SourceFile.rename, hs]; rfl
  | some id =>
    obtain ⟨s', hs', hsame, -⟩ := h.symbol (symbol?_eq_some (hg.files file hf id hs))
    have hsort : (s'.exports.entries.mergeSort fun a b => a.1 ≤ b.1) =
        ((g.symbolAt id).exports.entries.mergeSort fun a b => a.1 ≤ b.1).map
          fun e => (e.1, ρ.symbol e.2) := by
      rw [Table.mergeSort_eq_of_perm hsame.exports]
      refine (List.map_mergeSort ?_).symm
      exact fun _ _ _ _ => rfl
    simp only [SourceFile.rename, hs, Option.map_some, getSymbol_eq_ok_iff.mpr hs', ← hsort]
    rfl

omit hg in
theorem size_symbols_le : g.symbols.size ≤ g'.symbols.size := by
  have hlt : ∀ i : Fin g.symbols.size, (ρ.symbol ⟨i⟩).index < g'.symbols.size := by
    intro i
    have hin : SymbolId.Within ⟨i⟩ g.extent := i.isLt
    exact within_renamed h hin
  have hinj : Function.Injective fun i => (⟨_, hlt i⟩ : Fin g'.symbols.size) := by
    intro i j hij
    have hsame : ρ.symbol ⟨i⟩ = ρ.symbol ⟨j⟩ := congrArg SymbolId.mk (Fin.val_eq_of_eq hij)
    exact Fin.ext (congrArg SymbolId.index (h.injective hsame))
  simpa using Fintype.card_le_of_injective _ hinj

theorem documentExport_agrees {entry : String × SymbolId} (hin : entry.2.Within g.extent)
    (hA : ∀ id ∈ g.exportTarget o entry, g.Assembled o id) :
    Walk.Agrees ρ o.maxAliasDepth (g.documentExport o entry)
      (g'.documentExport o (entry.1, ρ.symbol entry.2)) := by
  refine (simulates_lift (resolveAlias_follows h entry.1 entry.2).with_eq).bind ?_
  rintro r r' ⟨hr, rfl⟩
  cases r with
  | none => exact simulates_pure rfl
  | some id =>
    have hid : id.Within g.extent := by
      rcases resolveAlias_outcome hg o.maxAliasDepth entry.1 hin with ⟨r, hr', hin'⟩ | ⟨e, he, -⟩
      · cases hr'.symm.trans hr
        exact hin' id rfl
      · cases he.symm.trans hr
    refine (simulates_lift (view_follows h id).with_eq).bind ?_
    rintro v v' ⟨hv, rfl⟩
    cases (view_eq_ok hid).symm.trans hv
    have hdeclared : ((g.viewAt id).rename ρ).declaration.isNone = (g.viewAt id).declaration.isNone :=
      Option.isNone_map
    rw [hdeclared]
    split
    next => exact simulates_pure rfl
    next hd =>
      have htarget : g.exportTarget o entry = some id := by
        simp only [exportTarget, hr, hd, Bool.false_eq_true, if_false]
      have hle : g.symbols.size + 1 ≤ g'.symbols.size + 1 := Nat.succ_le_succ (size_symbols_le h)
      refine (Walk.assemble_agrees h hg (A := g.Assembled o)
        (fun hp hroute n hn => .nested hp hroute hn) (fun hA hx => ⟨hA, _, hx⟩) _ _ hle id
        (hA id htarget) hid {}).bind_same ?_
      exact fun m => simulates_pure rfl

theorem documentFile_agrees {file : SourceFile} (hf : file ∈ g.files)
    (hA : ∀ entry ∈ g.exportEntries file, ∀ id ∈ g.exportTarget o entry, g.Assembled o id) :
    Walk.Agrees ρ o.maxAliasDepth (g.documentFile o file) (g'.documentFile o (file.rename ρ)) := by
  unfold documentFile
  rw [sortedExports_eq_ok hg hf, sortedExports_renamed h hg hf]
  refine (simulates_lift (follows_ok ⟨rfl, rfl⟩)).bind (R := fun es es' =>
    es = g.exportEntries file ∧ es' = es.map fun e => (e.1, ρ.symbol e.2)) ?_
  rintro es es' ⟨rfl, rfl⟩
  refine (simulates_mapM fun entry he =>
    documentExport_agrees h hg (within_of_mem_exportEntries hg hf he) (hA entry he)).bind_same ?_
  exact fun mss => simulates_pure rfl

/-! ## The whole run -/

omit hg in
theorem accepted_renamed : g'.ownFiles.filter (g'.accepts o) =
    (g.ownFiles.filter (g.accepts o)).map (·.rename ρ) := by
  have hpath : ∀ (file : SourceFile) (extension : String),
      g'.outputPath (file.rename ρ).path extension = g.outputPath file.path extension := by
    intro file extension
    simp only [outputPath, h.layout, SourceFile.rename]
  have haccepts : ∀ file : SourceFile, g'.accepts o (file.rename ρ) = g.accepts o file := by
    intro file
    simp only [accepts, hpath]
  have hfiles : g'.ownFiles = g.ownFiles.map (·.rename ρ) := by
    simp only [ownFiles, h.files, List.map_drop]
  rw [hfiles, List.filter_map]
  congr 2
  exact funext haccepts

theorem documentFiles_agree :
    Walk.Agrees ρ o.maxAliasDepth ((g.ownFiles.filter (g.accepts o)).mapM (g.documentFile o))
      ((g'.ownFiles.filter (g'.accepts o)).mapM (g'.documentFile o)) := by
  rw [accepted_renamed h]
  refine simulates_mapM fun file hf => ?_
  refine documentFile_agrees h hg (List.mem_of_mem_drop (List.mem_filter.mp hf).1) ?_
  exact fun entry he id hid => .exported (mem_documented_of_entry hf he hid)

/-- **Extraction sees neither positions nor what it does not come to**, nor the order of exports that it
sorts. -/
theorem extract_eq_of_embeds : g'.extract o = g.extract o := by
  have hstart : WalkState.rename ρ {} = {} := by simp [WalkState.rename, RefTable.rename, RefTable.empty]
  have hwalk := documentFiles_agree h hg {}
  rw [hstart] at hwalk
  have hrun : Follows (ExtractError.OfAlias o.maxAliasDepth) Eq (g.extract o) (g'.extract o) := by
    unfold extract
    refine hwalk.bind ?_
    rintro ⟨modules, s⟩ ⟨modules', s'⟩ ⟨hmodules, hs⟩
    dsimp only at hmodules hs
    subst hmodules hs
    dsimp only
    rw [s.finish_rename]
    exact follows_refl _
  refine hrun.eq fun e he => ?_
  rcases extract_outcome hg o with ⟨doc, -, hdoc, -⟩ | ⟨e', he', hcause⟩
  · cases hdoc.symm.trans he
  · cases he'.symm.trans he
    exact hcause

end Run

/-- **The result depends on the graph alone.** Take a valid graph, new positions that keep its symbols
apart, and a graph of the same layout that has the renamed files, and the renamed symbols, types and
signatures at their new positions, whatever else it has and however it is numbered. Extraction gives
the same for both under all options: one documentation, or one failure. -/
theorem extract_eq_of_renamedIn (hvalid : g.Valid) (hρ : Set.InjOn ρ.symbol {id | id.Within g.extent})
    (h : g.RenamedIn ρ g') (o : ExtractOptions) : g'.extract o = g.extract o := by
  have hg := valid_iff_closed.mp hvalid
  obtain ⟨f, hf, hagree⟩ := exists_injective_of_injOn hρ
  exact extract_eq_of_embeds ((h.withSymbol hg hagree).embeds hf _) hg

/-! ## Positions that are spread out -/

/-- Symbols go to odd positions, and types one further. -/
def spread : Renaming where
  symbol id := ⟨2 * id.index + 1⟩
  type id := ⟨id.index + 1⟩
  signature id := id

/-- The class that nests itself at other positions, between symbols and a type that lead nowhere. -/
def selfNestedSpread : SymbolGraph where
  files := selfNested.files.map (·.rename spread)
  symbols := selfNested.symbols.flatMap fun s =>
    #[{ name := "A", flags := SymbolFlags.classBit, aliasOf := some ⟨99⟩ }, s.rename spread]
  types := #[{ flags := TypeFlags.unionBit, constituents := [⟨99⟩], display := "A" }] ++
    selfNested.types.map (·.rename spread)

theorem selfNested_renamedIn : selfNested.RenamedIn spread selfNestedSpread where
  layout := rfl
  files := rfl
  symbol {id s} hs := by
    have hsymbols : ∀ i < 4, selfNestedSpread.symbol? (spread.symbol ⟨i⟩) =
        (selfNested.symbol? ⟨i⟩).map (·.rename spread) := by decide +kernel
    rw [hsymbols id.index (Array.getElem?_eq_some_iff.mp hs).1, hs]
    rfl
  type {id t} ht := by
    have htypes : ∀ i < 1, selfNestedSpread.type? (spread.type ⟨i⟩) =
        (selfNested.type? ⟨i⟩).map (·.rename spread) := by decide +kernel
    rw [htypes id.index (Array.getElem?_eq_some_iff.mp ht).1, ht]
    rfl
  signature {id s} hs := by simp [signature?, selfNested] at hs

/-- The class that nests itself is documented in one way at all positions. -/
theorem selfNestedSpread_extract : selfNested.Valid ∧ ¬ selfNestedSpread.Valid ∧
    ∃ doc, selfNested.extract {} = .ok doc ∧ selfNestedSpread.extract {} = .ok doc := by
  have hspread : Set.InjOn spread.symbol {id | id.Within selfNested.extent} := by
    rintro ⟨i⟩ - ⟨j⟩ - hij
    simp only [spread, SymbolId.mk.injEq] at hij ⊢
    omega
  obtain ⟨doc, hdoc⟩ := exists_extract_selfNested
  have hsame := extract_eq_of_renamedIn selfNested_valid hspread selfNested_renamedIn {}
  exact ⟨selfNested_valid, by decide +kernel, doc, hdoc, hsame.trans hdoc⟩

end SymbolGraph

end ApiDocs
