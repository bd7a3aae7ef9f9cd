import ApiDocs.Proofs.Extract.Identity
import ApiDocs.Proofs.Extract.Numbering
import ApiDocs.Proofs.Text.ByteOrder

/-!
# Module records and exports

A documentation has one module record for each export that leads to a declared symbol, in the order of
the files and, within a file, of the bytes of the names. A record holds the one entry of its symbol, or
nothing if its declaration is of a kind that is not documented. Files that are left out, files that are
no modules, aliases without a target and symbols without declarations leave no trace, and it does not
matter which classes and enums were built before for other exports.

Since exports are sorted, the order of the tables of files does not show, but for files that are
documented as a class or enum themselves.

## Main definitions

* `SymbolGraph.InNameOrder`: the exports of a file in the order of the bytes of their names.
* `SymbolGraph.ExportGives`: the record that an export gives, if any.
* `SymbolGraph.PermutedIn`: the exports of some symbols are in another order.
* `SymbolGraph.ModuleRecords`: the module records are those of the exports.
-/

namespace ApiDocs

/-! ## Entries of a record -/

/-- How many entries a module record has in all its lists. -/
def ModuleDoc.entryCount (m : ModuleDoc) : Nat :=
  m.enumList.length + m.classList.length + m.interfaceList.length + m.functionList.length +
    m.variableList.length

/-- The kinds of declarations that have an entry in a module record. -/
def DeclarationKind.documented : List DeclarationKind :=
  [functionDecl, enumDecl, classDecl, interfaceDecl, variableDecl]

namespace SymbolGraph

variable (g : SymbolGraph)

/-- The entries are the exports of the file, and their names have increasing bytes. -/
structure InNameOrder (file : SourceFile) (entries : List (String × SymbolId)) : Prop where
  exports : ∀ entry, entry ∈ entries ↔
    ∃ id ∈ file.symbol, entry ∈ (g.symbolAt id).exports.entries
  increasing : entries.Pairwise fun a b => Text.bytes a.1 < Text.bytes b.1

/-- The record that an export gives: that of the declared symbol at the end of its chain of aliases, and
none if there is no such symbol. -/
inductive ExportGives (t : RefTable SymbolId) (entry : String × SymbolId) : Option ModuleDoc → Prop where
  | record {id : SymbolId} {m : ModuleDoc} : g.LeadsTo entry.2 (some id) →
    (g.symbolAt id).declarations ≠ [] → g.ModuleOf t [id] m →
    m.entryCount = (if ∃ kind ∈ (g.viewAt id).kind, kind ∈ DeclarationKind.documented then 1 else 0) →
    ExportGives t entry (some m)
  | unresolved : g.LeadsTo entry.2 none → ExportGives t entry none
  | undeclared {id : SymbolId} : g.LeadsTo entry.2 (some id) → (g.symbolAt id).declarations = [] →
    ExportGives t entry none

/-- The second graph is the first, but that exports of symbols with `P` may be in another order. -/
structure PermutedIn (P : SymbolId → Prop) (g g' : SymbolGraph) : Prop where
  layout : g'.layout = g.layout
  files : g'.files = g.files
  size : g'.symbols.size = g.symbols.size
  types : g'.types = g.types
  signatures : g'.signatures = g.signatures
  symbols : ∀ {id s}, g.symbol? id = some s → ∃ s', g'.symbol? id = some s' ∧ s.Reordered s' ∧
    (s' = s ∨ P id)

/-- The module records of a documentation are those of the exports, one to one and in order. -/
structure ModuleRecords (o : ExtractOptions) (t : RefTable SymbolId) (doc : Documentation) : Prop where
  refs : doc.refs = t.refs
  built_iff : ∀ {id}, (∃ x, t.Built id x) ↔ g.Assembled o id ∧ ∃ x, g.RoutedTo id x
  /-- Over the files that are accepted, and the exports of each. -/
  records : ∃ rss : List (List (Option ModuleDoc)),
    List.Forall₂ (fun file rs => ∃ entries, g.InNameOrder file entries ∧
      List.Forall₂ (g.ExportGives t) entries rs) (g.ownFiles.filter (g.accepts o)) rss ∧
    doc.modules = rss.flatten.reduceOption
  /-- The order of exports does not show, but for those of symbols that were built. -/
  permuted : ∀ g', g.PermutedIn (fun id => ¬ ∃ x, t.Built id x) g' → g'.extract o = .ok doc

variable {g} {o : ExtractOptions} {t : RefTable SymbolId} {doc : Documentation}

/-! ## Exports -/

theorem exportEntries_inNameOrder (file : SourceFile) : g.InNameOrder file (g.exportEntries file) := by
  unfold exportEntries
  cases hs : file.symbol with
  | none => exact ⟨by simp [hs], .nil⟩
  | some id =>
    refine ⟨by simp [hs], ?_⟩
    exact (Table.pairwise_mergeSort _).imp fun h => Text.lt_iff_bytes_lt.mp h

theorem ModuleOf.entryCount_eq {id : SymbolId} {m : ModuleDoc} (h : g.ModuleOf t [id] m) :
    m.entryCount =
      if ∃ kind ∈ (g.viewAt id).kind, kind ∈ DeclarationKind.documented then 1 else 0 := by
  have hroute : g.route? id = (g.viewAt id).kind.map DeclarationKind.route := rfl
  unfold ModuleDoc.entryCount
  rw [← h.enums.length_eq, ← h.classes.length_eq, ← h.interfaces.length_eq, ← h.functions.length_eq,
    ← h.values.length_eq]
  cases hk : (g.viewAt id).kind with
  | none => simp [hroute, hk]
  | some kind => cases kind <;> simp [hroute, hk, DeclarationKind.route, DeclarationKind.documented]

/-- What an export gives, if its chain of aliases does not fail. -/
theorem exportGives {entry : String × SymbolId} {x : Option SymbolId}
    (hx : g.resolveAlias o.maxAliasDepth entry.1 entry.2 = .ok x) {r : Option ModuleDoc}
    (hr : Option.Rel (fun id m => g.ModuleOf t [id] m) (g.exportTarget o entry) r) :
    g.ExportGives t entry r := by
  have hleads := leadsTo_of_resolveAlias hx
  cases x with
  | none =>
    have htarget : g.exportTarget o entry = none := by simp only [exportTarget, hx]
    rw [htarget] at hr
    cases hr
    exact .unresolved hleads
  | some id =>
    by_cases hd : (g.symbolAt id).declarations = []
    · have hnone : (g.viewAt id).declaration.isNone = true :=
        Option.isNone_iff_eq_none.mpr (Symbol.ownDeclaration_eq_none_iff.mpr hd)
      have htarget : g.exportTarget o entry = none := by simp only [exportTarget, hx, hnone, if_true]
      rw [htarget] at hr
      cases hr
      exact .undeclared hleads hd
    · have hsome : (g.viewAt id).declaration.isNone = false := by
        refine Bool.eq_false_iff.mpr fun hnone => hd ?_
        exact Symbol.ownDeclaration_eq_none_iff.mp (Option.isNone_iff_eq_none.mp hnone)
      have htarget : g.exportTarget o entry = some id := by
        simp only [exportTarget, hx, hsome, Bool.false_eq_true, if_false]
      rw [htarget] at hr
      cases hr with
      | some hm => exact .record hleads hd hm hm.entryCount_eq

/-! ## Exports that were gone through -/

theorem resolveAlias_ok_of_documentExport {entry : String × SymbolId} {s : WalkState}
    {r : List ModuleDoc × WalkState} (h : g.documentExport o entry s = .ok r) :
    ∃ x, g.resolveAlias o.maxAliasDepth entry.1 entry.2 = .ok x := by
  cases hx : g.resolveAlias o.maxAliasDepth entry.1 entry.2 with
  | ok x => exact ⟨x, rfl⟩
  | error e =>
    unfold documentExport at h
    rw [hx] at h
    cases h

/-- If extraction succeeds, no chain of aliases that starts at an export fails. -/
theorem resolveAlias_ok_of_extract (hg : g.Closed) (h : g.extract o = .ok doc) :
    ∀ file ∈ g.ownFiles.filter (g.accepts o), ∀ entry ∈ g.exportEntries file,
      ∃ x, g.resolveAlias o.maxAliasDepth entry.1 entry.2 = .ok x := by
  intro file hf entry he
  have hfile := List.mem_of_mem_drop (List.mem_filter.mp hf).1
  cases hrun : (g.ownFiles.filter (g.accepts o)).mapM (g.documentFile o) {} with
  | error e =>
    simp only [extract, StateT.run, hrun] at h
    cases h
  | ok r =>
    obtain ⟨s, r₁, hr₁⟩ := exists_ok_of_mapM hrun file hf
    cases hexports : (g.exportEntries file).mapM (g.documentExport o) s with
    | error e =>
      simp only [documentFile, sortedExports_eq_ok hg hfile] at hr₁
      change ((g.exportEntries file).mapM (g.documentExport o) s >>= _) = _ at hr₁
      rw [hexports] at hr₁
      cases hr₁
    | ok r₂ =>
      obtain ⟨s₁, r₃, hr₃⟩ := exists_ok_of_mapM hexports entry he
      exact resolveAlias_ok_of_documentExport hr₃

/-! ## Other orders -/

theorem PermutedIn.embeds {P Fixed : SymbolId → Prop} {g' : SymbolGraph} (h : g.PermutedIn P g')
    (hfixed : ∀ id, Fixed id → ¬ P id) : g.Embeds .keep Fixed g' where
  injective := Function.injective_id
  layout := h.layout
  files := by
    rw [h.files]
    exact ((List.map_congr_left fun f _ => f.rename_keep).trans (List.map_id' _)).symm
  symbol {id s} hs := by
    obtain ⟨s', hs', hsame, hor⟩ := h.symbols hs
    rw [s.rename_keep]
    exact ⟨s', hs', hsame, fun hid => hor.resolve_right (hfixed id hid)⟩
  type {id t} ht := by
    rw [t.rename_keep, type?, h.types]
    exact ht
  signature {id s} hs := by
    rw [s.rename_keep, signature?, h.signatures]
    exact hs

theorem Documents.built_iff (h : g.Documents o t doc) {id : SymbolId} :
    (∃ x, t.Built id x) ↔ g.Assembled o id ∧ ∃ x, g.RoutedTo id x := by
  constructor
  · rintro ⟨x, hb⟩
    cases x with
    | toClass c => exact ⟨(h.exists_class_iff.mp ⟨c, hb⟩).1, _, h.routed hb⟩
    | toEnum e => exact ⟨(h.exists_enum_iff.mp ⟨e, hb⟩).1, _, h.routed hb⟩
  · rintro ⟨hA, x, hx⟩
    cases x with
    | toClass c =>
      obtain ⟨c, hb⟩ := h.exists_class_iff.mpr ⟨hA, hx⟩
      exact ⟨_, hb⟩
    | toEnum e =>
      obtain ⟨e, hb⟩ := h.exists_enum_iff.mpr ⟨hA, hx⟩
      exact ⟨_, hb⟩

/-! ## Records -/

/-- The records of a file, export by export. -/
theorem exists_fileRecords {file : SourceFile}
    (hresolves : ∀ entry ∈ g.exportEntries file,
      ∃ x, g.resolveAlias o.maxAliasDepth entry.1 entry.2 = .ok x) {ms : List ModuleDoc}
    (h : List.Forall₂ (fun id m => g.ModuleOf t [id] m)
      ((g.exportEntries file).flatMap fun entry => (g.exportTarget o entry).toList) ms) :
    ∃ rs, ms = rs.reduceOption ∧ List.Forall₂ (g.ExportGives t) (g.exportEntries file) rs := by
  rw [← List.filterMap_eq_flatMap_toList] at h
  obtain ⟨rs, hms, hrs⟩ := exists_reduceOption_of_forall₂ h
  refine ⟨rs, hms, ((List.forall₂_and_left _ _).mpr ⟨hresolves, hrs⟩).imp ?_⟩
  rintro entry r ⟨⟨x, hx⟩, hr⟩
  exact exportGives hx hr

/-- The records of files, one after the other. -/
theorem exists_records {files : List SourceFile}
    (hresolves : ∀ file ∈ files, ∀ entry ∈ g.exportEntries file,
      ∃ x, g.resolveAlias o.maxAliasDepth entry.1 entry.2 = .ok x) {mss : List (List ModuleDoc)}
    (h : List.Forall₂ (fun file ms => List.Forall₂ (fun id m => g.ModuleOf t [id] m)
      ((g.exportEntries file).flatMap fun entry => (g.exportTarget o entry).toList) ms) files mss) :
    ∃ rss : List (List (Option ModuleDoc)), mss.flatten = rss.flatten.reduceOption ∧
      List.Forall₂ (fun file rs => ∃ entries, g.InNameOrder file entries ∧
        List.Forall₂ (g.ExportGives t) entries rs) files rss := by
  induction h with
  | nil => exact ⟨[], rfl, .nil⟩
  | @cons file ms files mss hms _ ih =>
    obtain ⟨rs, hrs, hgives⟩ := exists_fileRecords (hresolves file (by simp)) hms
    obtain ⟨rss, hrss, hall⟩ := ih fun f hf => hresolves f (by simp [hf])
    refine ⟨rs :: rss, ?_, .cons ⟨_, exportEntries_inNameOrder file, hgives⟩ hall⟩
    rw [List.flatten_cons, List.flatten_cons, List.reduceOption_append, hrs, hrss]

/-- **Module records are those of the exports.** Over the files that are accepted, and in each over its
exports in the order of the bytes of their names, there is one record for each export that leads to a
declared symbol, and none for the others. A record has one entry if the declaration that counts is a
function, an enum, a class, an interface or a variable, and else none. The order of the tables of symbols
that are not built as a class or enum, such as most files, does not show in the documentation. -/
theorem extract_moduleRecords (hvalid : g.Valid) (hdoc : g.extract o = .ok doc) :
    ∃ t, g.ModuleRecords o t doc := by
  have hg := valid_iff_closed.mp hvalid
  obtain ⟨t, h⟩ := exists_documents hvalid hdoc
  refine ⟨t, h.refs, h.built_iff, ?_, ?_⟩
  · obtain ⟨mss, hmss, hfiles⟩ := exists_flatten_of_forall₂ h.modules
    obtain ⟨rss, hrss, hall⟩ := exists_records (resolveAlias_ok_of_extract hg hdoc) hfiles
    exact ⟨rss, hall, hmss.trans hrss⟩
  · intro g' hperm
    have hembeds : g.Embeds .keep (g.Ordered o) g' :=
      hperm.embeds fun id hordered hnot => hnot (h.built_iff.mpr hordered)
    rw [extract_eq_of_embeds hembeds hg, hdoc]

/-! ## Exports of all kinds -/

/-- The first module exports a class and an alias of it, an alias without a target, a symbol without
declarations and a namespace. There are also a library, a script and a module that can be left out. -/
def assorted (exports : Table String SymbolId) : SymbolGraph where
  files := [⟨"lib.d.ts", some ⟨7⟩⟩, ⟨"a.ts", some ⟨0⟩⟩, ⟨"script.ts", none⟩, ⟨"b.ts", some ⟨1⟩⟩]
  symbols := #[
    { name := "a", flags := SymbolFlags.moduleBit, exports },
    { name := "b", flags := SymbolFlags.moduleBit, exports := .ofList [("C", ⟨2⟩)] },
    { name := "C", flags := SymbolFlags.classBit,
      declarations := [{ kind := .classDecl, pos := default }] },
    { name := "gone", flags := SymbolFlags.aliasBit },
    { name := "bare", flags := SymbolFlags.classBit },
    { name := "A", flags := SymbolFlags.aliasBit, aliasOf := some ⟨2⟩ },
    { name := "N", flags := SymbolFlags.moduleBit,
      declarations := [{ kind := .moduleDecl, pos := default }] },
    { name := "lib", flags := SymbolFlags.moduleBit, exports := .ofList [("C", ⟨2⟩)] }]

/-- The exports in some order. -/
def shuffled : Table String SymbolId :=
  .ofList [("é", ⟨2⟩), ("gone", ⟨3⟩), ("bare", ⟨4⟩), ("N", ⟨6⟩), ("A", ⟨5⟩)]

/-- The exports in the order of their names. -/
def inOrder : Table String SymbolId :=
  .ofList [("A", ⟨5⟩), ("N", ⟨6⟩), ("bare", ⟨4⟩), ("gone", ⟨3⟩), ("é", ⟨2⟩)]

/-- The second module is left out. -/
def withoutB : ExtractOptions where
  filter := some (· ≠ "b.js")
  extension := some "js"

theorem assorted_valid : (assorted shuffled).Valid := by decide +kernel

theorem assorted_permutedIn {P : SymbolId → Prop} (h : P ⟨0⟩) :
    (assorted shuffled).PermutedIn P (assorted inOrder) where
  layout := rfl
  files := rfl
  size := rfl
  types := rfl
  signatures := rfl
  symbols {id s} hs := by
    obtain ⟨i⟩ := id
    cases i with
    | zero =>
      have hperm : inOrder.entries.Perm shuffled.entries := by decide +kernel
      cases hs
      exact ⟨_, rfl, ⟨rfl, hperm⟩, .inr h⟩
    | succ i => exact ⟨s, hs, .refl s, .inl rfl⟩

theorem extract_assorted :
    ((assorted shuffled).extract withoutB).toOption.map
      (fun doc => doc.modules.map (·.entryCount)) = some [1, 0, 1] := by
  have hfiles : (assorted shuffled).ownFiles.filter ((assorted shuffled).accepts withoutB) =
      [⟨"a.ts", some ⟨0⟩⟩, ⟨"script.ts", none⟩] := by decide +kernel
  have hmodule : (assorted shuffled).sortedExports ⟨"a.ts", some ⟨0⟩⟩ = .ok inOrder.entries := by
    change Except.ok (List.mergeSort
      [("é", (⟨2⟩ : SymbolId)), ("gone", ⟨3⟩), ("bare", ⟨4⟩), ("N", ⟨6⟩), ("A", ⟨5⟩)]
      fun a b => a.1 ≤ b.1) = .ok [("A", ⟨5⟩), ("N", ⟨6⟩), ("bare", ⟨4⟩), ("gone", ⟨3⟩), ("é", ⟨2⟩)]
    simp [List.mergeSort, List.MergeSort.Internal.splitInTwo]
  have hscript : (assorted shuffled).sortedExports ⟨"script.ts", none⟩ = .ok [] := rfl
  simp only [extract, hfiles, List.mapM_cons, List.mapM_nil, documentFile, hmodule, hscript]
  decide +kernel

/-- Three exports have a record, that of the namespace is empty, and the order of the table does not
matter. -/
theorem assorted_moduleRecords :
    ∃ doc t, (assorted shuffled).extract withoutB = .ok doc ∧
      (assorted shuffled).ModuleRecords withoutB t doc ∧
      doc.modules.map (·.entryCount) = [1, 0, 1] ∧ (assorted inOrder).extract withoutB = .ok doc := by
  have hcounts := extract_assorted
  cases hdoc : (assorted shuffled).extract withoutB with
  | error e => simp [hdoc, Except.toOption] at hcounts
  | ok doc =>
    obtain ⟨t, ht⟩ := extract_moduleRecords assorted_valid hdoc
    -- The symbol of the module has no declaration, so it is not built.
    have hnot : ¬ ∃ x, t.Built ⟨0⟩ x := by
      intro hbuilt
      obtain ⟨-, x, hx⟩ := ht.built_iff.mp hbuilt
      have hroute : (assorted shuffled).route? ⟨0⟩ = none := by decide +kernel
      cases x <;> simp [RoutedTo, hroute] at hx
    exact ⟨doc, t, rfl, ht, by simpa [hdoc, Except.toOption] using hcounts,
      ht.permuted _ (assorted_permutedIn hnot)⟩

end SymbolGraph

end ApiDocs
