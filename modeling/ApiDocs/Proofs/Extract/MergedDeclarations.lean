import ApiDocs.Proofs.Extract.ModuleRecords
import ApiDocs.Proofs.Graph.Calls

/-!
# Merged declarations

A symbol may be declared as several things at once, such as an interface and a namespace. Its record is
that of one of its declarations. While declarations are attached one after the other, the first that
declares a value is kept as the value declaration, so the declaration that counts can be read off their
order: of kinds that may be merged, it is a namespace just if the first declaration is. A namespace has
no record of its own, hence what a namespace is merged with is documented only if it comes first.

## Main definitions

* `Symbol.Declared`: the declarations of the symbol were attached one after the other.
* `DeclarationKind.merged`: the kinds of declarations that may be merged.
* `SymbolGraph.DocumentsMerged`: what a documentation has of a symbol with merged declarations.
-/

namespace ApiDocs

/-- The kinds of declarations that may be merged. -/
def DeclarationKind.merged : List DeclarationKind :=
  [functionDecl, classDecl, interfaceDecl, enumDecl, variableDecl, moduleDecl]

/-- The kind of the first declaration. -/
def Symbol.firstKind (s : Symbol) : Option DeclarationKind := s.declarations.head?.map (·.kind)

/-- The declarations of the symbol were attached one after the other; what else it has may have been
changed meanwhile. -/
inductive Symbol.Declared : Symbol → Prop where
  | undeclared {s : Symbol} : s.declarations = [] → s.valueDeclaration = none → Declared s
  | attach {s : Symbol} (d : Declaration) : Declared s → Declared (GraphBuilder.attach d s)
  | change {s s' : Symbol} : Declared s → s'.declarations = s.declarations →
    s'.valueDeclaration = s.valueDeclaration → Declared s'

/-! ## The declaration that counts -/

namespace Symbol.Declared

variable {s : Symbol}

theorem valueDeclaration_eq (h : s.Declared) :
    s.valueDeclaration = s.declarations.findIdx? (·.kind.isValue) := by
  induction h with
  | undeclared hd hv => simp [hd, hv]
  | attach d _ ih => exact GraphBuilder.valueDeclaration_attach d ih
  | change _ hd hv ih => rw [hd, hv, ih]

theorem valueDeclaration?_eq (h : s.Declared) :
    s.valueDeclaration? = s.declarations.find? (·.kind.isValue) := by
  rw [Symbol.valueDeclaration?, h.valueDeclaration_eq, List.find?_eq_bind_findIdx?_getElem?]

/-- The declaration that counts is a namespace just if the first one is. -/
theorem ownDeclaration_kind_iff (h : s.Declared)
    (hkinds : ∀ d ∈ s.declarations, d.kind ∈ DeclarationKind.merged) :
    s.ownDeclaration.map (·.kind) = some .moduleDecl ↔ s.firstKind = some .moduleDecl := by
  have hvalue := h.valueDeclaration?_eq
  unfold Symbol.ownDeclaration Symbol.firstKind
  cases hd : s.declarations with
  | nil => simp [hvalue, hd]
  | cons first rest =>
    have hfirst : first.kind ∈ DeclarationKind.merged := hkinds first (by simp [hd])
    by_cases hinterface : first.kind = .interfaceDecl
    · -- An interface comes first. A namespace that is the value declaration gives way to it.
      cases hv : s.valueDeclaration? with
      | none => simp [hinterface]
      | some value => by_cases hm : value.kind = .moduleDecl <;> simp [hinterface, hm]
    · -- Anything else that comes first is the value declaration.
      have hisValue : first.kind.isValue = true := by
        simp only [DeclarationKind.merged, List.mem_cons, List.not_mem_nil, or_false] at hfirst
        rcases hfirst with hk | hk | hk | hk | hk | hk <;> simp_all [DeclarationKind.isValue]
      have hown : s.valueDeclaration? = some first := by simp [hvalue, hd, hisValue]
      simp [hown, hinterface]

/-- A builder leaves the declarations of a symbol in the order in which they were attached. -/
theorem isKept : Symbol.IsKept Symbol.Declared where
  fresh _ _ := .undeclared rfl rfl
  attach d hs := .attach d hs
  update hs hd hv _ _ := .change hs hd hv
  aliasTo _ hs := .change hs rfl rfl

end Symbol.Declared

/-! ## Records -/

theorem ModuleDoc.isEmpty_eq_false_iff {m : ModuleDoc} : m.isEmpty = false ↔ m.entryCount ≠ 0 := by
  simp [ModuleDoc.isEmpty, ModuleDoc.entryCount]

namespace SymbolGraph

/-- What a documentation has of a symbol with merged declarations. -/
structure DocumentsMerged (g : SymbolGraph) (o : ExtractOptions) (doc : Documentation)
    (id : SymbolId) : Prop where
  /-- The declaration that counts is a namespace just if the first one is. -/
  own_iff : (g.viewAt id).kind = some .moduleDecl ↔ (g.symbolAt id).firstKind = some .moduleDecl
  /-- There is a record if a file that is accepted exports the symbol, under whatever name and through
  whatever aliases. -/
  recorded : ∀ file ∈ g.ownFiles, g.accepts o file = true → ∀ m ∈ file.symbol,
    ∀ entry ∈ (g.symbolAt m).exports.entries, g.LeadsTo entry.2 (some id) →
      ∃ (i : Nat) (r : ModuleDoc), (g.documented o)[i]? = some id ∧ doc.modules[i]? = some r
  /-- The records of the symbol are empty just if a namespace comes first. -/
  nonEmpty_iff : ∀ {i : Nat} {r : ModuleDoc}, (g.documented o)[i]? = some id → doc.modules[i]? = some r →
    (r.isEmpty = false ↔ (g.symbolAt id).firstKind ≠ some .moduleDecl)

variable {g : SymbolGraph} {o : ExtractOptions} {t : RefTable SymbolId} {doc : Documentation}
  {id : SymbolId}

/-- A symbol that an accepted file exports is one of those with a record. -/
theorem mem_documented_of_leadsTo (hg : g.Closed) (hdoc : g.extract o = .ok doc) {file : SourceFile}
    (hfile : file ∈ g.ownFiles.filter (g.accepts o)) {entry : String × SymbolId}
    (hentry : entry ∈ g.exportEntries file) (hleads : g.LeadsTo entry.2 (some id))
    (hdeclared : (g.symbolAt id).declarations ≠ []) : id ∈ g.documented o := by
  obtain ⟨x, hx⟩ := resolveAlias_ok_of_extract hg hdoc file hfile entry hentry
  obtain rfl := (leadsTo_of_resolveAlias hx).unique hleads
  have hsome : (g.viewAt id).declaration.isNone = false :=
    Option.isNone_eq_false_iff.mpr
      (Option.isSome_iff_ne_none.mpr (mt Symbol.ownDeclaration_eq_none_iff.mp hdeclared))
  refine mem_documented_of_entry hfile hentry ?_
  simp [exportTarget, hx, hsome]

/-- Of kinds that may be merged, only namespaces are not documented. -/
theorem ModuleOf.isEmpty_eq_false_iff {m : ModuleDoc} (h : g.ModuleOf t [id] m)
    (hkind : ∃ kind ∈ (g.viewAt id).kind, kind ∈ DeclarationKind.merged) :
    m.isEmpty = false ↔ (g.viewAt id).kind ≠ some .moduleDecl := by
  obtain ⟨kind, hk, hmerged⟩ := hkind
  rw [ModuleDoc.isEmpty_eq_false_iff, h.entryCount_eq, Option.mem_def.mp hk]
  cases kind <;> simp_all [DeclarationKind.merged, DeclarationKind.documented]

/-- **What a namespace is merged with is documented just if it does not come second.** If the
declarations of a symbol are of kinds that may be merged and were attached one after the other, each
export of the symbol has a record. The record is empty just if the declaration that counts is a
namespace, and this is so just if the first declaration is one. -/
theorem extract_documentsMerged (hvalid : g.Valid) (hdoc : g.extract o = .ok doc)
    (hattached : (g.symbolAt id).Declared) (hdeclared : (g.symbolAt id).declarations ≠ [])
    (hkinds : ∀ d ∈ (g.symbolAt id).declarations, d.kind ∈ DeclarationKind.merged) :
    g.DocumentsMerged o doc id := by
  obtain ⟨t, ht⟩ := exists_documents hvalid hdoc
  have hown : (g.viewAt id).kind = some .moduleDecl ↔
      (g.symbolAt id).firstKind = some .moduleDecl :=
    hattached.ownDeclaration_kind_iff hkinds
  refine ⟨hown, ?_, ?_⟩
  · intro file hfile haccepts m hm entry hentry hleads
    have hsorted : entry ∈ g.exportEntries file := by
      simpa [exportEntries, Option.mem_def.mp hm] using hentry
    have hmem : id ∈ g.documented o :=
      mem_documented_of_leadsTo (valid_iff_closed.mp hvalid) hdoc
        (List.mem_filter.mpr ⟨hfile, haccepts⟩) hsorted hleads hdeclared
    obtain ⟨i, hi, hget⟩ := List.mem_iff_getElem.mp hmem
    have hlt : i < doc.modules.length := ht.modules.length_eq ▸ hi
    exact ⟨i, doc.modules[i], by simp [hi, hget], by simp [hlt]⟩
  · intro i r hi hr
    obtain ⟨d, hd⟩ := Option.ne_none_iff_exists'.mp (mt Symbol.ownDeclaration_eq_none_iff.mp hdeclared)
    have hkind : ∃ kind ∈ (g.viewAt id).kind, kind ∈ DeclarationKind.merged :=
      ⟨d.kind, by simp [SymbolView.kind, viewAt, Symbol.view, hd],
        hkinds d (Symbol.mem_declarations_of_ownDeclaration hd)⟩
    rw [(ht.moduleOf hi hr).isEmpty_eq_false_iff hkind, ne_eq, hown]

/-! ## An enum and a namespace -/

/-- A module that exports a symbol with declarations of some kinds. -/
def exportingCalls (kinds : List DeclarationKind) : List BuilderCall :=
  [.addModule "a.ts", .addSymbol "E" (SymbolFlags.enumBit ∪ SymbolFlags.moduleBit)] ++
    kinds.map (fun kind => .declare ⟨2⟩ { kind, pos := default }) ++ [.exportAs ⟨1⟩ "E" ⟨2⟩]

/-- The builder after these calls. -/
def exporting (kinds : List DeclarationKind) : GraphBuilder :=
  (GraphBuilder.start.runAll? (exportingCalls kinds)).getD {}

theorem exporting_declared {kinds : List DeclarationKind} {id : SymbolId}
    (h : (GraphBuilder.start.runAll? (exportingCalls kinds)).isSome)
    (hid : id.Within (exporting kinds).extent) :
    ((exporting kinds).graph.symbolAt id).Declared := by
  obtain ⟨b, hb⟩ := Option.isSome_iff_exists.mp h
  have heq : exporting kinds = b := by simp [exporting, hb]
  rw [heq] at hid ⊢
  exact Symbol.Declared.isKept.of_runAll? hb _ (Array.mem_of_getElem? (symbol?_eq_some hid))

/-- The enum comes first. -/
def enumFirst : GraphBuilder := exporting [.enumDecl, .moduleDecl]

/-- The namespace comes first. -/
def namespaceFirst : GraphBuilder := exporting [.moduleDecl, .enumDecl]

theorem extract_enumFirst :
    (enumFirst.graph.extract {}).toOption.map (fun doc => doc.modules.map (·.isEmpty)) =
      some [false] := by
  have hfiles : enumFirst.graph.ownFiles.filter (enumFirst.graph.accepts {}) =
      [⟨"a.ts", some ⟨1⟩⟩] := by decide
  have hexports : (enumFirst.graph.symbol? ⟨1⟩).map (·.exports.entries) = some [("E", ⟨2⟩)] := by decide
  rw [extract_of_sole hfiles hexports]
  decide +kernel

theorem extract_namespaceFirst :
    (namespaceFirst.graph.extract {}).toOption.map (fun doc => doc.modules.map (·.isEmpty)) =
      some [true] := by
  have hfiles : namespaceFirst.graph.ownFiles.filter (namespaceFirst.graph.accepts {}) =
      [⟨"a.ts", some ⟨1⟩⟩] := by decide
  have hexports : (namespaceFirst.graph.symbol? ⟨1⟩).map (·.exports.entries) = some [("E", ⟨2⟩)] := by decide
  rw [extract_of_sole hfiles hexports]
  decide

/-- An enum with a namespace after it has a record, which is not empty. -/
theorem enumFirst_documentsMerged :
    ∃ doc, enumFirst.graph.extract {} = .ok doc ∧ enumFirst.graph.DocumentsMerged {} doc ⟨2⟩ ∧
      doc.modules.map (·.isEmpty) = [false] := by
  have hmodules := extract_enumFirst
  cases hdoc : enumFirst.graph.extract {} with
  | error e => simp [hdoc, Except.toOption] at hmodules
  | ok doc =>
    have hattached : (enumFirst.graph.symbolAt ⟨2⟩).Declared :=
      exporting_declared (by decide) (by change 2 < enumFirst.graph.symbols.size; decide)
    exact ⟨doc, rfl,
      extract_documentsMerged (by decide) hdoc hattached (by decide) (by decide),
      by simpa [hdoc, Except.toOption] using hmodules⟩

/-- **An enum with a namespace before it is lost.** Its declarations were attached one after the other
and are of kinds that may be merged, the symbol is no alias, and one declaration is not a namespace. But
the namespace counts, and the record is empty. -/
theorem namespaceFirst_lost :
    (namespaceFirst.graph.symbolAt ⟨2⟩).Declared ∧
      (namespaceFirst.graph.symbolAt ⟨2⟩).isAlias = false ∧
      (namespaceFirst.graph.symbolAt ⟨2⟩).declarations.map (·.kind) = [.moduleDecl, .enumDecl] ∧
      (namespaceFirst.graph.viewAt ⟨2⟩).kind = some .moduleDecl ∧
      ∃ doc, namespaceFirst.graph.extract {} = .ok doc ∧ doc.modules.map (·.isEmpty) = [true] := by
  have hattached : (namespaceFirst.graph.symbolAt ⟨2⟩).Declared :=
    exporting_declared (by decide)
      (by change 2 < namespaceFirst.graph.symbols.size; decide)
  refine ⟨hattached, by decide, by decide, by decide, ?_⟩
  have hmodules := extract_namespaceFirst
  cases hdoc : namespaceFirst.graph.extract {} with
  | error e => simp [hdoc, Except.toOption] at hmodules
  | ok doc => exact ⟨doc, rfl, by simpa [hdoc, Except.toOption] using hmodules⟩

end SymbolGraph

end ApiDocs
