import ApiDocs.Proofs.Docs.WellFormed
import ApiDocs.Proofs.Extract.Assembly
import ApiDocs.Proofs.Extract.Linking

/-!
# The documentation of a closed graph

A walk over a closed graph fails only for the causes about aliases. Otherwise it leaves a table of
references and a documentation that fit together: `Documents` says which symbol each record is for,
and that it is the record of that symbol.

## Main definitions

* `SymbolGraph.documented`: the symbols that get a module record, in order.
* `SymbolGraph.Assembled`: the symbols that a walk comes to.
* `SymbolGraph.Documents`: a documentation and the symbols its records are for.
* `SymbolGraph.Walked`: a documentation and the end state of the walk that it comes from.
-/

namespace ApiDocs

namespace SymbolGraph

variable (g : SymbolGraph) (o : ExtractOptions)

/-- The exports of a file in the order of their names. -/
def exportEntries (file : SourceFile) : List (String × SymbolId) :=
  match file.symbol with
  | none => []
  | some id => (g.symbolAt id).exports.entries.mergeSort fun a b => a.1 ≤ b.1

/-- The declared symbol that an export leads to, if there is one. -/
def exportTarget (entry : String × SymbolId) : Option SymbolId :=
  match g.resolveAlias o.maxAliasDepth entry.1 entry.2 with
  | .ok (some id) => if (g.viewAt id).declaration.isNone then none else some id
  | _ => none

/-- The symbols that get a module record, in the order of files and of names. -/
def documented : List SymbolId :=
  (g.ownFiles.filter (g.accepts o)).flatMap fun f =>
    (g.exportEntries f).flatMap fun entry => (g.exportTarget o entry).toList

/-- The symbols that a walk comes to: those that are exported, and those nested in classes. -/
inductive Assembled : SymbolId → Prop where
  | exported {id : SymbolId} : id ∈ g.documented o → Assembled id
  | nested {parent id : SymbolId} {kind : ClassKind} : Assembled parent →
    g.route? parent = some (.toClass kind) → id ∈ g.nestedIn parent → Assembled id

end SymbolGraph

namespace Documentation

/-- The class or enum is there. -/
def Holds (d : Documentation) : RefTarget → Prop
  | .toClass c => c.index < d.classes.size
  | .toEnum e => e.index < d.enums.size

end Documentation

namespace SymbolGraph

/-- Every record of the documentation is the record of the symbol that the table has it for. -/
structure Documents (g : SymbolGraph) (o : ExtractOptions) (t : RefTable SymbolId)
    (doc : Documentation) : Prop where
  sound : t.Sound g
  refs : doc.refs = t.refs
  holds : ∀ {id x}, t.Built id x → doc.Holds x
  routed : ∀ {id x}, t.Built id x → g.RoutedTo id x
  injective : ∀ {id id' x}, t.Built id x → t.Built id' x → id = id'
  classes : ∀ {c : ClassId} {d : ClassDoc}, doc.classes[c.index]? = some d →
    ∃ id, g.Assembled o id ∧ t.Built id (.toClass c) ∧ g.ClassOf t id d ∧
      (∀ b ∈ g.namedBases id, g.Resolves o.maxAliasDepth b) ∧
      ∃ rs, List.Forall₂ t.Has (g.heritageOf o.maxAliasDepth id) rs ∧
        d.extendList = (WalkState.linked t c rs { d with extendList := [] }).extendList
  enums : ∀ {e : EnumId} {d : EnumDoc}, doc.enums[e.index]? = some d →
    ∃ id, g.Assembled o id ∧ t.Built id (.toEnum e) ∧ g.EnumOf t id d
  modules : List.Forall₂ (fun id m => g.ModuleOf t [id] m) (g.documented o) doc.modules

variable {g : SymbolGraph} {o : ExtractOptions}

/-! ## Exports -/

theorem sortedExports_eq_ok (hg : g.Closed) {file : SourceFile} (hf : file ∈ g.files) :
    g.sortedExports file = .ok (g.exportEntries file) := by
  unfold sortedExports exportEntries
  cases hs : file.symbol with
  | none => rfl
  | some id => simp only [getSymbol_eq_ok (hg.files file hf id hs)]; rfl

theorem sortedExports_eq_singleton {path : String} {id : SymbolId}
    {entry : String × SymbolId} (h : (g.symbol? id).map (·.exports.entries) = some [entry]) :
    g.sortedExports ⟨path, some id⟩ = .ok [entry] := by
  obtain ⟨s, hs, hentries⟩ := Option.map_eq_some_iff.mp h
  simp [sortedExports, getSymbol, hs, hentries, bind, Except.bind, pure, Except.pure]

theorem within_of_mem_exportEntries (hg : g.Closed) {file : SourceFile} (hf : file ∈ g.files)
    {entry : String × SymbolId} (he : entry ∈ g.exportEntries file) : entry.2.Within g.extent := by
  unfold exportEntries at he
  split at he
  · simp at he
  next id hs =>
    have hmem := (List.mem_mergeSort).mp he
    exact (hg.symbolAt (hg.files file hf id hs)).exports _ (List.mem_map_of_mem hmem)

/-- Growth of the walk over a whole graph. -/
def runGrowth (g : SymbolGraph) (o : ExtractOptions) : Growth WalkState :=
  Walk.assemblyGrowth g o.maxAliasDepth (g.Assembled o) (g.symbols.size + 1)

/-- One export gives one record for the declared symbol it leads to. -/
theorem documentExport_keeps (hg : g.Closed) {entry : String × SymbolId}
    (h : entry.2.Within g.extent) (hA : ∀ id ∈ g.exportTarget o entry, g.Assembled o id) :
    (runGrowth g o).Keeps (ExtractError.OfAlias o.maxAliasDepth) (g.documentExport o entry)
      fun ms s => List.Forall₂ (fun id m => g.ModuleOf s.refs [id] m)
        (g.exportTarget o entry).toList ms := by
  intro s hs
  have hnone : g.exportTarget o entry = none →
      (runGrowth g o).Good s ∧ (runGrowth g o).Le s s ∧
        List.Forall₂ (fun id m => g.ModuleOf s.refs [id] m) (g.exportTarget o entry).toList [] :=
    fun ho => ⟨hs, (runGrowth g o).refl s, by simp [ho]⟩
  unfold documentExport
  rcases resolveAlias_outcome hg o.maxAliasDepth entry.1 h with ⟨r, hr, hin⟩ | ⟨e, he, hcause⟩
  · refine yields_bind (yields_lift_ok hr ?_)
    cases r with
    | none => exact yields_pure (hnone (by simp only [exportTarget, hr]))
    | some id =>
      have hid := hin id rfl
      refine yields_bind (yields_lift_ok (view_eq_ok hid) ?_)
      split
      next hd => exact yields_pure (hnone (by simp only [exportTarget, hr, hd, if_true]))
      next hd =>
        have htarget : g.exportTarget o entry = some id := by
          simp only [exportTarget, hr, hd, Bool.false_eq_true, if_false]
        have hstart : g.ModuleOf s.refs [] {} := ⟨.nil, .nil, .nil, .nil, .nil⟩
        have hadds : Walk.Adds g o.maxAliasDepth (g.Assembled o) (g.symbols.size + 1) id _ :=
          Walk.assemble_adds hg (fun hp hroute n hn => .nested hp hroute hn) _ id (hA id htarget) hid
        refine yields_bind ((hadds [] {} s hs hstart).mono ?_)
        rintro m s₁ ⟨hs₁, hle, hm⟩
        refine yields_pure ⟨hs₁, hle, ?_⟩
        rw [htarget]
        exact .cons hm .nil
  · exact yields_bind (yields_lift (fun a ha => by rw [he] at ha; cases ha)
      fun e' he' => by rw [he] at he'; cases he'; exact hcause)

theorem moduleOf_stable (ids : List SymbolId) (ms : List ModuleDoc) :
    (runGrowth g o).Stable fun s => List.Forall₂ (fun id m => g.ModuleOf s.refs [id] m) ids ms :=
  fun _ _ hle hms => hms.imp fun _ _ hm => hm.mono hle.refs

/-- One file gives one record for each declared symbol that its exports lead to. -/
theorem documentFile_keeps (hg : g.Closed) {file : SourceFile} (hf : file ∈ g.files)
    (hA : ∀ entry ∈ g.exportEntries file, ∀ id ∈ g.exportTarget o entry, g.Assembled o id) :
    (runGrowth g o).Keeps (ExtractError.OfAlias o.maxAliasDepth) (g.documentFile o file)
      fun ms s => List.Forall₂ (fun id m => g.ModuleOf s.refs [id] m)
        ((g.exportEntries file).flatMap fun entry => (g.exportTarget o entry).toList) ms := by
  intro s hs
  refine yields_bind (yields_lift_ok (sortedExports_eq_ok hg hf) ?_)
  have hloop := Growth.mapM (G := runGrowth g o) (fun _ _ => moduleOf_stable _ _)
    (fun entry he => documentExport_keeps hg (within_of_mem_exportEntries hg hf he) (hA entry he)) s hs
  refine yields_bind (hloop.mono ?_)
  rintro mss s₁ ⟨hs₁, hle, hmss⟩
  exact yields_pure ⟨hs₁, hle, forall₂_flatten hmss⟩

/-! ## The walk as a whole -/

theorem mem_documented_of_entry {file : SourceFile} (hf : file ∈ g.ownFiles.filter (g.accepts o))
    {entry : String × SymbolId} (he : entry ∈ g.exportEntries file) {id : SymbolId}
    (hid : id ∈ g.exportTarget o entry) : id ∈ g.documented o := by
  refine List.mem_flatMap.mpr ⟨file, hf, List.mem_flatMap.mpr ⟨entry, he, ?_⟩⟩
  simpa using hid

theorem sound_empty (g : SymbolGraph) : WalkState.Sound g {} where
  refs := ⟨by simp [RefTable.empty], by simp [RefTable.empty]⟩
  holds := by simp [RefTable.Built, RefTable.empty]
  routed := by simp [RefTable.Built, RefTable.empty]
  injective := by simp [RefTable.Built, RefTable.empty]
  onto := by rintro (c | e) hx <;> simp [WalkState.Holds] at hx
  pending := by simp

/-- The walk over all files. -/
theorem documentFiles_yields (hg : g.Closed) :
    Yields (ExtractError.OfAlias o.maxAliasDepth)
      ((g.ownFiles.filter (g.accepts o)).mapM (g.documentFile o)) {} fun mss s =>
        s.Sound g ∧ WalkState.Grows g o.maxAliasDepth (g.Assembled o) {} s ∧
          List.Forall₂ (fun id m => g.ModuleOf s.refs [id] m) (g.documented o) mss.flatten := by
  have hgood : (runGrowth g o).Good {} := ⟨sound_empty g, by simp⟩
  have hloop := Growth.mapM (G := runGrowth g o) (l := g.ownFiles.filter (g.accepts o))
    (fun _ _ => moduleOf_stable _ _)
    (fun file hf => documentFile_keeps hg (List.mem_of_mem_drop (List.mem_filter.mp hf).1)
      fun entry he id hid => .exported (mem_documented_of_entry hf he hid)) {} hgood
  refine hloop.mono ?_
  rintro mss s ⟨hs, hle, hmss⟩
  exact ⟨hs.1, hle, forall₂_flatten hmss⟩

/-- What a class extends is not part of the record of its symbol. -/
theorem ClassOf.withBases {t : RefTable SymbolId} {id : SymbolId} {d : ClassDoc}
    (h : g.ClassOf t id d) (bases : List ClassId) : g.ClassOf t id { d with extendList := bases } :=
  ⟨h.name, h.kind, h.pos, h.doc, h.construct, h.body, h.exports⟩

/-- What a walk leaves is documented once bases are linked. -/
theorem documents_of_walk {s : WalkState} (hs : s.Sound g)
    (hgrows : WalkState.Grows g o.maxAliasDepth (g.Assembled o) {} s) {modules : List ModuleDoc}
    (hmodules : List.Forall₂ (fun id m => g.ModuleOf s.refs [id] m) (g.documented o) modules)
    {classes : Array ClassDoc} (hsize : classes.size = s.classes.size)
    (hget : ∀ c : ClassId, classes[c.index]? =
      (s.classes[c.index]?).map (WalkState.linked s.refs c (s.noted c))) :
    g.Documents o s.refs { modules, classes, enums := s.enums, refs := s.refs.refs } := by
  refine ⟨hs.refs, rfl, ?_, hs.routed, hs.injective, ?_, ?_, hmodules⟩
  · intro id x hb
    have hx := hs.holds hb
    cases x with
    | toClass c => simpa [Documentation.Holds, WalkState.Holds, hsize] using hx
    | toEnum e => exact hx
  · intro c d hd
    obtain ⟨d₀, hd₀, rfl⟩ := Option.map_eq_some_iff.mp ((hget c).symm.trans hd)
    obtain ⟨id, hA, hb, hcomplete⟩ := hgrows.newClass (Nat.zero_le _) hd₀
    obtain ⟨heq, -⟩ := WalkState.linked_eq s.refs c (s.noted c) d₀
    refine ⟨id, hA, hb, ?_, hcomplete.resolves, s.noted c, hcomplete.heritage, ?_⟩
    · rw [heq]
      exact hcomplete.record.withBases _
    · have hbare : { WalkState.linked s.refs c (s.noted c) d₀ with extendList := [] } = d₀ := by
        rw [heq, ← hcomplete.unlinked]
      rw [hbare]
  · exact fun hd => hgrows.newEnum (Nat.zero_le _) hd

/-- What a walk leaves is the documentation once bases are linked. -/
theorem extract_eq_ok {mss : List (List ModuleDoc)} {s : WalkState} {ended : Documentation}
    (hrun : (g.ownFiles.filter (g.accepts o)).mapM (g.documentFile o) {} = .ok (mss, s))
    (hfinish : s.finish = .ok ended) : g.extract o = .ok { ended with modules := mss.flatten } := by
  simp only [extract, StateT.run, hrun]
  change (s.finish >>= _) = _
  rw [hfinish]
  rfl

/-- The documentation is what a walk with the end state `s` comes to. -/
structure Walked (g : SymbolGraph) (o : ExtractOptions) (s : WalkState) (doc : Documentation) : Prop where
  grows : WalkState.Grows g o.maxAliasDepth (g.Assembled o) {} s
  /-- Linking is all that comes after the walk. -/
  finished : s.finish = .ok { doc with modules := [] }
  linked : ∀ c : ClassId, doc.class? c = (s.classes[c.index]?).map (WalkState.linked s.refs c (s.noted c))
  documents : g.Documents o s.refs doc

/-- Extraction from a closed graph walks to an end and links what the walk left, or fails for a cause about
aliases. -/
theorem extract_walks (hg : g.Closed) (o : ExtractOptions) :
    (∃ mss s doc, (g.ownFiles.filter (g.accepts o)).mapM (g.documentFile o) {} = .ok (mss, s) ∧
      g.extract o = .ok doc ∧ g.Walked o s doc) ∨
      ∃ e, g.extract o = .error e ∧ e.OfAlias o.maxAliasDepth := by
  have hwalk := documentFiles_yields (o := o) hg
  cases hrun : (g.ownFiles.filter (g.accepts o)).mapM (g.documentFile o) {} with
  | error e =>
    refine .inr ⟨e, ?_, hwalk.of_error hrun⟩
    simp only [extract, StateT.run, hrun]
    rfl
  | ok r =>
    obtain ⟨mss, s⟩ := r
    obtain ⟨hs, hgrows, hmodules⟩ := hwalk.of_ok hrun
    obtain ⟨classes, hfinish, hsize, hget⟩ := WalkState.finish_eq_ok hs
    exact .inl ⟨mss, s, _, rfl, extract_eq_ok hrun hfinish, hgrows, hfinish, hget,
      documents_of_walk hs hgrows hmodules hsize hget⟩

/-- **Extraction from a closed graph** gives a documentation in which every record is the record of
its symbol, or fails for a cause about aliases. -/
theorem extract_outcome (hg : g.Closed) (o : ExtractOptions) :
    (∃ doc t, g.extract o = .ok doc ∧ g.Documents o t doc) ∨
      ∃ e, g.extract o = .error e ∧ e.OfAlias o.maxAliasDepth := by
  rcases extract_walks hg o with ⟨-, s, doc, -, hdoc, hwalked⟩ | herror
  · exact .inl ⟨doc, s.refs, hdoc, hwalked.documents⟩
  · exact .inr herror

/-- Extraction from a valid graph gives a documentation or fails because of a chain of aliases. -/
theorem extract_cases (hvalid : g.Valid) (o : ExtractOptions) :
    (∃ doc, g.extract o = .ok doc) ∨
      (∃ name chain, g.extract o = .error (.aliasCycle name chain)) ∨
      ∃ name, g.extract o = .error (.aliasDepthExceeded name o.maxAliasDepth) := by
  rcases extract_outcome (valid_iff_closed.mp hvalid) o with ⟨doc, -, hdoc, -⟩ | ⟨e, he, hcause⟩
  · exact .inl ⟨doc, hdoc⟩
  · cases hcause with
    | cycle name chain => exact .inr (.inl ⟨name, chain, he⟩)
    | depth name => exact .inr (.inr ⟨name, he⟩)

/-- There is a walk behind every documentation of a valid graph. -/
theorem exists_walked (hvalid : g.Valid) {doc : Documentation} (hdoc : g.extract o = .ok doc) :
    ∃ mss s, (g.ownFiles.filter (g.accepts o)).mapM (g.documentFile o) {} = .ok (mss, s) ∧ g.Walked o s doc := by
  rcases extract_walks (valid_iff_closed.mp hvalid) o with ⟨mss, s, doc', hrun, h, hwalked⟩ | ⟨e, he, -⟩
  · cases h.symm.trans hdoc
    exact ⟨mss, s, hrun, hwalked⟩
  · cases he.symm.trans hdoc

theorem exists_documents (hvalid : g.Valid) {doc : Documentation} (hdoc : g.extract o = .ok doc) :
    ∃ t, g.Documents o t doc := by
  obtain ⟨-, s, -, hwalked⟩ := exists_walked hvalid hdoc
  exact ⟨s.refs, hwalked.documents⟩

/-! ## Graphs with a single export -/

section Sole

variable {path : String} {id : SymbolId} {entry : String × SymbolId}
  (hfiles : g.ownFiles.filter (g.accepts o) = [⟨path, some id⟩])
  (hexports : (g.symbol? id).map (·.exports.entries) = some [entry])

include hfiles hexports

/-- Extraction comes to what the only export leads to. -/
theorem assembled_of_sole {target : SymbolId} (htarget : target ∈ g.exportTarget o entry) : g.Assembled o target := by
  obtain ⟨s, hs, hentries⟩ := Option.map_eq_some_iff.mp hexports
  have hentry : entry ∈ g.exportEntries ⟨path, some id⟩ := by
    have hat : g.symbolAt id = s := by
      unfold symbolAt
      rw [hs]
      rfl
    refine List.mem_mergeSort.mpr ?_
    rw [hat, hentries]
    exact List.mem_singleton_self entry
  exact .exported (mem_documented_of_entry (hfiles ▸ List.mem_singleton_self _) hentry htarget)

/-- What is extracted are the records of the only export. -/
theorem extract_of_sole : g.extract o = (do
    let (modules, s) ← (g.documentExport o entry).run {}
    return { ← s.finish with modules }) := by
  have hsole : (g.documentFile o ⟨path, some id⟩).run {} = (g.documentExport o entry).run {} := by
    simp only [documentFile, sortedExports_eq_singleton hexports]
    change (fun p : List (List ModuleDoc) × WalkState => (p.1.flatten, p.2)) <$>
      (List.mapM (g.documentExport o) [entry]).run {} = _
    simp
  simp [extract, hfiles, hsole]

end Sole
/-! ## Records and symbols -/

namespace ModuleOf

variable {t : RefTable SymbolId} {ids : List SymbolId} {m : ModuleDoc} {id : SymbolId}

/-- A symbol routed to a class has a class in the module. -/
theorem exists_class (h : g.ModuleOf t ids m) (hid : id ∈ ids) {kind : ClassKind}
    (hr : g.route? id = some (.toClass kind)) :
    ∃ c, t.Built id (.toClass c) ∧ m.Lists c := by
  cases kind with
  | ofClass =>
    obtain ⟨c, hc, hb⟩ := forall₂_mem_left h.classes (List.mem_filter.mpr ⟨hid, by simp [hr]⟩)
    exact ⟨c, hb, .inl hc⟩
  | ofInterface =>
    obtain ⟨c, hc, hb⟩ := forall₂_mem_left h.interfaces (List.mem_filter.mpr ⟨hid, by simp [hr]⟩)
    exact ⟨c, hb, .inr hc⟩

/-- A symbol routed to an enum has an enum in the module. -/
theorem exists_enum (h : g.ModuleOf t ids m) (hid : id ∈ ids) (hr : g.route? id = some .toEnum) :
    ∃ e, t.Built id (.toEnum e) ∧ e ∈ m.enumList := by
  obtain ⟨e, he, hb⟩ := forall₂_mem_left h.enums (List.mem_filter.mpr ⟨hid, by simp [hr]⟩)
  exact ⟨e, hb, he⟩

/-- A class in the module is there for one of the symbols. -/
theorem exists_symbol_of_class (h : g.ModuleOf t ids m) {c : ClassId}
    (hc : m.Lists c) : ∃ id ∈ ids, t.Built id (.toClass c) := by
  rcases hc with hc | hc
  · obtain ⟨id, hid, hb⟩ := forall₂_mem_right h.classes hc
    exact ⟨id, (List.mem_filter.mp hid).1, hb⟩
  · obtain ⟨id, hid, hb⟩ := forall₂_mem_right h.interfaces hc
    exact ⟨id, (List.mem_filter.mp hid).1, hb⟩

/-- An enum in the module is there for one of the symbols. -/
theorem exists_symbol_of_enum (h : g.ModuleOf t ids m) {e : EnumId} (he : e ∈ m.enumList) :
    ∃ id ∈ ids, t.Built id (.toEnum e) := by
  obtain ⟨id, hid, hb⟩ := forall₂_mem_right h.enums he
  exact ⟨id, (List.mem_filter.mp hid).1, hb⟩

end ModuleOf

namespace Documents

variable {t : RefTable SymbolId} {doc : Documentation} (h : g.Documents o t doc)

include h

/-- The class of a symbol. -/
theorem class_of_built {id : SymbolId} {c : ClassId} (hb : t.Built id (.toClass c)) :
    ∃ d, doc.class? c = some d ∧ g.Assembled o id ∧ g.ClassOf t id d := by
  have hc : c.index < doc.classes.size := h.holds hb
  obtain ⟨id', hA, hb', hd, -⟩ := h.classes (Array.getElem?_eq_getElem hc)
  cases h.injective hb hb'
  exact ⟨_, Array.getElem?_eq_getElem hc, hA, hd⟩

/-- The enum of a symbol. -/
theorem enum_of_built {id : SymbolId} {e : EnumId} (hb : t.Built id (.toEnum e)) :
    ∃ d, doc.enum? e = some d ∧ g.Assembled o id ∧ g.EnumOf t id d := by
  have he : e.index < doc.enums.size := h.holds hb
  obtain ⟨id', hA, hb', hd⟩ := h.enums (Array.getElem?_eq_getElem he)
  cases h.injective hb hb'
  exact ⟨_, Array.getElem?_eq_getElem he, hA, hd⟩

/-- Every symbol that the walk comes to is one of those of a record that can be reached. -/
theorem exists_reaches {id : SymbolId} (hA : g.Assembled o id) :
    ∃ ids m, id ∈ ids ∧ g.ModuleOf t ids m ∧ doc.Reaches m := by
  induction hA with
  | @exported id hid =>
    obtain ⟨m, hm, hof⟩ := forall₂_mem_left h.modules hid
    exact ⟨[id], m, by simp, hof, .exported hm⟩
  | @nested parent id kind _ hr hid ih =>
    obtain ⟨ids, m, hmem, hof, hreach⟩ := ih
    obtain ⟨c, hb, hlists⟩ := hof.exists_class hmem hr
    obtain ⟨x, hx, -, hclass⟩ := h.class_of_built hb
    exact ⟨g.nestedIn parent, x.exports, hid, hclass.exports, .nested hreach hlists hx⟩

end Documents

/-- The class of a symbol is what the walk left of it, but for what it extends, which was nothing. -/
theorem Walked.classRecord {s : WalkState} {doc : Documentation} (h : g.Walked o s doc) {id : SymbolId} {c : ClassId}
    (hb : s.refs.Built id (.toClass c)) : ∃ d, doc.class? c = some d ∧ g.ClassOf s.refs id d ∧
      s.classes[c.index]? = some { d with extendList := [] } := by
  obtain ⟨d, hd, -, hclass⟩ := h.documents.class_of_built hb
  refine ⟨d, hd, hclass, ?_⟩
  obtain ⟨d₀, hd₀, rfl⟩ := Option.map_eq_some_iff.mp ((h.linked c).symm.trans hd)
  obtain ⟨_, -, -, hcomplete⟩ := h.grows.newClass (Nat.zero_le _) hd₀
  rw [(WalkState.linked_eq s.refs c (s.noted c) d₀).1, hd₀, ← hcomplete.unlinked]

/-! ## A class that nests, extends and mentions itself -/

/-- Two exports lead to one class, the second through an alias. -/
def selfNested : SymbolGraph where
  files := [⟨"lib.d.ts", none⟩, ⟨"a.ts", some ⟨0⟩⟩]
  symbols := #[
    { name := "a", flags := SymbolFlags.moduleBit, exports := .ofList [("A", ⟨1⟩), ("B", ⟨2⟩)] },
    { name := "A", flags := SymbolFlags.classBit, exports := .ofList [("Inner", ⟨1⟩)],
      members := .ofList [("self", ⟨3⟩)], typeId := some ⟨0⟩,
      declarations := [{ kind := .classDecl, pos := default, heritage := [⟨2⟩] }] },
    { name := "B", flags := SymbolFlags.aliasBit, aliasOf := some ⟨1⟩ },
    { name := "self", flags := SymbolFlags.propertyBit, typeId := some ⟨0⟩,
      declarations := [{ kind := .property, pos := default }] }]
  types := #[
    { flags := TypeFlags.objectBit, objectFlags := ObjectFlags.classBit, symbol := some ⟨1⟩,
      display := "A" }]

theorem selfNested_valid : selfNested.Valid := by decide +kernel

theorem sortedExports_selfNested :
    selfNested.sortedExports ⟨"a.ts", some ⟨0⟩⟩ = .ok [("A", ⟨1⟩), ("B", ⟨2⟩)] := by
  -- Sorting is by well-founded recursion, which does not evaluate by itself.
  change Except.ok (List.mergeSort [("A", (⟨1⟩ : SymbolId)), ("B", ⟨2⟩)] fun a b => a.1 ≤ b.1) = _
  simp [List.mergeSort, List.MergeSort.Internal.splitInTwo]

theorem exists_extract_selfNested : ∃ doc, selfNested.extract {} = .ok doc := by
  have hfiles : selfNested.ownFiles.filter (selfNested.accepts {}) = [⟨"a.ts", some ⟨0⟩⟩] := rfl
  have hok : (selfNested.extract {}).isOk = true := by
    simp only [extract, hfiles, List.mapM_cons, List.mapM_nil, documentFile, sortedExports_selfNested]
    decide +kernel
  cases hdoc : selfNested.extract {} with
  | ok doc => exact ⟨doc, rfl⟩
  | error e =>
    rw [hdoc] at hok
    cases hok

end SymbolGraph

end ApiDocs
