import ApiDocs.Proofs.Extract.Identity

/-!
# What a class extends

The names in the heritage clauses of a class are noted while other classes are still unbuilt, and
turned into classes at the end. What comes out is said here without the walk: each name is followed
through its aliases, and kept if the symbol it leads to was built as a class anywhere. Which symbols
were built is a matter of the graph, `SymbolGraph.Assembled`, so the order in which the walk came to
them plays no part.

## Main definitions

* `RefTable.classOf?`: the class that a symbol was built as.
* `SymbolGraph.HeritageLinked`: every class extends what its heritage clauses lead to.
-/

namespace ApiDocs

/-- The class that a reference leads to. -/
def RefTarget.class? : RefTarget → Option ClassId
  | .toClass c => some c
  | .toEnum _ => none

theorem RefTarget.class?_eq_some_iff {x : RefTarget} {c : ClassId} :
    x.class? = some c ↔ x = .toClass c := by
  cases x <;> simp [RefTarget.class?]

/-! ## The class of a symbol -/

namespace RefTable

variable {g : SymbolGraph} {t : RefTable SymbolId} {id : SymbolId} {c : ClassId}

/-- The class that a symbol was built as. -/
def classOf? (t : RefTable SymbolId) (id : SymbolId) : Option ClassId :=
  t.records.toList.findSome? fun r => if r.1 = id then r.2.target.bind RefTarget.class? else none

theorem built_of_classOf? (h : t.classOf? id = some c) : t.Built id (.toClass c) := by
  obtain ⟨⟨id', d⟩, hmem, hd⟩ := List.exists_of_findSome?_eq_some h
  obtain ⟨i, hi⟩ := List.mem_iff_getElem?.mp hmem
  simp only [Array.getElem?_toList] at hi
  by_cases hid : id' = id
  · subst hid
    simp only [if_true, Option.bind_eq_some_iff, RefTarget.class?_eq_some_iff] at hd
    obtain ⟨x, hx, rfl⟩ := hd
    exact ⟨i, d, hi, hx⟩
  · simp [hid] at hd

theorem classOf?_eq_some_iff (h : t.Sound g) : t.classOf? id = some c ↔ t.Built id (.toClass c) := by
  refine ⟨built_of_classOf?, fun hb => ?_⟩
  cases hc : t.classOf? id with
  | none =>
    obtain ⟨i, d, hd, hx⟩ := hb
    have hmem : (id, d) ∈ t.records.toList := by
      simpa using Array.mem_of_getElem? hd
    have hnone := List.findSome?_eq_none_iff.mp hc (id, d) hmem
    simp [hx, RefTarget.class?] at hnone
  | some c' =>
    have hsame := hb.unique h (built_of_classOf? hc)
    injection hsame with hcc
    rw [hcc]

/-- The class that the reference at a position leads to. -/
def classAt? (t : RefTable SymbolId) (r : RefId) : Option ClassId :=
  ((t.get? r).bind (·.target)).bind RefTarget.class?

/-- The reference of a symbol leads to the class that the symbol was built as. -/
theorem Has.classAt?_eq (h : t.Sound g) {r : RefId} (hr : t.Has id r) :
    t.classAt? r = t.classOf? id := by
  obtain ⟨d, hd⟩ := hr
  have hget : (t.get? r).bind (·.target) = d.target := by simp [get?, hd]
  ext c
  simp only [classAt?, hget, classOf?_eq_some_iff h, Option.bind_eq_some_iff,
    RefTarget.class?_eq_some_iff]
  constructor
  · rintro ⟨x, hx, rfl⟩
    exact ⟨r.index, d, hd, hx⟩
  · rintro ⟨i, d', hd', hx⟩
    cases h.unique hd hd'
    cases hd.symm.trans hd'
    exact ⟨_, hx, rfl⟩

theorem filterMap_classAt? (h : t.Sound g) {ids : List SymbolId} {rs : List RefId}
    (hrs : List.Forall₂ t.Has ids rs) : rs.filterMap t.classAt? = ids.filterMap t.classOf? := by
  induction hrs with
  | nil => rfl
  | cons hr _ ih => simp only [List.filterMap_cons, hr.classAt?_eq h, ih]

end RefTable

/-! ## Bases in order -/

namespace WalkState

variable {refs : RefTable SymbolId} {id base : ClassId}

theorem extendList_extend (id base : ClassId) (d : ClassDoc) :
    (extend id base d).extendList =
      if base = id ∨ base ∈ d.extendList then d.extendList else d.extendList ++ [base] := by
  by_cases h : base = id ∨ base ∈ d.extendList
  · simp [extend, h]
  · have hnot : ¬ (base = id || decide (base ∈ d.extendList)) = true := by simpa using h
    simp [extend, h, hnot]

theorem linkedBase_of_none {d : ClassDoc} {r : RefId} (h : refs.classAt? r = none) :
    linkedBase refs id d r = d := by
  unfold linkedBase
  split
  next base ht => simp [RefTable.classAt?, ht, RefTarget.class?] at h
  next => rfl

theorem linkedBase_of_some {d : ClassDoc} {r : RefId} (h : refs.classAt? r = some base) :
    linkedBase refs id d r = extend id base d := by
  obtain ⟨x, hx, hxc⟩ := Option.bind_eq_some_iff.mp h
  rw [RefTarget.class?_eq_some_iff] at hxc
  simp [linkedBase, hx, hxc]

/-- Bases that were there stay in front; of the others each comes once, where it came first. -/
theorem extendList_linked (refs : RefTable SymbolId) (id : ClassId) (rs : List RefId) (d : ClassDoc) :
    (linked refs id rs d).extendList = d.extendList ++
      (((rs.filterMap refs.classAt?).filter (· ≠ id)).filter (· ∉ d.extendList)).eraseDups := by
  induction rs generalizing d with
  | nil => simp [linked_nil]
  | cons r rs ih =>
    rw [linked_cons, Function.comp_apply, ih]
    cases hbase : refs.classAt? r with
    | none => rw [linkedBase_of_none hbase, List.filterMap_cons_none hbase]
    | some base =>
      rw [linkedBase_of_some hbase, List.filterMap_cons_some hbase, extendList_extend]
      by_cases hid : base = id
      · simp [hid]
      by_cases hmem : base ∈ d.extendList
      · simp [hid, hmem]
      -- A base that is new is kept, and is passed over from then on.
      · simp only [hid, hmem, or_self, if_false, ne_eq, not_false_eq_true, decide_true,
          List.filter_cons_of_pos, List.eraseDups_cons, List.append_assoc, List.singleton_append,
          List.filter_filter]
        congr 3
        apply List.filter_congr
        intro c _
        by_cases hc : c = base <;> simp [hc]

end WalkState

/-! ## Heritage -/

namespace SymbolGraph

variable {g : SymbolGraph} {o : ExtractOptions} {t : RefTable SymbolId} {doc : Documentation}

/-- Every class extends what its heritage clauses lead to, where `s` is the end state of the walk. Its table says
what a symbol was built as, `s.refs.Built`, and a symbol was built as a class just if the walk comes to it. -/
structure HeritageLinked (g : SymbolGraph) (o : ExtractOptions) (s : WalkState) (doc : Documentation) : Prop where
  /-- Linking is all that comes after the walk. -/
  finished : s.finish = .ok { doc with modules := [] }
  class_iff : ∀ {id}, (∃ c, s.refs.Built id (.toClass c)) ↔
    g.Assembled o id ∧ ∃ kind, g.route? id = some (.toClass kind)
  classOf?_iff : ∀ {id c}, s.refs.classOf? id = some c ↔ s.refs.Built id (.toClass c)
  owner : ∀ c : ClassId, c.index < doc.classes.size ↔ ∃ id, s.refs.Built id (.toClass c)
  owner_unique : ∀ {id id' c}, s.refs.Built id (.toClass c) → s.refs.Built id' (.toClass c) → id = id'
  class_unique : ∀ {id c c'}, s.refs.Built id (.toClass c) → s.refs.Built id (.toClass c') → c = c'
  /-- The record that a symbol was built as is the record of that symbol, and of no other: what it was when the
  walk ended, but for what it extends. -/
  record : ∀ {id c}, s.refs.Built id (.toClass c) → ∃ d, doc.class? c = some d ∧ g.ClassOf s.refs id d ∧
    s.classes[c.index]? = some { d with extendList := [] }
  /-- The names in the clauses of the symbol, in order, are followed through aliases; those that lead to a class
  are the bases in its record, without the class itself and each at its first occurrence. -/
  bases : ∀ {id c d}, s.refs.Built id (.toClass c) → doc.class? c = some d → ∃ ends,
    List.Forall₂ g.LeadsTo (g.namedBases id) ends ∧
      d.extendList = ((ends.filterMap (·.bind s.refs.classOf?)).filter (· ≠ c)).eraseDups

/-- A symbol that was built as a class is declared. -/
theorem Documents.classOf?_eq_none (h : g.Documents o t doc) {id : SymbolId}
    (hid : (g.symbolAt id).declarations.isEmpty = true) : t.classOf? id = none := by
  cases hc : t.classOf? id with
  | none => rfl
  | some c =>
    obtain ⟨kind, hroute⟩ := h.routed (RefTable.built_of_classOf? hc)
    obtain ⟨k, hk, -⟩ := Option.map_eq_some_iff.mp hroute
    obtain ⟨d, hd, -⟩ := Option.map_eq_some_iff.mp hk
    have hmem := Symbol.mem_declarations_of_ownDeclaration hd
    rw [List.isEmpty_iff.mp hid] at hmem
    cases hmem

/-- Whether the end of a chain is declared need not be asked, since classes are. -/
theorem Documents.filterMap_heritageTarget (h : g.Documents o t doc) {bases : List SymbolId}
    (hresolves : ∀ b ∈ bases, g.Resolves o.maxAliasDepth b) :
    ∃ ends, List.Forall₂ g.LeadsTo bases ends ∧
      (bases.filterMap (g.heritageTarget o.maxAliasDepth)).filterMap t.classOf? =
        ends.filterMap (·.bind t.classOf?) := by
  induction bases with
  | nil => exact ⟨[], .nil, rfl⟩
  | cons b bases ih =>
    obtain ⟨r, hr⟩ := hresolves b (by simp)
    obtain ⟨ends, hends, heq⟩ := ih fun b hb => hresolves b (by simp [hb])
    refine ⟨r :: ends, .cons (leadsTo_of_resolveAlias hr) hends, ?_⟩
    cases r with
    | none => simp [heritageTarget, hr, heq]
    | some target =>
      by_cases hd : (g.symbolAt target).declarations.isEmpty = true
      · simp [heritageTarget, hr, hd, heq, h.classOf?_eq_none hd]
      · simp [heritageTarget, hr, hd, heq, List.filterMap_cons]

/-- **Heritage links are exact**, whenever the classes they lead to were built. -/
theorem extract_heritageLinked (hvalid : g.Valid) (hdoc : g.extract o = .ok doc) :
    ∃ mss s, (g.ownFiles.filter (g.accepts o)).mapM (g.documentFile o) {} = .ok (mss, s) ∧
      g.HeritageLinked o s doc := by
  obtain ⟨mss, s, hrun, hwalked⟩ := exists_walked hvalid hdoc
  have h := hwalked.documents
  refine ⟨mss, s, hrun, {
    finished := hwalked.finished
    class_iff := h.exists_class_iff
    classOf?_iff := RefTable.classOf?_eq_some_iff h.sound
    owner := fun c => h.holds_iff (.toClass c)
    owner_unique := h.injective
    class_unique := ?_
    record := hwalked.classRecord
    bases := ?_ }⟩
  · intro id c c' hb hb'
    injection hb.unique h.sound hb'
  · intro id c d hb hd
    obtain ⟨id', -, hb', -, hresolves, rs, hrs, hlinked⟩ := h.classes hd
    cases h.injective hb hb'
    obtain ⟨ends, hends, heq⟩ := h.filterMap_heritageTarget hresolves
    refine ⟨ends, hends, ?_⟩
    rw [hlinked, WalkState.extendList_linked, RefTable.filterMap_classAt? h.sound hrs, heritageOf, heq]
    simp

/-! ## A class with bases of all kinds -/

/-- The clauses of `A` name an alias of `Z`, `Z` itself, `A`, an alias without a target, an interface
nested in `Z` and one that is not exported. `Z` is built after `A`. -/
def manyBases : SymbolGraph where
  files := [⟨"lib.d.ts", none⟩, ⟨"a.ts", some ⟨0⟩⟩]
  symbols := #[
    { name := "a", flags := SymbolFlags.moduleBit, exports := .ofList [("A", ⟨1⟩), ("Z", ⟨2⟩)] },
    { name := "A", flags := SymbolFlags.classBit,
      declarations := [
        { kind := .classDecl, pos := default, heritage := [⟨3⟩, ⟨2⟩, ⟨1⟩, ⟨4⟩, ⟨5⟩, ⟨6⟩] }] },
    { name := "Z", flags := SymbolFlags.classBit, exports := .ofList [("Inner", ⟨5⟩)],
      declarations := [{ kind := .classDecl, pos := default }] },
    { name := "B", flags := SymbolFlags.aliasBit, aliasOf := some ⟨2⟩ },
    { name := "Gone", flags := SymbolFlags.aliasBit },
    { name := "Inner", flags := SymbolFlags.interfaceBit,
      declarations := [{ kind := .interfaceDecl, pos := default }] },
    { name := "Outside", flags := SymbolFlags.interfaceBit,
      declarations := [{ kind := .interfaceDecl, pos := default }] }]

theorem manyBases_valid : manyBases.Valid := by decide +kernel

theorem extract_manyBases :
    (manyBases.extract {}).toOption.map (fun doc => doc.classes.toList.map (·.extendList)) =
      some [[⟨1⟩, ⟨2⟩], [], []] := by
  have hfiles : manyBases.ownFiles.filter (manyBases.accepts {}) = [⟨"a.ts", some ⟨0⟩⟩] := rfl
  have hexports : manyBases.sortedExports ⟨"a.ts", some ⟨0⟩⟩ = .ok [("A", ⟨1⟩), ("Z", ⟨2⟩)] := by
    change Except.ok (List.mergeSort [("A", (⟨1⟩ : SymbolId)), ("Z", ⟨2⟩)] fun a b => a.1 ≤ b.1) = _
    simp [List.mergeSort, List.MergeSort.Internal.splitInTwo]
  simp only [extract, hfiles, List.mapM_cons, List.mapM_nil, documentFile, hexports]
  decide +kernel

/-- The class has two bases, once each: the class that is built after it, and what is nested there. -/
theorem manyBases_heritageLinked :
    ∃ doc s, manyBases.extract {} = .ok doc ∧ manyBases.HeritageLinked {} s doc ∧
      doc.classes.toList.map (·.extendList) = [[⟨1⟩, ⟨2⟩], [], []] := by
  have hbases := extract_manyBases
  cases hdoc : manyBases.extract {} with
  | error e => simp [hdoc, Except.toOption] at hbases
  | ok doc =>
    obtain ⟨-, s, -, hlinked⟩ := extract_heritageLinked manyBases_valid hdoc
    exact ⟨doc, s, rfl, hlinked, by simpa [hdoc, Except.toOption] using hbases⟩

end SymbolGraph

end ApiDocs
