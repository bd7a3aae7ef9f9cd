import ApiDocs.Proofs.Extract.Extraction

/-!
# One identity for each symbol

A declared symbol may be mentioned by types, named in heritage clauses, nested in classes and exported
under several names, before or after it is built. In the documentation it has one reference, and one
class or enum if it was built at all. The table of references, which knows the symbol of each
reference, is what the statement is about: it is a bijection between its symbols and the references
of the documentation.

## Main definitions

* `SymbolGraph.OneIdentity`: references, classes and enums belong to symbols one to one.
-/

namespace ApiDocs.SymbolGraph

/-- The references, classes and enums of a documentation belong to symbols one to one. The table says
which symbol has which reference, `t.Has`, and what a symbol was built as, `t.Built`. -/
structure OneIdentity (g : SymbolGraph) (o : ExtractOptions) (t : RefTable SymbolId)
    (doc : Documentation) : Prop where
  refs : doc.refs = t.refs
  /-- Every reference has a symbol, and no symbol has two. -/
  owned : ∀ r : RefId, r.index < doc.refs.size ↔ ∃ id, t.Has id r
  symbol_unique : ∀ {id id' r}, t.Has id r → t.Has id' r → id = id'
  ref_unique : ∀ {id r r'}, t.Has id r → t.Has id r' → r = r'
  /-- The reference of a symbol has its name, and the target that the symbol was built as. -/
  record : ∀ {id r}, t.Has id r → id.Within g.extent ∧ ∃ d, doc.ref? r = some d ∧
    d.name = (g.symbolAt id).name ∧ ∀ x, d.target = some x ↔ t.Built id x
  /-- A symbol is built as a class or enum just if the walk comes to it and its declaration is one. -/
  class_iff : ∀ {id}, (∃ c, t.Built id (.toClass c)) ↔
    g.Assembled o id ∧ ∃ kind, g.route? id = some (.toClass kind)
  enum_iff : ∀ {id}, (∃ e, t.Built id (.toEnum e)) ↔
    g.Assembled o id ∧ g.route? id = some .toEnum
  /-- Symbols that were built, and classes and enums, belong together one to one. -/
  holds_iff : ∀ x, doc.Holds x ↔ ∃ id, t.Built id x
  built_unique : ∀ {id id' x}, t.Built id x → t.Built id' x → id = id'
  target_unique : ∀ {id x y}, t.Built id x → t.Built id y → x = y
  /-- Every record is that of its symbol: in it, types name symbols by their references. -/
  classes : ∀ {id c}, t.Built id (.toClass c) →
    ∃ d, doc.class? c = some d ∧ d.name = (g.symbolAt id).name ∧ g.ClassOf t id d
  enums : ∀ {id e}, t.Built id (.toEnum e) →
    ∃ d, doc.enum? e = some d ∧ d.name = (g.symbolAt id).name ∧ g.EnumOf t id d
  modules : List.Forall₂ (fun id m => g.ModuleOf t [id] m) (g.documented o) doc.modules
  /-- Two exports give one class or enum just if they lead to one symbol. -/
  export_class_iff : ∀ {i j : Nat} {id id' m m' c c'},
    (g.documented o)[i]? = some id → doc.modules[i]? = some m →
    (g.documented o)[j]? = some id' → doc.modules[j]? = some m' →
    m.Lists c → m'.Lists c' → (c = c' ↔ id = id')
  export_enum_iff : ∀ {i j : Nat} {id id' m m' e e'},
    (g.documented o)[i]? = some id → doc.modules[i]? = some m →
    (g.documented o)[j]? = some id' → doc.modules[j]? = some m' →
    e ∈ m.enumList → e' ∈ m'.enumList → (e = e' ↔ id = id')

variable {g : SymbolGraph} {o : ExtractOptions} {t : RefTable SymbolId} {doc : Documentation}

/-! ## References -/

theorem Documents.ref?_eq (h : g.Documents o t doc) (r : RefId) :
    doc.ref? r = (t.records[r.index]?).map (·.2) := by
  simp [Documentation.ref?, h.refs, RefTable.refs]

theorem Documents.index_lt_iff (h : g.Documents o t doc) (r : RefId) :
    r.index < doc.refs.size ↔ ∃ id, t.Has id r := by
  rw [h.refs, RefTable.refs, Array.size_map]
  constructor
  · exact fun hr => ⟨_, _, Array.getElem?_eq_getElem hr⟩
  · rintro ⟨id, hr⟩
    exact hr.index_lt

theorem Documents.record (h : g.Documents o t doc) {id : SymbolId} {r : RefId} (hr : t.Has id r) :
    id.Within g.extent ∧ ∃ d, doc.ref? r = some d ∧ d.name = (g.symbolAt id).name ∧
      ∀ x, d.target = some x ↔ t.Built id x := by
  obtain ⟨d, hd⟩ := hr
  obtain ⟨s, hs, hname⟩ := h.sound.named hd
  have hsymbol : g.symbolAt id = s := by simp [symbolAt, hs]
  refine ⟨within_of_symbol? hs, d, by simp [h.ref?_eq, hd], by rw [hsymbol, hname], fun x => ?_⟩
  constructor
  · exact fun hx => ⟨r.index, d, hd, hx⟩
  · rintro ⟨i, d', hd', hx⟩
    cases h.sound.unique hd hd'
    cases hd.symm.trans hd'
    exact hx

/-! ## Classes and enums -/

theorem Documents.exists_class_iff (h : g.Documents o t doc) {id : SymbolId} :
    (∃ c, t.Built id (.toClass c)) ↔
      g.Assembled o id ∧ ∃ kind, g.route? id = some (.toClass kind) := by
  constructor
  · rintro ⟨c, hb⟩
    obtain ⟨d, -, hA, -⟩ := h.class_of_built hb
    exact ⟨hA, h.routed hb⟩
  · rintro ⟨hA, kind, hr⟩
    obtain ⟨ids, m, hmem, hof, -⟩ := h.exists_reaches hA
    obtain ⟨c, hb, -⟩ := hof.exists_class hmem hr
    exact ⟨c, hb⟩

theorem Documents.exists_enum_iff (h : g.Documents o t doc) {id : SymbolId} :
    (∃ e, t.Built id (.toEnum e)) ↔ g.Assembled o id ∧ g.route? id = some .toEnum := by
  constructor
  · rintro ⟨e, hb⟩
    obtain ⟨d, -, hA, -⟩ := h.enum_of_built hb
    exact ⟨hA, h.routed hb⟩
  · rintro ⟨hA, hr⟩
    obtain ⟨ids, m, hmem, hof, -⟩ := h.exists_reaches hA
    obtain ⟨e, hb, -⟩ := hof.exists_enum hmem hr
    exact ⟨e, hb⟩

theorem Documents.holds_iff (h : g.Documents o t doc) (x : RefTarget) :
    doc.Holds x ↔ ∃ id, t.Built id x := by
  refine ⟨fun hx => ?_, fun ⟨id, hb⟩ => h.holds hb⟩
  cases x with
  | toClass c =>
    obtain ⟨id, -, hb, -⟩ := h.classes (Array.getElem?_eq_getElem hx)
    exact ⟨id, hb⟩
  | toEnum e =>
    obtain ⟨id, -, hb, -⟩ := h.enums (Array.getElem?_eq_getElem hx)
    exact ⟨id, hb⟩

/-- The record at a position is for the symbol at that position. -/
theorem Documents.moduleOf (h : g.Documents o t doc) {i : Nat} {id : SymbolId} {m : ModuleDoc}
    (hid : (g.documented o)[i]? = some id) (hm : doc.modules[i]? = some m) :
    g.ModuleOf t [id] m := by
  obtain ⟨hi, rfl⟩ := List.getElem?_eq_some_iff.mp hid
  obtain ⟨hj, rfl⟩ := List.getElem?_eq_some_iff.mp hm
  exact h.modules.get hi hj

/-- **One identity for each symbol.** -/
theorem extract_oneIdentity (hvalid : g.Valid) (hdoc : g.extract o = .ok doc) :
    ∃ t, g.OneIdentity o t doc := by
  obtain ⟨t, h⟩ := exists_documents hvalid hdoc
  have hbuilt : ∀ {id m c}, g.ModuleOf t [id] m → m.Lists c → t.Built id (.toClass c) := by
    intro id m c hm hc
    obtain ⟨id', hid', hb⟩ := hm.exists_symbol_of_class hc
    rwa [List.mem_singleton.mp hid'] at hb
  have hbuiltEnum : ∀ {id m e}, g.ModuleOf t [id] m → e ∈ m.enumList → t.Built id (.toEnum e) := by
    intro id m e hm he
    obtain ⟨id', hid', hb⟩ := hm.exists_symbol_of_enum he
    rwa [List.mem_singleton.mp hid'] at hb
  refine ⟨t, {
    refs := h.refs
    owned := h.index_lt_iff
    symbol_unique := ?_
    ref_unique := fun hr hr' => hr.unique h.sound hr'
    record := h.record
    class_iff := h.exists_class_iff
    enum_iff := h.exists_enum_iff
    holds_iff := h.holds_iff
    built_unique := h.injective
    target_unique := fun hx hy => hx.unique h.sound hy
    classes := ?_
    enums := ?_
    modules := h.modules
    export_class_iff := ?_
    export_enum_iff := ?_ }⟩
  · rintro id id' r ⟨d, hd⟩ ⟨d', hd'⟩
    cases hd.symm.trans hd'
    rfl
  · intro id c hb
    obtain ⟨d, hd, -, hclass⟩ := h.class_of_built hb
    exact ⟨d, hd, hclass.name, hclass⟩
  · intro id e hb
    obtain ⟨d, hd, -, henum⟩ := h.enum_of_built hb
    exact ⟨d, hd, henum.name, henum⟩
  · intro i j id id' m m' c c' hi hm hj hm' hc hc'
    have hb := hbuilt (h.moduleOf hi hm) hc
    have hb' := hbuilt (h.moduleOf hj hm') hc'
    constructor
    · rintro rfl
      exact h.injective hb hb'
    · rintro rfl
      injection hb.unique h.sound hb'
  · intro i j id id' m m' e e' hi hm hj hm' he he'
    have hb := hbuiltEnum (h.moduleOf hi hm) he
    have hb' := hbuiltEnum (h.moduleOf hj hm') he'
    constructor
    · rintro rfl
      exact h.injective hb hb'
    · rintro rfl
      injection hb.unique h.sound hb'

/-- A class that is exported twice, nested in itself and mentioned by its own member. -/
theorem selfNested_oneIdentity :
    ∃ doc t, selfNested.extract {} = .ok doc ∧ selfNested.OneIdentity {} t doc := by
  obtain ⟨doc, hdoc⟩ := exists_extract_selfNested
  obtain ⟨t, ht⟩ := extract_oneIdentity selfNested_valid hdoc
  exact ⟨doc, t, hdoc, ht⟩

end ApiDocs.SymbolGraph
