import ApiDocs.Proofs.Extract.Extraction

/-!
# Extracted documentation is well formed

Every record is the record of a symbol, so all that occurs in it comes from the table of references: a
reference that is mentioned is that of a symbol, and a class or enum that is listed was built for one.
In the other direction every class and enum was built for a symbol that the walk came to, and the way
the walk came to it leads through the records.
-/

namespace ApiDocs

namespace SymbolGraph

variable {g : SymbolGraph} {o : ExtractOptions} {t : RefTable SymbolId} {doc : Documentation}
  {r : RefId}

/-! ## Descriptions -/

/-- What describes a type is put together from what describes the types in it, and ends in names,
literals and displays. -/
theorem Described.ind {P : Nat → TypeDoc → Prop}
    (name : ∀ levels text, P (levels + 1) (.name text))
    (literal : ∀ levels id n primitive value, g.type? id = some n →
      n.shape = .enumLiteral primitive value → P (levels + 1) (.literal primitive value))
    (ref : ∀ levels symbol r xs, t.Has symbol r → (∀ x ∈ xs, P levels x) → P (levels + 1) (.ref r xs))
    (arrayOf : ∀ levels x, P levels x → P (levels + 1) (.arrayOf x))
    (unionOf : ∀ levels xs, (∀ x ∈ xs, P levels x) → P (levels + 1) (.unionOf xs))
    (intersectionOf : ∀ levels xs, (∀ x ∈ xs, P levels x) → P (levels + 1) (.intersectionOf xs))
    (unsupported : ∀ levels kind display, P levels (.unsupported kind display))
    {levels : Nat} {id : TypeId} {d : TypeDoc} (h : g.Described t levels id d) : P levels d := by
  induction levels generalizing id d with
  | zero =>
    obtain ⟨n, -, rfl⟩ := h
    exact unsupported 0 _ _
  | succ levels ih =>
    have hall : ∀ {ids xs}, List.Forall₂ (g.Described t levels) ids xs → ∀ x ∈ xs, P levels x := by
      intro ids xs hxs x hx
      obtain ⟨i, -, hd⟩ := forall₂_mem_right hxs hx
      exact ih hd
    obtain ⟨n, hn, h⟩ := h
    split at h
    next =>
      obtain ⟨r, hr, rfl⟩ := h
      exact ref levels _ r [] hr (List.forall_mem_nil _)
    next hshape => subst h; exact literal levels id n _ _ hn hshape
    next => subst h; exact name levels _
    next =>
      obtain ⟨x, hx, rfl⟩ := h
      exact arrayOf levels x (ih hx)
    next =>
      obtain ⟨r, xs, hr, hxs, rfl⟩ := h
      exact ref levels _ r xs hr (hall hxs)
    next => subst h; exact unsupported _ _ _
    next =>
      obtain ⟨xs, hxs, rfl⟩ := h
      exact unionOf levels xs (hall hxs)
    next =>
      obtain ⟨xs, hxs, rfl⟩ := h
      exact intersectionOf levels xs (hall hxs)
    next => subst h; exact unsupported _ _ _

/-! ## Mentions -/

theorem Described.exists_has {levels : Nat} {id : TypeId} {d : TypeDoc}
    (h : g.Described t levels id d) (hr : d.Mentions r) : ∃ symbol, t.Has symbol r := by
  refine Described.ind (P := fun _ d => d.Mentions r → ∃ symbol, t.Has symbol r) ?name ?literal ?ref
    ?arrayOf ?unionOf ?intersectionOf ?unsupported h hr
  case ref =>
    intro levels symbol r' xs hr' ih hr
    cases hr with
    | target => exact ⟨symbol, hr'⟩
    | argument ha hr => exact ih _ ha hr
  case arrayOf =>
    intro levels x ih hr
    cases hr with
    | element hr => exact ih hr
  case unionOf =>
    intro levels xs ih hr
    cases hr with
    | unionMember ha hr => exact ih _ ha hr
  case intersectionOf =>
    intro levels xs ih hr
    cases hr with
    | intersectionMember ha hr => exact ih _ ha hr
  case name =>
    intro levels text hr
    cases hr
  case literal =>
    intro levels id n primitive value hn hshape hr
    cases hr
  case unsupported =>
    intro levels kind display hr
    cases hr

theorem exists_has_of_optional {o : Option TypeId} {d : Option TypeDoc} {levels : Nat}
    (h : Option.Rel (g.Described t levels) o d) (hr : ∃ x ∈ d, x.Mentions r) :
    ∃ symbol, t.Has symbol r := by
  obtain ⟨x, hx, hr⟩ := hr
  obtain ⟨id, -, hd⟩ := optionRel_mem_right h hx
  exact hd.exists_has hr

theorem IdentifierOf.exists_has {v : SymbolView} {optional : Bool} {d : IdentifierDoc}
    (h : g.IdentifierOf t v optional d) (hr : d.Mentions r) : ∃ symbol, t.Has symbol r :=
  exists_has_of_optional h.type hr

theorem SignatureOf.exists_has {id : SignatureId} {d : SignatureDoc} (h : g.SignatureOf t id d)
    (hr : d.Mentions r) : ∃ symbol, t.Has symbol r := by
  obtain ⟨s, -, hreturn, hparams, -⟩ := h
  rcases hr with hr | ⟨p, hp, hr⟩
  · exact hreturn.exists_has hr
  · obtain ⟨id, -, hid⟩ := forall₂_mem_right hparams hp
    exact IdentifierOf.exists_has hid hr

theorem FunctionOf.exists_has {v : SymbolView} {d : FunctionDoc} (h : g.FunctionOf t v d)
    (hr : d.Mentions r) : ∃ symbol, t.Has symbol r := by
  obtain ⟨s, hs, hr⟩ := hr
  obtain ⟨id, -, hid⟩ := forall₂_mem_right h.signatures hs
  exact hid.exists_has hr

theorem IndexOf.exists_has {x : IndexTypes} {d : IndexDoc} (h : g.IndexOf t x d)
    (hr : d.Mentions r) : ∃ symbol, t.Has symbol r := by
  rcases hr with hr | hr
  · exact exists_has_of_optional h.signature hr
  · exact exists_has_of_optional h.value hr

theorem EnumOf.exists_has {id : SymbolId} {d : EnumDoc} (h : g.EnumOf t id d) (hr : d.Mentions r) :
    ∃ symbol, t.Has symbol r := by
  obtain ⟨x, hx, hr⟩ := hr
  obtain ⟨m, -, hm⟩ := forall₂_mem_right h.members hx
  exact hm.exists_has hr

theorem ModuleOf.exists_has {ids : List SymbolId} {m : ModuleDoc} (h : g.ModuleOf t ids m)
    (hr : m.Mentions r) : ∃ symbol, t.Has symbol r := by
  rcases hr with ⟨f, hf, hr⟩ | ⟨x, hx, hr⟩
  · obtain ⟨id, -, hid⟩ := forall₂_mem_right h.functions hf
    exact hid.exists_has hr
  · obtain ⟨id, -, hid⟩ := forall₂_mem_right h.values hx
    exact hid.exists_has hr

theorem ClassOf.exists_has {id : SymbolId} {d : ClassDoc} (h : g.ClassOf t id d)
    (hr : d.Mentions r) : ∃ symbol, t.Has symbol r := by
  rcases hr with ⟨f, hf, hr⟩ | ⟨f, hf, hr⟩ | ⟨x, hx, hr⟩ | ⟨x, hx, hr⟩ | hr
  · obtain ⟨signatures, hsigs, hconstruct⟩ := h.construct
    rw [hconstruct] at hf
    obtain ⟨s, hs, hr⟩ := hr
    cases signatures with
    | nil => simp [constructorWith] at hf
    | cons s₀ rest =>
      cases hf
      obtain ⟨sig, -, hsig⟩ := forall₂_mem_right hsigs hs
      exact hsig.exists_has hr
  · obtain ⟨m, -, hm⟩ := forall₂_mem_right h.body.methods hf
    exact hm.exists_has hr
  · obtain ⟨m, -, hm⟩ := forall₂_mem_right h.body.properties hx
    exact IdentifierOf.exists_has hm hr
  · obtain ⟨types, -, hindex⟩ := optionRel_mem_right h.body.index hx
    exact hindex.exists_has hr
  · exact h.exports.exists_has hr

/-! ## Lists -/

namespace Documents

variable (h : g.Documents o t doc)

include h

/-- Every module record is that of some symbols. -/
theorem exists_moduleOf {m : ModuleDoc} (hm : doc.IsModule m) : ∃ ids, g.ModuleOf t ids m := by
  rcases hm with hm | ⟨x, hx, rfl⟩
  · obtain ⟨id, -, hof⟩ := forall₂_mem_right h.modules hm
    exact ⟨[id], hof⟩
  · obtain ⟨i, hi, rfl⟩ := Array.mem_iff_getElem.mp hx
    obtain ⟨id, -, -, hclass, -⟩ := h.classes (c := ⟨i⟩) (Array.getElem?_eq_getElem hi)
    exact ⟨g.nestedIn id, hclass.exports⟩

theorem index_lt_of_has {symbol : SymbolId} (hr : t.Has symbol r) : r.index < doc.refs.size := by
  rw [h.refs, RefTable.refs, Array.size_map]
  exact hr.index_lt

theorem kind_of_mem {ids : List SymbolId} {kind : ClassKind} {cs : List ClassId}
    (hall : List.Forall₂ (fun id c => t.Built id (.toClass c))
      (ids.filter (g.route? · = some (.toClass kind))) cs) {c : ClassId} (hc : c ∈ cs) :
    ∃ x, doc.class? c = some x ∧ x.kind = kind := by
  obtain ⟨id, hid, hb⟩ := forall₂_mem_right hall hc
  obtain ⟨x, hx, -, hclass⟩ := h.class_of_built hb
  have hroute : g.route? id = some (.toClass kind) := by simpa using (List.mem_filter.mp hid).2
  rw [hclass.kind] at hroute
  cases hroute
  exact ⟨x, hx, rfl⟩

/-- A base of a class was built as a class. -/
theorem index_lt_of_base {x : ClassDoc} (hx : x ∈ doc.classes) {c : ClassId}
    (hc : c ∈ x.extendList) : c.index < doc.classes.size := by
  obtain ⟨i, hi, rfl⟩ := Array.mem_iff_getElem.mp hx
  obtain ⟨id, -, -, -, -, rs, -, hlinked⟩ := h.classes (c := ⟨i⟩) (Array.getElem?_eq_getElem hi)
  rw [hlinked] at hc
  rcases (WalkState.linked_eq t ⟨i⟩ rs _).2 c hc with hc | ⟨r, -, ht⟩
  · simp at hc
  · obtain ⟨d, hd, htarget⟩ := Option.bind_eq_some_iff.mp ht
    obtain ⟨⟨symbol, d'⟩, hrecord, rfl⟩ := Option.map_eq_some_iff.mp hd
    exact h.holds (x := .toClass c) ⟨r.index, d', hrecord, htarget⟩

theorem holds_of_target {d : RefDoc} (hd : d ∈ doc.refs) {x : RefTarget} (hx : d.target = some x) :
    doc.Holds x := by
  rw [h.refs, RefTable.refs, Array.mem_map] at hd
  obtain ⟨⟨symbol, d'⟩, hmem, rfl⟩ := hd
  obtain ⟨i, hi, hget⟩ := Array.mem_iff_getElem.mp hmem
  exact h.holds ⟨i, d', by rw [Array.getElem?_eq_getElem hi, hget], hx⟩

/-! ## Reachability -/

theorem class_reached {c : ClassId} (hc : c.index < doc.classes.size) :
    ∃ m, doc.Reaches m ∧ m.Lists c := by
  obtain ⟨id, hA, hb, hclass, -⟩ := h.classes (Array.getElem?_eq_getElem hc)
  obtain ⟨ids, m, hmem, hof, hreach⟩ := h.exists_reaches hA
  obtain ⟨c', hb', hlists⟩ := hof.exists_class hmem hclass.kind
  injection hb.unique h.sound hb' with hcc
  subst hcc
  exact ⟨m, hreach, hlists⟩

theorem enum_reached {e : EnumId} (he : e.index < doc.enums.size) :
    ∃ m, doc.Reaches m ∧ e ∈ m.enumList := by
  obtain ⟨id, hA, hb, -⟩ := h.enums (Array.getElem?_eq_getElem he)
  obtain ⟨ids, m, hmem, hof, hreach⟩ := h.exists_reaches hA
  obtain ⟨e', hb', hlists⟩ := hof.exists_enum hmem (h.routed hb)
  injection hb.unique h.sound hb' with hee
  subst hee
  exact ⟨m, hreach, hlists⟩

theorem wellFormed : doc.WellFormed where
  listed_class hm hc := by
    obtain ⟨ids, hof⟩ := h.exists_moduleOf hm
    obtain ⟨id, -, hb⟩ := hof.exists_symbol_of_class hc
    exact h.holds hb
  base_class hx hc := h.index_lt_of_base hx hc
  target_class hr ht := h.holds_of_target hr ht
  listed_enum hm he := by
    obtain ⟨ids, hof⟩ := h.exists_moduleOf hm
    obtain ⟨id, -, hb⟩ := hof.exists_symbol_of_enum he
    exact h.holds hb
  target_enum hr ht := h.holds_of_target hr ht
  module_ref hm hr := by
    obtain ⟨ids, hof⟩ := h.exists_moduleOf hm
    obtain ⟨symbol, hhas⟩ := hof.exists_has hr
    exact h.index_lt_of_has hhas
  class_ref hx hr := by
    obtain ⟨i, hi, rfl⟩ := Array.mem_iff_getElem.mp hx
    obtain ⟨id, -, -, hclass, -⟩ := h.classes (c := ⟨i⟩) (Array.getElem?_eq_getElem hi)
    obtain ⟨symbol, hhas⟩ := hclass.exists_has hr
    exact h.index_lt_of_has hhas
  enum_ref hx hr := by
    obtain ⟨i, hi, rfl⟩ := Array.mem_iff_getElem.mp hx
    obtain ⟨id, -, -, henum⟩ := h.enums (e := ⟨i⟩) (Array.getElem?_eq_getElem hi)
    obtain ⟨symbol, hhas⟩ := henum.exists_has hr
    exact h.index_lt_of_has hhas
  class_kind hm hc := by
    obtain ⟨ids, hof⟩ := h.exists_moduleOf hm
    exact h.kind_of_mem hof.classes hc
  interface_kind hm hc := by
    obtain ⟨ids, hof⟩ := h.exists_moduleOf hm
    exact h.kind_of_mem hof.interfaces hc
  class_reached _ := h.class_reached
  enum_reached _ := h.enum_reached

end Documents

/-- **Extracted documentation is well formed**, also without the records that hold nothing. -/
theorem extract_wellFormed (hvalid : g.Valid) (hdoc : g.extract o = .ok doc) :
    doc.WellFormed ∧ doc.discardEmptyModules.WellFormed := by
  obtain ⟨t, h⟩ := exists_documents hvalid hdoc
  exact ⟨h.wellFormed, h.wellFormed.discardEmptyModules⟩

/-- A class that is nested in itself can be reached. -/
theorem selfNested_wellFormed :
    ∃ doc, selfNested.extract {} = .ok doc ∧ doc.WellFormed ∧ doc.discardEmptyModules.WellFormed := by
  obtain ⟨doc, hdoc⟩ := exists_extract_selfNested
  exact ⟨doc, hdoc, extract_wellFormed selfNested_valid hdoc⟩

end SymbolGraph

end ApiDocs
