import ApiDocs.Proofs.Extract.RefTable

/-!
# What records say

A record of the documentation is determined by a symbol of the graph and by the table of references:
`Described`, `IdentifierOf`, `FunctionOf`, `EnumOf`, `ClassOf` and `ModuleOf` say of each kind of record
when it is the one of a symbol. None of them mentions the walk that makes records. They only ask which
record a symbol has and what it was built as, so they survive every growth of the table.

## Main definitions

* `SymbolGraph.Described`: a type doc describes a type.
* `SymbolGraph.IdentifierOf`, `SymbolGraph.SignatureOf`, `SymbolGraph.FunctionOf`: records of values.
* `SymbolGraph.EnumOf`, `SymbolGraph.ClassOf`: records of declared types.
* `SymbolGraph.ModuleOf`: a module record holds one entry for each of a list of symbols.
-/

namespace ApiDocs

/-! ## Relations -/

namespace SymbolGraph

variable (g : SymbolGraph) (refs : RefTable SymbolId)

/-- The type doc describes the type to a number of levels. -/
def Described : Nat → TypeId → TypeDoc → Prop
  | 0, id, d => ∃ t, g.type? id = some t ∧ d = .unsupported .other t.display
  | levels + 1, id, d => ∃ t, g.type? id = some t ∧
    match t.shape with
    | .enumUnion symbol => ∃ r, refs.Has symbol r ∧ d = .ref r []
    | .enumLiteral primitive value => d = .literal primitive value
    | .simple => d = .name t.display
    | .array element => ∃ x, Described levels element x ∧ d = .arrayOf x
    | .reference symbol arguments =>
      ∃ r xs, refs.Has symbol r ∧ List.Forall₂ (Described levels) arguments xs ∧ d = .ref r xs
    | .tuple => d = .unsupported .tuple t.display
    | .union members => ∃ xs, List.Forall₂ (Described levels) members xs ∧ d = .unionOf xs
    | .intersection members =>
      ∃ xs, List.Forall₂ (Described levels) members xs ∧ d = .intersectionOf xs
    | .unsupported => d = .unsupported .other t.display

/-- The identifier is that of a viewed symbol. -/
structure IdentifierOf (v : SymbolView) (optional : Bool) (d : IdentifierDoc) : Prop where
  name : d.name = v.name
  type : Option.Rel (g.Described refs describedLevels) v.typeId d.type
  optional : d.optional = optional
  value : d.value = Walk.literalValue d.type (v.typeId.bind g.type?)
  pos : d.pos = v.pos
  doc : d.doc = v.doc

/-- The identifier is that of a symbol that may be marked optional. -/
def MarkedOf (v : SymbolView) (d : IdentifierDoc) : Prop :=
  g.IdentifierOf refs v (v.flags.has SymbolFlags.optionalBit) d

/-- The signature is the one at a position. -/
def SignatureOf (id : SignatureId) (d : SignatureDoc) : Prop :=
  ∃ s, g.signature? id = some s ∧ g.Described refs describedLevels s.returnType d.returnType ∧
    List.Forall₂ (fun p x => g.MarkedOf refs (g.viewAt p) x) s.parameters d.paramList ∧
    d.pos = s.pos ∧ d.doc = Text.nonBlank? s.doc

/-- The signatures of a type that may be absent. -/
def signaturesIn (select : TypeNode → List SignatureId) (id : Option TypeId) : List SignatureId :=
  ((id.bind g.type?).map select).getD []

/-- The function is that of a viewed symbol. -/
structure FunctionOf (v : SymbolView) (d : FunctionDoc) : Prop where
  name : d.name = some v.name
  signatures :
    List.Forall₂ (g.SignatureOf refs) (g.signaturesIn (·.callSignatures) v.typeId) d.signatureList

/-- The index record has the types of an index signature. -/
structure IndexOf (x : IndexTypes) (d : IndexDoc) : Prop where
  signature : Option.Rel (g.Described refs describedLevels) x.key d.signature
  value : Option.Rel (g.Described refs describedLevels) x.value d.value

/-- The enum is that of a symbol. -/
structure EnumOf (id : SymbolId) (d : EnumDoc) : Prop where
  name : d.name = (g.viewAt id).name
  pos : d.pos = (g.viewAt id).pos
  doc : d.doc = (g.viewAt id).doc
  members : List.Forall₂ (fun m x => g.IdentifierOf refs (g.viewAt m) false x)
    (g.exportsIn (·.has SymbolFlags.enumMemberBit) (g.symbolAt id)) d.memberList

/-- The module record holds one entry for each of the symbols, in the list that the symbol is routed
to. -/
structure ModuleOf (ids : List SymbolId) (m : ModuleDoc) : Prop where
  enums : List.Forall₂ (fun id e => refs.Built id (.toEnum e))
    (ids.filter (g.route? · = some .toEnum)) m.enumList
  classes : List.Forall₂ (fun id c => refs.Built id (.toClass c))
    (ids.filter (g.route? · = some (.toClass .ofClass))) m.classList
  interfaces : List.Forall₂ (fun id c => refs.Built id (.toClass c))
    (ids.filter (g.route? · = some (.toClass .ofInterface))) m.interfaceList
  functions : List.Forall₂ (fun id f => g.FunctionOf refs (g.viewAt id) f)
    (ids.filter (g.route? · = some .toFunction)) m.functionList
  values : List.Forall₂ (fun id x => g.IdentifierOf refs (g.viewAt id) false x)
    (ids.filter (g.route? · = some .toVariable)) m.variableList

end SymbolGraph

/-- What a member of a class becomes. -/
inductive MemberRole where
  | hidden
  | method
  | property
  | index
  | ignored
  deriving DecidableEq, Repr

/-- What a member of a class becomes: private members nothing, others what their flags say, index
signatures what their declaration says. -/
def SymbolView.role (v : SymbolView) : MemberRole :=
  if v.declaration.any (·.isPrivate) then .hidden
  else if v.flags.has SymbolFlags.methodBit then .method
  else if v.flags.meets (SymbolFlags.propertyBit ∪ SymbolFlags.accessorBit) then .property
  else if v.kind = some .indexSignature then .index
  else .ignored

namespace SymbolGraph

variable (g : SymbolGraph) (refs : RefTable SymbolId)

/-- The members with a role, in order. -/
def membersAs (role : MemberRole) (ids : List SymbolId) : List SymbolId :=
  ids.filter fun id => (g.viewAt id).role = role

/-- The types of the last index signature among the members. -/
def lastIndex (ids : List SymbolId) : Option IndexTypes :=
  (g.membersAs .index ids).getLast?.bind fun id => (g.viewAt id).declaration.bind (·.index)

/-- The methods, properties and index signature are those of the members. -/
structure BodyOf (ids : List SymbolId) (b : Walk.ClassBody) : Prop where
  methods :
    List.Forall₂ (fun id f => g.FunctionOf refs (g.viewAt id) f) (g.membersAs .method ids) b.methods
  properties :
    List.Forall₂ (fun id x => g.MarkedOf refs (g.viewAt id) x) (g.membersAs .property ids) b.properties
  index : Option.Rel (g.IndexOf refs) (g.lastIndex ids) b.index

/-- The symbols nested in a class. -/
def nestedIn (id : SymbolId) : List SymbolId :=
  g.exportsIn (!·.meets SymbolFlags.classMember) (g.symbolAt id)

/-- The construct signatures of a viewed class. -/
def constructsOf (v : SymbolView) : List SignatureId :=
  g.signaturesIn (·.constructSignatures) v.typeId

/-- The constructor of a class with some construct signatures; there is none without any. -/
def constructorWith : List SignatureDoc → Option FunctionDoc
  | [] => none
  | signatures => some { name := none, signatureList := signatures }

/-- The symbols that the heritage clauses of a symbol name, in order. -/
def namedBases (id : SymbolId) : List SymbolId :=
  ((g.viewAt id).declaration.map (·.heritage)).getD []

/-- The chain of aliases that starts at the symbol does not fail. -/
def Resolves (limit : Nat) (id : SymbolId) : Prop :=
  ∃ r, g.resolveAlias limit (g.symbolAt id).name id = .ok r

/-- The declared symbol that a name in a heritage clause leads to, if there is one. -/
def heritageTarget (limit : Nat) (base : SymbolId) : Option SymbolId :=
  match g.resolveAlias limit (g.symbolAt base).name base with
  | .ok (some target) => if (g.symbolAt target).declarations.isEmpty then none else some target
  | _ => none

/-- The declared symbols that the heritage clauses of a symbol lead to, in order. -/
def heritageOf (limit : Nat) (id : SymbolId) : List SymbolId :=
  (g.namedBases id).filterMap (g.heritageTarget limit)

/-- The class is that of a symbol. What it extends is not part of this. -/
structure ClassOf (id : SymbolId) (d : ClassDoc) : Prop where
  name : d.name = (g.viewAt id).name
  kind : g.route? id = some (.toClass d.kind)
  pos : d.pos = (g.viewAt id).pos
  doc : d.doc = (g.viewAt id).doc
  construct : ∃ signatures, List.Forall₂ (g.SignatureOf refs) (g.constructsOf (g.viewAt id)) signatures ∧
    d.construct = constructorWith signatures
  body : g.BodyOf refs (g.symbolAt id).members.values ⟨d.methodList, d.propertyList, d.index⟩
  exports : g.ModuleOf refs (g.nestedIn id) d.exports

/-! ## One more symbol -/

section Snoc

variable {α β : Type} {R : α → β → Prop} {p : α → Bool} {as : List α} {bs : List β} {a : α} {b : β}

theorem forall₂_filter_snoc_of_not (h : List.Forall₂ R (as.filter p) bs) (ha : p a = false) :
    List.Forall₂ R ((as ++ [a]).filter p) bs := by
  simpa [List.filter_append, ha] using h

theorem forall₂_filter_snoc (h : List.Forall₂ R (as.filter p) bs) (ha : p a = true) (hab : R a b) :
    List.Forall₂ R ((as ++ [a]).filter p) (bs ++ [b]) := by
  rw [List.filter_append, List.filter_cons_of_pos ha]
  exact List.rel_append h (.cons hab .nil)

end Snoc

variable {g} {refs} {ids : List SymbolId} {id : SymbolId} {m : ModuleDoc}

theorem ModuleOf.addEnum (h : g.ModuleOf refs ids m) (hr : g.route? id = some .toEnum) {e : EnumId}
    (he : refs.Built id (.toEnum e)) :
    g.ModuleOf refs (ids ++ [id]) { m with enumList := m.enumList ++ [e] } where
  enums := forall₂_filter_snoc h.enums (by simp [hr]) he
  classes := forall₂_filter_snoc_of_not h.classes (by simp [hr])
  interfaces := forall₂_filter_snoc_of_not h.interfaces (by simp [hr])
  functions := forall₂_filter_snoc_of_not h.functions (by simp [hr])
  values := forall₂_filter_snoc_of_not h.values (by simp [hr])

theorem ModuleOf.addClass (h : g.ModuleOf refs ids m)
    (hr : g.route? id = some (.toClass .ofClass)) {c : ClassId} (hc : refs.Built id (.toClass c)) :
    g.ModuleOf refs (ids ++ [id]) { m with classList := m.classList ++ [c] } where
  enums := forall₂_filter_snoc_of_not h.enums (by simp [hr])
  classes := forall₂_filter_snoc h.classes (by simp [hr]) hc
  interfaces := forall₂_filter_snoc_of_not h.interfaces (by simp [hr])
  functions := forall₂_filter_snoc_of_not h.functions (by simp [hr])
  values := forall₂_filter_snoc_of_not h.values (by simp [hr])

theorem ModuleOf.addInterface (h : g.ModuleOf refs ids m)
    (hr : g.route? id = some (.toClass .ofInterface)) {c : ClassId}
    (hc : refs.Built id (.toClass c)) :
    g.ModuleOf refs (ids ++ [id]) { m with interfaceList := m.interfaceList ++ [c] } where
  enums := forall₂_filter_snoc_of_not h.enums (by simp [hr])
  classes := forall₂_filter_snoc_of_not h.classes (by simp [hr])
  interfaces := forall₂_filter_snoc h.interfaces (by simp [hr]) hc
  functions := forall₂_filter_snoc_of_not h.functions (by simp [hr])
  values := forall₂_filter_snoc_of_not h.values (by simp [hr])

theorem ModuleOf.addFunction (h : g.ModuleOf refs ids m) (hr : g.route? id = some .toFunction)
    {f : FunctionDoc} (hf : g.FunctionOf refs (g.viewAt id) f) :
    g.ModuleOf refs (ids ++ [id]) { m with functionList := m.functionList ++ [f] } where
  enums := forall₂_filter_snoc_of_not h.enums (by simp [hr])
  classes := forall₂_filter_snoc_of_not h.classes (by simp [hr])
  interfaces := forall₂_filter_snoc_of_not h.interfaces (by simp [hr])
  functions := forall₂_filter_snoc h.functions (by simp [hr]) hf
  values := forall₂_filter_snoc_of_not h.values (by simp [hr])

theorem ModuleOf.addVariable (h : g.ModuleOf refs ids m) (hr : g.route? id = some .toVariable)
    {x : IdentifierDoc} (hx : g.IdentifierOf refs (g.viewAt id) false x) :
    g.ModuleOf refs (ids ++ [id]) { m with variableList := m.variableList ++ [x] } where
  enums := forall₂_filter_snoc_of_not h.enums (by simp [hr])
  classes := forall₂_filter_snoc_of_not h.classes (by simp [hr])
  interfaces := forall₂_filter_snoc_of_not h.interfaces (by simp [hr])
  functions := forall₂_filter_snoc_of_not h.functions (by simp [hr])
  values := forall₂_filter_snoc h.values (by simp [hr]) hx

theorem ModuleOf.skip (h : g.ModuleOf refs ids m)
    (hr : g.route? id = none ∨ g.route? id = some .skip) : g.ModuleOf refs (ids ++ [id]) m := by
  have hnot : ∀ route, route ≠ .skip → decide (g.route? id = some route) = false := by
    intro route hroute
    rcases hr with hr | hr <;> simp [hr, hroute.symm]
  exact {
    enums := forall₂_filter_snoc_of_not h.enums (hnot _ (by simp))
    classes := forall₂_filter_snoc_of_not h.classes (hnot _ (by simp))
    interfaces := forall₂_filter_snoc_of_not h.interfaces (hnot _ (by simp))
    functions := forall₂_filter_snoc_of_not h.functions (hnot _ (by simp))
    values := forall₂_filter_snoc_of_not h.values (hnot _ (by simp)) }

theorem lastIndex_snoc (ids : List SymbolId) (id : SymbolId) :
    g.lastIndex (ids ++ [id]) =
      if (g.viewAt id).role = .index then (g.viewAt id).declaration.bind (·.index)
      else g.lastIndex ids := by
  unfold lastIndex membersAs
  by_cases h : (g.viewAt id).role = .index <;> simp [List.filter_append, h]

theorem BodyOf.addMethod {b : Walk.ClassBody} (h : g.BodyOf refs ids b)
    (hr : (g.viewAt id).role = .method) {f : FunctionDoc}
    (hf : g.FunctionOf refs (g.viewAt id) f) :
    g.BodyOf refs (ids ++ [id]) { b with methods := b.methods ++ [f] } where
  methods := forall₂_filter_snoc h.methods (by simp [hr]) hf
  properties := forall₂_filter_snoc_of_not h.properties (by simp [hr])
  index := by simpa [lastIndex_snoc, hr] using h.index

theorem BodyOf.addProperty {b : Walk.ClassBody} (h : g.BodyOf refs ids b)
    (hr : (g.viewAt id).role = .property) {x : IdentifierDoc}
    (hx : g.MarkedOf refs (g.viewAt id) x) :
    g.BodyOf refs (ids ++ [id]) { b with properties := b.properties ++ [x] } where
  methods := forall₂_filter_snoc_of_not h.methods (by simp [hr])
  properties := forall₂_filter_snoc h.properties (by simp [hr]) hx
  index := by simpa [lastIndex_snoc, hr] using h.index

theorem BodyOf.setIndex {b : Walk.ClassBody} (h : g.BodyOf refs ids b)
    (hr : (g.viewAt id).role = .index) {x : Option IndexDoc}
    (hx : Option.Rel (g.IndexOf refs) ((g.viewAt id).declaration.bind (·.index)) x) :
    g.BodyOf refs (ids ++ [id]) { b with index := x } where
  methods := forall₂_filter_snoc_of_not h.methods (by simp [hr])
  properties := forall₂_filter_snoc_of_not h.properties (by simp [hr])
  index := by simpa [lastIndex_snoc, hr] using hx

theorem BodyOf.skip {b : Walk.ClassBody} (h : g.BodyOf refs ids b)
    (hr : (g.viewAt id).role = .hidden ∨ (g.viewAt id).role = .ignored) :
    g.BodyOf refs (ids ++ [id]) b := by
  have hnot : ∀ role, role ≠ .hidden → role ≠ .ignored → decide ((g.viewAt id).role = role) = false := by
    intro role h₁ h₂
    rcases hr with hr | hr <;> simp [hr, h₁.symm, h₂.symm]
  exact {
    methods := forall₂_filter_snoc_of_not h.methods (hnot _ (by simp) (by simp))
    properties := forall₂_filter_snoc_of_not h.properties (hnot _ (by simp) (by simp))
    index := by rcases hr with hr | hr <;> simpa [lastIndex_snoc, hr] using h.index }

/-! ## Growth of the table -/

variable {refs' : RefTable SymbolId} (h : refs.Le refs')

include h

theorem Described.mono {levels : Nat} {id : TypeId} {d : TypeDoc}
    (hd : g.Described refs levels id d) : g.Described refs' levels id d := by
  induction levels generalizing id d with
  | zero => exact hd
  | succ levels ih =>
    have hall : ∀ {ids xs}, List.Forall₂ (g.Described refs levels) ids xs →
        List.Forall₂ (g.Described refs' levels) ids xs :=
      fun hxs => hxs.imp fun _ _ => ih
    obtain ⟨t, ht, hd⟩ := hd
    refine ⟨t, ht, ?_⟩
    split at hd
    next => obtain ⟨r, hr, rfl⟩ := hd; exact ⟨r, hr.mono h, rfl⟩
    next => exact hd
    next => exact hd
    next => obtain ⟨x, hx, rfl⟩ := hd; exact ⟨x, ih hx, rfl⟩
    next => obtain ⟨r, xs, hr, hxs, rfl⟩ := hd; exact ⟨r, xs, hr.mono h, hall hxs, rfl⟩
    next => exact hd
    next => obtain ⟨xs, hxs, rfl⟩ := hd; exact ⟨xs, hall hxs, rfl⟩
    next => obtain ⟨xs, hxs, rfl⟩ := hd; exact ⟨xs, hall hxs, rfl⟩
    next => exact hd

theorem IdentifierOf.mono {v : SymbolView} {optional : Bool} {d : IdentifierDoc}
    (hd : g.IdentifierOf refs v optional d) : g.IdentifierOf refs' v optional d :=
  { hd with type := optionRel_imp (fun _ _ => Described.mono h) hd.type }

theorem MarkedOf.mono {v : SymbolView} {d : IdentifierDoc} (hd : g.MarkedOf refs v d) :
    g.MarkedOf refs' v d :=
  IdentifierOf.mono h hd

theorem SignatureOf.mono {id : SignatureId} {d : SignatureDoc} (hd : g.SignatureOf refs id d) :
    g.SignatureOf refs' id d := by
  obtain ⟨s, hs, hr, hp, hpos, hdoc⟩ := hd
  exact ⟨s, hs, hr.mono h, hp.imp fun _ _ => MarkedOf.mono h, hpos, hdoc⟩

theorem FunctionOf.mono {v : SymbolView} {d : FunctionDoc} (hd : g.FunctionOf refs v d) :
    g.FunctionOf refs' v d :=
  { hd with signatures := hd.signatures.imp fun _ _ => SignatureOf.mono h }

theorem IndexOf.mono {x : IndexTypes} {d : IndexDoc} (hd : g.IndexOf refs x d) :
    g.IndexOf refs' x d :=
  ⟨optionRel_imp (fun _ _ => Described.mono h) hd.signature,
    optionRel_imp (fun _ _ => Described.mono h) hd.value⟩

theorem EnumOf.mono {id : SymbolId} {d : EnumDoc} (hd : g.EnumOf refs id d) :
    g.EnumOf refs' id d :=
  { hd with members := hd.members.imp fun _ _ => IdentifierOf.mono h }

theorem ModuleOf.mono {ids : List SymbolId} {m : ModuleDoc} (hm : g.ModuleOf refs ids m) :
    g.ModuleOf refs' ids m where
  enums := hm.enums.imp fun _ _ hb => hb.mono h
  classes := hm.classes.imp fun _ _ hb => hb.mono h
  interfaces := hm.interfaces.imp fun _ _ hb => hb.mono h
  functions := hm.functions.imp fun _ _ => FunctionOf.mono h
  values := hm.values.imp fun _ _ => IdentifierOf.mono h

theorem BodyOf.mono {ids : List SymbolId} {b : Walk.ClassBody} (hb : g.BodyOf refs ids b) :
    g.BodyOf refs' ids b where
  methods := hb.methods.imp fun _ _ => FunctionOf.mono h
  properties := hb.properties.imp fun _ _ => MarkedOf.mono h
  index := optionRel_imp (fun _ _ => IndexOf.mono h) hb.index

theorem ClassOf.mono {id : SymbolId} {d : ClassDoc} (hd : g.ClassOf refs id d) :
    g.ClassOf refs' id d := by
  obtain ⟨signatures, hs, hc⟩ := hd.construct
  exact { hd with
    construct := ⟨signatures, hs.imp fun _ _ => SignatureOf.mono h, hc⟩
    body := hd.body.mono h
    exports := hd.exports.mono h }

end SymbolGraph

end ApiDocs
