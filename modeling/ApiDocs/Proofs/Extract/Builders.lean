import ApiDocs.Proofs.Extract.Records

/-!
# Building records of values

Identifiers, signatures, functions, index signatures and the members of classes and enums are built
from a closed graph without failure. Each comes out as the record that `ApiDocs.Proofs.Extract.Records`
says it should be, and all that happens to the state is that records without a target are appended to
the table of references.

## Main definitions

* `tableGrowth`: growth of a table of references by records without a target.
* `mentionGrowth`: the same for the state of a walk, all else unchanged.
-/

namespace ApiDocs

/-- Growth of a table of references by records without a target. -/
def tableGrowth (g : SymbolGraph) : Growth (RefTable SymbolId) where
  Good t := t.Sound g
  Le := RefTable.Appends
  refl := RefTable.Appends.refl
  trans := RefTable.Appends.trans

/-- Growth of a walk by records without a target. -/
def mentionGrowth (g : SymbolGraph) : Growth WalkState where
  Good s := s.refs.Sound g
  Le s s' := s' = { s with refs := s'.refs } ∧ s.refs.Appends s'.refs
  refl s := ⟨rfl, .refl _⟩
  trans h h' := ⟨by rw [h'.1, h.1], h.2.trans h'.2⟩

/-! ## Types -/

/-- The positions in a shape are there. -/
def TypeShape.Within (e : Extent) : TypeShape → Prop
  | .enumUnion symbol => symbol.Within e
  | .array element => element.Within e
  | .reference symbol arguments => symbol.Within e ∧ ∀ t ∈ arguments, t.Within e
  | .union members => ∀ t ∈ members, t.Within e
  | .intersection members => ∀ t ∈ members, t.Within e
  | .enumLiteral .. | .simple | .tuple | .unsupported => True

theorem TypeNode.referenceShape_within {t : TypeNode} {e : Extent} (ht : t.Within e)
    {arguments : List TypeId} (ha : ∀ a ∈ arguments, a.Within e) :
    (t.referenceShape arguments).Within e := by
  unfold referenceShape
  split
  next symbol hs => exact ⟨ht.symbol symbol hs, ha⟩
  next => trivial

theorem TypeNode.shape_within {t : TypeNode} {e : Extent} (ht : t.Within e) : t.shape.Within e := by
  unfold shape
  split
  · unfold enumShape
    split
    · split
      next symbol hs => exact ht.symbol symbol hs
      next => trivial
    · split <;> trivial
  split
  · trivial
  split
  · unfold instantiationShape
    split
    next element rest harg =>
      split
      · exact ht.typeArguments element (by simp [harg])
      · exact referenceShape_within ht ht.typeArguments
    next => exact referenceShape_within ht (by simp)
  split
  · exact referenceShape_within ht (by simp)
  split
  · trivial
  split
  · exact ht.constituents
  split
  · exact ht.constituents
  · trivial

namespace SymbolGraph

variable {g : SymbolGraph} {E : ExtractError → Prop}

theorem referTo_keeps {id : SymbolId} (h : id.Within g.extent) :
    (tableGrowth g).Keeps E (g.referTo id) fun r t => t.Has id r := by
  intro t ht
  refine yields_bind (yields_lift_ok (getSymbol_eq_ok h) ?_)
  obtain ⟨happ, hsound, hhas⟩ := RefTable.request_none ht (symbol?_eq_some h)
  exact yields_modifyGet ⟨hsound, happ, hhas⟩

theorem described_stable (levels : Nat) (id : TypeId) (d : TypeDoc) :
    (tableGrowth g).Stable fun t => g.Described t levels id d :=
  fun _ _ hle hd => hd.mono hle.le

/-- A type is described without failure, and as it should be. -/
theorem describeWithin_keeps (hg : g.Closed) (levels : Nat) (id : TypeId) (h : id.Within g.extent) :
    (tableGrowth g).Keeps E (g.describeWithin levels id) fun d t => g.Described t levels id d := by
  induction levels generalizing id with
  | zero =>
    intro t ht
    obtain ⟨n, hn⟩ := exists_type h
    unfold describeWithin
    refine yields_bind (yields_lift_ok (getType_eq_ok_iff.mpr hn) ?_)
    exact yields_pure ⟨ht, .refl t, n, hn, rfl⟩
  | succ levels ih =>
    intro t ht
    obtain ⟨n, hn⟩ := exists_type h
    have hshape := TypeNode.shape_within (hg.type hn)
    have hall : ∀ ids : List TypeId, (∀ i ∈ ids, i.Within g.extent) →
        (tableGrowth g).Keeps E (ids.mapM (g.describeWithin levels)) fun ds t =>
          List.Forall₂ (fun i d => g.Described t levels i d) ids ds :=
      fun ids hids => Growth.mapM (described_stable levels) fun i hi => ih i (hids i hi)
    unfold describeWithin
    refine yields_bind (yields_lift_ok (getType_eq_ok_iff.mpr hn) ?_)
    split
    next symbol hs =>
      rw [hs] at hshape
      refine yields_bind ((referTo_keeps hshape t ht).mono ?_)
      rintro r t₁ ⟨ht₁, hle, hr⟩
      exact yields_pure ⟨ht₁, hle, n, hn, by rw [hs]; exact ⟨r, hr, rfl⟩⟩
    next hs => exact yields_pure ⟨ht, .refl t, n, hn, by rw [hs]⟩
    next hs => exact yields_pure ⟨ht, .refl t, n, hn, by rw [hs]⟩
    next element hs =>
      rw [hs] at hshape
      refine yields_bind ((ih element hshape t ht).mono ?_)
      rintro d t₁ ⟨ht₁, hle, hd⟩
      exact yields_pure ⟨ht₁, hle, n, hn, by rw [hs]; exact ⟨d, hd, rfl⟩⟩
    next symbol arguments hs =>
      rw [hs] at hshape
      refine yields_bind ((referTo_keeps hshape.1 t ht).mono ?_)
      rintro r t₁ ⟨ht₁, hle₁, hr⟩
      refine yields_bind ((hall arguments hshape.2 t₁ ht₁).mono ?_)
      rintro ds t₂ ⟨ht₂, hle₂, hds⟩
      refine yields_pure ⟨ht₂, hle₁.trans hle₂, n, hn, ?_⟩
      rw [hs]
      exact ⟨r, ds, hr.mono hle₂.le, hds, rfl⟩
    next hs => exact yields_pure ⟨ht, .refl t, n, hn, by rw [hs]⟩
    next members hs =>
      rw [hs] at hshape
      refine yields_bind ((hall members hshape t ht).mono ?_)
      rintro ds t₁ ⟨ht₁, hle, hds⟩
      exact yields_pure ⟨ht₁, hle, n, hn, by rw [hs]; exact ⟨ds, hds, rfl⟩⟩
    next members hs =>
      rw [hs] at hshape
      refine yields_bind ((hall members hshape t ht).mono ?_)
      rintro ds t₁ ⟨ht₁, hle, hds⟩
      exact yields_pure ⟨ht₁, hle, n, hn, by rw [hs]; exact ⟨ds, hds, rfl⟩⟩
    next hs => exact yields_pure ⟨ht, .refl t, n, hn, by rw [hs]⟩

end SymbolGraph

namespace Walk

open SymbolGraph

variable {g : SymbolGraph} {E : ExtractError → Prop} (hg : g.Closed)

include hg

theorem describe_keeps {id : TypeId} (h : id.Within g.extent) :
    (mentionGrowth g).Keeps E (describe g id) fun d s => g.Described s.refs describedLevels id d := by
  intro s hs
  have hd := describeWithin_keeps (E := E) hg describedLevels id h s.refs hs
  refine yields_bind (yields_get ?_)
  refine yields_bind (yields_lift ?_ fun e he => hd.of_error he)
  rintro ⟨d, refs⟩ hx
  obtain ⟨hsound, happ, hdesc⟩ := hd.of_ok hx
  exact yields_bind (yields_set (yields_pure ⟨hsound, ⟨rfl, happ⟩, hdesc⟩))

/-! ## Identifiers and functions -/

theorem identifier_keeps {v : SymbolView} (h : ∀ t ∈ v.typeId, t.Within g.extent) (optional : Bool) :
    (mentionGrowth g).Keeps E (identifier g v optional) fun d s =>
      g.IdentifierOf s.refs v optional d := by
  intro s hs
  have htype : (mentionGrowth g).Keeps E (v.typeId.mapM (describe g)) _ :=
    Growth.optionMapM fun t ht => describe_keeps hg (h t ht)
  refine yields_bind ((htype s hs).mono ?_)
  rintro type s₁ ⟨hs₁, hle, hd⟩
  have hnode : Yields E (v.typeId.mapM fun id => (g.getType id : Walk TypeNode)) s₁
      fun node s₂ => s₂ = s₁ ∧ node = v.typeId.bind g.type? := by
    cases ht : v.typeId with
    | none => exact yields_pure ⟨rfl, rfl⟩
    | some t =>
      obtain ⟨n, hn⟩ := exists_type (h t ht)
      exact yields_map (yields_lift_ok (getType_eq_ok_iff.mpr hn) ⟨rfl, by simp [hn]⟩)
  refine yields_bind (hnode.mono ?_)
  rintro node s₂ ⟨rfl, rfl⟩
  exact yields_pure ⟨hs₁, hle, rfl, hd, rfl, rfl, rfl, rfl⟩

theorem identifier_viewAt_keeps {id : SymbolId} (h : id.Within g.extent) (optional : Bool) :
    (mentionGrowth g).Keeps E (identifier g (g.viewAt id) optional) fun d s =>
      g.IdentifierOf s.refs (g.viewAt id) optional d :=
  identifier_keeps hg (typeId_within_of_viewAt hg h) optional

theorem parameter_keeps {id : SymbolId} (h : id.Within g.extent) :
    (mentionGrowth g).Keeps E (parameter g id) fun d s => g.MarkedOf s.refs (g.viewAt id) d := by
  intro s hs
  refine yields_bind (yields_lift_ok (view_eq_ok h) ?_)
  exact identifier_viewAt_keeps hg h _ s hs

theorem signature_keeps {id : SignatureId} (h : id.Within g.extent) :
    (mentionGrowth g).Keeps E (signature g id) fun d s => g.SignatureOf s.refs id d := by
  intro s hs
  obtain ⟨sig, hsig⟩ := exists_signature h
  have hin := hg.signature hsig
  refine yields_bind (yields_lift_ok (getSignature_eq_ok_iff.mpr hsig) ?_)
  refine yields_bind ((describe_keeps hg hin.returnType s hs).mono ?_)
  rintro returnType s₁ ⟨hs₁, hle₁, hr⟩
  have hparams : (mentionGrowth g).Keeps E (sig.parameters.mapM (parameter g)) fun ds s =>
      List.Forall₂ (fun p x => g.MarkedOf s.refs (g.viewAt p) x) sig.parameters ds :=
    Growth.mapM (G := mentionGrowth g) (P := fun p x s => g.MarkedOf s.refs (g.viewAt p) x)
      (fun _ _ _ _ hle hd => hd.mono hle.2.le)
      fun p hp => parameter_keeps hg (hin.parameters p hp)
  refine yields_bind ((hparams s₁ hs₁).mono ?_)
  rintro params s₂ ⟨hs₂, hle₂, hp⟩
  exact yields_pure ⟨hs₂, (mentionGrowth g).trans hle₁ hle₂,
    sig, hsig, hr.mono hle₂.2.le, hp, rfl, rfl⟩

theorem signatures_keep {ids : List SignatureId} (h : ∀ id ∈ ids, id.Within g.extent) :
    (mentionGrowth g).Keeps E (ids.mapM (signature g)) fun ds s =>
      List.Forall₂ (g.SignatureOf s.refs) ids ds :=
  Growth.mapM (fun _ _ _ _ hle hd => SignatureOf.mono hle.2.le hd)
    fun id hid => signature_keeps hg (h id hid)

theorem function_keeps {v : SymbolView} (h : ∀ t ∈ v.typeId, t.Within g.extent) :
    (mentionGrowth g).Keeps E (function g v) fun d s => g.FunctionOf s.refs v d := by
  intro s hs
  unfold function
  cases ht : v.typeId with
  | none => exact yields_pure ⟨hs, (mentionGrowth g).refl s, rfl, by simp [ht, signaturesIn]⟩
  | some t =>
    obtain ⟨n, hn⟩ := exists_type (h t ht)
    refine yields_bind (yields_lift_ok (getType_eq_ok_iff.mpr hn) ?_)
    refine yields_bind ((signatures_keep hg (hg.type hn).callSignatures s hs).mono ?_)
    rintro ds s₁ ⟨hs₁, hle, hds⟩
    exact yields_pure ⟨hs₁, hle, rfl, by simpa [ht, signaturesIn, hn] using hds⟩

theorem function_viewAt_keeps {id : SymbolId} (h : id.Within g.extent) :
    (mentionGrowth g).Keeps E (function g (g.viewAt id)) fun d s =>
      g.FunctionOf s.refs (g.viewAt id) d :=
  function_keeps hg (typeId_within_of_viewAt hg h)

theorem indexTypes_keeps {v : SymbolView} (h : ∀ d ∈ v.declaration, d.Within g.extent) :
    (mentionGrowth g).Keeps E (indexTypes g v) fun d s =>
      Option.Rel (g.IndexOf s.refs) (v.declaration.bind (·.index)) d := by
  intro s hs
  unfold indexTypes
  cases hx : v.declaration.bind (·.index) with
  | none => exact yields_pure ⟨hs, (mentionGrowth g).refl s, .none⟩
  | some x =>
    obtain ⟨d, hd, hdx⟩ := Option.bind_eq_some_iff.mp hx
    have hin := (h d hd).index x hdx
    have htypes : ∀ o : Option TypeId, (∀ t ∈ o, t.Within g.extent) →
        (mentionGrowth g).Keeps E (o.mapM (describe g)) fun r s =>
          Option.Rel (fun t y => g.Described s.refs describedLevels t y) o r :=
      fun o ho => Growth.optionMapM fun t ht => describe_keeps hg (ho t ht)
    refine yields_bind ((htypes x.key hin.key s hs).mono ?_)
    rintro key s₁ ⟨hs₁, hle₁, hkey⟩
    refine yields_bind ((htypes x.value hin.value s₁ hs₁).mono ?_)
    rintro value s₂ ⟨hs₂, hle₂, hvalue⟩
    have hkey₂ := optionRel_imp (fun _ _ => Described.mono hle₂.2.le) hkey
    exact yields_pure ⟨hs₂, (mentionGrowth g).trans hle₁ hle₂, .some ⟨hkey₂, hvalue⟩⟩

/-! ## Members -/

theorem enumMembers_keeps {id : SymbolId} (h : id.Within g.extent) :
    (mentionGrowth g).Keeps E (enumMembers g (g.symbolAt id)) fun ds s =>
      List.Forall₂ (fun m x => g.IdentifierOf s.refs (g.viewAt m) false x)
        (g.exportsIn (·.has SymbolFlags.enumMemberBit) (g.symbolAt id)) ds := by
  intro s hs
  have hin := hg.symbolAt h
  refine yields_bind (yields_lift_ok (exportsWhere_eq_ok hin _) ?_)
  refine Growth.mapM (G := mentionGrowth g)
    (P := fun m x s => g.IdentifierOf s.refs (g.viewAt m) false x)
    (fun _ _ _ _ hle hd => hd.mono hle.2.le) ?_ s hs
  intro m hm s' hs'
  have hm := within_of_mem_exportsIn hin hm
  refine yields_bind (yields_lift_ok (view_eq_ok hm) ?_)
  exact identifier_viewAt_keeps hg hm false s' hs'

/-- A member is added where its role says. -/
theorem addMember_keeps {id : SymbolId} (h : id.Within g.extent) {ids : List SymbolId}
    {b : ClassBody} {s : WalkState} (hs : (mentionGrowth g).Good s) (hb : g.BodyOf s.refs ids b) :
    Yields E (addMember g b id) s fun b' s' =>
      (mentionGrowth g).Good s' ∧ (mentionGrowth g).Le s s' ∧ g.BodyOf s'.refs (ids ++ [id]) b' := by
  unfold addMember
  refine yields_bind (yields_lift_ok (view_eq_ok h) ?_)
  split
  next hprivate =>
    have hrole : (g.viewAt id).role = .hidden := by simp [SymbolView.role, hprivate]
    exact yields_pure ⟨hs, (mentionGrowth g).refl s, hb.skip (.inl hrole)⟩
  next hpublic =>
  split
  next hmethod =>
    have hrole : (g.viewAt id).role = .method := by simp [SymbolView.role, hpublic, hmethod]
    refine yields_bind ((function_viewAt_keeps hg h s hs).mono ?_)
    rintro f s₁ ⟨hs₁, hle, hf⟩
    exact yields_pure ⟨hs₁, hle, (hb.mono hle.2.le).addMethod hrole hf⟩
  next hnotMethod =>
  split
  next hproperty =>
    have hrole : (g.viewAt id).role = .property := by
      simp [SymbolView.role, hpublic, hnotMethod, hproperty]
    refine yields_bind ((identifier_viewAt_keeps hg h _ s hs).mono ?_)
    rintro x s₁ ⟨hs₁, hle, hx⟩
    exact yields_pure ⟨hs₁, hle, (hb.mono hle.2.le).addProperty hrole hx⟩
  next hnotProperty =>
  split
  next hindex =>
    have hrole : (g.viewAt id).role = .index := by
      simp [SymbolView.role, hpublic, hnotMethod, hnotProperty, hindex]
    refine yields_bind ((indexTypes_keeps hg (declaration_within_of_viewAt hg h) s hs).mono ?_)
    rintro x s₁ ⟨hs₁, hle, hx⟩
    exact yields_pure ⟨hs₁, hle, (hb.mono hle.2.le).setIndex hrole hx⟩
  next hnotIndex =>
    have hrole : (g.viewAt id).role = .ignored := by
      simp [SymbolView.role, hpublic, hnotMethod, hnotProperty, hnotIndex]
    exact yields_pure ⟨hs, (mentionGrowth g).refl s, hb.skip (.inr hrole)⟩

/-- The insides of a class are those of its members. -/
theorem members_keep {ids : List SymbolId} (h : ∀ id ∈ ids, id.Within g.extent) :
    (mentionGrowth g).Keeps E (ids.foldlM (addMember g) {}) fun b s => g.BodyOf s.refs ids b := by
  intro s hs
  refine Growth.foldlM (G := mentionGrowth g) (P := fun done b s => g.BodyOf s.refs done b)
    (fun done id hid b s hs hb => addMember_keeps hg (h id hid) hs hb) [] {} s hs ?_
  exact ⟨.nil, .nil, .none⟩

theorem constructors_keep {v : SymbolView} (h : ∀ t ∈ v.typeId, t.Within g.extent) :
    (mentionGrowth g).Keeps E (constructors g v) fun ds s =>
      List.Forall₂ (g.SignatureOf s.refs) (g.constructsOf v) ds := by
  intro s hs
  unfold constructors constructsOf signaturesIn
  cases ht : v.typeId with
  | none => exact yields_pure ⟨hs, (mentionGrowth g).refl s, .nil⟩
  | some t =>
    obtain ⟨n, hn⟩ := exists_type (h t ht)
    refine yields_bind (yields_lift_ok (getType_eq_ok_iff.mpr hn) ?_)
    simpa [hn] using signatures_keep hg (hg.type hn).constructSignatures s hs

/-! ## Heritage -/

/-- A name in a heritage clause gives the record of the symbol it leads to. -/
theorem heritageRef_keeps {limit : Nat} {base : SymbolId} (h : base.Within g.extent) :
    (mentionGrowth g).Keeps (ExtractError.OfAlias limit) (heritageRef g limit base) fun rs s =>
      g.Resolves limit base ∧ List.Forall₂ s.refs.Has (g.heritageTarget limit base).toList rs := by
  intro s hs
  have hnone : g.Resolves limit base → g.heritageTarget limit base = none →
      (mentionGrowth g).Good s ∧ (mentionGrowth g).Le s s ∧ g.Resolves limit base ∧
        List.Forall₂ s.refs.Has (g.heritageTarget limit base).toList [] :=
    fun hresolves ho => ⟨hs, (mentionGrowth g).refl s, hresolves, by simp [ho]⟩
  unfold heritageRef
  refine yields_bind (yields_lift_ok (getSymbol_eq_ok h) ?_)
  rcases resolveAlias_outcome hg limit (g.symbolAt base).name h with ⟨r, hr, hin⟩ | ⟨e, he, hcause⟩
  · refine yields_bind (yields_lift_ok hr ?_)
    cases r with
    | none => exact yields_pure (hnone ⟨_, hr⟩ (by simp only [heritageTarget, hr]))
    | some target =>
      have ht := hin target rfl
      refine yields_bind (yields_lift_ok (getSymbol_eq_ok ht) ?_)
      split
      next hempty =>
        exact yields_pure (hnone ⟨_, hr⟩ (by simp only [heritageTarget, hr, hempty, if_true]))
      next hdeclared =>
        obtain ⟨happ, hsound, hhas⟩ := RefTable.request_none hs (symbol?_eq_some ht)
        have htarget : g.heritageTarget limit base = some target := by
          simp only [heritageTarget, hr, hdeclared, Bool.false_eq_true, if_false]
        refine yields_bind (yields_modifyGet (yields_pure ⟨hsound, ⟨rfl, happ⟩, ⟨_, hr⟩, ?_⟩))
        rw [htarget]
        exact .cons hhas .nil
  · exact yields_bind (yields_lift (fun a ha => by rw [he] at ha; cases ha)
      fun e' he' => by rw [he] at he'; cases he'; exact hcause)

theorem heritageRefs_keep {limit : Nat} {bases : List SymbolId}
    (h : ∀ b ∈ bases, b.Within g.extent) :
    (mentionGrowth g).Keeps (ExtractError.OfAlias limit) (bases.mapM (heritageRef g limit))
      fun rss s => (∀ b ∈ bases, g.Resolves limit b) ∧
        List.Forall₂ s.refs.Has (bases.filterMap (g.heritageTarget limit)) rss.flatten := by
  intro s hs
  refine (Growth.mapM (G := mentionGrowth g)
    (P := fun b rs s =>
      g.Resolves limit b ∧ List.Forall₂ s.refs.Has (g.heritageTarget limit b).toList rs)
    (fun _ _ _ _ hle hd => ⟨hd.1, hd.2.imp fun _ _ hr => hr.mono hle.2.le⟩)
    (fun b hb => heritageRef_keeps hg (h b hb)) s hs).mono ?_
  rintro rss s' ⟨hs', hle, hrss⟩
  refine ⟨hs', hle, fun b hb => ?_, ?_⟩
  · obtain ⟨rs, -, hresolves, -⟩ := forall₂_mem_left hrss hb
    exact hresolves
  · rw [List.filterMap_eq_flatMap_toList]
    exact forall₂_flatten (hrss.imp fun _ _ hd => hd.2)

end Walk

end ApiDocs
