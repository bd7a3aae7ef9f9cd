import ApiDocs.Proofs.Binding.EnumTypes

/-!
# Types at their places

When the notes of a draft are settled, each type is recorded where its note says, and it tells what the
expression of the note does. A symbol has the type that was noted of it first, unless it is an enum, a function
or a class, whose types are made in their own way. An index signature has the types of its key and its value.
What a signature returns is what was written, or the instance that it makes.

## Main definitions

* `Linking.TypedBy`: the type of a symbol tells of an expression.
* `Linking.IndexTold`: so do the types of an index signature.
* `Linking.SignatureTold`: so does the type that a signature returns.
* `Linking.OwnerSigned`: the signatures of an owner are made of what was noted of them.

## Main results

* `GraphDraft.linked_typedBy`: a symbol has the type that was noted first of it.
* `GraphDraft.linked_ownerSigned`: all signatures are made that can be seen.
* `GraphDraft.linked_typeOf_cases`, `GraphDraft.linked_indexAt_cases`, `GraphDraft.linked_signatures`: all that is
  recorded tells of what was noted.
-/

namespace ApiDocs

namespace Linking

variable {E : List EnumDraft} {l l' : Linking} {s : SymbolId} {e : TypeExpr} {t : TypeId} {i : Nat} {α : Type}
  {S : SymbolId → Prop} {T : SymbolId → Nat → Prop}

/-! ## Types of symbols -/

/-- The type of the symbol tells of the expression. -/
def TypedBy (E : List EnumDraft) (e : TypeExpr) (s : SymbolId) (l : Linking) : Prop :=
  ∃ t, l.builder.typeOf s = some t ∧ Told E e t l

theorem TypedBy.frame (h : TypedBy E e s l) (hle : making.Le l l') (htouch : (touching S T).Le l l')
    (hs : ¬ S s) : TypedBy E e s l' := by
  obtain ⟨t, ht, htold⟩ := h
  exact ⟨t, (htouch.types s hs).trans ht, htold.mono hle⟩

/-- The expression that is noted first of a symbol. -/
def firstNote (notes : List (SymbolId × TypeExpr)) (s : SymbolId) : Option TypeExpr :=
  (notes.find? (·.1 = s)).map (·.2)

theorem setType_relying (hl : (relying (Telling E)).Good l) (ht : t.Within l.extent) :
    (relying (Telling E)).Runs (rebuild (·.setType s t)) l Anything :=
  runs_aside telling_overlooks hl.2 (setType_making hl.1 s ht) ⟨trivial, ⟨rfl, rfl, rfl, rfl⟩, trivial⟩

/-- A symbol without a type gets that of its note. -/
theorem linkType_tells (hl : (relying (Telling E)).Good l) (he : e.Within l.extent) (s : SymbolId) :
    (relying (Telling E)).Runs (linkType s e) l fun _ l' =>
      s.Within l.extent → l.builder.typeOf s = none → TypedBy E e s l' := by
  unfold linkType
  refine Growth.runs_get ?_
  split
  next hnone =>
    refine (materialize_tells hl he).bind fun t l₁ hl₁ hle₁ ht => ?_
    have hset := setType_relying (s := s) hl₁ ht.within
    exact ⟨hset.good, hset.le, fun hs _ => ⟨t, typeOf_setType_self (hs.mono hle₁.1.1), ht.mono hset.le⟩⟩
  next hsome =>
    refine Growth.runs_pure hl fun _ hnone => ?_
    simp [hnone] at hsome

/-- A symbol that has a type keeps it. -/
theorem linkTypes_typed {notes : List (SymbolId × TypeExpr)} (ht : l.builder.typeOf s = some t) :
    (touching (· ≠ s) fun _ _ => False).Runs (notes.forM fun p => linkType p.1 p.2) l Anything := by
  refine Growth.runs_forM trivial fun p _ l' _ hle => linkType_touching (fun hnone => ?_) p.2
  rintro rfl
  rw [hle.types p.1 (not_not_intro rfl), ht] at hnone
  cases hnone

/-- **Each symbol without a type gets that of its first note.** -/
theorem linkTypes_tell {notes : List (SymbolId × TypeExpr)} (hl : (relying (Telling E)).Good l)
    (hnotes : ∀ p ∈ notes, p.2.Within l.extent) :
    (relying (Telling E)).Runs (notes.forM fun p => linkType p.1 p.2) l fun _ l' =>
      ∀ s e, s.Within l.extent → l.builder.typeOf s = none → firstNote notes s = some e → TypedBy E e s l' := by
  induction notes generalizing l with
  | nil => exact Growth.runs_pure hl (by simp [firstNote])
  | cons p notes ih =>
    change (relying (Telling E)).Runs (linkType p.1 p.2 >>= fun _ => notes.forM fun p => linkType p.1 p.2) l _
    have hfirst := (linkType_tells hl (hnotes p (by simp)) p.1).framed
      (linkType_touching (S := (· = p.1)) (T := fun _ _ => False) (fun _ => rfl) p.2)
    refine hfirst.bind fun _ l₁ hl₁ hle₁ ⟨hp, hframe⟩ => ?_
    have hrest := ih hl₁ fun q hq => (hnotes q (by simp [hq])).mono hle₁.1.1
    refine ⟨hrest.good, hrest.le, fun s e hs hnone hnote => ?_⟩
    by_cases hsp : p.1 = s
    · subst hsp
      obtain rfl : p.2 = e := by simpa [firstNote] using hnote
      obtain ⟨t, ht, htold⟩ := hp hs hnone
      exact TypedBy.frame ⟨t, ht, htold⟩ hrest.le (linkTypes_typed ht).le (not_not_intro rfl)
    · refine hrest.post s e (hs.mono hle₁.1.1) ((hframe.types s (Ne.symm hsp)).trans hnone) ?_
      simpa [firstNote, hsp] using hnote

/-! ## Types of index signatures -/

/-- The symbol has the declaration. -/
def HasDeclaration (s : SymbolId) (i : Nat) (l : Linking) : Prop :=
  ∃ x, l.builder.graph.symbol? s = some x ∧ i < x.declarations.length

theorem HasDeclaration.frame (h : HasDeclaration s i l) (htouch : (touching S T).Le l l') :
    HasDeclaration s i l' := by
  obtain ⟨x, hx, hi⟩ := h
  obtain ⟨y, hy, hxy⟩ := Option.map_eq_some_iff.mp (htouch.bare hx)
  have hlength := congrArg (fun z : Symbol => z.declarations.length) hxy
  simp only [Symbol.bare, List.length_map] at hlength
  exact ⟨y, hy, hlength ▸ hi⟩

/-- The types tell of the key and the value of an index signature. -/
structure IndexTold (E : List EnumDraft) (x : IndexDraft) (types : IndexTypes) (l : Linking) : Prop where
  key : Option.Rel (fun e t => Told E e t l) x.key types.key
  value : ∃ v, types.value = some v ∧ Told E x.value v l

theorem IndexTold.mono {x : IndexDraft} {types : IndexTypes} (h : IndexTold E x types l) (hle : making.Le l l') :
    IndexTold E x types l' := by
  obtain ⟨hkey, v, hv, hvalue⟩ := h
  exact ⟨optionRel_imp (fun _ _ h => h.mono hle) hkey, v, hv, hvalue.mono hle⟩

/-- What the types of an index signature become, where its declaration is there. -/
theorem indexAt_modifyDeclaration (s : SymbolId) (i : Nat) (types : IndexTypes) :
    (l.builder.modifyDeclaration s i fun d => { d with index := some types }).indexAt s i =
      ((l.builder.graph.symbol? s).bind (·.declarations[i]?)).map fun _ => types := by
  rw [GraphBuilder.indexAt, GraphBuilder.modifyDeclaration, GraphBuilder.symbol?_modifySymbol, if_pos rfl]
  cases l.builder.graph.symbol? s with
  | none => rfl
  | some y => cases hi : y.declarations[i]? <;> simp [hi]

/-- An index signature gets its types. -/
theorem linkIndex_tells (hl : (relying (Telling E)).Good l) {draft : IndexDraft} (hdraft : draft.Within l.extent) :
    (relying (Telling E)).Runs (linkIndex draft) l fun _ l' => ∃ types, IndexTold E draft types l' ∧
      (∀ y, l'.builder.indexAt draft.symbol draft.declaration = some y → y = types) ∧
      (HasDeclaration draft.symbol draft.declaration l →
        l'.builder.indexAt draft.symbol draft.declaration = some types) := by
  have hkey : (relying (Telling E)).Runs (draft.key.mapM materialize) l fun k l' =>
      Option.Rel (fun e t => Told E e t l') draft.key k ∧ (∀ t ∈ k, t.Within l'.extent) ∧
        untouching.Le l l' := by
    cases hkey : draft.key with
    | none => exact Growth.runs_pure hl ⟨.none, by simp, untouching.refl l⟩
    | some key =>
      rw [Option.mapM_some, map_eq_pure_bind]
      refine ((materialize_tells hl (hdraft.key key hkey)).framed (materialize_touching key l)).bind
        fun t l₁ hl₁ _ ht => Growth.runs_pure hl₁ ⟨.some ht.1, ?_, ht.2⟩
      simpa using ht.1.within
  refine hkey.bind fun k l₁ hl₁ hle₁ ⟨hk, hkin, hframe₁⟩ => ?_
  have hvalue := (materialize_tells hl₁ (hdraft.value.mono hle₁.1.1)).framed
    (materialize_touching (S := fun _ => False) (T := fun _ _ => False) draft.value l₁)
  refine hvalue.bind fun v l₂ hl₂ hle₂ ⟨hv, hframe₂⟩ => ?_
  have hindex : IndexTypes.Within ⟨k, some v⟩ l₂.extent :=
    ⟨fun t ht => (hkin t ht).mono hle₂.1.1, by simpa using hv.within⟩
  have hgrown : l₂.builder.GrownTo (l₂.builder.modifyDeclaration draft.symbol draft.declaration fun d =>
      { d with index := some ⟨k, some v⟩ }) :=
    GraphBuilder.modifyDeclaration_grown hl₂.1.sound.builder fun d hd => { hd with index := by simpa using hindex }
  have hset : making.Runs (rebuild (·.modifyDeclaration draft.symbol draft.declaration fun d =>
      { d with index := some ⟨k, some v⟩ })) l₂ Anything :=
    rebuild_making hl₂.1 (rebuild_runs hl₂.1.sound hgrown) (.modifySymbol fun _ => rfl) rfl
  have hset' := runs_aside telling_overlooks hl₂.2 hset ⟨trivial, ⟨rfl, rfl, rfl, rfl⟩, trivial⟩
  have hat := indexAt_modifyDeclaration (l := l₂) draft.symbol draft.declaration ⟨k, some v⟩
  refine ⟨hset'.good, hset'.le, ⟨k, some v⟩, ⟨?_, v, rfl, hv.mono hset'.le⟩, fun y hy => ?_, fun hthere => ?_⟩
  · exact optionRel_imp (fun _ _ h => h.mono (making.trans hle₂ hset'.le)) hk
  · obtain ⟨-, -, rfl⟩ := Option.map_eq_some_iff.mp (hat.symm.trans hy)
    rfl
  · obtain ⟨y, hy, hi⟩ := (hthere.frame hframe₁).frame hframe₂
    refine hat.trans ?_
    rw [hy, Option.bind_some, List.getElem?_eq_getElem hi, Option.map_some]

/-- **The types of index signatures tell of notes.** Where there is one note only, they tell of it. -/
theorem linkIndexes_tell {drafts : List IndexDraft} (hl : (relying (Telling E)).Good l)
    (hdrafts : ∀ x ∈ drafts, x.Within l.extent) :
    (relying (Telling E)).Runs (drafts.forM linkIndex) l fun _ l' =>
      (∀ s i y, l'.builder.indexAt s i = some y → l.builder.indexAt s i = some y ∨
        ∃ x ∈ drafts, x.symbol = s ∧ x.declaration = i ∧ IndexTold E x y l') ∧
      ∀ x ∈ drafts, HasDeclaration x.symbol x.declaration l →
        (l'.builder.indexAt x.symbol x.declaration).isSome := by
  induction drafts generalizing l with
  | nil => exact Growth.runs_pure hl ⟨fun _ _ _ => .inl, by simp⟩
  | cons draft drafts ih =>
    change (relying (Telling E)).Runs (linkIndex draft >>= fun _ => drafts.forM linkIndex) l _
    have hfirst := (linkIndex_tells hl (hdrafts draft (by simp))).framed
      (linkIndex_touching (S := fun _ => False)
        (T := fun s i => s = draft.symbol ∧ i = draft.declaration) (l := l) ⟨rfl, rfl⟩)
    refine hfirst.bind fun _ l₁ hl₁ hle₁ ⟨⟨types, htold, honly, hthere⟩, hframe⟩ => ?_
    have hrest := ih hl₁ fun x hx => (hdrafts x (by simp [hx])).mono hle₁.1.1
    have htouch : (touching (fun _ => False) fun s i => ∃ y ∈ drafts, y.symbol = s ∧ y.declaration = i).Runs
        (drafts.forM linkIndex) l₁ Anything :=
      Growth.runs_forM trivial fun y hy _ _ _ => linkIndex_touching ⟨y, hy, rfl, rfl⟩
    refine ⟨hrest.good, hrest.le, fun s i y hy => ?_, fun x hx hdeclared => ?_⟩
    · obtain hy | ⟨x, hx, hplace⟩ := hrest.post.1 s i y hy
      · by_cases hplace : s = draft.symbol ∧ i = draft.declaration
        · obtain ⟨rfl, rfl⟩ := hplace
          obtain rfl := honly y hy
          exact .inr ⟨draft, by simp, rfl, rfl, htold.mono hrest.le⟩
        · exact .inl ((hframe.indexes s i hplace).symm.trans hy)
      · exact .inr ⟨x, by simp [hx], hplace⟩
    · obtain rfl | hx := List.mem_cons.mp hx
      · by_cases hagain : ∃ y ∈ drafts, y.symbol = x.symbol ∧ y.declaration = x.declaration
        · obtain ⟨y, hy, hsymbol, hdeclaration⟩ := hagain
          have hsome := hrest.post.2 y hy (by rw [hsymbol, hdeclaration]; exact hdeclared.frame hframe)
          rwa [hsymbol, hdeclaration] at hsome
        · have hkept := htouch.le.indexes x.symbol x.declaration hagain
          rw [hkept, hthere hdeclared]
          rfl
      · exact hrest.post.2 x hx (hdeclared.frame hframe)

/-! ## Results of signatures -/

/-- The expression of what a signature returns. -/
def resultExpr (draft : SignatureDraft) : TypeExpr :=
  match draft.result, draft.owner with
  | some e, _ => e
  | none, .construct s => .instanceOf s
  | none, .call _ => .any

/-- What a signature returns tells of an expression that is noted of it, or it is the instance that is made. -/
def SignatureTold (E : List EnumDraft) (noted : Signature → TypeExpr → Prop) (x : Signature) (l : Linking) : Prop :=
  ∃ e, (noted x e ∨ ∃ s, e = .instanceOf s) ∧ Told E e x.returnType l

/-- Signatures are made, and all return what is noted of them. -/
def returning (E : List EnumDraft) (noted : Signature → TypeExpr → Prop) : Growth Linking where
  Good l := (relying (Telling E)).Good l ∧
    ∀ {id x}, l.builder.graph.signature? id = some x → SignatureTold E noted x l
  Le l l' := making.Le l l' ∧
    ∀ {id x}, l.builder.graph.signature? id = some x → l'.builder.graph.signature? id = some x
  refl l := ⟨making.refl l, id⟩
  trans h h' := ⟨making.trans h.1 h'.1, h'.2 ∘ h.2⟩

variable {noted : Signature → TypeExpr → Prop} {P : α → Linking → Prop}

theorem SignatureTold.mono {x : Signature} (h : SignatureTold E noted x l) (hle : making.Le l l') :
    SignatureTold E noted x l' := by
  obtain ⟨e, he, ht⟩ := h
  exact ⟨e, he, ht.mono hle⟩

/-- A step that makes no signatures. -/
theorem returning_of_relying {x : LinkM α} (hl : (returning E noted).Good l) (h : (relying (Telling E)).Runs x l P)
    (hsignatures : (x l).2.builder.graph.signatures = l.builder.graph.signatures) :
    (returning E noted).Runs x l P := by
  refine ⟨⟨h.good, fun {id x} hx => ?_⟩, ⟨h.le, fun {id x} hx => ?_⟩, h.post⟩
  · rw [SymbolGraph.signature?, hsignatures] at hx
    exact (hl.2 hx).mono h.le
  · rwa [SymbolGraph.signature?, hsignatures]

/-- A step besides type aliases that makes no signatures. -/
theorem returning_of_making {x : LinkM α} (hl : (returning E noted).Good l) (h : making.Runs x l P)
    (haside : aside.Runs x l Anything) : (returning E noted).Runs x l P :=
  returning_of_relying hl (runs_aside telling_overlooks hl.1.2 h haside) haside.le.signatures

/-- A new signature. -/
theorem addSignature_returning (hl : (returning E noted).Good l) {x : Signature} (hx : x.Within l.extent)
    (htold : SignatureTold E noted x l) :
    (returning E noted).Runs (build (·.addSignature x)) l fun id l' =>
      id.Within l'.extent ∧ l'.builder.graph.signature? id = some x := by
  have hmade := addSignature_making hl.1.1 hx
  refine ⟨⟨⟨hmade.good, telling_overlooks _ _ hmade.le rfl hl.1.2⟩, fun {id y} hy => ?_⟩,
    ⟨hmade.le, signature?_addSignature_of_some⟩, hmade.post, signature?_addSignature l.builder x⟩
  have hpush : (l.builder.graph.signatures.push x)[id.index]? = some y := hy
  rw [Array.getElem?_push] at hpush
  split at hpush
  · obtain rfl := Option.some.inj hpush
    exact htold.mono hmade.le
  · exact (hl.2 hpush).mono hmade.le

theorem instanceType_returning (hl : (returning E noted).Good l) (hs : s.Within l.extent) :
    (returning E noted).Runs (instanceType s) l (Told E (.instanceOf s)) :=
  returning_of_making hl (instanceType_told hl.1.1 hs fun _ _ _ _ _ hr => .instanceOf hr) (instanceType_aside s)

/-- What a signature returns is of the type that is noted. -/
theorem resultType_returning (hl : (returning E noted).Good l) {draft : SignatureDraft}
    (hdraft : draft.Within l.extent) :
    (returning E noted).Runs (resultType draft) l (Told E (resultExpr draft)) := by
  obtain ⟨owner, parameters, result, pos, doc, hasBody⟩ := draft
  cases result with
  | some e =>
    have hmade := materialize_tells hl.1 (hdraft.result e rfl)
    exact returning_of_relying hl hmade (materialize_spares e l).signatures
  | none =>
    cases owner with
    | construct symbol => exact instanceType_returning hl hdraft.owner
    | call symbol =>
      exact returning_of_making hl (keyword_told hl.1.1 (keywordFlags?_word .any) (by decide)
        fun _ _ _ _ => .keyword .any) (intrinsic_aside _ _)

/-- The signature is made of what is noted. -/
def Signed (E : List EnumDraft) (draft : SignatureDraft) (x : SignatureId) (l : Linking) : Prop :=
  ∃ t, l.builder.graph.signature? x = some
    { parameters := draft.parameters, returnType := t, pos := some draft.pos, doc := draft.doc } ∧
      Told E (resultExpr draft) t l

theorem Signed.mono {draft : SignatureDraft} {x : SignatureId} (h : Signed E draft x l)
    (hle : (returning E noted).Le l l') : Signed E draft x l' := by
  obtain ⟨t, hx, ht⟩ := h
  exact ⟨t, hle.2 hx, ht.mono hle.1⟩

theorem makeSignature_returning (hl : (returning E noted).Good l) {draft : SignatureDraft}
    (hdraft : draft.Within l.extent)
    (hnoted : ∀ t, noted { parameters := draft.parameters, returnType := t, pos := some draft.pos, doc := draft.doc }
      (resultExpr draft)) :
    (returning E noted).Runs (makeSignature draft) l fun x l' => x.Within l'.extent ∧ Signed E draft x l' := by
  refine (resultType_returning hl hdraft).bind fun t l₁ hl₁ hle₁ ht => ?_
  have hadded := addSignature_returning hl₁ ⟨ht.within, fun p hp => (hdraft.parameters p hp).mono hle₁.1.1.1⟩
    ⟨_, .inl (hnoted t), ht⟩
  exact ⟨hadded.good, hadded.le, hadded.post.1, t, hadded.post.2, ht.mono hadded.le.1⟩

theorem setType_returning (hl : (returning E noted).Good l) (ht : t.Within l.extent) :
    (returning E noted).Runs (rebuild (·.setType s t)) l Anything :=
  returning_of_making hl (setType_making hl.1.1 s ht) ⟨trivial, ⟨rfl, rfl, rfl, rfl⟩, trivial⟩

/-- Constructors are stored beside the signatures. -/
theorem storeConstructors_returning (hl : (returning E noted).Good l) {xs : List SignatureId}
    (hxs : SignaturesThere xs l) :
    (returning E noted).Runs (modify fun l => { l with constructors := l.constructors.insert s xs }) l Anything := by
  have hstored : making.Runs (modify fun l => { l with constructors := l.constructors.insert s xs }) l Anything :=
    storeConstructors_making hl.1.1 hxs
  exact returning_of_relying hl ⟨⟨hstored.good, telling_overlooks _ _ hstored.le rfl hl.1.2⟩, hstored.le, trivial⟩ rfl

/-- The signatures by which the symbol is called. -/
def callsOf (l : Linking) (s : SymbolId) : Option (List SignatureId) :=
  ((l.builder.typeOf s).bind l.builder.typeCore?).map (·.callSignatures)

/-- The signatures of an owner that can be seen are made, in their order. Those of a function are what it is called
by, unless its type is another one because it is a class, too. -/
def OwnerSigned (E : List EnumDraft) (C : SymbolId → Prop) (owner : SignatureOwner) (drafts : List SignatureDraft)
    (l : Linking) : Prop :=
  ∃ xs, List.Forall₂ (fun draft x => Signed E draft x l) (visibleSignatures drafts) xs ∧
    ∀ s, owner = .call s → ¬ C s → l.callsOf s = some xs

theorem OwnerSigned.frame {C : SymbolId → Prop} {owner : SignatureOwner} {drafts : List SignatureDraft}
    (h : OwnerSigned E C owner drafts l) (hle : (returning E noted).Le l l') (htouch : (touching S T).Le l l')
    (hS : ∀ s, owner = .call s → ¬ C s → ¬ S s) : OwnerSigned E C owner drafts l' := by
  obtain ⟨xs, hxs, hcalls⟩ := h
  refine ⟨xs, hxs.imp fun _ _ h => h.mono hle, fun s howner hs => ?_⟩
  obtain ⟨n, hn, rfl⟩ := Option.map_eq_some_iff.mp (hcalls s howner hs)
  obtain ⟨t, ht, hn⟩ := Option.bind_eq_some_iff.mp hn
  rw [callsOf, htouch.types s (hS s howner hs), ht, Option.bind_some, hle.1.2.builder.type hn, Option.map_some]

/-- A function is called by its signatures. -/
theorem functionType_returning (hl : (returning E noted).Good l) (hs : s.Within l.extent) {xs : List SignatureId}
    (hxs : SignaturesThere xs l) :
    (returning E noted).Runs (do
      let t ← build fun b => b.functionType ("typeof " ++ b.nameOf s) xs
      rebuild (·.setType s t)) l fun _ l' => l'.callsOf s = some xs := by
  have hruns := build_runs hl.1.1.sound (GraphBuilder.functionType_runs hl.1.1.sound.builder
    (fun b => "typeof " ++ b.nameOf s) hxs)
  refine (returning_of_making hl (addType_making hl.1.1 hruns) addType_aside).bind fun t l₁ hl₁ hle₁ ht => ?_
  have hset := setType_returning (s := s) hl₁ ht.1
  refine ⟨hset.good, hset.le, ?_⟩
  have htype : (rebuild (·.setType s t) l₁).2.builder.typeOf s = some t := typeOf_setType_self (hs.mono hle₁.1.1.1)
  rw [callsOf, htype, Option.bind_some, hset.le.1.2.builder.type ht.2]
  rfl

/-- The signatures of an owner are made of what is noted of them. -/
theorem linkOwner_returning (hl : (returning E noted).Good l) {owner : SignatureOwner}
    {drafts : List SignatureDraft} (howner : owner.Within l.extent) (hdrafts : ∀ x ∈ drafts, x.Within l.extent)
    (hnoted : ∀ x ∈ drafts, ∀ t,
      noted { parameters := x.parameters, returnType := t, pos := some x.pos, doc := x.doc } (resultExpr x))
    (C : SymbolId → Prop) :
    (returning E noted).Runs (linkOwner owner drafts) l fun _ l' => OwnerSigned E C owner drafts l' := by
  have hsignatures : (returning E noted).Runs ((visibleSignatures drafts).mapM makeSignature) l fun xs l' =>
      List.Forall₂ (fun draft x => x.Within l'.extent ∧ Signed E draft x l') (visibleSignatures drafts) xs := by
    refine Growth.runs_mapM_forall₂ (G := returning E noted) hl
      (fun draft x _ _ hle h => ⟨h.1.mono hle.1.1.1, h.2.mono hle⟩) fun x hx l' hl' hle' => ?_
    have hmem := mem_of_mem_visibleSignatures hx
    exact makeSignature_returning hl' ((hdrafts x hmem).mono hle'.1.1.1) (hnoted x hmem)
  refine hsignatures.bind fun xs l₁ hl₁ hle₁ hsigned => ?_
  have hxs : SignaturesThere xs l₁ := fun x hx => by
    obtain ⟨draft, -, hin, -⟩ := forall₂_mem_right hsigned hx
    exact hin
  have hsigned : ∀ {l'}, (returning E noted).Le l₁ l' →
      List.Forall₂ (fun draft x => Signed E draft x l') (visibleSignatures drafts) xs :=
    fun hle => hsigned.imp fun _ _ h => h.2.mono hle
  cases owner with
  | call symbol =>
    have hcalled := functionType_returning hl₁ (s := symbol) (howner.mono hle₁.1.1.1) hxs
    refine ⟨hcalled.good, hcalled.le, xs, hsigned hcalled.le, ?_⟩
    rintro s ⟨⟩ -
    exact hcalled.post
  | construct symbol =>
    refine Growth.runs_get ?_
    split
    · have hstored := storeConstructors_returning (s := symbol) hl₁ hxs
      exact ⟨hstored.good, hstored.le, xs, hsigned hstored.le, nofun⟩
    · have hadded : (returning E noted).Runs (do
          let t ← instanceType symbol
          xs.forM fun x => rebuild (·.addConstructSignature t x)) l₁ Anything := by
        refine (instanceType_returning hl₁ (s := symbol) (howner.mono hle₁.1.1.1)).bind fun t l₂ hl₂ hle₂ ht => ?_
        refine Growth.runs_forM (G := returning E noted) hl₂ fun x hx l' hl' hle' => ?_
        have hin := (hxs x hx).mono ((returning E noted).trans hle₂ hle').1.1.1
        have hadded : making.Runs (rebuild (·.addConstructSignature t x)) l' Anything :=
          rebuild_making hl'.1.1 (rebuild_runs hl'.1.1.sound
            (GraphBuilder.addConstructSignature_grown hl'.1.1.sound.builder hin)) (.modifyType fun _ => rfl) rfl
        exact returning_of_making hl' hadded ⟨trivial, ⟨rfl, rfl, rfl, rfl⟩, trivial⟩
      exact ⟨hadded.good, hadded.le, xs, hsigned hadded.le, nofun⟩

/-- The signatures of all owners are made of what is noted of them. -/
theorem linkOwners_returning {groups : List (SignatureOwner × List SignatureDraft)} {C : SymbolId → Prop}
    (hl : (returning E noted).Good l) (hkeys : (groups.map Prod.fst).Nodup)
    (hgroups : ∀ g ∈ groups, g.1.Within l.extent ∧ ∀ x ∈ g.2, x.Within l.extent)
    (hnoted : ∀ g ∈ groups, ∀ x ∈ g.2, ∀ t,
      noted { parameters := x.parameters, returnType := t, pos := some x.pos, doc := x.doc } (resultExpr x)) :
    (returning E noted).Runs (groups.forM fun g => linkOwner g.1 g.2) l fun _ l' =>
      ∀ g ∈ groups, OwnerSigned E C g.1 g.2 l' := by
  induction groups generalizing l with
  | nil => exact Growth.runs_pure hl (by simp)
  | cons g groups ih =>
    obtain ⟨hfresh, hkeys⟩ := List.nodup_cons.mp hkeys
    obtain ⟨hg, hrestIn⟩ := List.forall_mem_cons.mp hgroups
    obtain ⟨hgnoted, hrestNoted⟩ := List.forall_mem_cons.mp hnoted
    change (returning E noted).Runs (linkOwner g.1 g.2 >>= fun _ => groups.forM fun g => linkOwner g.1 g.2) l _
    refine (linkOwner_returning hl hg.1 hg.2 hgnoted C).bind fun _ l₁ hl₁ hle₁ hfirst => ?_
    have hrest := ih hl₁ hkeys (fun g hg => ⟨(hrestIn g hg).1.mono hle₁.1.1.1,
      fun x hx => ((hrestIn g hg).2 x hx).mono hle₁.1.1.1⟩) hrestNoted
    -- The others are functions of their own.
    have htouch : (touching (fun s => ∃ g ∈ groups, g.1 = .call s) fun _ _ => False).Runs
        (groups.forM fun g => linkOwner g.1 g.2) l₁ Anything :=
      Growth.runs_forM trivial fun g hg _ _ _ => linkOwner_touching (fun s hs => ⟨g, hg, hs⟩) g.2
    refine ⟨hrest.good, hrest.le, List.forall_mem_cons.mpr ⟨hfirst.frame hrest.le htouch.le ?_, hrest.post⟩⟩
    rintro s howner - ⟨g', hg', howner'⟩
    exact hfresh (List.mem_map.mpr ⟨g', hg', howner'.trans howner.symm⟩)

/-! ## Constructors -/

/-- A copy of an inherited constructor returns the instance that it makes. -/
theorem inheritSignature_returning (hl : (returning E noted).Good l) (ht : Told E (.instanceOf s) t l)
    (id : SignatureId) :
    (returning E noted).Runs (inheritSignature t id) l fun o l' => ∀ x ∈ o, x.Within l'.extent := by
  unfold inheritSignature
  refine Growth.runs_get ?_
  split
  next x hx =>
    have hin := hl.1.1.sound.builder.graph.signatures x (Array.mem_of_getElem? hx)
    refine (addSignature_returning hl (x := { x with returnType := t }) ⟨ht.within, hin.parameters⟩
      ⟨_, .inr ⟨s, rfl⟩, ht⟩).bind fun y l₁ hl₁ _ hy => Growth.runs_pure hl₁ ?_
    simpa using hy.1
  next => exact Growth.runs_pure hl (by simp)

/-- How constructors of a class are got that return the instances they make. -/
def ConstructsReturning (E : List EnumDraft) (noted : Signature → TypeExpr → Prop)
    (f : SymbolId → LinkM (List SignatureId)) : Prop :=
  ∀ (s : SymbolId) (l : Linking), (returning E noted).Good l → s.Within l.extent →
    (returning E noted).Runs (f s) l SignaturesThere

theorem impliedConstructors_returning {inherit? : Option (SymbolId → LinkM (List SignatureId))}
    (hinherit : ∀ f ∈ inherit?, ConstructsReturning E noted f) (hl : (returning E noted).Good l)
    {base : Option SymbolId} (hbase : ∀ x ∈ base, x.Within l.extent) (ht : Told E (.instanceOf s) t l) :
    (returning E noted).Runs (impliedConstructors inherit? base t) l SignaturesThere := by
  unfold impliedConstructors
  split
  next base inherit =>
    refine (hinherit inherit rfl base l hl (hbase base rfl)).bind fun inherited l₁ hl₁ hle₁ _ => ?_
    have hcopies := Growth.runs_mapM_filterMap (G := returning E noted) (l := inherited) hl₁
      (fun x _ _ hle h => h.mono hle.1.1.1) fun id _ l' hl' hle' =>
        inheritSignature_returning hl' (ht.mono (making.trans hle₁.1 hle'.1)) id
    exact hcopies.bind fun found l₂ hl₂ _ hfound => Growth.runs_pure hl₂ hfound
  next =>
    refine (addSignature_returning hl (x := { parameters := [], returnType := t }) ⟨ht.within, by simp⟩
      ⟨_, .inr ⟨s, rfl⟩, ht⟩).bind fun x l₁ hl₁ _ hx => Growth.runs_pure hl₁ ?_
    exact List.forall_mem_singleton.mpr hx.1

theorem constructorsVia_returning {inherit? : Option (SymbolId → LinkM (List SignatureId))}
    (hinherit : ∀ f ∈ inherit?, ConstructsReturning E noted f) (bases : Table SymbolId NameRef) :
    ConstructsReturning E noted (constructorsVia inherit? bases) := by
  intro s l hl hs
  unfold constructorsVia
  refine Growth.runs_get ?_
  split
  next xs hxs =>
    exact Growth.runs_pure hl (hl.1.1.sound.tables.constructors xs (Table.mem_values_of_get? hxs))
  next =>
    refine Growth.runs_get ?_
    refine (instanceType_returning hl hs).bind fun t l₁ hl₁ hle₁ ht => ?_
    have hbase : ∀ x ∈ l.baseOf? bases s, x.Within l₁.extent :=
      fun x hx => (baseOf?_within hl.1.1.sound bases s x hx).mono hle₁.1.1.1
    refine (impliedConstructors_returning hinherit hl₁ hbase ht).bind fun xs l₂ hl₂ _ hxs => ?_
    exact (storeConstructors_returning hl₂ hxs).handBack (fun _ _ hle h x hx => (h x hx).mono hle.1.1.1) hxs

theorem constructorsOf_returning (bases : Table SymbolId NameRef) (depth : Nat) :
    ConstructsReturning E noted (constructorsOf bases depth) := by
  induction depth with
  | zero => exact constructorsVia_returning (by simp) bases
  | succ depth ih =>
    refine constructorsVia_returning (fun f hf => ?_) bases
    cases hf
    exact ih

theorem linkClass_returning (hl : (returning E noted).Good l) (bases : Table SymbolId NameRef) {draft : ClassDraft}
    (hs : draft.symbol.Within l.extent) : (returning E noted).Runs (linkClass bases draft) l Anything := by
  refine (constructorsOf_returning bases maxExpansion draft.symbol l hl hs).bind fun xs l₁ hl₁ hle₁ hxs => ?_
  have hruns := build_runs hl₁.1.1.sound
    (GraphBuilder.constructorType_runs hl₁.1.1.sound.builder (hs.mono hle₁.1.1.1) hxs)
  refine (returning_of_making hl₁ (build_making hl₁.1.1 hruns (.addType _) rfl) addType_aside).bind
    fun t l₂ hl₂ _ ht => ?_
  exact setType_returning hl₂ ht

/-! ## Types of enums, functions and classes -/

/-- The type of the symbol is read at a glance: it is neither a reference nor made of other types. -/
def PlainTyped (s : SymbolId) (l : Linking) : Prop :=
  ∃ t x, l.builder.typeOf s = some t ∧ l.builder.typeCore? t = some x ∧
    (x.shape = .simple ∨ (∃ s, x.shape = .enumUnion s) ∨ ∃ primitive value, x.shape = .enumLiteral primitive value)

/-- Such a type is not documented as an array. -/
theorem PlainTyped.not_arrayOf (h : PlainTyped s l) (ht : l.builder.typeOf s = some t)
    {refs : RefTable SymbolId} {n : Nat} {d : TypeDoc} : ¬ l.builder.graph.Described refs n t (.arrayOf d) := by
  obtain ⟨t', x, ht', hx, hshape⟩ := h
  obtain rfl := Option.some.inj (ht.symm.trans ht')
  intro hd
  cases n with
  | zero =>
    obtain ⟨y, -, hd⟩ := hd
    cases hd
  | succ n =>
    have hshows := shows_of_described hx hd
    obtain hshape | ⟨s, hshape⟩ | ⟨p, v, hshape⟩ := hshape
    · rw [hshape] at hshows
      cases hshows
    · rw [hshape] at hshows
      obtain ⟨r, -, hd⟩ := hshows
      cases hd
    · rw [hshape] at hshows
      cases hshows

theorem PlainTyped.within (h : PlainTyped s l) : s.Within l.extent := by
  obtain ⟨t, -, ht, -⟩ := h
  obtain ⟨x, hx, -⟩ := Option.bind_eq_some_iff.mp ht
  exact (Array.getElem?_eq_some_iff.mp hx).1

theorem PlainTyped.frame (h : PlainTyped s l) (hkeeps : l.builder.Keeps l'.builder)
    (htouch : (touching S T).Le l l') (hs : ¬ S s) : PlainTyped s l' := by
  obtain ⟨t, x, ht, hx, hshape⟩ := h
  exact ⟨t, x, (htouch.types s hs).trans ht, hkeeps.type hx, hshape⟩

/-- Types that are read at a glance stay. -/
def plainly (G : Growth Linking) : Growth Linking where
  Good := G.Good
  Le l l' := G.Le l l' ∧ ∀ s, PlainTyped s l → PlainTyped s l'
  refl l := ⟨G.refl l, fun _ => id⟩
  trans h h' := ⟨G.trans h.1 h'.1, fun s => h'.2 s ∘ h.2 s⟩

/-- A step that touches only symbols without types. -/
theorem plainly_of_touching {G : Growth Linking} {x : LinkM α} (h : G.Runs x l P)
    (hkeeps : l.builder.Keeps (x l).2.builder) (htouch : (touching S T).Runs x l Anything)
    (hS : ∀ s, S s → l.builder.typeOf s = none) : (plainly G).Runs x l P := by
  refine ⟨h.good, ⟨h.le, fun s hs => ?_⟩, h.post⟩
  obtain ⟨t, -, ht, -⟩ := id hs
  refine hs.frame hkeeps htouch.le fun hS' => ?_
  rw [hS s hS'] at ht
  cases ht

/-- A step after which all symbols that it touches have such types. -/
theorem plainly_of_plain {G : Growth Linking} {x : LinkM α} (h : G.Runs x l P)
    (hkeeps : l.builder.Keeps (x l).2.builder) (htouch : (touching S T).Runs x l Anything)
    (hplain : ∀ s, S s → s.Within l.extent → PlainTyped s (x l).2) :
    (plainly G).Runs x l fun _ l' => ∀ s, S s → s.Within l.extent → PlainTyped s l' := by
  refine ⟨h.good, ⟨h.le, fun s hs => ?_⟩, hplain⟩
  by_cases hS : S s
  · exact hplain s hS hs.within
  · exact hs.frame hkeeps htouch.le hS

theorem HasMemberType.plainTyped {value : Option Literal} (h : HasMemberType s value l) : PlainTyped s l := by
  obtain ⟨t, ht, x, hx, hnode⟩ := h
  refine ⟨t, x, ht, hx, ?_⟩
  cases value with
  | some v => exact .inr (.inr ⟨_, v, hnode⟩)
  | none =>
    rw [show x = numberNode from hnode]
    exact .inl (by decide)

/-- An enum and its members get such types. -/
theorem linkEnum_plain (hl : (enumTelling E).Good l) {draft : EnumDraft} (hdraft : draft.Within l.extent)
    (hmem : draft ∈ E) :
    (plainly (enumTelling E)).Runs (linkEnum draft) l fun _ l' =>
      PlainTyped draft.symbol l' ∧ ∀ m ∈ draft.members, PlainTyped m.1 l' := by
  let PlainMember (m : SymbolId × Option Literal) (_ : Option TypeId) (l' : Linking) : Prop := PlainTyped m.1 l'
  have hplain : (plainly (enumTelling E)).Runs (draft.members.mapM fun m => linkMember m.1 m.2) l fun found l' =>
      List.Forall₂ (fun m o => PlainMember m o l') draft.members found := by
    refine Growth.runs_mapM_forall₂ (G := plainly (enumTelling E)) (P := PlainMember) hl
      (fun m o _ _ hle => hle.2 m.1) fun m hm l' hl' hle' => ?_
    have hmember := linkMember_telling hl' ((hdraft.members m hm).mono hle'.1.1.1) hmem hm
    have hstep := plainly_of_plain hmember hmember.le.2
      (linkMember_touching (S := (· = m.1)) (T := fun _ _ => False) rfl m.2) fun s hs _ => by
        subst hs
        exact hmember.post.2.plainTyped
    exact ⟨hstep.good, hstep.le, hmember.post.2.plainTyped⟩
  refine (hplain.both (linkMembers_telling hl hdraft.members hmem fun _ => id)).bind
    fun found l₁ hl₁ hle₁ ⟨hplain, hfound, _⟩ => ?_
  have hunion := linkUnion_telling hl₁ (hdraft.symbol.mono hle₁.1.1.1) hmem rfl hfound
  have hself : PlainTyped draft.symbol (linkUnion draft.symbol (found.filterMap id) l₁).2 := by
    obtain ⟨t, x, ht, hx, hshape⟩ := hunion.post
    exact ⟨t, x, ht, hx, .inr (.inl ⟨_, hshape⟩)⟩
  have hstep := plainly_of_plain hunion hunion.le.2
    (linkUnion_touching (S := (· = draft.symbol)) (T := fun _ _ => False) rfl _) fun s hs _ => hs ▸ hself
  refine ⟨hstep.good, hstep.le, hself, fun m hm => hstep.le.2 m.1 ?_⟩
  obtain ⟨o, -, ho⟩ := forall₂_mem_left hplain hm
  exact ho

/-- A symbol gets a new type that is read at a glance. -/
theorem setNewType_plain (hl : l.Orderly) (hs : s.Within l.extent) {n : GraphBuilder → TypeNode}
    (hruns : growth.Runs (build fun b => b.addType (n b)) l TypeThere) (hshape : (n l.builder).shape = .simple) :
    making.Runs (do
      let t ← build fun b => b.addType (n b)
      rebuild (·.setType s t)) l fun _ l' => PlainTyped s l' := by
  refine (addType_making hl hruns).bind fun t l₁ hl₁ hle₁ ht => ?_
  have hset := setType_making hl₁ s ht.1
  exact ⟨hset.good, hset.le, t, _, typeOf_setType_self (hs.mono hle₁.1.1), hset.le.2.builder.type ht.2, .inl hshape⟩

/-- A function gets such a type. -/
theorem linkOwner_plain (hl : l.Orderly) {owner : SignatureOwner} {drafts : List SignatureDraft}
    (howner : owner.Within l.extent) (hdrafts : ∀ x ∈ drafts, x.Within l.extent) :
    (plainly making).Runs (linkOwner owner drafts) l fun _ l' => ∀ s, owner = .call s → PlainTyped s l' := by
  have hmade := making_of_makingOf (linkOwner_makingOf hl howner hdrafts fun _ _ _ _ => trivial)
  have htouch := linkOwner_touching (S := fun s => owner = .call s) (T := fun _ _ => False) (l := l)
    (fun _ => id) drafts
  have hself : ∀ s, owner = .call s → PlainTyped s (linkOwner owner drafts l).2 := by
    rintro s rfl
    have hsignatures := making_of_makingOf (makeSignatures_makingOf hl hdrafts fun _ _ _ _ => trivial)
    refine (hsignatures.bind fun xs l₁ hl₁ hle₁ hxs => ?_ :
      making.Runs (linkOwner (.call s) drafts) l fun _ l' => PlainTyped s l').post
    have hruns := build_runs hl₁.sound (GraphBuilder.functionType_runs hl₁.sound.builder
      (fun b => "typeof " ++ b.nameOf s) hxs)
    exact setNewType_plain hl₁ (SymbolId.Within.mono hle₁.1.1 howner) hruns
      (TypeNode.shape_of_anonymous rfl rfl rfl)
  have hstep := plainly_of_plain hmade hmade.le.2.builder htouch fun s hs _ => hself s hs
  exact ⟨hstep.good, hstep.le, hself⟩

/-- A class gets such a type. -/
theorem linkClass_plain (hl : l.Orderly) (bases : Table SymbolId NameRef) {draft : ClassDraft}
    (hs : draft.symbol.Within l.extent) :
    (plainly making).Runs (linkClass bases draft) l fun _ l' => PlainTyped draft.symbol l' := by
  have hmade := making_of_makingOf (E := fun _ => True) (linkClass_makingOf hl bases hs)
  have hself : making.Runs (linkClass bases draft) l fun _ l' => PlainTyped draft.symbol l' := by
    have hconstructors := constructorsOf_makingOf (E := fun _ => True) bases maxExpansion draft.symbol l hl hs
    refine (making_of_makingOf hconstructors).bind fun xs l₁ hl₁ hle₁ hxs => ?_
    have hs₁ := hs.mono hle₁.1.1
    have hruns := build_runs hl₁.sound (GraphBuilder.constructorType_runs hl₁.sound.builder hs₁ hxs)
    exact setNewType_plain hl₁ hs₁ hruns (TypeNode.shape_of_anonymous rfl rfl rfl)
  have hstep := plainly_of_plain hmade hmade.le.2.builder
    (linkClass_touching (S := (· = draft.symbol)) (T := fun _ _ => False) rfl bases)
    fun s hs _ => hs ▸ hself.post
  exact ⟨hstep.good, hstep.le, hself.post⟩

end Linking

/-! ## Drafts -/

namespace GraphDraft

open Linking

variable {d : GraphDraft} {s : SymbolId} {e : TypeExpr}

/-- The symbol is an enum or a member of one, a function or a class. What is noted of its type may be lost. -/
def TypedAside (d : GraphDraft) (s : SymbolId) : Prop :=
  (∃ e ∈ d.enums, e.symbol = s ∨ ∃ m ∈ e.members, m.1 = s) ∨ (∃ x ∈ d.signatures, x.owner = .call s) ∨
    ∃ c ∈ d.classes, c.symbol = s

/-- The symbol is a function or a class, which get their types last. -/
def TypedLast (d : GraphDraft) (s : SymbolId) : Prop :=
  (∃ x ∈ d.signatures, x.owner = .call s) ∨ ∃ c ∈ d.classes, c.symbol = s

/-- Linking, when symbols and index signatures have their types. -/
def valuesSettled (d : GraphDraft) : Linking := (d.settleValues d.namesSettled).2

/-- **What is recorded when symbols and index signatures have their types.** -/
theorem settleValues_tells (hd : d.Sound) (hu : d.Untyped) :
    (relying (Telling d.enums)).Runs d.settleValues d.namesSettled fun _ l' =>
      (∀ s e, s.Within d.extent → ¬ d.TypedAside s → firstNote d.symbolTypes s = some e → TypedBy d.enums e s l') ∧
      (∀ s i y, l'.builder.indexAt s i = some y →
        ∃ x ∈ d.indexes, x.symbol = s ∧ x.declaration = i ∧ IndexTold d.enums x y l') ∧
      ∀ x ∈ d.indexes, HasDeclaration x.symbol x.declaration d.begun →
        (l'.builder.indexAt x.symbol x.declaration).isSome := by
  have hgood := namesSettled_telling hd hu
  have hnames := (settleNames_touching d d.begun).le
  obtain ⟨-, hnotes⟩ := namesSettled_orderly hd hu.intrinsics
  have hgrows : d.extent.Le d.namesSettled.extent := (settleNames_enums hd hu.intrinsics).2.1.1
  have htypes := linkTypes_tell hgood hnotes.symbolTypes
  have htouch : (touching (fun _ => True) fun _ _ => False).Runs
      (d.symbolTypes.forM fun p => linkType p.1 p.2) d.namesSettled Linking.Anything :=
    Growth.runs_forM trivial fun p _ _ _ _ => linkType_touching (fun _ => trivial) p.2
  refine (htypes.framed htouch).bind fun _ l₁ hl₁ hle₁ ⟨htypes, hframe⟩ => ?_
  have hindexes := linkIndexes_tell hl₁ fun x hx => (hnotes.indexes x hx).mono hle₁.1.1
  have htouch' : (touching (fun _ => False) fun _ _ => True).Runs (d.indexes.forM linkIndex) l₁ Linking.Anything :=
    Growth.runs_forM trivial fun x _ _ _ _ => linkIndex_touching trivial
  refine ⟨hindexes.good, hindexes.le, fun s e hs haside hnote => ?_, fun s i y hy => ?_, fun x hx hthere => ?_⟩
  · refine (htypes s e (hs.mono hgrows) ?_ hnote).frame hindexes.le htouch'.le id
    exact (hnames.types s fun henum => haside (.inl henum)).trans (hu.types s)
  · refine (hindexes.post.1 s i y hy).resolve_left fun hbefore => ?_
    have hnone : l₁.builder.indexAt s i = none :=
      ((hframe.indexes s i id).trans (hnames.indexes s i id)).trans (hu.indexes s i)
    rw [hnone] at hbefore
    cases hbefore
  · exact hindexes.post.2 x hx ((hthere.frame hnames).frame hframe)

/-- The signature is as it is noted, and the expression is that of what it returns. -/
def NotesResult (d : GraphDraft) (x : Signature) (e : TypeExpr) : Prop :=
  ∃ draft ∈ d.signatures, x.parameters = draft.parameters ∧ x.pos = some draft.pos ∧ x.doc = draft.doc ∧
    e = resultExpr draft

/-- When functions and classes get their types, what is recorded stays, and signatures are made of what is noted. -/
theorem settleCalls_returning {l : Linking} (hl : (returning d.enums d.NotesResult).Good l)
    (hnotes : d.NotesWithin l.extent) :
    (returning d.enums d.NotesResult).Runs (do d.settleOwners; d.settleClasses) l fun _ l' =>
      ∀ g ∈ (groupByOwner d.signatures).entries,
        OwnerSigned d.enums (fun s => ∃ c ∈ d.classes, c.symbol = s) g.1 g.2 l' := by
  have howners : (returning d.enums d.NotesResult).Runs d.settleOwners l fun _ l' =>
      ∀ g ∈ (groupByOwner d.signatures).entries,
        OwnerSigned d.enums (fun s => ∃ c ∈ d.classes, c.symbol = s) g.1 g.2 l' := by
    refine linkOwners_returning hl (groupByOwner d.signatures).distinct (groupByOwner_within hnotes.signatures)
      fun g hg x hx t => ⟨x, ?_, rfl, rfl, rfl, rfl⟩
    rw [(mem_groupByOwner_iff.mp hg).1] at hx
    exact (List.mem_filter.mp hx).1
  refine howners.bind fun _ l₁ hl₁ hle₁ hsigned => ?_
  have hclasses : (returning d.enums d.NotesResult).Runs d.settleClasses l₁ Linking.Anything :=
    Growth.runs_forM (G := returning d.enums d.NotesResult) hl₁ fun c hc l' hl' hle' =>
      linkClass_returning hl' _ ((hnotes.classes c hc).mono (making.trans hle₁.1 hle'.1).1.1)
  have htouch : (touching (fun s => ∃ c ∈ d.classes, c.symbol = s) fun _ _ => False).Runs d.settleClasses l₁
      Linking.Anything :=
    Growth.runs_forM trivial fun c hc _ _ _ => linkClass_touching ⟨c, hc, rfl⟩ _
  exact ⟨hclasses.good, hclasses.le, fun g hg =>
    (hsigned g hg).frame hclasses.le htouch.le fun _ _ => id⟩

theorem settleCalls_touching (d : GraphDraft) (l : Linking) :
    (touching d.TypedLast fun _ _ => False).Runs (do d.settleOwners; d.settleClasses) l Linking.Anything := by
  have howners : (touching d.TypedLast fun _ _ => False).Runs d.settleOwners l Linking.Anything := by
    refine Growth.runs_forM (f := fun x : SignatureOwner × List SignatureDraft => linkOwner x.1 x.2) trivial
      fun x hx _ _ _ => linkOwner_touching (fun s hs => ?_) x.2
    obtain ⟨hgroup, hne⟩ := mem_groupByOwner_iff.mp hx
    obtain ⟨y, hy⟩ := List.exists_mem_of_ne_nil _ hne
    rw [hgroup, List.mem_filter] at hy
    exact .inl ⟨y, hy.1, (of_decide_eq_true hy.2).trans hs⟩
  exact howners.bind fun _ _ _ _ _ =>
    Growth.runs_forM trivial fun c hc _ _ _ => linkClass_touching (.inr ⟨c, hc, rfl⟩) _

/-- What happens when functions and classes get their types. -/
theorem valuesSettled_returning (hd : d.Sound) (hu : d.Untyped) :
    (returning d.enums d.NotesResult).Runs (do d.settleOwners; d.settleClasses) d.valuesSettled fun _ l' =>
      ∀ g ∈ (groupByOwner d.signatures).entries,
        OwnerSigned d.enums (fun s => ∃ c ∈ d.classes, c.symbol = s) g.1 g.2 l' := by
  obtain ⟨-, hnotes⟩ := namesSettled_orderly hd hu.intrinsics
  have hvalues := settleValues_tells hd hu
  refine settleCalls_returning ⟨hvalues.good, fun {id x} hx => ?_⟩ (hnotes.mono hvalues.le.1.1)
  -- No signature was made before.
  rw [SymbolGraph.signature?, valuesSettled, (settleValues_spares d).signatures] at hx
  change d.builder.graph.signatures[id.index]? = some x at hx
  rw [hu.signatures] at hx
  cases hx

/-- Nothing that is recorded is lost when functions and classes get their types. -/
theorem valuesSettled_linked (hd : d.Sound) (hu : d.Untyped) :
    (returning d.enums d.NotesResult).Good d.linked ∧ making.Le d.valuesSettled d.linked ∧
      (touching d.TypedLast fun _ _ => False).Le d.valuesSettled d.linked := by
  have hcalls := valuesSettled_returning hd hu
  exact ⟨hcalls.good, hcalls.le.1, (settleCalls_touching d d.valuesSettled).le⟩

/-- From when names are settled on, types that are read at a glance stay, and functions and classes get such. -/
theorem settleTypes_plain {l : Linking} (hl : l.Orderly) (hnotes : d.NotesWithin l.extent) :
    (plainly making).Runs d.settleTypes l fun _ l' => ∀ s, (∃ x ∈ d.signatures, x.owner = .call s) ∨
      (∃ c ∈ d.classes, c.symbol = s) → PlainTyped s l' := by
  have htypes : (plainly making).Runs (d.symbolTypes.forM fun p => linkType p.1 p.2) l Linking.Anything := by
    refine Growth.runs_forM (G := plainly making) hl fun p hp l' hl' hle' => ?_
    have hmade := making_of_makingOf (E := fun _ => True)
      (linkType_makingOf hl' p.1 ((hnotes.symbolTypes p hp).mono hle'.1.1.1) trivial)
    exact plainly_of_touching hmade hmade.le.2.builder
      (linkType_touching (S := fun s => l'.builder.typeOf s = none) (T := fun _ _ => False) id p.2) fun _ => id
  have hvalues : (plainly making).Runs d.settleValues l Linking.Anything := by
    refine htypes.bind fun _ l₁ hl₁ hle₁ _ => ?_
    refine Growth.runs_forM (G := plainly making) hl₁ fun x hx l' hl' hle' => ?_
    have hmade := making_of_makingOf (E := fun _ => True) (linkIndex_makingOf hl'
      ((hnotes.indexes x hx).mono (making.trans hle₁.1 hle'.1).1.1) (fun _ _ => trivial) trivial)
    exact plainly_of_touching hmade hmade.le.2.builder
      (linkIndex_touching (S := fun _ => False) (T := fun _ _ => True) trivial) fun _ => False.elim
  refine hvalues.bind fun _ l₁ hl₁ hle₁ _ => ?_
  have hnotes₁ := hnotes.mono hle₁.1.1.1
  have hgroups := groupByOwner_within hnotes₁.signatures
  have howners : (plainly making).Runs d.settleOwners l₁ fun _ l' =>
      ∀ x ∈ (groupByOwner d.signatures).entries, ∀ s, x.1 = .call s → PlainTyped s l' := by
    refine Growth.runs_forM_forall (G := plainly making)
      (f := fun x : SignatureOwner × List SignatureDraft => linkOwner x.1 x.2)
      (P := fun x l' => ∀ s, x.1 = .call s → PlainTyped s l') hl₁
      (fun x _ _ hle h s hs => hle.2 s (h s hs)) fun x hx l' hl' hle' => ?_
    exact linkOwner_plain hl' ((hgroups x hx).1.mono hle'.1.1.1)
      fun y hy => ((hgroups x hx).2 y hy).mono hle'.1.1.1
  refine howners.bind fun _ l₂ hl₂ hle₂ howners => ?_
  have hclasses : (plainly making).Runs d.settleClasses l₂ fun _ l' =>
      ∀ c ∈ d.classes, PlainTyped c.symbol l' :=
    Growth.runs_forM_forall (G := plainly making) (f := linkClass (basesOf d.classes))
      (P := fun c l' => PlainTyped c.symbol l') hl₂
      (fun c _ _ hle => hle.2 c.symbol) fun c hc l' hl' hle' =>
        linkClass_plain hl' _ ((hnotes₁.classes c hc).mono (making.trans hle₂.1 hle'.1).1.1)
  refine ⟨hclasses.good, hclasses.le, ?_⟩
  rintro s (⟨x, hx, howner⟩ | ⟨c, hc, rfl⟩)
  · refine hclasses.le.2 s (howners (x.owner, d.signatures.filter (·.owner = x.owner)) ?_ s howner)
    exact mem_groupByOwner_iff.mpr ⟨rfl, List.ne_nil_of_mem (List.mem_filter.mpr ⟨hx, decide_eq_true rfl⟩)⟩
  · exact hclasses.post c hc

/-- Enums, functions and classes have types that are read at a glance. -/
theorem linked_plainTyped (hd : d.Sound) (hu : d.Untyped) (haside : d.TypedAside s) : PlainTyped s d.linked := by
  obtain ⟨horderly, hnotes⟩ := namesSettled_orderly hd hu.intrinsics
  have htypes := settleTypes_plain horderly hnotes
  obtain ⟨e, he, henum⟩ | haside := haside
  · refine htypes.le.2 s ?_
    have hgood := linkNames_naming (d := d) (begun_blank hd hu.intrinsics)
    have hstart : (enumTelling d.enums).Good _ := ⟨hgood.good.prepared, fun {s t} ht => by
      rw [hgood.good.enumTypes] at ht
      cases ht⟩
    have henums := Growth.runs_forM_forall (G := plainly (enumTelling d.enums)) (f := linkEnum)
      (P := fun e l' => PlainTyped e.symbol l' ∧ ∀ m ∈ e.members, PlainTyped m.1 l') (l := d.enums) hstart
      (fun e _ _ hle h => ⟨hle.2 _ h.1, fun m hm => hle.2 _ (h.2 m hm)⟩)
      fun e he l' hl' hle' => linkEnum_plain hl' (((hd.notes.mono hgood.le.1).enums e he).mono hle'.1.1.1) he
    obtain ⟨hsymbol, hmembers⟩ := henums.post e he
    obtain rfl | ⟨m, hm, rfl⟩ := henum
    · exact hsymbol
    · exact hmembers m hm
  · exact htypes.post s haside

/-- Type aliases stay what was noted of them. -/
theorem linked_typeAliases (hd : d.Sound) (hu : d.Untyped) : d.linked.typeAliases = d.typeAliases := by
  obtain ⟨-, hle, -⟩ := valuesSettled_linked hd hu
  have hvalues := (settleValues_tells hd hu).le.2.typeAliases
  have hnames := (settleNames_touching d d.begun).le.typeAliases
  exact (hle.2.typeAliases.trans hvalues).trans hnames

/-- **A symbol has the type that was noted first of it.** -/
theorem linked_typedBy (hd : d.Sound) (hu : d.Untyped) (hs : s.Within d.extent) (haside : ¬ d.TypedAside s)
    (hnote : firstNote d.symbolTypes s = some e) : TypedBy d.enums e s d.linked := by
  obtain ⟨-, hle, htouch⟩ := valuesSettled_linked hd hu
  exact ((settleValues_tells hd hu).post.1 s e hs haside hnote).frame hle htouch (haside ∘ .inr)

/-- A symbol of which nothing is noted has no type. -/
theorem linked_typeOf_eq_none (hd : d.Sound) (hu : d.Untyped) (haside : ¬ d.TypedAside s)
    (hnote : firstNote d.symbolTypes s = none) : d.linked.builder.typeOf s = none := by
  have hnames := (settleNames_touching d d.begun).le
  have hvalues : (touching (fun s => ∃ p ∈ d.symbolTypes, p.1 = s) fun _ _ => True).Runs d.settleValues
      d.namesSettled Linking.Anything := by
    refine (Growth.runs_forM trivial fun p hp _ _ _ => linkType_touching (fun _ => ⟨p, hp, rfl⟩) p.2).bind
      fun _ _ _ _ _ => ?_
    exact Growth.runs_forM trivial fun x _ _ _ _ => linkIndex_touching trivial
  obtain ⟨-, -, hcalls⟩ := valuesSettled_linked hd hu
  have hunnoted : ¬ ∃ p ∈ d.symbolTypes, p.1 = s := by
    rintro ⟨p, hp, hps⟩
    rw [firstNote, Option.map_eq_none_iff, List.find?_eq_none] at hnote
    exact hnote p hp (by simpa using hps)
  rw [hcalls.types s (haside ∘ .inr), valuesSettled, hvalues.le.types s hunnoted]
  exact (hnames.types s fun henum => haside (.inl henum)).trans (hu.types s)

/-- **The type of a symbol tells of what was noted first of it**, unless it is read at a glance. -/
theorem linked_typeOf_cases (hd : d.Sound) (hu : d.Untyped) (hsymbols : ∀ p ∈ d.symbolTypes, p.1.Within d.extent)
    {t : TypeId} (ht : d.linked.builder.typeOf s = some t) :
    PlainTyped s d.linked ∨ ∃ e, firstNote d.symbolTypes s = some e ∧ Told d.enums e t d.linked := by
  by_cases haside : d.TypedAside s
  · exact .inl (linked_plainTyped hd hu haside)
  cases hnote : firstNote d.symbolTypes s with
  | none =>
    rw [linked_typeOf_eq_none hd hu haside hnote] at ht
    cases ht
  | some e =>
    obtain ⟨p, hp, -⟩ := Option.map_eq_some_iff.mp hnote
    have hs : s.Within d.extent := by
      have hps : p.1 = s := by simpa using List.find?_some hp
      exact hps ▸ hsymbols p (List.mem_of_find?_eq_some hp)
    obtain ⟨t', ht', htold⟩ := linked_typedBy hd hu hs haside hnote
    obtain rfl := Option.some.inj (ht.symm.trans ht')
    exact .inr ⟨e, rfl, htold⟩

/-- **The types of an index signature tell of what was noted of it.** -/
theorem linked_indexAt_cases (hd : d.Sound) (hu : d.Untyped) {i : Nat} {y : IndexTypes}
    (hy : d.linked.builder.indexAt s i = some y) :
    ∃ x ∈ d.indexes, x.symbol = s ∧ x.declaration = i ∧ IndexTold d.enums x y d.linked := by
  obtain ⟨-, hle, htouch⟩ := valuesSettled_linked hd hu
  have hbefore : d.valuesSettled.builder.indexAt s i = some y := (htouch.indexes s i id).symm.trans hy
  obtain ⟨x, hx, hsymbol, hdeclaration, htold⟩ := (settleValues_tells hd hu).post.2.1 s i y hbefore
  exact ⟨x, hx, hsymbol, hdeclaration, htold.mono hle⟩

/-- An index signature that is declared has types. -/
theorem linked_indexAt_isSome (hd : d.Sound) (hu : d.Untyped) {x : IndexDraft} (hx : x ∈ d.indexes)
    (hthere : HasDeclaration x.symbol x.declaration d.begun) :
    (d.linked.builder.indexAt x.symbol x.declaration).isSome := by
  obtain ⟨-, -, htouch⟩ := valuesSettled_linked hd hu
  rw [htouch.indexes x.symbol x.declaration id]
  exact (settleValues_tells hd hu).post.2.2 x hx hthere

/-- **A signature returns what was noted of it**, or the instance that it makes. -/
theorem linked_signatures (hd : d.Sound) (hu : d.Untyped) {id : SignatureId} {x : Signature}
    (hx : d.linked.builder.graph.signature? id = some x) : SignatureTold d.enums d.NotesResult x d.linked :=
  (valuesSettled_linked hd hu).1.2 hx

/-- **All signatures are made that can be seen**, and functions are called by them. -/
theorem linked_ownerSigned (hd : d.Sound) (hu : d.Untyped) {owner : SignatureOwner}
    (howner : ∃ x ∈ d.signatures, x.owner = owner) :
    OwnerSigned d.enums (fun s => ∃ c ∈ d.classes, c.symbol = s) owner (d.signatures.filter (·.owner = owner))
      d.linked := by
  obtain ⟨x, hx, howner⟩ := howner
  refine (valuesSettled_returning hd hu).post (owner, d.signatures.filter (·.owner = owner)) ?_
  exact mem_groupByOwner_iff.mpr ⟨rfl, List.ne_nil_of_mem (List.mem_filter.mpr ⟨hx, decide_eq_true howner⟩)⟩

end GraphDraft

end ApiDocs
