import ApiDocs.Proofs.Binding.Materialization

/-!
# The two parts of linking

Settling the notes of a draft has two parts. The first settles names: exports of exports, aliases,
heritage, and enums with their members, whose types are made on this occasion. The second makes all other
types. When it begins, linking is orderly. Each of its passes keeps it so and leaves names their meaning.

So what is said about types that are made from an orderly state on is said about the types of every
draft, and it is said with the names as they are in the end.

## Main definitions

* `GraphDraft.settleNames`, `GraphDraft.settleTypes`: the two parts.
* `GraphDraft.namesSettled`, `GraphDraft.linked`: linking after each of them.
* `Linking.Blank`: no types were made yet.
* `Linking.Prepared`: linking is orderly, and only keywords and enums have types.
* `Linking.makingOf`: linking runs on, and types of certain expressions are made.

## Main results

* `GraphDraft.settleTypes_makingOf`: the passes that make types keep linking orderly.
* `GraphDraft.namesSettled_orderly`: when they begin, linking is orderly.
* `GraphDraft.linked_made`: linking is a run in which types of noted expressions are made.
-/

namespace ApiDocs

open Linking in
/-- Settle what names stand for. -/
def GraphDraft.settleNames (d : GraphDraft) : LinkM Unit := do
  linkStars d.stars
  d.aliases.forM linkAlias
  d.heritage.forM linkHeritage
  d.enums.forM linkEnum

open Linking in
/-- Make the types of symbols and index signatures. -/
def GraphDraft.settleValues (d : GraphDraft) : LinkM Unit := do
  d.symbolTypes.forM fun (symbol, expr) => linkType symbol expr
  d.indexes.forM linkIndex

open Linking in
/-- Make the signatures, and the types of functions. -/
def GraphDraft.settleOwners (d : GraphDraft) : LinkM Unit :=
  (groupByOwner d.signatures).entries.forM fun (owner, drafts) => linkOwner owner drafts

open Linking in
/-- Make the types of classes. -/
def GraphDraft.settleClasses (d : GraphDraft) : LinkM Unit :=
  d.classes.forM (linkClass (basesOf d.classes))

open Linking in
/-- Make all types but those of enums. -/
def GraphDraft.settleTypes (d : GraphDraft) : LinkM Unit := do
  d.settleValues
  d.settleOwners
  d.settleClasses

namespace Linking

variable {l l' : Linking} {s : SymbolId} {t : TypeId}

/-! ## Names -/

/-- No types were made yet. -/
structure Blank (l : Linking) : Prop where
  sound : l.Sound
  intrinsics : l.builder.intrinsics = .empty
  instances : l.instances = .empty
  parameterTypes : l.parameterTypes = .empty
  enumTypes : l.enumTypes = .empty
  aliasTypes : l.aliasTypes = .empty

/-- Linking starts blank, if nothing is missing and no types were made before. -/
theorem blank_of_valid {b : GraphBuilder} {modules globals : Table String SymbolId}
    {locals : Table LocalRef SymbolId} {typeAliases : Table SymbolId TypeExpr} (hvalid : b.graph.Valid)
    (harray : GraphBuilder.arraySymbol.Within b.extent) (hintrinsics : b.intrinsics = .empty)
    (hmodules : ∀ s ∈ modules.values, s.Within b.extent)
    (hlocals : ∀ s ∈ locals.values, s.Within b.extent)
    (hglobals : ∀ s ∈ globals.values, s.Within b.extent)
    (haliases : ∀ e ∈ typeAliases.values, e.Within b.extent) :
    Blank { builder := b, modules, locals, globals, typeAliases } where
  sound := {
    builder := ⟨SymbolGraph.valid_iff_closed.mp hvalid, by simp [hintrinsics], harray⟩
    tables := by constructor <;> first | assumption | simp }
  intrinsics := hintrinsics
  instances := rfl
  parameterTypes := rfl
  enumTypes := rfl
  aliasTypes := rfl

/-- Names are settled before types are made. -/
def naming : Growth Linking where
  Good := Blank
  Le := growth.Le
  refl := growth.refl
  trans := growth.trans

theorem rebuild_naming {f : GraphBuilder → GraphBuilder} (hl : l.Blank)
    (h : growth.Runs (rebuild f) l Anything)
    (hintrinsics : (f l.builder).intrinsics = l.builder.intrinsics) :
    naming.Runs (rebuild f) l Anything :=
  ⟨{ hl with sound := h.good, intrinsics := hintrinsics.trans hl.intrinsics }, h.le, trivial⟩

section

variable {P : GraphBuilder → Prop}
  (hP : ∀ (b : GraphBuilder) (container : SymbolId) (name : String) (symbol : SymbolId),
    P b → P (b.exportAs container name symbol))

include hP

theorem copyExports_induction {b : GraphBuilder} (hb : P b) (container target : SymbolId) :
    P (copyExports b container target) := by
  unfold copyExports
  refine List.foldlRecOn (motive := P) _ _ hb ?_
  rintro b' hb' ⟨name, symbol⟩ -
  dsimp only
  split
  · exact hb'
  · exact hP b' container name symbol hb'

theorem starRound_induction {b : GraphBuilder} (hb : P b) (edges : List (SymbolId × SymbolId)) :
    P (starRound edges b) :=
  List.foldlRecOn (motive := P) _ _ hb fun _ hb' _ _ => copyExports_induction hP hb' _ _

/-- What exports leave alone, rounds of exports do. -/
theorem times_starRound_induction {b : GraphBuilder} (hb : P b) (edges : List (SymbolId × SymbolId)) (n : Nat) :
    P (times (starRound edges) n b) := by
  induction n generalizing b with
  | zero => exact hb
  | succ n ih => exact ih (starRound_induction hP hb edges)

end

theorem linkStars_naming (hl : l.Blank) (stars : List StarDraft) :
    naming.Runs (linkStars stars) l Anything :=
  ⟨{ hl with
      sound := (linkStars_runs hl.sound stars).good
      intrinsics := times_starRound_induction (P := fun b => b.intrinsics = .empty) (fun _ _ _ _ => id)
        hl.intrinsics _ _ },
    (linkStars_runs hl.sound stars).le, trivial⟩

theorem linkAlias_naming (hl : l.Blank) (draft : AliasDraft) :
    naming.Runs (linkAlias draft) l Anything := by
  unfold linkAlias
  refine Growth.runs_get ?_
  split
  next target htarget =>
    split
    · have hs := aliasTarget?_within hl.sound _ target htarget
      exact rebuild_naming hl (rebuild_runs hl.sound (GraphBuilder.aliasTo_grown hl.sound.builder hs)) rfl
    · exact Growth.runs_pure hl trivial
  next => exact Growth.runs_pure hl trivial

theorem declareGlobal_naming (hl : l.Blank) (name : String) :
    naming.Runs (declareGlobal name) l SymbolThere :=
  have hruns := declareGlobal_runs hl.sound name
  ⟨{ hl with sound := hruns.good }, hruns.le, hruns.post⟩

theorem resolveType_naming (hl : l.Blank) (ref : NameRef) :
    naming.Runs (resolveType ref) l fun found l' => ∀ x ∈ found, x.Within l'.extent := by
  suffices h : naming.Runs (resolveType ref) l Anything from
    ⟨h.good, h.le, (resolveType_runs hl.sound ref).post⟩
  unfold resolveType
  refine Growth.runs_get ?_
  split
  · exact Growth.runs_pure hl trivial
  next name _ =>
    exact (declareGlobal_naming hl name).bind fun _ l' hl' _ _ => Growth.runs_pure hl' trivial
  · exact Growth.runs_pure hl trivial

theorem linkHeritage_naming (hl : l.Blank) (draft : HeritageDraft) :
    naming.Runs (linkHeritage draft) l Anything := by
  have hsymbols := Growth.runs_mapM_filterMap (G := naming) (l := draft.names) hl
    (fun s => symbol_stable s) fun ref _ l' hl' _ => resolveType_naming hl' ref
  refine hsymbols.bind fun found l₁ hl₁ _ hfound => rebuild_naming hl₁ (rebuild_runs hl₁.sound ?_) rfl
  exact GraphBuilder.modifyDeclaration_grown hl₁.sound.builder fun d hd => { hd with heritage := hfound }

/-! ## Enums -/

/-- Linking is orderly, and only keywords and enums have types. -/
structure Prepared (l : Linking) : Prop where
  orderly : l.Orderly
  instances : l.instances = .empty
  parameterTypes : l.parameterTypes = .empty
  aliasTypes : l.aliasTypes = .empty

theorem Blank.prepared (hl : l.Blank) : l.Prepared where
  orderly := {
    sound := hl.sound
    intrinsics := fun h => by rw [hl.intrinsics] at h; cases h
    instances := fun h => by rw [hl.instances] at h; cases h
    parameterTypes := fun h => by rw [hl.parameterTypes] at h; cases h
    enumTypes := fun h => by rw [hl.enumTypes] at h; cases h
    aliasTypes := fun h => by rw [hl.aliasTypes] at h; cases h }
  instances := hl.instances
  parameterTypes := hl.parameterTypes
  aliasTypes := hl.aliasTypes

/-- Enums get their types, and the graph keeps what there is. -/
def enumerating : Growth Linking where
  Good := Prepared
  Le l l' := growth.Le l l' ∧ l.builder.Keeps l'.builder
  refl l := ⟨growth.refl l, .refl l.builder⟩
  trans h h' := ⟨growth.trans h.1 h'.1, h.2.trans h'.2⟩

theorem build_enumerating {α : Type} {f : GraphBuilder → α × GraphBuilder} {P : α → Linking → Prop}
    (hl : l.Prepared) (h : making.Runs (build f) l P) : enumerating.Runs (build f) l P :=
  ⟨{ hl with orderly := h.good }, ⟨h.le.1, h.le.2.builder⟩, h.post⟩

theorem rebuild_making {f : GraphBuilder → GraphBuilder} (hl : l.Orderly)
    (h : growth.Runs (rebuild f) l Anything) (hkeeps : l.builder.Keeps (f l.builder))
    (hintrinsics : (f l.builder).intrinsics = l.builder.intrinsics) :
    making.Runs (rebuild f) l Anything :=
  build_making (f := fun b => ((), f b)) hl h hkeeps hintrinsics

theorem setType_making (hl : l.Orderly) (symbol : SymbolId) (ht : t.Within l.extent) :
    making.Runs (rebuild (·.setType symbol t)) l Anything :=
  rebuild_making hl (setType_runs hl.sound symbol ht) (.modifySymbol fun _ => rfl) rfl

/-- The type has the symbol of an enum or of a member, or it is just a number. -/
def IsEnumType (s : SymbolId) (t : TypeId) (l : Linking) : Prop :=
  t.Within l.extent ∧ ∃ x, l.builder.typeCore? t = some x ∧ (x.symbol = some s ∨ x = numberNode)

theorem isEnumType_stable (s : SymbolId) (t : TypeId) : enumerating.Stable (IsEnumType s t) := by
  rintro l l' hle ⟨hin, x, hx, hsymbol⟩
  exact ⟨hin.mono hle.1.1, x, hle.2.type hx, hsymbol⟩

theorem storeEnumType_enumerating (hl : l.Prepared) (ht : IsEnumType s t l) :
    enumerating.Runs (do
      rebuild (·.setType s t)
      modify fun l => { l with enumTypes := l.enumTypes.insert s t }) l Anything := by
  have hset : enumerating.Runs (rebuild (·.setType s t)) l Anything :=
    build_enumerating (f := fun b => ((), b.setType s t)) hl (setType_making hl.orderly s ht.1)
  refine hset.bind fun _ l₁ hl₁ hle₁ _ => ?_
  have ht₁ := isEnumType_stable s t _ _ hle₁ ht
  have htypes := Table.forall_values_insert (k := s) hl₁.orderly.sound.tables.enumTypes ht₁.1
  have hstored := store_runs (f := fun l => { l with enumTypes := l.enumTypes.insert s t })
    hl₁.orderly.sound rfl { hl₁.orderly.sound.tables with enumTypes := htypes }
  refine ⟨{ hl₁ with orderly := { hl₁.orderly with
    sound := hstored.good, enumTypes := fun h => ?_, aliasTypes := fun h => ?_ } },
    ⟨hstored.le, .refl _⟩, trivial⟩
  · rcases Table.get?_insert_cases h with ⟨rfl, rfl⟩ | h
    · exact ht₁.2
    · exact hl₁.orderly.enumTypes h
  · -- No type alias has its type yet.
    change l₁.aliasTypes.get? _ = _ at h
    rw [hl₁.aliasTypes] at h
    cases h

theorem enumMemberType_enumerating (hl : l.Prepared) (hs : s.Within l.extent) (value : Option Literal) :
    enumerating.Runs (enumMemberType s value) l (IsEnumType s) := by
  cases value with
  | some value =>
    have hruns := build_runs hl.orderly.sound
      (GraphBuilder.enumLiteral_runs hl.orderly.sound.builder hs value)
    refine build_enumerating hl ((addType_making hl.orderly hruns).mono ?_)
    exact fun _ t ht => ⟨ht.1, _, ht.2, .inl rfl⟩
  | none =>
    have hmade := intrinsic_takesForm (C := fun _ => True) hl.orderly
      (show keywordFlags? "number" = some TypeFlags.numberBit by decide)
    refine build_enumerating hl (hmade.mono fun _ t ht => ⟨ht.within, ?_⟩)
    exact ⟨numberNode, (ht.form _ (.refl _) trivial).typeCore?_eq, .inr rfl⟩

theorem linkEnum_enumerating (hl : l.Prepared) {draft : EnumDraft} (hdraft : draft.Within l.extent) :
    enumerating.Runs (linkEnum draft) l Anything := by
  unfold linkEnum
  have hliterals : enumerating.Runs (draft.members.mapM fun m => do
      let t ← enumMemberType m.1 m.2
      rebuild (·.setType m.1 t)
      modify fun l => { l with enumTypes := l.enumTypes.insert m.1 t }
      return if m.2.isSome then some t else none) l
      fun found l' => ∀ t ∈ found.filterMap id, t.Within l'.extent := by
    refine Growth.runs_mapM_filterMap hl (fun _ _ _ hle ht => ht.mono hle.1.1) fun m hm l' hl' hle' => ?_
    have hmember := (hdraft.members m hm).mono hle'.1.1
    refine (enumMemberType_enumerating hl' hmember m.2).bind fun t l₁ hl₁ _ ht₁ => ?_
    refine (storeEnumType_enumerating hl₁ ht₁).bind fun _ l₂ hl₂ hle₂ _ => Growth.runs_pure hl₂ ?_
    intro t' ht'
    split at ht'
    · cases ht'
      exact ht₁.1.mono hle₂.1.1
    · cases ht'
  refine hliterals.bind fun found l₁ hl₁ hle₁ hfound => ?_
  have hruns := build_runs hl₁.orderly.sound (GraphBuilder.enumType_runs hl₁.orderly.sound.builder
    (hdraft.symbol.mono hle₁.1.1) hfound)
  have htype : enumerating.Runs (build (·.enumType draft.symbol (found.filterMap id))) l₁
      (IsEnumType draft.symbol) := by
    refine build_enumerating hl₁ ((addType_making hl₁.orderly hruns).mono ?_)
    exact fun _ t ht => ⟨ht.1, _, ht.2, .inl rfl⟩
  exact htype.bind fun t l₂ hl₂ _ ht₂ => storeEnumType_enumerating hl₂ ht₂

/-! ## Types -/

section

variable {α : Type} {E : TypeExpr → Prop} {x : LinkM α} {P : α → Linking → Prop}

/-- Linking runs on, and the types that are made are those of expressions in `E`. -/
def makingOf (E : TypeExpr → Prop) : Growth Linking where
  Good := Orderly
  Le l l' := making.Le l l' ∧ ∃ es, (∀ e ∈ es, E e) ∧ l.Made es l'
  refl l := ⟨making.refl l, [], by simp, .start⟩
  trans := by
    rintro l l' l'' ⟨hle, es, hes, hmade⟩ ⟨hle', es', hes', hmade'⟩
    exact ⟨making.trans hle hle', es ++ es', List.forall_mem_append.mpr ⟨hes, hes'⟩, hmade.trans hmade'⟩

theorem making_of_makingOf (h : (makingOf E).Runs x l P) : making.Runs x l P := ⟨h.good, h.le.1, h.post⟩

/-- Where no type alias gets a type, no type of an expression needs to be made. -/
theorem makingOf_of_making (h : making.Runs x l P) (haside : (x l).2.aliasTypes = l.aliasTypes) :
    (makingOf E).Runs x l P :=
  ⟨h.good, ⟨h.le, [], by simp, .other .start h.good h.le haside⟩, h.post⟩

theorem materialize_makingOf (hl : l.Orderly) {e : TypeExpr} (he : e.Within l.extent) (hE : E e) :
    (makingOf E).Runs (materialize e) l TypeThere :=
  have hmade := materialize_takesForm hl he
  ⟨hmade.good, ⟨hmade.le, [e], by simpa using hE, .made .start he⟩, hmade.post.within⟩

theorem setType_makingOf (hl : l.Orderly) (symbol : SymbolId) (ht : t.Within l.extent) :
    (makingOf E).Runs (rebuild (·.setType symbol t)) l Anything :=
  makingOf_of_making (setType_making hl symbol ht) rfl

theorem instanceType_makingOf (hl : l.Orderly) (hs : s.Within l.extent) :
    (makingOf E).Runs (instanceType s) l TypeThere :=
  makingOf_of_making ((instanceType_takesForm (C := fun _ => True) hl hs).mono fun _ _ ht => ht.within)
    (instanceType_aside s).le.aliasTypes

theorem linkType_makingOf (hl : l.Orderly) (symbol : SymbolId) {e : TypeExpr} (he : e.Within l.extent)
    (hE : E e) : (makingOf E).Runs (linkType symbol e) l Anything := by
  unfold linkType
  refine Growth.runs_get ?_
  split
  · exact (materialize_makingOf hl he hE).bind fun t l₁ hl₁ _ ht => setType_makingOf hl₁ symbol ht
  · exact Growth.runs_pure hl trivial

theorem linkIndex_makingOf (hl : l.Orderly) {draft : IndexDraft} (hdraft : draft.Within l.extent)
    (hkeyE : ∀ key ∈ draft.key, E key) (hvalueE : E draft.value) :
    (makingOf E).Runs (linkIndex draft) l Anything := by
  have hkey : (makingOf E).Runs (draft.key.mapM materialize) l fun o l' => ∀ t ∈ o, t.Within l'.extent := by
    cases hkey : draft.key with
    | none => exact Growth.runs_pure hl (by simp)
    | some key =>
      rw [Option.mapM_some, map_eq_pure_bind]
      refine (materialize_makingOf hl (hdraft.key key hkey) (hkeyE key hkey)).bind fun t l₁ hl₁ _ ht => ?_
      exact Growth.runs_pure hl₁ (by simpa using ht)
  refine hkey.bind fun key l₁ hl₁ hle₁ hkey₁ => ?_
  refine (materialize_makingOf hl₁ (hdraft.value.mono hle₁.1.1.1) hvalueE).bind
    fun value l₂ hl₂ hle₂ hvalue => ?_
  have hindex : IndexTypes.Within ⟨key, some value⟩ l₂.extent :=
    ⟨fun t ht => (hkey₁ t ht).mono hle₂.1.1.1, by simpa using hvalue⟩
  refine makingOf_of_making (rebuild_making hl₂ (rebuild_runs hl₂.sound ?_) (.modifySymbol fun _ => rfl) rfl) rfl
  exact GraphBuilder.modifyDeclaration_grown hl₂.sound.builder fun d hd =>
    { hd with index := by simpa using hindex }

theorem addSignature_making (hl : l.Orderly) {x : Signature} (hx : x.Within l.extent) :
    making.Runs (build (·.addSignature x)) l fun id l' => id.Within l'.extent :=
  build_making hl (build_runs hl.sound (GraphBuilder.addSignature_runs hl.sound.builder hx))
    (.of_symbolCore?_eq (fun _ => rfl) fun h => h) rfl

theorem signature_lasts (x : SignatureId) : making.Stable fun l => x.Within l.extent :=
  fun _ _ hle hx => hx.mono hle.1.1

theorem resultType_makingOf (hl : l.Orderly) {draft : SignatureDraft} (hdraft : draft.Within l.extent)
    (hE : ∀ e ∈ draft.result, E e) : (makingOf E).Runs (resultType draft) l TypeThere := by
  unfold resultType
  split
  next expr hexpr => exact materialize_makingOf hl (hdraft.result expr hexpr) (hE expr hexpr)
  next symbol howner =>
    have ho := hdraft.owner
    rw [howner] at ho
    exact instanceType_makingOf hl ho
  next =>
    have hany := intrinsic_takesForm (C := fun _ => True) hl (keywordFlags?_word .any)
    exact makingOf_of_making (hany.mono fun _ _ ht => ht.within) (intrinsic_aside _ _).le.aliasTypes

theorem makeSignature_makingOf (hl : l.Orderly) {draft : SignatureDraft} (hdraft : draft.Within l.extent)
    (hE : ∀ e ∈ draft.result, E e) :
    (makingOf E).Runs (makeSignature draft) l fun x l' => x.Within l'.extent := by
  refine (resultType_makingOf hl hdraft hE).bind fun t l₁ hl₁ hle₁ ht => ?_
  exact makingOf_of_making
    (addSignature_making hl₁ ⟨ht, fun p hp => (hdraft.parameters p hp).mono hle₁.1.1.1⟩) rfl

theorem makeSignatures_makingOf (hl : l.Orderly) {drafts : List SignatureDraft}
    (hdrafts : ∀ x ∈ drafts, x.Within l.extent) (hE : ∀ x ∈ drafts, ∀ e ∈ x.result, E e) :
    (makingOf E).Runs ((visibleSignatures drafts).mapM makeSignature) l SignaturesThere :=
  Growth.runs_mapM hl (fun x _ _ hle => signature_lasts x _ _ hle.1) fun x hx _ hl' hle' =>
    have hx' := mem_of_mem_visibleSignatures hx
    makeSignature_makingOf hl' ((hdrafts x hx').mono hle'.1.1.1) (hE x hx')

/-- Constructors are stored beside the types. -/
theorem storeConstructors_making (hl : l.Orderly) {symbol : SymbolId} {xs : List SignatureId}
    (hxs : SignaturesThere xs l) :
    making.Runs (modify fun l => { l with constructors := l.constructors.insert symbol xs }) l
      Anything := by
  have hstored := store_runs
    (f := fun l => { l with constructors := l.constructors.insert symbol xs }) hl.sound rfl
    { hl.sound.tables with
      constructors := Table.forall_values_insert (k := symbol) hl.sound.tables.constructors hxs }
  refine store_making hstored { Keeps.refl l with } fun hle => ?_
  exact hl.grow hstored.good hle .inl .inl .inl .inl

theorem linkOwner_makingOf (hl : l.Orderly) {owner : SignatureOwner} {drafts : List SignatureDraft}
    (howner : owner.Within l.extent) (hdrafts : ∀ x ∈ drafts, x.Within l.extent)
    (hE : ∀ x ∈ drafts, ∀ e ∈ x.result, E e) : (makingOf E).Runs (linkOwner owner drafts) l Anything := by
  refine (makeSignatures_makingOf hl hdrafts hE).bind fun signatures l₁ hl₁ hle₁ hxs => ?_
  cases owner with
  | call symbol =>
    have hruns := build_runs hl₁.sound (GraphBuilder.functionType_runs hl₁.sound.builder
      (fun b => "typeof " ++ b.nameOf symbol) hxs)
    refine (makingOf_of_making (build_making hl₁ hruns (.addType _) rfl) rfl).bind fun t l₂ hl₂ _ ht => ?_
    exact setType_makingOf hl₂ symbol ht
  | construct symbol =>
    refine Growth.runs_get ?_
    split
    · exact makingOf_of_making (storeConstructors_making hl₁ hxs) rfl
    · refine (instanceType_makingOf hl₁ (s := symbol) (howner.mono hle₁.1.1.1)).bind fun t l₂ hl₂ hle₂ _ => ?_
      refine Growth.runs_forM hl₂ fun x hx l' hl' hle' => ?_
      have hin := (hxs x hx).mono ((makingOf E).trans hle₂ hle').1.1.1
      exact makingOf_of_making (rebuild_making hl' (rebuild_runs hl'.sound
        (GraphBuilder.addConstructSignature_grown hl'.sound.builder hin)) (.modifyType fun _ => rfl) rfl) rfl

/-! ## Constructors -/

theorem inheritSignature_makingOf (hl : l.Orderly) (ht : t.Within l.extent) (id : SignatureId) :
    (makingOf E).Runs (inheritSignature t id) l fun o l' => ∀ x ∈ o, x.Within l'.extent := by
  unfold inheritSignature
  refine Growth.runs_get ?_
  split
  next x hx =>
    have hin := hl.sound.builder.graph.signatures x (Array.mem_of_getElem? hx)
    have hcopy := addSignature_making hl (x := { x with returnType := t }) ⟨ht, hin.parameters⟩
    refine (makingOf_of_making hcopy rfl).bind fun y l₁ hl₁ _ hy => Growth.runs_pure hl₁ ?_
    simpa using hy
  next => exact Growth.runs_pure hl (by simp)

/-- How constructors of a class are got while linking stays orderly. -/
def MakesConstructors (E : TypeExpr → Prop) (f : SymbolId → LinkM (List SignatureId)) : Prop :=
  ∀ (s : SymbolId) (l : Linking), l.Orderly → s.Within l.extent → (makingOf E).Runs (f s) l SignaturesThere

theorem impliedConstructors_makingOf {inherit? : Option (SymbolId → LinkM (List SignatureId))}
    (hinherit : ∀ f ∈ inherit?, MakesConstructors E f) (hl : l.Orderly) {base : Option SymbolId}
    (hbase : ∀ x ∈ base, x.Within l.extent) (ht : t.Within l.extent) :
    (makingOf E).Runs (impliedConstructors inherit? base t) l SignaturesThere := by
  unfold impliedConstructors
  split
  next base inherit =>
    refine (hinherit inherit rfl base l hl (hbase base rfl)).bind fun inherited l₁ hl₁ hle₁ _ => ?_
    have hcopies := Growth.runs_mapM_filterMap (G := makingOf E) (l := inherited) hl₁
      (fun x _ _ hle => signature_lasts x _ _ hle.1) fun id _ l' hl' hle' =>
        inheritSignature_makingOf hl' (ht.mono ((makingOf E).trans hle₁ hle').1.1.1) id
    exact hcopies.bind fun found l₂ hl₂ _ hfound => Growth.runs_pure hl₂ hfound
  next =>
    have hadded := addSignature_making hl (x := { parameters := [], returnType := t }) ⟨ht, by simp⟩
    refine (makingOf_of_making hadded rfl).bind fun x l₁ hl₁ _ hx => Growth.runs_pure hl₁ ?_
    exact List.forall_mem_singleton.mpr hx

theorem constructorsVia_makingOf {inherit? : Option (SymbolId → LinkM (List SignatureId))}
    (hinherit : ∀ f ∈ inherit?, MakesConstructors E f) (bases : Table SymbolId NameRef) :
    MakesConstructors E (constructorsVia inherit? bases) := by
  intro s l hl hs
  unfold constructorsVia
  refine Growth.runs_get ?_
  split
  next xs hxs =>
    exact Growth.runs_pure hl (hl.sound.tables.constructors xs (Table.mem_values_of_get? hxs))
  next =>
    refine Growth.runs_get ?_
    refine (instanceType_makingOf hl hs).bind fun t l₁ hl₁ hle₁ ht => ?_
    have hbase : ∀ x ∈ l.baseOf? bases s, x.Within l₁.extent :=
      fun x hx => (baseOf?_within hl.sound bases s x hx).mono hle₁.1.1.1
    refine (impliedConstructors_makingOf hinherit hl₁ hbase ht).bind fun xs l₂ hl₂ _ hxs => ?_
    exact (makingOf_of_making (storeConstructors_making hl₂ hxs) rfl).handBack
      (fun _ _ hle h x hx => (h x hx).mono hle.1.1.1) hxs

theorem constructorsOf_makingOf (bases : Table SymbolId NameRef) (depth : Nat) :
    MakesConstructors E (constructorsOf bases depth) := by
  induction depth with
  | zero => exact constructorsVia_makingOf (by simp) bases
  | succ depth ih =>
    refine constructorsVia_makingOf (fun f hf => ?_) bases
    cases hf
    exact ih

theorem linkClass_makingOf (hl : l.Orderly) (bases : Table SymbolId NameRef) {draft : ClassDraft}
    (hs : draft.symbol.Within l.extent) : (makingOf E).Runs (linkClass bases draft) l Anything := by
  refine (constructorsOf_makingOf bases maxExpansion draft.symbol l hl hs).bind
    fun xs l₁ hl₁ hle₁ hxs => ?_
  have hruns := build_runs hl₁.sound
    (GraphBuilder.constructorType_runs hl₁.sound.builder (hs.mono hle₁.1.1.1) hxs)
  refine (makingOf_of_making (build_making hl₁ hruns (.addType _) rfl) rfl).bind fun t l₂ hl₂ _ ht => ?_
  exact setType_makingOf hl₂ draft.symbol ht

end

end Linking

/-! ## The two parts -/

namespace GraphDraft

variable {d : GraphDraft} {l : Linking}

/-- The expression is noted, as the type of a symbol, in an index signature or as the result of a
signature. -/
def NotesExpr (d : GraphDraft) (e : TypeExpr) : Prop :=
  (∃ p ∈ d.symbolTypes, p.2 = e) ∨ (∃ x ∈ d.indexes, x.key = some e ∨ x.value = e) ∨
    ∃ x ∈ d.signatures, x.result = some e

theorem settleValues_makingOf (hl : l.Orderly) (hnotes : d.NotesWithin l.extent) :
    (Linking.makingOf d.NotesExpr).Runs d.settleValues l Linking.Anything := by
  refine (Growth.runs_forM (G := Linking.makingOf d.NotesExpr) hl fun x hx l' hl' hle' =>
    Linking.linkType_makingOf hl' x.1 ((hnotes.symbolTypes x hx).mono hle'.1.1.1) (.inl ⟨x, hx, rfl⟩)).bind
      fun _ l₁ hl₁ hle₁ _ => ?_
  have hnotes₁ := hnotes.mono hle₁.1.1.1
  exact Growth.runs_forM (G := Linking.makingOf d.NotesExpr) hl₁ fun x hx l' hl' hle' =>
    Linking.linkIndex_makingOf hl' ((hnotes₁.indexes x hx).mono hle'.1.1.1)
      (fun key hkey => .inr (.inl ⟨x, hx, .inl hkey⟩)) (.inr (.inl ⟨x, hx, .inr rfl⟩))

theorem settleOwners_makingOf (hl : l.Orderly) (hnotes : d.NotesWithin l.extent) :
    (Linking.makingOf d.NotesExpr).Runs d.settleOwners l Linking.Anything := by
  have hgroups := Linking.groupByOwner_within hnotes.signatures
  refine Growth.runs_forM (G := Linking.makingOf d.NotesExpr) hl fun x hx l' hl' hle' =>
    Linking.linkOwner_makingOf hl' ((hgroups x hx).1.mono hle'.1.1.1)
      (fun y hy => ((hgroups x hx).2 y hy).mono hle'.1.1.1) fun y hy e he => ?_
  rw [(Linking.mem_groupByOwner_iff.mp hx).1] at hy
  exact .inr (.inr ⟨y, (List.mem_filter.mp hy).1, he⟩)

theorem settleClasses_makingOf (hl : l.Orderly) (hnotes : d.NotesWithin l.extent) :
    (Linking.makingOf d.NotesExpr).Runs d.settleClasses l Linking.Anything :=
  Growth.runs_forM (G := Linking.makingOf d.NotesExpr) hl fun x hx _ hl' hle' =>
    Linking.linkClass_makingOf hl' _ ((hnotes.classes x hx).mono hle'.1.1.1)

/-- **From an orderly state on, all types are made in orderly states**, those of the expressions that are
noted, and names keep their meaning. -/
theorem settleTypes_makingOf (hl : l.Orderly) (hnotes : d.NotesWithin l.extent) :
    (Linking.makingOf d.NotesExpr).Runs d.settleTypes l Linking.Anything := by
  refine (settleValues_makingOf hl hnotes).bind fun _ l₁ hl₁ hle₁ _ => ?_
  have hnotes₁ := hnotes.mono hle₁.1.1.1
  refine (settleOwners_makingOf hl₁ hnotes₁).bind fun _ l₂ hl₂ hle₂ _ => ?_
  exact settleClasses_makingOf hl₂ (hnotes₁.mono hle₂.1.1.1)

/-- Before enums get their types, there are none. -/
theorem linkNames_naming (hl : l.Blank) :
    Linking.naming.Runs (do
      Linking.linkStars d.stars
      d.aliases.forM Linking.linkAlias
      d.heritage.forM Linking.linkHeritage) l Linking.Anything := by
  refine (Linking.linkStars_naming hl d.stars).bind fun _ l₁ hl₁ _ _ => ?_
  refine (Growth.runs_forM (G := Linking.naming) hl₁
    fun x _ l' hl' _ => Linking.linkAlias_naming hl' x).bind fun _ l₂ hl₂ _ _ => ?_
  exact Growth.runs_forM (G := Linking.naming) hl₂ fun x _ l' hl' _ => Linking.linkHeritage_naming hl' x

/-- When all names are settled, linking is orderly, and only keywords and enums have types. -/
theorem settleNames_prepared (hl : l.Blank) (hnotes : d.NotesWithin l.extent) :
    (d.settleNames l).2.Prepared ∧ Linking.growth.Le l (d.settleNames l).2 := by
  have hnames := linkNames_naming (d := d) hl
  have hnotes₁ := hnotes.mono hnames.le.1
  have henums := Growth.runs_forM (G := Linking.enumerating) (l := d.enums) hnames.good.prepared
    fun x hx l' hl' hle' => Linking.linkEnum_enumerating hl' ((hnotes₁.enums x hx).mono hle'.1.1)
  exact ⟨henums.good, Linking.growth.trans hnames.le henums.le.1⟩

/-- Linking, when it begins. -/
def begun (d : GraphDraft) : Linking where
  builder := d.builder
  modules := d.modules
  locals := d.locals
  globals := d.globals
  typeAliases := d.typeAliases

/-- Linking, when all notes are settled. -/
def linked (d : GraphDraft) : Linking := (d.settle d.begun).2

/-- Linking, when types begin to be made. -/
def namesSettled (d : GraphDraft) : Linking := (d.settleNames d.begun).2

theorem link_eq (d : GraphDraft) : d.link = d.linked.builder.graph := rfl

theorem begun_blank (hd : d.Sound) (hbare : d.builder.intrinsics = .empty) : d.begun.Blank :=
  Linking.blank_of_valid (SymbolGraph.valid_iff_closed.mpr hd.builder.graph) hd.builder.array hbare
    hd.notes.modules hd.notes.locals hd.notes.globals hd.notes.typeAliases

/-- **The graph of a draft is made from an orderly state on**, if no types were made in the draft. -/
theorem namesSettled_orderly (hd : d.Sound) (hbare : d.builder.intrinsics = .empty) :
    d.namesSettled.Orderly ∧ d.NotesWithin d.namesSettled.extent := by
  obtain ⟨hprepared, hle⟩ := settleNames_prepared (begun_blank hd hbare) hd.notes
  exact ⟨hprepared.orderly, hd.notes.mono hle.1⟩

/-- **Linking is a run in which types of noted expressions are made.** When it begins, no type alias has a
type. -/
theorem linked_made (hd : d.Sound) (hbare : d.builder.intrinsics = .empty) :
    d.namesSettled.aliasTypes = .empty ∧
      ∃ es, (∀ e ∈ es, d.NotesExpr e) ∧ d.namesSettled.Made es d.linked := by
  obtain ⟨horderly, hnotes⟩ := namesSettled_orderly hd hbare
  exact ⟨(settleNames_prepared (begun_blank hd hbare) hd.notes).1.aliasTypes,
    (settleTypes_makingOf horderly hnotes).le.2⟩

end GraphDraft

end ApiDocs
