import ApiDocs.Proofs.Binding.TypePhase
import ApiDocs.Proofs.Graph.Symbols

/-!
# Places that linking touches

Linking adds symbols for the library, and what it changes of others is little: what they export and extend, the
targets of aliases, and types. Types are recorded at few places: a symbol has one, and an index signature has
those of its key and its value. Each step of linking records types at the places that its note names and
leaves all others as they are, so in the end it can be told from the notes which places have types.

## Main definitions

* `Symbol.bare`: what linking leaves of a symbol.
* `GraphBuilder.Touches`: types may have been recorded at some places, and not at others.
* `Linking.touching`: steps that touch only some places.

## Main results

* `Linking.materialize_touching`: making the type of an expression touches no place.
-/

namespace ApiDocs

/-- A declaration without what linking settles: what it extends, and the types of an index signature. -/
def Declaration.bare (d : Declaration) : Declaration := { d with heritage := [], index := none }

/-- A symbol without what linking settles. An alias that is given its target is flagged as one, so the flag
does not tell symbols apart. -/
def Symbol.bare (s : Symbol) : Symbol :=
  { s with
    flags := s.flags ∪ SymbolFlags.aliasBit
    exports := .empty
    aliasOf := none
    typeId := none
    declarations := s.declarations.map Declaration.bare }

/-! ## Places -/

namespace GraphBuilder

/-- The types of an index signature. -/
def indexAt (b : GraphBuilder) (s : SymbolId) (declaration : Nat) : Option IndexTypes :=
  ((b.graph.symbol? s).bind (·.declarations[declaration]?)).bind (·.index)

/-- Symbols stay, and among them only those in `S` may have got types, and only the index signatures
in `T`. There is no type at a new symbol. -/
structure Touches (S : SymbolId → Prop) (T : SymbolId → Nat → Prop) (b b' : GraphBuilder) : Prop where
  bare : ∀ {s x}, b.graph.symbol? s = some x → (b'.graph.symbol? s).map Symbol.bare = some x.bare
  types : ∀ s, ¬ S s → b'.typeOf s = b.typeOf s
  indexes : ∀ s i, ¬ T s i → b'.indexAt s i = b.indexAt s i

namespace Touches

variable {S S' : SymbolId → Prop} {T T' : SymbolId → Nat → Prop} {b b' b'' : GraphBuilder} {s : SymbolId}

theorem refl (b : GraphBuilder) : b.Touches S T b :=
  ⟨fun h => by rw [h, Option.map_some], fun _ _ => rfl, fun _ _ _ => rfl⟩

theorem trans (h : b.Touches S T b') (h' : b'.Touches S T b'') : b.Touches S T b'' := by
  refine ⟨fun {s x} hx => ?_, fun s hs => (h'.types s hs).trans (h.types s hs),
    fun s i hi => (h'.indexes s i hi).trans (h.indexes s i hi)⟩
  obtain ⟨y, hy, hxy⟩ := Option.map_eq_some_iff.mp (h.bare hx)
  rw [h'.bare hy, hxy]

theorem mono (h : b.Touches S T b') (hS : ∀ s, S s → S' s) (hT : ∀ s i, T s i → T' s i) :
    b.Touches S' T' b' :=
  { h with
    types := fun s hs => h.types s (hs ∘ hS s)
    indexes := fun s i hi => h.indexes s i (hi ∘ hT s i) }

/-- A step that leaves symbols alone. -/
theorem of_symbols_eq (h : b'.graph.symbols = b.graph.symbols) : b.Touches S T b' := by
  have hsymbol : ∀ s, b'.graph.symbol? s = b.graph.symbol? s := fun s => by
    rw [SymbolGraph.symbol?, h, SymbolGraph.symbol?]
  refine ⟨fun {s x} hx => ?_, fun s _ => ?_, fun s i _ => ?_⟩
  · rw [hsymbol, hx, Option.map_some]
  · rw [typeOf, hsymbol, typeOf]
  · rw [indexAt, hsymbol, indexAt]

/-- A step that changes one symbol, but not what it is without its types. -/
theorem modifySymbol {f : Symbol → Symbol} (hf : ∀ x, (f x).bare = x.bare)
    (htypes : ¬ S s → ∀ x, (f x).typeId = x.typeId)
    (hindexes : ∀ i, ¬ T s i → ∀ x, ((f x).declarations[i]?).bind (·.index) = x.declarations[i]?.bind (·.index)) :
    b.Touches S T (b.modifySymbol s f) := by
  refine ⟨fun {s' x} hx => ?_, fun s' hs' => ?_, fun s' i hi => ?_⟩
  · rw [symbol?_modifySymbol, hx]
    split <;> simp [hf]
  · rw [typeOf, typeOf, symbol?_modifySymbol]
    split
    next heq =>
      subst heq
      cases b.graph.symbol? s' <;> simp [htypes hs']
    next => rfl
  · rw [indexAt, indexAt, symbol?_modifySymbol]
    split
    next heq =>
      subst heq
      cases b.graph.symbol? s' <;> simp [hindexes i hi]
    next => rfl

/-- A step that changes one symbol, but neither its declarations nor its type. -/
theorem modifyOutside {f : Symbol → Symbol} (hf : ∀ x, (f x).bare = x.bare)
    (htypes : ∀ x, (f x).typeId = x.typeId) (hdeclarations : ∀ x, (f x).declarations = x.declarations) :
    b.Touches S T (b.modifySymbol s f) :=
  modifySymbol hf (fun _ => htypes) fun i _ x => by rw [hdeclarations]

/-- A step that changes one declaration, but not what it is before linking. -/
theorem modifyDeclaration {i : Nat} {f : Declaration → Declaration} (hf : ∀ x, (f x).bare = x.bare)
    (hindex : ¬ T s i → ∀ x, (f x).index = x.index) : b.Touches S T (b.modifyDeclaration s i f) := by
  refine modifySymbol (fun y => ?_) (fun _ _ => rfl) fun j hj y => ?_
  · have hbare : (y.declarations.modify i f).map Declaration.bare = y.declarations.map Declaration.bare := by
      refine List.ext_getElem? fun j => ?_
      rw [List.getElem?_map, List.getElem?_map, List.getElem?_modify]
      split <;> cases y.declarations[j]? <;> simp [hf]
    simp only [Symbol.bare, hbare]
  · rw [List.getElem?_modify]
    split
    next heq =>
      subst heq
      cases y.declarations[i]? <;> simp [hindex hj]
    next => simp

end Touches

end GraphBuilder

namespace Linking

variable {l l' l'' : Linking} {s : SymbolId} {e : TypeExpr} {t : TypeId} {α : Type}
  {S : SymbolId → Prop} {T : SymbolId → Nat → Prop}

/-! ## Steps -/

/-- Only these places were touched, and type aliases stay. -/
structure Touches (S : SymbolId → Prop) (T : SymbolId → Nat → Prop) (l l' : Linking) : Prop extends
    GraphBuilder.Touches S T l.builder l'.builder where
  typeAliases : l'.typeAliases = l.typeAliases

/-- Steps that touch only these places. -/
def touching (S : SymbolId → Prop) (T : SymbolId → Nat → Prop) : Growth Linking where
  Good _ := True
  Le := Touches S T
  refl l := ⟨.refl l.builder, rfl⟩
  trans h h' := ⟨h.toTouches.trans h'.toTouches, h'.typeAliases.trans h.typeAliases⟩

/-- Steps that touch no place. -/
abbrev untouching : Growth Linking := touching (fun _ => False) fun _ _ => False

/-- A step that touches fewer places. -/
theorem touching_of {S' : SymbolId → Prop} {T' : SymbolId → Nat → Prop} {x : LinkM α} {P : α → Linking → Prop}
    (h : (touching S T).Runs x l P) (hS : ∀ s, S s → S' s) (hT : ∀ s i, T s i → T' s i) :
    (touching S' T').Runs x l P :=
  ⟨trivial, ⟨h.le.toTouches.mono hS hT, h.le.typeAliases⟩, h.post⟩

theorem touching_of_untouching {x : LinkM α} {P : α → Linking → Prop} (h : untouching.Runs x l P) :
    (touching S T).Runs x l P :=
  touching_of h (fun _ => False.elim) fun _ _ => False.elim

theorem build_touching {f : GraphBuilder → α × GraphBuilder} (h : l.builder.Touches S T (f l.builder).2) :
    (touching S T).Runs (build f) l Anything :=
  ⟨trivial, ⟨h, rfl⟩, trivial⟩

theorem rebuild_touching {f : GraphBuilder → GraphBuilder} (h : l.builder.Touches S T (f l.builder)) :
    (touching S T).Runs (rebuild f) l Anything :=
  ⟨trivial, ⟨h, rfl⟩, trivial⟩

theorem setType_touching (hs : S s) : (touching S T).Runs (rebuild (·.setType s t)) l Anything :=
  rebuild_touching (.modifySymbol (fun _ => rfl) (absurd hs) fun _ _ _ => rfl)

/-- A step that changes no symbol. -/
theorem store_touching {f : Linking → Linking} (hbuilder : (f l).builder = l.builder)
    (haliases : (f l).typeAliases = l.typeAliases) : (touching S T).Runs (modify f) l Anything := by
  refine Growth.runs_modify (G := touching S T) trivial ⟨?_, haliases⟩
  rw [hbuilder]
  exact .refl l.builder

theorem intrinsic_touching (flags : TypeFlags) (display : String) :
    (touching S T).Runs (build (·.intrinsic flags display)) l Anything := by
  refine build_touching (.of_symbols_eq ?_)
  unfold GraphBuilder.intrinsic
  split <;> rfl

theorem addType_touching {n : GraphBuilder → TypeNode} :
    (touching S T).Runs (build fun b => b.addType (n b)) l Anything :=
  build_touching (.of_symbols_eq rfl)

theorem reference_touching (s : SymbolId) (ts : List TypeId) :
    (touching S T).Runs (build (·.reference s ts)) l Anything := by
  refine build_touching (.of_symbols_eq ?_)
  unfold GraphBuilder.reference
  dsimp only
  split <;> rfl

/-- A symbol that the library declares has no type and no index signature. -/
theorem declareGlobal_touching (name : String) : (touching S T).Runs (declareGlobal name) l Anything := by
  have hsymbol : ∀ s, (declareGlobal name l).2.builder.graph.symbol? s =
      if s = l.builder.next then some (GraphBuilder.attach GraphBuilder.libraryDeclaration
        { name, flags := SymbolFlags.interfaceBit })
      else l.builder.graph.symbol? s := by
    intro s
    change ((l.builder.addSymbol name SymbolFlags.interfaceBit).2.modifySymbol l.builder.next
      (GraphBuilder.attach GraphBuilder.libraryDeclaration)).graph.symbol? s = _
    rw [GraphBuilder.symbol?_modifySymbol, GraphBuilder.symbol?_addSymbol]
    split <;> rfl
  refine ⟨trivial, ⟨⟨fun {s x} hx => ?_, fun s _ => ?_, fun s i _ => ?_⟩, rfl⟩, trivial⟩
  · rw [hsymbol, if_neg, hx, Option.map_some]
    rintro rfl
    rw [GraphBuilder.symbol?_next] at hx
    cases hx
  · rw [GraphBuilder.typeOf, GraphBuilder.typeOf, hsymbol]
    split
    next heq =>
      rw [heq, GraphBuilder.symbol?_next]
      rfl
    next => rfl
  · rw [GraphBuilder.indexAt, GraphBuilder.indexAt, hsymbol]
    split
    next heq =>
      rw [heq, GraphBuilder.symbol?_next]
      cases i <;> rfl
    next => rfl

theorem touching_makesTypes : MakesTypes (touching S T) where
  good _ := trivial
  addType _ _ := addType_touching
  intrinsic flags display _ := intrinsic_touching flags display
  reference s ts _ := reference_touching s ts
  declareGlobal name _ := declareGlobal_touching name
  instances l _ := ⟨.refl l.builder, rfl⟩
  parameterTypes l _ := ⟨.refl l.builder, rfl⟩

theorem resolveType_touching (ref : NameRef) : (touching S T).Runs (resolveType ref) l Anything :=
  touching_makesTypes.runs_resolveType ref l

theorem instanceType_touching (s : SymbolId) : (touching S T).Runs (instanceType s) l Anything :=
  touching_makesTypes.runs_instanceType s l

/-! ## Types of expressions -/

/-- What a type alias becomes touches nothing. -/
def ExpandsUntouching (expand : Expansion) : Prop :=
  ∀ (s : SymbolId) (name : String) (l : Linking), untouching.Runs (expand s name) l Anything

theorem materializeWith_touching {expand : Expansion} (hexpand : ExpandsUntouching expand) (l : Linking)
    (e : TypeExpr) : untouching.Runs (materializeWith expand e) l Anything :=
  touching_makesTypes.runs_materializeWith hexpand l e

theorem expanding_touching {x : LinkM α} (h : ∀ l, untouching.Runs x l Anything) (l : Linking) :
    untouching.Runs (expanding x) l Anything := by
  unfold expanding
  refine (store_touching rfl rfl).bind fun _ l₁ _ _ _ => (h l₁).bind fun t _ _ _ _ => ?_
  exact (store_touching rfl rfl).bind fun _ _ _ _ _ => Growth.runs_pure trivial trivial

theorem aliasType_touching {make? : Option (TypeExpr → LinkM TypeId)}
    (hmake : ∀ make ∈ make?, ∀ e l, untouching.Runs (make e) l Anything) :
    ExpandsUntouching (aliasType make?) := by
  intro s name l
  unfold aliasType
  refine Growth.runs_get (Growth.runs_get ?_)
  split
  next => exact Growth.runs_pure trivial trivial
  next e make _ _ =>
    refine (expanding_touching (hmake make rfl e) l).bind fun t _ _ _ _ => ?_
    exact (store_touching rfl rfl).bind fun _ _ _ _ _ => Growth.runs_pure trivial trivial
  next => exact addType_touching

theorem expandAlias_touching (depth : Nat) : ExpandsUntouching (expandAlias depth) := by
  induction depth with
  | zero => exact aliasType_touching (by simp)
  | succ depth ih =>
    refine aliasType_touching fun make hmake e l => ?_
    cases hmake
    exact materializeWith_touching ih l e

/-- **Making the type of an expression touches no symbol.** -/
theorem materialize_touching (e : TypeExpr) (l : Linking) : (touching S T).Runs (materialize e) l Anything :=
  touching_of_untouching (materializeWith_touching (expandAlias_touching maxExpansion) l e)

/-! ## Settling names -/

theorem linkStars_touching (stars : List StarDraft) : (touching S T).Runs (linkStars stars) l Anything :=
  Growth.runs_get (rebuild_touching (times_starRound_induction (P := l.builder.Touches S T)
    (fun _ _ _ _ hb => hb.trans (.modifyOutside (fun _ => rfl) (fun _ => rfl) fun _ => rfl)) (.refl _) _ _))

/-- What is flagged as an alias stays so. -/
theorem flags_union_aliasBit (flags : SymbolFlags) :
    flags ∪ SymbolFlags.aliasBit ∪ SymbolFlags.aliasBit = flags ∪ SymbolFlags.aliasBit := by
  change FlagSet.mk _ = FlagSet.mk _
  rw [FlagSet.mk.injEq]
  exact (UInt32.or_assoc ..).trans (congrArg _ UInt32.or_self)

theorem linkAlias_touching (draft : AliasDraft) : (touching S T).Runs (linkAlias draft) l Anything := by
  unfold linkAlias
  refine Growth.runs_get ?_
  split
  · split
    · refine rebuild_touching (.modifyOutside (fun x => ?_) (fun _ => rfl) fun _ => rfl)
      simp only [Symbol.bare, flags_union_aliasBit]
    · exact Growth.runs_pure trivial trivial
  · exact Growth.runs_pure trivial trivial

theorem linkHeritage_touching (draft : HeritageDraft) :
    (touching S T).Runs (linkHeritage draft) l Anything := by
  have hsymbols : (touching S T).Runs (draft.names.mapM resolveType) l fun found _ => ∀ _ ∈ found, True :=
    Growth.runs_mapM trivial (fun _ _ _ _ h => h) fun ref _ _ _ _ => resolveType_touching ref
  exact hsymbols.bind fun found _ _ _ _ => rebuild_touching (.modifyDeclaration (fun _ => rfl) fun _ _ => rfl)

theorem enumMemberType_touching (member : SymbolId) (value : Option Literal) :
    (touching S T).Runs (enumMemberType member value) l Anything := by
  cases value with
  | some value =>
    rw [enumMemberType]
    exact build_touching (.of_symbols_eq rfl)
  | none =>
    rw [enumMemberType]
    exact intrinsic_touching _ _

/-- An enum and its members get types. -/
theorem linkEnum_touching {draft : EnumDraft} (hsymbol : S draft.symbol)
    (hmembers : ∀ m ∈ draft.members, S m.1) : (touching S T).Runs (linkEnum draft) l Anything := by
  unfold linkEnum
  have hliterals : (touching S T).Runs (draft.members.mapM fun m => do
      let t ← enumMemberType m.1 m.2
      rebuild (·.setType m.1 t)
      modify fun l => { l with enumTypes := l.enumTypes.insert m.1 t }
      return if m.2.isSome then some t else none) l fun found _ => ∀ _ ∈ found, True := by
    refine Growth.runs_mapM trivial (fun _ _ _ _ h => h) fun m hm l' _ _ => ?_
    refine (enumMemberType_touching m.1 m.2).bind fun t _ _ _ _ => ?_
    refine (setType_touching (hmembers m hm)).bind fun _ _ _ _ _ => ?_
    exact (store_touching rfl rfl).bind fun _ _ _ _ _ => Growth.runs_pure trivial trivial
  refine hliterals.bind fun found l₁ _ _ _ => addType_touching.bind fun t _ _ _ _ => ?_
  exact (setType_touching hsymbol).bind fun _ _ _ _ _ => store_touching rfl rfl

/-! ## Settling types -/

/-- A symbol gets a type if it has none. -/
theorem linkType_touching {symbol : SymbolId} (hs : l.builder.typeOf symbol = none → S symbol) (e : TypeExpr) :
    (touching S T).Runs (linkType symbol e) l Anything := by
  unfold linkType
  refine Growth.runs_get ?_
  split
  next hnone =>
    refine (materialize_touching e l).bind fun t _ _ _ _ => setType_touching (hs ?_)
    simpa using hnone
  next => exact Growth.runs_pure trivial trivial

theorem linkIndex_touching {draft : IndexDraft} (hindex : T draft.symbol draft.declaration) :
    (touching S T).Runs (linkIndex draft) l Anything := by
  have hkey : (touching S T).Runs (draft.key.mapM materialize) l Anything := by
    cases draft.key with
    | none => exact Growth.runs_pure trivial trivial
    | some key =>
      rw [Option.mapM_some, map_eq_pure_bind]
      exact (materialize_touching key l).bind fun _ _ _ _ _ => Growth.runs_pure trivial trivial
  refine hkey.bind fun key l₁ _ _ _ => (materialize_touching draft.value l₁).bind fun value _ _ _ _ => ?_
  exact rebuild_touching (.modifyDeclaration (fun _ => rfl) fun h => absurd hindex h)

theorem resultType_touching (draft : SignatureDraft) : (touching S T).Runs (resultType draft) l Anything := by
  unfold resultType
  split
  · exact materialize_touching _ l
  · exact instanceType_touching _
  · exact intrinsic_touching _ _

theorem makeSignature_touching (draft : SignatureDraft) :
    (touching S T).Runs (makeSignature draft) l Anything :=
  (resultType_touching draft).bind fun _ _ _ _ _ => build_touching (.of_symbols_eq rfl)

/-- Functions get types, and other owners of signatures do not. -/
theorem linkOwner_touching {owner : SignatureOwner} (howner : ∀ s, owner = .call s → S s)
    (drafts : List SignatureDraft) : (touching S T).Runs (linkOwner owner drafts) l Anything := by
  have hsignatures : (touching S T).Runs ((visibleSignatures drafts).mapM makeSignature) l
      fun found _ => ∀ _ ∈ found, True :=
    Growth.runs_mapM trivial (fun _ _ _ _ h => h) fun x _ _ _ _ => makeSignature_touching x
  refine hsignatures.bind fun signatures l₁ _ _ _ => ?_
  cases owner with
  | call symbol => exact addType_touching.bind fun t _ _ _ _ => setType_touching (howner symbol rfl)
  | construct symbol =>
    refine Growth.runs_get ?_
    split
    · exact store_touching rfl rfl
    · refine (instanceType_touching symbol).bind fun t l₂ _ _ _ => ?_
      exact Growth.runs_forM trivial fun _ _ _ _ _ => rebuild_touching (.of_symbols_eq rfl)

theorem inheritSignature_touching (t : TypeId) (id : SignatureId) :
    (touching S T).Runs (inheritSignature t id) l Anything := by
  unfold inheritSignature
  refine Growth.runs_get ?_
  split
  · exact (build_touching (.of_symbols_eq rfl)).bind fun _ _ _ _ _ => Growth.runs_pure trivial trivial
  · exact Growth.runs_pure trivial trivial

/-- How constructors of a class are got touches no place. -/
def ConstructsUntouching (f : SymbolId → LinkM (List SignatureId)) : Prop :=
  ∀ (s : SymbolId) (l : Linking), untouching.Runs (f s) l Anything

theorem constructorsVia_touching {inherit? : Option (SymbolId → LinkM (List SignatureId))}
    (hinherit : ∀ f ∈ inherit?, ConstructsUntouching f) (bases : Table SymbolId NameRef) :
    ConstructsUntouching (constructorsVia inherit? bases) := by
  intro s l
  have himplied : ∀ base t l, untouching.Runs (impliedConstructors inherit? base t) l Anything := by
    intro base t l
    unfold impliedConstructors
    split
    next base inherit =>
      refine (hinherit inherit rfl base l).bind fun inherited l₁ _ _ _ => ?_
      have hcopies : untouching.Runs (inherited.mapM (inheritSignature t)) l₁ fun found _ => ∀ _ ∈ found, True :=
        Growth.runs_mapM trivial (fun _ _ _ _ h => h) fun id _ _ _ _ => inheritSignature_touching t id
      exact hcopies.bind fun _ _ _ _ _ => Growth.runs_pure trivial trivial
    next => exact (build_touching (.of_symbols_eq rfl)).bind fun _ _ _ _ _ => Growth.runs_pure trivial trivial
  unfold constructorsVia
  refine Growth.runs_get ?_
  split
  · exact Growth.runs_pure trivial trivial
  · refine Growth.runs_get ?_
    refine (instanceType_touching s).bind fun t l₁ _ _ _ => ?_
    refine (himplied _ t l₁).bind fun xs _ _ _ _ => ?_
    exact (store_touching rfl rfl).bind fun _ _ _ _ _ => Growth.runs_pure trivial trivial

theorem constructorsOf_touching (bases : Table SymbolId NameRef) (depth : Nat) :
    ConstructsUntouching (constructorsOf bases depth) := by
  induction depth with
  | zero => exact constructorsVia_touching (by simp) bases
  | succ depth ih =>
    refine constructorsVia_touching (fun f hf => ?_) bases
    cases hf
    exact ih

/-- A class gets its type. -/
theorem linkClass_touching {draft : ClassDraft} (hs : S draft.symbol) (bases : Table SymbolId NameRef) :
    (touching S T).Runs (linkClass bases draft) l Anything := by
  refine (touching_of_untouching (constructorsOf_touching bases maxExpansion draft.symbol l)).bind
    fun xs _ _ _ _ => ?_
  exact addType_touching.bind fun t _ _ _ _ => setType_touching hs

end Linking

end ApiDocs
