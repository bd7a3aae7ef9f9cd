import ApiDocs.Proofs.Binding.Persistence

/-!
# What the making of types leaves alone

The type of an expression is put together from new types and from those that are kept in tables. On the
way, symbols may be declared for the library and types stored in the tables, but no signature is made, no
constructor stored, and the type that a type alias has got stays its type. The count of the type aliases
that are being expanded goes up and down, and in the end it is what it was.

That count is how the depth of expansion is known while types are made. Where it starts with nothing, it
says at each expansion how many are left: reading it there comes to the same as handing down the number.

## Main definitions

* `Linking.MakesTypes`: a kind of steps that all the steps are of in which types are made.
* `Linking.Aside`: type aliases, signatures, constructors and the count of expansions are as they were.
* `Linking.Spares`: the same, but type aliases may have got types.
* `Linking.expandCounted`: the expansion of type aliases that reads the count.

## Main results

* `Linking.MakesTypes.runs_materializeWith`: then making the type of an expression is one, too.
* `Linking.materialize_spares`: the type of an expression is made like that.
* `Linking.materialize_eq_counted`: the depth of expansion is the one that is counted.
-/

namespace ApiDocs.Linking

variable {l l' l'' : Linking} {α β : Type} {P : α → Linking → Prop}

/-! ## Steps in which types are made -/

/-- **All steps in which types are made are of this kind**, whatever comes before them: that a type is added, that the
library gets a symbol, and that the type of an instance or of a type parameter is kept. -/
structure MakesTypes (G : Growth Linking) : Prop where
  good : ∀ l, G.Good l
  addType : ∀ (n : GraphBuilder → TypeNode) l, G.Runs (build fun b => b.addType (n b)) l Anything
  intrinsic : ∀ flags display l, G.Runs (build (·.intrinsic flags display)) l Anything
  reference : ∀ s ts l, G.Runs (build (·.reference s ts)) l Anything
  declareGlobal : ∀ name l, G.Runs (declareGlobal name) l Anything
  instances : ∀ l instances, G.Le l { l with instances }
  parameterTypes : ∀ l parameterTypes, G.Le l { l with parameterTypes }

namespace MakesTypes

variable {G : Growth Linking} {expand : Expansion}

theorem runs_resolveType (h : MakesTypes G) (ref : NameRef) (l : Linking) : G.Runs (resolveType ref) l Anything := by
  unfold resolveType
  refine Growth.runs_get ?_
  split
  · exact Growth.runs_pure (h.good l) trivial
  next name _ =>
    exact (h.declareGlobal name l).bind fun _ l₁ _ _ _ => Growth.runs_pure (h.good l₁) trivial
  · exact Growth.runs_pure (h.good l) trivial

theorem runs_instanceType (h : MakesTypes G) (s : SymbolId) (l : Linking) : G.Runs (instanceType s) l Anything := by
  unfold instanceType
  refine Growth.runs_get ?_
  split
  · exact Growth.runs_pure (h.good l) trivial
  · refine (h.reference s [] l).bind fun t l₁ _ _ _ => ?_
    have hstored : G.Runs (modify fun l : Linking => { l with instances := l.instances.insert s t }) l₁ Anything :=
      Growth.runs_modify (h.good _) (h.instances l₁ _)
    exact hstored.bind fun _ l₂ _ _ _ => Growth.runs_pure (h.good l₂) trivial

theorem runs_parameterType (h : MakesTypes G) (s : SymbolId) (l : Linking) : G.Runs (parameterType s) l Anything := by
  unfold parameterType
  refine Growth.runs_get ?_
  split
  · exact Growth.runs_pure (h.good l) trivial
  · refine (h.addType _ l).bind fun t l₁ _ _ _ => ?_
    have hstored : G.Runs (modify fun l : Linking => { l with parameterTypes := l.parameterTypes.insert s t }) l₁
        Anything := Growth.runs_modify (h.good _) (h.parameterTypes l₁ _)
    exact hstored.bind fun _ l₂ _ _ _ => Growth.runs_pure (h.good l₂) trivial

theorem runs_instantiate (h : MakesTypes G) (s : SymbolId) (ts : List TypeId) (l : Linking) :
    G.Runs (instantiate s ts) l Anything := by
  unfold instantiate
  split
  · exact h.runs_instanceType s l
  · split
    · exact h.addType _ l
    · exact h.reference s _ l
  · exact h.reference s ts l

mutual

/-- **Making the type of an expression is a step of the kind**, if what type aliases become is one. -/
theorem runs_materializeWith (h : MakesTypes G) (hexpand : ∀ s name l, G.Runs (expand s name) l Anything)
    (l : Linking) : ∀ e : TypeExpr, G.Runs (materializeWith expand e) l Anything
  | .keyword k => by
    rw [materializeWith]
    exact h.intrinsic _ _ l
  | .text _ | .number _ => by
    rw [materializeWith]
    exact h.addType _ l
  | .boolean v => by
    rw [materializeWith]
    exact h.intrinsic _ _ l
  | .reference name ref arguments => by
    rw [materializeWith]
    refine (h.runs_resolveType ref l).bind fun found l₁ _ _ _ => ?_
    cases found with
    | none => exact h.addType _ l₁
    | some symbol =>
      refine Growth.runs_get (Growth.runs_get ?_)
      cases l₁.meaningOf (followAlias l₁.builder symbol) with
      | known t => exact Growth.runs_pure (h.good l₁) trivial
      | instantiable =>
        exact (runs_materializeAll h hexpand l₁ arguments).bind fun ts l₂ _ _ _ => h.runs_instantiate _ ts l₂
      | parameter => exact h.runs_parameterType _ l₁
      | expandable => exact hexpand _ name l₁
      | value => exact h.addType _ l₁
  | .instanceOf symbol => by
    rw [materializeWith]
    exact h.runs_instanceType symbol l
  | .array element => by
    rw [materializeWith]
    exact (runs_materializeWith h hexpand l element).bind fun _ l₁ _ _ _ => h.addType _ l₁
  | .union es | .intersection es | .tuple es => by
    rw [materializeWith]
    exact (runs_materializeAll h hexpand l es).bind fun _ l₁ _ _ _ => h.addType _ l₁
  | .this (some _) => by
    rw [materializeWith]
    exact h.addType _ l
  | .this none => by
    rw [materializeWith]
    exact h.intrinsic _ _ l
  | .verbatim _ => by
    rw [materializeWith]
    exact h.addType _ l

theorem runs_materializeAll (h : MakesTypes G) (hexpand : ∀ s name l, G.Runs (expand s name) l Anything)
    (l : Linking) : ∀ es : List TypeExpr, G.Runs (materializeAll expand es) l Anything
  | [] => by
    rw [materializeAll]
    exact Growth.runs_pure (h.good l) trivial
  | e :: es => by
    rw [materializeAll]
    refine (runs_materializeWith h hexpand l e).bind fun t l₁ _ _ _ => ?_
    exact (runs_materializeAll h hexpand l₁ es).bind fun _ l₂ _ _ _ => Growth.runs_pure (h.good l₂) trivial

end

end MakesTypes

/-! ## Steps besides type aliases -/

/-- Type aliases, signatures, constructors and the count of expansions are as they were. -/
structure Aside (l l' : Linking) : Prop where
  aliasTypes : l'.aliasTypes = l.aliasTypes
  constructors : l'.constructors = l.constructors
  signatures : l'.builder.graph.signatures = l.builder.graph.signatures
  expansionDepth : l'.expansionDepth = l.expansionDepth

/-- Steps besides type aliases. -/
def aside : Growth Linking where
  Good _ := True
  Le := Aside
  refl _ := ⟨rfl, rfl, rfl, rfl⟩
  trans h h' := ⟨h'.aliasTypes.trans h.aliasTypes, h'.constructors.trans h.constructors,
    h'.signatures.trans h.signatures, h'.expansionDepth.trans h.expansionDepth⟩

theorem build_aside {f : GraphBuilder → α × GraphBuilder}
    (h : (f l.builder).2.graph.signatures = l.builder.graph.signatures) :
    aside.Runs (build f) l Anything :=
  ⟨trivial, ⟨rfl, rfl, h, rfl⟩, trivial⟩

theorem intrinsic_aside (flags : TypeFlags) (display : String) :
    aside.Runs (build (·.intrinsic flags display)) l Anything := by
  refine build_aside ?_
  unfold GraphBuilder.intrinsic
  split <;> rfl

theorem addType_aside {n : GraphBuilder → TypeNode} :
    aside.Runs (build fun b => b.addType (n b)) l Anything :=
  build_aside rfl

theorem reference_aside (s : SymbolId) (ts : List TypeId) :
    aside.Runs (build (·.reference s ts)) l Anything := by
  refine build_aside ?_
  unfold GraphBuilder.reference
  dsimp only
  split <;> rfl

theorem declareGlobal_aside (name : String) : aside.Runs (declareGlobal name) l Anything :=
  ⟨trivial, ⟨rfl, rfl, rfl, rfl⟩, trivial⟩

theorem aside_makesTypes : MakesTypes aside where
  good _ := trivial
  addType _ _ := addType_aside
  intrinsic flags display _ := intrinsic_aside flags display
  reference s ts _ := reference_aside s ts
  declareGlobal name _ := declareGlobal_aside name
  instances _ _ := ⟨rfl, rfl, rfl, rfl⟩
  parameterTypes _ _ := ⟨rfl, rfl, rfl, rfl⟩

theorem resolveType_aside (ref : NameRef) : aside.Runs (resolveType ref) l Anything :=
  aside_makesTypes.runs_resolveType ref l

theorem instanceType_aside (s : SymbolId) : aside.Runs (instanceType s) l Anything :=
  aside_makesTypes.runs_instanceType s l

theorem parameterType_aside (s : SymbolId) : aside.Runs (parameterType s) l Anything :=
  aside_makesTypes.runs_parameterType s l

theorem instantiate_aside (s : SymbolId) (ts : List TypeId) : aside.Runs (instantiate s ts) l Anything :=
  aside_makesTypes.runs_instantiate s ts l

/-! ## Types of expressions -/

/-- Signatures, constructors and the count of expansions are as they were, and type aliases keep their
types. -/
structure Spares (l l' : Linking) : Prop where
  aliasTypes : ∀ s t, l.aliasTypes.get? s = some t → l'.aliasTypes.get? s = some t
  constructors : l'.constructors = l.constructors
  signatures : l'.builder.graph.signatures = l.builder.graph.signatures
  expansionDepth : l'.expansionDepth = l.expansionDepth

/-- Steps that leave all of that alone. -/
def sparing : Growth Linking where
  Good _ := True
  Le := Spares
  refl _ := ⟨fun _ _ => id, rfl, rfl, rfl⟩
  trans h h' := ⟨fun s t => h'.aliasTypes s t ∘ h.aliasTypes s t, h'.constructors.trans h.constructors,
    h'.signatures.trans h.signatures, h'.expansionDepth.trans h.expansionDepth⟩

theorem Aside.spares (h : l.Aside l') : l.Spares l' :=
  ⟨fun s t ht => by rwa [h.aliasTypes], h.constructors, h.signatures, h.expansionDepth⟩

theorem spared {x : LinkM α} (h : aside.Runs x l P) : sparing.Runs x l P :=
  ⟨trivial, h.le.spares, h.post⟩

/-- What a type alias becomes leaves all of that alone. -/
def ExpandsSparing (expand : Expansion) : Prop :=
  ∀ (s : SymbolId) (name : String) (l : Linking), sparing.Runs (expand s name) l Anything

theorem sparing_makesTypes : MakesTypes sparing where
  good _ := trivial
  addType _ _ := spared addType_aside
  intrinsic flags display _ := spared (intrinsic_aside flags display)
  reference s ts _ := spared (reference_aside s ts)
  declareGlobal name _ := spared (declareGlobal_aside name)
  instances _ _ := ⟨fun _ _ => id, rfl, rfl, rfl⟩
  parameterTypes _ _ := ⟨fun _ _ => id, rfl, rfl, rfl⟩

theorem materializeWith_spares {expand : Expansion} (hexpand : ExpandsSparing expand) (l : Linking) (e : TypeExpr) :
    sparing.Runs (materializeWith expand e) l Anything :=
  sparing_makesTypes.runs_materializeWith hexpand l e

theorem materializeAll_spares {expand : Expansion} (hexpand : ExpandsSparing expand) (l : Linking)
    (es : List TypeExpr) : sparing.Runs (materializeAll expand es) l Anything :=
  sparing_makesTypes.runs_materializeAll hexpand l es

/-- What is done within one more type alias leaves the count as it was. -/
theorem expanding_spares {x : LinkM α} (h : ∀ l, sparing.Runs x l Anything) (l : Linking) :
    sparing.Runs (expanding x) l Anything := by
  have hx := (h { l with expansionDepth := l.expansionDepth + 1 }).le
  refine ⟨trivial, ⟨hx.aliasTypes, hx.constructors, hx.signatures, ?_⟩, trivial⟩
  change (x { l with expansionDepth := l.expansionDepth + 1 }).2.expansionDepth - 1 = l.expansionDepth
  rw [hx.expansionDepth, Nat.add_sub_cancel]

theorem aliasType_spares {make? : Option (TypeExpr → LinkM TypeId)}
    (hmake : ∀ make ∈ make?, ∀ e l, sparing.Runs (make e) l Anything) :
    ExpandsSparing (aliasType make?) := by
  intro s name l
  unfold aliasType
  refine Growth.runs_get (Growth.runs_get ?_)
  split
  next => exact Growth.runs_pure trivial trivial
  next e make hnone _ =>
    -- What is stored is new: while the type alias is expanded it may have been stored before, but when
    -- this began it was not.
    have hx := (expanding_spares (hmake make rfl e) l).le
    refine ⟨trivial, ⟨fun s' t ht => ?_, hx.constructors, hx.signatures, hx.expansionDepth⟩, trivial⟩
    have hne : s' ≠ s := by
      rintro rfl
      rw [hnone] at ht
      cases ht
    exact (Table.get?_insert_of_ne hne).trans (hx.aliasTypes s' t ht)
  next => exact spared addType_aside

theorem expandAlias_spares (depth : Nat) : ExpandsSparing (expandAlias depth) := by
  induction depth with
  | zero => exact aliasType_spares (by simp)
  | succ depth ih =>
    refine aliasType_spares fun make hmake e l => ?_
    cases hmake
    exact materializeWith_spares ih l e

/-- **Making the type of an expression leaves signatures and constructors alone**, type aliases keep their
types, and the count of expansions is back where it was. -/
theorem materialize_spares (e : TypeExpr) (l : Linking) : l.Spares (materialize e l).2 :=
  (materializeWith_spares (expandAlias_spares maxExpansion) l e).le

/-! ## The depth of expansion -/

/-- The type of a type alias, which is expanded unless the count says that this is too deep. The number
only bounds the recursion. -/
def expandCounted : Nat → Expansion
  | 0, _, name => build (·.anonymous name)
  | fuel + 1, s, name => do
    if (← get).expansionDepth < maxExpansion then
      aliasType (some (materializeWith (expandCounted fuel))) s name
    else aliasType none s name

/-- Type aliases become the same types where the count is `n`. -/
def AgreeAt (n : Nat) (expand expand' : Expansion) : Prop :=
  ∀ (s : SymbolId) (name : String) (l : Linking), l.expansionDepth = n →
    expand s name l = expand' s name l

theorem expanding_apply (x : LinkM α) (l : Linking) : expanding x l =
    ((x { l with expansionDepth := l.expansionDepth + 1 }).1,
      { (x { l with expansionDepth := l.expansionDepth + 1 }).2 with
        expansionDepth := (x { l with expansionDepth := l.expansionDepth + 1 }).2.expansionDepth - 1 }) :=
  rfl

theorem bind_apply (x : LinkM α) (f : α → LinkM β) (l : Linking) : (x >>= f) l = f (x l).1 (x l).2 := rfl

theorem get_bind (f : Linking → LinkM α) (l : Linking) : (get >>= f) l = f l l := rfl

/-- Two steps of which the first leaves the count alone. -/
theorem bind_agree {x x' : LinkM α} {f f' : α → LinkM β} (hspares : sparing.Runs x l P)
    (hx : x l = x' l) (hf : ∀ a l', l'.expansionDepth = l.expansionDepth → f a l' = f' a l') :
    (x >>= f) l = (x' >>= f') l := by
  rw [bind_apply, bind_apply, ← hx]
  exact hf _ _ hspares.le.expansionDepth

section

variable {n : Nat} {expand expand' : Expansion}

mutual

theorem materializeWith_agree (hexpand : ExpandsSparing expand) (hagree : AgreeAt n expand expand') :
    ∀ (e : TypeExpr) (l : Linking), l.expansionDepth = n →
      materializeWith expand e l = materializeWith expand' e l
  | .reference name ref arguments, l, hl => by
    rw [materializeWith, materializeWith]
    refine bind_agree (spared (resolveType_aside ref)) rfl fun found l₁ hl₁ => ?_
    cases found with
    | none => rfl
    | some symbol =>
      simp only [get_bind]
      cases l₁.meaningOf (followAlias l₁.builder symbol) with
      | instantiable =>
        exact bind_agree (materializeAll_spares hexpand l₁ arguments)
          (materializeAll_agree hexpand hagree arguments l₁ (hl₁.trans hl)) fun _ _ _ => rfl
      | expandable => exact hagree _ name l₁ (hl₁.trans hl)
      | known t => rfl
      | parameter => rfl
      | value => rfl
  | .array element, l, hl => by
    rw [materializeWith, materializeWith]
    exact bind_agree (materializeWith_spares hexpand l element)
      (materializeWith_agree hexpand hagree element l hl) fun _ _ _ => rfl
  | .union es, l, hl | .intersection es, l, hl | .tuple es, l, hl => by
    rw [materializeWith, materializeWith]
    exact bind_agree (materializeAll_spares hexpand l es) (materializeAll_agree hexpand hagree es l hl)
      fun _ _ _ => rfl
  | .keyword _, _, _ | .text _, _, _ | .number _, _, _ | .boolean _, _, _ | .instanceOf _, _, _
  | .this (some _), _, _ | .this none, _, _ | .verbatim _, _, _ => by rw [materializeWith, materializeWith]

theorem materializeAll_agree (hexpand : ExpandsSparing expand) (hagree : AgreeAt n expand expand') :
    ∀ (es : List TypeExpr) (l : Linking), l.expansionDepth = n →
      materializeAll expand es l = materializeAll expand' es l
  | [], _, _ => by rw [materializeAll, materializeAll]
  | e :: es, l, hl => by
    rw [materializeAll, materializeAll]
    refine bind_agree (materializeWith_spares hexpand l e) (materializeWith_agree hexpand hagree e l hl)
      fun t l₁ hl₁ => ?_
    exact bind_agree (materializeAll_spares hexpand l₁ es)
      (materializeAll_agree hexpand hagree es l₁ (hl₁.trans hl)) fun _ _ _ => rfl

end

end

theorem aliasType_agree {make make' : TypeExpr → LinkM TypeId} {s : SymbolId} {name : String}
    (hmake : ∀ e l', l'.expansionDepth = l.expansionDepth + 1 → make e l' = make' e l') :
    aliasType (some make) s name l = aliasType (some make') s name l := by
  unfold aliasType
  simp only [get_bind]
  cases l.aliasTypes.get? s with
  | some t => rfl
  | none =>
    cases l.typeAliases.get? s with
    | none => rfl
    | some e =>
      have hwithin : expanding (make e) l = expanding (make' e) l := by
        rw [expanding_apply, expanding_apply, hmake e _ rfl]
      simp only [bind_apply, hwithin]

/-- Where the depth that is left and the count add up to the limit, they say the same. -/
theorem expandAlias_eq_counted {depth fuel : Nat} (hfuel : depth < fuel) {s : SymbolId} {name : String}
    (hl : l.expansionDepth + depth = maxExpansion) :
    expandAlias depth s name l = expandCounted fuel s name l := by
  induction depth generalizing fuel s name l with
  | zero =>
    obtain ⟨fuel, rfl⟩ : ∃ n, fuel = n + 1 := ⟨fuel - 1, by omega⟩
    rw [expandCounted, get_bind, if_neg (by omega), expandAlias]
  | succ depth ih =>
    obtain ⟨fuel, rfl⟩ : ∃ n, fuel = n + 1 := ⟨fuel - 1, by omega⟩
    rw [expandCounted, get_bind, if_pos (by omega), expandAlias]
    refine aliasType_agree fun e l' hl' => ?_
    refine materializeWith_agree (n := l'.expansionDepth) (expandAlias_spares depth) ?_ e l' rfl
    exact fun s name l'' hl'' => ih (by omega) (by omega)

/-- **The depth of expansion is the one that is counted**: handing down how many expansions are left comes
to the same as reading the count at each of them. -/
theorem materialize_eq_counted (e : TypeExpr) (hl : l.expansionDepth = 0) :
    materialize e l = materializeWith (expandCounted (maxExpansion + 1)) e l :=
  materializeWith_agree (n := 0) (expandAlias_spares maxExpansion)
    (fun _ _ _ hl' => expandAlias_eq_counted (Nat.lt_succ_self _) (by rw [hl', Nat.zero_add])) e l hl

end ApiDocs.Linking
