import ApiDocs.Proofs.Binding.TypeForms

/-!
# Making types

The type of an expression has the form of the expression, whenever it is made: what it is made of lasts,
and so does the meaning of the names in it.

Keywords, the instances of classes and interfaces, type parameters and type aliases have one type, which
is kept in a table. Linking is orderly as long as the types in the tables have the forms that would be
made anew. For type aliases this is said with all later states at once, since names in the expression of
an alias may become known later; and it is said only of programs whose type aliases nest, since else the
type that is kept may have been cut off within another alias.

## Main definitions

* `Linking.Orderly`: types that are kept in tables have their forms.
* `Linking.making`: linking keeps what there is and stays orderly.
* `Linking.TakesForm`: a type has a form from now on.
* `Linking.Refers`: what a name stands for from now on.
* `Linking.MadeOf`: a type was made of an expression.
* `Linking.Made`: a run of linking, in which types of expressions are made.

## Main results

* `Linking.reference_runs`: a type is made of what the name of a reference stands for.
* `Linking.materialize_takesForm`: the type of an expression has the form of the expression.
-/

namespace ApiDocs

open TypeScript (KeywordType)

/-- The flags of a type that is a word. -/
def keywordFlags? (w : String) : Option TypeFlags :=
  if w = "true" ∨ w = "false" then some TypeFlags.booleanLiteralBit
  else (KeywordType.ofWord? w).map (·.flags)

theorem keywordFlags?_word (k : KeywordType) : keywordFlags? k.word = some k.flags := by
  cases k <;> decide

theorem keywordFlags?_booleanText (v : Bool) :
    keywordFlags? (Linking.booleanText v) = some TypeFlags.booleanLiteralBit := by
  cases v <;> decide

theorem Table.get?_insert_cases {κ α : Type} [DecidableEq κ] {t : Table κ α} {k k' : κ} {v w : α}
    (h : (t.insert k v).get? k' = some w) : (k' = k ∧ w = v) ∨ t.get? k' = some w := by
  by_cases hk : k' = k
  · subst hk
    rw [get?_insert_self] at h
    exact .inl ⟨rfl, (Option.some.inj h).symm⟩
  · rw [get?_insert_of_ne hk] at h
    exact .inr h

namespace Linking

variable {l l' : Linking} {s : SymbolId} {t : TypeId} {ts : List TypeId}

/-! ## Orderly linking -/

/-- The type `number`. -/
def numberNode : TypeNode := { flags := TypeFlags.numberBit, display := "number" }

/-- Types that are kept in tables have their forms. -/
structure Orderly (l : Linking) : Prop where
  sound : l.Sound
  intrinsics : ∀ {w t}, l.builder.intrinsics.get? w = some t →
    ∃ flags, keywordFlags? w = some flags ∧ l.builder.HasForm (.keyword flags w) t
  instances : ∀ {s t}, l.instances.get? s = some t →
    s.Within l.extent ∧ l.builder.HasForm (.instanceOf l.builder s) t
  parameterTypes : ∀ {s t}, l.parameterTypes.get? s = some t →
    s.Within l.extent ∧ l.builder.HasForm (.parameter l.builder s) t
  /-- The type of an enum or of a member has the symbol of it, unless it is just a number. -/
  enumTypes : ∀ {s t}, l.enumTypes.get? s = some t → ∃ x, l.builder.typeCore? t = some x ∧
    (x.symbol = some s ∨ x = numberNode)
  aliasTypes : ∀ {s t}, l.aliasTypes.get? s = some t → ∀ L, l.Keeps L → L.AliasesNest →
    ∀ name, L.builder.HasForm (L.aliasForm maxExpansion s name) t

/-- Linking keeps what there is and stays orderly. -/
def making : Growth Linking where
  Good := Orderly
  Le l l' := growth.Le l l' ∧ l.Keeps l'
  refl l := ⟨growth.refl l, .refl l⟩
  trans h h' := ⟨growth.trans h.1 h'.1, h.2.trans h'.2⟩

/-- What orderly linking came to, if what was put into tables has its form. -/
theorem Orderly.grow (hl : l.Orderly) (hsound : l'.Sound) (hle : making.Le l l')
    (hintrinsics : ∀ {w t}, l'.builder.intrinsics.get? w = some t →
      l.builder.intrinsics.get? w = some t ∨
        ∃ flags, keywordFlags? w = some flags ∧ l'.builder.HasForm (.keyword flags w) t)
    (hinstances : ∀ {s t}, l'.instances.get? s = some t → l.instances.get? s = some t ∨
      s.Within l'.extent ∧ l'.builder.HasForm (.instanceOf l'.builder s) t)
    (hparameters : ∀ {s t}, l'.parameterTypes.get? s = some t → l.parameterTypes.get? s = some t ∨
      s.Within l'.extent ∧ l'.builder.HasForm (.parameter l'.builder s) t)
    (haliases : ∀ {s t}, l'.aliasTypes.get? s = some t → l.aliasTypes.get? s = some t ∨
      ∀ L, l'.Keeps L → L.AliasesNest → ∀ name, L.builder.HasForm (L.aliasForm maxExpansion s name) t) :
    l'.Orderly where
  sound := hsound
  intrinsics h := by
    rcases hintrinsics h with h | h
    · obtain ⟨flags, hflags, hform⟩ := hl.intrinsics h
      exact ⟨flags, hflags, hle.2.builder.hasForm hform⟩
    · exact h
  instances h := by
    rcases hinstances h with h | h
    · obtain ⟨hin, hform⟩ := hl.instances h
      refine ⟨hin.mono hle.1.1, ?_⟩
      rw [TypeForm.instanceOf, hle.2.builder.nameOf_eq hin, hle.2.builder.flagsOf_eq hin]
      exact hle.2.builder.hasForm hform
    · exact h
  parameterTypes h := by
    rcases hparameters h with h | h
    · obtain ⟨hin, hform⟩ := hl.parameterTypes h
      refine ⟨hin.mono hle.1.1, ?_⟩
      rw [TypeForm.parameter, hle.2.builder.nameOf_eq hin]
      exact hle.2.builder.hasForm hform
    · exact h
  enumTypes h := by
    rw [hle.2.enumTypes] at h
    obtain ⟨x, hx, hsymbol⟩ := hl.enumTypes h
    exact ⟨x, hle.2.builder.type hx, hsymbol⟩
  aliasTypes h L hL := by
    rcases haliases h with h | h
    · exact hl.aliasTypes h L (hle.2.trans hL)
    · exact h L hL

/-- A step on the graph alone that leaves the table of keywords. -/
theorem build_making {α : Type} {f : GraphBuilder → α × GraphBuilder} {P : α → Linking → Prop}
    (hl : l.Orderly) (h : growth.Runs (build f) l P) (hkeeps : l.builder.Keeps (f l.builder).2)
    (hintrinsics : (f l.builder).2.intrinsics = l.builder.intrinsics) :
    making.Runs (build f) l P := by
  have hle : making.Le l (build f l).2 := ⟨h.le, .of_builder hkeeps⟩
  refine ⟨hl.grow h.good hle ?_ .inl .inl .inl, hle, h.post⟩
  intro w t hw
  rw [show (build f l).2.builder.intrinsics = l.builder.intrinsics from hintrinsics] at hw
  exact .inl hw

/-- A step that only changes tables. -/
theorem store_making {f : Linking → Linking} (h : growth.Runs (modify f) l Anything)
    (hkeeps : l.Keeps (f l)) (hgood : making.Le l (f l) → (f l).Orderly) :
    making.Runs (modify f) l Anything :=
  ⟨hgood ⟨h.le, hkeeps⟩, ⟨h.le, hkeeps⟩, trivial⟩

/-! ## Names -/

theorem symbolCore?_addSymbol (b : GraphBuilder) (name : String) (flags : SymbolFlags) :
    b.symbolCore? (b.addSymbol name flags).1 = none := by
  simp [GraphBuilder.symbolCore?, SymbolGraph.symbol?, GraphBuilder.addSymbol]

/-- A name that is not known becomes one of the library. -/
theorem declareGlobal_making (hl : l.Orderly) {name : String} (hnone : l.globals.get? name = none) :
    making.Runs (declareGlobal name) l fun s l' => l'.globals.get? name = some s := by
  have hsound := declareGlobal_runs hl.sound name
  have hkeeps : l.Keeps (declareGlobal name l).2 := by
    refine ⟨(GraphBuilder.Keeps.addSymbol name).trans (.modifySymbol fun _ => rfl), rfl, rfl, rfl, ?_, ?_⟩
    · intro name' s hs
      have hne : name' ≠ name := by
        rintro rfl
        rw [hnone] at hs
        cases hs
      exact (Table.get?_insert_of_ne hne).trans hs
    · intro name' s hnone' hs
      rcases Table.get?_insert_cases hs with ⟨-, rfl⟩ | hs
      · exact symbolCore?_addSymbol _ name SymbolFlags.interfaceBit
      · rw [hnone'] at hs
        cases hs
  exact ⟨hl.grow hsound.good ⟨hsound.le, hkeeps⟩ .inl .inl .inl .inl, ⟨hsound.le, hkeeps⟩,
    Table.get?_insert_self⟩

/-- The symbol of a name lasts. -/
theorem resolveType_making (hl : l.Orderly) (ref : NameRef) :
    making.Runs (resolveType ref) l fun found l' =>
      (∀ s ∈ found, s.Within l'.extent) ∧ ∀ L, l'.Keeps L → L.lookup? ref = found := by
  have hthere := resolveType_runs hl.sound ref
  suffices h : making.Runs (resolveType ref) l fun found l' => ∀ L, l'.Keeps L → L.lookup? ref = found from
    ⟨h.good, h.le, hthere.post, h.post⟩
  unfold resolveType
  refine Growth.runs_get ?_
  split
  next symbol hlookup =>
    exact Growth.runs_pure hl fun L hL => hL.lookup?_eq_some hl.sound hlookup
  next name hnone =>
    refine (declareGlobal_making hl hnone).bind fun symbol l' hl' _ hs => ?_
    exact Growth.runs_pure hl' fun L hL => hL.globals hs
  next hglobal hnone =>
    exact Growth.runs_pure hl fun L hL => hL.lookup?_eq_none hl.sound hnone hglobal

/-! ## Types that last -/

/-- The type is there, and in every later state with `C` it has the form. -/
structure TakesForm (C : Linking → Prop) (F : Linking → TypeForm) (t : TypeId) (l : Linking) : Prop where
  within : t.Within l.extent
  form : ∀ L, l.Keeps L → C L → L.builder.HasForm (F L) t

/-- The types are there, and in every later state with `C` they have the forms. -/
structure TakeForms (C : Linking → Prop) (Fs : Linking → List TypeForm) (ts : List TypeId)
    (l : Linking) : Prop where
  within : ∀ t ∈ ts, t.Within l.extent
  forms : ∀ L, l.Keeps L → C L → L.builder.HaveForms (Fs L) ts

variable {C C' : Linking → Prop} {F F' : Linking → TypeForm} {Fs : Linking → List TypeForm}

theorem TakesForm.mono (h : TakesForm C F t l) (hle : making.Le l l') : TakesForm C F t l' :=
  ⟨h.within.mono hle.1.1, fun L hL => h.form L (hle.2.trans hL)⟩

/-- The form may be given in another way, under another condition, as long as it is the same in every
later state. -/
theorem runs_congr {x : LinkM TypeId} (h : making.Runs x l (TakesForm C F))
    (hF : ∀ L, l.Keeps L → C' L → C L ∧ F' L = F L) : making.Runs x l (TakesForm C' F') := by
  refine ⟨h.good, h.le, h.post.within, fun L hL hC => ?_⟩
  obtain ⟨hC', hform⟩ := hF L (h.le.2.trans hL) hC
  rw [hform]
  exact h.post.form L hL hC'

/-- A new type has its node. -/
theorem addType_making {n : GraphBuilder → TypeNode} (hl : l.Orderly)
    (h : growth.Runs (build fun b => b.addType (n b)) l TypeThere) :
    making.Runs (build fun b => b.addType (n b)) l fun t l' =>
      t.Within l'.extent ∧ l'.builder.typeCore? t = some (n l.builder).core := by
  have hmade := build_making hl h (.addType _) rfl
  refine ⟨hmade.good, hmade.le, hmade.post, ?_⟩
  simp [build, GraphBuilder.typeCore?, SymbolGraph.type?, GraphBuilder.addType]

/-- A new type has the form that is made of its node. -/
theorem addType_takesForm {n : GraphBuilder → TypeNode} {facts : Linking → TypeNode}
    {As Ms : Linking → List TypeForm} (hl : l.Orderly)
    (h : growth.Runs (build fun b => b.addType (n b)) l TypeThere)
    (hform : ∀ L, l.Keeps L → C L → (n l.builder).facts = facts L ∧
      L.builder.HaveForms (As L) (n l.builder).typeArguments ∧
      L.builder.HaveForms (Ms L) (n l.builder).constituents) :
    making.Runs (build fun b => b.addType (n b)) l
      (TakesForm C fun L => .made (facts L) (As L) (Ms L)) := by
  have hmade := addType_making hl h
  refine ⟨hmade.good, hmade.le, hmade.post.1, fun L hL hC => ?_⟩
  obtain ⟨hfacts, harguments, hmembers⟩ := hform L (hmade.le.2.trans hL) hC
  rw [GraphBuilder.HasForm]
  exact ⟨_, hL.builder.type hmade.post.2, hfacts, harguments, hmembers⟩

/-- A new type that no other types are made into. -/
theorem addPlain_takesForm {n : GraphBuilder → TypeNode} {node : Linking → TypeNode} (hl : l.Orderly)
    (h : growth.Runs (build fun b => b.addType (n b)) l TypeThere)
    (hplain : (n l.builder).typeArguments = [] ∧ (n l.builder).constituents = [])
    (hnode : ∀ L, l.Keeps L → (n l.builder).facts = node L) :
    making.Runs (build fun b => b.addType (n b)) l (TakesForm C fun L => .plain (node L)) := by
  refine addType_takesForm hl h fun L hL _ => ⟨hnode L hL, ?_, ?_⟩
  · rw [hplain.1, GraphBuilder.HaveForms]
  · rw [hplain.2, GraphBuilder.HaveForms]

/-! ## Types of expressions -/

theorem intrinsic_takesForm (hl : l.Orderly) {flags : TypeFlags} {w : String}
    (hw : keywordFlags? w = some flags) :
    making.Runs (build (·.intrinsic flags w)) l (TakesForm C fun _ => .keyword flags w) := by
  have hsound := build_runs hl.sound (GraphBuilder.intrinsic_runs hl.sound.builder flags w)
  have hle : making.Le l (build (·.intrinsic flags w) l).2 :=
    ⟨hsound.le, .of_builder (.intrinsic flags w)⟩
  -- The type is that of the table, or it is new and put there.
  have hform : (build (·.intrinsic flags w) l).2.builder.HasForm (.keyword flags w)
      (build (·.intrinsic flags w) l).1 := by
    simp only [build, GraphBuilder.intrinsic]
    cases hget : l.builder.intrinsics.get? w with
    | some t =>
      obtain ⟨flags', hflags', hform⟩ := hl.intrinsics hget
      obtain rfl := Option.some.inj (hw.symm.trans hflags')
      exact hform
    | none =>
      simp only [TypeForm.keyword, TypeForm.plain, GraphBuilder.HasForm, GraphBuilder.HaveForms]
      exact ⟨{ flags, display := w }, by
        simp [GraphBuilder.typeCore?, SymbolGraph.type?, GraphBuilder.addType, TypeNode.core], rfl, rfl, rfl⟩
  refine ⟨hl.grow hsound.good hle ?_ .inl .inl .inl, hle, hsound.post, fun L hL _ => hL.builder.hasForm hform⟩
  intro w' t hget
  cases hw' : l.builder.intrinsics.get? w with
  | some t' =>
    simp only [build, GraphBuilder.intrinsic, hw'] at hget
    exact .inl hget
  | none =>
    have hinsert : (build (·.intrinsic flags w) l).2.builder.intrinsics =
        l.builder.intrinsics.insert w (build (·.intrinsic flags w) l).1 := by
      simp [build, GraphBuilder.intrinsic, hw', GraphBuilder.addType]
    rw [hinsert] at hget
    rcases Table.get?_insert_cases hget with ⟨rfl, rfl⟩ | hget
    · exact .inr ⟨flags, hw, hform⟩
    · exact .inl hget

theorem literal_takesForm (hl : l.Orderly) (value : Literal) :
    making.Runs (build (·.literal value)) l (TakesForm C fun _ => .literal value) :=
  addPlain_takesForm hl (build_runs hl.sound (GraphBuilder.literal_runs hl.sound.builder value))
    ⟨rfl, rfl⟩ fun _ _ => rfl

theorem anonymous_takesForm (hl : l.Orderly) (display : String) :
    making.Runs (build (·.anonymous display)) l (TakesForm C fun _ => .anonymous display) :=
  addPlain_takesForm hl (build_runs hl.sound (GraphBuilder.anonymous_runs hl.sound.builder display))
    ⟨rfl, rfl⟩ fun _ _ => rfl

theorem thisType_takesForm (hl : l.Orderly) (hs : s.Within l.extent) :
    making.Runs (build (·.thisType s)) l (TakesForm C fun _ => .this s) :=
  addPlain_takesForm hl (build_runs hl.sound (GraphBuilder.thisType_runs hl.sound.builder hs))
    ⟨rfl, rfl⟩ fun _ _ => rfl

theorem arrayOf_takesForm (hl : l.Orderly) (ht : TakesForm C F t l) :
    making.Runs (build (·.arrayOf t)) l (TakesForm C fun L => .array L.builder (F L)) := by
  refine addType_takesForm hl (build_runs hl.sound (GraphBuilder.arrayOf_runs hl.sound.builder ht.within))
    fun L hL hC => ?_
  have hform := ht.form L hL hC
  refine ⟨?_, GraphBuilder.haveForms_cons.mpr ⟨hform, by rw [GraphBuilder.HaveForms]⟩, by
    rw [GraphBuilder.HaveForms]; rfl⟩
  rw [← hform.nestedDisplay_eq, hL.builder.nestedDisplay_eq ht.within]
  rfl

/-- Displays of types that last. -/
theorem TakeForms.map_displayOf (h : TakeForms C Fs ts l) {L : Linking} (hL : l.Keeps L) (hC : C L) :
    ts.map l.builder.displayOf = (Fs L).map (TypeForm.display L.builder) := by
  rw [← (h.forms L hL hC).map_eq GraphBuilder.HasForm.displayOf_eq]
  exact List.map_congr_left fun t ht => (hL.builder.displayOf_eq (h.within t ht)).symm

theorem TakeForms.map_nestedDisplay (h : TakeForms C Fs ts l) {L : Linking} (hL : l.Keeps L) (hC : C L) :
    ts.map l.builder.nestedDisplay = (Fs L).map (TypeForm.nestedDisplay L.builder) := by
  rw [← (h.forms L hL hC).map_eq GraphBuilder.HasForm.nestedDisplay_eq]
  exact List.map_congr_left fun t ht => (hL.builder.nestedDisplay_eq (h.within t ht)).symm

theorem union_takesForm (hl : l.Orderly) (hts : TakeForms C Fs ts l) :
    making.Runs (build (·.union ts)) l (TakesForm C fun L => .union L.builder (Fs L)) := by
  refine addType_takesForm hl (build_runs hl.sound (GraphBuilder.union_runs hl.sound.builder hts.within))
    fun L hL hC => ⟨?_, by rw [GraphBuilder.HaveForms], hts.forms L hL hC⟩
  rw [← hts.map_nestedDisplay hL hC]
  rfl

theorem intersection_takesForm (hl : l.Orderly) (hts : TakeForms C Fs ts l) :
    making.Runs (build (·.intersection ts)) l (TakesForm C fun L => .intersection L.builder (Fs L)) := by
  refine addType_takesForm hl
    (build_runs hl.sound (GraphBuilder.intersection_runs hl.sound.builder hts.within))
    fun L hL hC => ⟨?_, by rw [GraphBuilder.HaveForms], hts.forms L hL hC⟩
  rw [← hts.map_nestedDisplay hL hC]
  rfl

theorem tuple_takesForm (hl : l.Orderly) (hts : TakeForms C Fs ts l) :
    making.Runs (build (·.tuple ts)) l (TakesForm C fun L => .tuple L.builder (Fs L)) := by
  refine addType_takesForm hl (build_runs hl.sound (GraphBuilder.tuple_runs hl.sound.builder hts.within))
    fun L hL hC => ⟨?_, hts.forms L hL hC, by rw [GraphBuilder.HaveForms]; rfl⟩
  rw [TypeForm.listDisplay, ← hts.map_displayOf hL hC]
  rfl

/-- The instances of a class or interface have one type. -/
theorem instanceType_takesForm (hl : l.Orderly) (hs : s.Within l.extent) :
    making.Runs (instanceType s) l (TakesForm C fun L => .instanceOf L.builder s) := by
  have hname : ∀ {l : Linking}, s.Within l.extent → ∀ L, l.Keeps L →
      TypeForm.instanceOf L.builder s = TypeForm.instanceOf l.builder s := by
    intro l hs L hL
    rw [TypeForm.instanceOf, hL.builder.nameOf_eq hs, hL.builder.flagsOf_eq hs, TypeForm.instanceOf]
  unfold instanceType
  refine Growth.runs_get ?_
  split
  next t hget =>
    obtain ⟨-, hform⟩ := hl.instances hget
    refine Growth.runs_pure hl ⟨hl.sound.tables.instances t (Table.mem_values_of_get? hget), ?_⟩
    intro L hL _
    rw [hname hs L hL]
    exact hL.builder.hasForm hform
  next =>
    have hmade : making.Runs (build (·.reference s [])) l
        (TakesForm (fun _ => True) fun L => .instanceOf L.builder s) := by
      refine addPlain_takesForm hl
        (build_runs hl.sound (GraphBuilder.reference_runs hl.sound.builder hs (List.forall_mem_nil _)))
        ⟨rfl, rfl⟩ fun L hL => ?_
      rw [hL.builder.nameOf_eq hs, hL.builder.flagsOf_eq hs]
      rfl
    refine hmade.bind fun t l₁ hl₁ hle₁ ht => ?_
    have hs₁ := hs.mono hle₁.1.1
    have hform := ht.form l₁ (.refl l₁) trivial
    have hinstances := Table.forall_values_insert (k := s) hl₁.sound.tables.instances ht.within
    have hstored := store_runs (f := fun l => { l with instances := l.instances.insert s t }) hl₁.sound rfl
      { hl₁.sound.tables with instances := hinstances }
    refine (store_making hstored { Keeps.refl l₁ with } fun hle => ?_).handBack
      (fun _ _ hle h => h.mono hle) ⟨ht.within, fun L hL _ => ht.form L hL trivial⟩
    refine hl₁.grow hstored.good hle .inl (fun hget => ?_) .inl .inl
    rcases Table.get?_insert_cases hget with ⟨rfl, rfl⟩ | hget
    · exact .inr ⟨hs₁, hform⟩
    · exact .inl hget

/-- A type parameter has one type. -/
theorem parameterType_takesForm (hl : l.Orderly) (hs : s.Within l.extent) :
    making.Runs (parameterType s) l (TakesForm C fun L => .parameter L.builder s) := by
  unfold parameterType
  refine Growth.runs_get ?_
  split
  next t hget =>
    obtain ⟨-, hform⟩ := hl.parameterTypes hget
    refine Growth.runs_pure hl ⟨hl.sound.tables.parameterTypes t (Table.mem_values_of_get? hget), ?_⟩
    intro L hL _
    rw [TypeForm.parameter, hL.builder.nameOf_eq hs]
    exact hL.builder.hasForm hform
  next =>
    have hmade : making.Runs (build (·.typeParameter s)) l
        (TakesForm (fun _ => True) fun L => .parameter L.builder s) := by
      refine addPlain_takesForm hl
        (build_runs hl.sound (GraphBuilder.typeParameter_runs hl.sound.builder hs)) ⟨rfl, rfl⟩
        fun L hL => ?_
      rw [hL.builder.nameOf_eq hs]
      rfl
    refine hmade.bind fun t l₁ hl₁ hle₁ ht => ?_
    have hs₁ := hs.mono hle₁.1.1
    have hform := ht.form l₁ (.refl l₁) trivial
    have htypes := Table.forall_values_insert (k := s) hl₁.sound.tables.parameterTypes ht.within
    have hstored := store_runs (f := fun l => { l with parameterTypes := l.parameterTypes.insert s t })
      hl₁.sound rfl { hl₁.sound.tables with parameterTypes := htypes }
    refine (store_making hstored { Keeps.refl l₁ with } fun hle => ?_).handBack
      (fun _ _ hle h => h.mono hle) ⟨ht.within, fun L hL _ => ht.form L hL trivial⟩
    refine hl₁.grow hstored.good hle .inl .inl (fun hget => ?_) .inl
    rcases Table.get?_insert_cases hget with ⟨rfl, rfl⟩ | hget
    · exact .inr ⟨hs₁, hform⟩
    · exact .inl hget

theorem reference_takesForm (hl : l.Orderly) (hs : s.Within l.extent) (hne : ts ≠ [])
    (hts : TakeForms C Fs ts l) :
    making.Runs (build (·.reference s ts)) l (TakesForm C fun L => .instantiation L.builder s (Fs L)) := by
  obtain ⟨t, rest, rfl⟩ := List.exists_cons_of_ne_nil hne
  refine addType_takesForm hl
    (build_runs hl.sound (GraphBuilder.reference_runs hl.sound.builder hs hts.within))
    fun L hL hC => ⟨?_, hts.forms L hL hC, by rw [GraphBuilder.HaveForms]; rfl⟩
  rw [TypeForm.listDisplay, ← hts.map_displayOf hL hC, hL.builder.nameOf_eq hs]
  rfl

theorem instantiate_takesForm (hl : l.Orderly) (hs : s.Within l.extent) (hts : TakeForms C Fs ts l) :
    making.Runs (instantiate s ts) l (TakesForm C fun L => .instantiate L.builder s (Fs L)) := by
  -- In every state in question there are as many forms as types.
  have hlength : ∀ L, l.Keeps L → C L → (Fs L).length = ts.length := by
    intro L hL hC
    simpa using (congrArg List.length (hts.map_displayOf hL hC)).symm
  match ts, hts, hlength with
  | [], hts, hlength =>
    refine runs_congr (C := C) (instanceType_takesForm hl hs) fun L hL hC => ⟨hC, ?_⟩
    rw [List.length_eq_zero_iff.mp (hlength L hL hC), TypeForm.instantiate]
  | [t], hts, hlength =>
    by_cases harray : s = GraphBuilder.arraySymbol
    · have ht : TakesForm C (fun L => (Fs L).headD (.given t)) t l := by
        refine ⟨hts.within t (by simp), fun L hL hC => ?_⟩
        have hforms := hts.forms L hL hC
        obtain ⟨f, hf⟩ := List.length_eq_one_iff.mp (hlength L hL hC)
        rw [hf] at hforms ⊢
        exact (GraphBuilder.haveForms_cons.mp hforms).1
      have hmade : making.Runs (build (·.arrayOf t)) l
          (TakesForm C fun L => .instantiate L.builder s (Fs L)) :=
        runs_congr (C := C) (arrayOf_takesForm hl ht) fun L hL hC => ⟨hC, by
          obtain ⟨f, hf⟩ := List.length_eq_one_iff.mp (hlength L hL hC)
          rw [hf, TypeForm.instantiate, if_pos harray]
          rfl⟩
      rw [instantiate, if_pos harray]
      exact hmade
    · have hmade : making.Runs (build (·.reference s [t])) l
          (TakesForm C fun L => .instantiate L.builder s (Fs L)) :=
        runs_congr (C := C) (reference_takesForm hl hs (by simp) hts) fun L hL hC => ⟨hC, by
          obtain ⟨f, hf⟩ := List.length_eq_one_iff.mp (hlength L hL hC)
          rw [hf, TypeForm.instantiate, if_neg harray]⟩
      rw [instantiate, if_neg harray]
      exact hmade
  | t :: u :: rest, hts, hlength =>
    refine runs_congr (C := C) (reference_takesForm hl hs (by simp) hts) fun L hL hC => ⟨hC, ?_⟩
    match hfs : Fs L, hlength L hL hC with
    | [], h => simp at h
    | [_], h => simp at h
    | _ :: _ :: _, _ => rfl

/-- The symbol that a name stands for, once it was looked up. -/
theorem target?_eq (hl : l.Sound) {found : Option SymbolId} {ref : NameRef}
    (hfound : ∀ s ∈ found, s.Within l.extent) {L : Linking} (hL : l.Keeps L)
    (hlookup : L.lookup? ref = found) :
    L.target? ref = found.map (followAlias l.builder) := by
  rw [target?, hlookup]
  cases found with
  | none => rw [Option.map_none, Option.map_none]
  | some s => rw [Option.map_some, Option.map_some, hL.followAlias_eq hl (hfound s rfl)]

/-! ## What names stand for -/

/-- **What a name stands for from now on**: a symbol, and what that is. -/
structure Refers (l : Linking) (ref : NameRef) (s : SymbolId) (m : TypeMeaning) : Prop where
  within : s.Within l.extent
  now : l.meaningOf s = m
  target : ∀ L, l.Keeps L → L.target? ref = some s
  meaning : ∀ L, l.Keeps L → L.meaningOf s = m

section Refers

variable {expand : Expansion} {name : String} {ref : NameRef} {arguments : List TypeExpr} {s : SymbolId}
  {L : Linking} {Q : SymbolId → Prop}

theorem Refers.uses_instantiable (h : l.Refers ref s .instantiable) (hL : l.Keeps L) :
    L.Uses Q (.reference name ref arguments) ↔ L.AllUse Q arguments := by
  simp only [Uses, h.target L hL, h.meaning L hL]

theorem Refers.uses_expandable (h : l.Refers ref s .expandable) (hL : l.Keeps L) :
    L.Uses Q (.reference name ref arguments) ↔ Q s := by
  simp only [Uses, h.target L hL, h.meaning L hL]

/-- How a type is made of what a name stands for. -/
def makeAs (expand : Expansion) (name : String) (arguments : List TypeExpr) (s : SymbolId) : TypeMeaning → LinkM TypeId
  | .known t => return t
  | .instantiable => do
    let arguments ← materializeAll expand arguments
    instantiate s arguments
  | .parameter => parameterType s
  | .expandable => expand s name
  | .value => build (·.anonymous name)

/-- **A type is made of what the name stands for**, which is settled by then. -/
theorem reference_runs {G : Growth Linking} {P : TypeId → Linking → Prop} (hgood : ∀ {l}, G.Good l → l.Orderly)
    (hresolve : G.Runs (resolveType ref) l fun found l' =>
      (∀ s ∈ found, s.Within l'.extent) ∧ ∀ L, l'.Keeps L → L.lookup? ref = found)
    (hunknown : ∀ l', G.Good l' → G.Le l l' → (∀ L, l'.Keeps L → L.target? ref = none) →
      G.Runs (build (·.anonymous name)) l' P)
    (hrefers : ∀ l' s m, G.Good l' → G.Le l l' → l'.Refers ref s m →
      G.Runs (makeAs expand name arguments s m) l' P) :
    G.Runs (materializeWith expand (.reference name ref arguments)) l P := by
  rw [materializeWith]
  refine hresolve.bind fun found l₁ hl₁ hle₁ ⟨hfound, hlookup⟩ => ?_
  have hsound := (hgood hl₁).sound
  have htarget : ∀ L, l₁.Keeps L → L.target? ref = found.map (followAlias l₁.builder) :=
    fun L hL => target?_eq hsound hfound hL (hlookup L hL)
  cases found with
  | none => exact hunknown l₁ hl₁ hle₁ htarget
  | some symbol =>
    have hs := followAlias_within hsound.builder (hfound symbol rfl)
    -- What the symbol is now it is later, too.
    have hmeans : l₁.Refers ref (followAlias l₁.builder symbol) (l₁.meaningOf (followAlias l₁.builder symbol)) :=
      ⟨hs, rfl, htarget, fun L hL => hL.meaningOf_eq hs⟩
    have hmade := hrefers l₁ _ _ hl₁ hle₁ hmeans
    refine Growth.runs_get (Growth.runs_get ?_)
    revert hmade
    cases l₁.meaningOf (followAlias l₁.builder symbol) <;> exact id

end Refers

/-! ## Types of expressions, given those of type aliases -/

/-- Linking stays orderly, and `F` lasts. -/
def relying (F : Linking → Prop) : Growth Linking where
  Good l := l.Orderly ∧ F l
  Le := making.Le
  refl := making.refl
  trans := making.trans

/-- Only storing the type of a type alias can upset `F`. -/
def Overlooks (F : Linking → Prop) : Prop :=
  ∀ l l', making.Le l l' → l'.aliasTypes = l.aliasTypes → F l → F l'

section Relying

variable {F : Linking → Prop} {Q G : Linking → SymbolId → Prop}

/-- A step that stores no type of a type alias. -/
theorem runs_aside {α : Type} {x : LinkM α} {P : α → Linking → Prop} (hF : Overlooks F) (hl : F l)
    (h : making.Runs x l P) (haside : aside.Runs x l Anything) : (relying F).Runs x l P :=
  ⟨⟨h.good, hF l _ h.le haside.le.aliasTypes hl⟩, h.le, h.post⟩

theorem relying_congr {x : LinkM TypeId} {F' F'' : Linking → TypeForm}
    (h : (relying F).Runs x l (TakesForm C F'))
    (hF : ∀ L, l.Keeps L → C' L → C L ∧ F'' L = F' L) : (relying F).Runs x l (TakesForm C' F'') :=
  have hpost := runs_congr (x := x) (l := l) ⟨h.good.1, h.le, h.post⟩ hF
  ⟨h.good, h.le, hpost.post⟩

/-- Type aliases for which there is room become types, those that are granted of their forms. -/
def Expanding (F : Linking → Prop) (Q G : Linking → SymbolId → Prop) (expand : Expansion) : Prop :=
  ∀ (s : SymbolId) (name : String) (l : Linking), (relying F).Good l → (∀ L, l.Keeps L → Q L s) →
    (relying F).Runs (expand s name) l (TakesForm (G · s) fun L => L.aliasForm maxExpansion s name)

variable {expand : Expansion} {e : TypeExpr} {es : List TypeExpr}

/-! ### One kind of expression after the other -/

theorem keyword_forms (hF : Overlooks F) (hl : (relying F).Good l) (k : KeywordType) :
    (relying F).Runs (materializeWith expand (.keyword k)) l
      (TakesForm (fun L => L.Uses (G L) (.keyword k)) (·.formOf (.keyword k))) := by
  rw [materializeWith]
  refine relying_congr (runs_aside hF hl.2 (intrinsic_takesForm hl.1 (keywordFlags?_word k))
    (intrinsic_aside _ _)) fun L _ hC => ⟨hC, ?_⟩
  rw [formOf, formWith]

theorem text_forms (hF : Overlooks F) (hl : (relying F).Good l) (v : String) :
    (relying F).Runs (materializeWith expand (.text v)) l
      (TakesForm (fun L => L.Uses (G L) (.text v)) (·.formOf (.text v))) := by
  rw [materializeWith]
  refine relying_congr (runs_aside hF hl.2 (literal_takesForm hl.1 (.text v)) addType_aside)
    fun L _ hC => ⟨hC, ?_⟩
  rw [formOf, formWith]

theorem number_forms (hF : Overlooks F) (hl : (relying F).Good l) (v : Binary64) :
    (relying F).Runs (materializeWith expand (.number v)) l
      (TakesForm (fun L => L.Uses (G L) (.number v)) (·.formOf (.number v))) := by
  rw [materializeWith]
  refine relying_congr (runs_aside hF hl.2 (literal_takesForm hl.1 (.number v)) addType_aside)
    fun L _ hC => ⟨hC, ?_⟩
  rw [formOf, formWith]

theorem boolean_forms (hF : Overlooks F) (hl : (relying F).Good l) (v : Bool) :
    (relying F).Runs (materializeWith expand (.boolean v)) l
      (TakesForm (fun L => L.Uses (G L) (.boolean v)) (·.formOf (.boolean v))) := by
  rw [materializeWith]
  refine relying_congr (runs_aside hF hl.2 (intrinsic_takesForm hl.1 (keywordFlags?_booleanText v))
    (intrinsic_aside _ _)) fun L _ hC => ⟨hC, ?_⟩
  rw [formOf, formWith]

/-- A name becomes a type of the form of what it stands for, given that its arguments do. -/
theorem reference_forms (hF : Overlooks F) (hexpand : Expanding F Q G expand) (hl : (relying F).Good l)
    {name : String} {ref : NameRef} {arguments : List TypeExpr}
    (hroom : ∀ L, l.Keeps L → L.Uses (Q L) (.reference name ref arguments))
    (harguments : ∀ l', (relying F).Good l' → making.Le l l' → (∀ L, l'.Keeps L → L.AllUse (Q L) arguments) →
      (relying F).Runs (materializeAll expand arguments) l'
        (TakeForms (fun L => L.AllUse (G L) arguments) (·.formsOf arguments))) :
    (relying F).Runs (materializeWith expand (.reference name ref arguments)) l
      (TakesForm (fun L => L.Uses (G L) (.reference name ref arguments))
        (·.formOf (.reference name ref arguments))) := by
  refine reference_runs And.left (runs_aside hF hl.2 (resolveType_making hl.1 ref) (resolveType_aside ref))
    (fun l₁ hl₁ _ hnone => ?_) fun l₁ s m hl₁ hle₁ hrefers => ?_
  · refine relying_congr (runs_aside hF hl₁.2 (anonymous_takesForm hl₁.1 name) addType_aside)
      fun L hL hC => ⟨hC, ?_⟩
    simp only [formOf, formWith, hnone L hL]
  have hroom₁ : ∀ L, l₁.Keeps L → L.Uses (Q L) (.reference name ref arguments) :=
    fun L hL => hroom L (hle₁.2.trans hL)
  cases m with
  | known t =>
    refine Growth.runs_pure hl₁ ⟨meaningOf_known hl₁.1.sound hrefers.now, fun L hL _ => ?_⟩
    simp only [formOf, formWith, hrefers.target L hL, hrefers.meaning L hL, GraphBuilder.HasForm]
  | instantiable =>
    refine (harguments l₁ hl₁ hle₁ fun L hL => (hrefers.uses_instantiable hL).mp (hroom₁ L hL)).bind
      fun ts l₂ hl₂ hle₂ hts => ?_
    refine relying_congr (runs_aside hF hl₂.2 (instantiate_takesForm hl₂.1 (hrefers.within.mono hle₂.1.1) hts)
      (instantiate_aside _ ts)) fun L hL hC => ?_
    have hL₁ := hle₂.2.trans hL
    refine ⟨(hrefers.uses_instantiable hL₁).mp hC, ?_⟩
    simp only [formOf, formWith, hrefers.target L hL₁, hrefers.meaning L hL₁, formsOf]
  | parameter =>
    refine relying_congr (runs_aside hF hl₁.2 (parameterType_takesForm hl₁.1 hrefers.within)
      (parameterType_aside _)) fun L hL hC => ⟨hC, ?_⟩
    simp only [formOf, formWith, hrefers.target L hL, hrefers.meaning L hL]
  | expandable =>
    refine relying_congr (hexpand s name l₁ hl₁ fun L hL => (hrefers.uses_expandable hL).mp (hroom₁ L hL))
      fun L hL hC => ⟨(hrefers.uses_expandable hL).mp hC, ?_⟩
    simp only [formOf, formWith, hrefers.target L hL, hrefers.meaning L hL]
  | value =>
    rw [makeAs]
    refine relying_congr (runs_aside hF hl₁.2 (anonymous_takesForm hl₁.1 name) addType_aside)
      fun L hL hC => ⟨hC, ?_⟩
    simp only [formOf, formWith, hrefers.target L hL, hrefers.meaning L hL]

theorem instanceOf_forms (hF : Overlooks F) (hl : (relying F).Good l) (hs : s.Within l.extent) :
    (relying F).Runs (materializeWith expand (.instanceOf s)) l
      (TakesForm (fun L => L.Uses (G L) (.instanceOf s)) (·.formOf (.instanceOf s))) := by
  rw [materializeWith]
  refine relying_congr (runs_aside hF hl.2 (instanceType_takesForm hl.1 hs) (instanceType_aside _))
    fun L _ hC => ⟨hC, ?_⟩
  rw [formOf, formWith]

theorem array_forms (hF : Overlooks F)
    (helement : (relying F).Runs (materializeWith expand e) l (TakesForm (fun L => L.Uses (G L) e) (·.formOf e))) :
    (relying F).Runs (materializeWith expand (.array e)) l
      (TakesForm (fun L => L.Uses (G L) (.array e)) (·.formOf (.array e))) := by
  rw [materializeWith]
  refine helement.bind fun t l₁ hl₁ _ ht => ?_
  refine relying_congr (runs_aside hF hl₁.2 (arrayOf_takesForm hl₁.1 ht) addType_aside)
    fun L _ hC => ⟨by simpa only [Uses] using hC, ?_⟩
  rw [formOf, formWith, formOf]

theorem union_forms (hF : Overlooks F)
    (hmembers : (relying F).Runs (materializeAll expand es) l
      (TakeForms (fun L => L.AllUse (G L) es) (·.formsOf es))) :
    (relying F).Runs (materializeWith expand (.union es)) l
      (TakesForm (fun L => L.Uses (G L) (.union es)) (·.formOf (.union es))) := by
  rw [materializeWith]
  refine hmembers.bind fun ts l₁ hl₁ _ hts => ?_
  refine relying_congr (runs_aside hF hl₁.2 (union_takesForm hl₁.1 hts) addType_aside)
    fun L _ hC => ⟨by simpa only [Uses] using hC, ?_⟩
  rw [formOf, formWith, formsOf]

theorem intersection_forms (hF : Overlooks F)
    (hmembers : (relying F).Runs (materializeAll expand es) l
      (TakeForms (fun L => L.AllUse (G L) es) (·.formsOf es))) :
    (relying F).Runs (materializeWith expand (.intersection es)) l
      (TakesForm (fun L => L.Uses (G L) (.intersection es)) (·.formOf (.intersection es))) := by
  rw [materializeWith]
  refine hmembers.bind fun ts l₁ hl₁ _ hts => ?_
  refine relying_congr (runs_aside hF hl₁.2 (intersection_takesForm hl₁.1 hts) addType_aside)
    fun L _ hC => ⟨by simpa only [Uses] using hC, ?_⟩
  rw [formOf, formWith, formsOf]

theorem tuple_forms (hF : Overlooks F)
    (helements : (relying F).Runs (materializeAll expand es) l
      (TakeForms (fun L => L.AllUse (G L) es) (·.formsOf es))) :
    (relying F).Runs (materializeWith expand (.tuple es)) l
      (TakesForm (fun L => L.Uses (G L) (.tuple es)) (·.formOf (.tuple es))) := by
  rw [materializeWith]
  refine helements.bind fun ts l₁ hl₁ _ hts => ?_
  refine relying_congr (runs_aside hF hl₁.2 (tuple_takesForm hl₁.1 hts) addType_aside)
    fun L _ hC => ⟨by simpa only [Uses] using hC, ?_⟩
  rw [formOf, formWith, formsOf]

theorem this_forms (hF : Overlooks F) (hl : (relying F).Good l) {owner : Option SymbolId}
    (howner : (TypeExpr.this owner).Within l.extent) :
    (relying F).Runs (materializeWith expand (.this owner)) l
      (TakesForm (fun L => L.Uses (G L) (.this owner)) (·.formOf (.this owner))) := by
  cases owner with
  | some owner =>
    rw [materializeWith]
    refine relying_congr (runs_aside hF hl.2 (thisType_takesForm hl.1 (howner owner rfl)) addType_aside)
      fun L _ hC => ⟨hC, ?_⟩
    rw [formOf, formWith]
  | none =>
    rw [materializeWith]
    refine relying_congr (runs_aside hF hl.2 (intrinsic_takesForm hl.1 (keywordFlags?_word .any))
      (intrinsic_aside _ _)) fun L _ hC => ⟨hC, ?_⟩
    rw [formOf, formWith]

theorem verbatim_forms (hF : Overlooks F) (hl : (relying F).Good l) (written : String) :
    (relying F).Runs (materializeWith expand (.verbatim written)) l
      (TakesForm (fun L => L.Uses (G L) (.verbatim written)) (·.formOf (.verbatim written))) := by
  rw [materializeWith]
  refine relying_congr (runs_aside hF hl.2 (anonymous_takesForm hl.1 written) addType_aside)
    fun L _ hC => ⟨hC, ?_⟩
  rw [formOf, formWith]

mutual

/-- **The type of an expression has the form of the expression**, given that those of type aliases
have. -/
theorem materializeWith_forms (hF : Overlooks F) (hexpand : Expanding F Q G expand)
    {l : Linking} (hl : (relying F).Good l) : ∀ e : TypeExpr, e.Within l.extent →
      (∀ L, l.Keeps L → L.Uses (Q L) e) →
      (relying F).Runs (materializeWith expand e) l (TakesForm (fun L => L.Uses (G L) e) (·.formOf e))
  | .keyword k, _, _ => keyword_forms hF hl k
  | .text v, _, _ => text_forms hF hl v
  | .number v, _, _ => number_forms hF hl v
  | .boolean v, _, _ => boolean_forms hF hl v
  | .reference _ _ arguments, hin, hroom =>
    reference_forms hF hexpand hl hroom fun _ hl' hle =>
      materializeAll_forms hF hexpand hl' arguments (TypeExpr.AllWithin.mono hle.1.1 hin)
  | .instanceOf _, hin, _ => instanceOf_forms hF hl hin
  | .array element, hin, hroom =>
    array_forms hF (materializeWith_forms hF hexpand hl element hin fun L hL => by
      simpa only [Uses] using hroom L hL)
  | .union members, hin, hroom =>
    union_forms hF (materializeAll_forms hF hexpand hl members hin fun L hL => by
      simpa only [Uses] using hroom L hL)
  | .intersection members, hin, hroom =>
    intersection_forms hF (materializeAll_forms hF hexpand hl members hin fun L hL => by
      simpa only [Uses] using hroom L hL)
  | .tuple elements, hin, hroom =>
    tuple_forms hF (materializeAll_forms hF hexpand hl elements hin fun L hL => by
      simpa only [Uses] using hroom L hL)
  | .this _, hin, _ => this_forms hF hl hin
  | .verbatim written, _, _ => verbatim_forms hF hl written

theorem materializeAll_forms (hF : Overlooks F) (hexpand : Expanding F Q G expand)
    {l : Linking} (hl : (relying F).Good l) : ∀ es : List TypeExpr, TypeExpr.AllWithin l.extent es →
      (∀ L, l.Keeps L → L.AllUse (Q L) es) →
      (relying F).Runs (materializeAll expand es) l
        (TakeForms (fun L => L.AllUse (G L) es) (·.formsOf es))
  | [], _, _ => by
    rw [materializeAll]
    refine Growth.runs_pure hl ⟨by simp, fun L _ _ => ?_⟩
    rw [formsOf, formsWith, GraphBuilder.HaveForms]
  | e :: es, hin, hroom => by
    rw [materializeAll]
    have huses : ∀ L, l.Keeps L → L.Uses (Q L) e ∧ L.AllUse (Q L) es := fun L hL => by
      simpa only [AllUse] using hroom L hL
    refine (materializeWith_forms hF hexpand hl e hin.1 fun L hL => (huses L hL).1).bind
      fun t l₁ hl₁ hle₁ ht => ?_
    refine (materializeAll_forms hF hexpand hl₁ es (TypeExpr.AllWithin.mono hle₁.1.1 hin.2) fun L hL =>
      (huses L (hle₁.2.trans hL)).2).bind fun ts l₂ hl₂ hle₂ hts => ?_
    refine Growth.runs_pure hl₂ ⟨?_, fun L hL hC => ?_⟩
    · exact List.forall_mem_cons.mpr ⟨ht.within.mono hle₂.1.1, hts.within⟩
    · rw [AllUse] at hC
      rw [formsOf, formsWith, GraphBuilder.haveForms_cons]
      exact ⟨ht.form L (hle₂.2.trans hL) hC.1, hts.forms L hL hC.2⟩

end

end Relying

/-! ## Type aliases -/

section Memo

variable {H : Linking → Prop} {R : SymbolId → Prop}

/-- The types that are kept of type aliases in `R` have their forms, in every later state with `H`. -/
def Faithful (H : Linking → Prop) (R : SymbolId → Prop) (l : Linking) : Prop :=
  ∀ s t, l.aliasTypes.get? s = some t → R s → ∀ L, l.Keeps L → H L →
    ∀ name, L.builder.HasForm (L.aliasForm maxExpansion s name) t

/-- The form of the type alias does not hang on where expansion is cut off: all type aliases nest, or this
one is relied on. -/
def Granted (H : Linking → Prop) (R : SymbolId → Prop) (L : Linking) (s : SymbolId) : Prop :=
  L.AliasesNest ∨ H L ∧ R s

theorem faithful_overlooks : Overlooks (Faithful H R) := by
  intro l l' hle haside hl s t hget hs L hL
  rw [haside] at hget
  exact hl s t hget hs L (hle.2.trans hL)

theorem Granted.nests (hH : ∀ L, H L → L.Relied R) {L : Linking} (h : Granted H R L s) :
    L.Nests maxExpansion s :=
  h.elim (fun hnest => hnest s) fun hs => (hH L hs.1).nests s hs.2

theorem relying_count (l : Linking) (depth : Nat) (hl : (relying (Faithful H R)).Good l) :
    (relying (Faithful H R)).Good { l with expansionDepth := depth } ∧
      making.Le l { l with expansionDepth := depth } := by
  have hle : making.Le l { l with expansionDepth := depth } :=
    ⟨growth.refl l, { Keeps.refl l with }⟩
  refine ⟨⟨?_, faithful_overlooks l _ hle rfl hl.2⟩, hle⟩
  exact hl.1.grow (growth_count l depth hl.1.sound).1 hle .inl .inl .inl .inl

/-- A type alias becomes a type of its form, given how its expression becomes a type. -/
theorem aliasType_forms (hH : ∀ L, H L → L.Relied R) (hC : ∀ L, C L → Granted H R L s)
    (hl : (relying (Faithful H R)).Good l) {make? : Option (TypeExpr → LinkM TypeId)} {name : String}
    (hmake : ∀ e make, l.typeAliases.get? s = some e → make? = some make →
      ∀ l', (relying (Faithful H R)).Good l' → making.Le l l' → (relying (Faithful H R)).Runs (make e) l'
        (TakesForm (fun L => Granted H R L s) fun L => L.formOf e))
    (hcut : make? = none → ∀ L, l.Keeps L → C L → L.typeAliases.get? s = none) :
    (relying (Faithful H R)).Runs (aliasType make? s name) l
      (TakesForm C fun L => L.aliasForm maxExpansion s name) := by
  have hopaque : (∀ e make, l.typeAliases.get? s = some e → make? = some make → False) →
      (relying (Faithful H R)).Runs (build (·.anonymous name)) l
        (TakesForm C fun L => L.aliasForm maxExpansion s name) := by
    intro hnot
    refine relying_congr (runs_aside faithful_overlooks hl.2 (anonymous_takesForm hl.1 name) addType_aside)
      fun L hL hgranted => ⟨hgranted, ?_⟩
    have hnone : L.typeAliases.get? s = none := by
      cases hmake? : make? with
      | none => exact hcut hmake? L hL hgranted
      | some make =>
        rw [hL.typeAliases]
        exact Option.eq_none_iff_forall_ne_some.mpr fun e he => hnot e make he hmake?
    simp only [maxExpansion, aliasForm, hnone]
  unfold aliasType
  refine Growth.runs_get (Growth.runs_get ?_)
  split
  next t hget =>
    refine Growth.runs_pure hl ⟨hl.1.sound.tables.aliasTypes t (Table.mem_values_of_get? hget), ?_⟩
    intro L hL hgranted
    rcases hC L hgranted with hnest | ⟨hrelied, hs⟩
    · exact hl.1.aliasTypes hget L hL hnest name
    · exact hl.2 s t hget hs L hL hrelied name
  next e make _ hexpr =>
    refine (runs_expanding relying_count (fun _ _ _ hle h => h.mono hle) hl fun l' hl' hle' =>
      hmake e make hexpr rfl l' hl' hle').bind fun t l₁ hl₁ hle₁ ht => ?_
    have hform : ∀ L, l₁.Keeps L → Granted H R L s → ∀ name,
        L.builder.HasForm (L.aliasForm maxExpansion s name) t := by
      intro L hL hgranted name
      have he : L.typeAliases.get? s = some e := by rwa [(hle₁.2.trans hL).typeAliases]
      rw [(hgranted.nests hH).aliasForm_eq_formOf he]
      exact ht.form L hL hgranted
    have htypes := Table.forall_values_insert (k := s) hl₁.1.sound.tables.aliasTypes ht.within
    have hstored := store_runs (f := fun l => { l with aliasTypes := l.aliasTypes.insert s t })
      hl₁.1.sound rfl { hl₁.1.sound.tables with aliasTypes := htypes }
    have hle : making.Le l₁ { l₁ with aliasTypes := l₁.aliasTypes.insert s t } :=
      ⟨hstored.le, { Keeps.refl l₁ with }⟩
    refine (Growth.runs_modify (G := relying (Faithful H R))
      (f := fun l => { l with aliasTypes := l.aliasTypes.insert s t }) ⟨?_, ?_⟩ hle).handBack
      (fun _ _ hle h => h.mono hle) ⟨ht.within, fun L hL hgranted => hform L hL (hC L hgranted) name⟩
    · refine hl₁.1.grow hstored.good hle .inl .inl .inl fun hget => ?_
      rcases Table.get?_insert_cases hget with ⟨rfl, rfl⟩ | hget
      · exact .inr fun L hL hnest => hform L (hle.2.trans hL) (.inl hnest)
      · exact .inl hget
    · intro s' t' hget hs' L hL hrelied
      rcases Table.get?_insert_cases hget with ⟨rfl, rfl⟩ | hget
      · exact hform L (hle.2.trans hL) (.inr ⟨hrelied, hs'⟩)
      · exact hl₁.2 s' t' hget hs' L (hle.2.trans hL) hrelied
  next hnot => exact hopaque hnot

/-- There is room for a type alias, `depth` within each other, wherever it is granted. -/
def HasRoom (H : Linking → Prop) (R : SymbolId → Prop) (depth : Nat) (L : Linking) (s : SymbolId) : Prop :=
  (L.AliasesNest → L.Nests depth s) ∧ (H L → L.LeavesRoom R depth s)

/-- At every depth, type aliases for which there is room become types of their forms: by induction on the
depth. -/
theorem expandAlias_forms (hH : ∀ L, H L → L.Relied R) (depth : Nat) :
    Expanding (Faithful H R) (HasRoom H R depth) (fun L s => Granted H R L s ∧ L.Nests depth s)
      (expandAlias depth) := by
  induction depth with
  | zero =>
    intro s name l hl _
    refine aliasType_forms hH (fun _ => And.left) hl (by simp) fun _ L _ hgranted => ?_
    simpa only [Nests] using hgranted.2
  | succ depth ih =>
    intro s name l hl hroom
    refine aliasType_forms hH (fun _ => And.left) hl (fun e make he hmake l' hl' hle' => ?_) (by simp)
    obtain rfl := Option.some.inj hmake
    have hin := hl.1.sound.tables.typeAliases e (Table.mem_values_of_get? he)
    have hexpr : ∀ L, l'.Keeps L → L.typeAliases.get? s = some e := fun L hL => by
      rwa [(hle'.2.trans hL).typeAliases]
    refine relying_congr (materializeWith_forms faithful_overlooks ih hl' e (hin.mono hle'.1.1) ?_)
      fun L hL hgranted => ⟨?_, rfl⟩
    · intro L hL
      obtain ⟨hnests, hleaves⟩ := hroom L (hle'.2.trans hL)
      refine uses_and (P := fun s => L.AliasesNest → L.Nests depth s)
        (Q := fun s => H L → L.LeavesRoom R depth s) (fun _ => And.intro) e ?_ ?_
      · by_cases hnest : L.AliasesNest
        · have hn := hnests hnest
          rw [Nests] at hn
          exact (hn e (hexpr L hL)).mono fun _ h _ => h
        · exact uses_of_forall (fun _ h => absurd h hnest) e
      · by_cases hrelied : H L
        · have hn := hleaves hrelied
          rw [LeavesRoom] at hn
          exact (hn.2 e (hexpr L hL)).mono fun _ h _ => h
        · exact uses_of_forall (fun _ h => absurd h hrelied) e
    · -- What is granted nests within the depth, and grants what it uses.
      obtain ⟨hnests, hleaves⟩ := hroom L (hle'.2.trans hL)
      have hn : L.Nests (depth + 1) s := by
        rcases hgranted with hnest | ⟨hrelied, hs⟩
        · exact hnests hnest
        · have hn := hleaves hrelied
          rw [LeavesRoom] at hn
          exact hn.1 hs
      rw [Nests] at hn
      refine uses_and (P := Granted H R L) (fun _ => And.intro) e ?_ (hn e (hexpr L hL))
      rcases hgranted with hnest | ⟨hrelied, hs⟩
      · exact uses_of_forall (fun _ => .inl hnest) e
      · exact ((hH L hrelied).uses s hs e (hexpr L hL)).mono fun _ h => .inr ⟨hrelied, h⟩

/-- The type of an expression has the form of the expression in every later state in which its type
aliases are granted, and the types of type aliases that are kept stay faithful. -/
theorem materialize_forms (hH : ∀ L, H L → L.Relied R) (hl : (relying (Faithful H R)).Good l)
    {e : TypeExpr} (he : e.Within l.extent)
    (hroom : ∀ L, l.Keeps L → H L → L.Uses (L.LeavesRoom R maxExpansion) e) :
    (relying (Faithful H R)).Runs (materialize e) l
      (TakesForm (fun L => L.Uses (Granted H R L) e) (·.formOf e)) := by
  refine relying_congr
    (materializeWith_forms faithful_overlooks (expandAlias_forms hH maxExpansion) hl e he fun L hL => ?_)
    fun L _ hgranted => ⟨hgranted.mono fun _ h => ⟨h, h.nests hH⟩, rfl⟩
  refine uses_and (P := fun s => L.AliasesNest → L.Nests maxExpansion s)
    (Q := fun s => H L → L.LeavesRoom R maxExpansion s) (fun _ => And.intro) e
    (uses_of_forall (fun s hnest => hnest s) e) ?_
  by_cases hrelied : H L
  · exact (hroom L hL hrelied).mono fun _ h _ => h
  · exact uses_of_forall (fun _ h => absurd h hrelied) e

end Memo

/-! ## Programs in which type aliases nest -/

/-- Nothing needs to be relied on where all type aliases nest. -/
theorem faithful_nothing (l : Linking) : Faithful (fun _ => False) (fun _ => False) l :=
  fun _ _ _ hs => hs.elim

/-- Type aliases become types of their forms, those that are nested at most so deep. -/
def ExpandsTo (depth : Nat) (expand : Expansion) : Prop :=
  ∀ (s : SymbolId) (name : String) (l : Linking), l.Orderly →
    (∀ L, l.Keeps L → L.AliasesNest → L.Nests depth s) →
    making.Runs (expand s name) l (TakesForm AliasesNest fun L => L.aliasForm maxExpansion s name)

/-- The type aliases in expressions are nested at most so deep, whatever becomes known later. -/
def AllFit (l : Linking) (depth : Nat) (es : List TypeExpr) : Prop :=
  ∀ L, l.Keeps L → L.AliasesNest → L.AllUse (L.Nests depth) es

/-- The forms of the expressions do not hang on where expansion is cut off. -/
def AllDetermined (L : Linking) (es : List TypeExpr) : Prop :=
  L.AliasesNest ∨ L.AllUse (fun _ => False) es

theorem materializeAll_takeForms {depth : Nat} {expand : Expansion} (hexpand : ExpandsTo depth expand)
    (hl : l.Orderly) (es : List TypeExpr) (hin : TypeExpr.AllWithin l.extent es)
    (hfits : l.AllFit depth es) :
    making.Runs (materializeAll expand es) l (TakeForms (·.AllDetermined es) (·.formsOf es)) := by
  have hexpanding : Expanding (fun _ => True) (fun L s => L.AliasesNest → L.Nests depth s)
      (fun L _ => L.AliasesNest) expand := by
    intro s name l hl hroom
    have h := hexpand s name l hl.1 hroom
    exact ⟨⟨h.good, trivial⟩, h.le, h.post⟩
  have hmade := materializeAll_forms (fun _ _ _ _ => id) hexpanding ⟨hl, trivial⟩ es hin fun L hL => by
    by_cases hnest : L.AliasesNest
    · exact (hfits L hL hnest).mono fun _ h _ => h
    · exact allUse_of_forall (fun _ h => absurd h hnest) es
  refine ⟨hmade.good.1, hmade.le, hmade.post.within, fun L hL hC => hmade.post.forms L hL ?_⟩
  rcases hC with hnest | hnone
  · exact allUse_of_forall (fun _ => hnest) es
  · exact hnone.mono fun _ => False.elim

/-- At every depth, type aliases become types of their forms. -/
theorem expandAlias_expandsTo (depth : Nat) : ExpandsTo depth (expandAlias depth) := by
  intro s name l hl hnests
  have h := expandAlias_forms (H := fun _ => False) (R := fun _ => False) (fun _ => False.elim) depth s
    name l ⟨hl, faithful_nothing l⟩ fun L hL => ⟨hnests L hL, False.elim⟩
  exact runs_congr ⟨h.good.1, h.le, h.post⟩ fun L hL hnest => ⟨⟨.inl hnest, hnests L hL hnest⟩, rfl⟩

/-- **The type of an expression has the form of the expression**, in every later state: if all type
aliases nest, or if there are none in the expression. -/
theorem materialize_takesForm (hl : l.Orderly) {e : TypeExpr} (he : e.Within l.extent) :
    making.Runs (materialize e) l (TakesForm (·.Determined e) (·.formOf e)) := by
  have h := materialize_forms (H := fun _ => False) (R := fun _ => False) (fun _ => False.elim)
    ⟨hl, faithful_nothing l⟩ he fun _ _ => False.elim
  refine runs_congr ⟨h.good.1, h.le, h.post⟩ fun L _ hC => ⟨?_, rfl⟩
  rcases hC with hnest | hnone
  · exact uses_of_forall (fun _ => .inl hnest) e
  · exact hnone.mono fun _ => False.elim

/-- The type was made of an expression, at some time before. -/
inductive MadeOf (L : Linking) (e : TypeExpr) : TypeId → Prop where
  | intro {l : Linking} : l.Orderly → e.Within l.extent → (materialize e l).2.Keeps L →
    MadeOf L e (materialize e l).1

/-- In the end, the type has the form of the expression that it was made of. -/
theorem MadeOf.hasForm {L : Linking} {e : TypeExpr} {t : TypeId} (h : L.MadeOf e t)
    (hL : L.Determined e) : L.builder.HasForm (L.formOf e) t := by
  obtain ⟨hl, he, hkeeps⟩ := h
  exact (materialize_takesForm hl he).post.form L hkeeps hL

/-! ## Runs -/

/-- A run of linking from `start`, in which the types of the expressions are made, in order. In between
may be done what leaves linking orderly and does not touch the types of type aliases. -/
inductive Made (start : Linking) : List TypeExpr → Linking → Prop where
  | start : Made start [] start
  | made {es : List TypeExpr} {e : TypeExpr} {l : Linking} : Made start es l → e.Within l.extent →
    Made start (es ++ [e]) (materialize e l).2
  | other {es : List TypeExpr} {l l' : Linking} : Made start es l → l'.Orderly → making.Le l l' →
    l'.aliasTypes = l.aliasTypes → Made start es l'

section

variable {start : Linking} {es es' : List TypeExpr}

theorem Made.trans (h : start.Made es l) (h' : l.Made es' l') : start.Made (es ++ es') l' := by
  induction h' with
  | start => rwa [List.append_nil]
  | made _ he ih =>
    rw [← List.append_assoc]
    exact .made ih he
  | other _ horderly hle haside ih => exact .other ih horderly hle haside

/-- Names keep their meaning. -/
theorem Made.keeps (h : start.Made es l) (hstart : start.Orderly) :
    l.Orderly ∧ start.Keeps l := by
  induction h with
  | start => exact ⟨hstart, .refl _⟩
  | made _ he ih =>
    have hmade := materialize_takesForm ih.1 he
    exact ⟨hmade.good, ih.2.trans hmade.le.2⟩
  | other _ horderly hle _ ih => exact ⟨horderly, ih.2.trans hle.2⟩

end

end Linking

end ApiDocs
