import ApiDocs.Proofs.Extract.Displays
import ApiDocs.Proofs.Extract.Repeatability
import ApiDocs.Proofs.Extract.TypeShapes

/-!
# Types composed by a builder

Among the types that a builder makes, some are composed of names, keywords and literals by arrays, unions,
intersections and type arguments. Their displays are put together while they are made, and their
descriptions are formatted when everything is long done. In between, other calls go on to make other
things, and symbols are changed by hand, but a type that is made keeps its facts and its display, and a
symbol its name. So the texts agree.

What a type is composed of is told by the history of the builder: every type was added by one of the calls,
and the types that were passed to this call were there already.

## Main definitions

* `GraphBuilder.MadeBy`: the call of a history that added a type.
* `GraphBuilder.Composed`: types that are composed by the calls of a history.

## Main results

* `GraphBuilder.Composed.format_eq_display`: a composed type is formatted as its display.
-/

namespace ApiDocs

/-! ## Histories -/

namespace GraphBuilder

/-- In a history of steps from the library on, one step is the call, and adds the type to the builder `b`. -/
def MadeBy (steps : List BuilderStep) (b : GraphBuilder) (call : BuilderCall) (t : TypeId) : Prop :=
  ∃ before after, steps = before ++ .call call :: after ∧ start.runSteps? before = some b ∧
    b.graph.type? t = none ∧ (call.run b).2.graph.type? t ≠ none

/-- A type is composed by the calls of a history: of keywords, literals, type parameters, types `this`,
anonymous types, enums and tuples, by references with or without arguments, arrays, unions and
intersections. Keywords have only bits of keywords, references are to symbols of other names than that of the
library's `Array`, and no enum is the element of an array or the member of a union or intersection. -/
inductive Composed (steps : List BuilderStep) : TypeId → Prop
  | intrinsic {b : GraphBuilder} {flags : TypeFlags} {display : String} {t : TypeId}
    (hmade : MadeBy steps b (.intrinsic flags display) t) (hflags : TypeFlags.intrinsic.has flags = true) :
    Composed steps t
  | literal {b : GraphBuilder} {value : Literal} {t : TypeId} (hmade : MadeBy steps b (.literal value) t) :
    Composed steps t
  | typeParameter {b : GraphBuilder} {symbol : SymbolId} {t : TypeId}
    (hmade : MadeBy steps b (.typeParameter symbol) t) : Composed steps t
  | thisType {b : GraphBuilder} {owner : SymbolId} {t : TypeId}
    (hmade : MadeBy steps b (.thisType owner) t) : Composed steps t
  | anonymous {b : GraphBuilder} {display : String} {t : TypeId}
    (hmade : MadeBy steps b (.anonymous display) t) : Composed steps t
  | enumType {b : GraphBuilder} {symbol : SymbolId} {members : List TypeId} {t : TypeId}
    (hmade : MadeBy steps b (.enumType symbol members) t) : Composed steps t
  | reference {b : GraphBuilder} {symbol : SymbolId} {arguments : List TypeId} {t : TypeId}
    (hmade : MadeBy steps b (.reference symbol arguments) t) (hname : b.nameOf symbol ≠ "Array")
    (harguments : ∀ a ∈ arguments, Composed steps a) : Composed steps t
  | arrayOf {b : GraphBuilder} {element t : TypeId} (hmade : MadeBy steps b (.arrayOf element) t)
    (hplain : b.isEnum element = false) (helement : Composed steps element) : Composed steps t
  | union {b : GraphBuilder} {members : List TypeId} {t : TypeId} (hmade : MadeBy steps b (.union members) t)
    (hplain : ∀ m ∈ members, b.isEnum m = false) (hmembers : ∀ m ∈ members, Composed steps m) :
    Composed steps t
  | intersection {b : GraphBuilder} {members : List TypeId} {t : TypeId}
    (hmade : MadeBy steps b (.intersection members) t) (hplain : ∀ m ∈ members, b.isEnum m = false)
    (hmembers : ∀ m ∈ members, Composed steps m) : Composed steps t
  | tuple {b : GraphBuilder} {elements : List TypeId} {t : TypeId}
    (hmade : MadeBy steps b (.tuple elements) t) : Composed steps t

/-! ## What lasts -/

/-- Types that are there last with nothing but more signatures, and symbols with their names. -/
structure Lasts (b b' : GraphBuilder) : Prop where
  type : ∀ {t x}, b.graph.type? t = some x → ∃ y, b'.graph.type? t = some y ∧ x.Extended y
  within : ∀ {s : SymbolId}, s.Within b.extent → s.Within b'.extent
  name : ∀ {s : SymbolId}, s.Within b.extent → b'.nameOf s = b.nameOf s

section

variable {b b' b₀ : GraphBuilder} {steps : List BuilderStep} {call : BuilderCall} {s : SymbolId} {t : TypeId}
  {n : TypeNode}

theorem lasts_runSteps (h : b.runSteps? steps = some b') (hkeeps : ∀ id, KeepsName id steps) :
    b.Lasts b' where
  type hx := type?_runSteps h hx
  within hs := by
    obtain ⟨x, hx⟩ := SymbolGraph.exists_symbol hs
    obtain ⟨y, hy, -⟩ := symbol?_runSteps h hx
    exact SymbolGraph.isSome_symbol?_iff.mp (by simp [hy])
  name {s} hs := by
    obtain ⟨x, hx⟩ := SymbolGraph.exists_symbol hs
    obtain ⟨y, hy, hname⟩ := symbol?_runSteps h hx
    rw [nameOf, nameOf, hx, hy]
    exact hname (hkeeps s)

section

variable (h : b.Lasts b') (ht : t.Within b.extent)

include h ht

theorem Lasts.displayOf_eq : b'.displayOf t = b.displayOf t := by
  obtain ⟨x, hx⟩ := SymbolGraph.exists_type ht
  obtain ⟨y, hy, calls, constructs, rfl⟩ := h.type hx
  rw [displayOf, displayOf, hx, hy]
  rfl

theorem Lasts.nestedDisplay_eq : b'.nestedDisplay t = b.nestedDisplay t := by
  obtain ⟨x, hx⟩ := SymbolGraph.exists_type ht
  obtain ⟨y, hy, calls, constructs, rfl⟩ := h.type hx
  rw [nestedDisplay, nestedDisplay, hx, hy]
  rfl

theorem Lasts.isEnum_eq : b'.isEnum t = b.isEnum t := by
  obtain ⟨x, hx⟩ := SymbolGraph.exists_type ht
  obtain ⟨y, hy, calls, constructs, rfl⟩ := h.type hx
  rw [isEnum, isEnum, hx, hy]
  rfl

end

/-- A type that a type with signatures added to it is drawn as, it is drawn as later. -/
theorem Draws.lasts (h : b.Lasts b') (hn : b.Draws n) (hparts : ∀ part ∈ n.shape.parts, part.Within b.extent)
    {x : TypeNode} (hx : n.Extended x) : b'.Draws x ∧ x.shape = n.shape := by
  obtain ⟨calls, constructs, rfl⟩ := hx
  refine ⟨?_, rfl⟩
  cases hn with
  | plain hshape hsingle => exact .plain hshape hsingle
  | enumUnion hshape hs hdisplay henum =>
    exact .enumUnion hshape (h.within hs) (hdisplay.trans (h.name hs).symm) henum
  | named hshape hs hdisplay hsingle =>
    exact .named hshape (h.within hs) (hdisplay.trans (h.name hs).symm) hsingle
  | @generic s as hshape hne hs hdisplay hsingle =>
    rw [hshape] at hparts
    have hdisplays : as.map b'.displayOf = as.map b.displayOf :=
      List.map_congr_left fun a ha => h.displayOf_eq (hparts a ha)
    refine .generic hshape hne (h.within hs) (hdisplay.trans ?_) hsingle
    rw [h.name hs, listDisplay, listDisplay, hdisplays]
  | @array e hshape hdisplay hsingle he =>
    rw [hshape] at hparts
    have hwithin := hparts e (List.mem_singleton_self e)
    refine .array hshape (hdisplay.trans ?_) hsingle ((h.isEnum_eq hwithin).trans he)
    rw [h.nestedDisplay_eq hwithin]
  | @union ms hshape hdisplay hcompound hms =>
    rw [hshape] at hparts
    have hdisplays : ms.map b'.nestedDisplay = ms.map b.nestedDisplay :=
      List.map_congr_left fun m hm => h.nestedDisplay_eq (hparts m hm)
    refine .union hshape (hdisplay.trans ?_) hcompound
      fun m hm => (h.isEnum_eq (hparts m hm)).trans (hms m hm)
    rw [hdisplays]
  | @intersection ms hshape hdisplay hcompound hms =>
    rw [hshape] at hparts
    have hdisplays : ms.map b'.nestedDisplay = ms.map b.nestedDisplay :=
      List.map_congr_left fun m hm => h.nestedDisplay_eq (hparts m hm)
    refine .intersection hshape (hdisplay.trans ?_) hcompound
      fun m hm => (h.isEnum_eq (hparts m hm)).trans (hms m hm)
    rw [hdisplays]

/-! ## Types that calls make -/

/-- What was not there before a type was added, and is there afterwards, is this type. -/
theorem type?_of_push {g g' : SymbolGraph} (h : g'.types = g.types.push n) (hfresh : g.type? t = none)
    (hthere : g'.type? t ≠ none) : g'.type? t = some n := by
  simp only [SymbolGraph.type?] at hfresh hthere ⊢
  rw [h, Array.getElem?_push] at hthere ⊢
  by_cases ht : t.index = g.types.size
  · rw [if_pos ht]
  · rw [if_neg ht] at hthere
    exact absurd hfresh hthere

/-- What the call adds to the builder is there in the end, drawn as it was, and its parts are as they were. -/
theorem MadeBy.drawn {S : TypeId → Prop} (hmade : MadeBy steps b₀ call t)
    (hrun : start.runSteps? steps = some b) (hkeeps : ∀ id, KeepsName id steps)
    (hadds : (call.run b₀).2.graph.types = b₀.graph.types.push n ∨ (call.run b₀).2 = b₀)
    (shape : TypeShape) (hshape : n.shape = shape) (hparts : ∀ part ∈ shape.parts, S part ∧ part ∈ call.needs.2)
    (hdraws : n.shape = shape → (∀ s ∈ call.needs.1, s.Within b₀.extent) → b₀.Draws n) :
    ∃ x, b.graph.type? t = some x ∧ b.Draws x ∧ ∀ part ∈ x.shape.parts, S part := by
  obtain ⟨before, after, rfl, hbefore, hfresh, hthere⟩ := hmade
  rw [runSteps?_append, hbefore] at hrun
  have hsteps : b₀.runSteps? (.call call :: after) = some b := hrun
  obtain ⟨hready, hafter⟩ := runSteps?_cons.mp hsteps
  obtain ⟨hsymbols, htypes⟩ := SymbolGraph.ready_iff.mp hready
  have hlasts : b₀.Lasts b :=
    lasts_runSteps hsteps fun id f hf => hkeeps id f (List.mem_append_right _ hf)
  have hn : (call.run b₀).2.graph.type? t = some n := by
    rcases hadds with hadds | hsame
    · exact type?_of_push hadds hfresh hthere
    · rw [hsame] at hthere
      exact absurd hfresh hthere
  obtain ⟨x, hx, hextended⟩ := type?_runSteps hafter hn
  obtain ⟨hdrawn, hkept⟩ := (hdraws hshape hsymbols).lasts hlasts
    (fun part hp => htypes part (hparts part (hshape ▸ hp)).2) hextended
  refine ⟨x, hx, hdrawn, ?_⟩
  rw [hkept, hshape]
  exact fun part hp => (hparts part hp).1

/-- The same for a type without parts that is given by its display. -/
theorem MadeBy.drawn_plain {S : TypeId → Prop} (hmade : MadeBy steps b₀ call t)
    (hrun : start.runSteps? steps = some b) (hkeeps : ∀ id, KeepsName id steps)
    (hadds : (call.run b₀).2.graph.types = b₀.graph.types.push n ∨ (call.run b₀).2 = b₀)
    (hshape : n.shape = .simple ∨ n.shape = .tuple ∨ n.shape = .unsupported) (hsingle : n.isCompound = false) :
    ∃ x, b.graph.type? t = some x ∧ b.Draws x ∧ ∀ part ∈ x.shape.parts, S part := by
  refine hmade.drawn hrun hkeeps hadds n.shape rfl ?_ fun _ _ => .plain hshape hsingle
  rcases hshape with hshape | hshape | hshape <;> simp [hshape, TypeShape.parts]

/-- A keyword that was met before adds no type. -/
theorem types_intrinsic (b : GraphBuilder) (flags : TypeFlags) (display : String) :
    (b.intrinsic flags display).2.graph.types = b.graph.types.push { flags, display } ∨
      (b.intrinsic flags display).2 = b := by
  unfold intrinsic
  split
  · exact .inr rfl
  · exact .inl rfl

/-- All composed types are drawn in the end. -/
theorem allDraw_composed (hrun : start.runSteps? steps = some b) (hkeeps : ∀ id, KeepsName id steps) :
    b.AllDraw (Composed steps) := by
  intro t ht
  cases ht with
  | @intrinsic b₀ flags display _ hmade hflags =>
    exact hmade.drawn_plain hrun hkeeps (types_intrinsic b₀ flags display)
      ((TypeNode.shape_of_intrinsic hflags).imp_right .inr) (TypeNode.meets_of_intrinsic hflags (by decide))
  | @literal b₀ value _ hmade =>
    cases value with
    | number v =>
      exact hmade.drawn_plain hrun hkeeps (.inl rfl) (.inl (TypeNode.shape_of_literal (.inr rfl)))
        (TypeNode.isCompound_of_flags TypeFlags.numberLiteralBit rfl (by decide))
    | text v =>
      exact hmade.drawn_plain hrun hkeeps (.inl rfl) (.inl (TypeNode.shape_of_literal (.inl rfl)))
        (TypeNode.isCompound_of_flags TypeFlags.stringLiteralBit rfl (by decide))
  | thisType hmade =>
    exact hmade.drawn_plain hrun hkeeps (.inl rfl) (.inl (TypeNode.shape_of_thisType rfl rfl))
      (TypeNode.isCompound_of_typeParameter rfl)
  | anonymous hmade =>
    exact hmade.drawn_plain hrun hkeeps (.inl rfl) (.inl (TypeNode.shape_of_anonymous rfl rfl rfl))
      (TypeNode.isCompound_of_object rfl)
  | tuple hmade =>
    exact hmade.drawn_plain hrun hkeeps (.inl rfl) (.inr (.inl (TypeNode.shape_of_tuple rfl rfl rfl)))
      (TypeNode.isCompound_of_object rfl)
  | @typeParameter _ symbol _ hmade =>
    refine hmade.drawn hrun hkeeps (.inl rfl) (.reference symbol [])
      (TypeNode.shape_of_typeParameter rfl rfl) nofun fun hshape hs => ?_
    exact .named hshape (hs symbol (List.mem_singleton_self _)) rfl (TypeNode.isCompound_of_typeParameter rfl)
  | @enumType _ symbol members _ hmade =>
    have henum : (TypeFlags.enumLiteralBit ∪ TypeFlags.unionBit ∪ TypeFlags.enumBit).has
        TypeFlags.enumBit = true := by decide
    refine hmade.drawn hrun hkeeps (.inl rfl) (.enumUnion symbol) (TypeNode.shape_of_enum rfl rfl) nofun
      fun hshape hs => ?_
    exact .enumUnion hshape (hs symbol (List.mem_singleton_self _)) rfl henum
  | @reference b₀ symbol arguments _ hmade hname harguments =>
    cases arguments with
    | nil =>
      refine hmade.drawn hrun hkeeps (.inl rfl) (.reference symbol [])
        (TypeNode.shape_of_declared rfl (ite_eq_or_eq _ _ _) rfl) nofun fun hshape hs => ?_
      exact .named hshape (hs symbol (List.mem_singleton_self _)) rfl (TypeNode.isCompound_of_object rfl)
    | cons a as =>
      refine hmade.drawn hrun hkeeps (.inl rfl) (.reference symbol (a :: as)) ?_
        (fun arg ha => ⟨harguments arg ha, ha⟩) fun hshape hs => ?_
      · refine (TypeNode.shape_of_instantiation rfl rfl rfl).trans (if_neg ?_)
        simpa [TypeNode.arrayTarget] using hname
      · exact .generic hshape (List.cons_ne_nil a as) (hs symbol (List.mem_singleton_self _)) rfl
          (TypeNode.isCompound_of_object rfl)
  | @arrayOf b₀ element _ hmade hplain helement =>
    refine hmade.drawn hrun hkeeps (.inl rfl) (.array element) (TypeNode.shape_of_instantiation rfl rfl rfl)
      ?_ fun hshape _ => .array hshape rfl (TypeNode.isCompound_of_object rfl) hplain
    intro part hp
    rw [List.mem_singleton.mp hp]
    exact ⟨helement, List.mem_singleton_self _⟩
  | @union b₀ members _ hmade hplain hmembers =>
    refine hmade.drawn hrun hkeeps (.inl rfl) (.union members)
      (TypeNode.shape_of_compound rfl rfl (.inl rfl)) (fun m hm => ⟨hmembers m hm, hm⟩) fun hshape _ => ?_
    exact .union hshape rfl (TypeNode.isCompound_of_flags TypeFlags.unionBit rfl (by decide)) hplain
  | @intersection b₀ members _ hmade hplain hmembers =>
    refine hmade.drawn hrun hkeeps (.inl rfl) (.intersection members)
      (TypeNode.shape_of_compound rfl rfl (.inr rfl)) (fun m hm => ⟨hmembers m hm, hm⟩) fun hshape _ => ?_
    exact .intersection hshape rfl (TypeNode.isCompound_of_flags TypeFlags.intersectionBit rfl (by decide))
      hplain

end

/-! ## Formatted descriptions -/

/-- **A composed type is formatted as its display.** Whatever else is made before and after it, as long as no
symbol gets another name by hand, and whatever the table of references holds: if the type has no more than
64 levels below it, it is described without failure, and with the references that there are then, or after
any further use of the table, the text of the description is the display that the type got when it was
made. -/
theorem Composed.format_eq_display {steps : List BuilderStep} {b : GraphBuilder} {t : TypeId}
    (ht : Composed steps t) (hrun : start.runSteps? steps = some b) (hkeeps : ∀ id, KeepsName id steps)
    (hheight : b.graph.typeHost.HeightLe 64 t) (refs : RefTable SymbolId) :
    ∃ x d refs', b.graph.type? t = some x ∧ b.graph.describe t refs = .ok (d, refs') ∧
      ∀ later, d.format (refs'.afterSteps later).refs = x.display := by
  have hall := allDraw_composed hrun hkeeps
  obtain ⟨x, hx, -⟩ := hall t ht
  obtain ⟨d, refs', hd, hformats⟩ := hall.describe_formatsAs ht hheight refs
  refine ⟨x, d, refs', hx, hd, fun later => ?_⟩
  rw [TypeDoc.format_eq_formatIn, (hformats _ (refs'.lookupGrowth_afterSteps later)).alone, displayOf_eq hx]

/-! ## A box of many things -/

/-- A box of an array of texts and numbers, a tuple and an enum. Then the box is documented. -/
def boxSteps : List BuilderStep :=
  [.call (.addSymbol "Box" SymbolFlags.classBit),
    .call (.addSymbol "Color" SymbolFlags.enumBit),
    .call (.intrinsic TypeFlags.stringBit "string"),
    .call (.intrinsic TypeFlags.numberBit "number"),
    .call (.union [⟨0⟩, ⟨1⟩]),
    .call (.arrayOf ⟨2⟩),
    .call (.enumType ⟨2⟩ []),
    .call (.tuple [⟨4⟩, ⟨0⟩]),
    .call (.reference ⟨1⟩ [⟨3⟩, ⟨5⟩, ⟨4⟩]),
    .edit ⟨1⟩ fun s => { s with doc := "A box." }]

/-- The builder after some of these steps. -/
def boxBuilder (count : Nat) : GraphBuilder := (start.runSteps? (boxSteps.take count)).getD start

theorem runSteps?_boxSteps (count : Nat) (h : (start.runSteps? (boxSteps.take count)).isSome = true) :
    start.runSteps? (boxSteps.take count) = some (boxBuilder count) := by
  obtain ⟨b, hb⟩ := Option.isSome_iff_exists.mp h
  rw [boxBuilder, hb]
  rfl

theorem madeBy_boxSteps (count : Nat) {call : BuilderCall} {t : TypeId}
    (hcall : boxSteps[count]? = some (.call call))
    (hrun : (start.runSteps? (boxSteps.take count)).isSome = true)
    (hfresh : (boxBuilder count).graph.type? t = none)
    (hthere : (call.run (boxBuilder count)).2.graph.type? t ≠ none) :
    MadeBy boxSteps (boxBuilder count) call t := by
  refine ⟨boxSteps.take count, boxSteps.drop (count + 1), ?_, runSteps?_boxSteps count hrun, hfresh, hthere⟩
  obtain ⟨hlt, hget⟩ := List.getElem?_eq_some_iff.mp hcall
  rw [← hget, ← List.drop_eq_getElem_cons hlt, List.take_append_drop]

theorem composed_boxSteps : Composed boxSteps ⟨6⟩ := by
  have hstring : Composed boxSteps ⟨0⟩ :=
    .intrinsic (madeBy_boxSteps 2 rfl (by decide) (by decide) (by decide)) (by decide)
  have hnumber : Composed boxSteps ⟨1⟩ :=
    .intrinsic (madeBy_boxSteps 3 rfl (by decide) (by decide) (by decide)) (by decide)
  have hunion : Composed boxSteps ⟨2⟩ :=
    .union (madeBy_boxSteps 4 rfl (by decide) (by decide) (by decide)) (by decide)
      (by simp [hstring, hnumber])
  have harray : Composed boxSteps ⟨3⟩ :=
    .arrayOf (madeBy_boxSteps 5 rfl (by decide) (by decide) (by decide)) (by decide)
      hunion
  have henum : Composed boxSteps ⟨4⟩ :=
    .enumType (madeBy_boxSteps 6 rfl (by decide) (by decide) (by decide))
  have htuple : Composed boxSteps ⟨5⟩ :=
    .tuple (madeBy_boxSteps 7 rfl (by decide) (by decide) (by decide))
  exact .reference (madeBy_boxSteps 8 rfl (by decide) (by decide) (by decide))
    (by decide) (by simp [harray, htuple, henum])

/-- The box is formatted as it was displayed. -/
theorem boxSteps_format_eq_display :
    Composed boxSteps ⟨6⟩ ∧ start.runSteps? boxSteps = some (boxBuilder 10) ∧
      (∀ id, KeepsName id boxSteps) ∧ (boxBuilder 10).graph.typeHost.HeightLe 64 ⟨6⟩ ∧
      ∃ d refs', (boxBuilder 10).graph.describe ⟨6⟩ .empty = .ok (d, refs') ∧
        ∀ later, d.format (refs'.afterSteps later).refs = "Box<(string | number)[], [Color, string], Color>" := by
  have hrun : start.runSteps? boxSteps = some (boxBuilder 10) := runSteps?_boxSteps 10 (by decide)
  have hkeeps : ∀ id, KeepsName id boxSteps := by
    intro id f hf s
    have hedit : BuilderStep.edit id f = .edit ⟨1⟩ fun s => { s with doc := "A box." } := by
      simpa [boxSteps] using hf
    cases hedit
    rfl
  have hheight : (boxBuilder 10).graph.typeHost.HeightLe 64 ⟨6⟩ := by decide
  obtain ⟨x, d, refs', hx, hd, htext⟩ :=
    Composed.format_eq_display composed_boxSteps hrun hkeeps hheight .empty
  have hdisplay : ((boxBuilder 10).graph.type? ⟨6⟩).map (·.display) =
      some "Box<(string | number)[], [Color, string], Color>" := by decide
  rw [hx, Option.map_some] at hdisplay
  rw [Option.some.inj hdisplay] at htext
  exact ⟨composed_boxSteps, hrun, hkeeps, hheight, d, refs', hd, htext⟩

end GraphBuilder

end ApiDocs
