import ApiDocs.Proofs.Binding.AliasMemo
import ApiDocs.Proofs.Binding.RenderedTypes

/-!
# What is documented of an annotation

On the way from an annotation to its documentation the type of the annotation is a set of facts, and the
reading of these facts need not be what the annotation says. Here it is said without them: what is documented
of an expression hangs on the expression, on what its names stand for in the end, and on how many levels are
left. The arguments of a class or interface are documented one by one, those of a type alias not at all.

What is read as an array is told by a name. An instantiation is known by the name of its class or interface,
so one that is called `Array` is documented as an array of its first argument, whichever symbol it is. The
library's `Array` is among these, but so is every other one.

## Main definitions

* `Linking.Tells`: what is documented of an expression.
* `Linking.Told`: what is documented of a type is what its expression tells, from now on.
* `Linking.Telling`: the types that are kept in tables are such types.
* `Linking.Arrayed`: expressions that are documented as arrays.

## Main results

* `Linking.materialize_tells`: what is documented of a type is what its expression tells.
* `Linking.Tells.arrayed`: only arrays and instantiations that are called `Array` are documented as arrays.
-/

namespace ApiDocs

namespace Linking

open TypeScript (KeywordType)

/-! ## Documented expressions -/

/-- The primitive type of a literal, as it is documented. -/
def primitiveOf : Literal → String
  | .number _ => "number"
  | .text _ => "string"

/-- What is documented where a name stands for an enum that is noted, or for one of its members. -/
inductive TellsEnum (E : List EnumDraft) (refs : RefTable SymbolId) (s : SymbolId) : TypeDoc → Prop where
  | enum {x : EnumDraft} {r : RefId} : x ∈ E → x.symbol = s → refs.Has s r → TellsEnum E refs s (.ref r [])
  /-- A member is its value, -/
  | value {x : EnumDraft} {v : Literal} : x ∈ E → (s, some v) ∈ x.members →
    TellsEnum E refs s (.literal (primitiveOf v) v)
  /-- or any number, if its value is not known. -/
  | number {x : EnumDraft} : x ∈ E → (s, none) ∈ x.members → TellsEnum E refs s (.name "number")

/-- The type alias stands within so many others that lead to it, one through the other. -/
inductive NestedIn (L : Linking) : Nat → SymbolId → Prop where
  | outermost (s : SymbolId) : NestedIn L 0 s
  | within {n : Nat} {s s' : SymbolId} {body : TypeExpr} : NestedIn L n s → L.typeAliases.get? s = some body →
    L.Mentions body s' → NestedIn L (n + 1) s'

/-- The type alias has no expression, or it may be cut off: it is nested as deep as type aliases are
expanded. -/
def CutOff (L : Linking) (s : SymbolId) : Prop := L.typeAliases.get? s = none ∨ L.NestedIn maxExpansion s

/-- What is documented of an expression, as far as a number of levels goes, given what is noted of enums. -/
inductive Tells (L : Linking) (E : List EnumDraft) (refs : RefTable SymbolId) : Nat → TypeExpr → TypeDoc → Prop where
  /-- Below the last level there is only a display. -/
  | bottom (e : TypeExpr) (display : String) : Tells L E refs 0 e (.unsupported .other display)
  | keyword {n : Nat} (k : KeywordType) : Tells L E refs (n + 1) (.keyword k) (.name k.word)
  | text {n : Nat} (v : String) : Tells L E refs (n + 1) (.text v) (.name (Literal.text v).display)
  | number {n : Nat} (v : Binary64) : Tells L E refs (n + 1) (.number v) (.name (Literal.number v).display)
  | boolean {n : Nat} (v : Bool) : Tells L E refs (n + 1) (.boolean v) (.name (booleanText v))
  | verbatim {n : Nat} (written : String) : Tells L E refs (n + 1) (.verbatim written) (.name written)
  | this {n : Nat} (owner : SymbolId) : Tells L E refs (n + 1) (.this (some owner)) (.name "this")
  | nobody {n : Nat} : Tells L E refs (n + 1) (.this none) (.name "any")
  | tuple {n : Nat} (es : List TypeExpr) (display : String) :
    Tells L E refs (n + 1) (.tuple es) (.unsupported .tuple display)
  | array {n : Nat} {e : TypeExpr} {d : TypeDoc} :
    Tells L E refs n e d → Tells L E refs (n + 1) (.array e) (.arrayOf d)
  | union {n : Nat} {es : List TypeExpr} {ds : List TypeDoc} :
    es.length = ds.length → (∀ e d, (e, d) ∈ es.zip ds → Tells L E refs n e d) →
      Tells L E refs (n + 1) (.union es) (.unionOf ds)
  | intersection {n : Nat} {es : List TypeExpr} {ds : List TypeDoc} :
    es.length = ds.length → (∀ e d, (e, d) ∈ es.zip ds → Tells L E refs n e d) →
      Tells L E refs (n + 1) (.intersection es) (.intersectionOf ds)
  | instanceOf {n : Nat} {s : SymbolId} {r : RefId} :
    refs.Has s r → Tells L E refs (n + 1) (.instanceOf s) (.ref r [])
  /-- A name that stands for nothing is kept as it is written. -/
  | unknown {n : Nat} {written : String} {ref : NameRef} {arguments : List TypeExpr} :
    L.target? ref = none → Tells L E refs (n + 1) (.reference written ref arguments) (.name written)
  /-- So is one that stands for a value. -/
  | value {n : Nat} {written : String} {ref : NameRef} {arguments : List TypeExpr} {s : SymbolId} :
    L.target? ref = some s → L.meaningOf s = .value →
      Tells L E refs (n + 1) (.reference written ref arguments) (.name written)
  | enum {n : Nat} {written : String} {ref : NameRef} {arguments : List TypeExpr} {s : SymbolId}
      {t : TypeId} {d : TypeDoc} :
    L.target? ref = some s → L.meaningOf s = .known t → TellsEnum E refs s d →
      Tells L E refs (n + 1) (.reference written ref arguments) d
  | parameter {n : Nat} {written : String} {ref : NameRef} {arguments : List TypeExpr} {s : SymbolId}
      {r : RefId} :
    L.target? ref = some s → L.meaningOf s = .parameter → refs.Has s r →
      Tells L E refs (n + 1) (.reference written ref arguments) (.ref r [])
  /-- A class or interface has all its arguments, unless it has the name of arrays. -/
  | instantiation {n : Nat} {written : String} {ref : NameRef} {arguments : List TypeExpr} {s : SymbolId}
      {r : RefId} {ds : List TypeDoc} :
    L.target? ref = some s → L.meaningOf s = .instantiable → (arguments = [] ∨ L.builder.nameOf s ≠ "Array") →
      refs.Has s r → arguments.length = ds.length →
      (∀ e d, (e, d) ∈ arguments.zip ds → Tells L E refs n e d) →
      Tells L E refs (n + 1) (.reference written ref arguments) (.ref r ds)
  /-- If it has, it is an array of its first argument. -/
  | arrayNamed {n : Nat} {written : String} {ref : NameRef} {argument : TypeExpr}
      {others : List TypeExpr} {s : SymbolId} {d : TypeDoc} :
    L.target? ref = some s → L.meaningOf s = .instantiable → L.builder.nameOf s = "Array" →
      Tells L E refs n argument d →
      Tells L E refs (n + 1) (.reference written ref (argument :: others)) (.arrayOf d)
  /-- A type alias is put in place, and its arguments are lost. -/
  | expansion {n : Nat} {written : String} {ref : NameRef} {arguments : List TypeExpr} {s : SymbolId}
      {body : TypeExpr} {d : TypeDoc} :
    L.target? ref = some s → L.meaningOf s = .expandable → L.typeAliases.get? s = some body →
      Tells L E refs n body d → Tells L E refs n (.reference written ref arguments) d
  /-- One that is cut off is kept as it is written. -/
  | unexpanded {n : Nat} {written : String} {ref : NameRef} {arguments : List TypeExpr} {s : SymbolId} :
    L.target? ref = some s → L.meaningOf s = .expandable → L.CutOff s →
      Tells L E refs (n + 1) (.reference written ref arguments) (.name written)

/-- Expressions that are documented as arrays: arrays, classes and interfaces with arguments that are called
`Array`, and type aliases of these. -/
inductive Arrayed (L : Linking) : TypeExpr → Prop where
  | array (e : TypeExpr) : Arrayed L (.array e)
  | named {written : String} {ref : NameRef} {arguments : List TypeExpr} {s : SymbolId} :
    L.target? ref = some s → L.meaningOf s = .instantiable → L.builder.nameOf s = "Array" →
      arguments ≠ [] → Arrayed L (.reference written ref arguments)
  | expansion {written : String} {ref : NameRef} {arguments : List TypeExpr} {s : SymbolId}
      {body : TypeExpr} :
    L.target? ref = some s → L.meaningOf s = .expandable → L.typeAliases.get? s = some body →
      Arrayed L body → Arrayed L (.reference written ref arguments)

variable {L l l' : Linking} {E : List EnumDraft} {refs : RefTable SymbolId} {n : Nat} {e : TypeExpr} {d : TypeDoc}
  {s : SymbolId} {t : TypeId} {ts : List TypeId} {es : List TypeExpr}

/-- **Only arrays are documented as arrays, and what is called `Array`.** -/
theorem Tells.arrayed (h : L.Tells E refs n e (.arrayOf d)) : L.Arrayed e := by
  generalize hx : TypeDoc.arrayOf d = x at h
  induction h with
  | array _ => exact .array _
  | arrayNamed htarget hmeaning hname _ => exact .named htarget hmeaning hname (List.cons_ne_nil _ _)
  | expansion htarget hmeaning halias _ ih => exact .expansion htarget hmeaning halias (ih hx)
  | enum _ _ h =>
    subst hx
    cases h
  | _ => cases hx

/-! ## Types of a known node -/

/-- What is documented of a type that has the shape and the display. -/
def Shows (g : SymbolGraph) (refs : RefTable SymbolId) (n : Nat) (display : String) (d : TypeDoc) :
    TypeShape → Prop
  | .enumUnion s => ∃ r, refs.Has s r ∧ d = .ref r []
  | .enumLiteral primitive value => d = .literal primitive value
  | .simple => d = .name display
  | .array element => ∃ x, g.Described refs n element x ∧ d = .arrayOf x
  | .reference s arguments =>
    ∃ r xs, refs.Has s r ∧ List.Forall₂ (g.Described refs n) arguments xs ∧ d = .ref r xs
  | .tuple => d = .unsupported .tuple display
  | .union members => ∃ xs, List.Forall₂ (g.Described refs n) members xs ∧ d = .unionOf xs
  | .intersection members => ∃ xs, List.Forall₂ (g.Described refs n) members xs ∧ d = .intersectionOf xs
  | .unsupported => d = .unsupported .other display

/-- What is documented of a type shows in its node, which need not have the constructors. -/
theorem shows_of_described {b : GraphBuilder} {x : TypeNode} (hx : b.typeCore? t = some x)
    (h : b.graph.Described refs (n + 1) t d) : Shows b.graph refs n x.display d x.shape := by
  obtain ⟨y, hy, hd⟩ := h
  obtain ⟨z, hz, rfl⟩ := Option.map_eq_some_iff.mp hx
  obtain rfl := Option.some.inj (hy.symm.trans hz)
  change Shows b.graph refs n y.display d y.shape
  cases hshape : y.shape with
  | _ =>
    rw [hshape] at hd
    exact hd

/-! ## Types that tell of their expressions -/

/-- The type is there, and from now on what is documented of it is what the expression tells. -/
structure Told (E : List EnumDraft) (e : TypeExpr) (t : TypeId) (l : Linking) : Prop where
  within : t.Within l.extent
  tells : ∀ L, l.Keeps L → ∀ refs n d, L.builder.graph.Described refs n t d → L.Tells E refs n e d

theorem Told.mono (h : Told E e t l) (hle : making.Le l l') : Told E e t l' :=
  ⟨h.within.mono hle.1.1, fun L hL => h.tells L (hle.2.trans hL)⟩

/-- What is documented of a type is what the expression tells if that holds of its node. -/
theorem tells_of_node {x : TypeNode} {shape : TypeShape} (hx : L.builder.typeCore? t = some x)
    (hshape : x.shape = shape)
    (h : ∀ n d, Shows L.builder.graph refs n x.display d shape → L.Tells E refs (n + 1) e d)
    (hd : L.builder.graph.Described refs n t d) : L.Tells E refs n e d := by
  cases n with
  | zero =>
    obtain ⟨y, -, rfl⟩ := hd
    exact .bottom e _
  | succ n => exact h n d (hshape ▸ shows_of_described hx hd)

/-- A type tells of an expression if its node does. -/
theorem told_of_node {x : TypeNode} {shape : TypeShape} (hin : t.Within l.extent)
    (hx : l.builder.typeCore? t = some x) (hshape : x.shape = shape)
    (h : ∀ L, l.Keeps L → ∀ refs n d, Shows L.builder.graph refs n x.display d shape →
      L.Tells E refs (n + 1) e d) : Told E e t l :=
  ⟨hin, fun L hL refs _ _ => tells_of_node (hL.builder.type hx) hshape (h L hL refs)⟩

/-- A type that its display says all about tells of an expression that is documented so. -/
theorem told_of_simple {x : TypeNode} (hin : t.Within l.extent) (hx : l.builder.typeCore? t = some x)
    (hshape : x.shape = .simple)
    (h : ∀ L, l.Keeps L → ∀ refs n, L.Tells E refs (n + 1) e (.name x.display)) : Told E e t l := by
  refine told_of_node hin hx hshape fun L hL refs n d hd => ?_
  rw [show d = .name x.display from hd]
  exact h L hL refs n

/-- A reference without arguments tells of an expression that is documented so. -/
theorem told_of_bare {x : TypeNode} (hin : t.Within l.extent) (hx : l.builder.typeCore? t = some x)
    (hshape : x.shape = .reference s [])
    (h : ∀ L, l.Keeps L → ∀ refs n r, refs.Has s r → L.Tells E refs (n + 1) e (.ref r [])) : Told E e t l := by
  refine told_of_node hin hx hshape fun L hL refs n d hd => ?_
  obtain ⟨r, ds, hr, hds, rfl⟩ := hd
  cases hds
  exact h L hL refs n r hr

/-- The types tell of the expressions, one by one. -/
def ToldAll (E : List EnumDraft) (es : List TypeExpr) (ts : List TypeId) (l : Linking) : Prop :=
  List.Forall₂ (fun e t => Told E e t l) es ts

theorem ToldAll.within (h : ToldAll E es ts l) : ∀ t ∈ ts, t.Within l.extent := by
  intro t ht
  obtain ⟨e, -, he⟩ := forall₂_mem_right h ht
  exact he.within

theorem ToldAll.mono (h : ToldAll E es ts l) (hle : making.Le l l') : ToldAll E es ts l' :=
  h.imp fun _ _ ht => ht.mono hle

theorem ToldAll.tells (h : ToldAll E es ts l) (hL : l.Keeps L) {ds : List TypeDoc}
    (hds : List.Forall₂ (L.builder.graph.Described refs n) ts ds) :
    es.length = ds.length ∧ ∀ e d, (e, d) ∈ es.zip ds → L.Tells E refs n e d := by
  induction h generalizing ds with
  | nil =>
    cases hds
    simp
  | cons he _ ih =>
    obtain ⟨d, rest, hd, hrest, rfl⟩ := List.forall₂_cons_left_iff.mp hds
    obtain ⟨hlength, htells⟩ := ih hrest
    refine ⟨congrArg (· + 1) hlength, fun e' d' hmem => ?_⟩
    rw [List.zip_cons_cons, List.mem_cons, Prod.mk.injEq] at hmem
    obtain ⟨rfl, rfl⟩ | hmem := hmem
    · exact he.tells L hL refs n d' hd
    · exact htells e' d' hmem

/-! ## Steps that make types -/

/-- The type of a member: that of its value, or any number. -/
def IsMemberNode (x : TypeNode) : Option Literal → Prop
  | some v => x.shape = .enumLiteral (primitiveOf v) v
  | none => x = numberNode

/-- The type is that of an enum that is noted, or of one of its members. -/
inductive IsEnumNode (E : List EnumDraft) (s : SymbolId) (x : TypeNode) : Prop where
  | enum {y : EnumDraft} : y ∈ E → y.symbol = s → x.shape = .enumUnion s → IsEnumNode E s x
  | member {y : EnumDraft} {value : Option Literal} : y ∈ E → (s, value) ∈ y.members → IsMemberNode x value →
    IsEnumNode E s x

/-- The types that are kept in tables tell of what they were made of, and the library's `Array` has its
name. -/
structure Telling (E : List EnumDraft) (l : Linking) : Prop where
  array : ∃ x, l.builder.symbolCore? GraphBuilder.arraySymbol = some x ∧ x.name = "Array"
  enums : ∀ {s t}, l.enumTypes.get? s = some t → ∃ x, l.builder.typeCore? t = some x ∧ IsEnumNode E s x
  aliases : ∀ {s t}, l.aliasTypes.get? s = some t → ∃ e, l.typeAliases.get? s = some e ∧ Told E e t l

theorem telling_overlooks : Overlooks (Telling E) := by
  intro l l' hle haside hl
  refine ⟨?_, fun {s t} ht => ?_, fun {s t} ht => ?_⟩
  · obtain ⟨x, hx, hname⟩ := hl.array
    exact ⟨x, hle.2.builder.symbol hx, hname⟩
  · rw [hle.2.enumTypes] at ht
    obtain ⟨x, hx, hshape⟩ := hl.enums ht
    exact ⟨x, hle.2.builder.type hx, hshape⟩
  · rw [haside] at ht
    obtain ⟨e, he, htold⟩ := hl.aliases ht
    exact ⟨e, by rwa [hle.2.typeAliases], htold.mono hle⟩

/-- The library's `Array` keeps its name. -/
theorem Telling.nameOf_array (hl : l.Telling E) (hL : l.Keeps L) :
    L.builder.nameOf GraphBuilder.arraySymbol = "Array" := by
  obtain ⟨x, hx, hname⟩ := hl.array
  rw [GraphBuilder.nameOf_eq_core, hL.builder.symbol hx, Option.map_some, Option.getD_some, hname]

section Steps

theorem keyword_told (hl : l.Orderly) {flags : TypeFlags} {w : String} (hw : keywordFlags? w = some flags)
    (hshape : TypeNode.shape { flags, display := w } = .simple)
    (h : ∀ L, l.Keeps L → ∀ refs n, L.Tells E refs (n + 1) e (.name w)) :
    making.Runs (build (·.intrinsic flags w)) l (Told E e) := by
  have hmade := intrinsic_takesForm (C := fun _ => True) hl hw
  refine ⟨hmade.good, hmade.le, ?_⟩
  have hnode := (hmade.post.form _ (.refl _) trivial).typeCore?_eq
  exact told_of_simple hmade.post.within hnode hshape fun L hL => h L (hmade.le.2.trans hL)

theorem anonymous_told (hl : l.Orderly) (w : String)
    (h : ∀ L, l.Keeps L → ∀ refs n, L.Tells E refs (n + 1) e (.name w)) :
    making.Runs (build (·.anonymous w)) l (Told E e) := by
  have hmade := anonymous_takesForm (C := fun _ => True) hl w
  refine ⟨hmade.good, hmade.le, ?_⟩
  have hnode := (hmade.post.form _ (.refl _) trivial).typeCore?_eq
  exact told_of_simple hmade.post.within hnode (TypeNode.shape_of_anonymous rfl rfl rfl)
    fun L hL => h L (hmade.le.2.trans hL)

theorem literal_told (hl : l.Orderly) (value : Literal)
    (h : ∀ L, l.Keeps L → ∀ refs n, L.Tells E refs (n + 1) e (.name value.display)) :
    making.Runs (build (·.literal value)) l (Told E e) := by
  have hmade := literal_takesForm (C := fun _ => True) hl value
  refine ⟨hmade.good, hmade.le, ?_⟩
  have hnode := (hmade.post.form _ (.refl _) trivial).typeCore?_eq
  refine told_of_simple hmade.post.within hnode (TypeNode.shape_of_literal ?_)
    fun L hL => h L (hmade.le.2.trans hL)
  cases value <;> simp

theorem thisType_told (hl : l.Orderly) (hs : s.Within l.extent) :
    making.Runs (build (·.thisType s)) l (Told E (.this (some s))) := by
  have hmade := thisType_takesForm (C := fun _ => True) hl hs
  refine ⟨hmade.good, hmade.le, ?_⟩
  have hnode := (hmade.post.form _ (.refl _) trivial).typeCore?_eq
  exact told_of_simple hmade.post.within hnode (TypeNode.shape_of_thisType rfl rfl)
    fun L hL refs n => .this s

theorem parameterType_told (hl : l.Orderly) (hs : s.Within l.extent)
    (h : ∀ L, l.Keeps L → ∀ refs n r, refs.Has s r → L.Tells E refs (n + 1) e (.ref r [])) :
    making.Runs (parameterType s) l (Told E e) := by
  have hmade := parameterType_takesForm (C := fun _ => True) hl hs
  refine ⟨hmade.good, hmade.le, ?_⟩
  have hnode := (hmade.post.form _ (.refl _) trivial).typeCore?_eq
  exact told_of_bare hmade.post.within hnode (TypeNode.shape_of_typeParameter rfl rfl)
    fun L hL => h L (hmade.le.2.trans hL)

theorem instanceType_told (hl : l.Orderly) (hs : s.Within l.extent)
    (h : ∀ L, l.Keeps L → ∀ refs n r, refs.Has s r → L.Tells E refs (n + 1) e (.ref r [])) :
    making.Runs (instanceType s) l (Told E e) := by
  have hmade := instanceType_takesForm (C := fun _ => True) hl hs
  refine ⟨hmade.good, hmade.le, ?_⟩
  have hnode := (hmade.post.form _ (.refl _) trivial).typeCore?_eq
  exact told_of_bare hmade.post.within hnode (TypeNode.shape_of_declared rfl (ite_eq_or_eq _ _ _) rfl)
    fun L hL => h L (hmade.le.2.trans hL)

theorem arrayOf_told (hl : l.Orderly) (ht : t.Within l.extent)
    (h : ∀ L, l.Keeps L → ∀ refs n x, L.builder.graph.Described refs n t x →
      L.Tells E refs (n + 1) e (.arrayOf x)) :
    making.Runs (build (·.arrayOf t)) l (Told E e) := by
  have hmade := addType_making hl (build_runs hl.sound (GraphBuilder.arrayOf_runs hl.sound.builder ht))
  refine ⟨hmade.good, hmade.le, told_of_node hmade.post.1 hmade.post.2 (TypeNode.shape_of_instantiation rfl rfl rfl)
    fun L hL refs n d (hd : Shows _ _ _ _ d (.array t)) => ?_⟩
  obtain ⟨x, hx, rfl⟩ := hd
  exact h L (hmade.le.2.trans hL) refs n x hx

theorem union_told (hl : l.Orderly) (hts : ToldAll E es ts l) :
    making.Runs (build (·.union ts)) l (Told E (.union es)) := by
  have hmade := addType_making hl
    (build_runs hl.sound (GraphBuilder.union_runs hl.sound.builder hts.within))
  refine ⟨hmade.good, hmade.le, told_of_node hmade.post.1 hmade.post.2 (TypeNode.shape_of_compound rfl rfl (.inl rfl))
    fun L hL refs n d (hd : Shows _ _ _ _ d (.union ts)) => ?_⟩
  obtain ⟨ds, hds, rfl⟩ := hd
  obtain ⟨hlength, htells⟩ := hts.tells (hmade.le.2.trans hL) hds
  exact .union hlength htells

theorem intersection_told (hl : l.Orderly) (hts : ToldAll E es ts l) :
    making.Runs (build (·.intersection ts)) l (Told E (.intersection es)) := by
  have hmade := addType_making hl
    (build_runs hl.sound (GraphBuilder.intersection_runs hl.sound.builder hts.within))
  refine ⟨hmade.good, hmade.le, told_of_node hmade.post.1 hmade.post.2 (TypeNode.shape_of_compound rfl rfl (.inr rfl))
    fun L hL refs n d (hd : Shows _ _ _ _ d (.intersection ts)) => ?_⟩
  obtain ⟨ds, hds, rfl⟩ := hd
  obtain ⟨hlength, htells⟩ := hts.tells (hmade.le.2.trans hL) hds
  exact .intersection hlength htells

theorem tuple_told (hl : l.Orderly) (hts : ToldAll E es ts l) :
    making.Runs (build (·.tuple ts)) l (Told E (.tuple es)) := by
  have hmade := addType_making hl
    (build_runs hl.sound (GraphBuilder.tuple_runs hl.sound.builder hts.within))
  refine ⟨hmade.good, hmade.le, told_of_node hmade.post.1 hmade.post.2 (TypeNode.shape_of_tuple rfl rfl rfl)
    fun L hL refs n d (hd : Shows _ _ _ _ d (.tuple)) => ?_⟩
  rw [show d = _ from hd]
  exact .tuple es _

/-- An instantiation is told by the name of its class or interface. -/
theorem reference_told (hl : l.Orderly) (hs : s.Within l.extent) (hts : ∀ u ∈ t :: ts, u.Within l.extent)
    (hother : l.builder.nameOf s ≠ "Array" → ∀ L, l.Keeps L → ∀ refs n r ds, refs.Has s r →
      List.Forall₂ (L.builder.graph.Described refs n) (t :: ts) ds → L.Tells E refs (n + 1) e (.ref r ds))
    (hnamed : l.builder.nameOf s = "Array" → ∀ L, l.Keeps L → ∀ refs n x,
      L.builder.graph.Described refs n t x → L.Tells E refs (n + 1) e (.arrayOf x)) :
    making.Runs (build (·.reference s (t :: ts))) l (Told E e) := by
  have hmade := addType_making hl
    (build_runs hl.sound (GraphBuilder.reference_runs hl.sound.builder hs hts))
  have hshape : ∀ x : TypeNode, x.flags = TypeFlags.objectBit → x.objectFlags = ObjectFlags.referenceBit →
      x.isThisType = false → x.typeArguments = t :: ts → x.symbol = some s →
      x.targetName = some (l.builder.nameOf s) →
      x.shape = if l.builder.nameOf s = "Array" then .array t else .reference s (t :: ts) := by
    intro x hflags hkind hthis harguments hsymbol htarget
    rw [TypeNode.shape_of_instantiation hflags hkind hthis, TypeNode.instantiationShape, harguments]
    simp only [htarget, TypeNode.referenceShape, hsymbol, TypeNode.arrayTarget, beq_iff_eq, Option.some.injEq]
  refine ⟨hmade.good, hmade.le, told_of_node hmade.post.1 hmade.post.2 (hshape _ rfl rfl rfl rfl rfl rfl)
    fun L hL refs n d hd => ?_⟩
  have hL' := hmade.le.2.trans hL
  by_cases hname : l.builder.nameOf s = "Array"
  · rw [if_pos hname] at hd
    obtain ⟨x, hx, rfl⟩ := hd
    exact hnamed hname L hL' refs n x hx
  · rw [if_neg hname] at hd
    obtain ⟨r, ds, hr, hds, rfl⟩ := hd
    exact hother hname L hL' refs n r ds hr hds

end Steps

/-! ## Types of expressions -/

/-- From now on, a reference to the type alias that is written like this tells what is documented of the
type. -/
def ToldAlias (E : List EnumDraft) (s : SymbolId) (written : String) (t : TypeId) (l : Linking) : Prop :=
  t.Within l.extent ∧ ∀ L, l.Keeps L → ∀ ref arguments, L.target? ref = some s → L.meaningOf s = .expandable →
    ∀ refs n d, L.builder.graph.Described refs n t d → L.Tells E refs n (.reference written ref arguments) d

theorem ToldAlias.mono {written : String} (h : ToldAlias E s written t l) (hle : making.Le l l') :
    ToldAlias E s written t l' :=
  ⟨h.1.mono hle.1.1, fun L hL => h.2 L (hle.2.trans hL)⟩

/-- Type aliases for which there is room become types that references to them tell of. -/
def ExpandsTelling (E : List EnumDraft) (Q : Linking → SymbolId → Prop) (expand : Expansion) : Prop :=
  ∀ (s : SymbolId) (written : String) (l : Linking), (relying (Telling E)).Good l → (∀ L, l.Keeps L → Q L s) →
    (relying (Telling E)).Runs (expand s written) l (ToldAlias E s written)

/-- What a name tells that stands for an enum or one of its members. -/
theorem enum_told (hl : (relying (Telling E)).Good l) {written : String} {ref : NameRef}
    {arguments : List TypeExpr} (hknown : l.meaningOf s = .known t)
    (hmeaning : ∀ L, l.Keeps L → L.target? ref = some s ∧ L.meaningOf s = .known t) :
    Told E (.reference written ref arguments) t l := by
  obtain ⟨x, hx, hnode⟩ := hl.2.enums (enumTypes_of_known hknown)
  refine told_of_node (meaningOf_known hl.1.sound hknown) hx rfl fun L hL refs n d hd => ?_
  obtain ⟨htarget, hmeaning⟩ := hmeaning L hL
  refine .enum htarget hmeaning ?_
  cases hnode with
  | enum hy hsymbol hshape =>
    rw [hshape] at hd
    obtain ⟨r, hr, rfl⟩ := hd
    exact .enum hy hsymbol hr
  | @member y value hy hmember hnode =>
    cases value with
    | some v =>
      rw [show x.shape = _ from hnode] at hd
      obtain rfl : d = _ := hd
      exact .value hy hmember
    | none =>
      obtain rfl : x = numberNode := hnode
      obtain rfl : d = .name "number" := hd
      exact .number hy hmember

/-- What a name with its arguments tells, if it stands for a class or interface. -/
theorem instantiate_told (hl : (relying (Telling E)).Good l) {written : String} {ref : NameRef}
    (hs : s.Within l.extent) (hts : ToldAll E es ts l)
    (hmeaning : ∀ L, l.Keeps L → L.target? ref = some s ∧ L.meaningOf s = .instantiable) :
    (relying (Telling E)).Runs (instantiate s ts) l (Told E (.reference written ref es)) := by
  refine runs_aside telling_overlooks hl.2 ?_ (instantiate_aside s ts)
  -- The first argument is what an array is told by, and only if the name says so.
  have hnamed : ∀ t rest, ts = t :: rest → ∀ L, l.Keeps L → L.builder.nameOf s = "Array" → ∀ refs n x,
      L.builder.graph.Described refs n t x → L.Tells E refs (n + 1) (.reference written ref es) (.arrayOf x) := by
    rintro t rest rfl L hL hname refs n x hx
    obtain ⟨e, es, he, -, rfl⟩ := List.forall₂_cons_right_iff.mp hts
    obtain ⟨htarget, hinstantiable⟩ := hmeaning L hL
    exact .arrayNamed htarget hinstantiable hname (he.tells L hL refs n x hx)
  have hreference : ∀ t rest, ts = t :: rest → making.Runs (build (·.reference s (t :: rest))) l
      (Told E (.reference written ref es)) := by
    intro t rest hcons
    refine reference_told hl.1 hs (hcons ▸ hts.within) ?_ ?_
    · intro hname L hL refs n r ds hr hds
      obtain ⟨htarget, hinstantiable⟩ := hmeaning L hL
      obtain ⟨hlength, htells⟩ := hts.tells hL (hcons ▸ hds)
      exact .instantiation htarget hinstantiable (.inr (by rwa [hL.builder.nameOf_eq hs])) hr hlength htells
    · intro hname L hL
      exact hnamed t rest hcons L hL (by rwa [hL.builder.nameOf_eq hs])
  match ts, hts, hnamed, hreference with
  | [], hts, _, _ =>
    cases hts
    refine instanceType_told hl.1 hs fun L hL refs n r hr => ?_
    obtain ⟨htarget, hinstantiable⟩ := hmeaning L hL
    exact .instantiation htarget hinstantiable (.inl rfl) hr rfl (by simp)
  | [t], hts, hnamed, hreference =>
    rw [instantiate]
    split
    next harray =>
      refine arrayOf_told hl.1 (hts.within t (by simp)) fun L hL => ?_
      exact hnamed t [] rfl L hL (harray ▸ hl.2.nameOf_array hL)
    next => exact hreference t [] rfl
  | t :: u :: rest, _, _, hreference => exact hreference t (u :: rest) rfl

section Expressions

variable {Q : Linking → SymbolId → Prop} {expand : Expansion}

theorem keywordExpr_tells (hl : (relying (Telling E)).Good l) (k : KeywordType) :
    (relying (Telling E)).Runs (materializeWith expand (.keyword k)) l (Told E (.keyword k)) := by
  rw [materializeWith]
  have hshape : TypeNode.shape { flags := k.flags, display := k.word } = .simple := by
    cases k <;> decide
  exact runs_aside telling_overlooks hl.2 (keyword_told hl.1 (keywordFlags?_word k) hshape
    fun _ _ _ _ => .keyword k) (intrinsic_aside _ _)

theorem text_tells (hl : (relying (Telling E)).Good l) (v : String) :
    (relying (Telling E)).Runs (materializeWith expand (.text v)) l (Told E (.text v)) := by
  rw [materializeWith]
  exact runs_aside telling_overlooks hl.2 (literal_told hl.1 (.text v) fun _ _ _ _ => .text v) addType_aside

theorem number_tells (hl : (relying (Telling E)).Good l) (v : Binary64) :
    (relying (Telling E)).Runs (materializeWith expand (.number v)) l (Told E (.number v)) := by
  rw [materializeWith]
  exact runs_aside telling_overlooks hl.2 (literal_told hl.1 (.number v) fun _ _ _ _ => .number v) addType_aside

theorem boolean_tells (hl : (relying (Telling E)).Good l) (v : Bool) :
    (relying (Telling E)).Runs (materializeWith expand (.boolean v)) l (Told E (.boolean v)) := by
  rw [materializeWith]
  have hshape : TypeNode.shape { flags := TypeFlags.booleanLiteralBit, display := booleanText v } =
      .simple := by
    cases v <;> decide
  exact runs_aside telling_overlooks hl.2 (keyword_told hl.1 (keywordFlags?_booleanText v) hshape
    fun _ _ _ _ => .boolean v) (intrinsic_aside _ _)

/-- A name becomes a type that tells what it stands for, given that its arguments do. -/
theorem reference_tells (hexpand : ExpandsTelling E Q expand) (hl : (relying (Telling E)).Good l)
    {written : String} {ref : NameRef} {arguments : List TypeExpr}
    (hroom : ∀ L, l.Keeps L → L.Uses (Q L) (.reference written ref arguments))
    (harguments : ∀ l', (relying (Telling E)).Good l' → making.Le l l' →
      (∀ L, l'.Keeps L → L.AllUse (Q L) arguments) →
      (relying (Telling E)).Runs (materializeAll expand arguments) l' (ToldAll E arguments)) :
    (relying (Telling E)).Runs (materializeWith expand (.reference written ref arguments)) l
      (Told E (.reference written ref arguments)) := by
  refine reference_runs And.left
    (runs_aside telling_overlooks hl.2 (resolveType_making hl.1 ref) (resolveType_aside ref))
    (fun l₁ hl₁ _ hnone => ?_) fun l₁ s m hl₁ hle₁ hrefers => ?_
  · exact runs_aside telling_overlooks hl₁.2 (anonymous_told hl₁.1 written fun L hL _ _ => .unknown (hnone L hL))
      addType_aside
  have hroom₁ : ∀ L, l₁.Keeps L → L.Uses (Q L) (.reference written ref arguments) :=
    fun L hL => hroom L (hle₁.2.trans hL)
  cases m with
  | known t =>
    exact Growth.runs_pure hl₁ (enum_told hl₁ hrefers.now fun L hL => ⟨hrefers.target L hL, hrefers.meaning L hL⟩)
  | instantiable =>
    refine (harguments l₁ hl₁ hle₁ fun L hL => (hrefers.uses_instantiable hL).mp (hroom₁ L hL)).bind
      fun ts l₂ hl₂ hle₂ hts => ?_
    refine instantiate_told hl₂ (hrefers.within.mono hle₂.1.1) hts fun L hL => ?_
    exact ⟨hrefers.target L (hle₂.2.trans hL), hrefers.meaning L (hle₂.2.trans hL)⟩
  | parameter =>
    exact runs_aside telling_overlooks hl₁.2 (parameterType_told hl₁.1 hrefers.within fun L hL _ _ _ hr =>
      .parameter (hrefers.target L hL) (hrefers.meaning L hL) hr) (parameterType_aside _)
  | expandable =>
    have hmade := hexpand s written l₁ hl₁ fun L hL => (hrefers.uses_expandable hL).mp (hroom₁ L hL)
    refine ⟨hmade.good, hmade.le, hmade.post.1, fun L hL => ?_⟩
    have hL₁ := hmade.le.2.trans hL
    exact hmade.post.2 L hL ref arguments (hrefers.target L hL₁) (hrefers.meaning L hL₁)
  | value =>
    rw [makeAs]
    exact runs_aside telling_overlooks hl₁.2 (anonymous_told hl₁.1 written fun L hL _ _ =>
      .value (hrefers.target L hL) (hrefers.meaning L hL)) addType_aside

theorem instanceOf_tells (hl : (relying (Telling E)).Good l) (hs : s.Within l.extent) :
    (relying (Telling E)).Runs (materializeWith expand (.instanceOf s)) l (Told E (.instanceOf s)) := by
  rw [materializeWith]
  exact runs_aside telling_overlooks hl.2 (instanceType_told hl.1 hs fun _ _ _ _ _ hr => .instanceOf hr)
    (instanceType_aside _)

theorem array_tells
    (helement : (relying (Telling E)).Runs (materializeWith expand e) l (Told E e)) :
    (relying (Telling E)).Runs (materializeWith expand (.array e)) l (Told E (.array e)) := by
  rw [materializeWith]
  refine helement.bind fun t l₁ hl₁ _ ht => ?_
  exact runs_aside telling_overlooks hl₁.2 (arrayOf_told hl₁.1 ht.within fun L hL refs n x hx =>
    .array (ht.tells L hL refs n x hx)) addType_aside

theorem union_tells (hmembers : (relying (Telling E)).Runs (materializeAll expand es) l (ToldAll E es)) :
    (relying (Telling E)).Runs (materializeWith expand (.union es)) l (Told E (.union es)) := by
  rw [materializeWith]
  refine hmembers.bind fun ts l₁ hl₁ _ hts => ?_
  exact runs_aside telling_overlooks hl₁.2 (union_told hl₁.1 hts) addType_aside

theorem intersection_tells
    (hmembers : (relying (Telling E)).Runs (materializeAll expand es) l (ToldAll E es)) :
    (relying (Telling E)).Runs (materializeWith expand (.intersection es)) l (Told E (.intersection es)) := by
  rw [materializeWith]
  refine hmembers.bind fun ts l₁ hl₁ _ hts => ?_
  exact runs_aside telling_overlooks hl₁.2 (intersection_told hl₁.1 hts) addType_aside

theorem tuple_tells (helements : (relying (Telling E)).Runs (materializeAll expand es) l (ToldAll E es)) :
    (relying (Telling E)).Runs (materializeWith expand (.tuple es)) l (Told E (.tuple es)) := by
  rw [materializeWith]
  refine helements.bind fun ts l₁ hl₁ _ hts => ?_
  exact runs_aside telling_overlooks hl₁.2 (tuple_told hl₁.1 hts) addType_aside

theorem this_tells (hl : (relying (Telling E)).Good l) {owner : Option SymbolId}
    (howner : (TypeExpr.this owner).Within l.extent) :
    (relying (Telling E)).Runs (materializeWith expand (.this owner)) l (Told E (.this owner)) := by
  cases owner with
  | some owner =>
    rw [materializeWith]
    exact runs_aside telling_overlooks hl.2 (thisType_told hl.1 (howner owner rfl)) addType_aside
  | none =>
    rw [materializeWith]
    exact runs_aside telling_overlooks hl.2 (keyword_told hl.1 (keywordFlags?_word .any) (by decide)
      fun _ _ _ _ => .nobody) (intrinsic_aside _ _)

theorem verbatim_tells (hl : (relying (Telling E)).Good l) (written : String) :
    (relying (Telling E)).Runs (materializeWith expand (.verbatim written)) l (Told E (.verbatim written)) := by
  rw [materializeWith]
  exact runs_aside telling_overlooks hl.2 (anonymous_told hl.1 written fun _ _ _ _ => .verbatim written)
    addType_aside

mutual

/-- **What is documented of a type is what its expression tells**, given that this is so of type aliases. -/
theorem materializeWith_tells (hexpand : ExpandsTelling E Q expand) {l : Linking}
    (hl : (relying (Telling E)).Good l) : ∀ e : TypeExpr, e.Within l.extent →
      (∀ L, l.Keeps L → L.Uses (Q L) e) → (relying (Telling E)).Runs (materializeWith expand e) l (Told E e)
  | .keyword k, _, _ => keywordExpr_tells hl k
  | .text v, _, _ => text_tells hl v
  | .number v, _, _ => number_tells hl v
  | .boolean v, _, _ => boolean_tells hl v
  | .reference _ _ arguments, hin, hroom =>
    reference_tells hexpand hl hroom fun _ hl' hle =>
      materializeAll_tells hexpand hl' arguments (TypeExpr.AllWithin.mono hle.1.1 hin)
  | .instanceOf _, hin, _ => instanceOf_tells hl hin
  | .array element, hin, hroom =>
    array_tells (materializeWith_tells hexpand hl element hin fun L hL => by
      simpa only [Uses] using hroom L hL)
  | .union members, hin, hroom =>
    union_tells (materializeAll_tells hexpand hl members hin fun L hL => by
      simpa only [Uses] using hroom L hL)
  | .intersection members, hin, hroom =>
    intersection_tells (materializeAll_tells hexpand hl members hin fun L hL => by
      simpa only [Uses] using hroom L hL)
  | .tuple elements, hin, hroom =>
    tuple_tells (materializeAll_tells hexpand hl elements hin fun L hL => by
      simpa only [Uses] using hroom L hL)
  | .this _, hin, _ => this_tells hl hin
  | .verbatim written, _, _ => verbatim_tells hl written

theorem materializeAll_tells (hexpand : ExpandsTelling E Q expand) {l : Linking}
    (hl : (relying (Telling E)).Good l) : ∀ es : List TypeExpr, TypeExpr.AllWithin l.extent es →
      (∀ L, l.Keeps L → L.AllUse (Q L) es) →
      (relying (Telling E)).Runs (materializeAll expand es) l (ToldAll E es)
  | [], _, _ => by
    rw [materializeAll]
    exact Growth.runs_pure hl .nil
  | e :: es, hin, hroom => by
    rw [materializeAll]
    have huses : ∀ L, l.Keeps L → L.Uses (Q L) e ∧ L.AllUse (Q L) es := fun L hL => by
      simpa only [AllUse] using hroom L hL
    refine (materializeWith_tells hexpand hl e hin.1 fun L hL => (huses L hL).1).bind
      fun t l₁ hl₁ hle₁ ht => ?_
    refine (materializeAll_tells hexpand hl₁ es (TypeExpr.AllWithin.mono hle₁.1.1 hin.2) fun L hL =>
      (huses L (hle₁.2.trans hL)).2).bind fun ts l₂ hl₂ hle₂ hts => ?_
    exact Growth.runs_pure hl₂ (.cons (ht.mono hle₂) hts)

end

end Expressions

/-! ## Type aliases -/

theorem telling_count (l : Linking) (depth : Nat) (hl : (relying (Telling E)).Good l) :
    (relying (Telling E)).Good { l with expansionDepth := depth } ∧
      making.Le l { l with expansionDepth := depth } := by
  have hle : making.Le l { l with expansionDepth := depth } :=
    ⟨growth.refl l, { Keeps.refl l with }⟩
  refine ⟨⟨?_, telling_overlooks l _ hle rfl hl.2⟩, hle⟩
  exact hl.1.grow (growth_count l depth hl.1.sound).1 hle .inl .inl .inl .inl

/-- A type alias tells what its expression does. -/
theorem toldAlias_of_told {body : TypeExpr} (hbody : l.typeAliases.get? s = some body) (ht : Told E body t l)
    (written : String) : ToldAlias E s written t l := by
  refine ⟨ht.within, fun L hL ref arguments htarget hmeaning refs n d hd => ?_⟩
  exact .expansion htarget hmeaning (by rwa [hL.typeAliases]) (ht.tells L hL refs n d hd)

/-- A type alias that is cut off is kept as it is written. -/
theorem unexpanded_told (hl : (relying (Telling E)).Good l) (written : String)
    (hcut : ∀ L, l.Keeps L → L.CutOff s) :
    (relying (Telling E)).Runs (build (·.anonymous written)) l (ToldAlias E s written) := by
  have hmade := anonymous_takesForm (C := fun _ => True) hl.1 written
  refine runs_aside telling_overlooks hl.2 ⟨hmade.good, hmade.le, hmade.post.within, ?_⟩ addType_aside
  intro L hL ref arguments htarget hmeaning refs n d
  refine tells_of_node (hmade.post.form L hL trivial).typeCore?_eq (TypeNode.shape_of_anonymous rfl rfl rfl)
    fun n d hd => ?_
  rw [show d = .name written from hd]
  exact .unexpanded htarget hmeaning (hcut L (hmade.le.2.trans hL))

/-- What is kept of a type alias is the type of its expression. -/
theorem aliasType_of_expr {make : TypeExpr → LinkM TypeId} {body : TypeExpr} {written : String}
    (hnone : l.aliasTypes.get? s = none) (hbody : l.typeAliases.get? s = some body) :
    aliasType (some make) s written l =
      let made := expanding (make body) l
      (made.1, { made.2 with aliasTypes := made.2.aliasTypes.insert s made.1 }) := by
  unfold aliasType
  simp only [get_bind, hnone, hbody]
  rfl

/-- A type alias becomes a type that references to it tell of, given that its expression does. -/
theorem aliasType_tells (hl : (relying (Telling E)).Good l) {make? : Option (TypeExpr → LinkM TypeId)}
    {written : String} (horderly : (aliasType make? s written l).2.Orderly)
    (hcut : make? = none → ∀ L, l.Keeps L → L.NestedIn maxExpansion s)
    (hmake : ∀ body make, l.typeAliases.get? s = some body → make? = some make →
      ∀ l', (relying (Telling E)).Good l' → making.Le l l' → (relying (Telling E)).Runs (make body) l' (Told E body)) :
    (relying (Telling E)).Runs (aliasType make? s written) l (ToldAlias E s written) := by
  cases hkept : l.aliasTypes.get? s with
  | some t =>
    obtain ⟨body, hbody, ht⟩ := hl.2.aliases hkept
    have hrun : aliasType make? s written l = (t, l) := aliasType_of_get? hkept
    exact Growth.runs_of_eq hrun hl (making.refl l) (toldAlias_of_told hbody ht written)
  | none =>
    cases hbody : l.typeAliases.get? s with
    | none =>
      have hrun : aliasType make? s written l = build (·.anonymous written) l := by
        unfold aliasType
        simp only [get_bind, hkept, hbody]
      have hplain := unexpanded_told hl written fun L hL => .inl (by rwa [hL.typeAliases])
      exact Growth.runs_of_eq hrun hplain.good hplain.le hplain.post
    | some body =>
      cases make? with
      | none =>
        have hrun : aliasType none s written l = build (·.anonymous written) l := by
          unfold aliasType
          simp only [get_bind, hkept, hbody]
        have hplain := unexpanded_told hl written fun L hL => .inr (hcut rfl L hL)
        exact Growth.runs_of_eq hrun hplain.good hplain.le hplain.post
      | some make =>
        have hrun : aliasType (some make) s written l = _ := aliasType_of_expr hkept hbody
        rw [hrun] at horderly
        obtain ⟨hl₁, hle₁, ht⟩ := runs_expanding telling_count (fun _ _ _ hle h => h.mono hle) hl
          fun l' hl' hle' => hmake body make hbody rfl l' hl' hle'
        generalize expanding (make body) l = made at hrun horderly hl₁ hle₁ ht
        obtain ⟨t, l₁⟩ := made
        have hbody₁ : l₁.typeAliases.get? s = some body := by rwa [hle₁.2.typeAliases]
        have hle : making.Le l₁ { l₁ with aliasTypes := l₁.aliasTypes.insert s t } :=
          ⟨growth.refl _, { Keeps.refl _ with }⟩
        refine Growth.runs_of_eq hrun ⟨horderly, hl₁.2.array, hl₁.2.enums, fun {s' t'} hget => ?_⟩
          (making.trans hle₁ hle) ((toldAlias_of_told hbody₁ ht written).mono hle)
        obtain ⟨rfl, rfl⟩ | hget := Table.get?_insert_cases hget
        · exact ⟨body, hbody₁, ht.mono hle⟩
        · obtain ⟨body', hbody', ht'⟩ := hl₁.2.aliases hget
          exact ⟨body', hbody', ht'.mono hle⟩

/-- Where so many more type aliases may be put in place, so many are around this one, and all of these nest if
type aliases do. -/
def Expandable (depth : Nat) (L : Linking) (s : SymbolId) : Prop :=
  (L.AliasesNest → L.Nests depth s) ∧ ∃ n, n + depth = maxExpansion ∧ L.NestedIn n s

theorem expandable_outermost (L : Linking) (s : SymbolId) : Expandable maxExpansion L s :=
  ⟨fun hnest => hnest s, 0, Nat.zero_add _, .outermost s⟩

/-- What the expression of a type alias is made with is one level further in. -/
theorem Expandable.uses {depth : Nat} (h : Expandable (depth + 1) L s) {body : TypeExpr}
    (hbody : L.typeAliases.get? s = some body) : L.Uses (Expandable depth L) body := by
  obtain ⟨hnests, n, hn, hnested⟩ := h
  have hinner : L.Uses (fun s' => L.AliasesNest → L.Nests depth s') body := by
    by_cases hnest : L.AliasesNest
    · exact (hnests hnest body hbody).mono fun _ hs _ => hs
    · exact uses_of_forall (fun _ hs => absurd hs hnest) body
  refine uses_and (fun s' hs hmentions => ?_) body hinner (uses_mentions L body)
  exact ⟨hs, n + 1, by omega, .within hnested hbody hmentions⟩

/-- At every depth, type aliases for which there is room become types that references to them tell of. -/
theorem expandAlias_tells (depth : Nat) : ExpandsTelling E (Expandable depth) (expandAlias depth) := by
  induction depth with
  | zero =>
    intro s written l hl hroom
    have horderly := (expandAlias_expandsTo 0 s written l hl.1 fun L hL => (hroom L hL).1).good
    refine aliasType_tells hl horderly (fun _ L hL => ?_) (by simp)
    obtain ⟨-, n, rfl, hnested⟩ := hroom L hL
    exact hnested
  | succ depth ih =>
    intro s written l hl hroom
    have horderly := (expandAlias_expandsTo (depth + 1) s written l hl.1 fun L hL => (hroom L hL).1).good
    refine aliasType_tells hl horderly nofun ?_
    intro body make hbody hmake l' hl' hle'
    obtain rfl := Option.some.inj hmake
    have hin := hl.1.sound.tables.typeAliases body (Table.mem_values_of_get? hbody)
    refine materializeWith_tells ih hl' body (hin.mono hle'.1.1) fun L hL => ?_
    have hL' := hle'.2.trans hL
    exact (hroom L hL').uses (by rwa [hL'.typeAliases])

/-- **What is documented of a type is what its expression tells.** -/
theorem materialize_tells (hl : (relying (Telling E)).Good l) (he : e.Within l.extent) :
    (relying (Telling E)).Runs (materialize e) l (Told E e) :=
  materializeWith_tells (expandAlias_tells maxExpansion) hl e he
    fun L _ => uses_of_forall (expandable_outermost L) e

end Linking

end ApiDocs
