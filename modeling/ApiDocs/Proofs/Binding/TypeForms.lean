import ApiDocs.Proofs.Binding.Frames

/-!
# Forms of types

Types refer to each other by their positions. The form of a type is the tree that is found by going
through these references: the facts about the type, with the forms of its arguments and members. Two
types of one form are the same but for their positions.

Which form the type of an expression has can be said without going through the steps of linking: look
up the names in the end, when all of them are known, and put type aliases in place of their names. That
is `Linking.formOf`. Making types is more roundabout, since a type that was made once is used again, and
names become known on the way. In a program in which type aliases nest at most `maxExpansion` deep it comes
to the same.

## Main definitions

* `TypeForm`: the tree of a type.
* `GraphBuilder.HasForm`: a type has a form.
* `GraphBuilder.SameForm`: two types are the same but for their positions.
* `Linking.formOf`: the form of an expression.
* `Linking.Nests`: how deep a type alias is nested.
-/

namespace ApiDocs

/-- A type without the types that it is made of. -/
def TypeNode.facts (t : TypeNode) : TypeNode :=
  { t with typeArguments := [], constituents := [], constructSignatures := [] }

/-- What is found by going through the types that a type is made of. -/
inductive TypeForm where
  /-- A type that was there before, as of an enum. -/
  | given (t : TypeId)
  /-- The facts about a type, with the forms of its arguments and its members. -/
  | made (facts : TypeNode) (arguments members : List TypeForm)

/-! ## Types of a form -/

namespace GraphBuilder

variable {b b' : GraphBuilder} {t : TypeId} {f : TypeForm} {fs : List TypeForm} {ts : List TypeId}

mutual

/-- The type has the form. -/
def HasForm (b : GraphBuilder) : TypeForm → TypeId → Prop
  | .given t, id => id = t
  | .made facts arguments members, id => ∃ x, b.typeCore? id = some x ∧ x.facts = facts ∧
    HaveForms b arguments x.typeArguments ∧ HaveForms b members x.constituents

/-- The types have the forms, one by one. -/
def HaveForms (b : GraphBuilder) : List TypeForm → List TypeId → Prop
  | [], ids => ids = []
  | f :: fs, ids => ∃ id rest, ids = id :: rest ∧ HasForm b f id ∧ HaveForms b fs rest

end

theorem haveForms_cons : b.HaveForms (f :: fs) (t :: ts) ↔ b.HasForm f t ∧ b.HaveForms fs ts := by
  simp [HaveForms]

mutual

theorem Keeps.hasForm (h : b.Keeps b') : ∀ {f : TypeForm} {t : TypeId}, b.HasForm f t → b'.HasForm f t
  | .given _, _, ht => ht
  | .made _ _ _, _, ⟨x, hx, hfacts, harguments, hmembers⟩ =>
    ⟨x, h.type hx, hfacts, Keeps.haveForms h harguments, Keeps.haveForms h hmembers⟩

theorem Keeps.haveForms (h : b.Keeps b') :
    ∀ {fs : List TypeForm} {ts : List TypeId}, b.HaveForms fs ts → b'.HaveForms fs ts
  | [], _, hts => hts
  | _ :: _, _, ⟨id, rest, hids, hid, hrest⟩ => ⟨id, rest, hids, Keeps.hasForm h hid, Keeps.haveForms h hrest⟩

end

end GraphBuilder

/-! ## Forms -/

namespace TypeForm

variable (b : GraphBuilder)

/-- The display of a type of the form. -/
def display : TypeForm → String
  | given t => b.displayOf t
  | made facts _ _ => facts.display

/-- The display of a type of the form as part of a larger one. -/
def nestedDisplay : TypeForm → String
  | given t => b.nestedDisplay t
  | made facts _ _ => if facts.isCompound then "(" ++ facts.display ++ ")" else facts.display

/-- The displays of types of the forms between commas. -/
def listDisplay (fs : List TypeForm) : String := ", ".intercalate (fs.map (display b))

/-- A type that no other types are made into. -/
def plain (node : TypeNode) : TypeForm := made node [] []

/-- A keyword. -/
def keyword (flags : TypeFlags) (display : String) : TypeForm := plain { flags, display }

/-- The type of one literal. -/
def literal (value : Literal) : TypeForm :=
  plain {
    flags := match value with
      | .number _ => TypeFlags.numberLiteralBit
      | .text _ => TypeFlags.stringLiteralBit
    literal := some value
    display := value.display }

/-- A type that is known by its display only. -/
def anonymous (display : String) : TypeForm :=
  plain (GraphBuilder.objectNode ObjectFlags.anonymousBit display)

/-- A type parameter. -/
def parameter (symbol : SymbolId) : TypeForm :=
  plain { flags := TypeFlags.typeParameterBit, symbol := some symbol, display := b.nameOf symbol }

/-- The type `this`. -/
def this (owner : SymbolId) : TypeForm :=
  plain {
    flags := TypeFlags.typeParameterBit, symbol := some owner, isThisType := true, display := "this" }

/-- The type of the instances of a class or interface. -/
def instanceOf (symbol : SymbolId) : TypeForm :=
  let kind :=
    if (b.flagsOf symbol).has SymbolFlags.classBit then ObjectFlags.classBit
    else ObjectFlags.interfaceBit
  plain { GraphBuilder.objectNode kind (b.nameOf symbol) with symbol := some symbol }

/-- A class or interface with arguments. -/
def instantiation (symbol : SymbolId) (arguments : List TypeForm) : TypeForm :=
  made
    { GraphBuilder.objectNode ObjectFlags.referenceBit
        (b.nameOf symbol ++ "<" ++ listDisplay b arguments ++ ">") with
      symbol := some symbol
      targetName := some (b.nameOf symbol) }
    arguments []

/-- An array. -/
def array (element : TypeForm) : TypeForm :=
  made
    { GraphBuilder.objectNode ObjectFlags.referenceBit (element.nestedDisplay b ++ "[]") with
      symbol := some GraphBuilder.arraySymbol
      targetName := some "Array" }
    [element] []

/-- A union. -/
def union (members : List TypeForm) : TypeForm :=
  made
    { flags := TypeFlags.unionBit, display := " | ".intercalate (members.map (nestedDisplay b)) }
    [] members

/-- An intersection. -/
def intersection (members : List TypeForm) : TypeForm :=
  made
    { flags := TypeFlags.intersectionBit
      display := " & ".intercalate (members.map (nestedDisplay b)) }
    [] members

/-- A tuple. -/
def tuple (elements : List TypeForm) : TypeForm :=
  made
    (GraphBuilder.objectNode (ObjectFlags.referenceBit ∪ ObjectFlags.tupleBit)
      ("[" ++ listDisplay b elements ++ "]"))
    elements []

/-- A class or interface with arguments, if there are any. The library's `Array` of one argument is the
type of arrays. -/
def instantiate (symbol : SymbolId) : List TypeForm → TypeForm
  | [] => instanceOf b symbol
  | [element] =>
    if symbol = GraphBuilder.arraySymbol then array b element
    else instantiation b symbol [element]
  | arguments => instantiation b symbol arguments

end TypeForm

namespace GraphBuilder

variable {b : GraphBuilder} {t : TypeId} {f : TypeForm} {fs : List TypeForm} {ts : List TypeId}

theorem HasForm.displayOf_eq (h : b.HasForm f t) : b.displayOf t = f.display b := by
  cases f with
  | given t' =>
    rw [HasForm] at h
    rw [h, TypeForm.display]
  | made facts arguments members =>
    rw [HasForm] at h
    obtain ⟨x, hx, rfl, -⟩ := h
    rw [displayOf_eq_core, hx]
    rfl

theorem HasForm.nestedDisplay_eq (h : b.HasForm f t) : b.nestedDisplay t = f.nestedDisplay b := by
  cases f with
  | given t' =>
    rw [HasForm] at h
    rw [h, TypeForm.nestedDisplay]
  | made facts arguments members =>
    rw [HasForm] at h
    obtain ⟨x, hx, rfl, -⟩ := h
    rw [nestedDisplay_eq_core, hx]
    rfl

/-- The types have a form in common: they are the same but for their positions. -/
def SameForm (b : GraphBuilder) (t t' : TypeId) : Prop :=
  ∃ f, b.HasForm f t ∧ b.HasForm f t'

theorem SameForm.displayOf_eq {t' : TypeId} (h : b.SameForm t t') : b.displayOf t = b.displayOf t' := by
  obtain ⟨f, ht, ht'⟩ := h
  rw [ht.displayOf_eq, ht'.displayOf_eq]

/-- A type that no other types are made into has its node. -/
theorem HasForm.typeCore?_eq {node : TypeNode} (h : b.HasForm (.plain node) t) :
    b.typeCore? t = some node := by
  simp only [TypeForm.plain, HasForm, HaveForms] at h
  obtain ⟨x, hx, rfl, harguments, hmembers⟩ := h
  obtain ⟨y, -, rfl⟩ := Option.map_eq_some_iff.mp hx
  rw [hx]
  simp_all [TypeNode.facts, TypeNode.core]

theorem HaveForms.map_eq {α : Type} {p : TypeId → α} {q : TypeForm → α}
    (hpq : ∀ {f t}, b.HasForm f t → p t = q f) (h : b.HaveForms fs ts) : ts.map p = fs.map q := by
  induction fs generalizing ts with
  | nil =>
    rw [HaveForms] at h
    simp [h]
  | cons f fs ih =>
    rw [HaveForms] at h
    obtain ⟨t, rest, rfl, ht, hrest⟩ := h
    rw [List.map_cons, List.map_cons, hpq ht, ih hrest]

end GraphBuilder

/-! ## Forms of expressions -/

namespace Linking

section Spec

variable (L : Linking)

/-- The symbol that a name stands for. -/
def target? (ref : NameRef) : Option SymbolId := (L.lookup? ref).map (followAlias L.builder)

mutual

/-- The form of an expression, given the forms of type aliases. -/
def formWith (expand : SymbolId → String → TypeForm) : TypeExpr → TypeForm
  | .keyword k => .keyword k.flags k.word
  | .text v => .literal (.text v)
  | .number v => .literal (.number v)
  | .boolean v => .keyword TypeFlags.booleanLiteralBit (booleanText v)
  | .reference name ref arguments =>
    match L.target? ref with
    | none => .anonymous name
    | some s =>
      match L.meaningOf s with
      | .known t => .given t
      | .instantiable => .instantiate L.builder s (formsWith expand arguments)
      | .parameter => .parameter L.builder s
      | .expandable => expand s name
      | .value => .anonymous name
  | .instanceOf s => .instanceOf L.builder s
  | .array e => .array L.builder (formWith expand e)
  | .union es => .union L.builder (formsWith expand es)
  | .intersection es => .intersection L.builder (formsWith expand es)
  | .tuple es => .tuple L.builder (formsWith expand es)
  | .this (some owner) => .this owner
  | .this none => .keyword TypeFlags.anyBit "any"
  | .verbatim written => .anonymous written

/-- The forms of expressions. -/
def formsWith (expand : SymbolId → String → TypeForm) : List TypeExpr → List TypeForm
  | [] => []
  | e :: es => formWith expand e :: formsWith expand es

end

/-- The form of a type alias, given its name as written; at most so many are put in place within each
other. -/
def aliasForm : Nat → SymbolId → String → TypeForm
  | 0, _, name => .anonymous name
  | depth + 1, s, name =>
    match L.typeAliases.get? s with
    | none => .anonymous name
    | some e => L.formWith (aliasForm depth) e

/-- The form of an expression. -/
def formOf (e : TypeExpr) : TypeForm := L.formWith (L.aliasForm maxExpansion) e

/-- The forms of expressions. -/
def formsOf (es : List TypeExpr) : List TypeForm := L.formsWith (L.aliasForm maxExpansion) es

mutual

/-- The type aliases that the type of an expression is made with are in `P`. Those in the arguments of
another type alias do not count. -/
def Uses (P : SymbolId → Prop) : TypeExpr → Prop
  | .reference _ ref arguments =>
    match L.target? ref with
    | none => True
    | some s =>
      match L.meaningOf s with
      | .instantiable => AllUse P arguments
      | .expandable => P s
      | _ => True
  | .array e => Uses P e
  | .union es => AllUse P es
  | .intersection es => AllUse P es
  | .tuple es => AllUse P es
  | _ => True

/-- The type aliases that the types of expressions are made with are in `P`. -/
def AllUse (P : SymbolId → Prop) : List TypeExpr → Prop
  | [] => True
  | e :: es => Uses P e ∧ AllUse P es

end

/-- At most so many type aliases stand within each other, from this one on. -/
def Nests : Nat → SymbolId → Prop
  | 0, s => L.typeAliases.get? s = none
  | depth + 1, s => ∀ e ∈ L.typeAliases.get? s, L.Uses (Nests depth) e

/-- No type alias leads back to itself, and none is nested deeper than types are expanded. -/
def AliasesNest : Prop := ∀ s, L.Nests maxExpansion s

/-- The form of the expression does not hang on where expansion is cut off: there are no type aliases in
it, or all of them nest. -/
def Determined (e : TypeExpr) : Prop := L.AliasesNest ∨ L.Uses (fun _ => False) e

/-- The type aliases nest, and so do those that they are made with. -/
structure Relied (R : SymbolId → Prop) : Prop where
  nests : ∀ s, R s → L.Nests maxExpansion s
  uses : ∀ s, R s → ∀ e ∈ L.typeAliases.get? s, L.Uses R e

/-- Where `depth` more type aliases may stand within each other, from this one on, those in `R` are put in
place as a whole, or not at all. -/
def LeavesRoom (R : SymbolId → Prop) : Nat → SymbolId → Prop
  | 0, _ => True
  | depth + 1, s =>
    (R s → L.Nests (depth + 1) s) ∧ ∀ e ∈ L.typeAliases.get? s, L.Uses (LeavesRoom R depth) e

end Spec

section

variable {L : Linking} {P Q : SymbolId → Prop} {F F' : SymbolId → String → TypeForm}

theorem formsWith_eq_map (F : SymbolId → String → TypeForm) (es : List TypeExpr) :
    L.formsWith F es = es.map (L.formWith F) := by
  induction es with
  | nil => rw [formsWith, List.map_nil]
  | cons e es ih => rw [formsWith, List.map_cons, ih]

theorem allUse_iff {es : List TypeExpr} : L.AllUse P es ↔ ∀ e ∈ es, L.Uses P e := by
  induction es with
  | nil => simp [AllUse]
  | cons e es ih => rw [AllUse, ih, List.forall_mem_cons]

mutual

theorem formWith_congr (h : ∀ s name, P s → F s name = F' s name) :
    ∀ e : TypeExpr, L.Uses P e → L.formWith F e = L.formWith F' e
  | .reference name ref arguments, hu => by
    rw [Uses] at hu
    rw [formWith, formWith]
    cases ht : L.target? ref with
    | none => rfl
    | some s =>
      cases hm : L.meaningOf s with
      | instantiable =>
        simp only [ht, hm] at hu ⊢
        rw [formsWith_congr h arguments hu]
      | expandable =>
        simp only [ht, hm] at hu ⊢
        exact h s name hu
      | known t => simp only [hm]
      | parameter => simp only [hm]
      | value => simp only [hm]
  | .array e, hu => by
    rw [Uses] at hu
    rw [formWith, formWith, formWith_congr h e hu]
  | .union es, hu => by
    rw [Uses] at hu
    rw [formWith, formWith, formsWith_congr h es hu]
  | .intersection es, hu => by
    rw [Uses] at hu
    rw [formWith, formWith, formsWith_congr h es hu]
  | .tuple es, hu => by
    rw [Uses] at hu
    rw [formWith, formWith, formsWith_congr h es hu]
  | .keyword _, _ | .text _, _ | .number _, _ | .boolean _, _ | .instanceOf _, _
  | .this (some _), _ | .this none, _ | .verbatim _, _ => by rw [formWith, formWith]

theorem formsWith_congr (h : ∀ s name, P s → F s name = F' s name) :
    ∀ es : List TypeExpr, L.AllUse P es → L.formsWith F es = L.formsWith F' es
  | [], _ => by rw [formsWith, formsWith]
  | e :: es, hu => by
    rw [AllUse] at hu
    rw [formsWith, formsWith, formWith_congr h e hu.1, formsWith_congr h es hu.2]

end

/-! ### Uses of type aliases -/

section

variable {C : (SymbolId → Prop) → Prop} {P Q T : SymbolId → Prop}

mutual

/-- What is used is in `T` if it is in all sets of `C`, and `T` holds what these have in common. -/
theorem uses_of_all (h : ∀ s, (∀ P, C P → P s) → T s) :
    ∀ e : TypeExpr, (∀ P, C P → L.Uses P e) → L.Uses T e
  | .reference name ref arguments, hu => by
    simp only [Uses] at hu ⊢
    cases ht : L.target? ref with
    | none => trivial
    | some s =>
      cases hm : L.meaningOf s with
      | instantiable =>
        simp only [ht, hm] at hu ⊢
        exact allUse_of_all h arguments hu
      | expandable =>
        simp only [ht, hm] at hu ⊢
        exact h s hu
      | known t => simp only [hm]
      | parameter => simp only [hm]
      | value => simp only [hm]
  | .array e, hu => by
    simp only [Uses] at hu ⊢
    exact uses_of_all h e hu
  | .union es, hu | .intersection es, hu | .tuple es, hu => by
    simp only [Uses] at hu ⊢
    exact allUse_of_all h es hu
  | .keyword _, _ | .text _, _ | .number _, _ | .boolean _, _ | .instanceOf _, _ | .this _, _
  | .verbatim _, _ => by simp [Uses]

theorem allUse_of_all (h : ∀ s, (∀ P, C P → P s) → T s) :
    ∀ es : List TypeExpr, (∀ P, C P → L.AllUse P es) → L.AllUse T es
  | [], _ => by rw [AllUse]; trivial
  | e :: es, hu => by
    simp only [AllUse] at hu ⊢
    exact ⟨uses_of_all h e fun P hP => (hu P hP).1, allUse_of_all h es fun P hP => (hu P hP).2⟩

end

theorem uses_of_forall (h : ∀ s, P s) (e : TypeExpr) : L.Uses P e :=
  uses_of_all (C := fun _ => False) (fun s _ => h s) e fun _ => False.elim

theorem allUse_of_forall (h : ∀ s, P s) (es : List TypeExpr) : L.AllUse P es :=
  allUse_of_all (C := fun _ => False) (fun s _ => h s) es fun _ => False.elim

/-- What is used is in `T` if it is in `P` and in `Q`. -/
theorem uses_and (h : ∀ s, P s → Q s → T s) (e : TypeExpr) (hp : L.Uses P e) (hq : L.Uses Q e) :
    L.Uses T e :=
  uses_of_all (C := fun X => X = P ∨ X = Q) (fun s hs => h s (hs P (.inl rfl)) (hs Q (.inr rfl))) e
    fun _ hX => hX.elim (· ▸ hp) (· ▸ hq)

theorem Uses.mono {e : TypeExpr} (he : L.Uses P e) (h : ∀ s, P s → Q s) : L.Uses Q e :=
  uses_of_all (C := (· = P)) (fun s hs => h s (hs P rfl)) e fun _ hX => hX ▸ he

theorem AllUse.mono {es : List TypeExpr} (hes : L.AllUse P es) (h : ∀ s, P s → Q s) : L.AllUse Q es :=
  allUse_of_all (C := (· = P)) (fun s hs => h s (hs P rfl)) es fun _ hX => hX ▸ hes

end

/-- The type of the expression is made with the type alias. -/
def Mentions (L : Linking) (e : TypeExpr) (s : SymbolId) : Prop := ∀ P : SymbolId → Prop, L.Uses P e → P s

theorem uses_mentions (L : Linking) (e : TypeExpr) : L.Uses (L.Mentions e) e :=
  uses_of_all (C := fun P => L.Uses P e) (fun _ => id) e fun _ => id

theorem Nests.mono {depth depth' : Nat} {s : SymbolId} (hs : L.Nests depth s) (hle : depth ≤ depth') :
    L.Nests depth' s := by
  induction depth generalizing depth' s with
  | zero =>
    rw [Nests] at hs
    cases depth' with
    | zero => exact hs
    | succ depth' =>
      intro e he
      rw [hs] at he
      cases he
  | succ depth ih =>
    obtain ⟨k, rfl⟩ : ∃ k, depth' = k + 1 := ⟨depth' - 1, by omega⟩
    intro e he
    exact (hs e he).mono fun _ hn => ih hn (by omega)

/-- What nests leaves room, whatever is relied on. -/
theorem Nests.leavesRoom {depth : Nat} {s : SymbolId} (hs : L.Nests depth s) (R : SymbolId → Prop) :
    L.LeavesRoom R depth s := by
  induction depth generalizing s with
  | zero => trivial
  | succ depth ih => exact ⟨fun _ => hs, fun e he => (hs e he).mono fun _ => ih⟩

/-- A type alias that nests is put in place as a whole wherever there is room for it. -/
theorem aliasForm_eq {depth depth' : Nat} {s : SymbolId} (name : String) (hs : L.Nests depth s)
    (hle : depth ≤ depth') : L.aliasForm depth' s name = L.aliasForm depth s name := by
  induction depth generalizing depth' s name with
  | zero =>
    rw [Nests] at hs
    cases depth' with
    | zero => rfl
    | succ depth' => rw [aliasForm, aliasForm, hs]
  | succ depth ih =>
    obtain ⟨k, rfl⟩ : ∃ k, depth' = k + 1 := ⟨depth' - 1, by omega⟩
    rw [Nests] at hs
    rw [aliasForm, aliasForm]
    cases he : L.typeAliases.get? s with
    | none => rfl
    | some e =>
      have hle' : depth ≤ k := by omega
      exact formWith_congr (P := L.Nests depth) (fun _ name hs => ih name hs hle') e (hs e he)

/-- The form of a type alias that nests is that of its expression. -/
theorem Nests.aliasForm_eq_formOf {s : SymbolId} (hs : L.Nests maxExpansion s) {e : TypeExpr}
    (he : L.typeAliases.get? s = some e) (name : String) :
    L.aliasForm maxExpansion s name = L.formOf e := by
  have huses : L.Uses (L.Nests 15) e := hs e he
  have hroom : L.formWith (L.aliasForm 15) e = L.formOf e :=
    formWith_congr (P := L.Nests 15) (fun _ name hs => (aliasForm_eq name hs (by decide)).symm) e huses
  rw [maxExpansion, aliasForm, he]
  exact hroom

end

end Linking

end ApiDocs
