import ApiDocs.Proofs.Binding.AliasMemo
import ApiDocs.Proofs.Binding.AliasSubstitution

/-!
# What is made of references to type aliases

A reference to a type alias is to become the type of the expression of the alias, with the arguments of the
reference in place of the type parameters. For classes, interfaces and arrays linking makes types of the
arguments; where it comes to a type alias, it drops them. So a reference gets the type of the expression as
it stands: type parameters show outside of their alias, and all references to one alias have types of one
form. Where the arguments make no difference this is the right type, and nowhere else.

All this is said of every type alias that nests within the limit of expansion, whatever other type aliases
there are. These matter only in one way. Where one of them that is circular, or nested too deep, was
expanded before, it may have led to an alias without room for all of it, and what is kept of that alias
was cut off.

## Main definitions

* `Linking.Reached`: the type aliases that an expression leads to.
* `Linking.MadeWithRoom`: a type was made in a run of linking in which there was room for them.
* `Linking.SpellsOut`: an expression with expressions of type aliases in place of references.
* `Linking.ExpandsAliases`: what the types of references to type aliases are, and where this is right.

## Main results

* `Linking.expandsAliases`: so it is in every run of linking, for type aliases that nest.
* `Linking.box_not_substituted`: `Box<string>` is not `string[]`.
-/

namespace ApiDocs.Linking

variable {start l L : Linking} {P : SymbolId → Prop} {s : SymbolId} {t : TypeId} {e e' body : TypeExpr}
  {es : List TypeExpr} {ref : NameRef}

/-! ## Where an expression leads -/

/-- The type of the expression is made with the type alias, or with others that lead to it. -/
inductive Reached (L : Linking) (e : TypeExpr) : SymbolId → Prop where
  | mentioned {s : SymbolId} : L.Mentions e s → Reached L e s
  | through {s s' : SymbolId} {body : TypeExpr} : Reached L e s → L.typeAliases.get? s = some body →
    L.Mentions body s' → Reached L e s'

/-- If the type aliases of an expression nest, so do all that it leads to: by induction on the way. -/
theorem Reached.nests {depth : Nat} (hs : L.Reached e s) (h : L.Uses (L.Nests depth) e) : L.Nests depth s := by
  induction hs with
  | mentioned hs => exact hs _ h
  | through _ hbody hs ih =>
    cases depth with
    | zero =>
      rw [Nests] at ih
      rw [ih] at hbody
      cases hbody
    | succ depth => exact (hs _ (ih _ hbody)).mono (Nat.le_succ depth)

theorem Reached.of_mentions (hs : L.Reached e' s) (h : ∀ s, L.Mentions e' s → L.Reached e s) : L.Reached e s := by
  induction hs with
  | mentioned hs => exact h _ hs
  | through _ hbody hs ih => exact .through ih hbody hs

/-- What a part of an expression leads to, the whole expression leads to. -/
theorem Reached.of_part (hs : L.Reached e' s) (h : ∀ P : SymbolId → Prop, L.Uses P e → L.Uses P e') :
    L.Reached e s := hs.of_mentions fun _ hs => .mentioned fun P hP => hs P (h P hP)

theorem relied_reached (h : L.Uses (L.Nests maxExpansion) e) : L.Relied (L.Reached e) where
  nests _ hs := hs.nests h
  uses _ hs body hbody := (uses_mentions L body).mono fun _ => .through hs hbody

/-- The type was made of the expression in a run of linking from `start`, and every expression before left
room for the type aliases that this one leads to. -/
inductive MadeWithRoom (start L : Linking) (e : TypeExpr) : TypeId → Prop where
  | intro {es : List TypeExpr} {l : Linking} : start.Made es l → e.Within l.extent →
    (materialize e l).2.Keeps L → (∀ e' ∈ es, L.Uses (L.LeavesRoom (L.Reached e) maxExpansion) e') →
    MadeWithRoom start L e (materialize e l).1

/-- There is room where only type aliases that nest were expanded before. -/
theorem madeWithRoom_of_nests (hrun : start.Made es l) (he : e.Within l.extent)
    (hL : (materialize e l).2.Keeps L) (hnest : ∀ e' ∈ es, L.Uses (L.Nests maxExpansion) e') :
    start.MadeWithRoom L e (materialize e l).1 :=
  .intro hrun he hL fun e' he' => (hnest e' he').mono fun _ hs => hs.leavesRoom _

/-- With that room, the type has the form of the expression. -/
theorem MadeWithRoom.hasForm (h : start.MadeWithRoom L e t) (hstart : start.Orderly)
    (hempty : start.aliasTypes = .empty) (hnest : L.Uses (L.Nests maxExpansion) e) :
    L.builder.HasForm (L.formOf e) t := by
  obtain ⟨hrun, he, hL, hroom⟩ := h
  have huses : L.Uses (L.Reached e) e := (uses_mentions L e).mono fun _ => .mentioned
  exact hrun.hasForm hstart hempty he hL (relied_reached hnest) huses hroom

theorem MadeWithRoom.enumTypes (h : start.MadeWithRoom L e t) (hstart : start.Orderly) {t' : TypeId}
    (hs : L.enumTypes.get? s = some t') :
    ∃ x, L.builder.typeCore? t' = some x ∧ (x.symbol = some s ∨ x = numberNode) := by
  obtain ⟨hrun, he, hL, -⟩ := h
  have hmade := materialize_takesForm (hrun.keeps hstart).1 he
  rw [hL.enumTypes] at hs
  obtain ⟨x, hx, hsymbol⟩ := hmade.good.enumTypes hs
  exact ⟨x, hL.builder.type hx, hsymbol⟩

/-! ## Expressions in place of references -/

/-- The second expression is the first one, but for references to type aliases, in place of which the
expressions of the aliases stand. -/
inductive SpellsOut (L : Linking) : TypeExpr → TypeExpr → Prop where
  | refl (e : TypeExpr) : SpellsOut L e e
  | trans {e e' e'' : TypeExpr} : SpellsOut L e e' → SpellsOut L e' e'' → SpellsOut L e e''
  | body {written : String} {ref : NameRef} {arguments : List TypeExpr} {s : SymbolId} {body : TypeExpr} :
    L.RefersTo ref s → L.typeAliases.get? s = some body → SpellsOut L (.reference written ref arguments) body
  | argument {written : String} {ref : NameRef} {before after : List TypeExpr} {e e' : TypeExpr} :
    SpellsOut L e e' → SpellsOut L (.reference written ref (before ++ e :: after))
      (.reference written ref (before ++ e' :: after))
  | array {e e' : TypeExpr} : SpellsOut L e e' → SpellsOut L (.array e) (.array e')
  | union {before after : List TypeExpr} {e e' : TypeExpr} : SpellsOut L e e' →
    SpellsOut L (.union (before ++ e :: after)) (.union (before ++ e' :: after))
  | intersection {before after : List TypeExpr} {e e' : TypeExpr} : SpellsOut L e e' →
    SpellsOut L (.intersection (before ++ e :: after)) (.intersection (before ++ e' :: after))
  | tuple {before after : List TypeExpr} {e e' : TypeExpr} : SpellsOut L e e' →
    SpellsOut L (.tuple (before ++ e :: after)) (.tuple (before ++ e' :: after))

/-- The form of a reference to a type alias is that of its expression. -/
theorem RefersTo.formOf_eq (h : L.RefersTo ref s) (hnest : L.Nests maxExpansion s)
    (hbody : L.typeAliases.get? s = some body) (written : String) (arguments : List TypeExpr) :
    L.formOf (.reference written ref arguments) = L.formOf body := by
  obtain ⟨htarget, hmeaning, -⟩ := h
  rw [← hnest.aliasForm_eq_formOf hbody written, formOf, formWith]
  simp only [htarget, hmeaning]

/-- Among other expressions, one may be replaced by one of the same form that uses the same. -/
theorem replace_formsWith {F : SymbolId → String → TypeForm} {before after : List TypeExpr}
    (h : L.Uses P e → L.formWith F e' = L.formWith F e ∧ L.Uses P e')
    (huses : L.AllUse P (before ++ e :: after)) :
    L.formsWith F (before ++ e' :: after) = L.formsWith F (before ++ e :: after) ∧
      L.AllUse P (before ++ e' :: after) := by
  simp only [allUse_iff, List.forall_mem_append, List.forall_mem_cons] at huses ⊢
  obtain ⟨hbefore, he, hafter⟩ := huses
  refine ⟨?_, hbefore, (h he).2, hafter⟩
  simp only [formsWith_eq_map, List.map_append, List.map_cons, (h he).1]

/-- Nothing changes if type aliases that nest are spelled out: by induction on where they stand. -/
theorem SpellsOut.formOf_eq (h : L.SpellsOut e e') (hnest : L.Uses (L.Nests maxExpansion) e) :
    L.formOf e' = L.formOf e ∧ L.Uses (L.Nests maxExpansion) e' := by
  simp only [formOf]
  induction h with
  | refl e => exact ⟨rfl, hnest⟩
  | trans _ _ ih ih' =>
    obtain ⟨hform, hnest'⟩ := ih hnest
    exact ⟨(ih' hnest').1.trans hform, (ih' hnest').2⟩
  | body href hbody =>
    have hs := href.uses_iff.mp hnest
    have huses : L.Uses (L.Nests 15) _ := hs _ hbody
    exact ⟨(href.formOf_eq hs hbody _ _).symm, huses.mono fun _ hn => hn.mono (by decide)⟩
  | @argument written ref before after e e' _ ih =>
    simp only [formWith, Uses] at hnest ⊢
    cases htarget : L.target? ref with
    | none => simp only [and_self]
    | some s =>
      -- Only the arguments of a class or interface have a part in the type.
      cases hmeaning : L.meaningOf s with
      | instantiable =>
        simp only [htarget, hmeaning] at hnest ⊢
        obtain ⟨hforms, huses⟩ := replace_formsWith ih hnest
        exact ⟨by rw [hforms], huses⟩
      | expandable =>
        simp only [htarget, hmeaning, true_and] at hnest ⊢
        exact hnest
      | known t => simp only [hmeaning, and_self]
      | parameter => simp only [hmeaning, and_self]
      | value => simp only [hmeaning, and_self]
  | array _ ih =>
    simp only [formWith, Uses] at hnest ⊢
    exact ⟨by rw [(ih hnest).1], (ih hnest).2⟩
  | union _ ih | intersection _ ih | tuple _ ih =>
    simp only [formWith, Uses] at hnest ⊢
    obtain ⟨hforms, huses⟩ := replace_formsWith ih hnest
    exact ⟨by rw [hforms], huses⟩

/-! ## References -/

variable {parameters : SymbolId → List SymbolId} {depth : Nat} {p : SymbolId} {f : TypeForm}

/-- Nothing is put in place of type parameters where no type alias has any: by induction on where they
show. -/
theorem Puts.eq_parameter {σ : SymbolId → TypeForm} (h : L.Puts parameters depth σ e p f)
    (hσ : σ = .parameter L.builder) (hnone : ∀ s, L.Reached e s → parameters s = []) :
    f = .parameter L.builder p := by
  induction h with
  | parameter _ _ => rw [hσ]
  | argument htarget hmeaning he _ ih =>
    refine ih hσ fun s hs => hnone s (hs.of_part fun P hP => ?_)
    simp only [Uses, htarget, hmeaning] at hP
    exact allUse_iff.mp hP _ he
  | @body depth σ written ref arguments s body p f htarget hmeaning hbody _ ih =>
    have hmentions : L.Mentions (.reference written ref arguments) s := fun P hP => by
      simpa only [Uses, htarget, hmeaning] using hP
    refine ih ?_ fun s hs => hnone s (hs.of_mentions fun _ => .through (.mentioned hmentions) hbody)
    funext p
    rw [bindArguments, hnone s (.mentioned hmentions)]
    rfl
  | array _ ih =>
    refine ih hσ fun s hs => hnone s (hs.of_part fun P hP => ?_)
    simpa only [Uses] using hP
  | union he _ ih | intersection he _ ih | tuple he _ ih =>
    refine ih hσ fun s hs => hnone s (hs.of_part fun P hP => ?_)
    simp only [Uses] at hP
    exact allUse_iff.mp hP _ he

theorem keepsParameters_of_none (h : ∀ s, L.Reached e s → parameters s = []) :
    L.KeepsParameters parameters e := fun _ _ hputs => hputs.eq_parameter rfl h

/-- What the types of expressions with references to type aliases are, for type aliases that nest. Their
arguments are lost, and with them the right type, unless they make no difference. -/
structure ExpandsAliases (start L : Linking) : Prop where
  /-- The type is the right one, with arguments in place of type parameters, just if every type parameter
  that shows is put in its own place. -/
  substituted : ∀ {e t} (parameters : SymbolId → List SymbolId), L.Uses (L.Nests maxExpansion) e →
    start.MadeWithRoom L e t →
    (L.builder.HasForm (L.substOf parameters e) t ↔ L.KeepsParameters parameters e)
  /-- So the type is the right one where no type alias has type parameters. -/
  plain : ∀ {e t} {parameters : SymbolId → List SymbolId}, L.Uses (L.Nests maxExpansion) e →
    start.MadeWithRoom L e t → (∀ s, L.Reached e s → parameters s = []) →
    L.builder.HasForm (L.substOf parameters e) t
  /-- In any case the type of a reference has the form of the expression of the alias. -/
  reference : ∀ {written ref arguments s body t}, L.RefersTo ref s → L.Nests maxExpansion s →
    L.typeAliases.get? s = some body → start.MadeWithRoom L (.reference written ref arguments) t →
    L.builder.HasForm (L.formOf body) t
  /-- So it is where references stand in larger expressions. -/
  inside : ∀ {e e' t}, L.Uses (L.Nests maxExpansion) e → L.SpellsOut e e' → start.MadeWithRoom L e t →
    L.builder.HasForm (L.formOf e') t
  /-- What is spelled out has the same type. -/
  spelled : ∀ {e e' t t'}, L.Uses (L.Nests maxExpansion) e → L.SpellsOut e e' →
    start.MadeWithRoom L e t → start.MadeWithRoom L e' t' → L.builder.SameForm t t'
  /-- Two references to one alias have the same type, though their arguments may differ. -/
  references : ∀ {written written' ref ref' arguments arguments' s t t'}, L.RefersTo ref s →
    L.RefersTo ref' s → L.Nests maxExpansion s → start.MadeWithRoom L (.reference written ref arguments) t →
    start.MadeWithRoom L (.reference written' ref' arguments') t' → L.builder.SameForm t t'

/-- **Arguments of type aliases are lost, and types are right where these make no difference**, in every run
of linking from a state in which no type alias has a type. -/
theorem expandsAliases (hstart : start.Orderly) (hempty : start.aliasTypes = .empty) :
    start.ExpandsAliases L := by
  have hinside : ∀ {e e' t}, L.Uses (L.Nests maxExpansion) e → L.SpellsOut e e' →
      start.MadeWithRoom L e t → L.builder.HasForm (L.formOf e') t := by
    intro e e' t hnest hspells hmade
    rw [(hspells.formOf_eq hnest).1]
    exact hmade.hasForm hstart hempty hnest
  have hreference : ∀ {written ref arguments s body t}, L.RefersTo ref s → L.Nests maxExpansion s →
      L.typeAliases.get? s = some body → start.MadeWithRoom L (.reference written ref arguments) t →
      L.builder.HasForm (L.formOf body) t := fun href hnest hbody hmade =>
    hinside (href.uses_iff.mpr hnest) (.body href hbody) hmade
  have hsubstituted : ∀ {e t} (parameters : SymbolId → List SymbolId), L.Uses (L.Nests maxExpansion) e →
      start.MadeWithRoom L e t →
      (L.builder.HasForm (L.substOf parameters e) t ↔ L.KeepsParameters parameters e) :=
    fun parameters hnest hmade =>
      hasForm_substOf_iff (hmade.enumTypes hstart) (hmade.hasForm hstart hempty hnest)
  refine ⟨hsubstituted, ?_, hreference, hinside, ?_, ?_⟩
  · intro e t parameters hnest hmade hnone
    exact (hsubstituted parameters hnest hmade).mpr (keepsParameters_of_none hnone)
  · intro e e' t t' hnest hspells ht ht'
    exact ⟨_, hinside hnest hspells ht, ht'.hasForm hstart hempty (hspells.formOf_eq hnest).2⟩
  · intro written written' ref ref' arguments arguments' s t t' href href' hnest ht ht'
    obtain ⟨body, hbody⟩ := Option.isSome_iff_exists.mp href.2.2
    exact ⟨_, hreference href hnest hbody ht, hreference href' hnest hbody ht'⟩

/-! ## Arrays under another name -/

/-- The symbols of two type aliases with a type parameter each, and of one that is circular. -/
def boxCalls : List BuilderCall := [
  .addModule "a.ts", .addSymbol "Box" SymbolFlags.typeAliasBit,
  .addSymbol "T" SymbolFlags.typeParameterBit, .addSymbol "Tag" SymbolFlags.typeAliasBit,
  .addSymbol "U" SymbolFlags.typeParameterBit, .addSymbol "Loop" SymbolFlags.typeAliasBit]

/-- The expression `T[]` of the type alias `Box<T>`. -/
def boxBody : TypeExpr := .array (.reference "T" (.bound ⟨1, 1, "T"⟩) [])

/-- The expression `number[]` of the type alias `Tag<U>`. -/
def tagBody : TypeExpr := .array (.keyword .number)

/-- The type aliases, `Box<T>` for `T[]`, `Tag<U>` for `number[]` and `Loop` for `Loop[]`, and the type
parameters are known, and no types were made yet. -/
def boxing : Linking where
  builder := (GraphBuilder.start.runAll? boxCalls).getD {}
  modules := .empty
  locals := .ofList [(⟨1, 0, "Box"⟩, ⟨2⟩), (⟨1, 1, "T"⟩, ⟨3⟩), (⟨1, 0, "Tag"⟩, ⟨4⟩), (⟨1, 2, "U"⟩, ⟨5⟩),
    (⟨1, 0, "Loop"⟩, ⟨6⟩)]
  globals := .ofList [("Array", GraphBuilder.arraySymbol)]
  typeAliases := .ofList [(⟨2⟩, boxBody), (⟨4⟩, tagBody), (⟨6⟩, .array circular)]

/-- The type parameters of the type aliases. -/
def boxParameters (s : SymbolId) : List SymbolId :=
  if s = ⟨2⟩ then [⟨3⟩] else if s = ⟨4⟩ then [⟨5⟩] else []

/-- The name of the type alias. -/
def boxRef : NameRef := .bound ⟨1, 0, "Box"⟩

@[inherit_doc boxRef]
def tagRef : NameRef := .bound ⟨1, 0, "Tag"⟩

/-- The type alias with an argument. -/
def boxOf (argument : TypeExpr) : TypeExpr := .reference "Box" boxRef [argument]

@[inherit_doc boxOf]
def tagOf (argument : TypeExpr) : TypeExpr := .reference "Tag" tagRef [argument]

/-- The types `Box<string>`, `Box<number>`, `Tag<string>` and `string[]` are made, in this order. -/
def boxedString : TypeId × Linking := materialize (boxOf (.keyword .string)) boxing

@[inherit_doc boxedString]
def boxedNumber : TypeId × Linking := materialize (boxOf (.keyword .number)) boxedString.2

@[inherit_doc boxedString]
def taggedString : TypeId × Linking := materialize (tagOf (.keyword .string)) boxedNumber.2

@[inherit_doc boxedString]
def stringArray : TypeId × Linking := materialize (.array (.keyword .string)) taggedString.2

theorem boxing_blank : boxing.Blank := by
  refine blank_of_valid (by decide) ?_ (by decide) (by simp) (by decide)
    (by decide) (Table.forall_values_ofList fun x hx => ?_)
  · change 0 < boxing.builder.graph.symbols.size
    decide
  · obtain rfl | rfl | rfl : x = (⟨2⟩, boxBody) ∨ x = (⟨4⟩, tagBody) ∨ x = (⟨6⟩, .array circular) := by
      simpa using hx
    · simp [boxBody, TypeExpr.Within, TypeExpr.AllWithin]
    · simp [tagBody, TypeExpr.Within]
    · exact circular_within _

theorem boxing_orderly : boxing.Orderly := boxing_blank.prepared.orderly

theorem boxOf_keyword_within (k : TypeScript.KeywordType) (l : Linking) :
    (boxOf (.keyword k)).Within l.extent := by
  simp [boxOf, boxRef, TypeExpr.Within, TypeExpr.AllWithin]

theorem tagOf_keyword_within (k : TypeScript.KeywordType) (l : Linking) :
    (tagOf (.keyword k)).Within l.extent := by
  simp [tagOf, tagRef, TypeExpr.Within, TypeExpr.AllWithin]

theorem boxedString_made : boxing.Made [boxOf (.keyword .string)] boxedString.2 :=
  .made .start (boxOf_keyword_within .string _)

theorem boxedNumber_made : boxing.Made [boxOf (.keyword .string), boxOf (.keyword .number)] boxedNumber.2 :=
  .made boxedString_made (boxOf_keyword_within .number _)

theorem taggedString_made :
    boxing.Made [boxOf (.keyword .string), boxOf (.keyword .number), tagOf (.keyword .string)]
      taggedString.2 :=
  .made boxedNumber_made (tagOf_keyword_within .string _)

theorem taggedString_keeps : taggedString.2.Keeps stringArray.2 :=
  (materialize_takesForm (taggedString_made.keeps boxing_orderly).1 (by simp [TypeExpr.Within])).le.2

theorem boxedNumber_keeps : boxedNumber.2.Keeps stringArray.2 :=
  (materialize_takesForm (boxedNumber_made.keeps boxing_orderly).1
    (tagOf_keyword_within .string _)).le.2.trans taggedString_keeps

theorem boxedString_keeps : boxedString.2.Keeps stringArray.2 :=
  (materialize_takesForm (boxedString_made.keeps boxing_orderly).1
    (boxOf_keyword_within .number _)).le.2.trans boxedNumber_keeps

theorem typeAliases_stringArray : stringArray.2.typeAliases = boxing.typeAliases :=
  ((taggedString_made.keeps boxing_orderly).2.trans taggedString_keeps).typeAliases

theorem box_refersTo : stringArray.2.RefersTo boxRef ⟨2⟩ :=
  ⟨by decide, by decide, by rw [typeAliases_stringArray]; rfl⟩

theorem tag_refersTo : stringArray.2.RefersTo tagRef ⟨4⟩ :=
  ⟨by decide, by decide, by rw [typeAliases_stringArray]; rfl⟩

theorem boxBody_target : stringArray.2.target? (.bound ⟨1, 1, "T"⟩) = some ⟨3⟩ := by decide

theorem boxBody_meaning : stringArray.2.meaningOf ⟨3⟩ = .parameter := by decide

/-- The type alias nests, though the last one does not. -/
theorem box_nests : stringArray.2.Nests maxExpansion ⟨2⟩ := by
  intro e he
  obtain rfl : boxBody = e := by
    rw [typeAliases_stringArray] at he
    exact Option.some.inj he
  simp only [boxBody, Uses, boxBody_target, boxBody_meaning]

@[inherit_doc box_nests]
theorem tag_nests : stringArray.2.Nests maxExpansion ⟨4⟩ := by
  intro e he
  obtain rfl : tagBody = e := by
    rw [typeAliases_stringArray] at he
    exact Option.some.inj he
  simp only [tagBody, Uses]

theorem boxOf_nests (argument : TypeExpr) :
    stringArray.2.Uses (stringArray.2.Nests maxExpansion) (boxOf argument) :=
  box_refersTo.uses_iff.mpr box_nests

theorem tagOf_nests (argument : TypeExpr) :
    stringArray.2.Uses (stringArray.2.Nests maxExpansion) (tagOf argument) :=
  tag_refersTo.uses_iff.mpr tag_nests

theorem boxedString_room :
    boxing.MadeWithRoom stringArray.2 (boxOf (.keyword .string)) boxedString.1 :=
  madeWithRoom_of_nests .start (boxOf_keyword_within .string _) boxedString_keeps (by simp)

theorem boxedNumber_room :
    boxing.MadeWithRoom stringArray.2 (boxOf (.keyword .number)) boxedNumber.1 :=
  madeWithRoom_of_nests boxedString_made (boxOf_keyword_within .number _) boxedNumber_keeps
    (by simpa using boxOf_nests _)

theorem taggedString_room :
    boxing.MadeWithRoom stringArray.2 (tagOf (.keyword .string)) taggedString.1 :=
  madeWithRoom_of_nests boxedNumber_made (tagOf_keyword_within .string _) taggedString_keeps
    (by simpa using ⟨boxOf_nests _, boxOf_nests _⟩)

theorem stringArray_room :
    boxing.MadeWithRoom stringArray.2 (.array (.keyword .string)) stringArray.1 :=
  madeWithRoom_of_nests taggedString_made (by simp [TypeExpr.Within]) (.refl _)
    (by simpa using ⟨boxOf_nests _, boxOf_nests _, tagOf_nests _⟩)

/-- No type parameter shows in `number[]`, so the argument of the type alias makes no difference. -/
theorem tagOf_keepsParameters (argument : TypeExpr) :
    stringArray.2.KeepsParameters boxParameters (tagOf argument) := by
  intro p f hputs
  obtain ⟨htarget, hmeaning, -⟩ := tag_refersTo
  cases hputs with
  | parameter => rfl
  | argument htarget' hmeaning' =>
    obtain rfl := Option.some.inj (htarget.symm.trans htarget')
    rw [hmeaning] at hmeaning'
    cases hmeaning'
  | body htarget' _ hbody hputs =>
    obtain rfl := Option.some.inj (htarget.symm.trans htarget')
    rw [typeAliases_stringArray] at hbody
    obtain rfl : tagBody = _ := Option.some.inj hbody
    cases hputs with
    | array hputs => cases hputs

/-- The type of `Tag<string>` is the right one. The two references to `Box<T>` have one type. -/
theorem box_expandsAliases :
    boxing.ExpandsAliases stringArray.2 ∧
      stringArray.2.builder.HasForm (stringArray.2.substOf boxParameters (tagOf (.keyword .string)))
        taggedString.1 ∧
      stringArray.2.builder.SameForm boxedString.1 boxedNumber.1 := by
  have hexpands := expandsAliases (L := stringArray.2) boxing_orderly rfl
  have htagged := hexpands.substituted boxParameters (tagOf_nests _) taggedString_room
  exact ⟨hexpands, htagged.mpr (tagOf_keepsParameters _),
    hexpands.references box_refersTo box_refersTo box_nests boxedString_room boxedNumber_room⟩

/-- **Arguments are not put in place of type parameters.** The type alias `Box<T>` for `T[]` nests, and
`Box<string>` with the argument in place is `string[]`. But its type is another one, the array of the type
parameter, and the same as that of `Box<number>`. -/
theorem box_not_substituted :
    stringArray.2.RefersTo boxRef ⟨2⟩ ∧ stringArray.2.typeAliases.get? ⟨2⟩ = some boxBody ∧
      stringArray.2.Nests maxExpansion ⟨2⟩ ∧
      boxing.MadeWithRoom stringArray.2 (boxOf (.keyword .string)) boxedString.1 ∧
      boxing.MadeWithRoom stringArray.2 (.array (.keyword .string)) stringArray.1 ∧
      stringArray.2.builder.HasForm (stringArray.2.substOf boxParameters (boxOf (.keyword .string)))
        stringArray.1 ∧
      ¬ stringArray.2.builder.SameForm boxedString.1 stringArray.1 ∧
      boxedNumber.1 = boxedString.1 := by
  have hbody : stringArray.2.typeAliases.get? ⟨2⟩ = some boxBody := by rw [typeAliases_stringArray]; rfl
  refine ⟨box_refersTo, hbody, box_nests, boxedString_room, stringArray_room, ?_, fun hsame => ?_, by decide⟩
  · have harray := stringArray_room.hasForm boxing_orderly rfl (by simp [Uses])
    rw [formOf, formWith, formWith] at harray
    rw [substOf, boxOf, substWith]
    simp only [box_refersTo.1, box_refersTo.2.1, maxExpansion, aliasSubst, hbody, boxBody, substWith,
      substsWith, boxBody_target, boxBody_meaning]
    exact harray
  · have hdisplay := hsame.displayOf_eq
    revert hdisplay
    decide

end ApiDocs.Linking
