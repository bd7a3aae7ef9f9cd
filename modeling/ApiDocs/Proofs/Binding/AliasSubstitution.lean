import ApiDocs.Proofs.Binding.Materialization

/-!
# Arguments of type aliases

A reference to a type alias with arguments stands for the expression of the alias in which the arguments
are put in place of the type parameters. Linking does not do that: it makes the type of the expression as
it stands, and the arguments are lost. So the type is the right one just where nothing is to be put in
place of a type parameter but the parameter itself.

Which type parameters a type alias has is not noted in a draft. Everything here is said for any lists of
type parameters.

## Main definitions

* `Linking.substOf`: the form of an expression, with arguments in place of type parameters.
* `Linking.Puts`: what is put in place of a type parameter, somewhere in the expression.

## Main results

* `Linking.hasForm_substOf_iff`: a type of the form of an expression has the form with arguments just if
  every type parameter that shows is put in its own place.
-/

namespace ApiDocs

/-! ## Types of two forms -/

namespace GraphBuilder

variable {b : GraphBuilder} {t : TypeId} {ts : List TypeId} {facts facts' : TypeNode}
  {fs fs' gs gs' : List TypeForm} {α : Type} {F F' : α → TypeForm}

theorem HasForm.both_made (h : b.HasForm (.made facts fs gs) t) (h' : b.HasForm (.made facts' fs' gs') t) :
    facts = facts' ∧ (∃ ts, b.HaveForms fs ts ∧ b.HaveForms fs' ts) ∧
      ∃ ts, b.HaveForms gs ts ∧ b.HaveForms gs' ts := by
  rw [HasForm] at h h'
  obtain ⟨x, hx, hfacts, harguments, hmembers⟩ := h
  obtain ⟨x', hx', hfacts', harguments', hmembers'⟩ := h'
  obtain rfl : x = x' := Option.some.inj (hx.symm.trans hx')
  exact ⟨hfacts.symm.trans hfacts', ⟨_, harguments, harguments'⟩, _, hmembers, hmembers'⟩

theorem haveForms_nil_iff : b.HaveForms fs [] ↔ fs = [] := by
  cases fs with
  | nil => simp [HaveForms]
  | cons f fs => simp [HaveForms]

/-- A member of a list has a type of both forms, if all of them have. -/
theorem HaveForms.exists_of_mem {xs : List α} {a : α} (h : b.HaveForms (xs.map F) ts)
    (h' : b.HaveForms (xs.map F') ts) (ha : a ∈ xs) : ∃ t, b.HasForm (F a) t ∧ b.HasForm (F' a) t := by
  induction xs generalizing ts with
  | nil => cases ha
  | cons x xs ih =>
    rw [List.map_cons, HaveForms] at h
    obtain ⟨t, rest, rfl, ht, hrest⟩ := h
    rw [List.map_cons, haveForms_cons] at h'
    obtain rfl | ha := List.mem_cons.mp ha
    · exact ⟨t, ht, h'.1⟩
    · exact ih hrest h'.2 ha

/-- Instances of one class or interface that are one type have the same arguments. -/
theorem HasForm.both_instantiate {s : SymbolId} {xs : List α}
    (h : b.HasForm (.instantiate b s (xs.map F)) t) (h' : b.HasForm (.instantiate b s (xs.map F')) t) :
    ∃ ts, b.HaveForms (xs.map F) ts ∧ b.HaveForms (xs.map F') ts := by
  match xs with
  | [] => exact ⟨[], by simp [HaveForms], by simp [HaveForms]⟩
  | [x] =>
    simp only [List.map_cons, List.map_nil, TypeForm.instantiate] at h h' ⊢
    split at h
    · rw [if_pos ‹_›] at h'
      exact (h.both_made h').2.1
    · rw [if_neg ‹_›] at h'
      exact (h.both_made h').2.1
  | x :: y :: xs =>
    simp only [List.map_cons, TypeForm.instantiate] at h h' ⊢
    exact (h.both_made h').2.1

end GraphBuilder

namespace Linking

section Spec

variable (L : Linking) (parameters : SymbolId → List SymbolId)

/-! ## Expressions with arguments in place of type parameters -/

mutual

/-- The form of an expression, given what is in place of type parameters and the forms of type aliases
with arguments. -/
def substWith (expand : SymbolId → String → List TypeForm → TypeForm) (σ : SymbolId → TypeForm) :
    TypeExpr → TypeForm
  | .keyword k => .keyword k.flags k.word
  | .text v => .literal (.text v)
  | .number v => .literal (.number v)
  | .boolean v => .keyword TypeFlags.booleanLiteralBit (booleanText v)
  | .reference name ref arguments =>
    match L.target? ref with
    | none => .anonymous name
    | some s =>
      match L.meaningOf s with
      | .known t => .given t
      | .instantiable => .instantiate L.builder s (substsWith expand σ arguments)
      | .parameter => σ s
      | .expandable => expand s name (substsWith expand σ arguments)
      | .value => .anonymous name
  | .instanceOf s => .instanceOf L.builder s
  | .array e => .array L.builder (substWith expand σ e)
  | .union es => .union L.builder (substsWith expand σ es)
  | .intersection es => .intersection L.builder (substsWith expand σ es)
  | .tuple es => .tuple L.builder (substsWith expand σ es)
  | .this (some owner) => .this owner
  | .this none => .keyword TypeFlags.anyBit "any"
  | .verbatim written => .anonymous written

/-- The forms of expressions. -/
def substsWith (expand : SymbolId → String → List TypeForm → TypeForm) (σ : SymbolId → TypeForm) :
    List TypeExpr → List TypeForm
  | [] => []
  | e :: es => substWith expand σ e :: substsWith expand σ es

end

/-- The arguments of a type alias in place of its type parameters. A type parameter that no argument is
given for stays. -/
def bindArguments (s : SymbolId) (arguments : List TypeForm) (p : SymbolId) : TypeForm :=
  (((parameters s).zip arguments).lookup p).getD (.parameter L.builder p)

/-- The form of a type alias with arguments, given its name as written. -/
def aliasSubst : Nat → SymbolId → String → List TypeForm → TypeForm
  | 0, _, name, _ => .anonymous name
  | depth + 1, s, name, arguments =>
    match L.typeAliases.get? s with
    | none => .anonymous name
    | some body => L.substWith (aliasSubst depth) (L.bindArguments parameters s arguments) body

/-- The form of an expression, with the arguments of type aliases in place of their type parameters. -/
def substOf (e : TypeExpr) : TypeForm :=
  L.substWith (L.aliasSubst parameters maxExpansion) (.parameter L.builder) e

/-- Somewhere in the expression, with at most so many type aliases put in place within each other, a form
is put in place of a type parameter. -/
inductive Puts : Nat → (SymbolId → TypeForm) → TypeExpr → SymbolId → TypeForm → Prop where
  | parameter {depth : Nat} {σ : SymbolId → TypeForm} {written : String} {ref : NameRef}
    {arguments : List TypeExpr} {p : SymbolId} : L.target? ref = some p → L.meaningOf p = .parameter →
    Puts depth σ (.reference written ref arguments) p (σ p)
  | argument {depth : Nat} {σ : SymbolId → TypeForm} {written : String} {ref : NameRef}
    {arguments : List TypeExpr} {s : SymbolId} {e : TypeExpr} {p : SymbolId} {f : TypeForm} :
    L.target? ref = some s → L.meaningOf s = .instantiable → e ∈ arguments → Puts depth σ e p f →
    Puts depth σ (.reference written ref arguments) p f
  | body {depth : Nat} {σ : SymbolId → TypeForm} {written : String} {ref : NameRef}
    {arguments : List TypeExpr} {s : SymbolId} {body : TypeExpr} {p : SymbolId} {f : TypeForm} :
    L.target? ref = some s → L.meaningOf s = .expandable → L.typeAliases.get? s = some body →
    Puts depth (L.bindArguments parameters s (L.substsWith (L.aliasSubst parameters (depth + 1)) σ arguments))
      body p f →
    Puts (depth + 1) σ (.reference written ref arguments) p f
  | array {depth : Nat} {σ : SymbolId → TypeForm} {e : TypeExpr} {p : SymbolId} {f : TypeForm} :
    Puts depth σ e p f → Puts depth σ (.array e) p f
  | union {depth : Nat} {σ : SymbolId → TypeForm} {es : List TypeExpr} {e : TypeExpr} {p : SymbolId}
    {f : TypeForm} : e ∈ es → Puts depth σ e p f → Puts depth σ (.union es) p f
  | intersection {depth : Nat} {σ : SymbolId → TypeForm} {es : List TypeExpr} {e : TypeExpr}
    {p : SymbolId} {f : TypeForm} : e ∈ es → Puts depth σ e p f → Puts depth σ (.intersection es) p f
  | tuple {depth : Nat} {σ : SymbolId → TypeForm} {es : List TypeExpr} {e : TypeExpr} {p : SymbolId}
    {f : TypeForm} : e ∈ es → Puts depth σ e p f → Puts depth σ (.tuple es) p f

/-- Every type parameter that shows in the type of the expression is put in its own place: nothing is lost
where arguments are. -/
def KeepsParameters (e : TypeExpr) : Prop :=
  ∀ p f, L.Puts parameters maxExpansion (.parameter L.builder) e p f → f = .parameter L.builder p

end Spec

variable {L : Linking} {parameters : SymbolId → List SymbolId} {depth : Nat} {σ : SymbolId → TypeForm}
  {e : TypeExpr} {p s : SymbolId} {f : TypeForm} {t : TypeId}

theorem substsWith_eq_map (expand : SymbolId → String → List TypeForm → TypeForm)
    (σ : SymbolId → TypeForm) (es : List TypeExpr) :
    L.substsWith expand σ es = es.map (L.substWith expand σ) := by
  induction es with
  | nil => rw [substsWith, List.map_nil]
  | cons e es ih => rw [substsWith, List.map_cons, ih]

/-! ## Where type parameters stay -/

/-- Where every type parameter is put in its own place, arguments make no difference. This goes by the
number of type aliases that are put in place, and then by the expression. -/
theorem substWith_eq_formWith (depth : Nat) (σ : SymbolId → TypeForm) :
    ∀ e : TypeExpr, (∀ p f, L.Puts parameters depth σ e p f → f = .parameter L.builder p) →
      L.substWith (L.aliasSubst parameters depth) σ e = L.formWith (L.aliasForm depth) e
  | .reference name ref arguments, h => by
    rw [substWith, formWith]
    cases htarget : L.target? ref with
    | none => rfl
    | some s =>
      cases hmeaning : L.meaningOf s with
      | instantiable =>
        have harguments : ∀ e ∈ arguments,
            L.substWith (L.aliasSubst parameters depth) σ e = L.formWith (L.aliasForm depth) e :=
          fun e he => substWith_eq_formWith depth σ e fun p f hp => h p f (.argument htarget hmeaning he hp)
        simp only [hmeaning, substsWith_eq_map, formsWith_eq_map, List.map_congr_left harguments]
      | parameter =>
        simp only [hmeaning]
        exact h s (σ s) (.parameter htarget hmeaning)
      | expandable =>
        simp only [hmeaning]
        cases depth with
        | zero => rfl
        | succ depth =>
          rw [aliasSubst, aliasForm]
          cases hbody : L.typeAliases.get? s with
          | none => rfl
          | some body =>
            exact substWith_eq_formWith depth _ body fun p f hp => h p f (.body htarget hmeaning hbody hp)
      | known t => simp only [hmeaning]
      | value => simp only [hmeaning]
  | .array e, h => by
    rw [substWith, formWith, substWith_eq_formWith depth σ e fun p f hp => h p f (.array hp)]
  | .union es, h => by
    have hes : ∀ e ∈ es, L.substWith (L.aliasSubst parameters depth) σ e = L.formWith (L.aliasForm depth) e :=
      fun e he => substWith_eq_formWith depth σ e fun p f hp => h p f (.union he hp)
    rw [substWith, formWith, substsWith_eq_map, formsWith_eq_map, List.map_congr_left hes]
  | .intersection es, h => by
    have hes : ∀ e ∈ es, L.substWith (L.aliasSubst parameters depth) σ e = L.formWith (L.aliasForm depth) e :=
      fun e he => substWith_eq_formWith depth σ e fun p f hp => h p f (.intersection he hp)
    rw [substWith, formWith, substsWith_eq_map, formsWith_eq_map, List.map_congr_left hes]
  | .tuple es, h => by
    have hes : ∀ e ∈ es, L.substWith (L.aliasSubst parameters depth) σ e = L.formWith (L.aliasForm depth) e :=
      fun e he => substWith_eq_formWith depth σ e fun p f hp => h p f (.tuple he hp)
    rw [substWith, formWith, substsWith_eq_map, formsWith_eq_map, List.map_congr_left hes]
  | .keyword _, _ | .text _, _ | .number _, _ | .boolean _, _ | .instanceOf _, _
  | .this (some _), _ | .this none, _ | .verbatim _, _ => by rw [substWith, formWith]
termination_by e => (depth, e)

theorem KeepsParameters.substOf_eq (h : L.KeepsParameters parameters e) :
    L.substOf parameters e = L.formOf e := substWith_eq_formWith maxExpansion _ e h

/-! ## Where something else is put in place -/

/-- The form is a type that was there before only as the type of an enum or of a member. -/
def FromEnum (L : Linking) (f : TypeForm) : Prop := ∀ t, f = .given t → ∃ s, L.meaningOf s = .known t

theorem fromEnum_of_made (facts : TypeNode) (arguments members : List TypeForm) :
    L.FromEnum (.made facts arguments members) := fun _ h => by cases h

theorem fromEnum_instantiate (b : GraphBuilder) (s : SymbolId) (fs : List TypeForm) :
    L.FromEnum (.instantiate b s fs) := by
  match fs with
  | [] => exact fromEnum_of_made _ _ _
  | [f] =>
    rw [TypeForm.instantiate]
    split
    · exact fromEnum_of_made _ _ _
    · exact fromEnum_of_made _ _ _
  | f :: f' :: fs => exact fromEnum_of_made _ _ _

theorem fromEnum_bindArguments {s : SymbolId} {arguments : List TypeForm}
    (h : ∀ f ∈ arguments, L.FromEnum f) (p : SymbolId) :
    L.FromEnum (L.bindArguments parameters s arguments p) := by
  rw [bindArguments]
  cases hp : ((parameters s).zip arguments).lookup p with
  | none => exact fromEnum_of_made _ _ _
  | some f =>
    obtain ⟨before, after, happend, -⟩ := List.lookup_eq_some_iff.mp hp
    have hmem : (p, f) ∈ (parameters s).zip arguments := by simp [happend]
    exact h f (List.of_mem_zip hmem).2

/-- No types but those of enums come in, and these only where they are referred to. -/
theorem fromEnum_substWith (depth : Nat) (σ : SymbolId → TypeForm) (hσ : ∀ p, L.FromEnum (σ p)) :
    ∀ e : TypeExpr, L.FromEnum (L.substWith (L.aliasSubst parameters depth) σ e)
  | .reference name ref arguments => by
    rw [substWith]
    cases htarget : L.target? ref with
    | none => exact fromEnum_of_made _ _ _
    | some s =>
      cases hmeaning : L.meaningOf s with
      | known t =>
        intro t' ht'
        obtain rfl : t = t' := by simpa [hmeaning] using ht'
        exact ⟨s, hmeaning⟩
      | instantiable =>
        simp only [hmeaning]
        exact fromEnum_instantiate _ _ _
      | parameter =>
        simp only [hmeaning]
        exact hσ s
      | expandable =>
        simp only [hmeaning]
        have harguments : ∀ f ∈ L.substsWith (L.aliasSubst parameters depth) σ arguments, L.FromEnum f := by
          rw [substsWith_eq_map]
          intro f hf
          obtain ⟨e, he, rfl⟩ := List.mem_map.mp hf
          exact fromEnum_substWith depth σ hσ e
        cases depth with
        | zero => exact fromEnum_of_made _ _ _
        | succ depth =>
          rw [aliasSubst]
          cases hbody : L.typeAliases.get? s with
          | none => exact fromEnum_of_made _ _ _
          | some body => exact fromEnum_substWith depth _ (fromEnum_bindArguments harguments) body
      | value =>
        simp only [hmeaning]
        exact fromEnum_of_made _ _ _
  | .keyword _ | .text _ | .number _ | .boolean _ | .instanceOf _ | .array _ | .union _ | .intersection _
  | .tuple _ | .this (some _) | .this none | .verbatim _ => by
    rw [substWith]
    exact fromEnum_of_made _ _ _
termination_by e => (depth, e)

/-- What is put in place somewhere in an expression is no type but that of an enum, or made there. -/
theorem Puts.fromEnum (h : L.Puts parameters depth σ e p f) (hσ : ∀ p, L.FromEnum (σ p)) :
    L.FromEnum f := by
  induction h with
  | parameter _ _ => exact hσ _
  | @body depth σ _ _ arguments _ _ _ _ _ _ _ _ ih =>
    refine ih (fromEnum_bindArguments ?_)
    rw [substsWith_eq_map]
    intro f hf
    obtain ⟨e, -, rfl⟩ := List.mem_map.mp hf
    exact fromEnum_substWith _ σ hσ e
  | argument _ _ _ _ ih | array _ ih | union _ _ ih | intersection _ _ ih | tuple _ _ ih => exact ih hσ

/-- If a type has the form of an expression with and without arguments, then the type of a type parameter
has the form that is put in its place: by induction on where that is. -/
theorem Puts.hasForm (h : L.Puts parameters depth σ e p f)
    (hform : L.builder.HasForm (L.formWith (L.aliasForm depth) e) t)
    (hsubst : L.builder.HasForm (L.substWith (L.aliasSubst parameters depth) σ e) t) :
    L.meaningOf p = .parameter ∧ ∃ t, L.builder.HasForm (.parameter L.builder p) t ∧ L.builder.HasForm f t := by
  induction h generalizing t with
  | parameter htarget hmeaning =>
    simp only [formWith, htarget, hmeaning] at hform
    simp only [substWith, htarget, hmeaning] at hsubst
    exact ⟨hmeaning, t, hform, hsubst⟩
  | argument htarget hmeaning he _ ih =>
    simp only [formWith, htarget, hmeaning, formsWith_eq_map] at hform
    simp only [substWith, htarget, hmeaning, substsWith_eq_map] at hsubst
    obtain ⟨ts, hts, hts'⟩ := hform.both_instantiate hsubst
    obtain ⟨t', ht, ht'⟩ := hts.exists_of_mem hts' he
    exact ih ht ht'
  | body htarget hmeaning hbody _ ih =>
    simp only [formWith, htarget, hmeaning, aliasForm, hbody] at hform
    simp only [substWith, htarget, hmeaning, aliasSubst, hbody] at hsubst
    exact ih hform hsubst
  | array _ ih =>
    rw [formWith, TypeForm.array] at hform
    rw [substWith, TypeForm.array] at hsubst
    obtain ⟨ts, hts, hts'⟩ := (hform.both_made hsubst).2.1
    rw [GraphBuilder.HaveForms] at hts
    obtain ⟨t', rest, rfl, ht, -⟩ := hts
    exact ih ht (GraphBuilder.haveForms_cons.mp hts').1
  | union he _ ih | intersection he _ ih =>
    rw [formWith, formsWith_eq_map] at hform
    rw [substWith, substsWith_eq_map] at hsubst
    obtain ⟨ts, hts, hts'⟩ := (hform.both_made hsubst).2.2
    obtain ⟨t', ht, ht'⟩ := hts.exists_of_mem hts' he
    exact ih ht ht'
  | tuple he _ ih =>
    rw [formWith, formsWith_eq_map] at hform
    rw [substWith, substsWith_eq_map] at hsubst
    obtain ⟨ts, hts, hts'⟩ := (hform.both_made hsubst).2.1
    obtain ⟨t', ht, ht'⟩ := hts.exists_of_mem hts' he
    exact ih ht ht'

/-- A form of the type of a type parameter is that of the type parameter: the types of enums and of their
members have other symbols. -/
theorem eq_parameter_of_hasForm (hL : ∀ {s t}, L.enumTypes.get? s = some t →
      ∃ x, L.builder.typeCore? t = some x ∧ (x.symbol = some s ∨ x = numberNode))
    (hp : L.meaningOf p = .parameter) (ht : L.builder.HasForm (.parameter L.builder p) t)
    (hf : L.builder.HasForm f t) (henum : L.FromEnum f) : f = .parameter L.builder p := by
  cases f with
  | given t' =>
    obtain ⟨s, hs⟩ := henum t' rfl
    obtain rfl : t = t' := by simpa [GraphBuilder.HasForm] using hf
    obtain ⟨x, hx, hsymbol⟩ := hL (enumTypes_of_known hs)
    obtain rfl := Option.some.inj (ht.typeCore?_eq.symm.trans hx)
    obtain hsymbol | hnumber := hsymbol
    · obtain rfl : p = s := by simpa using hsymbol
      rw [hp] at hs
      cases hs
    · simp [numberNode] at hnumber
  | made facts arguments members =>
    obtain ⟨hfacts, ⟨ts, hts, harguments⟩, ts', hts', hmembers⟩ := ht.both_made hf
    rw [GraphBuilder.HaveForms] at hts hts'
    subst hts hts'
    obtain rfl := GraphBuilder.haveForms_nil_iff.mp harguments
    obtain rfl := GraphBuilder.haveForms_nil_iff.mp hmembers
    rw [← hfacts]
    rfl

/-- **Where arguments are not lost**: a type of the form of an expression has the form with arguments just
if every type parameter that shows is put in its own place. -/
theorem hasForm_substOf_iff (hL : ∀ {s t}, L.enumTypes.get? s = some t →
      ∃ x, L.builder.typeCore? t = some x ∧ (x.symbol = some s ∨ x = numberNode))
    (ht : L.builder.HasForm (L.formOf e) t) :
    L.builder.HasForm (L.substOf parameters e) t ↔ L.KeepsParameters parameters e := by
  constructor
  · intro hsubst p f hputs
    obtain ⟨hp, t', hparameter, hf⟩ := hputs.hasForm ht hsubst
    exact eq_parameter_of_hasForm hL hp hparameter hf (hputs.fromEnum fun p => fromEnum_of_made _ _ _)
  · intro hkeeps
    rwa [hkeeps.substOf_eq]

end Linking

end ApiDocs
