import ApiDocs.Proofs.Binding.Annotations
import ApiDocs.Proofs.Binding.Notes
import ApiDocs.Proofs.Extract.TypeUnfolding

/-!
# Written arrays

A place in a description is the same place in the expression that it tells of, with type aliases put in place on the
way. So an array in the description can be traced to where it was written: to brackets, to an array as an
initializer, to a parameter for all further arguments, or to a name.

The name is that of a class or interface, and of all classes and interfaces that are called `Array` those with
arguments become arrays. The library's is one of them, but a class of the sources is another. With all other names
a class or interface is referred to, with all its arguments.

## Main definitions

* `Linking.At`: the expression at a place.
* `Linking.ArrayWritten`: the expressions that are arrays.

## Main results

* `Linking.Tells.at?`: what is at a place in a description tells of the expression there.
* `Linking.Tells.arrayWritten`: where it is an array, one was written.
* `Linking.Tells.ref_of_instantiable`: a class or interface is referred to, with its arguments.
-/

namespace ApiDocs

open TypeScript

namespace TypeExpr

/-- The expressions in an expression. -/
def parts : TypeExpr → List TypeExpr
  | .reference _ _ arguments => arguments
  | .array e => [e]
  | .union es | .intersection es => es
  | _ => []

/-! ## Expressions that were read -/

/-- Parts of expressions that were read: these themselves, and what the elements of an array have in common. -/
inductive Derived : TypeExpr → Prop where
  | written {e : TypeExpr} : e.Written → Derived e
  | elements (site : Site) (es : List Expr) : Derived (unionOf (site.inferAll es))

variable {e e' : TypeExpr}

theorem mem_of_mem_distinct {ts : List TypeExpr} (h : e ∈ distinct ts) : e ∈ ts := by
  have hfold : ∀ (us kept : List TypeExpr),
      e ∈ us.foldl (fun kept t => if kept.any (same · t) then kept else kept ++ [t]) kept → e ∈ kept ∨ e ∈ us := by
    intro us
    induction us with
    | nil => exact fun kept h => .inl h
    | cons u us ih =>
      intro kept h
      rcases ih _ h with h | h
      · dsimp only at h
        split at h
        · exact .inl h
        · rcases List.mem_append.mp h with h | h
          · exact .inl h
          · exact .inr (List.mem_cons.mpr (.inl (List.mem_singleton.mp h)))
      · exact .inr (List.mem_cons_of_mem u h)
  exact (hfold ts [] h).resolve_left (by simp)

theorem mem_inferAll {site : Site} {es : List Expr} (h : e ∈ site.inferAll es) :
    ∃ value ∈ es, site.infer? false value = some e := by
  induction es with
  | nil => simp [Site.inferAll] at h
  | cons value es ih =>
    rw [Site.inferAll, List.mem_append, Option.mem_toList] at h
    rcases h with h | h
    · exact ⟨value, by simp, h⟩
    · obtain ⟨value', hvalue, he⟩ := ih h
      exact ⟨value', List.mem_cons_of_mem value hvalue, he⟩

/-- What elements have in common is anything, the only one of them, or a union of them. -/
theorem unionOf_cases (ts : List TypeExpr) :
    unionOf ts = any ∨ unionOf ts ∈ ts ∨ ∃ us, unionOf ts = .union us ∧ ∀ u ∈ us, u ∈ ts := by
  unfold unionOf
  split
  · exact .inl rfl
  next t ht => exact .inr (.inl (mem_of_mem_distinct (by simp [ht])))
  next => exact .inr (.inr ⟨_, rfl, fun u hu => mem_of_mem_distinct hu⟩)

/-- The arguments of an annotation are read one by one. -/
theorem typeExprs_eq_map (site : Site) (ts : List TypeTree) : site.typeExprs ts = ts.map site.typeExpr := by
  induction ts with
  | nil => rw [Site.typeExprs, List.map_nil]
  | cons t ts ih => rw [Site.typeExprs, ih, List.map_cons]

theorem derived_of_mem_parts_typeExpr {site : Site} {t : TypeTree} (h : e' ∈ (site.typeExpr t).parts) :
    Derived e' := by
  have hall : ∀ {ts}, e' ∈ site.typeExprs ts → Derived e' := fun {ts} h => by
    rw [typeExprs_eq_map] at h
    obtain ⟨t', -, rfl⟩ := List.mem_map.mp h
    exact .written (.read site t')
  cases t with
  | reference name written arguments => exact hall h
  | array t =>
    obtain rfl := List.mem_singleton.mp h
    exact .written (.read site t)
  | union ts => exact hall h
  | intersection ts => exact hall h
  | _ => cases h

theorem parts_keep (literal : Bool) (hparts : e.parts = []) (hwidened : e.widened.parts = []) :
    (Site.keep literal e).parts = [] := by
  unfold Site.keep
  split
  · exact hparts
  · exact hwidened

/-- The type of an initializer, as far as it has parts. -/
theorem infer?_cases {site : Site} {literal : Bool} : ∀ {value : Expr}, site.infer? literal value = some e →
    (∃ t, e = site.typeExpr t) ∨ (∃ es, e = .array (unionOf (site.inferAll es))) ∨ e.parts = []
  | .array es, h => by
    rw [Site.infer?] at h
    exact .inr (.inl ⟨es, (Option.some.inj h).symm⟩)
  | .parens inner, h => by
    rw [Site.infer?] at h
    exact infer?_cases h
  | .cast t, h => by
    rw [Site.infer?] at h
    exact .inl ⟨t, (Option.some.inj h).symm⟩
  | .name _, h | .other, h => by
    rw [Site.infer?] at h
    cases h
  | .text _, h | .number _, h | .negative _, h | .boolean _, h => by
    rw [Site.infer?] at h
    obtain rfl := Option.some.inj h
    exact .inr (.inr (parts_keep literal rfl rfl))
  | .null, h | .template, h | .instanceOf _, h | .arrow _ _, h => by
    rw [Site.infer?] at h
    obtain rfl := Option.some.inj h
    exact .inr (.inr rfl)

/-- Parts of expressions that were read are such, too. -/
theorem Derived.part (h : Derived e) (he : e' ∈ e.parts) : Derived e' := by
  have hinferred : ∀ {site literal value} {e : TypeExpr}, Site.infer? site literal value = some e →
      e' ∈ e.parts → Derived e' := by
    intro site literal value e h he
    obtain ⟨t, rfl⟩ | ⟨es, rfl⟩ | hparts := infer?_cases h
    · exact derived_of_mem_parts_typeExpr he
    · obtain rfl := List.mem_singleton.mp he
      exact .elements site es
    · rw [hparts] at he
      cases he
  cases h with
  | written h =>
    cases h with
    | read site t => exact derived_of_mem_parts_typeExpr he
    | initializer site h => exact hinferred h he
    | nothing => cases he
    | rest =>
      obtain rfl := List.mem_singleton.mp he
      exact .written .nothing
    | instances s => cases he
  | elements site es =>
    obtain h | h | ⟨us, h, hus⟩ := unionOf_cases (site.inferAll es)
    · rw [h] at he
      cases he
    · obtain ⟨value, -, hvalue⟩ := mem_inferAll h
      exact hinferred hvalue he
    · rw [h] at he
      obtain ⟨value, -, hvalue⟩ := mem_inferAll (hus e' he)
      exact .written (.initializer site hvalue)

/-- An expression that is no array and has no arguments. -/
def Plain (e : TypeExpr) : Prop :=
  (∀ x, e ≠ .array x) ∧ ∀ written ref arguments, e = .reference written ref arguments → arguments = []

theorem plain_of_parts_eq_nil (h : e.parts = []) : e.Plain := by
  refine ⟨?_, ?_⟩
  · rintro x rfl
    cases h
  · rintro written ref arguments rfl
    exact h

/-- What an expression that was read is, as far as arrays go. -/
inductive Origin : TypeExpr → Prop where
  | read (site : Site) (t : TypeTree) : Origin (site.typeExpr t)
  | elements (site : Site) (es : List Expr) : Origin (.array (unionOf (site.inferAll es)))
  | rest : Origin (.array .any)
  | plain {e : TypeExpr} : e.Plain → Origin e

theorem origin_of_infer? {site : Site} {literal : Bool} {value : Expr} (h : site.infer? literal value = some e) :
    Origin e := by
  obtain ⟨t, rfl⟩ | ⟨es, rfl⟩ | hparts := infer?_cases h
  · exact .read site t
  · exact .elements site es
  · exact .plain (plain_of_parts_eq_nil hparts)

theorem Derived.origin (h : Derived e) : Origin e := by
  cases h with
  | written h =>
    cases h with
    | read site t => exact .read site t
    | initializer site h => exact origin_of_infer? h
    | nothing | instances s => exact .plain (plain_of_parts_eq_nil rfl)
    | rest => exact .rest
  | elements site es =>
    obtain h | h | ⟨us, h, -⟩ := unionOf_cases (site.inferAll es)
    · exact .plain (plain_of_parts_eq_nil (by rw [h]; rfl))
    · obtain ⟨value, -, hvalue⟩ := mem_inferAll h
      exact origin_of_infer? hvalue
    · rw [h]
      refine .plain ⟨fun x hx => ?_, fun written ref arguments hr => ?_⟩
      · cases hx
      · cases hr

end TypeExpr

namespace Linking

variable {L : Linking} {E : List EnumDraft} {refs : RefTable SymbolId} {n i : Nat} {e e' e'' : TypeExpr}
  {d x : TypeDoc} {path path' : List Nat}

/-! ## Places -/

/-- The parts of an expression that are described. Only classes and interfaces have arguments. -/
def shownParts (L : Linking) : TypeExpr → List TypeExpr
  | .reference _ ref arguments =>
    match (L.target? ref).map L.meaningOf with
    | some .instantiable => arguments
    | _ => []
  | e => e.parts

theorem mem_parts_of_mem_shownParts (h : e' ∈ L.shownParts e) : e' ∈ e.parts := by
  unfold shownParts at h
  split at h
  · split at h
    · exact h
    · cases h
  · exact h

theorem shownParts_of_instantiable {written : String} {ref : NameRef} {arguments : List TypeExpr} {s : SymbolId}
    (htarget : L.target? ref = some s) (hmeaning : L.meaningOf s = .instantiable) :
    L.shownParts (.reference written ref arguments) = arguments := by
  rw [shownParts, htarget, Option.map_some, hmeaning]

/-- **The expression at a place**, which is given by the way there through a description. Type aliases are put in
place on the way. -/
inductive At (L : Linking) : TypeExpr → List Nat → TypeExpr → Prop where
  | here (e : TypeExpr) : At L e [] e
  | part {e e' e'' : TypeExpr} {i : Nat} {path : List Nat} :
    (L.shownParts e)[i]? = some e' → At L e' path e'' → At L e (i :: path) e''
  | expansion {written : String} {ref : NameRef} {arguments : List TypeExpr} {s : SymbolId} {body e : TypeExpr}
      {path : List Nat} :
    L.target? ref = some s → L.meaningOf s = .expandable → L.typeAliases.get? s = some body →
      At L body path e → At L (.reference written ref arguments) path e

theorem At.append (h : L.At e path e') (h' : L.At e' path' e'') : L.At e (path ++ path') e'' := by
  induction h with
  | here e => exact h'
  | part hpart _ ih => exact .part hpart (ih h')
  | expansion htarget hmeaning hbody _ ih => exact .expansion htarget hmeaning hbody (ih h')

/-- What is in a description tells of what is there in the expression, one level further down. -/
theorem Tells.part (h : L.Tells E refs n e d) (hx : d.parts[i]? = some x) :
    ∃ e', (∀ {path e''}, L.At e' path e'' → L.At e (i :: path) e'') ∧ L.Tells E refs (n - 1) e' x := by
  have hparts : ∀ {n : Nat} {e : TypeExpr} {es : List TypeExpr} {ds : List TypeDoc}, L.shownParts e = es →
      es.length = ds.length → (∀ e' d, (e', d) ∈ es.zip ds → L.Tells E refs n e' d) → ds[i]? = some x →
      ∃ e', (∀ {path e''}, L.At e' path e'' → L.At e (i :: path) e'') ∧ L.Tells E refs n e' x := by
    rintro n e es ds rfl hlength h hx
    obtain ⟨hi, rfl⟩ := List.getElem?_eq_some_iff.mp hx
    have hie : i < (L.shownParts e).length := hlength ▸ hi
    refine ⟨(L.shownParts e)[i], fun hat => .part (List.getElem?_eq_getElem hie) hat, h _ _ ?_⟩
    exact List.mem_iff_getElem.mpr ⟨i, by simpa using ⟨hie, hi⟩, by simp⟩
  induction h with
  | @array _ e d h =>
    refine hparts rfl rfl (fun e' d' hmem => ?_) (show [d][i]? = some x from hx)
    obtain ⟨rfl, rfl⟩ := Prod.mk.inj (List.mem_singleton.mp hmem)
    exact h
  | union hlength h => exact hparts rfl hlength h hx
  | intersection hlength h => exact hparts rfl hlength h hx
  | instantiation htarget hmeaning _ _ hlength h =>
    exact hparts (shownParts_of_instantiable htarget hmeaning) hlength h hx
  | @arrayNamed _ _ _ argument others s _ htarget hmeaning _ h =>
    -- Of all arguments only the first one is described.
    obtain ⟨rfl, rfl⟩ : i = 0 ∧ _ = x := by simpa [TypeDoc.parts, List.getElem?_singleton] using hx
    refine ⟨argument, fun hat => .part ?_ hat, h⟩
    rw [shownParts_of_instantiable htarget hmeaning]
    rfl
  | expansion htarget hmeaning hbody _ ih =>
    obtain ⟨e', hat, htells⟩ := ih hx
    exact ⟨e', fun h => .expansion htarget hmeaning hbody (hat h), htells⟩
  | enum _ _ h => cases h <;> cases hx
  | _ => cases hx

/-- **What is at a place in a description tells of the expression there.** -/
theorem Tells.at? (h : L.Tells E refs n e d) (hx : d.at? path = some x) :
    ∃ e', L.At e path e' ∧ L.Tells E refs (n - path.length) e' x := by
  induction path generalizing n e d with
  | nil =>
    obtain rfl := Option.some.inj hx
    exact ⟨e, .here e, h⟩
  | cons i path ih =>
    rw [TypeDoc.at?] at hx
    obtain ⟨d', hd', hx⟩ := Option.bind_eq_some_iff.mp hx
    obtain ⟨e', hat, htells⟩ := h.part hd'
    obtain ⟨e'', hat', htells'⟩ := ih htells hx
    refine ⟨e'', hat hat', ?_⟩
    rwa [Nat.sub_sub, Nat.add_comm] at htells'

/-! ## Arrays -/

/-- The expressions that are documented as arrays: those in brackets, arrays as initializers, parameters for
all further arguments, and annotations of a class or interface that is called `Array`, with arguments. -/
inductive ArrayWritten (L : Linking) : TypeExpr → Prop where
  | brackets (site : Site) (t : TypeTree) : ArrayWritten L (site.typeExpr (.array t))
  | elements (site : Site) (es : List Expr) : ArrayWritten L (.array (.unionOf (site.inferAll es)))
  | rest : ArrayWritten L (.array .any)
  | called (site : Site) {name : EntityName} {written : String} {arguments : List TypeTree} {s : SymbolId} :
    L.target? (site.refer .asType name) = some s → L.meaningOf s = .instantiable → L.builder.nameOf s = "Array" →
      arguments ≠ [] → ArrayWritten L (site.typeExpr (.reference name written arguments))

/-- All type aliases were read. -/
def AliasesRead (L : Linking) : Prop :=
  ∀ s e, L.typeAliases.get? s = some e → ∃ (site : Site) (t : TypeTree), e = site.typeExpr t

theorem At.derived (hread : L.AliasesRead) (h : L.At e path e') (he : e.Derived) : e'.Derived := by
  induction h with
  | here e => exact he
  | part hpart _ ih => exact ih (he.part (mem_parts_of_mem_shownParts (List.mem_of_getElem? hpart)))
  | expansion _ _ hbody _ ih =>
    obtain ⟨site, t, rfl⟩ := hread _ _ hbody
    exact ih (.written (.read site t))

theorem Arrayed.written (hread : L.AliasesRead) (h : L.Arrayed e) (he : e.Derived) :
    ∃ e', L.At e [] e' ∧ L.ArrayWritten e' := by
  induction h with
  | array x =>
    refine ⟨_, .here _, ?_⟩
    generalize harray : TypeExpr.array x = e at he
    cases he.origin with
    | read site t =>
      cases t with
      | array t => exact .brackets site t
      | _ => cases harray
    | elements site es => exact .elements site es
    | rest => exact .rest
    | plain h => exact absurd harray.symm (h.1 x)
  | @named written ref arguments s htarget hmeaning hname hne =>
    refine ⟨_, .here _, ?_⟩
    generalize href : TypeExpr.reference written ref arguments = e at he
    cases he.origin with
    | read site t =>
      cases t with
      | reference name written' arguments' =>
        cases href
        refine .called site htarget hmeaning hname ?_
        rintro rfl
        exact hne rfl
      | _ => cases href
    | elements site es => cases href
    | rest => cases href
    | plain h => exact absurd (h.2 _ _ _ href.symm) hne
  | expansion htarget hmeaning hbody _ ih =>
    obtain ⟨site, t, rfl⟩ := hread _ _ hbody
    obtain ⟨e', hat, hwritten⟩ := ih (.written (.read site t))
    exact ⟨e', .expansion htarget hmeaning hbody hat, hwritten⟩

/-- **Whatever is documented as an array was written as one there**, or has the name of arrays. -/
theorem Tells.arrayWritten (hread : L.AliasesRead) (h : L.Tells E refs n e d) (he : e.Derived)
    (hx : d.at? path = some (.arrayOf x)) : ∃ e', L.At e path e' ∧ L.ArrayWritten e' := by
  obtain ⟨e', hat, htells⟩ := h.at? hx
  obtain ⟨e'', hat', hwritten⟩ := htells.arrayed.written hread (hat.derived hread he)
  exact ⟨e'', by simpa using hat.append hat', hwritten⟩

/-- **A class or interface is referred to, with all its arguments**, unless it is called `Array`. -/
theorem Tells.ref_of_instantiable {written : String} {ref : NameRef} {arguments : List TypeExpr} {s : SymbolId}
    (htarget : L.target? ref = some s) (hmeaning : L.meaningOf s = .instantiable)
    (hname : arguments = [] ∨ L.builder.nameOf s ≠ "Array")
    (h : L.Tells E refs (n + 1) (.reference written ref arguments) d) :
    ∃ r ds, d = .ref r ds ∧ refs.Has s r ∧ List.Forall₂ (L.Tells E refs n) arguments ds := by
  generalize hlevels : n + 1 = levels at h
  cases h with
  | bottom => cases hlevels
  | @instantiation _ _ _ _ s' r ds htarget' _ _ hr hlength h =>
    obtain rfl := Option.some.inj (htarget.symm.trans htarget')
    obtain rfl := Nat.succ.inj hlevels
    refine ⟨r, ds, rfl, hr, List.forall₂_iff_zip.mpr ⟨hlength, fun hmem => h _ _ hmem⟩⟩
  | arrayNamed htarget' _ hname' =>
    obtain rfl := Option.some.inj (htarget.symm.trans htarget')
    exact absurd hname' (hname.resolve_left (List.cons_ne_nil _ _))
  | unknown h =>
    rw [htarget] at h
    cases h
  | value htarget' hmeaning' | enum htarget' hmeaning' | parameter htarget' hmeaning'
  | expansion htarget' hmeaning' | unexpanded htarget' hmeaning' =>
    obtain rfl := Option.some.inj (htarget.symm.trans htarget')
    rw [hmeaning] at hmeaning'
    cases hmeaning'

/-- A type alias that is not cut off is put in place. -/
theorem Tells.expanded {written : String} {ref : NameRef} {arguments : List TypeExpr} {s : SymbolId} {body : TypeExpr}
    (htarget : L.target? ref = some s) (hmeaning : L.meaningOf s = .expandable)
    (hbody : L.typeAliases.get? s = some body) (hcut : ¬ L.CutOff s)
    (h : L.Tells E refs n (.reference written ref arguments) d) : L.Tells E refs n body d := by
  cases h with
  | bottom => exact .bottom body _
  | expansion htarget' _ hbody' h =>
    obtain rfl := Option.some.inj (htarget.symm.trans htarget')
    obtain rfl := Option.some.inj (hbody.symm.trans hbody')
    exact h
  | unknown h =>
    rw [htarget] at h
    cases h
  | unexpanded htarget' _ hcut' =>
    obtain rfl := Option.some.inj (htarget.symm.trans htarget')
    exact absurd hcut' hcut
  | value htarget' hmeaning' | enum htarget' hmeaning' | parameter htarget' hmeaning'
  | instantiation htarget' hmeaning' | arrayNamed htarget' hmeaning' =>
    obtain rfl := Option.some.inj (htarget.symm.trans htarget')
    rw [hmeaning] at hmeaning'
    cases hmeaning'

end Linking

end ApiDocs
