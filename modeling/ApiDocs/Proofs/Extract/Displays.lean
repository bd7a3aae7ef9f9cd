import ApiDocs.Proofs.Docs.PlainTexts
import ApiDocs.Proofs.Extract.TypeUnfolding
import ApiDocs.Proofs.Graph.BuilderRuns

/-!
# Displays and formatted descriptions

A type has a display, which is put together when the type is made, from the displays of its parts. Its
description is formatted by another program that lays out the same things: names before brackets, commas
between arguments, parentheses around what is a union or an intersection. The two agree on a type if they
agree on its parts, and `GraphBuilder.Draws` says of a single type what that takes. One difference is left.
To the one, the type of an enum is a union and needs parentheses as a part; to the other, it is a name.

So there is nothing to show about the descriptions as trees. If all types in a type are drawn so and there
are no more levels of them than are described, the text is the display.

## Main definitions

* `GraphBuilder.Draws`: the display of a type is put together as the text of its description is.
* `GraphBuilder.FormatsAs`: the text of a description is the display of a type.
* `GraphBuilder.AllDraw`: this is so for some types and all types in them.

## Main results

* `GraphBuilder.Draws.formatsAs`: a type is formatted as its display if its parts are.
* `GraphBuilder.AllDraw.describe_formatsAs`: types of few enough levels are formatted as their displays.
-/

namespace ApiDocs

namespace GraphBuilder

variable {b : GraphBuilder} {t : TypeId} {x : TypeNode} {s : SymbolId} {refs : RefTable SymbolId} {d : TypeDoc}

/-! ## Displays -/

/-- Is this the type of an enum? -/
def isEnum (b : GraphBuilder) (t : TypeId) : Bool := (b.graph.type? t).any (·.flags.has TypeFlags.enumBit)

/-- The display is put together, from the name of a symbol and the displays of the parts, in the way that
goes with the shape. -/
inductive Draws (b : GraphBuilder) (x : TypeNode) : Prop
  | plain (hshape : x.shape = .simple ∨ x.shape = .tuple ∨ x.shape = .unsupported)
    (hsingle : x.isCompound = false)
  | enumUnion {s : SymbolId} (hshape : x.shape = .enumUnion s) (hs : s.Within b.extent)
    (hdisplay : x.display = b.nameOf s) (henum : x.flags.has TypeFlags.enumBit = true)
  | named {s : SymbolId} (hshape : x.shape = .reference s []) (hs : s.Within b.extent)
    (hdisplay : x.display = b.nameOf s) (hsingle : x.isCompound = false)
  | generic {s : SymbolId} {as : List TypeId} (hshape : x.shape = .reference s as) (hne : as ≠ [])
    (hs : s.Within b.extent) (hdisplay : x.display = b.nameOf s ++ "<" ++ b.listDisplay as ++ ">")
    (hsingle : x.isCompound = false)
  | array {e : TypeId} (hshape : x.shape = .array e) (hdisplay : x.display = b.nestedDisplay e ++ "[]")
    (hsingle : x.isCompound = false) (he : b.isEnum e = false)
  | union {ms : List TypeId} (hshape : x.shape = .union ms)
    (hdisplay : x.display = " | ".intercalate (ms.map b.nestedDisplay)) (hcompound : x.isCompound = true)
    (hms : ∀ m ∈ ms, b.isEnum m = false)
  | intersection {ms : List TypeId} (hshape : x.shape = .intersection ms)
    (hdisplay : x.display = " & ".intercalate (ms.map b.nestedDisplay)) (hcompound : x.isCompound = true)
    (hms : ∀ m ∈ ms, b.isEnum m = false)

/-- With these references, the text of the description is the display of the type, also as a part of another
one if it is no enum. -/
structure FormatsAs (b : GraphBuilder) (refs : RefTable SymbolId) (t : TypeId) (d : TypeDoc) : Prop where
  alone : d.formatIn refs.refs false = b.displayOf t
  nested : b.isEnum t = false → d.formatIn refs.refs true = b.nestedDisplay t

theorem displayOf_eq (hx : b.graph.type? t = some x) : b.displayOf t = x.display := by
  rw [displayOf, hx]
  rfl

theorem nestedDisplay_of_single (hx : b.graph.type? t = some x) (hsingle : x.isCompound = false) :
    b.nestedDisplay t = x.display := by
  simp [nestedDisplay, hx, hsingle]

theorem nestedDisplay_of_compound (hx : b.graph.type? t = some x) (hcompound : x.isCompound = true) :
    b.nestedDisplay t = "(" ++ x.display ++ ")" := by
  simp [nestedDisplay, hx, hcompound]

theorem nameOf_typeHost (hs : s.Within b.extent) : b.graph.typeHost.nameOf s = b.nameOf s := by
  rw [nameOf, SymbolGraph.symbol?_eq_some hs]
  rfl

/-! ## Texts -/

/-- What is found in a table has the name that it is found by. -/
theorem formatIn_of_lookup {name : String} {r : RefId} (hr : refs.lookup s name = some r) (nested : Bool) :
    (TypeDoc.ref r []).formatIn refs.refs nested = name := by
  obtain ⟨i, hi, rfl⟩ := Option.map_eq_some_iff.mp hr
  obtain ⟨hlt, hfound, -⟩ := Array.findIdx?_eq_some_iff_getElem.mp hi
  simp only [Bool.and_eq_true, decide_eq_true_eq, beq_iff_eq] at hfound
  rw [TypeDoc.formatIn_ref, RefTable.refs, Array.getElem?_map, Array.getElem?_eq_getElem hlt]
  exact hfound.2

/-- Texts that are the same alone and as a part. -/
theorem FormatsAs.of_single (hx : b.graph.type? t = some x) (hsingle : x.isCompound = false)
    (h : ∀ nested, d.formatIn refs.refs nested = x.display) : b.FormatsAs refs t d where
  alone := (h false).trans (displayOf_eq hx).symm
  nested _ := (h true).trans (nestedDisplay_of_single hx hsingle).symm

/-- Texts that stand in parentheses as a part. -/
theorem FormatsAs.of_compound (hx : b.graph.type? t = some x) (hcompound : x.isCompound = true)
    (h : ∀ nested, d.formatIn refs.refs nested = parenthesized nested x.display) : b.FormatsAs refs t d where
  alone := (h false).trans (displayOf_eq hx).symm
  nested _ := (h true).trans (nestedDisplay_of_compound hx hcompound).symm

theorem map_eq_map_of_forall₂ {α β γ : Type} {R : α → β → Prop} {f : α → γ} {f' : β → γ} {as : List α}
    {bs : List β} (h : List.Forall₂ R as bs) (hR : ∀ a ∈ as, ∀ b, R a b → f' b = f a) :
    bs.map f' = as.map f := by
  induction h with
  | nil => rfl
  | cons hab _ ih =>
    obtain ⟨ha, has⟩ := List.forall_mem_cons.mp hR
    rw [List.map_cons, List.map_cons, ha _ hab, ih has]

/-- **A type is formatted as its display if its parts are.** -/
theorem Draws.formatsAs (h : b.Draws x) (hx : b.graph.type? t = some x)
    (hshow : b.graph.typeHost.Shows refs t d)
    (hparts : List.Forall₂ (b.FormatsAs refs) (b.graph.typeHost.parts t) d.parts) :
    b.FormatsAs refs t d := by
  rw [TypeHost.parts, SymbolGraph.typeHost_typeAt hx] at hparts
  rw [TypeHost.Shows, SymbolGraph.typeHost_typeAt hx] at hshow
  cases h with
  | plain hshape hsingle =>
    refine .of_single hx hsingle fun nested => ?_
    rcases hshape with hshape | hshape | hshape
    all_goals
      rw [hshape] at hshow
      subst hshow
      rfl
  | enumUnion hshape hs hdisplay henum =>
    rw [hshape] at hshow
    obtain ⟨r, hr, rfl⟩ := hshow
    rw [nameOf_typeHost hs] at hr
    refine ⟨?_, fun hplain => ?_⟩
    · rw [formatIn_of_lookup hr, displayOf_eq hx, hdisplay]
    · simp [isEnum, hx, henum] at hplain
  | named hshape hs hdisplay hsingle =>
    rw [hshape] at hshow
    obtain ⟨r, xs, hr, hlength, rfl⟩ := hshow
    rw [nameOf_typeHost hs] at hr
    obtain rfl := List.eq_nil_of_length_eq_zero hlength
    refine .of_single hx hsingle fun nested => ?_
    rw [formatIn_of_lookup hr, hdisplay]
  | @generic s as hshape hne hs hdisplay hsingle =>
    rw [hshape] at hshow hparts
    obtain ⟨r, xs, hr, hlength, rfl⟩ := hshow
    rw [nameOf_typeHost hs] at hr
    have hxs : xs ≠ [] := by
      rintro rfl
      exact hne (List.eq_nil_of_length_eq_zero hlength.symm)
    have htexts : xs.map (TypeDoc.formatIn refs.refs false) = as.map b.displayOf :=
      map_eq_map_of_forall₂ hparts fun _ _ _ hpart => hpart.alone
    refine .of_single hx hsingle fun nested => ?_
    rw [TypeDoc.formatIn_generic _ _ _ hxs, formatIn_of_lookup hr, htexts, hdisplay, listDisplay]
  | array hshape hdisplay hsingle he =>
    rw [hshape] at hshow hparts
    obtain ⟨y, rfl⟩ := hshow
    obtain ⟨hy, -⟩ := List.forall₂_cons.mp hparts
    refine .of_single hx hsingle fun nested => ?_
    rw [TypeDoc.formatIn_array, hy.nested he, hdisplay]
  | @union ms hshape hdisplay hcompound hms =>
    rw [hshape] at hshow hparts
    obtain ⟨xs, -, rfl⟩ := hshow
    have htexts : xs.map (TypeDoc.formatIn refs.refs true) = ms.map b.nestedDisplay :=
      map_eq_map_of_forall₂ hparts fun m hm _ hpart => hpart.nested (hms m hm)
    refine .of_compound hx hcompound fun nested => ?_
    rw [TypeDoc.formatIn_union, htexts, hdisplay]
  | @intersection ms hshape hdisplay hcompound hms =>
    rw [hshape] at hshow hparts
    obtain ⟨xs, -, rfl⟩ := hshow
    have htexts : xs.map (TypeDoc.formatIn refs.refs true) = ms.map b.nestedDisplay :=
      map_eq_map_of_forall₂ hparts fun m hm _ hpart => hpart.nested (hms m hm)
    refine .of_compound hx hcompound fun nested => ?_
    rw [TypeDoc.formatIn_intersection, htexts, hdisplay]

/-! ## Descriptions -/

theorem Draws.within (h : b.Draws x) (hparts : ∀ part ∈ x.shape.parts, part.Within b.extent) :
    x.shape.Within b.extent := by
  cases h with
  | plain hshape =>
    rcases hshape with hshape | hshape | hshape
    all_goals
      rw [hshape]
      trivial
  | enumUnion hshape hs =>
    rw [hshape]
    exact hs
  | named hshape hs | generic hshape _ hs =>
    rw [hshape] at hparts ⊢
    exact ⟨hs, hparts⟩
  | array hshape =>
    rw [hshape] at hparts ⊢
    exact hparts _ (List.mem_singleton_self _)
  | union hshape | intersection hshape =>
    rw [hshape] at hparts ⊢
    exact hparts

/-- Some types are there and drawn, and so are their parts, which are among them. -/
def AllDraw (b : GraphBuilder) (S : TypeId → Prop) : Prop :=
  ∀ t, S t → ∃ x, b.graph.type? t = some x ∧ b.Draws x ∧ ∀ part ∈ x.shape.parts, S part

section

variable {S : TypeId → Prop} (hS : b.AllDraw S)

include hS

theorem AllDraw.within (ht : S t) : t.Within b.extent := by
  obtain ⟨x, hx, -⟩ := hS t ht
  exact SymbolGraph.isSome_type?_iff.mp (by simp [hx])

/-- A description that shows all levels of a type is formatted as its display. -/
theorem AllDraw.formatsAs {height : Nat} (ht : S t) (hheight : b.graph.typeHost.HeightLe height t)
    (hd : b.graph.typeHost.ShowsWithin refs (height + 1) t d) : b.FormatsAs refs t d := by
  induction height generalizing t d with
  | zero =>
    obtain ⟨x, hx, hdraws, -⟩ := hS t ht
    obtain ⟨hshow, hparts⟩ := hd
    rw [TypeHost.HeightLe] at hheight
    rw [hheight, List.forall₂_nil_left_iff] at hparts
    refine hdraws.formatsAs hx hshow ?_
    rw [hheight, hparts]
    exact .nil
  | succ height ih =>
    obtain ⟨x, hx, hdraws, hmore⟩ := hS t ht
    obtain ⟨hshow, hparts⟩ := hd
    have hinner : ∀ part ∈ b.graph.typeHost.parts t, S part ∧ b.graph.typeHost.HeightLe height part := by
      intro part hp
      refine ⟨hmore part ?_, hheight part hp⟩
      rwa [TypeHost.parts, SymbolGraph.typeHost_typeAt hx] at hp
    refine hdraws.formatsAs hx hshow ?_
    exact ((List.forall₂_and_left _ _).mpr ⟨hinner, hparts⟩).imp fun part y hp => ih hp.1.1 hp.1.2 hp.2

/-- **Types of few enough levels are formatted as their displays**, with the references that there are after
the description or at any later time. -/
theorem AllDraw.describe_formatsAs (ht : S t) (hheight : b.graph.typeHost.HeightLe 64 t)
    (refs : RefTable SymbolId) : ∃ d refs', b.graph.describe t refs = .ok (d, refs') ∧
      ∀ later, TypeHost.lookupGrowth.Le refs' later → b.FormatsAs later t d := by
  have hdescribe := SymbolGraph.describeWithin_eq_embed_of (g := b.graph) (P := S) (fun t ht => by
    obtain ⟨x, hx, hdraws, hmore⟩ := hS t ht
    exact ⟨x, hx, hdraws.within fun part hp => hS.within (hmore part hp), hmore⟩) describedLevels ht
  refine ⟨_, _, congrFun hdescribe refs, fun later hlater => ?_⟩
  have hshow := (TypeHost.describeWithin_runs (h := b.graph.typeHost) describedLevels t refs).post
  exact hS.formatsAs ht hheight (TypeHost.showsWithin_stable describedLevels t _ _ _ hlater hshow)

end

end GraphBuilder

end ApiDocs
