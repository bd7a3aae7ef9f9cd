import ApiDocs.Proofs.Binding.TypePhase
import ApiDocs.Proofs.Graph.Calls
import ApiDocs.Proofs.Docs.PlainTexts
import ApiDocs.Proofs.Extract.Builders
import ApiDocs.Proofs.Extract.TypeShapes
import ApiDocs.Proofs.TypeScript.FunctionTypes

/-!
# Documented types and their annotations

From an annotation to the text that documents it is a long way: the type becomes an expression, the
expression a type of the graph, the type a description, and the description a text. Parentheses are lost at
the start and put back at the end, and in between there are only facts about types.

At the end stands the text `TypeTree.shown` of the annotation: keywords and function types are known by
their display, classes and interfaces by the name of their symbol, and the shape of every other type is
that of the annotation. So the text parses as the annotation whenever that text does. It does not if a
function type is an operand: nothing tells the display of a function type from a name, so it is left
without parentheses, and an array of functions reads as a function that returns an array.

## Main definitions

* `SymbolGraph.Renders`: what is documented of a type is a text.
* `Linking.NamesIn`: the names in a type stand for classes and interfaces.

## Main results

* `Linking.MadeOf.renders`: types are documented by the texts of their annotations.
* `Linking.MadeOf.rendersReadably`: these parse as the annotations, if no function type is an operand.
* `Linking.callbacks_misread`: a function type that is an operand is misread.
-/

namespace ApiDocs

open TypeScript (TypeTree KeywordType FunctionText comma functionText isFunctionText_functionText
  functionArray_readsAsFunction isTypeName readableParameters_nil)

/-! ## Texts -/

theorem toList_parenthesized (nested : Bool) (text : String) :
    (parenthesized nested text).toList = TypeTree.grouped nested text.toList := by
  unfold parenthesized TypeTree.grouped
  split <;> simp

/-! ## Shapes of forms -/

namespace GraphBuilder

variable {b : GraphBuilder} {t : TypeId} {facts x : TypeNode} {s : SymbolId} {As Ms : List TypeForm}

/-- A type of a form has the facts, besides the types that it is made of. -/
theorem HasForm.node (h : b.HasForm (.made facts As Ms) t) (hx : b.graph.type? t = some x) :
    ∃ arguments members constructs,
      x = { facts with
        typeArguments := arguments, constituents := members, constructSignatures := constructs } ∧
      b.HaveForms As arguments ∧ b.HaveForms Ms members := by
  rw [HasForm] at h
  obtain ⟨y, hy, rfl, harguments, hmembers⟩ := h
  rw [typeCore?, hx, Option.map_some] at hy
  obtain rfl := Option.some.inj hy
  exact ⟨_, _, x.constructSignatures, rfl, harguments, hmembers⟩

theorem shape_keyword (k : KeywordType) (h : b.HasForm (.keyword k.flags k.word) t)
    (hx : b.graph.type? t = some x) : x.shape = .simple ∧ x.display = k.word := by
  obtain ⟨arguments, members, constructs, rfl, -⟩ := h.node hx
  have hflags : k.flags.has TypeFlags.enumLiteralBit = false ∧ k.flags.meets (TypeFlags.intrinsic ∪
      TypeFlags.stringLiteralBit ∪ TypeFlags.numberLiteralBit) = true := by
    cases k <;> decide
  refine ⟨TypeNode.shape_of_simple hflags.1 ?_, rfl⟩
  rw [TypeNode.isSimple, hflags.2, Bool.true_or, Bool.true_or]

theorem shape_anonymous {w : String} (h : b.HasForm (.anonymous w) t)
    (hx : b.graph.type? t = some x) : x.shape = .simple ∧ x.display = w := by
  obtain ⟨arguments, members, constructs, rfl, -⟩ := h.node hx
  exact ⟨TypeNode.shape_of_anonymous rfl rfl rfl, rfl⟩

theorem shape_instanceOf (h : b.HasForm (.instanceOf b s) t)
    (hx : b.graph.type? t = some x) : x.shape = .reference s [] := by
  obtain ⟨arguments, members, constructs, rfl, -⟩ := h.node hx
  refine TypeNode.shape_of_declared rfl ?_ rfl
  exact ite_eq_or_eq _ _ _

theorem shape_instantiation (hne : As ≠ []) (h : b.HasForm (.instantiation b s As) t)
    (hx : b.graph.type? t = some x) : ∃ a as, b.HaveForms As (a :: as) ∧
      x.shape = if b.nameOf s = "Array" then .array a else .reference s (a :: as) := by
  obtain ⟨arguments, members, constructs, rfl, harguments, -⟩ := h.node hx
  obtain ⟨f, fs, rfl⟩ := List.exists_cons_of_ne_nil hne
  rw [HaveForms] at harguments
  obtain ⟨a, as, rfl, ha, has⟩ := harguments
  refine ⟨a, as, haveForms_cons.mpr ⟨ha, has⟩, (TypeNode.shape_of_instantiation rfl rfl rfl).trans ?_⟩
  simp only [TypeNode.instantiationShape, TypeNode.arrayTarget, TypeNode.referenceShape, beq_iff_eq,
    Option.some.injEq]

theorem shape_array {f : TypeForm} (h : b.HasForm (.array b f) t)
    (hx : b.graph.type? t = some x) : ∃ a, b.HasForm f a ∧ x.shape = .array a := by
  obtain ⟨arguments, members, constructs, rfl, harguments, -⟩ := h.node hx
  rw [HaveForms] at harguments
  obtain ⟨a, as, rfl, ha, -⟩ := harguments
  exact ⟨a, ha, TypeNode.shape_of_instantiation rfl rfl rfl⟩

/-- The library's `Array` with one argument is no exception, since it has its name. -/
theorem shape_instantiate (harray : b.nameOf arraySymbol = "Array") (hne : As ≠ [])
    (h : b.HasForm (.instantiate b s As) t) (hx : b.graph.type? t = some x) :
    ∃ a as, b.HaveForms As (a :: as) ∧
      x.shape = if b.nameOf s = "Array" then .array a else .reference s (a :: as) := by
  match As, hne with
  | [f], hne =>
    rw [TypeForm.instantiate] at h
    split at h
    next hs =>
      obtain ⟨a, ha, hshape⟩ := shape_array h hx
      refine ⟨a, [], haveForms_cons.mpr ⟨ha, by rw [HaveForms]⟩, ?_⟩
      rw [hshape, hs, harray, if_pos rfl]
    next => exact shape_instantiation hne h hx
  | _ :: _ :: _, hne => exact shape_instantiation hne h hx

theorem shape_union (h : b.HasForm (.union b Ms) t) (hx : b.graph.type? t = some x) :
    ∃ ms, b.HaveForms Ms ms ∧ x.shape = .union ms := by
  obtain ⟨arguments, members, constructs, rfl, -, hmembers⟩ := h.node hx
  exact ⟨members, hmembers, TypeNode.shape_of_compound rfl rfl (.inl rfl)⟩

theorem shape_intersection (h : b.HasForm (.intersection b Ms) t) (hx : b.graph.type? t = some x) :
    ∃ ms, b.HaveForms Ms ms ∧ x.shape = .intersection ms := by
  obtain ⟨arguments, members, constructs, rfl, -, hmembers⟩ := h.node hx
  exact ⟨members, hmembers, TypeNode.shape_of_compound rfl rfl (.inr rfl)⟩

end GraphBuilder

/-! ## Documented texts -/

/-- From every table of references, the type is described without failure, and the description has the
text, with all the references that there are in the end. -/
def SymbolGraph.Renders (g : SymbolGraph) (t : TypeId) (text : String) : Prop :=
  ∀ refs, RefTable.Sound g refs → ∃ d refs', g.describe t refs = .ok (d, refs') ∧ refs'.Sound g ∧
    ∀ final, refs'.Le final → final.Sound g → d.format final.refs = text

theorem RefTable.sound_empty (g : SymbolGraph) : RefTable.empty.Sound g := by
  constructor <;> simp [RefTable.empty]

/-- A type is documented by one text only. -/
theorem SymbolGraph.Renders.unique {g : SymbolGraph} {t : TypeId} {text text' : String}
    (h : g.Renders t text) (h' : g.Renders t text') : text = text' := by
  obtain ⟨d, refs, hd, hsound, hformat⟩ := h _ (RefTable.sound_empty g)
  obtain ⟨d', refs', hd', hsound', hformat'⟩ := h' _ (RefTable.sound_empty g)
  obtain ⟨rfl, rfl⟩ := Prod.mk.inj (Except.ok.inj (hd.symm.trans hd'))
  rw [← hformat refs (.refl refs) hsound, hformat' refs (.refl refs) hsound]

/-! ## Types with known names -/

namespace TypeScript.TypeTree

mutual

/-- How many levels of types stand within each other. -/
def levels : TypeTree → Nat
  | .reference _ _ arguments => levelsAll arguments + 1
  | .array e => levels e + 1
  | .union ts => levelsAll ts + 1
  | .intersection ts => levelsAll ts + 1
  | _ => 1

/-- The most levels that one of the types has. -/
def levelsAll : List TypeTree → Nat
  | [] => 0
  | t :: ts => max (levels t) (levelsAll ts)

end

theorem levels_pos (T : TypeTree) : 0 < T.levels := by
  cases T <;> simp [levels]

end TypeScript.TypeTree

namespace Linking

variable (L : Linking) (site : Site)

/-- At the place, the name stands for a class or interface that is declared under this name, and that is
no enum as well. -/
def Names (n : String) : Prop :=
  ∃ s, L.target? (site.refer .asType (.name n)) = some s ∧
    (L.builder.flagsOf s).meets (SymbolFlags.classBit ∪ SymbolFlags.interfaceBit) = true ∧
    (L.builder.flagsOf s).meets (SymbolFlags.enumBit ∪ SymbolFlags.enumMemberBit) = false ∧
    L.builder.nameOf s = n

mutual

/-- All names in the type stand for classes and interfaces. -/
def NamesIn : TypeTree → Prop
  | .reference (.name n) _ arguments => L.Names site n ∧ NamesInAll arguments
  | .array e => NamesIn e
  | .union ts => NamesInAll ts
  | .intersection ts => NamesInAll ts
  | _ => True

/-- All names in the types stand for classes and interfaces. -/
def NamesInAll : List TypeTree → Prop
  | [] => True
  | t :: ts => NamesIn t ∧ NamesInAll ts

end

variable {L} {site}

theorem meaningOf_instantiable {s : SymbolId}
    (hdeclared : (L.builder.flagsOf s).meets (SymbolFlags.classBit ∪ SymbolFlags.interfaceBit) = true)
    (henum : (L.builder.flagsOf s).meets (SymbolFlags.enumBit ∪ SymbolFlags.enumMemberBit) = false) :
    L.meaningOf s = .instantiable := by
  simp only [meaningOf, henum, hdeclared]
  rfl

mutual

/-- No type alias is in a type whose names stand for classes and interfaces. -/
theorem NamesIn.uses : ∀ T : TypeTree, T.Ordinary → L.NamesIn site T →
    L.Uses (fun _ => False) (site.typeExpr T)
  | .reference (.name n) _ arguments, hT, h => by
    rw [TypeTree.Ordinary] at hT
    rw [NamesIn] at h
    obtain ⟨⟨s, htarget, hdeclared, henum, -⟩, harguments⟩ := h
    simp only [Site.typeExpr, Uses, htarget, meaningOf_instantiable hdeclared henum]
    exact NamesInAll.allUse arguments hT.2.2 harguments
  | .array e, hT, h => by
    rw [TypeTree.Ordinary] at hT
    rw [NamesIn] at h
    rw [Site.typeExpr, Uses]
    exact NamesIn.uses e hT h
  | .union ts, hT, h | .intersection ts, hT, h => by
    rw [TypeTree.Ordinary] at hT
    rw [NamesIn] at h
    rw [Site.typeExpr, Uses]
    exact NamesInAll.allUse ts hT.2 h
  | .keyword _, _, _ | .verbatim _, _, _ => by simp [Site.typeExpr, Uses]
  | .text _, hT, _ | .number _, hT, _ | .boolean _, hT, _ | .reference (.member _ _) _ _, hT, _
  | .tuple _, hT, _ | .this, hT, _ => by simp [TypeTree.Ordinary] at hT

theorem NamesInAll.allUse : ∀ ts : List TypeTree, TypeTree.AllOrdinary ts → L.NamesInAll site ts →
    L.AllUse (fun _ => False) (site.typeExprs ts)
  | [], _, _ => by simp [Site.typeExprs, AllUse]
  | T :: ts, hts, h => by
    rw [TypeTree.AllOrdinary] at hts
    rw [NamesInAll] at h
    rw [Site.typeExprs, AllUse]
    exact ⟨NamesIn.uses T hts.1 h.1, NamesInAll.allUse ts hts.2 h.2⟩

end

/-! ## Texts of annotations -/

section

variable {refs : RefTable SymbolId}

/-- A reference is written as the name of its symbol. -/
theorem formatIn_of_has (hrefs : refs.Sound L.builder.graph) {s : SymbolId} {r : RefId} (hr : refs.Has s r)
    (nested : Bool) : (TypeDoc.ref r []).formatIn refs.refs nested = L.builder.nameOf s := by
  obtain ⟨d, hd⟩ := hr
  obtain ⟨symbol, hsymbol, hname⟩ := hrefs.named hd
  rw [TypeDoc.formatIn_ref, RefTable.refs, Array.getElem?_map, hd, GraphBuilder.nameOf, hsymbol]
  exact hname

/-! ### One kind of annotation after the other -/

variable {k : Nat} {t : TypeId} {d : TypeDoc} {T : TypeTree} {ts : List TypeTree}

theorem keyword_shown {w : TypeScript.KeywordType} (hform : L.builder.HasForm (L.formOf (site.typeExpr (.keyword w))) t)
    (hd : L.builder.graph.Described refs (k + 1) t d) (nested : Bool) :
    (d.formatIn refs.refs nested).toList = (TypeTree.keyword w).shown nested := by
  obtain ⟨x, hx, hd⟩ := hd
  rw [Site.typeExpr, formOf, formWith] at hform
  obtain ⟨hshape, hdisplay⟩ := GraphBuilder.shape_keyword w hform hx
  rw [hshape] at hd
  obtain rfl := hd
  rw [hdisplay, TypeDoc.formatIn_name, TypeTree.shown]

theorem verbatim_shown {w : String} (hform : L.builder.HasForm (L.formOf (site.typeExpr (.verbatim w))) t)
    (hd : L.builder.graph.Described refs (k + 1) t d) (nested : Bool) :
    (d.formatIn refs.refs nested).toList = (TypeTree.verbatim w).shown nested := by
  obtain ⟨x, hx, hd⟩ := hd
  rw [Site.typeExpr, formOf, formWith] at hform
  obtain ⟨hshape, hdisplay⟩ := GraphBuilder.shape_anonymous hform hx
  rw [hshape] at hd
  obtain rfl := hd
  rw [hdisplay, TypeDoc.formatIn_name, TypeTree.shown]

/-- A class or interface without arguments reads as its name. -/
theorem bare_shown (hrefs : refs.Sound L.builder.graph) {n written : String}
    (hnames : L.NamesIn site (.reference (.name n) written []))
    (hform : L.builder.HasForm (L.formOf (site.typeExpr (.reference (.name n) written []))) t)
    (hd : L.builder.graph.Described refs (k + 1) t d) (nested : Bool) :
    (d.formatIn refs.refs nested).toList = (TypeTree.reference (.name n) written []).shown nested := by
  obtain ⟨x, hx, hd⟩ := hd
  rw [NamesIn] at hnames
  obtain ⟨⟨s, htarget, hdeclared, henum, rfl⟩, -⟩ := hnames
  simp only [Site.typeExpr, formOf, formWith, htarget, meaningOf_instantiable hdeclared henum,
    Site.typeExprs, formsWith] at hform
  rw [GraphBuilder.shape_instanceOf hform hx] at hd
  obtain ⟨r, ds, hr, hds, rfl⟩ := hd
  cases hds
  rw [formatIn_of_has hrefs hr, TypeTree.shown, List.isEmpty_nil, if_pos rfl]

/-- One with arguments reads as its name with these, or as an array of the first, given that they read as
they are written. -/
theorem instance_shown (hrefs : refs.Sound L.builder.graph)
    (harray : L.builder.nameOf GraphBuilder.arraySymbol = "Array") {n written : String}
    (hnames : L.NamesIn site (.reference (.name n) written (T :: ts)))
    (hform : L.builder.HasForm (L.formOf (site.typeExpr (.reference (.name n) written (T :: ts)))) t)
    (hd : L.builder.graph.Described refs (k + 1) t d)
    (hfirst : ∀ {t d}, L.builder.HasForm (L.formOf (site.typeExpr T)) t → L.builder.graph.Described refs k t d →
      (d.formatIn refs.refs true).toList = T.shown true)
    (hall : ∀ {ids ds}, L.builder.HaveForms (L.formsOf (site.typeExprs (T :: ts))) ids →
      List.Forall₂ (L.builder.graph.Described refs k) ids ds →
      (ds.map (TypeDoc.formatIn refs.refs false)).map String.toList = TypeTree.shownAll false (T :: ts))
    (nested : Bool) :
    (d.formatIn refs.refs nested).toList = (TypeTree.reference (.name n) written (T :: ts)).shown nested := by
  obtain ⟨x, hx, hd⟩ := hd
  rw [NamesIn] at hnames
  obtain ⟨⟨s, htarget, hdeclared, henum, rfl⟩, -⟩ := hnames
  simp only [Site.typeExpr, formOf, formWith, htarget, meaningOf_instantiable hdeclared henum] at hform
  obtain ⟨a, as, hforms, hshape⟩ :=
    GraphBuilder.shape_instantiate harray (by simp [Site.typeExprs, formsWith]) hform hx
  rw [hshape] at hd
  rw [TypeTree.shown, List.isEmpty_cons, if_neg (by decide)]
  by_cases hname : L.builder.nameOf s = "Array"
  · rw [if_pos hname] at hd ⊢
    obtain ⟨d, hd, rfl⟩ := hd
    rw [Site.typeExprs, formsWith, GraphBuilder.haveForms_cons] at hforms
    rw [TypeDoc.formatIn_array, String.toList_append, hfirst hforms.1 hd, TypeTree.shownAll]
    rfl
  · rw [if_neg hname] at hd ⊢
    obtain ⟨r, ds, hr, hds, rfl⟩ := hd
    have hne : ds ≠ [] := by
      rintro rfl
      cases hds
    simp only [TypeDoc.formatIn_generic _ _ _ hne, formatIn_of_has hrefs hr, String.toList_append,
      String.toList_intercalate, hall hforms hds]
    simp [comma]

theorem array_shown (hform : L.builder.HasForm (L.formOf (site.typeExpr (.array T))) t)
    (hd : L.builder.graph.Described refs (k + 1) t d)
    (helement : ∀ {t d}, L.builder.HasForm (L.formOf (site.typeExpr T)) t → L.builder.graph.Described refs k t d →
      (d.formatIn refs.refs true).toList = T.shown true) (nested : Bool) :
    (d.formatIn refs.refs nested).toList = (TypeTree.array T).shown nested := by
  obtain ⟨x, hx, hd⟩ := hd
  rw [Site.typeExpr, formOf, formWith] at hform
  obtain ⟨a, ha, hshape⟩ := GraphBuilder.shape_array hform hx
  rw [hshape] at hd
  obtain ⟨d, hd, rfl⟩ := hd
  rw [TypeDoc.formatIn_array, String.toList_append, helement ha hd, TypeTree.shown]
  rfl

theorem union_shown (hform : L.builder.HasForm (L.formOf (site.typeExpr (.union ts))) t)
    (hd : L.builder.graph.Described refs (k + 1) t d)
    (hmembers : ∀ {ids ds}, L.builder.HaveForms (L.formsOf (site.typeExprs ts)) ids →
      List.Forall₂ (L.builder.graph.Described refs k) ids ds →
      (ds.map (TypeDoc.formatIn refs.refs true)).map String.toList = TypeTree.shownAll true ts) (nested : Bool) :
    (d.formatIn refs.refs nested).toList = (TypeTree.union ts).shown nested := by
  obtain ⟨x, hx, hd⟩ := hd
  rw [Site.typeExpr, formOf, formWith] at hform
  obtain ⟨ms, hms, hshape⟩ := GraphBuilder.shape_union hform hx
  rw [hshape] at hd
  obtain ⟨ds, hds, rfl⟩ := hd
  rw [TypeDoc.formatIn_union, toList_parenthesized, String.toList_intercalate, hmembers hms hds, TypeTree.shown]
  rfl

theorem intersection_shown (hform : L.builder.HasForm (L.formOf (site.typeExpr (.intersection ts))) t)
    (hd : L.builder.graph.Described refs (k + 1) t d)
    (hmembers : ∀ {ids ds}, L.builder.HaveForms (L.formsOf (site.typeExprs ts)) ids →
      List.Forall₂ (L.builder.graph.Described refs k) ids ds →
      (ds.map (TypeDoc.formatIn refs.refs true)).map String.toList = TypeTree.shownAll true ts) (nested : Bool) :
    (d.formatIn refs.refs nested).toList = (TypeTree.intersection ts).shown nested := by
  obtain ⟨x, hx, hd⟩ := hd
  rw [Site.typeExpr, formOf, formWith] at hform
  obtain ⟨ms, hms, hshape⟩ := GraphBuilder.shape_intersection hform hx
  rw [hshape] at hd
  obtain ⟨ds, hds, rfl⟩ := hd
  rw [TypeDoc.formatIn_intersection, toList_parenthesized, String.toList_intercalate, hmembers hms hds,
    TypeTree.shown]
  rfl

mutual

/-- **A described type has the text of the annotation**, as long as no part of it is left out for its
depth. -/
theorem formatIn_eq_shown (hrefs : refs.Sound L.builder.graph)
    (harray : L.builder.nameOf GraphBuilder.arraySymbol = "Array") {k : Nat} {t : TypeId} {d : TypeDoc} :
    ∀ T : TypeTree, T.Ordinary → L.NamesIn site T → T.levels ≤ k →
      L.builder.HasForm (L.formOf (site.typeExpr T)) t → L.builder.graph.Described refs k t d →
      ∀ nested, (d.formatIn refs.refs nested).toList = T.shown nested := by
  intro T hT hnames hk hform hd nested
  obtain ⟨k, rfl⟩ : ∃ k', k = k' + 1 := ⟨k - 1, by have := T.levels_pos; omega⟩
  match T, hT, hnames, hk, hform with
  | .keyword w, _, _, _, hform => exact keyword_shown hform hd nested
  | .verbatim w, _, _, _, hform => exact verbatim_shown hform hd nested
  | .reference (.name n) written [], _, hnames, _, hform => exact bare_shown hrefs hnames hform hd nested
  | .reference (.name n) written (e :: es), hT, hnames, hk, hform =>
    have hinner := hnames
    rw [TypeTree.Ordinary] at hT
    rw [NamesIn] at hinner
    have hlevels : TypeTree.levelsAll (e :: es) ≤ k := by
      rw [TypeTree.levels] at hk
      omega
    refine instance_shown hrefs harray hnames hform hd (fun hform hd => ?_) (fun hforms hds => ?_) nested
    · rw [TypeTree.AllOrdinary] at hT
      rw [NamesInAll] at hinner
      rw [TypeTree.levelsAll] at hlevels
      exact formatIn_eq_shown hrefs harray e hT.2.2.1 hinner.2.1 (by omega) hform hd true
    · exact formatIn_eq_shownAll hrefs harray (e :: es) hT.2.2 hinner.2 hlevels hforms hds false
  | .array e, hT, hnames, hk, hform =>
    rw [TypeTree.Ordinary] at hT
    rw [NamesIn] at hnames
    rw [TypeTree.levels] at hk
    exact array_shown hform hd (fun hform hd =>
      formatIn_eq_shown hrefs harray e hT hnames (by omega) hform hd true) nested
  | .union ts, hT, hnames, hk, hform =>
    rw [TypeTree.Ordinary] at hT
    rw [NamesIn] at hnames
    rw [TypeTree.levels] at hk
    exact union_shown hform hd (fun hforms hds =>
      formatIn_eq_shownAll hrefs harray ts hT.2 hnames (by omega) hforms hds true) nested
  | .intersection ts, hT, hnames, hk, hform =>
    rw [TypeTree.Ordinary] at hT
    rw [NamesIn] at hnames
    rw [TypeTree.levels] at hk
    exact intersection_shown hform hd (fun hforms hds =>
      formatIn_eq_shownAll hrefs harray ts hT.2 hnames (by omega) hforms hds true) nested
  | .text _, hT, _, _, _ | .number _, hT, _, _, _ | .boolean _, hT, _, _, _
  | .reference (.member _ _) _ _, hT, _, _, _ | .tuple _, hT, _, _, _ | .this, hT, _, _, _ =>
    simp [TypeTree.Ordinary] at hT

theorem formatIn_eq_shownAll (hrefs : refs.Sound L.builder.graph)
    (harray : L.builder.nameOf GraphBuilder.arraySymbol = "Array") {k : Nat} {ids : List TypeId}
    {ds : List TypeDoc} : ∀ ts : List TypeTree, TypeTree.AllOrdinary ts → L.NamesInAll site ts →
      TypeTree.levelsAll ts ≤ k → L.builder.HaveForms (L.formsOf (site.typeExprs ts)) ids →
      List.Forall₂ (L.builder.graph.Described refs k) ids ds →
      ∀ nested, (ds.map (TypeDoc.formatIn refs.refs nested)).map String.toList = TypeTree.shownAll nested ts
  | [], _, _, _, hforms, hds, nested => by
    rw [Site.typeExprs, formsOf, formsWith, GraphBuilder.HaveForms] at hforms
    subst hforms
    cases hds
    rfl
  | T :: ts, hts, hnames, hk, hforms, hds, nested => by
    rw [TypeTree.AllOrdinary] at hts
    rw [NamesInAll] at hnames
    rw [TypeTree.levelsAll] at hk
    rw [Site.typeExprs, formsOf, formsWith, GraphBuilder.HaveForms] at hforms
    obtain ⟨id, rest, rfl, hform, hforms⟩ := hforms
    obtain ⟨d, ds, hd, hds', rfl⟩ := List.forall₂_cons_left_iff.mp hds
    have hk₁ : T.levels ≤ k := by omega
    have hk₂ : TypeTree.levelsAll ts ≤ k := by omega
    rw [List.map_cons, List.map_cons, formatIn_eq_shown hrefs harray T hts.1 hnames.1 hk₁ hform hd,
      formatIn_eq_shownAll hrefs harray ts hts.2 hnames.2 hk₂ hforms hds', TypeTree.shownAll]

end

end

/-! ## Reading the text again -/

variable {T : TypeTree} {t : TypeId}

theorem MadeOf.within {e : TypeExpr} (h : L.MadeOf e t) : t.Within L.builder.graph.extent := by
  obtain ⟨hl, he, hkeeps⟩ := h
  obtain ⟨x, hx⟩ := GraphBuilder.exists_typeCore? (materialize_takesForm hl he).post.within
  obtain ⟨y, hy, -⟩ := Option.map_eq_some_iff.mp (hkeeps.builder.type hx)
  exact (Array.getElem?_eq_some_iff.mp hy).1

/-- **Types are documented by the texts of their annotations.** -/
theorem MadeOf.renders (hL : L.Sound) (harray : L.builder.nameOf GraphBuilder.arraySymbol = "Array")
    (hmade : L.MadeOf (site.typeExpr T) t) (hT : T.Ordinary) (hnames : L.NamesIn site T)
    (hlevels : T.levels ≤ describedLevels) :
    L.builder.graph.Renders t (String.ofList (T.shown false)) := by
  intro refs hrefs
  have hform := hmade.hasForm (.inr (NamesIn.uses T hT hnames))
  have hdescribe := SymbolGraph.describeWithin_keeps (E := fun _ => False) hL.builder.graph describedLevels
    t hmade.within refs hrefs
  cases hrun : L.builder.graph.describe t refs with
  | error e => exact (hdescribe.of_error hrun).elim
  | ok result =>
    obtain ⟨d, refs'⟩ := result
    obtain ⟨hsound, -, hd⟩ := hdescribe.of_ok hrun
    refine ⟨d, refs', rfl, hsound, fun final hle hfinal => ?_⟩
    rw [← formatIn_eq_shown hfinal harray T hT hnames hlevels hform (hd.mono hle), String.ofList_toList]
    rfl

/-- **What is documented of a type reads as its annotation**, with `T[]` for `Array<T>`: if no function type
is an operand, and no `Array` has more than one argument. -/
theorem MadeOf.rendersReadably (hL : L.Sound) (harray : L.builder.nameOf GraphBuilder.arraySymbol = "Array")
    (hmade : L.MadeOf (site.typeExpr T) t) (hT : T.Ordinary) (hnames : L.NamesIn site T)
    (hlevels : T.levels ≤ describedLevels) (hclear : T.Clear) :
    ∃ text, L.builder.graph.Renders t text ∧ TypeTree.parse text = .ok T.spelled :=
  ⟨_, hmade.renders hL harray hT hnames hlevels, TypeTree.parse_shown hT hclear⟩

/-! ## Functions in types -/

/-- The symbols of a file with a class. -/
def shelfCalls : List BuilderCall := [.addModule "a.ts", .addSymbol "Box" SymbolFlags.classBit]

/-- The class is known, and no types were made yet. -/
def shelving : Linking where
  builder := (GraphBuilder.start.runAll? shelfCalls).getD {}
  modules := .empty
  locals := .ofList [(⟨1, 0, "Box"⟩, ⟨2⟩)]
  globals := .ofList [("Array", GraphBuilder.arraySymbol)]
  typeAliases := .empty

/-- The top of the file. -/
def shelfSite : Site := { (default : Site) with file := 1, frames := [⟨0, [("Box", .classLike)]⟩] }

theorem shelving_orderly : shelving.Orderly := by
  refine (blank_of_valid (by decide) ?_ (by decide) (by simp) (by decide)
    (by decide) (by simp)).prepared.orderly
  change 0 < shelving.builder.graph.symbols.size
  decide

/-- The type of an annotation at the top of the file. -/
def shelved (T : TypeTree) : TypeId × Linking := materialize (shelfSite.typeExpr T) shelving

theorem shelved_runs {T : TypeTree} (hT : (shelfSite.typeExpr T).Within shelving.extent) :
    making.Runs (materialize (shelfSite.typeExpr T)) shelving Anything :=
  (materialize_takesForm shelving_orderly hT).mono fun _ _ _ => trivial

theorem shelved_madeOf {T : TypeTree} (hT : (shelfSite.typeExpr T).Within shelving.extent) :
    (shelved T).2.MadeOf (shelfSite.typeExpr T) (shelved T).1 :=
  .intro shelving_orderly hT (.refl _)

theorem shelved_nameOf_array {T : TypeTree} (hT : (shelfSite.typeExpr T).Within shelving.extent) :
    (shelved T).2.builder.nameOf GraphBuilder.arraySymbol = "Array" := by
  have hname : shelving.builder.nameOf GraphBuilder.arraySymbol = "Array" := by decide
  rw [← hname]
  exact (shelved_runs hT).le.2.builder.nameOf_eq shelving_orderly.sound.builder.array

theorem ofList_functionText : String.ofList (functionText [] (.keyword .void)) = "() => void" := by
  decide

theorem functionText_void : FunctionText "() => void" := by
  rw [← ofList_functionText]
  exact isFunctionText_functionText readableParameters_nil (TypeTree.reads_keyword .void)

/-- The annotation `(Promise<() => void> | Array<Box>)[]`. -/
def shelf : TypeTree :=
  .array (.union [.reference (.name "Promise") "Promise" [.verbatim "() => void"],
    .reference (.name "Array") "Array" [.reference (.name "Box") "Box" []]])

/-- The annotation `(() => void)[]`. -/
def callbacks : TypeTree := .array (.verbatim "() => void")

theorem shelf_ordinary : shelf.Ordinary := by
  have hnames : isTypeName "Promise" = true ∧ isTypeName "Array" = true ∧
      isTypeName "Box" = true := by decide
  simp [shelf, TypeTree.Ordinary, TypeTree.AllOrdinary, hnames, functionText_void]

theorem shelf_namesIn : (shelved shelf).2.NamesIn shelfSite shelf := by
  have hpromise : (shelved shelf).2.Names shelfSite "Promise" := ⟨⟨3⟩, by decide +kernel⟩
  have harray : (shelved shelf).2.Names shelfSite "Array" := ⟨⟨0⟩, by decide +kernel⟩
  have hbox : (shelved shelf).2.Names shelfSite "Box" := ⟨⟨2⟩, by decide +kernel⟩
  generalize (shelved shelf).2 = L at hpromise harray hbox ⊢
  simp [shelf, NamesIn, NamesInAll, hpromise, harray, hbox]

theorem shelf_within : (shelfSite.typeExpr shelf).Within shelving.extent := by
  simp [shelf, Site.typeExpr, Site.typeExprs, TypeExpr.Within, TypeExpr.AllWithin]

theorem shelf_clear : shelf.Clear := by
  simp [shelf, TypeTree.Clear, TypeTree.AllClear, TypeTree.isOperand]

/-- The documentation of the type reads as `(Promise<() => void> | Box[])[]`. -/
theorem shelf_rendersReadably : ∃ text, (shelved shelf).2.builder.graph.Renders (shelved shelf).1 text ∧
    TypeTree.parse text = .ok shelf.spelled :=
  (shelved_madeOf shelf_within).rendersReadably (shelved_runs shelf_within).good.sound
    (shelved_nameOf_array shelf_within)
    shelf_ordinary shelf_namesIn (by decide) shelf_clear

theorem callbacks_ordinary : callbacks.Ordinary := by
  simpa [callbacks, TypeTree.Ordinary] using functionText_void

theorem callbacks_namesIn (L : Linking) (site : Site) : L.NamesIn site callbacks := by
  simp [callbacks, NamesIn]

theorem callbacks_within : (shelfSite.typeExpr callbacks).Within shelving.extent := by
  simp [callbacks, Site.typeExpr, TypeExpr.Within]

theorem callbacks_readsAsFunction : callbacks.ReadsAsFunction := by
  rw [callbacks, ← ofList_functionText]
  exact functionArray_readsAsFunction readableParameters_nil (TypeTree.reads_keyword .void) rfl rfl

theorem callbacks_renders :
    (shelved callbacks).2.builder.graph.Renders (shelved callbacks).1 "() => void[]" := by
  have hrenders := (shelved_madeOf callbacks_within).renders (shelved_runs callbacks_within).good.sound
    (shelved_nameOf_array callbacks_within) callbacks_ordinary (callbacks_namesIn _ _) (by decide)
  rwa [(by decide : String.ofList (callbacks.shown false) = "() => void[]")] at hrenders

/-- **An array of functions is documented as a function that returns an array.** -/
theorem callbacks_misread :
    callbacks.Ordinary ∧ (shelved callbacks).2.NamesIn shelfSite callbacks ∧
      callbacks.levels ≤ describedLevels ∧
      (shelved callbacks).2.MadeOf (shelfSite.typeExpr callbacks) (shelved callbacks).1 ∧
      (shelved callbacks).2.builder.graph.Renders (shelved callbacks).1 "() => void[]" ∧
      TypeTree.parse "() => void[]" = .ok (.verbatim "() => void[]") ∧
      ¬ ∃ text, (shelved callbacks).2.builder.graph.Renders (shelved callbacks).1 text ∧
        TypeTree.parse text = .ok callbacks.spelled := by
  have hparse : TypeTree.parse "() => void[]" = .ok (.verbatim "() => void[]") := by
    have hreads := callbacks_readsAsFunction
    rwa [TypeTree.ReadsAsFunction,
      (by decide : String.ofList (callbacks.shown false) = "() => void[]")] at hreads
  refine ⟨callbacks_ordinary, callbacks_namesIn _ _, by decide, shelved_madeOf callbacks_within,
    callbacks_renders, hparse, ?_⟩
  rintro ⟨text, hrenders, htext⟩
  rw [hrenders.unique callbacks_renders, hparse] at htext
  simp [callbacks, TypeTree.spelled] at htext

end Linking

end ApiDocs
