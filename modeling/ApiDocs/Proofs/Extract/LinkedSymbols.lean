import ApiDocs.Proofs.Binding.DocumentedArrays
import ApiDocs.Proofs.Binding.LinkedMembers
import ApiDocs.Proofs.Extract.Extraction

/-!
# Symbols of linked drafts

What extraction sees of a symbol is what the builder of the graph holds of it. Linking leaves members alone, and
of declarations all but what they extend and the types of index signatures, so a symbol that was declared once is
seen as it was declared.

## Main results

* `GraphBuilder.viewAt_of_sole`: what is seen of a symbol that is declared once.
* `GraphDraft.link_viewAt_of_sole`: so it is seen when a draft is linked.
-/

namespace ApiDocs

theorem Symbol.ownDeclaration_of_sole {s : Symbol} {x : Declaration} (h : s.declarations = [x]) :
    s.ownDeclaration = some x := by
  unfold ownDeclaration
  rw [h]
  cases hvalue : s.valueDeclaration? with
  | none => rfl
  | some value =>
    obtain ⟨i, -, hi⟩ := Option.bind_eq_some_iff.mp hvalue
    rw [h] at hi
    obtain rfl : value = x := List.mem_singleton.mp (List.mem_of_getElem? hi)
    simp

namespace GraphBuilder

variable {b b' : GraphBuilder} {s : SymbolId} {S : SymbolId → Prop} {T : SymbolId → Nat → Prop} {x : Declaration}

/-! ## What is seen of a symbol -/

theorem symbolAt_flags (hs : s.Within b.extent) : (b.graph.symbolAt s).flags = b.flagsOf s := by
  rw [flagsOf, SymbolGraph.symbol?_eq_some hs]
  rfl

theorem symbolAt_exports (hs : s.Within b.extent) : (b.graph.symbolAt s).exports = b.exportsOf s := by
  rw [exportsOf, SymbolGraph.symbol?_eq_some hs]
  rfl

theorem symbolAt_members (hs : s.Within b.extent) : (b.graph.symbolAt s).members = b.membersOf s := by
  rw [membersOf, SymbolGraph.symbol?_eq_some hs]
  rfl

theorem symbolAt_name (hs : s.Within b.extent) : (b.graph.symbolAt s).name = b.nameOf s := by
  rw [nameOf, SymbolGraph.symbol?_eq_some hs]
  rfl

theorem symbolAt_declarations (hs : s.Within b.extent) : (b.graph.symbolAt s).declarations = b.declarationsOf s := by
  rw [declarationsOf, SymbolGraph.symbol?_eq_some hs]
  rfl

theorem symbolAt_kinds (hs : s.Within b.extent) : (b.graph.symbolAt s).declarations.map (·.kind) = b.kindsOf s := by
  rw [symbolAt_declarations hs, kindsOf]

theorem symbolAt_typeId (hs : s.Within b.extent) : (b.graph.symbolAt s).typeId = b.typeOf s := by
  rw [typeOf, SymbolGraph.symbol?_eq_some hs]
  rfl

/-- **What is seen of a symbol that is declared once.** -/
theorem viewAt_of_sole (hs : s.Within b.extent) (hx : b.declarationsOf s = [x]) :
    b.graph.viewAt s = {
      symbol := s, name := b.nameOf s, flags := b.flagsOf s, declaration := some x, typeId := b.typeOf s
      pos := some x.pos, doc := Text.nonBlank? (b.graph.symbolAt s).doc } := by
  have hown := Symbol.ownDeclaration_of_sole ((symbolAt_declarations hs).trans hx)
  rw [SymbolGraph.viewAt, Symbol.view, hown, symbolAt_name hs, symbolAt_flags hs, symbolAt_typeId hs]
  rfl

/-- The types of an index signature are those of its sole declaration. -/
theorem indexAt_of_sole (hs : s.Within b.extent) (hx : b.declarationsOf s = [x]) : b.indexAt s 0 = x.index := by
  rw [indexAt, SymbolGraph.symbol?_eq_some hs, Option.bind_some, symbolAt_declarations hs, hx]
  rfl

/-! ## Symbols that linking touches -/

theorem Touches.membersOf_eq (h : b.Touches S T b') (hs : s.Within b.extent) : b'.membersOf s = b.membersOf s := by
  obtain ⟨x, y, hx, hy, hbare⟩ := h.exists_bare_eq hs
  rw [membersOf, membersOf, hx, hy]
  exact congrArg (·.members) hbare

/-- A symbol that is declared once stays so. -/
theorem Touches.exists_sole (h : b.Touches S T b') (hs : s.Within b.extent) (hx : b.declarationsOf s = [x]) :
    ∃ y, b'.declarationsOf s = [y] ∧ y.bare = x.bare := by
  obtain ⟨z, z', hz, hz', hbare⟩ := h.exists_bare_eq hs
  have hdeclarations : z'.declarations.map Declaration.bare = z.declarations.map Declaration.bare :=
    congrArg (·.declarations) hbare
  rw [declarationsOf, hz] at hx
  rw [declarationsOf, hz']
  rw [show z.declarations = [x] from hx] at hdeclarations
  exact List.map_eq_singleton_iff.mp hdeclarations

/-- Flags that are not there stay so, but for those of aliases. -/
theorem Touches.meets_eq_false (h : b.Touches S T b') (hs : s.Within b.extent) {f : SymbolFlags}
    (hf : (b.flagsOf s ∪ SymbolFlags.aliasBit).meets f = false) : (b'.flagsOf s).meets f = false := by
  obtain ⟨x, y, hx, hy, hbare⟩ := h.exists_bare_eq hs
  have hflags : y.flags ∪ SymbolFlags.aliasBit = x.flags ∪ SymbolFlags.aliasBit := congrArg (·.flags) hbare
  rw [flagsOf, hx] at hf
  rw [flagsOf, hy]
  refine FlagSet.meets_eq_false_of_has ?_ hf
  change (x.flags ∪ SymbolFlags.aliasBit).has y.flags = true
  rw [← hflags]
  exact FlagSet.has_union (beq_iff_eq.mpr UInt32.and_self)

end GraphBuilder

namespace GraphDraft

variable {d : GraphDraft} {s : SymbolId} {x : Declaration}

/-- **A symbol that was declared once** is seen as it was declared when the draft is linked. -/
theorem link_viewAt_of_sole (hd : d.Sound) (hu : d.Untyped) (hs : s.Within d.extent)
    (hx : d.builder.declarationsOf s = [x]) : ∃ y : Declaration, y.bare = x.bare ∧
      d.linked.builder.indexAt s 0 = y.index ∧ d.link.viewAt s = {
        symbol := s, name := d.builder.nameOf s, flags := d.linked.builder.flagsOf s, declaration := some y
        typeId := d.linked.builder.typeOf s, pos := some x.pos
        doc := Text.nonBlank? (d.linked.builder.graph.symbolAt s).doc } := by
  have htouches := linked_touches hd hu
  obtain ⟨y, hy, hbare⟩ := htouches.exists_sole hs hx
  refine ⟨y, hbare, GraphBuilder.indexAt_of_sole (htouches.within hs) hy, ?_⟩
  have hpos : y.pos = x.pos := congrArg (·.pos) hbare
  rw [link_eq, GraphBuilder.viewAt_of_sole (htouches.within hs) hy, htouches.nameOf_eq hs, hpos]

/-- It leads to what its sole declaration does. -/
theorem link_route?_of_sole (hd : d.Sound) (hu : d.Untyped) {k : DeclarationKind} (hk : d.builder.kindsOf s = [k]) :
    d.link.route? s = some k.route := by
  have hs : s.Within d.extent := GraphBuilder.within_of_kindsOf (by simp [hk])
  obtain ⟨x, hx, rfl⟩ := List.map_eq_singleton_iff.mp hk
  obtain ⟨y, hbare, -, hview⟩ := link_viewAt_of_sole hd hu hs hx
  have hkind : y.kind = x.kind := congrArg (·.kind) hbare
  simp [SymbolGraph.route?, SymbolView.kind, hview, hkind]

/-- A layout is no matter of enums. -/
theorem laidOut_enumerated (h : d.Enumerated) (layout : Option OutputLayout) : (d.laidOut layout).Enumerated := by
  cases layout with
  | none => exact h
  | some l =>
    exact { h with
      homed := { h.homed with inside := { h.homed.inside with } }
      owners := fun s hs => ⟨(h.owners s hs).1, { (h.owners s hs).2 with }⟩ }

end GraphDraft

end ApiDocs
