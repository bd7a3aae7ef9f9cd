import ApiDocs.Extract.TypeShape

/-!
# Shapes of types that are made in one way

The facts of a type overlap, but who makes a type sets few of them at once. A type of one kind, with no
other facts than that kind has, has the shape of the kind.

## Main results

* `TypeNode.shape_of_intrinsic`: keywords are given by their display.
* `TypeNode.shape_of_object`: object types, by their kind.
* `TypeNode.shape_of_compound`: unions and intersections.
-/

namespace ApiDocs

namespace FlagSet

variable {names : FlagNames} {a b c : FlagSet names}

/-- A part of a set overlaps with nothing that the set does not overlap with. -/
theorem meets_eq_false_of_has (h : b.has a = true) (hc : b.meets c = false) : a.meets c = false := by
  rw [has, beq_iff_eq] at h
  rw [meets, bne_eq_false_iff_eq] at hc ⊢
  rw [← h, UInt32.and_comm b.bits, UInt32.and_assoc, hc, UInt32.and_zero]

theorem has_eq_false_of_meets (h : a.meets c = false) (hc : c ≠ none) : a.has c = false := by
  rw [meets, bne_eq_false_iff_eq] at h
  rw [has, h, beq_eq_false_iff_ne]
  intro hzero
  exact hc (congrArg FlagSet.mk hzero.symm)

end FlagSet

namespace TypeNode

variable {x : TypeNode} {kind : ObjectFlags}

theorem isObject_eq_false (h : x.flags.has TypeFlags.objectBit = false) (kinds : ObjectFlags) :
    x.isObject kinds = false := by
  rw [isObject, h, Bool.false_and]

theorem shape_of_simple (henum : x.flags.has TypeFlags.enumLiteralBit = false)
    (hsimple : x.isSimple = true) : x.shape = .simple := by
  rw [shape, if_neg (by simp [henum]), if_pos hsimple]

/-- The shape of an object type hangs on its kind. -/
theorem shape_of_object (hflags : x.flags = TypeFlags.objectBit) (hkind : x.objectFlags = kind)
    (hthis : x.isThisType = false) :
    x.shape =
      if kind.meets ObjectFlags.anonymousBit then .simple
      else if kind.meets ObjectFlags.referenceBit && !kind.meets ObjectFlags.tupleBit then
        x.instantiationShape
      else if kind.meets ObjectFlags.classOrInterface then x.referenceShape []
      else if kind.meets ObjectFlags.tupleBit then .tuple
      else .unsupported := by
  have hobject : ∀ kinds, x.isObject kinds = kind.meets kinds := by
    have hbit : TypeFlags.objectBit.has TypeFlags.objectBit = true := by decide
    intro kinds
    rw [isObject, hflags, hkind, hbit, Bool.true_and]
  have hsimple : x.isSimple = kind.meets ObjectFlags.anonymousBit := by
    rw [isSimple, hflags, hthis, hobject]
    rfl
  simp only [shape, hflags, hsimple, hobject]
  rfl

theorem shape_of_anonymous (hflags : x.flags = TypeFlags.objectBit)
    (hkind : x.objectFlags = ObjectFlags.anonymousBit) (hthis : x.isThisType = false) :
    x.shape = .simple := by
  rw [shape_of_object hflags hkind hthis, if_pos (by decide)]

theorem shape_of_declared (hflags : x.flags = TypeFlags.objectBit)
    (hkind : x.objectFlags = ObjectFlags.classBit ∨ x.objectFlags = ObjectFlags.interfaceBit)
    (hthis : x.isThisType = false) : x.shape = x.referenceShape [] := by
  rcases hkind with hkind | hkind
  all_goals
    rw [shape_of_object hflags hkind hthis, if_neg (by decide), if_neg (by decide), if_pos (by decide)]

theorem shape_of_instantiation (hflags : x.flags = TypeFlags.objectBit)
    (hkind : x.objectFlags = ObjectFlags.referenceBit) (hthis : x.isThisType = false) :
    x.shape = x.instantiationShape := by
  rw [shape_of_object hflags hkind hthis, if_neg (by decide), if_pos (by decide)]

theorem shape_of_compound {flags : TypeFlags} (hflags : x.flags = flags) (hthis : x.isThisType = false)
    (hcompound : flags = TypeFlags.unionBit ∨ flags = TypeFlags.intersectionBit) :
    x.shape = if flags = TypeFlags.unionBit then .union x.constituents else .intersection x.constituents := by
  have hobject : ∀ kinds, x.isObject kinds = false := by
    intro kinds
    rw [isObject, hflags]
    rcases hcompound with rfl | rfl <;> rfl
  have hsimple : x.isSimple = false := by
    rw [isSimple, hflags, hthis, hobject]
    rcases hcompound with rfl | rfl <;> rfl
  simp only [shape, hflags, hsimple, hobject]
  rcases hcompound with rfl | rfl <;> rfl

/-- Bits of keywords are none of the bits of other types. -/
theorem meets_of_intrinsic (h : TypeFlags.intrinsic.has x.flags = true) {bits : TypeFlags}
    (hbits : TypeFlags.intrinsic.meets bits = false) : x.flags.meets bits = false :=
  FlagSet.meets_eq_false_of_has h hbits

/-- A keyword is given by its display, also if it has no bits at all. -/
theorem shape_of_intrinsic (h : TypeFlags.intrinsic.has x.flags = true) :
    x.shape = .simple ∨ x.shape = .unsupported := by
  have hlacks : ∀ bits : TypeFlags, TypeFlags.intrinsic.meets bits = false → bits ≠ .none →
      x.flags.has bits = false :=
    fun bits hbits hne => FlagSet.has_eq_false_of_meets (meets_of_intrinsic h hbits) hne
  have hobject := isObject_eq_false (hlacks TypeFlags.objectBit (by decide) (by decide))
  cases hsimple : x.isSimple with
  | true => exact .inl (shape_of_simple (hlacks _ (by decide) (by decide)) hsimple)
  | false =>
    right
    rw [shape, hlacks TypeFlags.enumLiteralBit (by decide) (by decide), hsimple, hobject, hobject, hobject,
      meets_of_intrinsic h (by decide), hlacks TypeFlags.unionBit (by decide) (by decide),
      hlacks TypeFlags.intersectionBit (by decide) (by decide)]
    rfl

theorem shape_of_literal (hflags : x.flags = TypeFlags.stringLiteralBit ∨ x.flags = TypeFlags.numberLiteralBit) :
    x.shape = .simple := by
  have hbits : x.flags.has TypeFlags.enumLiteralBit = false ∧ x.flags.meets (TypeFlags.intrinsic ∪
      TypeFlags.stringLiteralBit ∪ TypeFlags.numberLiteralBit) = true := by
    rcases hflags with h | h <;> (rw [h]; decide)
  refine shape_of_simple hbits.1 ?_
  rw [isSimple, hbits.2, Bool.true_or, Bool.true_or]

theorem shape_of_thisType (hflags : x.flags = TypeFlags.typeParameterBit) (hthis : x.isThisType = true) :
    x.shape = .simple := by
  refine shape_of_simple (by rw [hflags]; decide) ?_
  rw [isSimple, hthis, Bool.or_true, Bool.true_or]

theorem shape_of_typeParameter (hflags : x.flags = TypeFlags.typeParameterBit) (hthis : x.isThisType = false) :
    x.shape = x.referenceShape [] := by
  have hobject := isObject_eq_false (x := x) (by rw [hflags]; decide)
  have hsimple : x.isSimple = false := by
    rw [isSimple, hobject, hflags, hthis]
    rfl
  simp only [shape, hsimple, hobject, hflags]
  rfl

theorem shape_of_enum {symbol : SymbolId}
    (hflags : x.flags = TypeFlags.enumLiteralBit ∪ TypeFlags.unionBit ∪ TypeFlags.enumBit)
    (hsymbol : x.symbol = some symbol) : x.shape = .enumUnion symbol := by
  have hunion : x.flags.has TypeFlags.enumLiteralBit = true ∧ x.flags.has TypeFlags.unionBit = true := by
    rw [hflags]
    decide
  rw [shape, if_pos hunion.1, enumShape, if_pos hunion.2, hsymbol]

theorem shape_of_tuple (hflags : x.flags = TypeFlags.objectBit)
    (hkind : x.objectFlags = ObjectFlags.referenceBit ∪ ObjectFlags.tupleBit) (hthis : x.isThisType = false) :
    x.shape = .tuple := by
  rw [shape_of_object hflags hkind hthis, if_neg (by decide), if_neg (by decide), if_neg (by decide),
    if_pos (by decide)]

theorem isCompound_of_flags (flags : TypeFlags) {compound : Bool} (hflags : x.flags = flags)
    (h : flags.meets (TypeFlags.unionBit ∪ TypeFlags.intersectionBit) = compound) :
    x.isCompound = compound := by
  rw [isCompound, hflags, h]

theorem isCompound_of_object (hflags : x.flags = TypeFlags.objectBit) : x.isCompound = false :=
  isCompound_of_flags TypeFlags.objectBit hflags (by decide)

theorem isCompound_of_typeParameter (hflags : x.flags = TypeFlags.typeParameterBit) : x.isCompound = false :=
  isCompound_of_flags TypeFlags.typeParameterBit hflags (by decide)

end TypeNode

end ApiDocs
