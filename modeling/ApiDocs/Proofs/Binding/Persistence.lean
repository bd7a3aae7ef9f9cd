import ApiDocs.Proofs.Binding.Linking

/-!
# What lasts while types are made

When aliases have their targets and enums their types, linking goes on to make types. From then on
names keep their meaning. Symbols and types that are there stay as they are, but that symbols get their
types, declarations what they mention, and types their constructors. The only symbols that are added
are those of interfaces of the library, for names that were not known.

So what a name stands for can be looked up at any later time: the answer is the same, but that a name
that was not known may stand for one of these interfaces.

## Main definitions

* `GraphBuilder.Keeps`: what there is stays, and new symbols are bare interfaces.
* `Linking.Keeps`: the same for linking, where names keep their meaning.

## Main results

* `Linking.Keeps.lookup?_eq_some`, `Linking.Keeps.meaningOf_eq`: names keep their meaning.
* `Linking.Keeps.lookup?_eq_none`: a name that is not known stays so, unless the library is asked for it.
-/

namespace ApiDocs

/-! ## Builders -/

/-- A symbol without its declarations and its type. -/
def Symbol.core (s : Symbol) : Symbol :=
  { s with declarations := [], valueDeclaration := none, typeId := none }

/-- A type without its constructors. -/
def TypeNode.core (t : TypeNode) : TypeNode := { t with constructSignatures := [] }

namespace GraphBuilder

variable {b b' b'' : GraphBuilder} {id s : SymbolId} {t : TypeId}

/-- The symbol at a position, without its declarations and its type. -/
def symbolCore? (b : GraphBuilder) (id : SymbolId) : Option Symbol :=
  (b.graph.symbol? id).map Symbol.core

/-- The type at a position, without its constructors. -/
def typeCore? (b : GraphBuilder) (t : TypeId) : Option TypeNode :=
  (b.graph.type? t).map TypeNode.core

/-- What there is stays, and symbols that are added are bare interfaces. -/
structure Keeps (b b' : GraphBuilder) : Prop where
  symbol : ∀ {id x}, b.symbolCore? id = some x → b'.symbolCore? id = some x
  fresh : ∀ {id x}, b.symbolCore? id = none → b'.symbolCore? id = some x →
    x = { name := x.name, flags := SymbolFlags.interfaceBit }
  type : ∀ {t x}, b.typeCore? t = some x → b'.typeCore? t = some x

theorem symbolCore?_eq_none_iff : b.symbolCore? id = none ↔ b.graph.symbol? id = none := by
  simp [symbolCore?]

theorem exists_symbolCore? (h : id.Within b.extent) : ∃ x, b.symbolCore? id = some x := by
  simp [symbolCore?, SymbolGraph.symbol?, Array.getElem?_eq_getElem h]

theorem exists_typeCore? (h : t.Within b.extent) : ∃ x, b.typeCore? t = some x := by
  simp [typeCore?, SymbolGraph.type?, Array.getElem?_eq_getElem h]

namespace Keeps

theorem refl (b : GraphBuilder) : b.Keeps b where
  symbol h := h
  fresh h h' := by rw [h] at h'; cases h'
  type h := h

theorem trans (h : b.Keeps b') (h' : b'.Keeps b'') : b.Keeps b'' where
  symbol hx := h'.symbol (h.symbol hx)
  fresh {id x} hnone hx := by
    cases hx' : b'.symbolCore? id with
    | none => exact h'.fresh hx' hx
    | some y =>
      obtain rfl := Option.some.inj ((h'.symbol hx').symm.trans hx)
      exact h.fresh hnone hx'
  type hx := h'.type (h.type hx)

/-- No symbol is added, and what there is stays. -/
theorem of_symbolCore?_eq (hsymbol : ∀ id, b'.symbolCore? id = b.symbolCore? id)
    (htype : ∀ {t x}, b.typeCore? t = some x → b'.typeCore? t = some x) : b.Keeps b' where
  symbol h := (hsymbol _).trans h
  fresh hnone h := by rw [hsymbol, hnone] at h; cases h
  type := htype

/-- Changing a symbol keeps what there is, unless its core is changed. -/
theorem modifySymbol {f : Symbol → Symbol} (hf : ∀ x, (f x).core = x.core) :
    b.Keeps (b.modifySymbol id f) := by
  refine of_symbolCore?_eq (fun i => ?_) fun h => h
  simp only [symbolCore?, GraphBuilder.modifySymbol, SymbolGraph.symbol?, Array.getElem?_modify]
  split
  · cases b.graph.symbols[i.index]? <;> simp [hf]
  · rfl

/-- Changing a type keeps what there is, unless its core is changed. -/
theorem modifyType {f : TypeNode → TypeNode} (hf : ∀ x, (f x).core = x.core) :
    b.Keeps (b.modifyType t f) := by
  refine of_symbolCore?_eq (fun _ => rfl) fun {i x} h => ?_
  rw [← h]
  simp only [typeCore?, GraphBuilder.modifyType, SymbolGraph.type?, Array.getElem?_modify]
  split
  · cases b.graph.types[i.index]? <;> simp [hf]
  · rfl

theorem addType (n : TypeNode) : b.Keeps (b.addType n).2 := by
  refine of_symbolCore?_eq (fun _ => rfl) fun {i x} h => ?_
  obtain ⟨y, hy, rfl⟩ := Option.map_eq_some_iff.mp h
  obtain ⟨hi, rfl⟩ := Array.getElem?_eq_some_iff.mp hy
  simp [typeCore?, SymbolGraph.type?, GraphBuilder.addType, Array.getElem?_push_lt hi]

theorem addSymbol (name : String) : b.Keeps (b.addSymbol name SymbolFlags.interfaceBit).2 where
  symbol {id x} h := by
    obtain ⟨y, hy, rfl⟩ := Option.map_eq_some_iff.mp h
    obtain ⟨hid, rfl⟩ := Array.getElem?_eq_some_iff.mp hy
    simp [symbolCore?, SymbolGraph.symbol?, GraphBuilder.addSymbol, Array.getElem?_push_lt hid]
  fresh {id x} hnone h := by
    rw [symbolCore?_eq_none_iff, SymbolGraph.symbol?, Array.getElem?_eq_none_iff] at hnone
    obtain ⟨y, hy, rfl⟩ := Option.map_eq_some_iff.mp h
    simp only [SymbolGraph.symbol?, GraphBuilder.addSymbol, Array.getElem?_push] at hy
    split at hy
    · cases hy
      rfl
    · rw [Array.getElem?_eq_none_iff.mpr hnone] at hy
      cases hy
  type h := h

theorem intrinsic (flags : TypeFlags) (display : String) :
    b.Keeps (b.intrinsic flags display).2 := by
  unfold GraphBuilder.intrinsic
  split
  · exact refl b
  · exact (addType _).trans (of_symbolCore?_eq (fun _ => rfl) fun h => h)

end Keeps

/-! ### Reading -/

theorem nameOf_eq_core : b.nameOf id = ((b.symbolCore? id).map (·.name)).getD "" := by
  simp [nameOf, symbolCore?, Symbol.core, Function.comp_def]

theorem flagsOf_eq_core : b.flagsOf id = ((b.symbolCore? id).map (·.flags)).getD .none := by
  simp [flagsOf, symbolCore?, Symbol.core, Function.comp_def]

theorem exportsOf_eq_core : b.exportsOf id = ((b.symbolCore? id).map (·.exports)).getD .empty := by
  simp [exportsOf, symbolCore?, Symbol.core, Function.comp_def]

theorem aliasOf_eq_core : b.aliasOf id = (b.symbolCore? id).bind (·.aliasOf) := by
  simp [aliasOf, symbolCore?, Symbol.core, Option.bind_map, Function.comp_def]

theorem displayOf_eq_core : b.displayOf t = ((b.typeCore? t).map (·.display)).getD "" := by
  simp [displayOf, typeCore?, TypeNode.core, Function.comp_def]

theorem nestedDisplay_eq_core : b.nestedDisplay t =
    ((b.typeCore? t).map fun x =>
      if x.isCompound then "(" ++ x.display ++ ")" else x.display).getD "" := by
  unfold nestedDisplay typeCore?
  cases b.graph.type? t <;> rfl

namespace Keeps

variable (h : b.Keeps b')

include h

section

variable (hid : id.Within b.extent)

include hid

theorem symbolCore?_eq : b'.symbolCore? id = b.symbolCore? id := by
  obtain ⟨x, hx⟩ := exists_symbolCore? hid
  rw [hx, h.symbol hx]

theorem nameOf_eq : b'.nameOf id = b.nameOf id := by
  rw [nameOf_eq_core, nameOf_eq_core, h.symbolCore?_eq hid]

theorem flagsOf_eq : b'.flagsOf id = b.flagsOf id := by
  rw [flagsOf_eq_core, flagsOf_eq_core, h.symbolCore?_eq hid]

theorem exportsOf_eq : b'.exportsOf id = b.exportsOf id := by
  rw [exportsOf_eq_core, exportsOf_eq_core, h.symbolCore?_eq hid]

theorem aliasOf_eq : b'.aliasOf id = b.aliasOf id := by
  rw [aliasOf_eq_core, aliasOf_eq_core, h.symbolCore?_eq hid]

end

section

variable (ht : t.Within b.extent)

include ht

theorem typeCore?_eq : b'.typeCore? t = b.typeCore? t := by
  obtain ⟨x, hx⟩ := exists_typeCore? ht
  rw [hx, h.type hx]

theorem displayOf_eq : b'.displayOf t = b.displayOf t := by
  rw [displayOf_eq_core, displayOf_eq_core, h.typeCore?_eq ht]

theorem nestedDisplay_eq : b'.nestedDisplay t = b.nestedDisplay t := by
  rw [nestedDisplay_eq_core, nestedDisplay_eq_core, h.typeCore?_eq ht]

end

/-- A symbol that was not there exports nothing and is no alias. -/
theorem exportsOf_fresh (hnone : b.symbolCore? id = none) : b'.exportsOf id = .empty := by
  rw [exportsOf_eq_core]
  cases hx : b'.symbolCore? id with
  | none => rfl
  | some x =>
    rw [h.fresh hnone hx]
    rfl

theorem aliasOf_fresh (hnone : b.symbolCore? id = none) : b'.aliasOf id = none := by
  rw [aliasOf_eq_core]
  cases hx : b'.symbolCore? id with
  | none => rfl
  | some x =>
    rw [h.fresh hnone hx]
    rfl

end Keeps

end GraphBuilder

/-! ## Linking -/

namespace Linking

variable {l l' l'' : Linking} {s : SymbolId} {ref : NameRef}

/-- Names keep their meaning. What the library is asked for becomes known. -/
structure Keeps (l l' : Linking) : Prop where
  builder : l.builder.Keeps l'.builder
  locals : l'.locals = l.locals
  typeAliases : l'.typeAliases = l.typeAliases
  enumTypes : l'.enumTypes = l.enumTypes
  globals : ∀ {name s}, l.globals.get? name = some s → l'.globals.get? name = some s
  newGlobals : ∀ {name s}, l.globals.get? name = none → l'.globals.get? name = some s →
    l.builder.symbolCore? s = none

namespace Keeps

theorem refl (l : Linking) : l.Keeps l where
  builder := .refl _
  locals := rfl
  typeAliases := rfl
  enumTypes := rfl
  globals h := h
  newGlobals h h' := by rw [h] at h'; cases h'

theorem trans (h : l.Keeps l') (h' : l'.Keeps l'') : l.Keeps l'' where
  builder := h.builder.trans h'.builder
  locals := h'.locals.trans h.locals
  typeAliases := h'.typeAliases.trans h.typeAliases
  enumTypes := h'.enumTypes.trans h.enumTypes
  globals hs := h'.globals (h.globals hs)
  newGlobals {name s} hnone hs := by
    cases hs' : l'.globals.get? name with
    | none =>
      have hlater : l'.builder.symbolCore? s = none := h'.newGlobals hs' hs
      refine Option.eq_none_iff_forall_ne_some.mpr fun x hx => ?_
      rw [h.builder.symbol hx] at hlater
      cases hlater
    | some s' =>
      obtain rfl := Option.some.inj ((h'.globals hs').symm.trans hs)
      exact h.newGlobals hnone hs'

/-- A step on the graph alone. -/
theorem of_builder {b : GraphBuilder} (h : l.builder.Keeps b) : l.Keeps { l with builder := b } :=
  { refl l with builder := h }

/-! ### Names -/

variable (h : l.Keeps l') (hl : l.Sound)

include h hl

theorem followFrom_eq {n : Nat} {seen : List SymbolId} (hs : s.Within l.extent) :
    followFrom l'.builder n seen s = followFrom l.builder n seen s := by
  induction n generalizing seen s with
  | zero => rfl
  | succ n ih =>
    unfold followFrom
    rw [h.builder.aliasOf_eq hs]
    split
    next t ht =>
      split
      · rfl
      · exact ih (GraphBuilder.within_of_aliasOf hl.builder ht)
    next => rfl

theorem followAlias_eq (hs : s.Within l.extent) :
    followAlias l'.builder s = followAlias l.builder s :=
  h.followFrom_eq hl hs

theorem exportOf?_eq (hs : s.Within l.extent) (name : String) :
    exportOf? l'.builder (followAlias l'.builder s) name =
      exportOf? l.builder (followAlias l.builder s) name := by
  unfold exportOf?
  rw [h.followAlias_eq hl hs, h.builder.exportsOf_eq (followAlias_within hl.builder hs)]

/-- A name that is known keeps its symbol. -/
theorem lookup?_eq_some (hs : l.lookup? ref = some s) : l'.lookup? ref = some s := by
  induction ref generalizing s with
  | bound binding =>
    unfold lookup? at hs ⊢
    rwa [h.locals]
  | within left name ih =>
    obtain ⟨x, hx, hs⟩ := Option.bind_eq_some_iff.mp hs
    refine Option.bind_eq_some_iff.mpr ⟨x, ih hx, ?_⟩
    rwa [h.exportOf?_eq hl (lookup?_within hl left x hx)]
  | global name => exact h.globals hs

/-- What a name has become known for is a symbol that was not there. -/
theorem lookup?_cases (hs : l'.lookup? ref = some s) :
    l.lookup? ref = some s ∨ l.builder.symbolCore? s = none ∧ ∃ name, ref = .global name := by
  induction ref generalizing s with
  | bound binding =>
    unfold lookup? at hs ⊢
    rw [h.locals] at hs
    exact .inl hs
  | within left name ih =>
    obtain ⟨x, hx, hs⟩ := Option.bind_eq_some_iff.mp hs
    rcases ih hx with hx' | ⟨hnew, -⟩
    · rw [h.exportOf?_eq hl (lookup?_within hl left x hx')] at hs
      exact .inl (Option.bind_eq_some_iff.mpr ⟨x, hx', hs⟩)
    · -- What is new exports nothing, so no name within it is known.
      have hself : followAlias l'.builder x = x := by
        unfold followAlias maxAliasChain followFrom
        rw [h.builder.aliasOf_fresh hnew]
      rw [hself, exportOf?, h.builder.exportsOf_fresh hnew] at hs
      cases hs
  | global name =>
    cases hs' : l.globals.get? name with
    | none => exact .inr ⟨h.newGlobals hs' hs, name, rfl⟩
    | some s' =>
      obtain rfl := Option.some.inj ((h.globals hs').symm.trans hs)
      exact .inl hs'

/-- A name that is not known stays so, unless the library is asked for it. -/
theorem lookup?_eq_none (hs : l.lookup? ref = none) (hglobal : ∀ name, ref ≠ .global name) :
    l'.lookup? ref = none := by
  refine Option.eq_none_iff_forall_ne_some.mpr fun s hs' => ?_
  rcases h.lookup?_cases hl hs' with hs' | ⟨-, name, hname⟩
  · rw [hs] at hs'
    cases hs'
  · exact hglobal name hname

omit hl in
/-- What a symbol stands for where a type is meant does not change. -/
theorem meaningOf_eq (hs : s.Within l.extent) : l'.meaningOf s = l.meaningOf s := by
  unfold meaningOf
  rw [h.builder.flagsOf_eq hs, h.enumTypes]

end Keeps

end Linking

end ApiDocs
