import ApiDocs.Proofs.Graph.Builder

/-!
# Symbols of a growing graph

Each step on a growing graph adds a symbol or changes one, and leaves the others as they are. A declaration
comes behind those that a symbol has, and none is ever taken back.

## Main definitions

* `GraphBuilder.declarationsOf`: the declarations of a symbol.
* `GraphBuilder.Enlarges`: symbols and declarations were added.
-/

namespace ApiDocs

namespace FlagSet

variable {names : FlagNames} {a b c : FlagSet names}

theorem or_and (x y z : UInt32) : (x ||| y) &&& z = (x &&& z) ||| (y &&& z) := by
  apply UInt32.toBitVec_inj.mp
  simp only [UInt32.toBitVec_and, UInt32.toBitVec_or]
  ext i hi
  simp only [BitVec.getElem_and, BitVec.getElem_or]
  exact Bool.and_or_distrib_right _ _ _

/-- No flag is lost where others are added. -/
theorem has_union (h : a.has c = true) : (a ∪ b).has c = true := by
  rw [has, beq_iff_eq] at h ⊢
  change (a.bits ||| b.bits) &&& c.bits = c.bits
  apply UInt32.toBitVec_inj.mp
  rw [or_and, h, UInt32.toBitVec_or, UInt32.toBitVec_and]
  ext i hi
  simp only [BitVec.getElem_and, BitVec.getElem_or]
  cases c.bits.toBitVec[i] <;> simp

/-- The flags that are added are there. -/
theorem has_union_self (a b : FlagSet names) : (a ∪ b).has b = true := by
  rw [has, beq_iff_eq]
  change (a.bits ||| b.bits) &&& b.bits = b.bits
  apply UInt32.toBitVec_inj.mp
  rw [or_and, UInt32.and_self, UInt32.toBitVec_or, UInt32.toBitVec_and]
  ext i hi
  simp only [BitVec.getElem_and, BitVec.getElem_or]
  cases b.bits.toBitVec[i] <;> simp

/-- Other flags are no matter. -/
theorem has_union_iff (h : b.meets c = false) : (a ∪ b).has c = a.has c := by
  rw [meets, bne_eq_false_iff_eq] at h
  rw [has, has]
  change ((a.bits ||| b.bits) &&& c.bits == c.bits) = _
  rw [or_and, h, UInt32.or_zero]

/-- What overlaps with neither of two sets overlaps with none. -/
theorem meets_union (h : a.meets c = false) (h' : b.meets c = false) : (a ∪ b).meets c = false := by
  rw [meets, bne_eq_false_iff_eq] at h h' ⊢
  change (a.bits ||| b.bits) &&& c.bits = 0
  rw [or_and, h, h']
  rfl

end FlagSet

namespace GraphBuilder

variable {b b' b'' : GraphBuilder} {s s' : SymbolId}

/-! ## Symbols -/

/-- The symbol that is added next. -/
def next (b : GraphBuilder) : SymbolId := ⟨b.graph.symbols.size⟩

theorem symbol?_next : b.graph.symbol? b.next = none := Array.getElem?_eq_none (Nat.le_refl _)

theorem ne_next_of_within (hs : s.Within b.extent) : s ≠ b.next := by
  rintro rfl
  exact Nat.lt_irrefl _ hs

theorem symbol?_addSymbol (b : GraphBuilder) (s : SymbolId) (name : String) (flags : SymbolFlags) :
    (b.addSymbol name flags).2.graph.symbol? s =
      if s = b.next then some { name, flags } else b.graph.symbol? s := by
  have hindex : s.index = b.graph.symbols.size ↔ s = b.next := by
    cases s
    simp [next]
  change (b.graph.symbols.push _)[s.index]? = _
  simp only [Array.getElem?_push, hindex]
  rfl

theorem flagsOf_next_addSymbol (b : GraphBuilder) (name : String) (flags : SymbolFlags) :
    (b.addSymbol name flags).2.flagsOf b.next = flags := by
  rw [flagsOf, symbol?_addSymbol, if_pos rfl]
  rfl

theorem flagsOf_addFlags_self (hs : s.Within b.extent) (flags : SymbolFlags) :
    (b.addFlags s flags).flagsOf s = b.flagsOf s ∪ flags := by
  obtain ⟨x, hx⟩ : ∃ x, b.graph.symbol? s = some x := ⟨_, Array.getElem?_eq_getElem hs⟩
  rw [addFlags, flagsOf, symbol?_modifySymbol, if_pos rfl, flagsOf, hx]
  rfl

/-! ## Declarations -/

/-- The declarations of a symbol. -/
def declarationsOf (b : GraphBuilder) (s : SymbolId) : List Declaration :=
  ((b.graph.symbol? s).map (·.declarations)).getD []

/-- Symbols, flags and declarations were added, none were taken back, and no name was changed. -/
structure Enlarges (b b' : GraphBuilder) : Prop where
  size : b.graph.symbols.size ≤ b'.graph.symbols.size
  declarations : ∀ s, b.declarationsOf s <+: b'.declarationsOf s
  names : ∀ {s}, s.Within b.extent → b'.nameOf s = b.nameOf s
  flags : ∀ {s f}, s.Within b.extent → (b.flagsOf s).has f → (b'.flagsOf s).has f

namespace Enlarges

theorem refl (b : GraphBuilder) : b.Enlarges b := ⟨Nat.le_refl _, fun _ => List.prefix_rfl, fun _ => rfl, fun _ h => h⟩

theorem within (h : b.Enlarges b') (hs : s.Within b.extent) : s.Within b'.extent :=
  Nat.lt_of_lt_of_le hs h.size

theorem trans (h : b.Enlarges b') (h' : b'.Enlarges b'') : b.Enlarges b'' where
  size := Nat.le_trans h.size h'.size
  declarations s := (h.declarations s).trans (h'.declarations s)
  names hs := (h'.names (h.within hs)).trans (h.names hs)
  flags hs hf := h'.flags (h.within hs) (h.flags hs hf)

theorem of_symbols_eq (h : b'.graph.symbols = b.graph.symbols) : b.Enlarges b' := by
  have hsymbol : ∀ s, b'.graph.symbol? s = b.graph.symbol? s := fun s => by
    rw [SymbolGraph.symbol?, h, SymbolGraph.symbol?]
  refine ⟨by simp [h], fun s => ?_, fun {s} _ => ?_, fun {s f} _ hf => ?_⟩
  · simp [declarationsOf, hsymbol]
  · rw [nameOf, nameOf, hsymbol]
  · rwa [flagsOf, hsymbol]

theorem modifySymbol {f : Symbol → Symbol} (hname : ∀ x, (f x).name = x.name)
    (hflags : ∀ x flag, x.flags.has flag → (f x).flags.has flag)
    (hf : ∀ x, x.declarations <+: (f x).declarations) : b.Enlarges (b.modifySymbol s f) := by
  refine ⟨by simp [GraphBuilder.modifySymbol], fun s' => ?_, fun {s'} _ => ?_, fun {s' flag} hs' hflag => ?_⟩
  · rw [declarationsOf, declarationsOf, symbol?_modifySymbol]
    split
    · cases b.graph.symbol? s' <;> simp [hf]
    · exact List.prefix_rfl
  · rw [nameOf, nameOf, symbol?_modifySymbol]
    split
    · cases b.graph.symbol? s' <;> simp [hname]
    · rfl
  · obtain ⟨x, hx⟩ : ∃ x, b.graph.symbol? s' = some x := ⟨_, Array.getElem?_eq_getElem hs'⟩
    rw [flagsOf, hx] at hflag
    rw [flagsOf, symbol?_modifySymbol, hx]
    split
    · exact hflags x flag hflag
    · exact hflag

/-- A change that leaves names, flags and declarations alone. -/
theorem modifyAside {f : Symbol → Symbol} (hname : ∀ x, (f x).name = x.name) (hflags : ∀ x, (f x).flags = x.flags)
    (hf : ∀ x, (f x).declarations = x.declarations) : b.Enlarges (b.modifySymbol s f) :=
  modifySymbol hname (fun x flag h => by rwa [hflags]) fun x => by simp [hf]

theorem addSymbol (name : String) (flags : SymbolFlags) : b.Enlarges (b.addSymbol name flags).2 := by
  refine ⟨by simp [GraphBuilder.addSymbol], fun s => ?_, fun {s} hs => ?_, fun {s f} hs hf => ?_⟩
  · rw [declarationsOf, declarationsOf, symbol?_addSymbol]
    split
    next h => simp [h, symbol?_next]
    next => exact List.prefix_rfl
  · rw [nameOf, nameOf, symbol?_addSymbol, if_neg (ne_next_of_within hs)]
  · rwa [flagsOf, symbol?_addSymbol, if_neg (ne_next_of_within hs)]

theorem declare (s : SymbolId) (d : Declaration) : b.Enlarges (b.declare s d).2 :=
  modifySymbol (fun _ => rfl) (fun _ _ h => h) fun x => List.prefix_append x.declarations [d]

theorem addModule (path : String) : b.Enlarges (b.addModule path).2 :=
  (Enlarges.addSymbol _ _).trans (of_symbols_eq rfl)

theorem addScript (path : String) : b.Enlarges (b.addScript path) := of_symbols_eq rfl

end Enlarges

end GraphBuilder

end ApiDocs
