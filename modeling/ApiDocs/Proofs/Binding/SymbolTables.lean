import ApiDocs.Proofs.Binding.DraftSteps
import ApiDocs.Proofs.Binding.StarExports

/-!
# What steps of reading do to symbols

Each step of reading adds a symbol or declares one once more, and puts at most one entry into a table. For the
kinds of declarations, the flags and the tables of all symbols it is said here what they are after a step.

## Main definitions

* `GraphBuilder.kindsOf`: the kinds of the declarations of a symbol.

## Main results

* `GraphBuilder.memberTable_addMember`, `GraphBuilder.memberTable_exportAs`: the steps that change tables.
-/

namespace ApiDocs

namespace GraphBuilder

variable {b b' : GraphBuilder} {s s' m : SymbolId} {name : String} {flags : SymbolFlags} {x : Declaration}

/-! ## Declarations -/

/-- The kinds of the declarations of a symbol. -/
def kindsOf (b : GraphBuilder) (s : SymbolId) : List DeclarationKind := (b.declarationsOf s).map (·.kind)

theorem Enlarges.kinds (h : b.Enlarges b') (s : SymbolId) : b.kindsOf s <+: b'.kindsOf s :=
  (h.declarations s).map _

theorem within_of_kindsOf (h : b.kindsOf s ≠ []) : s.Within b.extent := by
  by_contra hs
  have hnone : b.graph.symbol? s = none := Array.getElem?_eq_none (Nat.not_lt.mp hs)
  simp [kindsOf, declarationsOf, hnone] at h

theorem declarationsOf_next (b : GraphBuilder) : b.declarationsOf b.next = [] := by
  simp [declarationsOf, symbol?_next]

theorem declarationsOf_addSymbol (b : GraphBuilder) (name : String) (flags : SymbolFlags) (s : SymbolId) :
    (b.addSymbol name flags).2.declarationsOf s = b.declarationsOf s := by
  by_cases hs : s = b.next
  · subst hs
    rw [declarationsOf_next]
    simp [declarationsOf, symbol?_addSymbol]
  · simp [declarationsOf, symbol?_addSymbol, hs]

theorem declarationsOf_modifyAside {f : Symbol → Symbol} (hf : ∀ x, (f x).declarations = x.declarations)
    (s : SymbolId) : (b.modifySymbol m f).declarationsOf s = b.declarationsOf s := by
  rw [declarationsOf, declarationsOf, symbol?_modifySymbol]
  split
  · cases b.graph.symbol? s <;> simp [hf]
  · rfl

theorem declarationsOf_setDoc (s : SymbolId) (doc : String) (s' : SymbolId) :
    (b.setDoc s doc).declarationsOf s' = b.declarationsOf s' := by
  refine declarationsOf_modifyAside ?_ s'
  exact fun _ => rfl

theorem declarationsOf_exportAs (owner : SymbolId) (name : String) (s s' : SymbolId) :
    (b.exportAs owner name s).declarationsOf s' = b.declarationsOf s' := by
  refine declarationsOf_modifyAside ?_ s'
  exact fun _ => rfl

theorem declarationsOf_enlist (owner : SymbolId) (isStatic : Bool) (s' : SymbolId) :
    (b.enlist owner name s isStatic).declarationsOf s' = b.declarationsOf s' := by
  unfold enlist
  split
  · exact declarationsOf_exportAs owner name s s'
  · refine declarationsOf_modifyAside ?_ s'
    exact fun _ => rfl

theorem declarationsOf_declare (hs : s.Within b.extent) (x : Declaration) (s' : SymbolId) :
    (b.declare s x).2.declarationsOf s' = if s' = s then b.declarationsOf s ++ [x] else b.declarationsOf s' := by
  obtain ⟨y, hy⟩ : ∃ y, b.graph.symbol? s = some y := ⟨_, Array.getElem?_eq_getElem hs⟩
  change (b.modifySymbol s (attach x)).declarationsOf s' = _
  rw [declarationsOf, symbol?_modifySymbol]
  split
  next h =>
    subst h
    simp [declarationsOf, hy, attach]
  next => rfl

/-- A new declaration comes behind the others. -/
theorem declare_fst (b : GraphBuilder) (s : SymbolId) (x : Declaration) :
    (b.declare s x).1 = (b.declarationsOf s).length := by
  rw [declarationsOf, declare]
  cases b.graph.symbol? s <;> rfl

theorem declarationsOf_addDeclared (b : GraphBuilder) (name : String) (flags : SymbolFlags) (x : Declaration)
    (s : SymbolId) : (b.addDeclared name flags x).declarationsOf s = if s = b.next then [x] else b.declarationsOf s := by
  rw [addDeclared, declarationsOf_declare (next_within_addSymbol b name flags)]
  simp only [declarationsOf_addSymbol, declarationsOf_next, List.nil_append]

theorem declarationsOf_declareAgain (hs : s.Within b.extent) (flags : SymbolFlags) (x : Declaration) (s' : SymbolId) :
    (b.declareAgain s flags x).declarationsOf s' =
      if s' = s then b.declarationsOf s ++ [x] else b.declarationsOf s' := by
  have hflags : ∀ s', (b.addFlags s flags).declarationsOf s' = b.declarationsOf s' :=
    declarationsOf_modifyAside fun _ => rfl
  rw [declareAgain, declarationsOf_declare ((Enlarges.addFlags s flags).within hs), hflags, hflags]

theorem declarationsOf_addMember (b : GraphBuilder) (owner : SymbolId) (name : String) (flags : SymbolFlags)
    (isStatic : Bool) (x : Declaration) (s : SymbolId) :
    (b.addMember owner name flags isStatic x).declarationsOf s = if s = b.next then [x] else b.declarationsOf s := by
  have hin := (Enlarges.enlist owner name b.next isStatic).within (next_within_addSymbol b name flags)
  rw [addMember, declarationsOf_declare hin]
  simp only [declarationsOf_enlist, declarationsOf_addSymbol, declarationsOf_next, List.nil_append]

theorem kindsOf_next (b : GraphBuilder) : b.kindsOf b.next = [] := by
  rw [kindsOf, declarationsOf_next, List.map_nil]

theorem kindsOf_addSymbol (b : GraphBuilder) (name : String) (flags : SymbolFlags) (s : SymbolId) :
    (b.addSymbol name flags).2.kindsOf s = b.kindsOf s := by
  rw [kindsOf, declarationsOf_addSymbol, kindsOf]

theorem kindsOf_setDoc (s : SymbolId) (doc : String) (s' : SymbolId) : (b.setDoc s doc).kindsOf s' = b.kindsOf s' := by
  rw [kindsOf, declarationsOf_setDoc, kindsOf]

theorem kindsOf_exportAs (owner : SymbolId) (name : String) (s s' : SymbolId) :
    (b.exportAs owner name s).kindsOf s' = b.kindsOf s' := by
  rw [kindsOf, declarationsOf_exportAs, kindsOf]

theorem kindsOf_addDeclared (b : GraphBuilder) (name : String) (flags : SymbolFlags) (x : Declaration) (s : SymbolId) :
    (b.addDeclared name flags x).kindsOf s = if s = b.next then [x.kind] else b.kindsOf s := by
  rw [kindsOf, declarationsOf_addDeclared]
  split <;> rfl

theorem kindsOf_declareAgain (hs : s.Within b.extent) (flags : SymbolFlags) (x : Declaration) (s' : SymbolId) :
    (b.declareAgain s flags x).kindsOf s' = if s' = s then b.kindsOf s ++ [x.kind] else b.kindsOf s' := by
  rw [kindsOf, declarationsOf_declareAgain hs]
  split
  · exact List.map_append
  · rfl

theorem kindsOf_addMember (b : GraphBuilder) (owner : SymbolId) (name : String) (flags : SymbolFlags)
    (isStatic : Bool) (x : Declaration) (s : SymbolId) :
    (b.addMember owner name flags isStatic x).kindsOf s = if s = b.next then [x.kind] else b.kindsOf s := by
  rw [kindsOf, declarationsOf_addMember]
  split <;> rfl

/-! ## Names -/

theorem nameOf_addMember (b : GraphBuilder) (owner : SymbolId) (name : String) (flags : SymbolFlags) (isStatic : Bool)
    (x : Declaration) : (b.addMember owner name flags isStatic x).nameOf b.next = name := by
  have hlater := (Enlarges.enlist (b := (b.addSymbol name flags).2) owner name b.next isStatic).trans
    (.declare b.next x)
  refine (hlater.names (next_within_addSymbol b name flags)).trans ?_
  rw [nameOf, symbol?_addSymbol, if_pos rfl]
  rfl

/-! ## Flags -/

theorem flagsOf_addSymbol (b : GraphBuilder) (name : String) (flags : SymbolFlags) (s : SymbolId) :
    (b.addSymbol name flags).2.flagsOf s = if s = b.next then flags else b.flagsOf s := by
  rw [flagsOf, symbol?_addSymbol]
  split <;> rfl

theorem flagsOf_modifyAside {f : Symbol → Symbol} (hf : ∀ x, (f x).flags = x.flags) (s : SymbolId) :
    (b.modifySymbol m f).flagsOf s = b.flagsOf s := by
  rw [flagsOf, flagsOf, symbol?_modifySymbol]
  split
  · cases b.graph.symbol? s <;> simp [hf]
  · rfl

theorem flagsOf_declare (s : SymbolId) (x : Declaration) (s' : SymbolId) :
    (b.declare s x).2.flagsOf s' = b.flagsOf s' := by
  refine flagsOf_modifyAside ?_ s'
  exact fun _ => rfl

theorem flagsOf_setDoc (s : SymbolId) (doc : String) (s' : SymbolId) : (b.setDoc s doc).flagsOf s' = b.flagsOf s' := by
  refine flagsOf_modifyAside ?_ s'
  exact fun _ => rfl

theorem flagsOf_exportAs (owner : SymbolId) (name : String) (s s' : SymbolId) :
    (b.exportAs owner name s).flagsOf s' = b.flagsOf s' := by
  refine flagsOf_modifyAside ?_ s'
  exact fun _ => rfl

theorem flagsOf_enlist (owner : SymbolId) (isStatic : Bool) (s' : SymbolId) :
    (b.enlist owner name s isStatic).flagsOf s' = b.flagsOf s' := by
  unfold enlist
  split
  · exact flagsOf_exportAs owner name s s'
  · refine flagsOf_modifyAside ?_ s'
    exact fun _ => rfl

theorem flagsOf_addDeclared (b : GraphBuilder) (name : String) (flags : SymbolFlags) (x : Declaration) (s : SymbolId) :
    (b.addDeclared name flags x).flagsOf s = if s = b.next then flags else b.flagsOf s := by
  rw [addDeclared, flagsOf_declare, flagsOf_addSymbol]

theorem flagsOf_declareAgain (hs : s.Within b.extent) (flags : SymbolFlags) (x : Declaration) (s' : SymbolId) :
    (b.declareAgain s flags x).flagsOf s' = if s' = s then b.flagsOf s ∪ flags else b.flagsOf s' := by
  rw [declareAgain, flagsOf_declare]
  split
  next h =>
    subst h
    exact flagsOf_addFlags_self hs flags
  next h =>
    rw [addFlags, flagsOf, symbol?_modifySymbol, if_neg h]
    rfl

theorem flagsOf_addMember (b : GraphBuilder) (owner : SymbolId) (name : String) (flags : SymbolFlags)
    (isStatic : Bool) (x : Declaration) (s : SymbolId) :
    (b.addMember owner name flags isStatic x).flagsOf s = if s = b.next then flags else b.flagsOf s := by
  rw [addMember, flagsOf_declare, flagsOf_enlist, flagsOf_addSymbol]

/-! ## Tables -/

variable {isStatic isStatic' : Bool}

@[simp]
theorem memberTable_true (b : GraphBuilder) (s : SymbolId) : b.memberTable s true = b.exportsOf s := rfl

@[simp]
theorem memberTable_false (b : GraphBuilder) (s : SymbolId) : b.memberTable s false = b.membersOf s := rfl

theorem memberTable_addSymbol (b : GraphBuilder) (name : String) (flags : SymbolFlags) (s : SymbolId)
    (isStatic : Bool) : (b.addSymbol name flags).2.memberTable s isStatic = b.memberTable s isStatic := by
  by_cases hs : s = b.next
  · subst hs
    cases isStatic <;> simp [exportsOf, membersOf, symbol?_addSymbol, symbol?_next]
  · cases isStatic <;> simp [exportsOf, membersOf, symbol?_addSymbol, hs]

/-- A change that leaves exports alone. -/
theorem exportsOf_modifyAside {f : Symbol → Symbol} (hf : ∀ x, (f x).exports = x.exports) (s : SymbolId) :
    (b.modifySymbol m f).exportsOf s = b.exportsOf s := by
  rw [exportsOf, exportsOf, symbol?_modifySymbol]
  split
  · cases b.graph.symbol? s <;> simp [hf]
  · rfl

/-- A change that leaves tables alone. -/
theorem memberTable_modifyAside {f : Symbol → Symbol} (hexports : ∀ x, (f x).exports = x.exports)
    (hmembers : ∀ x, (f x).members = x.members) (s : SymbolId) (isStatic : Bool) :
    (b.modifySymbol m f).memberTable s isStatic = b.memberTable s isStatic := by
  cases isStatic with
  | true => exact exportsOf_modifyAside hexports s
  | false =>
    rw [memberTable_false, memberTable_false, membersOf, membersOf, symbol?_modifySymbol]
    split
    · cases b.graph.symbol? s <;> simp [hmembers]
    · rfl

theorem memberTable_declare (s : SymbolId) (x : Declaration) (s' : SymbolId) (isStatic : Bool) :
    (b.declare s x).2.memberTable s' isStatic = b.memberTable s' isStatic := by
  refine memberTable_modifyAside ?_ ?_ s' isStatic
  · exact fun _ => rfl
  · exact fun _ => rfl

theorem memberTable_setDoc (s : SymbolId) (doc : String) (s' : SymbolId) (isStatic : Bool) :
    (b.setDoc s doc).memberTable s' isStatic = b.memberTable s' isStatic := by
  refine memberTable_modifyAside ?_ ?_ s' isStatic
  · exact fun _ => rfl
  · exact fun _ => rfl

theorem memberTable_addDeclared (b : GraphBuilder) (name : String) (flags : SymbolFlags) (x : Declaration)
    (s : SymbolId) (isStatic : Bool) :
    (b.addDeclared name flags x).memberTable s isStatic = b.memberTable s isStatic := by
  rw [addDeclared, memberTable_declare, memberTable_addSymbol]

theorem memberTable_declareAgain (b : GraphBuilder) (s : SymbolId) (flags : SymbolFlags) (x : Declaration)
    (s' : SymbolId) (isStatic : Bool) :
    (b.declareAgain s flags x).memberTable s' isStatic = b.memberTable s' isStatic := by
  rw [declareAgain, memberTable_declare]
  refine memberTable_modifyAside ?_ ?_ s' isStatic
  · exact fun _ => rfl
  · exact fun _ => rfl

/-- One entry goes into one table. -/
theorem memberTable_enlist {owner : SymbolId} (howner : owner.Within b.extent) (name : String) (m : SymbolId)
    (isStatic : Bool) (s : SymbolId) (isStatic' : Bool) :
    (b.enlist owner name m isStatic).memberTable s isStatic' =
      if s = owner ∧ isStatic' = isStatic then (b.memberTable s isStatic').insert name m
      else b.memberTable s isStatic' := by
  obtain ⟨x, hx⟩ : ∃ x, b.graph.symbol? owner = some x := ⟨_, Array.getElem?_eq_getElem howner⟩
  by_cases hs : s = owner
  · subst hs
    cases isStatic <;> cases isStatic' <;>
      simp [enlist, exportAs, member, exportsOf, membersOf, symbol?_modifySymbol, hx]
  · cases isStatic <;> cases isStatic' <;>
      simp [enlist, exportAs, member, exportsOf, membersOf, symbol?_modifySymbol, hs]

theorem memberTable_addMember {owner : SymbolId} (howner : owner.Within b.extent) (name : String)
    (flags : SymbolFlags) (isStatic : Bool) (x : Declaration) (s : SymbolId) (isStatic' : Bool) :
    (b.addMember owner name flags isStatic x).memberTable s isStatic' =
      if s = owner ∧ isStatic' = isStatic then (b.memberTable s isStatic').insert name b.next
      else b.memberTable s isStatic' := by
  have hin := (Enlarges.addSymbol name flags).within howner
  rw [addMember, memberTable_declare, memberTable_enlist hin]
  simp only [memberTable_addSymbol]

theorem memberTable_exportAs (b : GraphBuilder) (container : SymbolId) (name : String) (m s : SymbolId)
    (isStatic : Bool) :
    (b.exportAs container name m).memberTable s isStatic =
      if s = container ∧ isStatic = true ∧ container.Within b.extent then (b.memberTable s isStatic).insert name m
      else b.memberTable s isStatic := by
  cases isStatic with
  | true =>
    rw [memberTable_true, memberTable_true, exportsOf_exportAs]
    simp only [true_and]
    split
    next h => rw [h.1]
    next => rfl
  | false =>
    rw [memberTable_false, memberTable_false, exportAs, membersOf, membersOf, symbol?_modifySymbol]
    simp only [Bool.false_eq_true, false_and, and_false, if_false]
    split
    · cases b.graph.symbol? s <;> rfl
    · rfl

end GraphBuilder

end ApiDocs
