import ApiDocs.Extract.Run
import ApiDocs.Proofs.Computation
import ApiDocs.Proofs.Graph.Extent

/-!
# Reading a closed graph

In a closed graph no look-up fails: what a part mentions is there, and mentions in turn only what is
there. The failures that remain are those of alias chains, `ExtractError.OfAlias`.

## Main definitions

* `ExtractError.OfAlias`: the two failures about alias chains.
* `SymbolGraph.symbolAt`, `SymbolGraph.viewAt`: look-up in a graph where all positions are there.
* `SymbolGraph.route?`: which record a symbol leads to.
* `SymbolGraph.exportsIn`: the exports of a symbol that pass a test, in a graph where all are there.
* `SymbolGraph.LeadsTo`: where a chain of aliases ends.
-/

namespace ApiDocs

/-- The two failures about chains of aliases, with the limit that was set. -/
inductive ExtractError.OfAlias (limit : Nat) : ExtractError → Prop where
  | cycle (name : String) (chain : List String) : OfAlias limit (.aliasCycle name chain)
  | depth (name : String) : OfAlias limit (.aliasDepthExceeded name limit)

section Except

variable {ε α β : Type}

/-- A loop over computations that all succeed. -/
theorem mapM_eq_ok {f : α → Except ε β} {h : α → β} {l : List α} (hf : ∀ a ∈ l, f a = .ok (h a)) :
    l.mapM f = .ok (l.map h) := by
  induction l with
  | nil => rfl
  | cons a l ih =>
    rw [List.mapM_cons, hf a (by simp), ih fun b hb => hf b (by simp [hb])]
    rfl

theorem filterAuxM_eq_ok {p : α → Except ε Bool} {q : α → Bool} {l : List α}
    (hp : ∀ a ∈ l, p a = .ok (q a)) (acc : List α) :
    l.filterAuxM p acc = .ok ((l.filter q).reverse ++ acc) := by
  induction l generalizing acc with
  | nil => rfl
  | cons a l ih =>
    rw [List.filterAuxM, hp a (by simp)]
    change l.filterAuxM p (cond (q a) (a :: acc) acc) = _
    rw [ih fun b hb => hp b (by simp [hb])]
    cases hq : q a <;> simp [hq]

/-- A filter over tests that all succeed. -/
theorem filterM_eq_ok {p : α → Except ε Bool} {q : α → Bool} {l : List α}
    (hp : ∀ a ∈ l, p a = .ok (q a)) : l.filterM p = .ok (l.filter q) := by
  rw [List.filterM, filterAuxM_eq_ok hp]
  simp [bind, Except.bind, pure, Except.pure]

end Except

namespace SymbolGraph

variable {g : SymbolGraph} {id : SymbolId} {s : Symbol}

/-! ## Positions -/

theorem getSymbol_eq_ok_iff : g.getSymbol id = .ok s ↔ g.symbol? id = some s := by
  unfold getSymbol
  split <;> simp_all

theorem getType_eq_ok_iff {id : TypeId} {t : TypeNode} :
    g.getType id = .ok t ↔ g.type? id = some t := by
  unfold getType
  split <;> simp_all

theorem getSignature_eq_ok_iff {id : SignatureId} {s : Signature} :
    g.getSignature id = .ok s ↔ g.signature? id = some s := by
  unfold getSignature
  split <;> simp_all

theorem exists_symbol (h : id.Within g.extent) : ∃ s, g.symbol? id = some s :=
  ⟨_, Array.getElem?_eq_getElem h⟩

theorem exists_type {id : TypeId} (h : id.Within g.extent) : ∃ t, g.type? id = some t :=
  ⟨_, Array.getElem?_eq_getElem h⟩

theorem exists_signature {id : SignatureId} (h : id.Within g.extent) :
    ∃ s, g.signature? id = some s :=
  ⟨_, Array.getElem?_eq_getElem h⟩

theorem within_of_symbol? (h : g.symbol? id = some s) : id.Within g.extent :=
  (Array.getElem?_eq_some_iff.mp h).1

/-- The symbol at a position. -/
def symbolAt (g : SymbolGraph) (id : SymbolId) : Symbol := (g.symbol? id).getD default

theorem symbol?_eq_some (h : id.Within g.extent) : g.symbol? id = some (g.symbolAt id) := by
  obtain ⟨s, hs⟩ := exists_symbol h
  simp [symbolAt, hs]

theorem getSymbol_eq_ok (h : id.Within g.extent) : g.getSymbol id = .ok (g.symbolAt id) :=
  getSymbol_eq_ok_iff.mpr (symbol?_eq_some h)

namespace Closed

variable (hg : g.Closed)

include hg

theorem symbol (h : g.symbol? id = some s) : s.Within g.extent :=
  hg.symbols s (Array.mem_of_getElem? h)

theorem symbolAt (h : id.Within g.extent) : (g.symbolAt id).Within g.extent :=
  hg.symbol (symbol?_eq_some h)

theorem type {id : TypeId} {t : TypeNode} (h : g.type? id = some t) : t.Within g.extent :=
  hg.types t (Array.mem_of_getElem? h)

theorem signature {id : SignatureId} {s : Signature} (h : g.signature? id = some s) :
    s.Within g.extent :=
  hg.signatures s (Array.mem_of_getElem? h)

end Closed

end SymbolGraph

/-! ## Views -/

theorem Symbol.mem_declarations_of_ownDeclaration {s : Symbol} {d : Declaration}
    (h : s.ownDeclaration = some d) : d ∈ s.declarations := by
  have hvalue : ∀ value, s.valueDeclaration? = some value → value ∈ s.declarations := by
    intro value hv
    obtain ⟨i, -, hi⟩ := Option.bind_eq_some_iff.mp hv
    exact List.mem_of_getElem? hi
  have hfirst : ∀ first, s.declarations.head? = some first → first ∈ s.declarations :=
    fun first hf => List.mem_of_head? hf
  unfold ownDeclaration at h
  split at h
  next => exact hfirst d h
  next value first hv hf =>
    split at h
    · exact hfirst d (hf.trans h)
    · exact hvalue d (hv.trans h)
  next value hv hf => exact hvalue d (hv.trans h)

/-- A symbol has a declaration that counts just if it has any. -/
theorem Symbol.ownDeclaration_eq_none_iff {s : Symbol} : s.ownDeclaration = none ↔ s.declarations = [] := by
  constructor
  · intro h
    unfold Symbol.ownDeclaration at h
    cases hd : s.declarations with
    | nil => rfl
    | cons first rest =>
      cases hv : s.valueDeclaration? <;> simp [hv, hd] at h
      split at h <;> cases h
  · intro h
    cases hd : s.ownDeclaration with
    | none => rfl
    | some d =>
      have hmem := Symbol.mem_declarations_of_ownDeclaration hd
      simp [h] at hmem

namespace SymbolGraph

variable {g : SymbolGraph} {id : SymbolId} {s : Symbol}

/-- The view of the symbol at a position. -/
def viewAt (g : SymbolGraph) (id : SymbolId) : SymbolView := (g.symbolAt id).view id

theorem view_eq_ok (h : id.Within g.extent) : g.view id = .ok (g.viewAt id) := by
  obtain ⟨s, hs⟩ := exists_symbol h
  simp [view, viewAt, getSymbol, symbolAt, hs, bind, Except.bind, pure, Except.pure]

/-- Which record the symbol leads to. -/
def route? (g : SymbolGraph) (id : SymbolId) : Option Route :=
  (g.viewAt id).kind.map DeclarationKind.route

section Closed

variable (hg : g.Closed) (h : id.Within g.extent)

include hg h

theorem typeId_within_of_viewAt : ∀ t ∈ (g.viewAt id).typeId, t.Within g.extent := by
  intro t ht
  refine (hg.symbolAt h).typeId t ?_
  simp only [viewAt, Symbol.view] at ht
  split at ht
  · exact ht
  · simp at ht

theorem declaration_within_of_viewAt : ∀ d ∈ (g.viewAt id).declaration, d.Within g.extent :=
  fun d hd => (hg.symbolAt h).declarations d (Symbol.mem_declarations_of_ownDeclaration hd)

end Closed

/-! ## Exports -/

/-- The exports of a symbol whose flags pass a test, if its exports are looked into. -/
def exportsIn (g : SymbolGraph) (keep : SymbolFlags → Bool) (s : Symbol) : List SymbolId :=
  if s.flags.meets SymbolFlags.hasExports then
    s.exports.values.filter fun id => keep (g.symbolAt id).flags
  else []

theorem exportsWhere_eq_ok (hs : s.Within g.extent) (keep : SymbolFlags → Bool) :
    Walk.exportsWhere g keep s = .ok (g.exportsIn keep s) := by
  unfold Walk.exportsWhere exportsIn
  split
  · refine filterM_eq_ok fun id hid => ?_
    obtain ⟨t, ht⟩ := exists_symbol (hs.exports id hid)
    rw [getSymbol_eq_ok_iff.mpr ht]
    simp [symbolAt, ht, bind, Except.bind, pure, Except.pure]
  · rfl

theorem within_of_mem_exportsIn (hs : s.Within g.extent) {keep : SymbolFlags → Bool}
    (hid : id ∈ g.exportsIn keep s) : id.Within g.extent := by
  unfold exportsIn at hid
  split at hid
  · exact hs.exports id (List.mem_filter.mp hid).1
  · simp at hid

/-! ## Aliases -/

section Follow

variable {name : String} {limit hops : Nat} {passed : List SymbolId} {target : SymbolId}

theorem followAlias_of_not_isAlias (hs : g.symbol? id = some s) (ha : s.isAlias = false) :
    g.followAlias name limit hops passed id = .ok (some id) := by
  unfold followAlias
  rw [getSymbol_eq_ok_iff.mpr hs]
  simp [ha, bind, Except.bind, pure, Except.pure]

theorem followAlias_zero (hs : g.symbol? id = some s) (ha : s.isAlias = true) :
    g.followAlias name limit 0 passed id = .error (.aliasDepthExceeded name limit) := by
  unfold followAlias
  rw [getSymbol_eq_ok_iff.mpr hs]
  simp [ha, bind, Except.bind, throw, throwThe, MonadExceptOf.throw]

theorem followAlias_of_aliasOf_eq_none (hs : g.symbol? id = some s) (ha : s.isAlias = true)
    (ht : s.aliasOf = none) : g.followAlias name limit (hops + 1) passed id = .ok none := by
  unfold followAlias
  rw [getSymbol_eq_ok_iff.mpr hs]
  simp [ha, ht, bind, Except.bind, pure, Except.pure]

theorem followAlias_of_notMem (hs : g.symbol? id = some s) (ha : s.isAlias = true)
    (ht : s.aliasOf = some target) (hmem : target ∉ id :: passed) :
    g.followAlias name limit (hops + 1) passed id =
      g.followAlias name limit hops (id :: passed) target := by
  conv_lhs => unfold followAlias
  rw [getSymbol_eq_ok_iff.mpr hs]
  simp only [ha, ht, bind, Except.bind, hmem, if_false, Bool.not_true, Bool.false_eq_true]

/-- A chain that comes back fails with the names of all it passed, read off symbols that are there. -/
theorem followAlias_of_mem (hs : g.symbol? id = some s) (ha : s.isAlias = true)
    (ht : s.aliasOf = some target) (hmem : target ∈ id :: passed)
    (hin : ∀ p ∈ target :: id :: passed, p.Within g.extent) :
    g.followAlias name limit (hops + 1) passed id =
      .error (.aliasCycle name ((target :: id :: passed).reverse.map fun p => (g.symbolAt p).name)) := by
  have hnames : ∀ p ∈ (target :: id :: passed).reverse,
      (do return (← g.getSymbol p).name : Except ExtractError String) =
        .ok (g.symbolAt p).name := by
    intro p hp
    obtain ⟨u, hu⟩ := exists_symbol (hin p (List.mem_reverse.mp hp))
    rw [getSymbol_eq_ok_iff.mpr hu]
    simp [symbolAt, hu, bind, Except.bind, pure, Except.pure]
  conv_lhs => unfold followAlias
  rw [getSymbol_eq_ok_iff.mpr hs]
  simp only [ha, ht, bind, Except.bind, hmem, if_true, Bool.not_true, Bool.false_eq_true, if_false]
  have := mapM_eq_ok hnames
  simp only [bind, Except.bind] at this
  rw [this]
  rfl

/-- A chain that comes back fails, whether or not the symbols on the way are there. -/
theorem followAlias_ne_ok_of_mem (hs : g.symbol? id = some s) (ha : s.isAlias = true)
    (ht : s.aliasOf = some target) (hmem : target ∈ id :: passed) {r : Option SymbolId} :
    g.followAlias name limit (hops + 1) passed id ≠ .ok r := by
  intro h
  unfold followAlias at h
  rw [getSymbol_eq_ok_iff.mpr hs] at h
  simp only [ha, ht, hmem, bind, Except.bind, if_true, Bool.not_true, Bool.false_eq_true,
    if_false] at h
  split at h <;> cases h

end Follow

/-- Following a chain of aliases ends at a symbol that is there or with nothing, or it fails for one
of the causes about aliases. -/
theorem followAlias_outcome (hg : g.Closed) (name : String) (limit : Nat) :
    ∀ hops passed current, current.Within g.extent → (∀ p ∈ passed, p.Within g.extent) →
      (∃ r, g.followAlias name limit hops passed current = .ok r ∧ ∀ t ∈ r, t.Within g.extent) ∨
        ∃ e, g.followAlias name limit hops passed current = .error e ∧ e.OfAlias limit := by
  intro hops
  induction hops with
  | zero =>
    intro passed current hc hp
    obtain ⟨s, hs⟩ := exists_symbol hc
    cases ha : s.isAlias with
    | false => exact .inl ⟨_, followAlias_of_not_isAlias hs ha, by simpa using hc⟩
    | true => exact .inr ⟨_, followAlias_zero hs ha, .depth name⟩
  | succ hops ih =>
    intro passed current hc hp
    obtain ⟨s, hs⟩ := exists_symbol hc
    cases ha : s.isAlias with
    | false => exact .inl ⟨_, followAlias_of_not_isAlias hs ha, by simpa using hc⟩
    | true =>
      cases ht : s.aliasOf with
      | none => exact .inl ⟨_, followAlias_of_aliasOf_eq_none hs ha ht, by simp⟩
      | some target =>
        have hin : target.Within g.extent := (hg.symbol hs).aliasOf target ht
        have hpassed : ∀ p ∈ current :: passed, p.Within g.extent := by
          simpa using ⟨hc, hp⟩
        by_cases hmem : target ∈ current :: passed
        · refine .inr ⟨_, followAlias_of_mem hs ha ht hmem ?_, .cycle name _⟩
          simpa using ⟨hin, hc, hp⟩
        · rw [followAlias_of_notMem hs ha ht hmem]
          exact ih (current :: passed) target hin hpassed

/-- Resolving an alias in a closed graph. -/
theorem resolveAlias_outcome (hg : g.Closed) (limit : Nat) (name : String)
    (h : id.Within g.extent) :
    (∃ r, g.resolveAlias limit name id = .ok r ∧ ∀ t ∈ r, t.Within g.extent) ∨
      ∃ e, g.resolveAlias limit name id = .error e ∧ e.OfAlias limit :=
  followAlias_outcome hg name limit limit [] id h (by simp)

/-- The chain of aliases from a symbol ends at a symbol that is no alias, or at an alias without a
target. A chain that comes back to itself ends nowhere. -/
inductive LeadsTo (g : SymbolGraph) : SymbolId → Option SymbolId → Prop where
  | here {id : SymbolId} {s : Symbol} : g.symbol? id = some s → s.isAlias = false →
    LeadsTo g id (some id)
  | nowhere {id : SymbolId} {s : Symbol} : g.symbol? id = some s → s.isAlias = true →
    s.aliasOf = none → LeadsTo g id none
  | hop {id target : SymbolId} {s : Symbol} {r : Option SymbolId} : g.symbol? id = some s →
    s.isAlias = true → s.aliasOf = some target → LeadsTo g target r → LeadsTo g id r

theorem LeadsTo.unique {r r' : Option SymbolId} (h : g.LeadsTo id r) (h' : g.LeadsTo id r') :
    r = r' := by
  induction h with
  | here hs ha => cases h' <;> simp_all
  | nowhere hs ha ht => cases h' <;> simp_all
  | hop hs ha ht _ ih =>
    cases h' with
    | here hs' ha' => simp_all
    | nowhere hs' ha' ht' => simp_all
    | hop hs' ha' ht' hrest =>
      obtain rfl := Option.some.inj (hs.symm.trans hs')
      obtain rfl := Option.some.inj (ht.symm.trans ht')
      exact ih hrest

/-- A chain that was followed without failure leads to what came out. -/
theorem leadsTo_of_followAlias {name : String} {limit : Nat} {r : Option SymbolId} :
    ∀ {hops passed id}, g.followAlias name limit hops passed id = .ok r → g.LeadsTo id r := by
  intro hops
  induction hops using Nat.strongRecOn with
  | _ hops ih =>
    intro passed id h
    cases hs : g.symbol? id with
    | none =>
      unfold followAlias at h
      simp [getSymbol, hs, bind, Except.bind] at h
    | some s =>
      cases ha : s.isAlias with
      | false =>
        rw [followAlias_of_not_isAlias hs ha] at h
        cases h
        exact .here hs ha
      | true =>
        cases hops with
        | zero =>
          rw [followAlias_zero hs ha] at h
          cases h
        | succ hops =>
          cases ht : s.aliasOf with
          | none =>
            rw [followAlias_of_aliasOf_eq_none hs ha ht] at h
            cases h
            exact .nowhere hs ha ht
          | some target =>
            by_cases hmem : target ∈ id :: passed
            · exact absurd h (followAlias_ne_ok_of_mem hs ha ht hmem)
            · rw [followAlias_of_notMem hs ha ht hmem] at h
              exact .hop hs ha ht (ih hops (Nat.lt_succ_self hops) h)

theorem leadsTo_of_resolveAlias {limit : Nat} {name : String} {r : Option SymbolId}
    (h : g.resolveAlias limit name id = .ok r) : g.LeadsTo id r :=
  leadsTo_of_followAlias h

end SymbolGraph

end ApiDocs
