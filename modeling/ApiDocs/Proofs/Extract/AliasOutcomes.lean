import ApiDocs.Proofs.Extract.Reading
import Mathlib.Data.List.Nodup

/-!
# What a chain of aliases comes to

From a symbol one hops from alias to target. A chain of hops can end at a symbol that is no alias, or at
an alias without a target; it can come back to an alias that it has passed, or want more hops than
allowed. While it is followed, each hop asks for all of this in turn. What comes out can be said without
the order of the questions: `SymbolGraph.ChainOutcome` has one case for each end, in which only the chain,
the number of its hops and the limit occur.

The cases exclude each other, since following a chain that is described by one of them gives the outcome
of that case; and one of them applies, since following a chain ends.

## Main definitions

* `SymbolGraph.Passes`: the aliases that are passed on the way from one symbol to another.
* `SymbolGraph.ChainOutcome`: what the chain from a symbol comes to within a number of hops.

## Main results

* `SymbolGraph.resolveAlias_eq_iff`: this is what resolving an alias gives.
-/

namespace ApiDocs.SymbolGraph

variable {g : SymbolGraph} {s t u : SymbolId} {x : Symbol} {passed acc : List SymbolId} {name : String}
  {limit hops : Nat} {r : Except ExtractError (Option SymbolId)}

/-! ## Chains -/

/-- From `s` one comes to `t` by hops from an alias to its target; the list holds the aliases that are
passed, in order. -/
inductive Passes (g : SymbolGraph) : SymbolId → List SymbolId → SymbolId → Prop where
  | here (s : SymbolId) : Passes g s [] s
  | hop {s t u : SymbolId} {x : Symbol} {passed : List SymbolId} : g.symbol? s = some x →
    x.isAlias = true → x.aliasOf = some t → Passes g t passed u → Passes g s (s :: passed) u

/-- What the chain of aliases from a symbol comes to, if at most `limit` hops are allowed. -/
inductive ChainOutcome (g : SymbolGraph) (limit : Nat) (name : String) (s : SymbolId) :
    Except ExtractError (Option SymbolId) → Prop where
  /-- The chain ends at a symbol that is no alias. -/
  | found {passed : List SymbolId} {t : SymbolId} {x : Symbol} : g.Passes s passed t →
    g.symbol? t = some x → x.isAlias = false → passed.length ≤ limit →
    ChainOutcome g limit name s (.ok (some t))
  /-- The chain ends at an alias without a target, which one more hop would have to leave. -/
  | nowhere {passed : List SymbolId} {t : SymbolId} {x : Symbol} : g.Passes s passed t →
    g.symbol? t = some x → x.isAlias = true → x.aliasOf = none → (passed ++ [t]).Nodup →
    passed.length < limit → ChainOutcome g limit name s (.ok none)
  /-- The chain comes back to an alias that it has passed. -/
  | cycle {passed : List SymbolId} {t : SymbolId} : g.Passes s passed t → passed.Nodup → t ∈ passed →
    passed.length ≤ limit → ChainOutcome g limit name s
      (.error (.aliasCycle name ((passed ++ [t]).map fun p => (g.symbolAt p).name)))
  /-- All hops are used, and the chain has come to one more alias. -/
  | tooLong {passed : List SymbolId} {t : SymbolId} {x : Symbol} : g.Passes s passed t →
    g.symbol? t = some x → x.isAlias = true → (passed ++ [t]).Nodup → passed.length = limit →
    ChainOutcome g limit name s (.error (.aliasDepthExceeded name limit))

namespace Passes

theorem snoc (h : g.Passes s passed t) (hx : g.symbol? t = some x) (ha : x.isAlias = true)
    (ht : x.aliasOf = some u) : g.Passes s (passed ++ [t]) u := by
  induction h with
  | here s => exact .hop hx ha ht (.here u)
  | hop hs hsa hst _ ih => exact .hop hs hsa hst (ih hx)

/-- The last hop of a chain. -/
theorem exists_last (h : g.Passes s passed t) (hne : passed ≠ []) :
    ∃ front last x, passed = front ++ [last] ∧ g.Passes s front last ∧ g.symbol? last = some x ∧
      x.isAlias = true ∧ x.aliasOf = some t := by
  induction h with
  | here s => exact absurd rfl hne
  | @hop s _ _ x rest hs ha ht hrest ih =>
    by_cases hnil : rest = []
    · subst hnil
      cases hrest
      exact ⟨[], s, x, rfl, .here s, hs, ha, ht⟩
    · obtain ⟨front, last, y, rfl, hfront, hy⟩ := ih hnil
      exact ⟨s :: front, last, y, rfl, .hop hs ha ht hfront, hy⟩

/-- A chain stays among the symbols of a closed graph. -/
theorem within (hg : g.Closed) (h : g.Passes s passed t) (hs : s.Within g.extent) :
    t.Within g.extent ∧ ∀ p ∈ passed, p.Within g.extent := by
  induction h with
  | here s => exact ⟨hs, by simp⟩
  | hop hx _ ht _ ih =>
    obtain ⟨hlast, hrest⟩ := ih ((hg.symbol hx).aliasOf _ ht)
    exact ⟨hlast, by simpa using ⟨hs, hrest⟩⟩

theorem mem_start (h : g.Passes s passed t) : s ∈ passed ++ [t] := by
  cases h with
  | here => simp
  | hop => simp

/-- From each alias that is passed the chain goes on to the same end. -/
theorem exists_of_mem (h : g.Passes s passed t) {p : SymbolId} (hp : p ∈ passed) :
    ∃ rest, g.Passes p rest t ∧ rest.length ≤ passed.length := by
  induction h with
  | here => cases hp
  | hop hs ha ht hrest ih =>
    rcases List.mem_cons.mp hp with rfl | hp
    · exact ⟨_, .hop hs ha ht hrest, Nat.le_refl _⟩
    · obtain ⟨rest, hrest, hle⟩ := ih hp
      exact ⟨rest, hrest, Nat.le_succ_of_le hle⟩

/-- There is one way to a symbol that is no alias. -/
theorem unique (h : g.Passes s passed t) (hx : g.symbol? t = some x) (ha : x.isAlias = false)
    (h' : g.Passes s acc t) : passed = acc := by
  induction h generalizing acc with
  | here s =>
    cases h' with
    | here => rfl
    | hop hs hsa => simp_all
  | hop hs hsa hst _ ih =>
    cases h' with
    | here => simp_all
    | hop hs' hsa' hst' hrest' =>
      obtain rfl := Option.some.inj (hs.symm.trans hs')
      obtain rfl := Option.some.inj (hst.symm.trans hst')
      rw [ih hx hrest']

/-- On the way to a symbol that is no alias no symbol is met twice: from there the chain would have to
be as long as from its first occurrence. -/
theorem nodup (h : g.Passes s passed t) (hx : g.symbol? t = some x) (ha : x.isAlias = false) :
    (passed ++ [t]).Nodup := by
  induction h with
  | here => simp
  | @hop s u t y rest hs hsa hst hrest ih =>
    refine List.nodup_cons.mpr ⟨fun hmem => ?_, ih hx⟩
    rcases List.mem_append.mp hmem with hmem | hmem
    · obtain ⟨again, hagain, hle⟩ := hrest.exists_of_mem hmem
      have hsame := (Passes.hop hs hsa hst hrest).unique hx ha hagain
      have hlength := congrArg List.length hsame
      rw [List.length_cons] at hlength
      omega
    · obtain rfl := List.mem_singleton.mp hmem
      simp_all

/-! ## Following a chain -/

/-- Following a chain that does not come back takes one hop for each alias that is passed. -/
theorem followAlias_eq (h : g.Passes s passed t) (hnodup : (t :: (passed.reverse ++ acc)).Nodup) :
    g.followAlias name limit (hops + passed.length) acc s =
      g.followAlias name limit hops (passed.reverse ++ acc) t := by
  induction h generalizing acc with
  | here => rfl
  | @hop s u t x rest hs ha ht hrest ih =>
    have hlater : (t :: (rest.reverse ++ s :: acc)).Nodup := by simpa using hnodup
    have hnew : u ∉ s :: acc := by
      intro hmem
      have hu : u ∈ t :: rest.reverse := by simpa [or_comm] using hrest.mem_start
      have hnodup' : ((t :: rest.reverse) ++ (s :: acc)).Nodup := hlater
      exact (List.nodup_append.mp hnodup').2.2 u hu u hmem rfl
    calc g.followAlias name limit (hops + (s :: rest).length) acc s
        = g.followAlias name limit (hops + rest.length) (s :: acc) u :=
          followAlias_of_notMem hs ha ht hnew
      _ = g.followAlias name limit hops (rest.reverse ++ s :: acc) t := ih hlater
      _ = g.followAlias name limit hops ((s :: rest).reverse ++ acc) t := by simp

/-- The same from the start, for all hops that are allowed. -/
theorem resolveAlias_eq (h : g.Passes s passed t) (hnodup : (passed ++ [t]).Nodup)
    (hle : passed.length ≤ limit) :
    g.resolveAlias limit name s =
      g.followAlias name limit (limit - passed.length) passed.reverse t := by
  have hreverse : (t :: (passed.reverse ++ [])).Nodup := by
    have := List.nodup_reverse.mpr hnodup
    simpa using this
  calc g.resolveAlias limit name s
      = g.followAlias name limit (limit - passed.length + passed.length) [] s := by
        rw [resolveAlias, Nat.sub_add_cancel hle]
    _ = g.followAlias name limit (limit - passed.length) (passed.reverse ++ []) t :=
        h.followAlias_eq hreverse
    _ = g.followAlias name limit (limit - passed.length) passed.reverse t := by rw [List.append_nil]

end Passes

/-- While a chain is followed from `start`, what is left of it decides the outcome of the whole. The
induction is on the hops that are left; so far no symbol was met twice. -/
theorem followAlias_outcome_of_passes (hg : g.Closed) {start : SymbolId} (hstart : start.Within g.extent)
    (h : g.Passes start acc.reverse s) (hnodup : (s :: acc).Nodup) (hlimit : acc.length + hops = limit) :
    g.ChainOutcome limit name start (g.followAlias name limit hops acc s) := by
  induction hops generalizing acc s with
  | zero =>
    obtain ⟨x, hx⟩ := exists_symbol (h.within hg hstart).1
    cases ha : x.isAlias with
    | false =>
      rw [followAlias_of_not_isAlias hx ha]
      exact .found h hx ha (by simp; omega)
    | true =>
      rw [followAlias_zero hx ha]
      refine .tooLong h hx ha ?_ (by simpa using hlimit)
      simpa using List.nodup_reverse.mpr hnodup
  | succ hops ih =>
    obtain ⟨x, hx⟩ := exists_symbol (h.within hg hstart).1
    cases ha : x.isAlias with
    | false =>
      rw [followAlias_of_not_isAlias hx ha]
      exact .found h hx ha (by simp; omega)
    | true =>
      cases ht : x.aliasOf with
      | none =>
        rw [followAlias_of_aliasOf_eq_none hx ha ht]
        refine .nowhere h hx ha ht ?_ (by simp; omega)
        simpa using List.nodup_reverse.mpr hnodup
      | some target =>
        have hnext : g.Passes start (s :: acc).reverse target := by simpa using h.snoc hx ha ht
        by_cases hmem : target ∈ s :: acc
        · have hin := hnext.within hg hstart
          rw [followAlias_of_mem hx ha ht hmem fun p hp => ?_, List.reverse_cons]
          · refine .cycle hnext (List.nodup_reverse.mpr hnodup) (List.mem_reverse.mpr hmem) ?_
            simp
            omega
          · rcases List.mem_cons.mp hp with rfl | hp
            · exact hin.1
            · exact hin.2 p (List.mem_reverse.mpr hp)
        · rw [followAlias_of_notMem hx ha ht hmem]
          refine ih hnext (List.nodup_cons.mpr ⟨hmem, hnodup⟩) ?_
          rw [List.length_cons]
          omega

/-- Resolving an alias gives the outcome that its chain comes to. -/
theorem ChainOutcome.resolveAlias_eq (hg : g.Closed) (hs : s.Within g.extent)
    (h : g.ChainOutcome limit name s r) : g.resolveAlias limit name s = r := by
  cases h with
  | found h hx ha hle =>
    rw [h.resolveAlias_eq (h.nodup hx ha) hle, followAlias_of_not_isAlias hx ha]
  | @nowhere passed t x h hx ha ht hnodup hlt =>
    obtain ⟨left, hleft⟩ : ∃ left, limit - passed.length = left + 1 :=
      ⟨limit - passed.length - 1, by omega⟩
    rw [h.resolveAlias_eq hnodup (Nat.le_of_lt hlt), hleft, followAlias_of_aliasOf_eq_none hx ha ht]
  | @cycle passed t h hnodup hmem hle =>
    -- The chain does not come back before its last hop.
    obtain ⟨front, last, x, rfl, hfront, hx, ha, ht⟩ := h.exists_last (List.ne_nil_of_mem hmem)
    rw [List.length_append, List.length_singleton] at hle
    obtain ⟨left, hleft⟩ : ∃ left, limit - front.length = left + 1 :=
      ⟨limit - front.length - 1, by omega⟩
    have hreverse : t ∈ last :: front.reverse := by simpa [or_comm] using hmem
    have hin := h.within hg hs
    rw [hfront.resolveAlias_eq hnodup (by omega), hleft, followAlias_of_mem hx ha ht hreverse]
    · simp
    · intro p hp
      rcases List.mem_cons.mp hp with rfl | hp
      · exact hin.1
      · exact hin.2 p (by simpa [or_comm] using hp)
  | tooLong h hx ha hnodup hlength =>
    rw [h.resolveAlias_eq hnodup (Nat.le_of_eq hlength), hlength, Nat.sub_self, followAlias_zero hx ha]

/-- **Resolving an alias is walking its chain within the limit.** In a valid graph it gives an outcome
just if the chain comes to it, and each chain comes to exactly one. -/
theorem resolveAlias_eq_iff (hvalid : g.Valid) (hs : s.Within g.extent) (limit : Nat) (name : String) :
    (∀ r, g.resolveAlias limit name s = r ↔ g.ChainOutcome limit name s r) ∧
      ∃! r, g.ChainOutcome limit name s r := by
  have hg := valid_iff_closed.mp hvalid
  have houtcome : g.ChainOutcome limit name s (g.resolveAlias limit name s) :=
    followAlias_outcome_of_passes hg hs (.here s) (List.nodup_singleton s) (Nat.zero_add limit)
  refine ⟨fun r => ⟨?_, fun h => h.resolveAlias_eq hg hs⟩, _, houtcome, ?_⟩
  · rintro rfl
    exact houtcome
  · intro r h
    exact (h.resolveAlias_eq hg hs).symm

/-! ## A circle of aliases -/

/-- Three aliases in a circle. -/
def aliasCircle : SymbolGraph where
  symbols := #[
    { name := "A", flags := SymbolFlags.aliasBit, aliasOf := some ⟨1⟩ },
    { name := "B", flags := SymbolFlags.aliasBit, aliasOf := some ⟨2⟩ },
    { name := "C", flags := SymbolFlags.aliasBit, aliasOf := some ⟨0⟩ }]

/-- As many hops as there are aliases are enough to come back; with one less, the chain is too long. -/
theorem aliasCircle_outcomes :
    aliasCircle.Valid ∧
      aliasCircle.ChainOutcome 3 "A" ⟨0⟩ (.error (.aliasCycle "A" ["A", "B", "C", "A"])) ∧
      aliasCircle.ChainOutcome 2 "A" ⟨0⟩ (.error (.aliasDepthExceeded "A" 2)) ∧
      ∃! r, aliasCircle.ChainOutcome 0 "A" ⟨0⟩ r := by
  have hvalid : aliasCircle.Valid := by decide
  have hstart : (⟨0⟩ : SymbolId).Within aliasCircle.extent := by
    change 0 < aliasCircle.symbols.size
    decide
  exact ⟨hvalid, ((resolveAlias_eq_iff hvalid hstart 3 "A").1 _).mp (by decide),
    ((resolveAlias_eq_iff hvalid hstart 2 "A").1 _).mp (by decide),
    (resolveAlias_eq_iff hvalid hstart 0 "A").2⟩

end ApiDocs.SymbolGraph
