import ApiDocs.Proofs.Extract.Extraction
import ApiDocs.Proofs.Simulation

/-!
# The limit on alias chains

A limit on the aliases that may be passed is asked in two places, where exports are gone through and
where heritage clauses are read, at every depth of nesting. Two walks with different limits go through
the same steps for as long as they follow chains with the same outcome. So all that has to be known of
the limit is what it does to one chain: a chain that was followed is followed in the same way under every
larger limit, and a limit that is not below the number of symbols is never met, since a chain that does
not come back passes each symbol once.

## Main definitions

* `ExtractError.IsWithinLimit`: a failure that is not about the limit.
* `SymbolGraph.Spare`: a chain that can pass every symbol that it has not passed yet.
* `SymbolGraph.SameChains`: two limits under which chains have the same outcome.

## Main results

* `SymbolGraph.extract_eq_of_limit_le`: a larger limit changes nothing but failures about the limit.
-/

namespace ApiDocs

/-- The failure is not that a chain of aliases is longer than allowed. -/
def ExtractError.IsWithinLimit (e : ExtractError) : Prop :=
  ∀ name limit, e ≠ .aliasDepthExceeded name limit

/-- Different symbols below a size are no more than the size. -/
theorem SymbolId.length_le_of_nodup {ids : List SymbolId} {e : Extent} (hnodup : ids.Nodup)
    (hin : ∀ id ∈ ids, id.Within e) : ids.length ≤ e.symbols := by
  have hindices : (ids.map SymbolId.index).Nodup :=
    hnodup.map fun a b hab => by cases a; cases b; cases hab; rfl
  have hsub : ids.map SymbolId.index ⊆ List.range e.symbols := by
    intro i hi
    obtain ⟨id, hid, rfl⟩ := List.mem_map.mp hi
    exact List.mem_range.mpr (hin id hid)
  simpa using (List.subperm_of_subset hindices hsub).length_le

namespace SymbolGraph

variable {g : SymbolGraph} {E : ExtractError → Prop} {limit limit' : Nat}

/-! ## One chain -/

/-- The chain has come to a symbol that it has not passed, and the hops that are left are enough for
all symbols that it has not passed. -/
structure Spare (g : SymbolGraph) (hops : Nat) (passed : List SymbolId) (id : SymbolId) : Prop where
  nodup : (id :: passed).Nodup
  within : ∀ p ∈ passed, p.Within g.extent
  size_le : g.symbols.size ≤ hops + passed.length

theorem Spare.hop {hops : Nat} {passed : List SymbolId} {id target : SymbolId}
    (h : g.Spare (hops + 1) passed id) (hin : id.Within g.extent) (hnew : target ∉ id :: passed) :
    g.Spare hops (id :: passed) target where
  nodup := List.nodup_cons.mpr ⟨hnew, h.nodup⟩
  within := by simpa using ⟨hin, h.within⟩
  size_le := by
    have hsize := h.size_le
    rw [List.length_cons]
    omega

/-- Without hops, the symbol that such a chain has come to would be one too many. -/
theorem Spare.not_within {passed : List SymbolId} {id : SymbolId} (h : g.Spare 0 passed id) :
    ¬ id.Within g.extent := by
  intro hin
  have hall : ∀ p ∈ id :: passed, p.Within g.extent := by simpa using ⟨hin, h.within⟩
  have hlength : passed.length + 1 ≤ g.symbols.size := SymbolId.length_le_of_nodup h.nodup hall
  have hsize := h.size_le
  omega

/-- With more hops left a chain has the same outcome, unless it failed for want of hops. The induction
is on the hops of the first chain; one with hops to spare never wants for them. -/
theorem followAlias_follows_of_le (name : String) {hops hops' : Nat} (hle : hops ≤ hops')
    {passed : List SymbolId} {id : SymbolId}
    (hspare : E (.aliasDepthExceeded name limit) → g.Spare hops passed id) :
    Follows E Eq (g.followAlias name limit hops passed id)
      (g.followAlias name limit' hops' passed id) := by
  induction hops generalizing hops' passed id with
  | zero =>
    unfold followAlias
    refine (follows_refl _).with_eq.bind ?_
    rintro s _ ⟨hs, rfl⟩
    split
    · exact follows_refl _
    · have hin := within_of_symbol? (getSymbol_eq_ok_iff.mp hs)
      exact follows_of_not fun he => (hspare he).not_within hin
  | succ hops ih =>
    obtain ⟨hops', rfl⟩ : ∃ n, hops' = n + 1 := ⟨hops' - 1, by omega⟩
    unfold followAlias
    refine (follows_refl _).with_eq.bind ?_
    rintro s _ ⟨hs, rfl⟩
    have hin := within_of_symbol? (getSymbol_eq_ok_iff.mp hs)
    split
    · exact follows_refl _
    cases s.aliasOf with
    | none => exact follows_refl _
    | some target =>
      dsimp only
      split
      · exact follows_refl _
      next hnew => exact ih (Nat.le_of_succ_le_succ hle) fun he => (hspare he).hop hin hnew

/-- Under both limits chains have the same outcome, but for failures that are not in `E`. -/
def SameChains (g : SymbolGraph) (E : ExtractError → Prop) (limit limit' : Nat) : Prop :=
  ∀ name id, Follows E Eq (g.resolveAlias limit name id) (g.resolveAlias limit' name id)

theorem sameChains_of_le (hle : limit ≤ limit') :
    g.SameChains ExtractError.IsWithinLimit limit limit' :=
  fun name _ => followAlias_follows_of_le name hle fun h => absurd rfl (h name limit)

theorem sameChains_of_size_le (hle : limit ≤ limit') (hsize : g.symbols.size ≤ limit) :
    g.SameChains (fun _ => True) limit limit' :=
  fun name _ => followAlias_follows_of_le name hle fun _ => ⟨by simp, by simp, by simpa using hsize⟩

end SymbolGraph

/-! ## One record -/

namespace Walk

open SymbolGraph

variable {g : SymbolGraph} {E : ExtractError → Prop} {limit limit' : Nat}
  (h : g.SameChains E limit limit')

/-- From one state, the second walk does the same as the first and gives the same result, unless the
first fails for a cause that is not in `E`. -/
abbrev InStep {α : Type} (E : ExtractError → Prop) (x y : Walk α) : Prop := Simulates E id Eq x y

theorem inStep_mapM {α β : Type} {k k' : β → Walk α} {l : List β} (h : ∀ b ∈ l, InStep E (k b) (k' b)) :
    InStep E (l.mapM k) (l.mapM k') := by
  have hmap : InStep E (l.mapM k) ((l.map id).mapM k') := simulates_mapM h
  rwa [List.map_id] at hmap

theorem inStep_foldlM {α β : Type} {k k' : α → β → Walk α} {l : List β}
    (h : ∀ a, ∀ b ∈ l, InStep E (k a b) (k' a b)) (a : α) :
    InStep E (l.foldlM k a) (l.foldlM k' a) := by
  have hfold : InStep E (l.foldlM k a) ((l.map id).foldlM k' a) := simulates_foldlM h a
  rwa [List.map_id] at hfold

include h

theorem heritageRef_inStep (base : SymbolId) :
    InStep E (heritageRef g limit base) (heritageRef g limit' base) := by
  refine (simulates_refl _).bind_same fun s => ?_
  exact (simulates_lift (h s.name base)).bind_same fun r => simulates_refl _

theorem noteHeritage_inStep (c : ClassId) (v : SymbolView) :
    InStep E (noteHeritage g limit c v) (noteHeritage g limit' c v) :=
  (inStep_mapM fun b _ => heritageRef_inStep h b).bind_same fun _ => simulates_refl _

theorem openClass_inStep (v : SymbolView) (kind : ClassKind) :
    InStep E (openClass g limit v kind) (openClass g limit' v kind) := by
  refine (simulates_refl _).bind_same fun c => ?_
  refine (simulates_refl _).bind_same fun constructors => ?_
  refine (simulates_refl _).bind_same fun s => ?_
  refine (simulates_refl _).bind_same fun body => ?_
  exact (noteHeritage_inStep h c v).bind_same fun _ => simulates_refl _

theorem buildClass_inStep {nested nested' : SymbolView → ModuleDoc → Walk ModuleDoc}
    (hnested : ∀ v m, InStep E (nested v m) (nested' v m)) (v : SymbolView) (kind : ClassKind) :
    InStep E (buildClass g limit nested v kind) (buildClass g limit' nested' v kind) := by
  refine (simulates_refl _).bind_same fun r => ?_
  split
  · exact simulates_refl _
  · refine (openClass_inStep h v kind).bind_same fun c => ?_
    refine (inStep_foldlM (fun m id _ => ?_) ({} : ModuleDoc)).bind_same fun exports => simulates_refl _
    exact (simulates_refl _).bind_same fun w => hnested w m

/-- The record of a symbol is the same under both limits. The induction is on the depth of nesting. -/
theorem assemble_inStep (depth : Nat) (v : SymbolView) (m : ModuleDoc) :
    InStep E (assemble g limit depth v m) (assemble g limit' depth v m) := by
  induction depth using Nat.strong_induction_on generalizing v m with
  | _ depth ih =>
    unfold assemble
    split
    next => exact simulates_refl _
    next => exact simulates_refl _
    next => exact simulates_refl _
    next kind _ =>
      cases depth with
      | zero => exact simulates_refl _
      | succ depth =>
        refine (buildClass_inStep h (fun w m => ih depth (Nat.lt_succ_self depth) w m) v kind).bind_same ?_
        exact fun c => simulates_refl _
    next => exact simulates_refl _
    next => exact simulates_refl _

end Walk

/-! ## The whole run -/

namespace SymbolGraph

variable {g : SymbolGraph} {E : ExtractError → Prop} {limit limit' : Nat}

section Run

variable (h : g.SameChains E limit limit') (o : ExtractOptions)

include h

theorem documentExport_inStep (entry : String × SymbolId) :
    Walk.InStep E (g.documentExport { o with maxAliasDepth := limit } entry)
      (g.documentExport { o with maxAliasDepth := limit' } entry) := by
  refine (simulates_lift (h entry.1 entry.2)).bind_same fun r => ?_
  cases r with
  | none => exact simulates_refl _
  | some id =>
    refine (simulates_refl _).bind_same fun v => ?_
    split
    · exact simulates_refl _
    · exact (Walk.assemble_inStep h _ v {}).bind_same fun m => simulates_refl _

theorem documentFile_inStep (file : SourceFile) :
    Walk.InStep E (g.documentFile { o with maxAliasDepth := limit } file)
      (g.documentFile { o with maxAliasDepth := limit' } file) := by
  refine (simulates_refl _).bind_same fun exports => ?_
  exact (Walk.inStep_mapM fun entry _ => documentExport_inStep h o entry).bind_same
    fun mss => simulates_refl _

theorem extract_follows :
    Follows E Eq (g.extract { o with maxAliasDepth := limit })
      (g.extract { o with maxAliasDepth := limit' }) := by
  have hfiles := Walk.inStep_mapM (l := g.ownFiles.filter (g.accepts o))
    (fun file _ => documentFile_inStep h o file) {}
  refine hfiles.bind ?_
  rintro ⟨modules, s⟩ ⟨modules', s'⟩ ⟨hmodules, hs⟩
  dsimp only [id] at hmodules hs
  subst hmodules hs
  exact follows_refl _

end Run

/-- A limit that is not below the number of symbols is never met: a failure about it would also be one
about the next limit, and each failure names the limit that was set. -/
theorem extract_isWithinLimit (hvalid : g.Valid) (o : ExtractOptions) (hsize : g.symbols.size ≤ limit) {e : ExtractError}
    (he : g.extract { o with maxAliasDepth := limit } = .error e) : e.IsWithinLimit := by
  rintro name set rfl
  have hnext := extract_follows (sameChains_of_size_le (Nat.le_succ limit) hsize) o
  rw [he] at hnext
  have hcause : ∀ {n e}, g.extract { o with maxAliasDepth := n } = .error e → e.OfAlias n := by
    intro n e he
    rcases extract_outcome (valid_iff_closed.mp hvalid) { o with maxAliasDepth := n } with
      ⟨doc, -, hdoc, -⟩ | ⟨e', he', hcause⟩
    · cases hdoc.symm.trans he
    · cases he'.symm.trans he
      exact hcause
  cases hcause he with
  | depth =>
    have hset := hcause (hnext trivial)
    generalize hn : limit.succ = n at hset
    cases hset
    omega

/-- **The limit on alias chains** only ever turns an outcome into a failure about the limit. Extraction
that does not fail for its limit gives the same under every larger one, the same documentation or the
same cycle of aliases, and it never fails for a limit that is not below the number of symbols. -/
theorem extract_eq_of_limit_le (hvalid : g.Valid) (o : ExtractOptions) (hle : limit ≤ limit') :
    ((∀ name set, g.extract { o with maxAliasDepth := limit } ≠ .error (.aliasDepthExceeded name set)) →
        g.extract { o with maxAliasDepth := limit' } = g.extract { o with maxAliasDepth := limit }) ∧
      (g.symbols.size ≤ limit → ∀ name set,
        g.extract { o with maxAliasDepth := limit } ≠ .error (.aliasDepthExceeded name set)) := by
  refine ⟨fun hwithin => ?_, fun hsize name set he => extract_isWithinLimit hvalid o hsize he name set rfl⟩
  refine (extract_follows (sameChains_of_le hle) o).eq fun e he name set hcause => ?_
  subst hcause
  exact hwithin name set he

/-! ## A chain of one alias -/

theorem extract_selfNested_one : ∃ doc, selfNested.extract { maxAliasDepth := 1 } = .ok doc := by
  have hfiles : selfNested.ownFiles.filter (selfNested.accepts { maxAliasDepth := 1 }) =
      [⟨"a.ts", some ⟨0⟩⟩] := rfl
  have hok : (selfNested.extract { maxAliasDepth := 1 }).isOk = true := by
    simp only [extract, hfiles, List.mapM_cons, List.mapM_nil, documentFile, sortedExports_selfNested]
    decide +kernel
  cases hdoc : selfNested.extract { maxAliasDepth := 1 } with
  | ok doc => exact ⟨doc, rfl⟩
  | error e =>
    rw [hdoc] at hok
    cases hok

/-- The class that nests itself names its base by an alias, in a clause that is read while the class is
open. One hop is enough for it, and then any number is; a limit of four is that of its symbols. -/
theorem selfNested_limits :
    (1 ≤ 4 ∧ 4 ≤ 64 ∧ selfNested.symbols.size ≤ 4) ∧
      ∃ doc, selfNested.extract { maxAliasDepth := 1 } = .ok doc ∧
        selfNested.extract { maxAliasDepth := 4 } = .ok doc ∧
        ∀ name set, selfNested.extract { maxAliasDepth := 4 } ≠ .error (.aliasDepthExceeded name set) := by
  obtain ⟨doc, hdoc⟩ := extract_selfNested_one
  have hsame := (extract_eq_of_limit_le selfNested_valid {} (by decide : 1 ≤ 4)).1 (by simp [hdoc])
  have hnever := (extract_eq_of_limit_le selfNested_valid {} (by decide : 4 ≤ 64)).2 (by decide)
  exact ⟨by decide, doc, hdoc, hsame.trans hdoc, hnever⟩

end SymbolGraph

end ApiDocs
