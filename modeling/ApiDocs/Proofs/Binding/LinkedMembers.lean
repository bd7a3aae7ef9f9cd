import ApiDocs.Proofs.Binding.EnumMembers
import ApiDocs.Proofs.Binding.RecordedTypes

/-!
# Members of enums when drafts are linked

Linking adds exports to modules only, so the sole members of enums stay the members that were noted of them.
Each of them has the type of its value in the end, since functions and classes, which get their types last, are
declared as such.

## Main definitions

* `Linking.exporting`: steps that leave exports alone.
* `GraphDraft.AddsModuleExports`: what linking does to exports.

## Main results

* `GraphDraft.linked_exportsOf`: own exports stay in front, and behind them are those of modules.
* `GraphDraft.linked_hasMemberType`: a member that is noted once has the type of its value.
-/

namespace ApiDocs

namespace GraphBuilder

variable {b b' : GraphBuilder} {s : SymbolId} {S : SymbolId → Prop} {T : SymbolId → Nat → Prop}

/-! ## Symbols that linking touches -/

theorem exists_symbol?_of_within (hs : s.Within b.extent) : ∃ x, b.graph.symbol? s = some x :=
  ⟨_, Array.getElem?_eq_getElem hs⟩

theorem Touches.exists_bare_eq (h : b.Touches S T b') (hs : s.Within b.extent) :
    ∃ x y, b.graph.symbol? s = some x ∧ b'.graph.symbol? s = some y ∧ y.bare = x.bare := by
  obtain ⟨x, hx⟩ := exists_symbol?_of_within hs
  obtain ⟨y, hy, hbare⟩ := Option.map_eq_some_iff.mp (h.bare hx)
  exact ⟨x, y, hx, hy, hbare⟩

theorem Touches.within (h : b.Touches S T b') (hs : s.Within b.extent) : s.Within b'.extent := by
  obtain ⟨_, y, -, hy, -⟩ := h.exists_bare_eq hs
  exact (Array.getElem?_eq_some_iff.mp hy).1

theorem Touches.nameOf_eq (h : b.Touches S T b') (hs : s.Within b.extent) : b'.nameOf s = b.nameOf s := by
  obtain ⟨x, y, hx, hy, hbare⟩ := h.exists_bare_eq hs
  rw [nameOf, nameOf, hx, hy]
  exact congrArg (·.name) hbare

theorem Touches.kindsOf_eq (h : b.Touches S T b') (hs : s.Within b.extent) : b'.kindsOf s = b.kindsOf s := by
  obtain ⟨x, y, hx, hy, hbare⟩ := h.exists_bare_eq hs
  rw [kindsOf, kindsOf, declarationsOf, declarationsOf, hx, hy]
  have hkinds := congrArg (fun z : Symbol => z.declarations.map (·.kind)) hbare
  simpa [Symbol.bare, Declaration.bare, Function.comp_def] using hkinds

/-- Flags stay, but for those of aliases. -/
theorem Touches.has_flag (h : b.Touches S T b') (hs : s.Within b.extent) {f : SymbolFlags}
    (hf : SymbolFlags.aliasBit.meets f = false) : (b'.flagsOf s).has f = (b.flagsOf s).has f := by
  obtain ⟨x, y, hx, hy, hbare⟩ := h.exists_bare_eq hs
  have hflags : y.flags ∪ SymbolFlags.aliasBit = x.flags ∪ SymbolFlags.aliasBit := congrArg (·.flags) hbare
  rw [flagsOf, flagsOf, hx, hy]
  calc y.flags.has f = (y.flags ∪ SymbolFlags.aliasBit).has f := (FlagSet.has_union_iff hf).symm
    _ = (x.flags ∪ SymbolFlags.aliasBit).has f := by rw [hflags]
    _ = x.flags.has f := FlagSet.has_union_iff hf

/-- What keeps symbols keeps exports. -/
theorem Keeps.exportsOf_all (h : b.Keeps b') (s : SymbolId) : b'.exportsOf s = b.exportsOf s := by
  by_cases hs : s.Within b.extent
  · exact h.exportsOf_eq hs
  · have hnone : b.symbolCore? s = none :=
      symbolCore?_eq_none_iff.mpr (Array.getElem?_eq_none (Nat.not_lt.mp hs))
    rw [h.exportsOf_fresh hnone, exportsOf_eq_core, hnone]
    rfl

end GraphBuilder

namespace Linking

variable {l : Linking}

/-! ## Exports that stay -/

/-- Steps that leave exports alone. -/
def exporting : Growth Linking where
  Good _ := True
  Le l l' := ∀ s, l'.builder.exportsOf s = l.builder.exportsOf s
  refl _ _ := rfl
  trans h h' s := (h' s).trans (h s)

theorem linkAlias_exporting (draft : AliasDraft) : exporting.Runs (linkAlias draft) l Anything := by
  unfold linkAlias
  refine Growth.runs_get ?_
  split
  · split
    · exact ⟨trivial, GraphBuilder.exportsOf_modifyAside fun _ => rfl, trivial⟩
    · exact Growth.runs_pure trivial trivial
  · exact Growth.runs_pure trivial trivial

theorem resolveType_exporting (ref : NameRef) : exporting.Runs (resolveType ref) l fun _ _ => True := by
  unfold resolveType
  refine Growth.runs_get ?_
  split
  · exact Growth.runs_pure trivial trivial
  next name _ =>
    refine Growth.Runs.bind (P := fun _ _ => True) ⟨trivial, fun s => ?_, trivial⟩
      fun _ _ _ _ _ => Growth.runs_pure trivial trivial
    -- What the library declares exports nothing.
    exact (GraphBuilder.memberTable_declare _ _ s true).trans (GraphBuilder.memberTable_addSymbol l.builder name _ s true)
  · exact Growth.runs_pure trivial trivial

theorem linkHeritage_exporting (draft : HeritageDraft) : exporting.Runs (linkHeritage draft) l Anything := by
  have hsymbols : exporting.Runs (draft.names.mapM resolveType) l fun found _ => ∀ _ ∈ found, True :=
    Growth.runs_mapM trivial (fun _ _ _ _ h => h) fun ref _ _ _ _ => resolveType_exporting ref
  refine hsymbols.bind fun found l₁ _ _ _ => ⟨trivial, ?_, trivial⟩
  exact GraphBuilder.exportsOf_modifyAside fun _ => rfl

end Linking

namespace GraphDraft

open Linking

variable {d : GraphDraft} {s : SymbolId}

/-- Own exports stay in front, and behind them are exports of modules. -/
def AddsModuleExports (d : GraphDraft) (b : GraphBuilder) : Prop :=
  ∀ s, ∃ new, (b.exportsOf s).entries = (d.builder.exportsOf s).entries ++ new ∧
    ∀ e ∈ new, ∃ t ∈ d.modules.values, e ∈ (d.builder.exportsOf t).entries

/-- One more export is copied. -/
theorem AddsModuleExports.step {b b' : GraphBuilder} (h : d.AddsModuleExports b)
    (hstep : CopyStep (starEdges d.modules d.stars) b b') : d.AddsModuleExports b' := by
  obtain @⟨m, t, x, name, hedge, -, hkey, he⟩ := hstep
  have ht : t ∈ d.modules.values := by
    obtain ⟨star, -, hstar⟩ := List.mem_filterMap.mp hedge
    obtain ⟨target, htarget, hpair⟩ := Option.map_eq_some_iff.mp hstar
    obtain ⟨-, rfl⟩ := Prod.mk.inj hpair
    exact mem_values_of_resolve? htarget
  intro s
  obtain ⟨new, hnew, hsource⟩ := h s
  rw [GraphBuilder.exportsOf_exportAs]
  split
  next hs =>
    obtain ⟨rfl, -⟩ := hs
    refine ⟨new ++ [(name, x)], ?_, List.forall_mem_append.mpr ⟨hsource, List.forall_mem_singleton.mpr ?_⟩⟩
    · rw [Table.entries_insert_of_notMem hkey, hnew, List.append_assoc]
    · obtain ⟨newT, hnewT, hsourceT⟩ := h t
      rw [hnewT] at he
      exact (List.mem_append.mp he).elim (fun he => ⟨t, ht, he⟩) (hsourceT _)
  next => exact ⟨new, hnew, hsource⟩

theorem linkStars_addsModuleExports (d : GraphDraft) :
    d.AddsModuleExports (linkStars d.stars d.begun).2.builder := by
  have hcopied : Copied (starEdges d.modules d.stars) d.builder (linkStars d.stars d.begun).2.builder :=
    copied_times (starEdges d.modules d.stars) _ d.builder
  generalize (linkStars d.stars d.begun).2.builder = b at hcopied ⊢
  induction hcopied with
  | refl => exact fun s => ⟨[], by simp, by simp⟩
  | tail _ hstep ih => exact ih.step hstep

/-- **Own exports stay in front**, and behind them are exports of modules. -/
theorem linked_exportsOf (hd : d.Sound) (hu : d.Untyped) : d.AddsModuleExports d.linked.builder := by
  have hblank := begun_blank hd hu.intrinsics
  -- Exports stay when aliases and heritage are settled, and no symbol changes when enums and types are made.
  have hnames : exporting.Runs (do d.aliases.forM linkAlias; d.heritage.forM linkHeritage)
      (linkStars d.stars d.begun).2 Linking.Anything :=
    (Growth.runs_forM trivial fun x _ _ _ _ => linkAlias_exporting x).bind fun _ _ _ _ _ =>
      Growth.runs_forM trivial fun x _ _ _ _ => linkHeritage_exporting x
  have hnaming := linkNames_naming (d := d) hblank
  have hnotes := hd.notes.mono hnaming.le.1
  have henums := Growth.runs_forM (G := Linking.enumerating) (l := d.enums) hnaming.good.prepared
    fun x hx l' hl' hle' => linkEnum_enumerating hl' ((hnotes.enums x hx).mono hle'.1.1)
  obtain ⟨horderly, hsettled⟩ := namesSettled_orderly hd hu.intrinsics
  have htypes := making_of_makingOf (settleTypes_makingOf horderly hsettled)
  intro s
  have hexports : d.linked.builder.exportsOf s = (linkStars d.stars d.begun).2.builder.exportsOf s :=
    (htypes.le.2.builder.exportsOf_all s).trans ((henums.le.2.exportsOf_all s).trans (hnames.le s))
  rw [hexports]
  exact linkStars_addsModuleExports d s

/-- Linking touches types only. -/
theorem linked_touches (hd : d.Sound) (hu : d.Untyped) :
    d.builder.Touches (fun _ => True) (fun _ _ => True) d.linked.builder := by
  have hnames := (settleNames_touching d d.begun).le.toTouches
  have hvalues : (touching (fun _ => True) fun _ _ => True).Runs d.settleValues d.namesSettled Linking.Anything :=
    (Growth.runs_forM trivial fun p _ _ _ _ => linkType_touching (fun _ => trivial) p.2).bind fun _ _ _ _ _ =>
      Growth.runs_forM trivial fun _ _ _ _ _ => linkIndex_touching trivial
  obtain ⟨-, -, hcalls⟩ := valuesSettled_linked hd hu
  have hall : ∀ {S : SymbolId → Prop} {T : SymbolId → Nat → Prop} {b b' : GraphBuilder},
      b.Touches S T b' → b.Touches (fun _ => True) (fun _ _ => True) b' :=
    fun h => h.mono (fun _ _ => trivial) fun _ _ _ => trivial
  exact (hall hnames).trans ((hall hvalues.le.toTouches).trans (hall hcalls.toTouches))

/-- **A member that is noted once has the type of its value**, unless something else has the symbol, too. -/
theorem linked_hasMemberType (hd : d.Sound) (hu : d.Untyped) {x : SymbolId} {v : Option Literal}
    (henum : ∀ e ∈ d.enums, e.symbol ≠ x) (honce : (d.enums.flatMap (·.members)).filter (·.1 = x) = [(x, v)])
    (hlast : ¬ d.TypedLast x) : d.linked.HasMemberType x v := by
  obtain ⟨t, ht, node, hnode, hshape⟩ := (settleNames_enums hd hu.intrinsics).2.2 x v henum honce
  obtain ⟨horderly, hnotes⟩ := namesSettled_orderly hd hu.intrinsics
  have hvalues : (touching (· ≠ x) fun _ _ => True).Runs d.settleValues d.namesSettled Linking.Anything := by
    have htyped : (touching (· ≠ x) fun _ _ => False).Runs (d.symbolTypes.forM fun p => linkType p.1 p.2)
        d.namesSettled Linking.Anything := linkTypes_typed ht
    refine (touching_of htyped (fun _ => id) fun _ _ => False.elim).bind fun _ _ _ _ _ => ?_
    exact Growth.runs_forM trivial fun _ _ _ _ _ => linkIndex_touching trivial
  obtain ⟨-, -, hcalls⟩ := valuesSettled_linked hd hu
  refine ⟨t, ?_, node, (settleTypes_makingOf horderly hnotes).le.1.2.builder.type hnode, hshape⟩
  rw [hcalls.types x hlast, valuesSettled, hvalues.le.types x (not_not_intro rfl)]
  exact ht

end GraphDraft

end ApiDocs
