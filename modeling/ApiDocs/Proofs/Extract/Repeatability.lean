import ApiDocs.Proofs.Docs.WellFormed
import ApiDocs.Proofs.Extract.TypeUnfolding

/-!
# Describing a type again

A description names declared types by positions in the table of references, so it depends on the table
that it was made from. It leaves behind a table in which all that it needs is found, and the records that
were there before are as they were. From then on the type has one description: whatever else is described
or requested, and whatever targets the records are given, describing it again finds the same records and
adds none.

The argument does not go through the two runs side by side. The first one ends in a table in which the
description shows the type, level by level; this lasts as long as records are found where they were; and
from a table in which a description shows a type, it is described as this and nothing changes.

## Main definitions

* `RefStep`: a further use of a table of references.

## Main results

* `TypeHost.describe_repeats`: describing appends, and repeats itself.
-/

namespace ApiDocs

/-! ## Further use of a table -/

/-- A use of a table of references: a type of some host is described, or the table is called. -/
inductive RefStep where
  | describe (h : TypeHost) (id : TypeId)
  | call (c : RefCall SymbolId)

namespace RefTable

/-- The table after one more use. -/
def step (refs : RefTable SymbolId) : RefStep → RefTable SymbolId
  | .describe h id => (h.describe id refs).2
  | .call c => store.next refs c

/-- The table after further uses. -/
def afterSteps (refs : RefTable SymbolId) (steps : List RefStep) : RefTable SymbolId := steps.foldl step refs

theorem lookupGrowth_step (refs : RefTable SymbolId) (step : RefStep) :
    TypeHost.lookupGrowth.Le refs (refs.step step) := by
  intro symbol name r hr
  cases step with
  | describe h id => exact (TypeHost.describeWithin_runs describedLevels id refs).le.lookup_eq hr
  | call c =>
    cases c with
    | request => exact lookup_request hr
    | lookup | get | size => exact hr

/-- What is found in a table is found there after any further use. -/
theorem lookupGrowth_afterSteps (refs : RefTable SymbolId) (steps : List RefStep) :
    TypeHost.lookupGrowth.Le refs (refs.afterSteps steps) := by
  induction steps generalizing refs with
  | nil => exact TypeHost.lookupGrowth.refl refs
  | cons step steps ih => exact TypeHost.lookupGrowth.trans (refs.lookupGrowth_step step) (ih _)

/-- Requesting what is found changes nothing. -/
theorem request_of_lookup {refs : RefTable SymbolId} {symbol : SymbolId} {name : String} {r : RefId}
    (hr : refs.lookup symbol name = some r) : refs.request symbol name none = (r, refs) := by
  rw [request, hr]
  rfl

theorem index_lt_of_lookup {refs : RefTable SymbolId} {symbol : SymbolId} {name : String} {r : RefId}
    (hr : refs.lookup symbol name = some r) : r.index < refs.size := by
  obtain ⟨i, hi, rfl⟩ := Option.map_eq_some_iff.mp hr
  exact (Array.findIdx?_eq_some_iff_getElem.mp hi).1

end RefTable

/-! ## What is shown is described -/

namespace TypeHost

variable {h : TypeHost} {refs : RefTable SymbolId}

/-- A loop whose steps change nothing changes nothing. -/
theorem mapM_eq_of_forall₂ {α β σ : Type} {f : α → StateM σ β} {s : σ} {as : List α} {bs : List β}
    (hall : List.Forall₂ (fun a b => f a s = (b, s)) as bs) : as.mapM f s = (bs, s) := by
  induction hall with
  | nil => rfl
  | cons hab _ ih =>
    rw [List.mapM_cons]
    exact bind_eq_iff.mpr ⟨_, _, hab, bind_eq_iff.mpr ⟨_, _, ih, rfl⟩⟩

/-- If the parts are described as the parts of a description that shows the type, and nothing changes, then
the type is described as this and nothing changes. -/
theorem Shows.describeBy_eq {inner : TypeId → StateM (RefTable SymbolId) TypeDoc} {id : TypeId} {d : TypeDoc}
    (hshow : h.Shows refs id d)
    (hparts : List.Forall₂ (fun part x => inner part refs = (x, refs)) (h.parts id) d.parts) :
    h.describeBy inner id refs = (d, refs) := by
  unfold Shows at hshow
  unfold parts at hparts
  unfold describeBy
  cases hs : (h.typeAt id).shape with
  | enumUnion symbol =>
    rw [hs] at hshow
    obtain ⟨r, hr, rfl⟩ := hshow
    exact bind_eq_iff.mpr ⟨_, _, RefTable.request_of_lookup hr, rfl⟩
  | array element =>
    rw [hs] at hshow hparts
    obtain ⟨x, rfl⟩ := hshow
    obtain ⟨hx, -⟩ := List.forall₂_cons.mp hparts
    exact bind_eq_iff.mpr ⟨_, _, hx, rfl⟩
  | reference symbol arguments =>
    rw [hs] at hshow hparts
    obtain ⟨r, xs, hr, -, rfl⟩ := hshow
    exact bind_eq_iff.mpr ⟨_, _, RefTable.request_of_lookup hr,
      bind_eq_iff.mpr ⟨_, _, mapM_eq_of_forall₂ hparts, rfl⟩⟩
  | union members | intersection members =>
    rw [hs] at hshow hparts
    obtain ⟨xs, -, rfl⟩ := hshow
    exact bind_eq_iff.mpr ⟨_, _, mapM_eq_of_forall₂ hparts, rfl⟩
  | enumLiteral primitive value | simple | tuple | unsupported =>
    rw [hs] at hshow
    subst hshow
    rfl

theorem ShowsWithin.describeWithin_eq {levels : Nat} {id : TypeId} {d : TypeDoc}
    (hd : h.ShowsWithin refs levels id d) : h.describeWithin levels id refs = (d, refs) := by
  induction levels generalizing id d with
  | zero =>
    cases hd
    rfl
  | succ levels ih => exact hd.1.describeBy_eq (hd.2.imp fun _ _ hpart => ih hpart)

/-- What a description mentions is in a description of a part, or it is the reference of the type itself. -/
theorem ShowsWithin.index_lt_of_mentions {levels : Nat} {id : TypeId} {d : TypeDoc}
    (hd : h.ShowsWithin refs levels id d) {r : RefId} (hr : d.Mentions r) : r.index < refs.size := by
  induction levels generalizing id d with
  | zero =>
    cases hd
    cases hr
  | succ levels ih =>
    obtain ⟨hshow, hparts⟩ := hd
    have hinner : ∀ x ∈ d.parts, x.Mentions r → r.index < refs.size := by
      intro x hx hr
      obtain ⟨part, -, hpart⟩ := forall₂_mem_right hparts hx
      exact ih hpart hr
    cases hr with
    | target =>
      unfold Shows at hshow
      generalize (h.typeAt id).shape = shape at hshow
      cases shape with
      | enumUnion symbol =>
        obtain ⟨r', hr', ⟨⟩⟩ := hshow
        exact RefTable.index_lt_of_lookup hr'
      | reference symbol arguments =>
        obtain ⟨r', xs, hr', -, ⟨⟩⟩ := hshow
        exact RefTable.index_lt_of_lookup hr'
      | _ => simp at hshow
    | argument hx hr | unionMember hx hr | intersectionMember hx hr => exact hinner _ hx hr
    | element hr => exact hinner _ (List.mem_singleton_self _) hr

/-! ## Describing again -/

/-- **Describing only appends, and repeats itself.** Records that are there stay as they are, and new ones
have no target; what the description mentions is in the table. After any further use of the table, by any
hosts and with any targets, the type is described alike, and the table stays as it is. The descriptions that
a graph gives are these. -/
theorem describe_repeats :
    (∀ (h : TypeHost) (id : TypeId) (refs : RefTable SymbolId),
      (∃ fresh, (h.describe id refs).2.records = refs.records ++ fresh ∧ ∀ x ∈ fresh, x.2.target = none) ∧
      (∀ r, (h.describe id refs).1.Mentions r → r.index < (h.describe id refs).2.size) ∧
      ∀ steps, h.describe id ((h.describe id refs).2.afterSteps steps) =
        ((h.describe id refs).1, (h.describe id refs).2.afterSteps steps)) ∧
    ∀ (g : SymbolGraph) (id : TypeId) (refs : RefTable SymbolId), g.Valid → id.Within g.extent →
      g.describe id refs = .ok (g.typeHost.describe id refs) := by
  refine ⟨fun h id refs => ?_, fun g id refs hvalid hid => ?_⟩
  · have hruns := describeWithin_runs (h := h) describedLevels id refs
    refine ⟨hruns.le.exists_fresh, fun r hr => hruns.post.index_lt_of_mentions hr, fun steps => ?_⟩
    have hlast := showsWithin_stable describedLevels id _ _ _ (RefTable.lookupGrowth_afterSteps _ steps) hruns.post
    exact hlast.describeWithin_eq
  · have hg := SymbolGraph.valid_iff_closed.mp hvalid
    exact congrFun (SymbolGraph.describeWithin_eq_embed hg describedLevels hid) refs

/-- A box of boxes. -/
def boxGraph : SymbolGraph where
  symbols := #[{ name := "Box", flags := SymbolFlags.classBit }]
  types := #[
    { flags := TypeFlags.objectBit, objectFlags := ObjectFlags.referenceBit, symbol := some ⟨0⟩,
      targetName := some "Box", typeArguments := [⟨1⟩], display := "Box<Box>" },
    { flags := TypeFlags.objectBit, objectFlags := ObjectFlags.classBit, symbol := some ⟨0⟩,
      display := "Box" }]

/-- The box is given its class, another symbol of the same name gets a record, and the inner type is
described. -/
def boxSteps : List RefStep :=
  [.call (.request ⟨0⟩ "Box" (some (.toClass ⟨3⟩))), .call (.request ⟨7⟩ "Box" none),
    .describe boxGraph.typeHost ⟨1⟩]

/-- The table after the first description. -/
def boxRefs : RefTable SymbolId := ⟨#[(⟨0⟩, { name := "Box" })]⟩

/-- Afterwards the type is described as before, and there are two records. -/
theorem boxGraph_repeats :
    boxGraph.Valid ∧
      boxGraph.describe ⟨0⟩ .empty = .ok (.ref ⟨0⟩ [.ref ⟨0⟩ []], boxRefs) ∧
      boxGraph.describe ⟨0⟩ (boxRefs.afterSteps boxSteps) =
        .ok (.ref ⟨0⟩ [.ref ⟨0⟩ []], boxRefs.afterSteps boxSteps) ∧
      (boxRefs.afterSteps boxSteps).refs =
        #[{ name := "Box", target := some (.toClass ⟨3⟩) }, { name := "Box" }] := by
  have hvalid : boxGraph.Valid := by decide
  have hid : (⟨0⟩ : TypeId).Within boxGraph.extent := by
    change 0 < boxGraph.types.size
    decide
  have hfirst : boxGraph.typeHost.describe ⟨0⟩ .empty = (.ref ⟨0⟩ [.ref ⟨0⟩ []], boxRefs) := by
    with_unfolding_all rfl
  obtain ⟨hhosts, hgraphs⟩ := describe_repeats
  obtain ⟨-, -, hagain⟩ := hhosts boxGraph.typeHost ⟨0⟩ .empty
  rw [hfirst] at hagain
  refine ⟨hvalid, ?_, ?_, by decide +kernel⟩
  · rw [hgraphs boxGraph ⟨0⟩ .empty hvalid hid, hfirst]
  · rw [hgraphs boxGraph ⟨0⟩ _ hvalid hid, hagain boxSteps]

end TypeHost

end ApiDocs
