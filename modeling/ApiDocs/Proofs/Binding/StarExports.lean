import ApiDocs.Binding.Link
import ApiDocs.Proofs.Graph.Builder
import Mathlib.Data.Finset.Card
import Mathlib.Logic.Relation

/-!
# Exports of exports

A module may export all that another one exports, which may in turn export all that a third one does,
in any graph of modules. Rounds in which every module takes what the others have so far are repeated
until one of them changes nothing. What comes out is said without rounds: a module has its own names,
and those of the modules that it reaches; what it has under a name that is not its own comes along a
path on which no module before the last has the name itself.

Two views of the rounds carry the proofs. For what is copied, a round is a sequence of single copies,
`CopyStep`, and what one copy preserves holds of them all. For the end of the rounds only one name
counts at a time: as long as it can still pass an edge, some edge fewer starts at a module without it.

## Main definitions

* `Linking.starEdges`: the edges between modules.
* `Linking.Settles`: rounds until one changes nothing.
* `Linking.StarSource`: what a module may get under a name.
* `Linking.StarExports`: what all modules export in the end.
-/

namespace ApiDocs

/-! ## The exports of a builder -/

namespace GraphBuilder

variable {b : GraphBuilder} {container m s : SymbolId} {name : String}

theorem exportsOf_exportAs (b : GraphBuilder) (container : SymbolId) (name : String) (s m : SymbolId) :
    (b.exportAs container name s).exportsOf m =
      if m = container ∧ container.Within b.extent then (b.exportsOf container).insert name s
      else b.exportsOf m := by
  rw [exportsOf, exportAs, symbol?_modifySymbol]
  by_cases hm : m = container
  · subst hm
    by_cases hin : m.Within b.extent
    · obtain ⟨x, hx⟩ : ∃ x, b.graph.symbol? m = some x := ⟨_, Array.getElem?_eq_getElem hin⟩
      simp [exportsOf, hx, hin]
    · have hnone : b.graph.symbol? m = none := by
        simpa [SymbolId.Within, SymbolGraph.extent, SymbolGraph.symbol?] using hin
      simp [exportsOf, hnone, hin]
  · simp [exportsOf, hm]

@[simp] theorem extent_exportAs (b : GraphBuilder) (container : SymbolId) (name : String)
    (s : SymbolId) : (b.exportAs container name s).extent = b.extent := by
  simp [exportAs, modifySymbol, extent, SymbolGraph.extent]

end GraphBuilder

namespace Linking

variable {edges : List (SymbolId × SymbolId)} {b b' b'' : GraphBuilder} {m t s : SymbolId}
  {name : String}

/-! ## Definitions -/

/-- The edges between modules: those whose specifier leads to a module. -/
def starEdges (modules : Table String SymbolId) (stars : List StarDraft) :
    List (SymbolId × SymbolId) :=
  stars.filterMap fun star =>
    (ModulePath.resolve? modules star.source star.specifier).map fun target =>
      (star.container, target)

/-- Rounds are repeated until one changes nothing. -/
inductive Settles (edges : List (SymbolId × SymbolId)) : GraphBuilder → GraphBuilder → Prop where
  | stop {b : GraphBuilder} : starRound edges b = b → Settles edges b b
  | again {b b' : GraphBuilder} : starRound edges b ≠ b → Settles edges (starRound edges b) b' →
    Settles edges b b'

/-- A path of edges leads from the module to one that exports the symbol under the name, and no module
before that one exports the name. -/
inductive StarSource (edges : List (SymbolId × SymbolId)) (b : GraphBuilder) (name : String) :
    SymbolId → SymbolId → Prop where
  | edge {m t s : SymbolId} : (m, t) ∈ edges → name ∉ (b.exportsOf m).keys →
    (name, s) ∈ (b.exportsOf t).entries → StarSource edges b name m s
  | path {m t s : SymbolId} : (m, t) ∈ edges → name ∉ (b.exportsOf m).keys →
    StarSource edges b name t s → StarSource edges b name m s

/-- The second module can be reached from the first. -/
def Reaches (edges : List (SymbolId × SymbolId)) : SymbolId → SymbolId → Prop :=
  Relation.ReflTransGen fun m t => (m, t) ∈ edges

/-- What modules export in `b'`, when they exported what they do in `b` on their own. -/
structure StarExports (edges : List (SymbolId × SymbolId)) (b b' : GraphBuilder) : Prop where
  /-- Nothing but exports changes. -/
  frame : b' = { b with graph := { b.graph with symbols := b'.graph.symbols } }
  symbol : ∀ id, b'.graph.symbol? id =
    (b.graph.symbol? id).map fun s => { s with exports := b'.exportsOf id }
  /-- Own exports stay in front, and what comes behind them is not the default and has a source. -/
  entries : ∀ m, ∃ new, (b'.exportsOf m).entries = (b.exportsOf m).entries ++ new ∧
    ∀ e ∈ new, e.1 ≠ "default" ∧ StarSource edges b e.1 m e.2
  /-- The names are the own ones and those of all modules that can be reached. -/
  names : ∀ m name, name ∈ (b'.exportsOf m).keys ↔ name ∈ (b.exportsOf m).keys ∨
    name ≠ "default" ∧ ∃ t, Reaches edges m t ∧ name ∈ (b.exportsOf t).keys

/-! ## Single copies -/

/-- One name is copied along an edge, to a module that does not have it. -/
inductive CopyStep (edges : List (SymbolId × SymbolId)) (b : GraphBuilder) : GraphBuilder → Prop where
  | copy {m t s : SymbolId} {name : String} : (m, t) ∈ edges → name ≠ "default" →
    name ∉ (b.exportsOf m).keys → (name, s) ∈ (b.exportsOf t).entries →
    CopyStep edges b (b.exportAs m name s)

/-- Names are copied one after the other. -/
def Copied (edges : List (SymbolId × SymbolId)) : GraphBuilder → GraphBuilder → Prop :=
  Relation.ReflTransGen (CopyStep edges)

/-- Export an entry, unless its name is there or the default. -/
def copyEntry (container : SymbolId) (b : GraphBuilder) (e : String × SymbolId) : GraphBuilder :=
  if e.1 == "default" || (b.exportsOf container).contains e.1 then b
  else b.exportAs container e.1 e.2

theorem copyExports_eq (b : GraphBuilder) (container target : SymbolId) :
    copyExports b container target = (b.exportsOf target).entries.foldl (copyEntry container) b := rfl

theorem copyEntry_of_skip {e : String × SymbolId}
    (h : e.1 = "default" ∨ e.1 ∈ (b.exportsOf m).keys) : copyEntry m b e = b := by
  rw [← Table.contains_eq_true_iff] at h
  simp [copyEntry, h]

theorem copyEntry_of_fresh {e : String × SymbolId} (hd : e.1 ≠ "default")
    (hk : e.1 ∉ (b.exportsOf m).keys) : copyEntry m b e = b.exportAs m e.1 e.2 := by
  rw [← Table.contains_eq_true_iff] at hk
  simp [copyEntry, hd, hk]

theorem mem_entries_exportAs {container : SymbolId} {e : String × SymbolId}
    (hk : name ∉ (b.exportsOf container).keys) (he : e ∈ (b.exportsOf m).entries) :
    e ∈ ((b.exportAs container name s).exportsOf m).entries := by
  rw [GraphBuilder.exportsOf_exportAs]
  split
  next h =>
    rw [Table.entries_insert_of_notMem hk, ← h.1]
    exact List.mem_append_left _ he
  next => exact he

theorem copied_foldl_copyEntry (hedge : (m, t) ∈ edges) :
    ∀ (es : List (String × SymbolId)) (b : GraphBuilder), (∀ e ∈ es, e ∈ (b.exportsOf t).entries) →
      Copied edges b (es.foldl (copyEntry m) b) := by
  intro es
  induction es with
  | nil => exact fun b _ => .refl
  | cons e es ih =>
    intro b hes
    rw [List.foldl_cons]
    by_cases hskip : e.1 = "default" ∨ e.1 ∈ (b.exportsOf m).keys
    · rw [copyEntry_of_skip hskip]
      exact ih b fun x hx => hes x (by simp [hx])
    · push Not at hskip
      rw [copyEntry_of_fresh hskip.1 hskip.2]
      refine .head (.copy hedge hskip.1 hskip.2 (hes e (by simp))) (ih _ fun x hx => ?_)
      exact mem_entries_exportAs hskip.2 (hes x (by simp [hx]))

theorem copied_starRound (edges : List (SymbolId × SymbolId)) :
    ∀ b, Copied edges b (starRound edges b) := by
  have hloop : ∀ es : List (SymbolId × SymbolId), (∀ e ∈ es, e ∈ edges) → ∀ b,
      Copied edges b (starRound es b) := by
    intro es
    induction es with
    | nil => exact fun _ _ => .refl
    | cons e es ih =>
      intro hes b
      have hfirst : Copied edges b (copyExports b e.1 e.2) := by
        rw [copyExports_eq]
        exact copied_foldl_copyEntry (hes e (by simp)) _ b fun _ he => he
      exact hfirst.trans (ih (fun x hx => hes x (by simp [hx])) _)
  exact hloop edges fun _ he => he

theorem copied_times (edges : List (SymbolId × SymbolId)) (n : Nat) :
    ∀ b, Copied edges b (times (starRound edges) n b) := by
  induction n with
  | zero => exact fun _ => .refl
  | succ n ih => exact fun b => (copied_starRound edges b).trans (ih _)

/-! ## What copies preserve -/

theorem exportsOf_exportAs_self (hm : m.Within b.extent) :
    (b.exportAs m name s).exportsOf m = (b.exportsOf m).insert name s := by
  rw [GraphBuilder.exportsOf_exportAs, if_pos ⟨rfl, hm⟩]

theorem exportsOf_exportAs_of_ne {n : SymbolId} (hn : n ≠ m) :
    (b.exportAs m name s).exportsOf n = b.exportsOf n := by
  rw [GraphBuilder.exportsOf_exportAs, if_neg fun h => hn h.1]

/-- What holds of a builder after some copies: all of `StarExports` but that the names are complete. -/
structure Grown (edges : List (SymbolId × SymbolId)) (b b' : GraphBuilder) : Prop where
  frame : b' = { b with graph := { b.graph with symbols := b'.graph.symbols } }
  extent : b'.extent = b.extent
  symbol : ∀ id, b'.graph.symbol? id =
    (b.graph.symbol? id).map fun s => { s with exports := b'.exportsOf id }
  entries : ∀ m, ∃ new, (b'.exportsOf m).entries = (b.exportsOf m).entries ++ new ∧
    ∀ e ∈ new, e.1 ≠ "default" ∧ StarSource edges b e.1 m e.2

theorem Grown.refl (edges : List (SymbolId × SymbolId)) (b : GraphBuilder) : Grown edges b b where
  frame := rfl
  extent := rfl
  symbol id := by
    cases h : b.graph.symbol? id with
    | none => rfl
    | some s => simp [GraphBuilder.exportsOf, h]
  entries m := ⟨[], by simp⟩

/-- The symbol that a copied entry is for has a source: the entry was there from the start, or was
copied itself. -/
theorem Grown.starSource (h : Grown edges b b') (hedge : (m, t) ∈ edges)
    (hk : name ∉ (b'.exportsOf m).keys) (he : (name, s) ∈ (b'.exportsOf t).entries) :
    StarSource edges b name m s := by
  have hown : name ∉ (b.exportsOf m).keys := by
    obtain ⟨new, hnew, -⟩ := h.entries m
    rw [Table.keys, hnew, List.map_append, List.mem_append, not_or] at hk
    exact hk.1
  obtain ⟨new, hnew, hsource⟩ := h.entries t
  rw [hnew, List.mem_append] at he
  rcases he with he | he
  · exact .edge hedge hown he
  · exact .path hedge hown (hsource _ he).2

/-- **One copy.** -/
theorem Grown.step (h : Grown edges b b') (hin : ∀ e ∈ edges, e.1.Within b.extent)
    (hstep : CopyStep edges b' b'') : Grown edges b b'' := by
  obtain @⟨m, t, s, name, hedge, hd, hk, he⟩ := hstep
  have hm : m.Within b'.extent := h.extent ▸ hin _ hedge
  refine ⟨?_, ?_, ?_, ?_⟩
  · rw [GraphBuilder.exportAs, GraphBuilder.modifySymbol, h.frame]
  · rw [GraphBuilder.extent_exportAs, h.extent]
  · intro id
    have hother := h.symbol id
    rw [GraphBuilder.exportAs, GraphBuilder.symbol?_modifySymbol]
    by_cases hid : id = m
    · subst hid
      rw [if_pos rfl, ← GraphBuilder.exportAs, exportsOf_exportAs_self hm, hother, Option.map_map]
      rfl
    · rw [if_neg hid, ← GraphBuilder.exportAs, exportsOf_exportAs_of_ne hid, hother]
  · intro n
    obtain ⟨new, hnew, hsource⟩ := h.entries n
    by_cases hn : n = m
    · subst hn
      refine ⟨new ++ [(name, s)], ?_, fun e hmem => ?_⟩
      · rw [exportsOf_exportAs_self hm, Table.entries_insert_of_notMem hk, hnew, List.append_assoc]
      · rcases List.mem_append.mp hmem with hmem | hmem
        · exact hsource e hmem
        · rw [List.mem_singleton.mp hmem]
          exact ⟨hd, h.starSource hedge hk he⟩
    · rw [exportsOf_exportAs_of_ne hn]
      exact ⟨new, hnew, hsource⟩

/-- **All copies.** -/
theorem Copied.grown (h : Copied edges b b') (hin : ∀ e ∈ edges, e.1.Within b.extent) :
    Grown edges b b' := by
  induction h with
  | refl => exact .refl edges b
  | tail _ hstep ih => exact ih.step hin hstep

theorem StarSource.exists_reaches (h : StarSource edges b name m s) :
    ∃ t, Reaches edges m t ∧ name ∈ (b.exportsOf t).keys := by
  induction h with
  | edge hedge _ he => exact ⟨_, .single hedge, Table.mem_keys_iff.mpr ⟨_, he⟩⟩
  | path hedge _ _ ih =>
    obtain ⟨t, hreach, hk⟩ := ih
    exact ⟨t, .head hedge hreach, hk⟩

theorem StarSource.exists_entry (h : StarSource edges b name m s) :
    ∃ t, (name, s) ∈ (b.exportsOf t).entries := by
  induction h with
  | edge _ _ he => exact ⟨_, he⟩
  | path _ _ _ ih => exact ih

/-! ## The end of the rounds -/

/-- The name cannot pass an edge any more. -/
def Settled (edges : List (SymbolId × SymbolId)) (name : String) (b : GraphBuilder) : Prop :=
  ∀ e ∈ edges, name ≠ "default" → name ∈ (b.exportsOf e.2).keys → name ∈ (b.exportsOf e.1).keys

theorem mem_keys_exportAs_iff {container : SymbolId} {x : String}
    (hin : container.Within b.extent) (hk : x ∉ (b.exportsOf container).keys) :
    name ∈ ((b.exportAs container x s).exportsOf m).keys ↔
      name ∈ (b.exportsOf m).keys ∨ m = container ∧ name = x := by
  by_cases hm : m = container
  · subst hm
    rw [exportsOf_exportAs_self hin, Table.keys, Table.entries_insert_of_notMem hk]
    simp [Table.keys]
  · simp [exportsOf_exportAs_of_ne hm, hm]

/-- Along an edge all names pass but the default. -/
theorem mem_keys_copyExports_iff {container target : SymbolId} (hin : container.Within b.extent) :
    name ∈ ((copyExports b container target).exportsOf m).keys ↔ name ∈ (b.exportsOf m).keys ∨
      m = container ∧ name ≠ "default" ∧ name ∈ (b.exportsOf target).keys := by
  have hloop : ∀ (es : List (String × SymbolId)) (b : GraphBuilder), container.Within b.extent →
      (name ∈ ((es.foldl (copyEntry container) b).exportsOf m).keys ↔
        name ∈ (b.exportsOf m).keys ∨ m = container ∧ name ≠ "default" ∧ name ∈ es.map Prod.fst) := by
    intro es
    induction es with
    | nil => simp
    | cons e es ih =>
      intro b hin
      rw [List.foldl_cons]
      by_cases hskip : e.1 = "default" ∨ e.1 ∈ (b.exportsOf container).keys
      · rw [copyEntry_of_skip hskip, ih b hin]
        by_cases hm : m = container
        · subst hm
          by_cases hname : name = e.1 <;> grind
        · simp [hm]
      · push Not at hskip
        rw [copyEntry_of_fresh hskip.1 hskip.2, ih _ (by simpa using hin),
          mem_keys_exportAs_iff hin hskip.2]
        by_cases hname : name = e.1 <;> grind
  rw [copyExports_eq]
  exact hloop _ b hin

theorem extent_copyExports (b : GraphBuilder) (container target : SymbolId) :
    (copyExports b container target).extent = b.extent := by
  have hloop : ∀ (es : List (String × SymbolId)) (b : GraphBuilder),
      (es.foldl (copyEntry container) b).extent = b.extent := by
    intro es
    induction es with
    | nil => exact fun _ => rfl
    | cons e es ih =>
      intro b
      rw [List.foldl_cons, ih, copyEntry]
      split
      · rfl
      · simp
  rw [copyExports_eq]
  exact hloop _ b

theorem extent_starRound (edges : List (SymbolId × SymbolId)) (b : GraphBuilder) :
    (starRound edges b).extent = b.extent := by
  induction edges generalizing b with
  | nil => rfl
  | cons e edges ih => exact (ih _).trans (extent_copyExports b e.1 e.2)

/-- In a round names are kept, and each passes every edge that it can pass. -/
theorem mem_keys_starRound (hin : ∀ e ∈ edges, e.1.Within b.extent)
    (h : name ∈ (b.exportsOf m).keys ∨
      name ≠ "default" ∧ ∃ t, (m, t) ∈ edges ∧ name ∈ (b.exportsOf t).keys) :
    name ∈ ((starRound edges b).exportsOf m).keys := by
  induction edges generalizing b with
  | nil => simpa [starRound] using h
  | cons e edges ih =>
    have hfirst := hin e (by simp)
    have hrest : ∀ x ∈ edges, x.1.Within (copyExports b e.1 e.2).extent := by
      rw [extent_copyExports]
      exact fun x hx => hin x (by simp [hx])
    refine ih hrest ?_
    simp only [mem_keys_copyExports_iff hfirst]
    rcases h with h | ⟨hd, t, ht, hk⟩
    · exact .inl (.inl h)
    · rcases List.mem_cons.mp ht with rfl | ht
      · exact .inl (.inr ⟨rfl, hd, hk⟩)
      · exact .inr ⟨hd, t, ht, .inl hk⟩

/-- A name that is settled stays where it is. -/
theorem Settled.mem_keys_starRound_iff (h : Settled edges name b)
    (hin : ∀ e ∈ edges, e.1.Within b.extent) :
    name ∈ ((starRound edges b).exportsOf m).keys ↔ name ∈ (b.exportsOf m).keys := by
  have hloop : ∀ (es : List (SymbolId × SymbolId)) (b : GraphBuilder), (∀ e ∈ es, e ∈ edges) →
      Settled edges name b → (∀ e ∈ edges, e.1.Within b.extent) →
      (name ∈ ((starRound es b).exportsOf m).keys ↔ name ∈ (b.exportsOf m).keys) := by
    intro es
    induction es with
    | nil => exact fun _ _ _ _ => Iff.rfl
    | cons e es ih =>
      intro b hes h hin
      have he : e ∈ edges := hes e (by simp)
      have hsame : ∀ n, name ∈ ((copyExports b e.1 e.2).exportsOf n).keys ↔
          name ∈ (b.exportsOf n).keys := by
        intro n
        rw [mem_keys_copyExports_iff (hin e he)]
        refine or_iff_left_of_imp ?_
        rintro ⟨rfl, hd, hk⟩
        exact h e he hd hk
      have hsettled : Settled edges name (copyExports b e.1 e.2) := by
        intro x hx hd
        rw [hsame, hsame]
        exact h x hx hd
      have hrest := ih (copyExports b e.1 e.2) (fun x hx => hes x (by simp [hx])) hsettled
        (by rwa [extent_copyExports])
      exact hrest.trans (hsame m)
  exact hloop edges b (fun _ he => he) h hin

theorem Settled.starRound (h : Settled edges name b) (hin : ∀ e ∈ edges, e.1.Within b.extent) :
    Settled edges name (starRound edges b) := by
  intro e he hd
  rw [h.mem_keys_starRound_iff hin, h.mem_keys_starRound_iff hin]
  exact h e he hd

/-- The edges that start at a module without the name. -/
def lacking (edges : List (SymbolId × SymbolId)) (name : String) (b : GraphBuilder) :
    Finset (SymbolId × SymbolId) :=
  edges.toFinset.filter fun e => name ∉ (b.exportsOf e.1).keys

theorem card_lacking_le (edges : List (SymbolId × SymbolId)) (name : String) (b : GraphBuilder) :
    (lacking edges name b).card ≤ edges.length :=
  (Finset.card_filter_le _ _).trans (List.toFinset_card_le edges)

/-- A round in which a name can still pass an edge leaves fewer edges that lack it. -/
theorem card_lacking_starRound_lt (h : ¬ Settled edges name b)
    (hin : ∀ e ∈ edges, e.1.Within b.extent) :
    (lacking edges name (starRound edges b)).card < (lacking edges name b).card := by
  simp only [Settled, not_forall] at h
  obtain ⟨e, he, hd, hk, hnot⟩ := h
  apply Finset.card_lt_card
  rw [Finset.ssubset_iff_of_subset]
  · refine ⟨e, by simp [lacking, he, hnot], ?_⟩
    have hgot : name ∈ ((Linking.starRound edges b).exportsOf e.1).keys :=
      mem_keys_starRound hin (.inr ⟨hd, e.2, he, hk⟩)
    simp [lacking, hgot]
  · intro x hx
    simp only [lacking, Finset.mem_filter] at hx ⊢
    exact ⟨hx.1, fun hk => hx.2 (mem_keys_starRound hin (.inl hk))⟩

/-- Rounds settle a name: each either has nothing to do, or leaves fewer edges that lack the name. -/
theorem settled_times (n : Nat) : ∀ b, (∀ e ∈ edges, e.1.Within b.extent) →
    (lacking edges name b).card ≤ n ∨ Settled edges name b →
    Settled edges name (times (starRound edges) n b) := by
  induction n with
  | zero =>
    rintro b hin (hcard | h)
    · change Settled edges name b
      intro e he hd hk
      have hempty : lacking edges name b = ∅ := by simpa using hcard
      by_contra hnot
      have hmem : e ∈ lacking edges name b := by simp [lacking, he, hnot]
      simp [hempty] at hmem
    · exact h
  | succ n ih =>
    intro b hin hor
    refine ih (starRound edges b) (by rwa [extent_starRound]) ?_
    by_cases h : Settled edges name b
    · exact .inr (h.starRound hin)
    · have hlt := card_lacking_starRound_lt h hin
      have hcard := hor.resolve_right h
      exact .inl (by omega)

/-- A round changes nothing once all names are settled. -/
theorem starRound_eq_self (h : ∀ name, Settled edges name b) : starRound edges b = b := by
  have hskip : ∀ e ∈ edges, copyExports b e.1 e.2 = b := by
    intro e he
    have hloop : ∀ es : List (String × SymbolId), (∀ x ∈ es, x ∈ (b.exportsOf e.2).entries) →
        es.foldl (copyEntry e.1) b = b := by
      intro es
      induction es with
      | nil => exact fun _ => rfl
      | cons x es ih =>
        intro hes
        have hx : x.1 = "default" ∨ x.1 ∈ (b.exportsOf e.1).keys := by
          by_cases hd : x.1 = "default"
          · exact .inl hd
          · exact .inr (h x.1 e he hd (Table.mem_keys_iff.mpr ⟨x.2, hes x (by simp)⟩))
        rw [List.foldl_cons, copyEntry_of_skip hx]
        exact ih fun y hy => hes y (by simp [hy])
    rw [copyExports_eq]
    exact hloop _ fun _ hx => hx
  clear h
  induction edges with
  | nil => rfl
  | cons e edges ih =>
    change starRound edges (copyExports b e.1 e.2) = b
    rw [hskip e (by simp)]
    exact ih fun x hx => hskip x (by simp [hx])

theorem times_eq_self {α : Type} {f : α → α} {a : α} (h : f a = a) (n : Nat) : times f n a = a := by
  induction n with
  | zero => rfl
  | succ n ih => rw [times, h, ih]

/-- Rounds that end where one more changes nothing are those up to the first that changes nothing. -/
theorem settles_times (n : Nat) : ∀ b,
    starRound edges (times (starRound edges) n b) = times (starRound edges) n b →
    Settles edges b (times (starRound edges) n b) := by
  induction n with
  | zero => exact fun b h => .stop h
  | succ n ih =>
    intro b h
    by_cases hb : starRound edges b = b
    · rw [times_eq_self hb]
      exact .stop hb
    · exact .again hb (ih _ h)

/-! ## Star exports -/

/-- **Exports of exports.** As many rounds as there are edges are the rounds until one changes
nothing, and the exports are complete then. -/
theorem starExports_times (hin : ∀ e ∈ edges, e.1.Within b.extent) :
    Settles edges b (times (starRound edges) edges.length b) ∧
      StarExports edges b (times (starRound edges) edges.length b) := by
  have hsettled : ∀ name, Settled edges name (times (starRound edges) edges.length b) :=
    fun name => settled_times _ b hin (.inl (card_lacking_le edges name b))
  have hgrown := (copied_times edges edges.length b).grown hin
  refine ⟨settles_times _ b (starRound_eq_self hsettled), hgrown.frame, hgrown.symbol,
    hgrown.entries, fun m name => ⟨fun hk => ?_, ?_⟩⟩
  · obtain ⟨new, hnew, hsource⟩ := hgrown.entries m
    rw [Table.keys, hnew, List.map_append, List.mem_append] at hk
    rcases hk with hk | hk
    · exact .inl hk
    · obtain ⟨e, he, rfl⟩ := List.mem_map.mp hk
      exact .inr ⟨(hsource e he).1, (hsource e he).2.exists_reaches⟩
  · have hown : ∀ t, name ∈ (b.exportsOf t).keys →
        name ∈ ((times (starRound edges) edges.length b).exportsOf t).keys := by
      intro t hk
      obtain ⟨new, hnew, -⟩ := hgrown.entries t
      rw [Table.keys, hnew, List.map_append]
      exact List.mem_append_left _ hk
    rintro (hk | ⟨hd, t, hreach, hk⟩)
    · exact hown m hk
    · induction hreach using Relation.ReflTransGen.head_induction_on with
      | refl => exact hown t hk
      | head hedge _ ih => exact hsettled name _ hedge hd ih

/-- All paths along which a module may get something under a name lead to one symbol. -/
def Unambiguous (edges : List (SymbolId × SymbolId)) (b : GraphBuilder) : Prop :=
  ∀ m name s s', name ≠ "default" → StarSource edges b name m s → StarSource edges b name m s' → s = s'

section Order

variable {edges' : List (SymbolId × SymbolId)}

theorem StarSource.mono (hedges : ∀ e ∈ edges, e ∈ edges') (h : StarSource edges b name m s) :
    StarSource edges' b name m s := by
  induction h with
  | edge hedge hk he => exact .edge (hedges _ hedge) hk he
  | path hedge hk _ ih => exact .path (hedges _ hedge) hk ih

theorem StarSource.notMem_keys (h : StarSource edges b name m s) : name ∉ (b.exportsOf m).keys := by
  cases h with
  | edge _ hk _ => exact hk
  | path _ hk _ => exact hk

/-- Without ambiguity, what modules export is determined by which edges there are. -/
theorem StarExports.mem_entries (h : StarExports edges b b') (h' : StarExports edges' b b'')
    (hedges : ∀ e, e ∈ edges ↔ e ∈ edges') (hone : Unambiguous edges b)
    (he : (name, s) ∈ (b'.exportsOf m).entries) : (name, s) ∈ (b''.exportsOf m).entries := by
  obtain ⟨new, hnew, hsource⟩ := h.entries m
  obtain ⟨new', hnew', hsource'⟩ := h'.entries m
  rw [hnew, List.mem_append] at he
  rcases he with he | he
  · rw [hnew']
    exact List.mem_append_left _ he
  · obtain ⟨hd, hs⟩ := hsource _ he
    obtain ⟨t, hreach, hk⟩ := hs.exists_reaches
    have hreach' : Reaches edges' m t :=
      Relation.ReflTransGen.mono (fun _ _ hedge => (hedges _).mp hedge) _ _ hreach
    obtain ⟨s', he'⟩ := Table.mem_keys_iff.mp ((h'.names m name).mpr (.inr ⟨hd, t, hreach', hk⟩))
    have hmem := he'
    rw [hnew', List.mem_append] at hmem
    rcases hmem with hmem | hmem
    · exact absurd (Table.mem_keys_iff.mpr ⟨s', hmem⟩) hs.notMem_keys
    · have hs' := (hsource' _ hmem).2.mono fun _ hedge => (hedges _).mpr hedge
      rwa [hone m name s s' hd hs hs']

theorem StarExports.get?_eq (h : StarExports edges b b') (h' : StarExports edges' b b'')
    (hedges : ∀ e, e ∈ edges ↔ e ∈ edges') (hone : Unambiguous edges b) (m : SymbolId)
    (name : String) : (b'.exportsOf m).get? name = (b''.exportsOf m).get? name := by
  have hone' : Unambiguous edges' b := by
    intro m name s s' hd hs hs'
    have hback : ∀ e ∈ edges', e ∈ edges := fun e => (hedges e).mpr
    exact hone m name s s' hd (hs.mono hback) (hs'.mono hback)
  ext s
  rw [Table.get?_eq_some_iff, Table.get?_eq_some_iff]
  exact ⟨h.mem_entries h' hedges hone, h'.mem_entries h (fun e => (hedges e).symm) hone'⟩

end Order

theorem linkStars_eq (stars : List StarDraft) (l : Linking) :
    linkStars stars l = ((), { l with
      builder := times (starRound (starEdges l.modules stars)) (starEdges l.modules stars).length
        l.builder }) := rfl

theorem starEdges_within (modules : Table String SymbolId) {stars : List StarDraft} {e : Extent}
    (hin : ∀ star ∈ stars, star.container.Within e) : ∀ x ∈ starEdges modules stars, x.1.Within e := by
  intro x hx
  obtain ⟨star, hstar, hx⟩ := List.mem_filterMap.mp hx
  obtain ⟨target, -, rfl⟩ := Option.map_eq_some_iff.mp hx
  exact hin star hstar

/-- **Exports of exports reach the right fixpoint.** For any graph of modules, the rounds end: the
result is that of repeating them until one changes nothing. What modules export then is their own
exports, in front and unchanged, and behind them under each name that is reached a symbol from the end
of a path past modules without the name. Without ambiguity the order of the notes does not matter. -/
theorem linkStars_starExports (l : Linking) (stars : List StarDraft)
    (hin : ∀ star ∈ stars, star.container.Within l.builder.extent) :
    ∃ b, linkStars stars l = ((), { l with builder := b }) ∧
      Settles (starEdges l.modules stars) l.builder b ∧
      StarExports (starEdges l.modules stars) l.builder b ∧
      (Unambiguous (starEdges l.modules stars) l.builder → ∀ stars', stars.Perm stars' →
        ∃ b', linkStars stars' l = ((), { l with builder := b' }) ∧
          ∀ m name, (b'.exportsOf m).get? name = (b.exportsOf m).get? name) := by
  have hedges := starEdges_within l.modules hin
  obtain ⟨hsettles, hexports⟩ := starExports_times hedges
  refine ⟨_, linkStars_eq stars l, hsettles, hexports, fun hone stars' hperm => ?_⟩
  have hin' : ∀ star ∈ stars', star.container.Within l.builder.extent :=
    fun star hstar => hin star (hperm.mem_iff.mpr hstar)
  obtain ⟨-, hexports'⟩ := starExports_times (starEdges_within l.modules hin')
  have hsame : ∀ e, e ∈ starEdges l.modules stars ↔ e ∈ starEdges l.modules stars' :=
    fun e => (hperm.filterMap _).mem_iff
  exact ⟨_, linkStars_eq stars' l, fun m name => (hexports.get?_eq hexports' hsame hone m name).symm⟩

/-! ## A circle of modules -/

/-- The modules `a`, `b` and `c` export all of one another in a circle. -/
def moduleCircle : Linking where
  builder := { graph := { symbols := #[
    { name := "a", flags := SymbolFlags.moduleBit, exports := .ofList [("own", ⟨3⟩)] },
    { name := "b", flags := SymbolFlags.moduleBit },
    { name := "c", flags := SymbolFlags.moduleBit, exports := .ofList [("x", ⟨4⟩), ("default", ⟨5⟩)] },
    { name := "own", flags := SymbolFlags.classBit },
    { name := "x", flags := SymbolFlags.classBit },
    { name := "y", flags := SymbolFlags.classBit }] } }
  modules := .ofList [("a.ts", ⟨0⟩), ("b.ts", ⟨1⟩), ("c/index.ts", ⟨2⟩)]
  locals := .empty
  globals := .empty
  typeAliases := .empty

/-- The circle, an edge from a module to itself, and one that leads nowhere. -/
def circleNotes : List StarDraft :=
  [⟨⟨0⟩, "a.ts", "./b"⟩, ⟨⟨1⟩, "b.ts", "./c"⟩, ⟨⟨2⟩, "c/index.ts", "../a.js"⟩, ⟨⟨0⟩, "a.ts", "./a"⟩,
    ⟨⟨0⟩, "a.ts", "./missing"⟩]

theorem mem_entries_moduleCircle {e : String × SymbolId}
    (he : e ∈ (moduleCircle.builder.exportsOf m).entries) :
    e ∈ [("own", (⟨3⟩ : SymbolId)), ("x", ⟨4⟩), ("default", ⟨5⟩)] := by
  have hthere : ∀ i : Fin 6, ∀ e ∈ (moduleCircle.builder.exportsOf ⟨i⟩).entries,
      e ∈ [("own", (⟨3⟩ : SymbolId)), ("x", ⟨4⟩), ("default", ⟨5⟩)] := by decide +kernel
  by_cases hm : m.index < 6
  · exact hthere ⟨m.index, hm⟩ e he
  · have hsize : moduleCircle.builder.graph.symbols.size ≤ m.index := Nat.le_of_not_lt hm
    have hnone : moduleCircle.builder.graph.symbol? m = none := Array.getElem?_eq_none hsize
    simp [GraphBuilder.exportsOf, hnone, Table.empty] at he

/-- Each name is exported by one module only. -/
theorem unambiguous_moduleCircle (edges : List (SymbolId × SymbolId)) :
    Unambiguous edges moduleCircle.builder := by
  intro m name s s' _ hs hs'
  obtain ⟨t, he⟩ := hs.exists_entry
  obtain ⟨t', he'⟩ := hs'.exists_entry
  have h := mem_entries_moduleCircle he
  have h' := mem_entries_moduleCircle he'
  simp only [List.mem_cons, Prod.mk.injEq, List.not_mem_nil, or_false] at h h'
  grind

/-- Every module of the circle has both names in the end, and no second default, in whatever order the
edges are noted. -/
theorem moduleCircle_starExports :
    (∀ star ∈ circleNotes, star.container.Within moduleCircle.builder.extent) ∧
      ∃ b, linkStars circleNotes moduleCircle = ((), { moduleCircle with builder := b }) ∧
        StarExports (starEdges moduleCircle.modules circleNotes) moduleCircle.builder b ∧
        (b.exportsOf ⟨0⟩).entries = [("own", ⟨3⟩), ("x", ⟨4⟩)] ∧
        (b.exportsOf ⟨1⟩).entries = [("x", ⟨4⟩), ("own", ⟨3⟩)] ∧
        ∀ stars', circleNotes.Perm stars' →
          ∃ b', linkStars stars' moduleCircle = ((), { moduleCircle with builder := b' }) ∧
            ∀ m name, (b'.exportsOf m).get? name = (b.exportsOf m).get? name := by
  have hin : ∀ star ∈ circleNotes, star.container.Within moduleCircle.builder.extent := by decide
  obtain ⟨b, hlink, -, hexports, horder⟩ := linkStars_starExports moduleCircle circleNotes hin
  have hb : b = (linkStars circleNotes moduleCircle).2.builder := by rw [hlink]
  refine ⟨hin, b, hlink, hexports, ?_, ?_, horder (unambiguous_moduleCircle _)⟩
  · rw [hb]
    decide +kernel
  · rw [hb]
    decide +kernel

end Linking

end ApiDocs
