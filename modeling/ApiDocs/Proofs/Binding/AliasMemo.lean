import ApiDocs.Proofs.Binding.TypePhase
import ApiDocs.Proofs.Graph.Calls

/-!
# The types that are kept of type aliases

A type alias is expanded once. What it became is kept, and every later reference to it has that type. No
expansion goes deeper than `maxExpansion`: there a type alias is given by its name, and this is not kept.
But what stands around it is kept, at whatever depth it was expanded. A type alias for another one, if it is
first expanded at the last depth, is kept with the name of the other one, and every later reference shows
that name, though a reference alone would show the type.

So what is kept is what would be made anew, if each type alias was expanded only where there was room for
all of it, or for nothing of it. Circles among other type aliases do not matter for that.

## Main definitions

* `Linking.RefersTo`: a name stands for a type alias.
* `Linking.forget`: nothing is kept of type aliases any more.

## Main results

* `Linking.Made.hasForm`: where there was room, a type has the form of its expression.
* `Linking.materialize_memo`: the count of expansions is restored, references to a type alias keep their
  type, and where there was room this is the type that is made anew.
* `Linking.chain_cutShort`: where there was none, it need not be.
-/

namespace ApiDocs.Linking

variable {start l l' L : Linking} {es : List TypeExpr} {e : TypeExpr} {s : SymbolId} {t : TypeId}
  {ref ref' : NameRef} {written written' : String} {arguments arguments' : List TypeExpr}

/-! ## Runs -/

/-- Type aliases keep their types. -/
theorem Made.aliasTypes (h : start.Made es l) (hs : start.aliasTypes.get? s = some t) :
    l.aliasTypes.get? s = some t := by
  induction h with
  | start => exact hs
  | made _ _ ih => exact (materialize_spares _ _).aliasTypes s t ih
  | other _ _ _ haside ih => rwa [haside]

/-- What is kept of type aliases that are relied on is faithful, if every expression left room for them:
by induction on the run. -/
theorem Made.faithful {H : Linking → Prop} {R : SymbolId → Prop} (hH : ∀ L, H L → L.Relied R)
    (h : start.Made es l) (hstart : start.Orderly) (hempty : start.aliasTypes = .empty)
    (hroom : ∀ e ∈ es, ∀ L, H L → L.Uses (L.LeavesRoom R maxExpansion) e) :
    (relying (Faithful H R)).Good l := by
  induction h with
  | start =>
    refine ⟨hstart, fun s t hs => ?_⟩
    rw [hempty] at hs
    cases hs
  | made _ he ih =>
    have hl := ih fun e he => hroom e (by simp [he])
    exact (materialize_forms hH hl he fun L _ => hroom _ (by simp) L).good
  | other _ horderly hle haside ih => exact ⟨horderly, faithful_overlooks _ _ hle haside (ih hroom).2⟩

/-! ## References to type aliases -/

/-- The name stands for a type alias with an expression. -/
def RefersTo (L : Linking) (ref : NameRef) (s : SymbolId) : Prop :=
  L.target? ref = some s ∧ L.meaningOf s = .expandable ∧ (L.typeAliases.get? s).isSome

/-- A reference to a type alias becomes what the type alias becomes. -/
theorem RefersTo.materialize_eq (h : l.RefersTo ref s) :
    materialize (.reference written ref arguments) l = expandAlias maxExpansion s written l := by
  obtain ⟨htarget, hmeaning, -⟩ := h
  obtain ⟨x, hx, rfl⟩ := Option.map_eq_some_iff.mp htarget
  have hfound : resolveType ref l = (some x, l) := by
    unfold resolveType
    rw [get_bind, hx]
    rfl
  rw [materialize, materializeWith, bind_apply, hfound]
  simp only [get_bind, hmeaning]

theorem aliasType_of_get? {make? : Option (TypeExpr → LinkM TypeId)} {name : String}
    (hs : l.aliasTypes.get? s = some t) : aliasType make? s name l = (t, l) := by
  unfold aliasType
  simp only [get_bind, hs]
  rfl

/-- What is kept of a type alias is the type of every reference to it. -/
theorem RefersTo.materialize_eq_of_get? (h : l.RefersTo ref s) (hs : l.aliasTypes.get? s = some t) :
    materialize (.reference written ref arguments) l = (t, l) :=
  h.materialize_eq.trans (aliasType_of_get? hs)

/-- The type of a reference to a type alias is kept. -/
theorem RefersTo.get?_materialize (h : l.RefersTo ref s) :
    (materialize (.reference written ref arguments) l).2.aliasTypes.get? s =
      some (materialize (.reference written ref arguments) l).1 := by
  cases hs : l.aliasTypes.get? s with
  | some t => rw [h.materialize_eq_of_get? hs, hs]
  | none =>
    obtain ⟨e, he⟩ := Option.isSome_iff_exists.mp h.2.2
    rw [h.materialize_eq]
    change (aliasType (some (materializeWith (expandAlias 15))) s written l).2.aliasTypes.get? s =
      some (aliasType (some (materializeWith (expandAlias 15))) s written l).1
    unfold aliasType
    simp only [get_bind, hs, he]
    exact Table.get?_insert_self

theorem RefersTo.keep (h : l.RefersTo ref s) (hl : l.Sound) (hL : l.Keeps L) : L.RefersTo ref s := by
  obtain ⟨htarget, hmeaning, hexpr⟩ := h
  obtain ⟨x, hx, rfl⟩ := Option.map_eq_some_iff.mp htarget
  have hwithin := lookup?_within hl ref x hx
  refine ⟨?_, ?_, ?_⟩
  · rw [target?, hL.lookup?_eq_some hl hx, Option.map_some, hL.followAlias_eq hl hwithin]
  · rw [hL.meaningOf_eq (followAlias_within hl.builder hwithin), hmeaning]
  · rwa [hL.typeAliases]

theorem RefersTo.uses_iff (h : L.RefersTo ref s) {P : SymbolId → Prop} :
    L.Uses P (.reference written ref arguments) ↔ P s := by
  simp only [Uses, h.1, h.2.1]

/-! ## Room -/

/-- **What is kept does not matter where there was room**: if the type aliases of an expression are relied
on, and every expression before left room for them, then the type that is made has the form of the
expression. -/
theorem Made.hasForm {R : SymbolId → Prop} (hrun : start.Made es l) (hstart : start.Orderly)
    (hempty : start.aliasTypes = .empty) (he : e.Within l.extent) (hL : (materialize e l).2.Keeps L)
    (hrelied : L.Relied R) (huses : L.Uses R e)
    (hroom : ∀ e ∈ es, L.Uses (L.LeavesRoom R maxExpansion) e) :
    L.builder.HasForm (L.formOf e) (materialize e l).1 := by
  let H : Linking → Prop := fun L =>
    L.Relied R ∧ L.Uses R e ∧ ∀ e ∈ es, L.Uses (L.LeavesRoom R maxExpansion) e
  have hH : ∀ L, H L → L.Relied R := fun L h => h.1
  have hl := hrun.faithful hH hstart hempty fun e he L h => h.2.2 e he
  -- What is relied on nests, so the expression itself leaves room.
  have hmade := materialize_forms hH hl he fun L _ h => h.2.1.mono fun s hs => (h.1.nests s hs).leavesRoom R
  exact hmade.post.form L hL (huses.mono fun s hs => .inr ⟨⟨hrelied, huses, hroom⟩, hs⟩)

/-- Linking, with nothing kept of type aliases any more. -/
def forget (l : Linking) : Linking :=
  { l with aliasTypes := .empty }

/-- This leaves linking orderly. -/
theorem Orderly.forget (hl : l.Orderly) : l.forget.Orderly ∧ making.Le l l.forget := by
  have hle : making.Le l l.forget := ⟨growth.refl l, { Keeps.refl l with }⟩
  have hsound : l.forget.Sound :=
    ⟨hl.sound.builder, { hl.sound.tables with aliasTypes := by simp [Linking.forget] }⟩
  exact ⟨hl.grow hsound hle .inl .inl .inl (fun h => by cases h), hle⟩

/-- **What is kept of type aliases can be relied on where there was room.** For every run of linking from a
state in which no type alias has a type:

1. making a type leaves the count of expansions as it was;
2. all references to a type alias, circular or not, have the type of the first one;
3. if the type aliases of an expression nest, and every expression before left room for them, then the
   type of the expression is the same as the one that is made with nothing kept. -/
theorem materialize_memo (hstart : start.Orderly) (hempty : start.aliasTypes = .empty)
    (hrun : start.Made es l) :
    (∀ e : TypeExpr, (materialize e l).2.expansionDepth = l.expansionDepth) ∧
    (∀ written ref arguments written' ref' arguments' s later l', l.RefersTo ref s →
      (materialize (.reference written ref arguments) l).2.Made later l' → l'.RefersTo ref' s →
      (materialize (.reference written' ref' arguments') l').1 =
        (materialize (.reference written ref arguments) l).1) ∧
    ∀ e : TypeExpr, e.Within l.extent →
      let made := materialize e l
      let anew := materialize e made.2.forget
      ∀ R : SymbolId → Prop, anew.2.Relied R → anew.2.Uses R e →
        (∀ e ∈ es, anew.2.Uses (anew.2.LeavesRoom R maxExpansion) e) →
        anew.2.builder.SameForm made.1 anew.1 := by
  refine ⟨fun e => (materialize_spares e l).expansionDepth, ?_, ?_⟩
  · intro written ref arguments written' ref' arguments' s later l' hs hlater hs'
    rw [hs'.materialize_eq_of_get? (hlater.aliasTypes hs.get?_materialize)]
  · intro e he made anew R hrelied huses hroom
    have hmade := materialize_takesForm (hrun.keeps hstart).1 he
    obtain ⟨horderly, hle⟩ := hmade.good.forget
    have hwithin : e.Within made.2.forget.extent := he.mono (making.trans hmade.le hle).1.1
    have hkeeps : made.2.Keeps anew.2 := hle.2.trans (materialize_takesForm horderly hwithin).le.2
    -- Nothing is kept now, so nothing was expanded without room.
    have hanew := Made.start.hasForm horderly rfl hwithin (.refl _) hrelied huses (by simp)
    exact ⟨anew.2.formOf e, hrun.hasForm hstart hempty he hkeeps hrelied huses hroom, hanew⟩

/-! ## A chain of type aliases -/

/-- The name of a type alias in the chain. -/
def chainName (i : Nat) : String := "A" ++ toString i

/-- A reference to a type alias in the chain. -/
def chained (i : Nat) : TypeExpr := .reference (chainName i) (.bound ⟨1, 0, chainName i⟩) []

/-- A reference to a type alias that leads back to itself. -/
def circular : TypeExpr := .reference "Loop" (.bound ⟨1, 0, "Loop"⟩) []

/-- A type alias `A0` for `number`, sixteen more, each for the one before, and `Loop` for `Loop[]`. -/
def chain : Linking where
  builder := (GraphBuilder.start.runAll? (.addModule "a.ts" ::
    .addSymbol "Loop" SymbolFlags.typeAliasBit :: (List.range 17).map fun i =>
      .addSymbol (chainName i) SymbolFlags.typeAliasBit)).getD {}
  modules := .empty
  locals := .ofList ((⟨1, 0, "Loop"⟩, ⟨2⟩) :: (List.range 17).map fun i => (⟨1, 0, chainName i⟩, ⟨i + 3⟩))
  globals := .empty
  typeAliases := .ofList ((⟨2⟩, .array circular) :: (⟨3⟩, .keyword .number) ::
    (List.range 16).map fun i => (⟨i + 4⟩, chained i))

theorem chained_within (i : Nat) (x : Extent) : (chained i).Within x := by
  simp [chained, TypeExpr.Within, TypeExpr.AllWithin]

theorem circular_within (x : Extent) : circular.Within x := by
  simp [circular, TypeExpr.Within, TypeExpr.AllWithin]

theorem chain_blank : chain.Blank := by
  refine blank_of_valid (by decide) ?_ (by decide) (by simp) (by decide)
    (by simp) (Table.forall_values_ofList fun x hx => ?_)
  · change 0 < chain.builder.graph.symbols.size
    decide
  · rcases List.mem_cons.mp hx with rfl | hx
    · exact circular_within _
    rcases List.mem_cons.mp hx with rfl | hx
    · simp [TypeExpr.Within]
    · obtain ⟨i, -, rfl⟩ := List.mem_map.mp hx
      exact chained_within i _

theorem chain_orderly : chain.Orderly := chain_blank.prepared.orderly

/-- The circular type alias, `A0` and `A1` are what their names stand for. -/
theorem chain_refersTo : chain.RefersTo (.bound ⟨1, 0, "Loop"⟩) ⟨2⟩ ∧
    chain.RefersTo (.bound ⟨1, 0, chainName 0⟩) ⟨3⟩ ∧ chain.RefersTo (.bound ⟨1, 0, chainName 1⟩) ⟨4⟩ :=
  ⟨⟨by decide, by decide, by decide⟩, ⟨by decide, by decide, by decide⟩, by decide, by decide, by decide⟩

/-- In everything that keeps the chain, their names stand for them. -/
theorem chain_uses (hL : chain.Keeps L) {P : SymbolId → Prop} :
    (L.Uses P circular ↔ P ⟨2⟩) ∧ (L.Uses P (chained 0) ↔ P ⟨3⟩) ∧ (L.Uses P (chained 1) ↔ P ⟨4⟩) :=
  ⟨(chain_refersTo.1.keep chain_orderly.sound hL).uses_iff,
    (chain_refersTo.2.1.keep chain_orderly.sound hL).uses_iff,
    (chain_refersTo.2.2.keep chain_orderly.sound hL).uses_iff⟩

/-- `A0` and `A1` can be relied on. -/
def IsShort (s : SymbolId) : Prop := s = ⟨3⟩ ∨ s = ⟨4⟩

theorem chain_relied (hL : chain.Keeps L) : L.Relied IsShort := by
  have hnumber : L.typeAliases.get? ⟨3⟩ = some (.keyword .number) := by rw [hL.typeAliases]; rfl
  have hlink : L.typeAliases.get? ⟨4⟩ = some (chained 0) := by rw [hL.typeAliases]; rfl
  have hnests : ∀ depth, L.Nests (depth + 1) ⟨3⟩ := by
    intro depth e he
    rw [hnumber] at he
    cases he
    trivial
  constructor
  · rintro s (rfl | rfl)
    · exact hnests 15
    · intro e he
      rw [hlink] at he
      cases he
      exact (chain_uses hL).2.1.mpr (hnests 14)
  · rintro s (rfl | rfl) e he
    · rw [hnumber] at he
      cases he
      trivial
    · rw [hlink] at he
      cases he
      exact (chain_uses hL).2.1.mpr (.inl rfl)

/-- The circular type alias leaves room for them at every depth, since it does not lead there. -/
theorem circular_leavesRoom (hL : chain.Keeps L) (depth : Nat) : L.LeavesRoom IsShort depth ⟨2⟩ := by
  have hloop : L.typeAliases.get? ⟨2⟩ = some (.array circular) := by rw [hL.typeAliases]; rfl
  induction depth with
  | zero => trivial
  | succ depth ih =>
    refine ⟨by simp [IsShort], fun e he => ?_⟩
    rw [hloop] at he
    cases he
    rw [Uses]
    exact (chain_uses hL).1.mpr ih

theorem chain_room (hL : chain.Keeps L) : L.Relied IsShort ∧ L.Uses IsShort (chained 1) ∧
    ∀ e ∈ [circular], L.Uses (L.LeavesRoom IsShort maxExpansion) e := by
  refine ⟨chain_relied hL, (chain_uses hL).2.2.mpr (.inr rfl), fun e he => ?_⟩
  obtain rfl := List.mem_singleton.mp he
  exact (chain_uses hL).1.mpr (circular_leavesRoom hL _)

/-- The types of `Loop` and of `A1` are made, and that of `A1` again with nothing kept. -/
def circled : TypeId × Linking := materialize circular chain

@[inherit_doc circled]
def short : TypeId × Linking := materialize (chained 1) circled.2

@[inherit_doc circled]
def shortAnew : TypeId × Linking := materialize (chained 1) short.2.forget

set_option maxRecDepth 4000 in
/-- The circular type alias keeps its type, and `A1` gets that which it gets with nothing kept. -/
theorem chain_memo :
    circled.2.expansionDepth = chain.expansionDepth ∧ (materialize circular short.2).1 = circled.1 ∧
      shortAnew.2.builder.SameForm short.1 shortAnew.1 := by
  have hcircled : chain.Made [circular] circled.2 := .made .start (circular_within _)
  have hshort : circled.2.Made [chained 1] short.2 := .made .start (chained_within 1 _)
  have hkeeps : chain.Keeps short.2 :=
    (hcircled.keeps chain_orderly).2.trans (hshort.keeps (hcircled.keeps chain_orderly).1).2
  obtain ⟨hcount, hagain, -⟩ := materialize_memo chain_orderly rfl (.start : chain.Made [] chain)
  have hloop := hagain "Loop" (.bound ⟨1, 0, "Loop"⟩) [] "Loop" (.bound ⟨1, 0, "Loop"⟩) [] ⟨2⟩ [chained 1]
    short.2 chain_refersTo.1 hshort (chain_refersTo.1.keep chain_orderly.sound hkeeps)
  obtain ⟨horderly, hle⟩ := ((hshort.keeps (hcircled.keeps chain_orderly).1).1).forget
  have hanew : chain.Keeps shortAnew.2 := (hkeeps.trans hle.2).trans
    (materialize_takesForm horderly (chained_within 1 _)).le.2
  refine ⟨by rw [circled]; exact hcount circular, by rw [circled, circular]; exact hloop, ?_⟩
  obtain ⟨hrelied, huses, hroom⟩ := chain_room hanew
  have hsame := (materialize_memo chain_orderly rfl hcircled).2.2 (chained 1) (chained_within 1 _)
  dsimp only at hsame
  rw [← short, ← shortAnew] at hsame
  exact hsame IsShort hrelied huses hroom

/-- The types of `A16` and of `A1` are made, and that of `A1` again with nothing kept. -/
def long : TypeId × Linking := materialize (chained 16) chain

@[inherit_doc long]
def shortLater : TypeId × Linking := materialize (chained 1) long.2

@[inherit_doc long]
def shortLaterAnew : TypeId × Linking :=
  materialize (chained 1) shortLater.2.forget

set_option maxRecDepth 4000 in
/-- **A type alias that was expanded without room keeps the wrong type.** `A16` is cut off at `A0`, so
`A1` is kept as a type called `A0`. Alone it is `number`. -/
theorem chain_cutShort :
    chain.Orderly ∧ chain.aliasTypes = .empty ∧ chain.expansionDepth = 0 ∧
      chain.Made [chained 16] long.2 ∧ long.2.RefersTo (.bound ⟨1, 0, chainName 1⟩) ⟨4⟩ ∧
      ¬ shortLaterAnew.2.builder.SameForm shortLater.1 shortLaterAnew.1 := by
  have hlong : chain.Made [chained 16] long.2 := .made .start (chained_within 16 _)
  have hkeeps := (hlong.keeps chain_orderly).2
  refine ⟨chain_orderly, rfl, rfl, hlong, chain_refersTo.2.2.keep chain_orderly.sound hkeeps, fun h => ?_⟩
  have hdisplay := h.displayOf_eq
  revert hdisplay
  decide

end ApiDocs.Linking
