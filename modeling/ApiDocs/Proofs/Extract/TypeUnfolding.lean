import ApiDocs.Proofs.Extract.Builders

/-!
# Descriptions as unfolded types

A type that is followed through elements, arguments and members unfolds into a tree, which is infinite
if the type is part of itself. The description of a type is the top of that tree: all of it, if it has at
most `describedLevels` levels, and else those levels and one more, at which types are given by their
display.

What is described need not be a graph. The describer only asks for the facts about a type and for the
name of a symbol, so everything here is said of a `TypeHost`, which answers the two questions in any way
that it likes, for endlessly many types if need be. The graphs whose positions are all there are hosts.

## Main definitions

* `TypeHost`: the facts about types, and the names of symbols.
* `TypeHost.describe`: the description of a type.
* `TypeHost.Unfolds`: the description of a type by recursion without a bound, if that comes to an end.
* `TypeHost.HeightLe`: a type unfolds into a finite tree.
* `TypeHost.Shows`: a description has the shape of a type.
* `TypeHost.descend`, `TypeDoc.at?`: what is at a place in an unfolded type, and in a description.

## Main results

* `TypeHost.describe_unfolds`: descriptions are unfolded types, cut below the described levels.
-/

namespace ApiDocs

/-! ## Parts -/

/-- The types in a type of this shape, in order. -/
def TypeShape.parts : TypeShape → List TypeId
  | .array element => [element]
  | .reference _ arguments => arguments
  | .union members | .intersection members => members
  | .enumUnion _ | .enumLiteral .. | .simple | .tuple | .unsupported => []

namespace TypeDoc

/-- The descriptions in a description, in order. -/
def parts : TypeDoc → List TypeDoc
  | .arrayOf element => [element]
  | .ref _ arguments => arguments
  | .unionOf members | .intersectionOf members => members
  | .name _ | .literal .. | .unsupported .. => []

/-- The description at a place, which is given by the way there from the top. -/
def at? : TypeDoc → List Nat → Option TypeDoc
  | d, [] => some d
  | d, i :: path => d.parts[i]?.bind (·.at? path)

end TypeDoc

/-! ## Hosts -/

/-- What the describer asks of a program. -/
structure TypeHost where
  typeAt : TypeId → TypeNode
  nameOf : SymbolId → String

namespace TypeHost

variable (h : TypeHost)

section Describing

variable {m : Type → Type} [Monad m]

/-- The reference of a symbol. -/
def referTo (id : SymbolId) : StateT (RefTable SymbolId) m RefId :=
  modifyGet (·.request id (h.nameOf id) none)

/-- Describe a type, if `inner` describes the types in it. -/
def describeBy (inner : TypeId → StateT (RefTable SymbolId) m TypeDoc) (id : TypeId) :
    StateT (RefTable SymbolId) m TypeDoc :=
  match (h.typeAt id).shape with
  | .enumUnion symbol => return .ref (← h.referTo symbol) []
  | .enumLiteral primitive value => return .literal primitive value
  | .simple => return .name (h.typeAt id).display
  | .array element => return .arrayOf (← inner element)
  | .reference symbol arguments => do
    let target ← h.referTo symbol
    return .ref target (← arguments.mapM inner)
  | .tuple => return .unsupported .tuple (h.typeAt id).display
  | .union members => return .unionOf (← members.mapM inner)
  | .intersection members => return .intersectionOf (← members.mapM inner)
  | .unsupported => return .unsupported .other (h.typeAt id).display

end Describing

/-- Describe a type to the given number of levels. -/
def describeWithin : Nat → TypeId → StateM (RefTable SymbolId) TypeDoc
  | 0, id => return .unsupported .other (h.typeAt id).display
  | levels + 1, id => h.describeBy (describeWithin levels) id

/-- Describe a type. -/
def describe (id : TypeId) : StateM (RefTable SymbolId) TypeDoc := h.describeWithin describedLevels id

mutual

/-- The description of a type by recursion without a bound, from a table of references to the next one.
A type that does not unfold into a finite tree has none. -/
inductive Unfolds : TypeId → RefTable SymbolId → TypeDoc → RefTable SymbolId → Prop
  | enumUnion {id symbol r refs refs'} (hs : (h.typeAt id).shape = .enumUnion symbol)
      (hr : refs.request symbol (h.nameOf symbol) none = (r, refs')) : Unfolds id refs (.ref r []) refs'
  | enumLiteral {id primitive value refs} (hs : (h.typeAt id).shape = .enumLiteral primitive value) :
      Unfolds id refs (.literal primitive value) refs
  | simple {id refs} (hs : (h.typeAt id).shape = .simple) :
      Unfolds id refs (.name (h.typeAt id).display) refs
  | array {id element x refs refs'} (hs : (h.typeAt id).shape = .array element)
      (hx : Unfolds element refs x refs') : Unfolds id refs (.arrayOf x) refs'
  | reference {id symbol arguments r xs refs refs₁ refs'}
      (hs : (h.typeAt id).shape = .reference symbol arguments)
      (hr : refs.request symbol (h.nameOf symbol) none = (r, refs₁))
      (hxs : UnfoldsAll arguments refs₁ xs refs') : Unfolds id refs (.ref r xs) refs'
  | tuple {id refs} (hs : (h.typeAt id).shape = .tuple) :
      Unfolds id refs (.unsupported .tuple (h.typeAt id).display) refs
  | union {id members xs refs refs'} (hs : (h.typeAt id).shape = .union members)
      (hxs : UnfoldsAll members refs xs refs') : Unfolds id refs (.unionOf xs) refs'
  | intersection {id members xs refs refs'} (hs : (h.typeAt id).shape = .intersection members)
      (hxs : UnfoldsAll members refs xs refs') : Unfolds id refs (.intersectionOf xs) refs'
  | unsupported {id refs} (hs : (h.typeAt id).shape = .unsupported) :
      Unfolds id refs (.unsupported .other (h.typeAt id).display) refs

/-- The same for types one after another. -/
inductive UnfoldsAll : List TypeId → RefTable SymbolId → List TypeDoc → RefTable SymbolId → Prop
  | nil {refs} : UnfoldsAll [] refs [] refs
  | cons {id ids x xs refs refs₁ refs'} (hx : Unfolds id refs x refs₁)
      (hxs : UnfoldsAll ids refs₁ xs refs') : UnfoldsAll (id :: ids) refs (x :: xs) refs'

end

/-- The types in a type, in order. -/
def parts (id : TypeId) : List TypeId := (h.typeAt id).shape.parts

/-- The type at a place in an unfolded type, which is given by the way there from the top. -/
def descend : TypeId → List Nat → Option TypeId
  | id, [] => some id
  | id, i :: path => (h.parts id)[i]?.bind (descend · path)

/-- The type unfolds into a tree of at most this height. -/
def HeightLe : Nat → TypeId → Prop
  | 0, id => h.parts id = []
  | height + 1, id => ∀ part ∈ h.parts id, HeightLe height part

instance decidableHeightLe : ∀ height id, Decidable (h.HeightLe height id)
  | 0, id => inferInstanceAs (Decidable (h.parts id = []))
  | height + 1, id =>
    have := decidableHeightLe height
    inferInstanceAs (Decidable (∀ part ∈ h.parts id, h.HeightLe height part))

/-- The description has the shape of the type, with as many parts; symbols have their references. -/
def Shows (refs : RefTable SymbolId) (id : TypeId) (d : TypeDoc) : Prop :=
  match (h.typeAt id).shape with
  | .enumUnion symbol => ∃ r, refs.lookup symbol (h.nameOf symbol) = some r ∧ d = .ref r []
  | .enumLiteral primitive value => d = .literal primitive value
  | .simple => d = .name (h.typeAt id).display
  | .array _ => ∃ x, d = .arrayOf x
  | .reference symbol arguments => ∃ r xs, refs.lookup symbol (h.nameOf symbol) = some r ∧
      xs.length = arguments.length ∧ d = .ref r xs
  | .tuple => d = .unsupported .tuple (h.typeAt id).display
  | .union members => ∃ xs, xs.length = members.length ∧ d = .unionOf xs
  | .intersection members => ∃ xs, xs.length = members.length ∧ d = .intersectionOf xs
  | .unsupported => d = .unsupported .other (h.typeAt id).display

/-- The description gives the type by its display. -/
def CutsAt (id : TypeId) (d : TypeDoc) : Prop := d = .unsupported .other (h.typeAt id).display

/-- The description shows a number of levels of the type, and is cut below them. -/
def ShowsWithin (refs : RefTable SymbolId) : Nat → TypeId → TypeDoc → Prop
  | 0, id, d => h.CutsAt id d
  | levels + 1, id, d =>
    h.Shows refs id d ∧ List.Forall₂ (ShowsWithin refs levels) (h.parts id) d.parts

variable {h}

/-! ## The same parts -/

section Embedding

variable {m : Type → Type} [Monad m] [LawfulMonad m]

/-- What describes the parts without failure describes the type without failure. -/
theorem describeBy_embed {inner : TypeId → StateM (RefTable SymbolId) TypeDoc}
    {inner' : TypeId → StateT (RefTable SymbolId) m TypeDoc} {id : TypeId}
    (hinner : ∀ part ∈ h.parts id, inner' part = embed (inner part)) :
    h.describeBy inner' id = embed (h.describeBy inner id) := by
  unfold parts at hinner
  have hall : ∀ parts, (h.typeAt id).shape.parts = parts →
      parts.mapM inner' = embed (parts.mapM inner) :=
    fun parts hparts => embed_mapM fun part hp => hinner part (hparts ▸ hp)
  unfold describeBy
  split
  next symbol hs => simp [referTo]
  next hs => simp
  next hs => simp
  next element hs => simp [hinner element (by simp [hs, TypeShape.parts])]
  next symbol arguments hs => simp [referTo, hall arguments (by rw [hs, TypeShape.parts])]
  next hs => simp
  next members hs => simp [hall members (by rw [hs, TypeShape.parts])]
  next members hs => simp [hall members (by rw [hs, TypeShape.parts])]
  next hs => simp

end Embedding

/-! ## Finite types -/

section Finite

variable {inner : TypeId → StateM (RefTable SymbolId) TypeDoc} {refs refs' : RefTable SymbolId}

/-- If `inner` does to each of some types what recursion does, it does so to one after another. -/
theorem unfoldsAll_iff {ids : List TypeId} {ds : List TypeDoc}
    (hinner : ∀ id ∈ ids, ∀ refs d refs', h.Unfolds id refs d refs' ↔ inner id refs = (d, refs')) :
    h.UnfoldsAll ids refs ds refs' ↔ ids.mapM inner refs = (ds, refs') := by
  induction ids generalizing refs ds with
  | nil =>
    constructor
    · rintro ⟨⟩
      rfl
    · rintro ⟨⟩
      exact .nil
  | cons id ids ih =>
    have hid := hinner id List.mem_cons_self
    have hids := fun refs ds => @ih refs ds fun id' hid' => hinner id' (List.mem_cons_of_mem _ hid')
    rw [List.mapM_cons]
    constructor
    · rintro (_ | ⟨hx, hxs⟩)
      exact bind_eq_iff.mpr ⟨_, _, (hid _ _ _).mp hx, bind_eq_iff.mpr ⟨_, _, (hids _ _).mp hxs, rfl⟩⟩
    · intro hds
      obtain ⟨x, refs₁, hx, hds⟩ := bind_eq_iff.mp hds
      obtain ⟨xs, refs₂, hxs, ⟨⟩⟩ := bind_eq_iff.mp hds
      exact .cons ((hid _ _ _).mpr hx) ((hids _ _).mpr hxs)

/-- If `inner` does to the parts what recursion does, a type is described as recursion describes it. -/
theorem unfolds_iff {id : TypeId} {d : TypeDoc}
    (hinner : ∀ part ∈ h.parts id, ∀ refs d refs',
      h.Unfolds part refs d refs' ↔ inner part refs = (d, refs')) :
    h.Unfolds id refs d refs' ↔ h.describeBy inner id refs = (d, refs') := by
  unfold parts at hinner
  unfold describeBy
  constructor
  · intro hd
    cases hd with
    | enumUnion hs hr =>
      rw [hs]
      exact bind_eq_iff.mpr ⟨_, _, hr, rfl⟩
    | array hs hx =>
      rw [hs] at hinner ⊢
      exact bind_eq_iff.mpr ⟨_, _, (hinner _ (List.mem_singleton_self _) _ _ _).mp hx, rfl⟩
    | reference hs hr hxs =>
      rw [hs] at hinner ⊢
      exact bind_eq_iff.mpr ⟨_, _, hr, bind_eq_iff.mpr ⟨_, _, (unfoldsAll_iff hinner).mp hxs, rfl⟩⟩
    | union hs hxs | intersection hs hxs =>
      rw [hs] at hinner ⊢
      exact bind_eq_iff.mpr ⟨_, _, (unfoldsAll_iff hinner).mp hxs, rfl⟩
    | enumLiteral hs | simple hs | tuple hs | unsupported hs =>
      rw [hs]
      rfl
  · cases hs : (h.typeAt id).shape with
    | enumUnion symbol =>
      intro hd
      obtain ⟨r, refs₁, hr, ⟨⟩⟩ := bind_eq_iff.mp hd
      exact .enumUnion hs hr
    | array element =>
      intro hd
      rw [hs] at hinner
      obtain ⟨x, refs₁, hx, ⟨⟩⟩ := bind_eq_iff.mp hd
      exact .array hs ((hinner element (List.mem_singleton_self _) _ _ _).mpr hx)
    | reference symbol arguments =>
      intro hd
      rw [hs] at hinner
      obtain ⟨r, refs₁, hr, hd⟩ := bind_eq_iff.mp hd
      obtain ⟨xs, refs₂, hxs, ⟨⟩⟩ := bind_eq_iff.mp hd
      exact .reference hs hr ((unfoldsAll_iff hinner).mpr hxs)
    | union members =>
      intro hd
      rw [hs] at hinner
      obtain ⟨xs, refs₁, hxs, ⟨⟩⟩ := bind_eq_iff.mp hd
      exact .union hs ((unfoldsAll_iff hinner).mpr hxs)
    | intersection members =>
      intro hd
      rw [hs] at hinner
      obtain ⟨xs, refs₁, hxs, ⟨⟩⟩ := bind_eq_iff.mp hd
      exact .intersection hs ((unfoldsAll_iff hinner).mpr hxs)
    | enumLiteral primitive value =>
      rintro ⟨⟩
      exact .enumLiteral hs
    | simple =>
      rintro ⟨⟩
      exact .simple hs
    | tuple =>
      rintro ⟨⟩
      exact .tuple hs
    | unsupported =>
      rintro ⟨⟩
      exact .unsupported hs

/-- A type that unfolds into a finite tree is described in full, if the levels are enough. -/
theorem unfolds_iff_describeWithin {levels height : Nat} (hlevels : height < levels) {id : TypeId}
    (hid : h.HeightLe height id) {d : TypeDoc} :
    h.Unfolds id refs d refs' ↔ h.describeWithin levels id refs = (d, refs') := by
  induction height generalizing levels id refs d refs' with
  | zero =>
    obtain ⟨levels, rfl⟩ : ∃ n, levels = n + 1 := ⟨levels - 1, by omega⟩
    rw [HeightLe] at hid
    exact unfolds_iff (by simp [hid])
  | succ height ih =>
    obtain ⟨levels, rfl⟩ : ∃ n, levels = n + 1 := ⟨levels - 1, by omega⟩
    exact unfolds_iff fun part hp refs d refs' => ih (by omega) (hid part hp)

end Finite

/-! ## The levels of a description -/

/-- Growth of a table of references that keeps what is found in it. -/
def lookupGrowth : Growth (RefTable SymbolId) where
  Good _ := True
  Le t t' := ∀ symbol name r, t.lookup symbol name = some r → t'.lookup symbol name = some r
  refl _ := fun _ _ _ hr => hr
  trans hle hle' := fun symbol name r hr => hle' symbol name r (hle symbol name r hr)

theorem Shows.mono {refs refs' : RefTable SymbolId} (hle : lookupGrowth.Le refs refs') {id : TypeId}
    {d : TypeDoc} (hd : h.Shows refs id d) : h.Shows refs' id d := by
  unfold Shows at hd ⊢
  generalize (h.typeAt id).shape = shape at hd ⊢
  cases shape with
  | enumUnion symbol =>
    obtain ⟨r, hr, rfl⟩ := hd
    exact ⟨r, hle _ _ _ hr, rfl⟩
  | reference symbol arguments =>
    obtain ⟨r, xs, hr, hlength, rfl⟩ := hd
    exact ⟨r, xs, hle _ _ _ hr, hlength, rfl⟩
  | _ => exact hd

theorem showsWithin_stable (levels : Nat) (id : TypeId) (d : TypeDoc) :
    lookupGrowth.Stable fun refs => h.ShowsWithin refs levels id d := by
  intro refs refs' hle hd
  induction levels generalizing id d with
  | zero => exact hd
  | succ levels ih => exact ⟨hd.1.mono hle, hd.2.imp ih⟩

/-- Growth of a table of references by records without a target. -/
def appending : Growth (RefTable SymbolId) where
  Good _ := True
  Le := RefTable.Appends
  refl := RefTable.Appends.refl
  trans := RefTable.Appends.trans

theorem showsWithin_append (levels : Nat) (id : TypeId) (d : TypeDoc) :
    appending.Stable fun refs => h.ShowsWithin refs levels id d :=
  fun refs refs' hle => showsWithin_stable levels id d refs refs' fun _ _ _ => hle.lookup_eq

theorem referTo_runs (symbol : SymbolId) (refs : RefTable SymbolId) :
    appending.Runs (h.referTo symbol) refs fun r refs' =>
      refs'.lookup symbol (h.nameOf symbol) = some r :=
  ⟨trivial, refs.appends_request symbol _, refs.lookup_request_self symbol _ none⟩

/-- If the parts are described, the type is described by its shape and its parts. -/
theorem describeBy_runs {inner : TypeId → StateM (RefTable SymbolId) TypeDoc}
    {P : TypeId → TypeDoc → RefTable SymbolId → Prop} (stable : ∀ id d, appending.Stable (P id d))
    (hinner : ∀ id refs, appending.Runs (inner id) refs (P id)) (id : TypeId)
    (refs : RefTable SymbolId) :
    appending.Runs (h.describeBy inner id) refs fun d refs' =>
      h.Shows refs' id d ∧ List.Forall₂ (fun part x => P part x refs') (h.parts id) d.parts := by
  have hall : ∀ (parts : List TypeId) refs, appending.Runs (parts.mapM inner) refs fun ds refs' =>
      List.Forall₂ (fun part x => P part x refs') parts ds :=
    fun parts refs => Growth.runs_mapM_forall₂ trivial stable fun part _ refs' _ _ => hinner part refs'
  unfold describeBy parts Shows
  generalize (h.typeAt id).shape = shape
  cases shape with
  | enumUnion symbol =>
    refine (referTo_runs symbol refs).bind fun r refs' _ _ hr => Growth.runs_pure trivial ?_
    exact ⟨⟨r, hr, rfl⟩, .nil⟩
  | array element =>
    refine (hinner element refs).bind fun x refs' _ _ hx => Growth.runs_pure trivial ?_
    exact ⟨⟨x, rfl⟩, .cons hx .nil⟩
  | reference symbol arguments =>
    refine (referTo_runs symbol refs).bind fun r refs₁ _ _ hr => ?_
    refine (hall arguments refs₁).bind fun xs refs₂ _ hle hxs => Growth.runs_pure trivial ?_
    exact ⟨⟨r, xs, hle.lookup_eq hr, hxs.length_eq.symm, rfl⟩, hxs⟩
  | union members | intersection members =>
    refine (hall members refs).bind fun xs refs' _ _ hxs => Growth.runs_pure trivial ?_
    exact ⟨⟨xs, hxs.length_eq.symm, rfl⟩, hxs⟩
  | enumLiteral _ _ | simple | tuple | unsupported => exact Growth.runs_pure trivial ⟨rfl, .nil⟩

theorem describeWithin_runs (levels : Nat) (id : TypeId) (refs : RefTable SymbolId) :
    appending.Runs (h.describeWithin levels id) refs fun d refs' => h.ShowsWithin refs' levels id d := by
  induction levels generalizing id refs with
  | zero => exact Growth.runs_pure trivial rfl
  | succ levels ih => exact describeBy_runs (showsWithin_append levels) ih id refs

/-! ## Places -/

/-- What is at a place of a description that shows a number of levels shows those that are left. -/
theorem ShowsWithin.at {refs : RefTable SymbolId} {levels : Nat} {path : List Nat}
    (hpath : path.length ≤ levels) {id : TypeId} {d : TypeDoc} (hd : h.ShowsWithin refs levels id d) :
    Option.Rel (h.ShowsWithin refs (levels - path.length)) (h.descend id path) (d.at? path) := by
  induction path generalizing levels id d with
  | nil => exact .some hd
  | cons i path ih =>
    obtain ⟨levels, rfl⟩ : ∃ n, levels = n + 1 := ⟨levels - 1, by grind⟩
    rw [List.length_cons, Nat.add_le_add_iff_right] at hpath
    rw [descend, TypeDoc.at?, List.length_cons, Nat.add_sub_add_right]
    have hpart := optionRel_getElem? hd.2 i
    generalize (h.parts id)[i]? = part, d.parts[i]? = x at hpart
    cases hpart with
    | none => exact .none
    | some hpart => exact ih hpath hpart

/-- There is nothing below the levels of a description. -/
theorem ShowsWithin.at?_eq_none {refs : RefTable SymbolId} {levels : Nat} {path : List Nat}
    (hpath : levels < path.length) {id : TypeId} {d : TypeDoc} (hd : h.ShowsWithin refs levels id d) :
    d.at? path = none := by
  induction path generalizing levels id d with
  | nil => exact absurd hpath (Nat.not_lt_zero _)
  | cons i path ih =>
    rw [TypeDoc.at?, Option.bind_eq_none_iff]
    intro x hx
    cases levels with
    | zero =>
      rw [ShowsWithin, CutsAt] at hd
      simp [hd, TypeDoc.parts] at hx
    | succ levels =>
      obtain ⟨part, -, hpart⟩ := forall₂_mem_right hd.2 (List.mem_of_getElem? hx)
      exact ih (by simpa using hpath) hpart

end TypeHost

/-! ## Graphs as hosts -/

theorem TypeShape.Within.parts {e : Extent} {shape : TypeShape} (hshape : shape.Within e) :
    ∀ part ∈ shape.parts, part.Within e := by
  cases shape with
  | array element => exact fun part hp => List.mem_singleton.mp hp ▸ hshape
  | reference symbol arguments => exact hshape.2
  | union members | intersection members => exact hshape
  | enumUnion _ | enumLiteral _ _ | simple | tuple | unsupported => exact nofun

namespace SymbolGraph

variable {g : SymbolGraph}

/-- The facts that a graph has. -/
def typeHost (g : SymbolGraph) : TypeHost where
  typeAt id := (g.type? id).getD default
  nameOf id := (g.symbolAt id).name

theorem typeHost_typeAt {id : TypeId} {t : TypeNode} (ht : g.type? id = some t) :
    g.typeHost.typeAt id = t := by
  simp [typeHost, ht]

theorem referTo_eq {id : SymbolId} (hid : id.Within g.extent) : g.referTo id = g.typeHost.referTo id := by
  unfold referTo
  rw [getSymbol_eq_ok hid]
  rfl

/-- A type is described as by the host that the graph is, if all that is met on the way is there. -/
theorem describeWithin_eq_embed_of {P : TypeId → Prop}
    (hmet : ∀ id, P id → ∃ t, g.type? id = some t ∧ t.shape.Within g.extent ∧ ∀ part ∈ t.shape.parts, P part)
    (levels : Nat) {id : TypeId} (hid : P id) :
    g.describeWithin levels id = embed (g.typeHost.describeWithin levels id) := by
  induction levels generalizing id with
  | zero =>
    obtain ⟨t, ht, -, -⟩ := hmet id hid
    unfold describeWithin TypeHost.describeWithin
    rw [getType_eq_ok_iff.mpr ht, typeHost_typeAt ht]
    rfl
  | succ levels ih =>
    obtain ⟨t, ht, hshape, hmore⟩ := hmet id hid
    have hparts : ∀ part ∈ g.typeHost.parts id, g.describeWithin levels part =
        embed (g.typeHost.describeWithin levels part) := by
      rw [TypeHost.parts, typeHost_typeAt ht]
      exact fun part hp => ih (hmore part hp)
    rw [TypeHost.describeWithin, ← TypeHost.describeBy_embed hparts]
    unfold describeWithin TypeHost.describeBy
    rw [getType_eq_ok_iff.mpr ht, typeHost_typeAt ht, liftM_ok_bind]
    generalize t.shape = shape at hshape ⊢
    cases shape with
    | enumUnion symbol =>
      simp only [← referTo_eq hshape]
    | reference symbol arguments =>
      simp only [← referTo_eq hshape.1]
    | _ => rfl

/-- A graph where all positions are there is described as the host that it is. -/
theorem describeWithin_eq_embed (hg : g.Closed) (levels : Nat) {id : TypeId} (hid : id.Within g.extent) :
    g.describeWithin levels id = embed (g.typeHost.describeWithin levels id) := by
  refine describeWithin_eq_embed_of (P := fun id => id.Within g.extent) (fun id hid => ?_) levels hid
  obtain ⟨t, ht⟩ := exists_type hid
  have hshape := TypeNode.shape_within (hg.type ht)
  exact ⟨t, ht, hshape, hshape.parts⟩

end SymbolGraph

/-! ## Descriptions -/

namespace TypeHost

/-- **A description is the unfolded type, cut below the described levels.** Of a type that unfolds into
a tree of height 64 or less it is what recursion without a bound gives, and the only such thing, with the
same references. Of any type whatever, it shows at each place down to that depth the type that is there,
cuts what is one level deeper, and has nothing below. The descriptions that a graph gives are these. -/
theorem describe_unfolds :
    (∀ (h : TypeHost) (id : TypeId) (refs : RefTable SymbolId),
      (h.HeightLe 64 id → ∀ d refs', h.Unfolds id refs d refs' ↔ h.describe id refs = (d, refs')) ∧
      (∀ path : List Nat, path.length ≤ 64 →
        Option.Rel (h.Shows (h.describe id refs).2) (h.descend id path) ((h.describe id refs).1.at? path)) ∧
      (∀ path : List Nat, path.length = 65 →
        Option.Rel h.CutsAt (h.descend id path) ((h.describe id refs).1.at? path)) ∧
      ∀ path : List Nat, 65 < path.length → (h.describe id refs).1.at? path = none) ∧
    ∀ (g : SymbolGraph) (id : TypeId) (refs : RefTable SymbolId), g.Valid → id.Within g.extent →
      g.describe id refs = .ok (g.typeHost.describe id refs) := by
  have hshow : ∀ (h : TypeHost) (id : TypeId) (refs : RefTable SymbolId),
      h.ShowsWithin (h.describe id refs).2 describedLevels id (h.describe id refs).1 :=
    fun h id refs => (describeWithin_runs describedLevels id refs).post
  refine ⟨fun h id refs => ⟨fun hheight => ?_, fun path hpath => ?_, fun path hpath => ?_, ?_⟩, ?_⟩
  · exact fun d refs' => unfolds_iff_describeWithin (by decide : 64 < describedLevels) hheight
  · have hat := (hshow h id refs).at (Nat.le_succ_of_le hpath)
    rw [Nat.succ_sub hpath] at hat
    exact optionRel_imp (fun _ _ hd => hd.1) hat
  · have hat := (hshow h id refs).at (Nat.le_of_eq hpath)
    rw [hpath] at hat
    exact hat
  · exact fun path hpath => (hshow h id refs).at?_eq_none hpath
  · intro g id refs hvalid hid
    have hg := SymbolGraph.valid_iff_closed.mp hvalid
    exact congrFun (SymbolGraph.describeWithin_eq_embed hg describedLevels hid) refs

/-- An array of numbers, and an array of itself. -/
def arrayGraph : SymbolGraph where
  types := #[
    { flags := TypeFlags.objectBit, objectFlags := ObjectFlags.referenceBit, targetName := some "Array",
      typeArguments := [⟨1⟩], display := "number[]" },
    { flags := TypeFlags.numberBit, display := "number" },
    { flags := TypeFlags.objectBit, objectFlags := ObjectFlags.referenceBit, targetName := some "Array",
      typeArguments := [⟨2⟩], display := "Loop" }]

/-- The one is described in full. The other shows an array at depth 64, its display below, and nothing
further down. -/
theorem arrayGraph_describe :
    arrayGraph.Valid ∧ arrayGraph.typeHost.HeightLe 64 ⟨0⟩ ∧
      arrayGraph.typeHost.Unfolds ⟨0⟩ .empty (.arrayOf (.name "number")) .empty ∧
      ∃ (doc : TypeDoc) (refs : RefTable SymbolId) (x : TypeDoc),
        arrayGraph.describe ⟨2⟩ .empty = .ok (doc, refs) ∧
        doc.at? (List.replicate 64 0) = some (.arrayOf x) ∧
        doc.at? (List.replicate 65 0) = some (.unsupported .other "Loop") ∧
        doc.at? (List.replicate 66 0) = none := by
  have hvalid : arrayGraph.Valid := by decide
  have hheight : arrayGraph.typeHost.HeightLe 64 ⟨0⟩ := by decide
  have hloop : (⟨2⟩ : TypeId).Within arrayGraph.extent := by
    change 2 < arrayGraph.types.size
    decide
  have hall := describe_unfolds.1 arrayGraph.typeHost
  refine ⟨hvalid, hheight, ((hall ⟨0⟩ .empty).1 hheight _ _).mpr rfl, ?_⟩
  have hshows := (hall ⟨2⟩ .empty).2.1 (List.replicate 64 0) (by decide)
  have hcut := (hall ⟨2⟩ .empty).2.2.1 (List.replicate 65 0) (by decide)
  have hbelow := (hall ⟨2⟩ .empty).2.2.2 (List.replicate 66 0) (by decide)
  have hdescribe := describe_unfolds.2 arrayGraph ⟨2⟩ .empty hvalid hloop
  rw [show arrayGraph.typeHost.descend ⟨2⟩ (List.replicate 64 0) = some ⟨2⟩ by decide] at hshows
  rw [show arrayGraph.typeHost.descend ⟨2⟩ (List.replicate 65 0) = some ⟨2⟩ by decide] at hcut
  obtain ⟨d, hd, x, rfl⟩ := optionRel_some_left hshows
  obtain ⟨d, hd', rfl⟩ := optionRel_some_left hcut
  exact ⟨_, _, x, hdescribe, hd, hd', hbelow⟩

end TypeHost

end ApiDocs
