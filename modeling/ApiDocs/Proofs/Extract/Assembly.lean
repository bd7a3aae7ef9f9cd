import ApiDocs.Proofs.Extract.WalkState

/-!
# Assembling classes and enums

A class or enum is entered before its insides are looked at, and filled in afterwards. From a sound
state of a walk over a closed graph, each operation leads to a sound state that grew, and the records
it hands out are those of the symbols it was asked for. The depth that is given at the start is never
used up, since every class that is open takes one of the symbols.

## Main definitions

* `Walk.Opened`: what holds after a class was entered and before its nested symbols are looked at.
* `Walk.assemblyGrowth`: growth of a walk with enough depth left.
* `Walk.Adds`: a computation adds the record of a symbol to a module.
-/

namespace ApiDocs.Walk

open SymbolGraph

variable {g : SymbolGraph} {limit : Nat} {A : SymbolId → Prop} {s : WalkState} {id : SymbolId}
  {E : ExtractError → Prop}

theorem modifyAt_eq_ok {α : Type} {arena : Arena} {a : Array α} {i : Nat} {f : α → α}
    (h : i < a.size) : modifyAt arena a i f = .ok (a.modify i f) := by
  simp [modifyAt, h]

/-- A symbol was built before just if its record has a target. -/
theorem existingTarget_yields (hs : s.Sound g) (h : id.Within g.extent) :
    Yields E (existingTarget (g.viewAt id)) s fun r s' =>
      s' = s ∧ ∀ x, r = some x ↔ s.refs.Built id x := by
  unfold existingTarget
  refine yields_bind (yields_get ?_)
  have hname : (g.viewAt id).name = (g.symbolAt id).name := rfl
  have hsymbol : (g.viewAt id).symbol = id := rfl
  rw [hname, hsymbol]
  dsimp only
  cases hl : s.refs.lookup id (g.symbolAt id).name with
  | none =>
    have hnone := (RefTable.lookup_eq_none_iff hs.refs (symbol?_eq_some h)).mp hl
    refine yields_pure ⟨rfl, fun x => ⟨by simp, ?_⟩⟩
    rintro ⟨i, d, hd, -⟩
    exact absurd ⟨d, hd⟩ (hnone ⟨i⟩)
  | some r =>
    obtain ⟨d, hd⟩ := (RefTable.lookup_eq_some_iff hs.refs (symbol?_eq_some h)).mp hl
    have hget : s.refs.getRef r = .ok d := by simp [RefTable.getRef, RefTable.get?, hd]
    refine yields_bind (yields_lift_ok hget (yields_pure ⟨rfl, fun x => ⟨fun hx => ⟨_, d, hd, hx⟩, ?_⟩⟩))
    rintro ⟨i, d', hd', hx⟩
    cases hs.refs.unique hd hd'
    cases hd.symm.trans hd'
    exact hx

/-! ## Enums -/

/-- An enum without its members. -/
def bareEnum (v : SymbolView) : EnumDoc := { name := v.name, pos := v.pos, doc := v.doc }

theorem enterEnum_yields (hs : s.Sound g) (h : id.Within g.extent)
    (hroute : g.route? id = some .toEnum) (hnew : ∀ x, ¬ s.refs.Built id x) :
    Yields E (enterEnum (g.viewAt id)) s fun e s' =>
      s'.Sound g ∧ s.refs.Le s'.refs ∧ s'.refs.Built id (.toEnum e) ∧ e = ⟨s.enums.size⟩ ∧
        s' = { s with refs := s'.refs, enums := s.enums.push (bareEnum (g.viewAt id)) } := by
  refine yields_bind (yields_get (yields_bind (yields_modify ?_)))
  refine yields_bind (yields_modifyGet (yields_pure ?_))
  obtain ⟨hsound, hle, hbuilt⟩ := hs.enter (x := .toEnum ⟨s.enums.size⟩)
    { s with
      refs := (s.refs.request id (g.symbolAt id).name (some (.toEnum ⟨s.enums.size⟩))).2
      enums := s.enums.push (bareEnum (g.viewAt id)) }
    h hnew hroute (by simp [WalkState.Holds]) (by
      rintro (c | ⟨⟨i⟩⟩)
      · simp [WalkState.Holds]
      · simp only [WalkState.Holds, Array.size_push, RefTarget.toEnum.injEq, EnumId.mk.injEq]
        omega) (Nat.le_refl _) rfl rfl
  exact ⟨hsound, hle, hbuilt, rfl, rfl⟩

/-- **Building an enum.** -/
theorem enumBody_yields (hg : g.Closed) (hs : s.Sound g) (h : id.Within g.extent) (hA : A id)
    (hroute : g.route? id = some .toEnum) (hnew : ∀ x, ¬ s.refs.Built id x) :
    Yields (ExtractError.OfAlias limit) (enumBody g (g.viewAt id)) s fun e s' =>
      (s'.Sound g ∧ WalkState.Grows g limit A s s' ∧ s'.refs.Built id (.toEnum e)) ∧
        s'.classes.size = s.classes.size ∧ s'.enums.size = s.enums.size + 1 := by
  unfold enumBody
  refine yields_bind ((enterEnum_yields hs h hroute hnew).mono ?_)
  rintro e s₁ ⟨hs₁, hle₁, hbuilt, rfl, heq₁⟩
  refine yields_bind (yields_lift_ok (getSymbol_eq_ok h) ?_)
  refine yields_bind ((enumMembers_keeps hg h s₁ hs₁.refs).mono ?_)
  rintro members s₂ ⟨hgood₂, hle₂, hmembers⟩
  have hs₂ := hs₁.mention hgood₂ hle₂
  have henums : s₂.enums = s₁.enums := by rw [hle₂.1]
  have hclasses : s₂.classes = s.classes := by rw [hle₂.1, heq₁]
  have hpending : s₂.pendingExtends = s.pendingExtends := by rw [hle₂.1, heq₁]
  have hsize : s₂.enums.size = s.enums.size + 1 := by
    rw [henums, heq₁]
    simp
  have hlt : s.enums.size < s₂.enums.size := by omega
  unfold fillEnum
  refine yields_bind (yields_bind (yields_get ?_))
  refine yields_bind (yields_lift_ok (modifyAt_eq_ok hlt) (yields_set (yields_pure ?_)))
  refine ⟨⟨hs₂.of_same rfl rfl rfl (by simp), ?_, hbuilt.mono hle₂.2.le⟩, by rw [hclasses],
    by simpa using hsize⟩
  have hget : ∀ i, (s₂.enums.modify s.enums.size fun e => { e with memberList := members })[i]? =
      if s.enums.size = i then some { bareEnum (g.viewAt id) with memberList := members }
      else s.enums[i]? := by
    intro i
    rw [Array.getElem?_modify, henums, heq₁, Array.getElem?_push]
    by_cases hi : s.enums.size = i
    · simp [hi]
    · simp [hi, Ne.symm hi]
  refine ⟨hle₁.trans hle₂.2.le, fun _ => by rw [hclasses], ?_, ?_, ?_, ?_⟩
  · intro i hi
    exact (hget i).trans (if_neg (by omega))
  · intro c _
    simp only [WalkState.noted, hpending]
  · intro c d hc hd
    rw [hclasses] at hd
    exact absurd (Array.getElem?_eq_some_iff.mp hd).1 (by omega)
  · intro e d he hd
    rw [hget] at hd
    split at hd
    next hi =>
      cases hd
      obtain ⟨i⟩ := e
      subst hi
      exact ⟨id, hA, hbuilt.mono hle₂.2.le, rfl, rfl, rfl, hmembers⟩
    next hi => exact absurd (Array.getElem?_eq_some_iff.mp hd).1 (by omega)

/-- An enum, built on first sight. -/
theorem buildEnum_yields (hg : g.Closed) (hs : s.Sound g) (h : id.Within g.extent) (hA : A id)
    (hroute : g.route? id = some .toEnum) :
    Yields (ExtractError.OfAlias limit) (buildEnum g (g.viewAt id)) s fun e s' =>
      s'.Sound g ∧ WalkState.Grows g limit A s s' ∧ s'.refs.Built id (.toEnum e) := by
  unfold buildEnum
  refine yields_bind ((existingTarget_yields hs h).mono ?_)
  rintro r s' ⟨rfl, hr⟩
  cases r with
  | none =>
    exact (enumBody_yields hg hs h hA hroute fun x hb => by simpa using (hr x).mpr hb).mono
      fun e s' hs' => hs'.1
  | some x =>
    have hb := (hr x).mp rfl
    cases x with
    | toEnum e => exact yields_pure ⟨hs, .refl _, hb⟩
    | toClass c =>
      -- The symbol is not routed to a class.
      obtain ⟨kind, hkind⟩ := hs.routed hb
      rw [hroute] at hkind
      cases hkind

/-! ## Classes -/

/-- A class without its insides. -/
def bareClass (v : SymbolView) (kind : ClassKind) : ClassDoc :=
  { name := v.name, kind, pos := v.pos, doc := v.doc }

theorem enterClass_yields (hs : s.Sound g) (h : id.Within g.extent) {kind : ClassKind}
    (hroute : g.route? id = some (.toClass kind)) (hnew : ∀ x, ¬ s.refs.Built id x) :
    Yields E (enterClass (g.viewAt id) kind) s fun c s' =>
      s'.Sound g ∧ s.refs.Le s'.refs ∧ s'.refs.Built id (.toClass c) ∧ c = ⟨s.classes.size⟩ ∧
        s' = { s with
          refs := s'.refs, classes := s.classes.push (bareClass (g.viewAt id) kind) } := by
  refine yields_bind (yields_get (yields_bind (yields_modify ?_)))
  refine yields_bind (yields_modifyGet (yields_pure ?_))
  obtain ⟨hsound, hle, hbuilt⟩ := hs.enter (x := .toClass ⟨s.classes.size⟩)
    { s with
      refs := (s.refs.request id (g.symbolAt id).name (some (.toClass ⟨s.classes.size⟩))).2
      classes := s.classes.push (bareClass (g.viewAt id) kind) }
    h hnew ⟨kind, hroute⟩ (by simp [WalkState.Holds]) (by
      rintro (⟨⟨i⟩⟩ | e)
      · simp only [WalkState.Holds, Array.size_push, RefTarget.toClass.injEq, ClassId.mk.injEq]
        omega
      · simp [WalkState.Holds]) (by simp) rfl rfl
  exact ⟨hsound, hle, hbuilt, rfl, rfl⟩

/-- A class was entered, and all of it is known but what is nested in it. -/
structure Opened (g : SymbolGraph) (limit : Nat) (s : WalkState) (id : SymbolId) (kind : ClassKind)
    (c : OpenClass) (s' : WalkState) : Prop where
  sound : s'.Sound g
  refs : s.refs.Le s'.refs
  built : s'.refs.Built id (.toClass c.id)
  last : c.id = ⟨s.classes.size⟩
  classes : s'.classes = s.classes.push (bareClass (g.viewAt id) kind)
  enums : s'.enums = s.enums
  noted : ∀ {c' : ClassId}, c'.index < s.classes.size → s'.noted c' = s.noted c'
  resolves : ∀ b ∈ g.namedBases id, g.Resolves limit b
  heritage : List.Forall₂ s'.refs.Has (g.heritageOf limit id) (s'.noted c.id)
  constructors : List.Forall₂ (g.SignatureOf s'.refs) (g.constructsOf (g.viewAt id)) c.constructors
  body : g.BodyOf s'.refs (g.symbolAt id).members.values c.body
  nested : c.nested = g.nestedIn id

/-- The heritage of a class is noted after all that was noted before. -/
theorem noteHeritage_yields (hg : g.Closed) (hs : s.Sound g) (h : id.Within g.extent) {c : ClassId}
    (hc : c.index < s.classes.size) :
    Yields (ExtractError.OfAlias limit) (noteHeritage g limit c (g.viewAt id)) s fun _ s' =>
      s'.Sound g ∧ s.refs.Appends s'.refs ∧ s'.classes = s.classes ∧ s'.enums = s.enums ∧
        (∀ b ∈ g.namedBases id, g.Resolves limit b) ∧ ∃ rs, List.Forall₂ s'.refs.Has (g.heritageOf limit id) rs ∧
          ∀ c', s'.noted c' = s.noted c' ++ if c' = c then rs else [] := by
  have hheritage : ∀ b ∈ g.namedBases id, b.Within g.extent := by
    unfold namedBases
    cases hd : (g.viewAt id).declaration with
    | none => simp
    | some d => exact (declaration_within_of_viewAt hg h d hd).heritage
  unfold noteHeritage
  refine yields_bind ((heritageRefs_keep hg hheritage s hs.refs).mono ?_)
  rintro rss s₁ ⟨hgood, hle, hresolves, hrss⟩
  have hs₁ := hs.mention hgood hle
  have hclasses : s₁.classes = s.classes := by rw [hle.1]
  have henums : s₁.enums = s.enums := by rw [hle.1]
  have hpending : s₁.pendingExtends = s.pendingExtends := by rw [hle.1]
  have hnoted : ∀ c', s₁.noted c' = s.noted c' := by
    intro c'
    rw [WalkState.noted, WalkState.noted, hpending]
  dsimp only
  split
  next =>
    refine yields_modify ⟨?_, hle.2, hclasses, henums, hresolves, rss.flatten, hrss, ?_⟩
    · refine ⟨hs₁.refs, hs₁.holds, hs₁.routed, hs₁.injective, hs₁.onto, ?_⟩
      intro p hp
      rcases List.mem_append.mp hp with hp | hp
      · exact hs₁.pending p hp
      · rw [List.mem_singleton] at hp
        subst hp
        refine ⟨by rw [hclasses]; exact hc, fun r hr => ?_⟩
        obtain ⟨b, -, hb⟩ := forall₂_mem_right hrss hr
        exact hb.index_lt
    · intro c'
      rw [← hnoted, WalkState.noted, WalkState.noted, List.filter_append, List.flatMap_append]
      by_cases hcc : c' = c
      · simp [hcc]
      · simp [hcc, Ne.symm hcc]
  next hempty =>
    have hnil : rss.flatten = [] := by simpa using hempty
    refine yields_pure ⟨hs₁, hle.2, hclasses, henums, hresolves, rss.flatten, hrss, fun c' => ?_⟩
    simp [hnoted, hnil]

/-- **Opening a class.** -/
theorem openClass_yields (hg : g.Closed) (hs : s.Sound g) (h : id.Within g.extent) {kind : ClassKind}
    (hroute : g.route? id = some (.toClass kind)) (hnew : ∀ x, ¬ s.refs.Built id x) :
    Yields (ExtractError.OfAlias limit) (openClass g limit (g.viewAt id) kind) s fun c s' =>
      Opened g limit s id kind c s' := by
  unfold openClass
  refine yields_bind ((enterClass_yields hs h hroute hnew).mono ?_)
  rintro c s₁ ⟨hs₁, hle₁, hbuilt, rfl, heq₁⟩
  refine yields_bind ((constructors_keep hg (typeId_within_of_viewAt hg h) s₁ hs₁.refs).mono ?_)
  rintro constructors s₂ ⟨hgood₂, hle₂, hconstructors⟩
  have hs₂ := hs₁.mention hgood₂ hle₂
  refine yields_bind (yields_lift_ok (getSymbol_eq_ok h) ?_)
  have hin := hg.symbolAt h
  refine yields_bind ((members_keep hg hin.members s₂ hs₂.refs).mono ?_)
  rintro body s₃ ⟨hgood₃, hle₃, hbody⟩
  have hs₃ := hs₂.mention hgood₃ hle₃
  -- What was entered is untouched by the mentions.
  have heq₃ : s₃ = { s₁ with refs := s₃.refs } := by rw [hle₃.1, hle₂.1]
  have hclasses : s₃.classes = s.classes.push (bareClass (g.viewAt id) kind) := by
    rw [heq₃, heq₁]
  have hnoted : ∀ c, s₃.noted c = s.noted c := by
    intro c
    rw [WalkState.noted, WalkState.noted, heq₃, heq₁]
  refine yields_bind ((noteHeritage_yields hg hs₃ h (c := ⟨s.classes.size⟩) (by simp [hclasses])).mono ?_)
  rintro - s₄ ⟨hs₄, happ₄, hclasses₄, henums₄, hresolves, rs, hrs, hnoted₄⟩
  refine yields_bind (yields_lift_ok (exportsWhere_eq_ok hin _) (yields_pure ?_))
  have hle₄ := hle₂.2.le.trans (hle₃.2.le.trans happ₄.le)
  refine ⟨hs₄, hle₁.trans hle₄, hbuilt.mono hle₄, rfl, hclasses₄.trans hclasses, ?_, ?_, hresolves,
    ?_, ?_, ?_, rfl⟩
  · rw [henums₄, heq₃, heq₁]
  · intro c' hc'
    have hne : c' ≠ ⟨s.classes.size⟩ := by
      rintro rfl
      exact Nat.lt_irrefl _ hc'
    rw [hnoted₄, hnoted, if_neg hne, List.append_nil]
  · have hold : s.noted ⟨s.classes.size⟩ = [] := hs.noted_eq_nil (Nat.le_refl _)
    simpa [hnoted₄, hnoted, hold] using hrs
  · exact hconstructors.imp fun _ _ => SignatureOf.mono (hle₃.2.le.trans happ₄.le)
  · exact hbody.mono happ₄.le

theorem foldl_addConstructor (l : List SignatureDoc) :
    ∀ (done : List SignatureDoc) (d : ClassDoc), d.construct = constructorWith done →
      l.foldl ClassDoc.addConstructor d = { d with construct := constructorWith (done ++ l) } := by
  induction l with
  | nil =>
    intro done d hd
    simp [← hd]
  | cons x l ih =>
    intro done d hd
    have hx : (d.addConstructor x).construct = constructorWith (done ++ [x]) := by
      cases done <;> simp [ClassDoc.addConstructor, hd, constructorWith]
    rw [List.foldl_cons, ih (done ++ [x]) _ hx]
    simp [ClassDoc.addConstructor]

theorem fill_bareClass (c : OpenClass) (exports : ModuleDoc) (v : SymbolView) (kind : ClassKind) :
    c.fill exports (bareClass v kind) =
      { bareClass v kind with
        construct := constructorWith c.constructors
        methodList := c.body.methods
        propertyList := c.body.properties
        index := c.body.index
        exports := exports } := by
  unfold OpenClass.fill
  rw [foldl_addConstructor c.constructors [] _ rfl]
  rfl

/-- A class that was opened is complete once it is filled in with what is nested in it. -/
theorem Opened.complete {kind : ClassKind} {c : OpenClass} {s₁ s₂ : WalkState}
    (h : Opened g limit s id kind c s₁) (hroute : g.route? id = some (.toClass kind))
    (hle : s₁.refs.Le s₂.refs) (hnoted : s₂.noted c.id = s₁.noted c.id) {exports : ModuleDoc}
    (hexports : g.ModuleOf s₂.refs c.nested exports) :
    WalkState.Complete g limit s₂ id c.id (c.fill exports (bareClass (g.viewAt id) kind)) := by
  rw [fill_bareClass]
  refine ⟨⟨rfl, hroute, rfl, rfl, ⟨c.constructors, ?_, rfl⟩, h.body.mono hle, ?_⟩, rfl, h.resolves,
    ?_⟩
  · exact h.constructors.imp fun _ _ => SignatureOf.mono hle
  · rw [← h.nested]
    exact hexports
  · rw [hnoted]
    exact h.heritage.imp fun _ _ hr => hr.mono hle

/-- **Closing a class.** Between the opening and the closing, other classes may have been built. -/
theorem Opened.fillClass_yields {kind : ClassKind} {c : OpenClass} {s₁ s₂ : WalkState}
    (h : Opened g limit s id kind c s₁) (hA : A id) (hroute : g.route? id = some (.toClass kind))
    (hs₂ : s₂.Sound g) (hgrows : WalkState.Grows g limit A s₁ s₂) {exports : ModuleDoc}
    (hexports : g.ModuleOf s₂.refs c.nested exports) :
    Yields E (fillClass c exports) s₂ fun _ s' =>
      s'.Sound g ∧ WalkState.Grows g limit A s s' ∧ s'.refs.Built id (.toClass c.id) := by
  have hsize₁ : s₁.classes.size = s.classes.size + 1 := by simp [h.classes]
  have hindex : c.id.index = s.classes.size := by rw [h.last]
  have hlt₁ : c.id.index < s₁.classes.size := by omega
  have hlt₂ : c.id.index < s₂.classes.size := Nat.lt_of_lt_of_le hlt₁ hgrows.classes_le
  have hbuilt := h.built.mono hgrows.refs
  have hother : ∀ i, i ≠ s.classes.size →
      (s₂.classes.modify c.id.index (c.fill exports))[i]? = s₂.classes[i]? := by
    intro i hi
    rw [Array.getElem?_modify, if_neg (by omega)]
  have hself : (s₂.classes.modify c.id.index (c.fill exports))[c.id.index]? =
      some (c.fill exports (bareClass (g.viewAt id) kind)) := by
    rw [Array.getElem?_modify, if_pos rfl, hgrows.classes hlt₁, h.classes, hindex]
    simp
  unfold fillClass
  refine yields_bind (yields_get (yields_bind (yields_lift_ok (modifyAt_eq_ok hlt₂) (yields_set ?_))))
  refine ⟨hs₂.of_same rfl rfl (by simp) rfl, ?_, hbuilt⟩
  refine ⟨h.refs.trans hgrows.refs, ?_, ?_, ?_, ?_, ?_⟩
  · intro i hi
    rw [hother i (by omega), hgrows.classes (by omega), h.classes]
    simp [Array.getElem?_push, Nat.ne_of_lt hi]
  · intro i hi
    rw [hgrows.enums (by rw [h.enums]; exact hi), h.enums]
  · intro c' hc'
    exact (hgrows.noted (by omega)).trans (h.noted hc')
  · rintro ⟨i⟩ d hi hd
    -- The class itself is new, and so are those built since it was opened.
    by_cases hic : i = s.classes.size
    · subst hic
      rw [← hindex, hself] at hd
      cases hd
      have hcomplete := h.complete hroute hgrows.refs (hgrows.noted hlt₁) hexports
      rw [h.last] at hcomplete hbuilt
      exact ⟨id, hA, hbuilt, hcomplete.of_grows (.refl _) rfl⟩
    · rw [hother i hic] at hd
      have hnew : s₁.classes.size ≤ i := by
        have : s.classes.size ≤ i := hi
        omega
      obtain ⟨id', hA', hb, hcomplete⟩ := hgrows.newClass (c := ⟨i⟩) hnew hd
      exact ⟨id', hA', hb, hcomplete.of_grows (.refl _) rfl⟩
  · intro e d he hd
    exact hgrows.newEnum (by rw [h.enums]; exact he) hd

/-! ## The recursion -/

/-- Growth of a walk that may open `depth` more classes. -/
def assemblyGrowth (g : SymbolGraph) (limit : Nat) (A : SymbolId → Prop) (depth : Nat) :
    Growth WalkState where
  Good s := s.Sound g ∧ g.symbols.size < s.classes.size + depth
  Le := WalkState.Grows g limit A
  refl := .refl
  trans := .trans

/-- The computation adds the record of a symbol to a module that holds the records of others. -/
def Adds (g : SymbolGraph) (limit : Nat) (A : SymbolId → Prop) (depth : Nat) (id : SymbolId)
    (x : ModuleDoc → Walk ModuleDoc) : Prop :=
  ∀ ids m s, (assemblyGrowth g limit A depth).Good s → g.ModuleOf s.refs ids m →
    Yields (ExtractError.OfAlias limit) (x m) s fun m' s' =>
      (assemblyGrowth g limit A depth).Good s' ∧ (assemblyGrowth g limit A depth).Le s s' ∧
        g.ModuleOf s'.refs (ids ++ [id]) m'

variable {depth : Nat}

theorem assemblyGrowth_good {s' : WalkState} (hs : (assemblyGrowth g limit A depth).Good s)
    (hs' : s'.Sound g) (hle : WalkState.Grows g limit A s s') :
    (assemblyGrowth g limit A depth).Good s' := by
  have hlt := hs.2
  have hsize := hle.classes_le
  exact ⟨hs', by omega⟩

/-- The module of the symbols nested in a class. -/
theorem nested_yields {nested : SymbolView → ModuleDoc → Walk ModuleDoc} {ids : List SymbolId}
    (hin : ∀ n ∈ ids, n.Within g.extent)
    (hnested : ∀ n ∈ ids, Adds g limit A depth n (nested (g.viewAt n)))
    (hs : (assemblyGrowth g limit A depth).Good s) :
    Yields (ExtractError.OfAlias limit)
      (ids.foldlM (fun m n => do nested (← g.view n) m) ({} : ModuleDoc)) s fun m s' =>
      s'.Sound g ∧ WalkState.Grows g limit A s s' ∧ g.ModuleOf s'.refs ids m := by
  have hstart : g.ModuleOf s.refs [] {} := ⟨.nil, .nil, .nil, .nil, .nil⟩
  refine (Growth.foldlM (G := assemblyGrowth g limit A depth)
    (P := fun done m s => g.ModuleOf s.refs done m) ?_ [] {} s hs hstart).mono ?_
  · intro done n hn m s' hs' hm
    refine yields_bind (yields_lift_ok (view_eq_ok (hin n hn)) ?_)
    exact hnested n hn done m s' hs' hm
  · rintro m s' ⟨hs', hle, hm⟩
    exact ⟨hs'.1, hle, hm⟩

/-- **Building a class.** -/
theorem classBody_yields (hg : g.Closed) {nested : SymbolView → ModuleDoc → Walk ModuleDoc}
    (hnested : ∀ n ∈ g.nestedIn id, Adds g limit A depth n (nested (g.viewAt n)))
    (hs : (assemblyGrowth g limit A (depth + 1)).Good s) (h : id.Within g.extent) (hA : A id)
    {kind : ClassKind} (hroute : g.route? id = some (.toClass kind))
    (hnew : ∀ x, ¬ s.refs.Built id x) :
    Yields (ExtractError.OfAlias limit) (classBody g limit nested (g.viewAt id) kind) s fun c s' =>
      s'.Sound g ∧ WalkState.Grows g limit A s s' ∧ s'.refs.Built id (.toClass c) := by
  unfold classBody
  refine yields_bind ((openClass_yields hg hs.1 h hroute hnew).mono ?_)
  intro c s₁ hopened
  -- The class that was opened makes up for the depth that is spent on it.
  have hgood₁ : (assemblyGrowth g limit A depth).Good s₁ := by
    have hlt := hs.2
    have hsize : s₁.classes.size = s.classes.size + 1 := by simp [hopened.classes]
    exact ⟨hopened.sound, by omega⟩
  have hin : ∀ n ∈ c.nested, n.Within g.extent := by
    rw [hopened.nested]
    exact fun n hn => within_of_mem_exportsIn (hg.symbolAt h) hn
  rw [← hopened.nested] at hnested
  refine yields_bind ((nested_yields hin hnested hgood₁).mono ?_)
  rintro exports s₂ ⟨hs₂, hgrows, hexports⟩
  refine yields_bind ((hopened.fillClass_yields hA hroute hs₂ hgrows hexports).mono ?_)
  exact fun _ s' h => yields_pure h

/-- A class, built on first sight. -/
theorem buildClass_yields (hg : g.Closed) {nested : SymbolView → ModuleDoc → Walk ModuleDoc}
    (hnested : ∀ n ∈ g.nestedIn id, Adds g limit A depth n (nested (g.viewAt n)))
    (hs : (assemblyGrowth g limit A (depth + 1)).Good s) (h : id.Within g.extent) (hA : A id)
    {kind : ClassKind} (hroute : g.route? id = some (.toClass kind)) :
    Yields (ExtractError.OfAlias limit) (buildClass g limit nested (g.viewAt id) kind) s fun c s' =>
      s'.Sound g ∧ WalkState.Grows g limit A s s' ∧ s'.refs.Built id (.toClass c) := by
  unfold buildClass
  refine yields_bind ((existingTarget_yields hs.1 h).mono ?_)
  rintro r s' ⟨rfl, hr⟩
  cases r with
  | none =>
    exact classBody_yields hg hnested hs h hA hroute fun x hb => by simpa using (hr x).mpr hb
  | some x =>
    have hb := (hr x).mp rfl
    cases x with
    | toClass c => exact yields_pure ⟨hs.1, .refl _, hb⟩
    | toEnum e =>
      -- The symbol is not routed to an enum.
      have henum : g.route? id = some .toEnum := hs.1.routed hb
      rw [hroute] at henum
      cases henum

/-- **The record of a symbol, added to a module**, at every depth that is left. The induction is on
the depth; symbols with `A` nest symbols with `A`. -/
theorem assemble_adds (hg : g.Closed)
    (hA : ∀ {id kind}, A id → g.route? id = some (.toClass kind) → ∀ n ∈ g.nestedIn id, A n) :
    ∀ depth id, A id → id.Within g.extent →
      Adds g limit A depth id (assemble g limit depth (g.viewAt id)) := by
  intro depth
  induction depth with
  | zero =>
    intro id hid h ids m s hs hm
    -- Without depth there would be more classes than symbols.
    have hlt := hs.2
    have hle := hs.1.classes_le
    omega
  | succ depth ih =>
    intro id hid h ids m s hs hm
    have hmention : ∀ {s'}, (mentionGrowth g).Good s' → (mentionGrowth g).Le s s' →
        (assemblyGrowth g limit A (depth + 1)).Good s' ∧
          (assemblyGrowth g limit A (depth + 1)).Le s s' :=
      fun hgood hle => ⟨assemblyGrowth_good hs (hs.1.mention hgood hle) (.mention hle), .mention hle⟩
    have hroute : (g.viewAt id).kind.map DeclarationKind.route = g.route? id := rfl
    unfold assemble
    rw [hroute]
    split
    next hr =>
      refine yields_bind ((function_viewAt_keeps hg h s hs.1.refs).mono ?_)
      rintro f s₁ ⟨hgood, hle, hf⟩
      obtain ⟨hgood₁, hle₁⟩ := hmention hgood hle
      exact yields_pure ⟨hgood₁, hle₁, (hm.mono hle.2.le).addFunction hr hf⟩
    next hr =>
      refine yields_bind ((buildEnum_yields hg hs.1 h hid hr).mono ?_)
      rintro e s₁ ⟨hs₁, hle, he⟩
      exact yields_pure ⟨assemblyGrowth_good hs hs₁ hle, hle, (hm.mono hle.refs).addEnum hr he⟩
    next hr =>
      refine yields_bind ((identifier_viewAt_keeps hg h false s hs.1.refs).mono ?_)
      rintro x s₁ ⟨hgood, hle, hx⟩
      obtain ⟨hgood₁, hle₁⟩ := hmention hgood hle
      exact yields_pure ⟨hgood₁, hle₁, (hm.mono hle.2.le).addVariable hr hx⟩
    next kind hr =>
      have hnested : ∀ n ∈ g.nestedIn id, Adds g limit A depth n (assemble g limit depth (g.viewAt n)) :=
        fun n hn => ih n (hA hid hr n hn) (within_of_mem_exportsIn (hg.symbolAt h) hn)
      refine yields_bind ((buildClass_yields hg hnested hs h hid hr).mono ?_)
      rintro c s₁ ⟨hs₁, hle, hc⟩
      have hgood₁ := assemblyGrowth_good hs hs₁ hle
      cases kind with
      | ofClass => exact yields_pure ⟨hgood₁, hle, (hm.mono hle.refs).addClass hr hc⟩
      | ofInterface => exact yields_pure ⟨hgood₁, hle, (hm.mono hle.refs).addInterface hr hc⟩
    next hr => exact yields_pure ⟨hs, .refl s, hm.skip (.inr hr)⟩
    next hr => exact yields_pure ⟨hs, .refl s, hm.skip (.inl hr)⟩

end ApiDocs.Walk
