import ApiDocs.Proofs.Binding.DeclaredConstructors
import ApiDocs.Proofs.Graph.Calls

/-!
# Inherited constructors

Classes get their types in the order in which they were noted. Each is asked for its constructors, and what
is found on the way up is kept for all classes on the way. A class gets the constructors of the class it
descends from as long as no walk that came before, and no walk of its own, was cut short below that class. A
walk that was cut short has left the constructor without parameters to every class that it passed, and there
it stays, also for those that are within the limit themselves. So what a class inherits depends on which
classes were noted before it.

## Main definitions

* `Linking.Offers`: the type of a class as a value has these constructors of its instances.

## Main results

* `GraphDraft.link_inherits`: what constructors classes get.
* `GraphDraft.line_cutShort`: in a line of eighteen classes, the order matters.
-/

namespace ApiDocs

namespace Linking

variable {l l' : Linking} {h : Hierarchy} {bases : Table SymbolId NameRef} {s : SymbolId} {t : TypeId}
  {F : Nat → SymbolId → Prop} {P : SymbolId → List Constructor → Prop}

/-! ## The types of classes -/

theorem typeOf_setType_self {b : GraphBuilder} (hs : s.Within b.extent) :
    (b.setType s t).typeOf s = some t := by
  have hlt : s.index < b.graph.symbols.size := hs
  simp [GraphBuilder.typeOf, GraphBuilder.setType, GraphBuilder.modifySymbol, SymbolGraph.symbol?,
    Array.getElem?_modify, Array.getElem?_eq_getElem hlt]

theorem typeOf_setType_of_ne {b : GraphBuilder} {s' : SymbolId} (hs : s' ≠ s) :
    (b.setType s t).typeOf s' = b.typeOf s' := by
  have hne : s.index ≠ s'.index := fun h => hs (by cases s; cases s'; cases h; rfl)
  simp [GraphBuilder.typeOf, GraphBuilder.setType, GraphBuilder.modifySymbol, SymbolGraph.symbol?,
    Array.getElem?_modify, hne]

/-- The type of the class as a value has the constructors that are kept. -/
def Valued (l : Linking) (s : SymbolId) : Prop :=
  ∃ t n, l.builder.typeOf s = some t ∧ l.builder.graph.type? t = some n ∧
    l.constructors.get? s = some n.constructSignatures

theorem Valued.mono (hs : l.Valued s) (hstays : l.Stays l') : l'.Valued s := by
  obtain ⟨t, n, ht, hn, hxs⟩ := hs
  exact ⟨t, n, hstays.values ht, hstays.types hn, hstays.constructors hxs⟩

/-- Classes get their types. -/
def classing (h : Hierarchy) (bases : Table SymbolId NameRef) (P : SymbolId → List Constructor → Prop) :
    Growth Linking where
  Good := (walking h bases P).Good
  Le l l' := making.Le l l' ∧ l.Lasts l' ∧ ∀ s, l.Valued s → l'.Valued s
  refl l := ⟨making.refl l, (Stays.refl l).toLasts, fun _ => id⟩
  trans h h' := ⟨making.trans h.1 h'.1, h.2.1.trans h'.2.1, fun s => h'.2.2 s ∘ h.2.2 s⟩

/-- A class that got its constructors gets the type with them. -/
theorem setConstructorType {xs : List SignatureId} (hs : s.Within l.extent)
    (hxs : l.constructors.get? s = some xs) :
    let made := l.builder.constructorType s xs
    let l' := { l with builder := made.2.setType s made.1 }
    l.Keeps l' ∧ l.Lasts l' ∧ l'.Valued s ∧ ∀ s', l.Valued s' → l'.Valued s' := by
  intro made l'
  have hkeeps : l.Keeps l' := .of_builder ((GraphBuilder.Keeps.addType _).trans (.modifySymbol fun _ => rfl))
  have hstays : l.Stays { l with builder := made.2 } := addType_stays _
  have hself : l'.Valued s := by
    refine ⟨made.1, _, typeOf_setType_self hs, Array.getElem?_push_size, ?_⟩
    exact hxs
  refine ⟨hkeeps, ⟨hstays.signatures, id, id⟩, hself, fun s' hs' => ?_⟩
  by_cases hne : s' = s
  · exact hne ▸ hself
  · obtain ⟨t, n, ht, hn, hxs'⟩ := hs'.mono hstays
    exact ⟨t, n, (typeOf_setType_of_ne hne).trans ht, hn, hxs'⟩

/-- A class gets the type with its constructors, and those that are asked on the way get constructors. -/
theorem linkClass_classing (hrule : h.Rule F P) (hl : (classing h bases P).Good l) {draft : ClassDraft}
    (hk : F maxExpansion draft.symbol) (hs : draft.symbol.Within l.extent) :
    (classing h bases P).Runs (linkClass bases draft) l fun _ l' =>
      l'.Valued draft.symbol ∧ Supplies h maxExpansion draft.symbol l l' := by
  have hmaking := making_of_makingOf (E := fun _ => True) (linkClass_makingOf hl.1 bases hs)
  obtain ⟨hl₁, hle₁, hxs, hsupplies⟩ := constructorsOf_walks hrule maxExpansion hl hk hs
  obtain ⟨hkeeps, hlasts, hself, hothers⟩ := setConstructorType (hs.mono hle₁.1.1.1) hxs
  exact ⟨⟨hmaking.good, hl₁.2.grow hl₁.1.sound hkeeps hlasts rfl⟩,
    ⟨hmaking.le, hle₁.2.toLasts.trans hlasts, fun s' hs' => hothers s' (hs'.mono hle₁.2)⟩, hself, hsupplies⟩

/-- All classes of a list get their types, if each may be asked. -/
theorem linkClasses_classing (hrule : h.Rule F P) (hl : (classing h bases P).Good l)
    {drafts : List ClassDraft} (hk : ∀ c ∈ drafts, F maxExpansion c.symbol)
    (hs : ∀ c ∈ drafts, c.symbol.Within l.extent) :
    (classing h bases P).Runs (drafts.forM (linkClass bases)) l fun _ l' =>
      ∀ c ∈ drafts, l'.Valued c.symbol :=
  Growth.runs_forM_forall (G := classing h bases P) hl (fun c _ _ hle hc => hle.2.2 c.symbol hc)
    fun c hc _ hl' hle' => (linkClass_classing hrule hl' (hk c hc) ((hs c hc).mono hle'.1.1.1)).mono
      fun _ _ hpost => hpost.1

/-- The type of the class as a value has these constructors, which make instances of the class. -/
def Offers (L : Linking) (s : SymbolId) (cs : List Constructor) : Prop :=
  ∃ t n i, L.builder.typeOf s = some t ∧ L.builder.graph.type? t = some n ∧
    L.builder.HasForm (.instanceOf L.builder s) i ∧
    List.Forall₂ (fun c x => L.builder.graph.signature? x = some (c.signature i)) cs n.constructSignatures

/-- What is kept for a class that declares no constructors is what it offers. -/
theorem Valued.offers {cs : List Constructor} {xs : List SignatureId} (hs : l.Valued s) (hl : l.Orderly)
    (hempty : (h.declared s).isEmpty) (hxs : l.constructors.get? s = some xs) (hstored : l.Stored h s cs xs) :
    l.Offers s cs := by
  obtain ⟨t, n, ht, hn, hkept⟩ := hs
  rw [hxs] at hkept
  cases hkept
  obtain ⟨i, hi, hforms⟩ := hstored
  refine ⟨t, n, i, ht, hn, (hl.instances (hi hempty)).2, hforms.imp ?_⟩
  rintro c x ⟨t', ht', hx⟩
  obtain rfl := ht' hempty
  exact hx

/-! ## Lists of classes -/

theorem Ready.good (hl : l.Ready h bases) (hrule : h.Rule F P) : (classing h bases P).Good l :=
  ⟨hl.1, hl.2.imp fun _ _ _ hcs => hcs.2 ▸ hrule.own hcs.1⟩

section Lists

variable {before after drafts : List ClassDraft} {c a : ClassDraft} {n i : Nat} {r : SymbolId}

theorem forM_append (before after : List ClassDraft) (f : ClassDraft → LinkM Unit) (l : Linking) :
    (before ++ after).forM f l = after.forM f (before.forM f l).2 := by
  have happend : (before ++ after).forM f = (do before.forM f; after.forM f) := List.forM_append
  rw [happend]
  rfl

theorem forM_concat (before : List ClassDraft) (c : ClassDraft) (f : ClassDraft → LinkM Unit) (l : Linking) :
    ((before ++ [c]).forM f l).2 = (f c (before.forM f l).2).2 := by
  rw [forM_append]
  rfl

/-- What is kept of a class when some of the classes have their types is what it offers in the end. -/
theorem Ready.offers (hl : l.Ready h bases) (hs : ∀ c ∈ before ++ after, c.symbol.Within l.extent)
    (hc : c ∈ before ++ after) (hempty : (h.declared c.symbol).isEmpty) {cs : List Constructor}
    {xs : List SignatureId} (hxs : (before.forM (linkClass bases) l).2.constructors.get? c.symbol = some xs)
    (hstored : (before.forM (linkClass bases) l).2.Stored h c.symbol cs xs) :
    ((before ++ after).forM (linkClass bases) l).2.Offers c.symbol cs := by
  have hall := linkClasses_classing h.any_rule (hl.good h.any_rule) (fun _ _ => trivial) hs
  have hfirst := linkClasses_classing h.any_rule (hl.good h.any_rule) (fun _ _ => trivial)
    fun c hc => hs c (List.mem_append_left after hc)
  have hrest := linkClasses_classing h.any_rule hfirst.good (fun _ _ => trivial)
    fun c hc => (hs c (List.mem_append_right before hc)).mono hfirst.le.1.1.1
  obtain ⟨-, hlasts, -⟩ := hrest.le
  rw [← forM_append] at hlasts
  exact (hall.post c hc).offers hall.good.1 hempty (hlasts.constructors hxs) (hstored.mono hlasts)

/-- Every class that declares no constructors offers those of the class it descends from, or the one
without parameters. -/
theorem Ready.offers_mayGet (hl : l.Ready h bases) (hs : ∀ c ∈ drafts, c.symbol.Within l.extent)
    (hc : c ∈ drafts) (hempty : (h.declared c.symbol).isEmpty) :
    ∃ cs, h.MayGet c.symbol cs ∧ (drafts.forM (linkClass bases) l).2.Offers c.symbol cs := by
  have hrun := linkClasses_classing h.mayGet_rule (hl.good h.mayGet_rule) (fun _ _ => trivial) hs
  obtain ⟨t, n, ht, hn, hxs⟩ := hrun.post c hc
  obtain ⟨cs, hcs, hstored⟩ := hrun.good.2.kept hxs
  exact ⟨cs, hcs, Valued.offers ⟨t, n, ht, hn, hxs⟩ hrun.good.1 hempty hxs hstored⟩

/-- It offers those of the class it descends from, if this one was within the limit for it and for all that
came before. -/
theorem Ready.offers_constructors (hl : l.Ready h bases)
    (hs : ∀ b ∈ before ++ c :: after, b.symbol.Within l.extent) (hempty : (h.declared c.symbol).isEmpty)
    (hr : h.Descends n c.symbol r) (hn : n ≤ maxExpansion)
    (hbefore : ∀ b ∈ before, ∀ m, h.Descends m b.symbol r → m ≤ maxExpansion) :
    ((before ++ c :: after).forM (linkClass bases) l).2.Offers c.symbol (h.constructors r) := by
  have hrule := h.descends_rule r
  have hlist : before ++ c :: after = (before ++ [c]) ++ after := by simp
  rw [hlist] at hs ⊢
  have hlimit : ∀ b ∈ before ++ [c], ∀ m, h.Descends m b.symbol r → m ≤ maxExpansion := by
    intro b hb m hm
    rcases List.mem_append.mp hb with hb | hb
    · exact hbefore b hb m hm
    · obtain rfl := List.mem_singleton.mp hb
      rwa [(hm.unique hr).1]
  have hrun := linkClasses_classing hrule (hl.good hrule) hlimit
    fun c hc => hs c (List.mem_append_left after hc)
  obtain ⟨t, x, -, -, hxs⟩ := hrun.post c (by simp)
  obtain ⟨cs, hcs, hstored⟩ := hrun.good.2.kept hxs
  rw [hcs n hr] at hstored
  exact hl.offers hs (by simp) hempty hxs hstored

/-- Where no class came before that is below the same one, nothing is kept yet of the classes on the way to
it. -/
theorem Ready.get?_eq_none (hl : l.Ready h bases) (hs : ∀ b ∈ before, b.symbol.Within l.extent)
    (hbefore : ∀ b ∈ before, ∀ m, h.Descends m b.symbol r → m = 0) (hr : h.Descends n s r) (hi : i < n)
    {b : SymbolId} (hup : h.up i s = some b) :
    (before.forM (linkClass bases) l).2.constructors.get? b = none := by
  have hrule := h.untouched_rule r
  have hrun := linkClasses_classing hrule (hl.good hrule) hbefore hs
  obtain ⟨hempty, m, hm⟩ := hr.below hi hup
  refine Option.eq_none_iff_forall_ne_some.mpr fun xs hxs => ?_
  obtain ⟨cs, huntouched, -⟩ := hrun.good.2.kept hxs
  exact absurd (huntouched hempty (m + 1) hm) (by omega)

/-- If no class that is below the same one came before, and it is beyond the limit, then the class and all
within the limit offer the constructor without parameters. -/
theorem Ready.offers_implicit (hl : l.Ready h bases)
    (hs : ∀ b ∈ before ++ c :: after, b.symbol.Within l.extent) (hr : h.Descends n c.symbol r)
    (hn : maxExpansion < n) (hbefore : ∀ b ∈ before, ∀ m, h.Descends m b.symbol r → m = 0)
    (ha : a ∈ before ++ c :: after) (hi : i ≤ maxExpansion) (hup : h.up i c.symbol = some a.symbol) :
    ((before ++ c :: after).forM (linkClass bases) l).2.Offers a.symbol [.implicit] := by
  have hfirst := linkClasses_classing h.any_rule (hl.good h.any_rule) (fun _ _ => trivial)
    fun b hb => hs b (List.mem_append_left _ hb)
  have hnew : ∀ {j b}, j ≤ maxExpansion → h.up j c.symbol = some b →
      (before.forM (linkClass bases) l).2.constructors.get? b = none := fun hj =>
    hl.get?_eq_none (fun b hb => hs b (List.mem_append_left _ hb)) hbefore hr (Nat.lt_of_le_of_lt hj hn)
  have hkeeping := hfirst.good.2.imp
    (Q := fun a cs => ∀ i ≤ maxExpansion, h.up i c.symbol = some a → cs = [.implicit])
    fun b cs hkept _ j hj hb => by
      rw [hnew hj hb] at hkept
      cases hkept
  have hstep := linkClass_classing (h.cutShort_rule hr hn) ⟨hfirst.good.1, hkeeping⟩
    ⟨0, Nat.zero_add _, rfl⟩ ((hs c (by simp)).mono hfirst.le.1.1.1)
  obtain ⟨xs, hxs⟩ := Option.isSome_iff_exists.mp (hstep.post.2 i hi a.symbol hup fun j hj b hb =>
    hnew (Nat.le_of_lt (Nat.lt_of_lt_of_le hj hi)) hb)
  obtain ⟨cs, hcs, hstored⟩ := hstep.good.2.kept hxs
  rw [hcs i hi hup] at hstored
  have hlist : before ++ c :: after = (before ++ [c]) ++ after := by simp
  rw [hlist] at hs ha ⊢
  rw [← forM_concat] at hxs hstored
  exact hl.offers hs ha (hr.below (Nat.lt_of_le_of_lt hi hn) hup).1 hxs hstored

end Lists

end Linking

/-! ## Drafts -/

namespace GraphDraft

variable {d : GraphDraft}

/-- **What constructors classes get.** In the graph of a sound draft, a class that declares no constructors
offers, as constructors of its own instances, those that can be seen of the class it descends from, or the
one without parameters. If it descends from that class by so many links that they are

1. within the limit, and this is so for all classes that came before and descend from the same one, then it
   offers those of that class;
2. beyond the limit, and no class below the same one came before, then the class and all that are within the
   limit above it offer the one without parameters. -/
theorem link_inherits (hd : d.Sound) (hbare : d.builder.intrinsics = .empty) :
    (∀ c ∈ d.classes, (d.hierarchy.declared c.symbol).isEmpty →
      ∃ cs, d.hierarchy.MayGet c.symbol cs ∧ d.linked.Offers c.symbol cs) ∧
    ∀ before c after n r, d.classes = before ++ c :: after → (d.hierarchy.declared c.symbol).isEmpty →
      d.hierarchy.Descends n c.symbol r →
        (n ≤ maxExpansion →
          (∀ b ∈ before, ∀ m, d.hierarchy.Descends m b.symbol r → m ≤ maxExpansion) →
            d.linked.Offers c.symbol (d.hierarchy.constructors r)) ∧
        (maxExpansion < n → (∀ b ∈ before, ∀ m, d.hierarchy.Descends m b.symbol r → m = 0) →
          ∀ i ≤ maxExpansion, ∀ a ∈ d.classes, d.hierarchy.up i c.symbol = some a.symbol →
            d.linked.Offers a.symbol [.implicit]) := by
  obtain ⟨l, hready, hwithin, hlinked⟩ := exists_ready hd hbare
  generalize Linking.basesOf d.classes = bases at hready hlinked
  rw [hlinked]
  refine ⟨fun c hc hempty => hready.offers_mayGet hwithin hc hempty, ?_⟩
  intro before c after n r hclasses hempty hr
  rw [hclasses] at hwithin ⊢
  exact ⟨fun hn hbefore => hready.offers_constructors hwithin hempty hr hn hbefore,
    fun hn hbefore i hi a ha hup => hready.offers_implicit hwithin hr hn hbefore ha hi hup⟩

end GraphDraft

/-! ## A line of classes -/

/-- The parameters of the constructors that the type of a class has. -/
def Linking.parametersOf (L : Linking) (s : SymbolId) : Option (List (Option (List SymbolId))) :=
  ((L.builder.typeOf s).bind L.builder.graph.type?).map fun n =>
    n.constructSignatures.map fun x => (L.builder.graph.signature? x).map (·.parameters)

theorem Linking.Offers.parametersOf_eq {L : Linking} {s : SymbolId} {cs : List Constructor}
    (h : L.Offers s cs) : L.parametersOf s = some (cs.map fun c => some c.parameters) := by
  obtain ⟨t, n, i, ht, hn, -, hxs⟩ := h
  rw [parametersOf, ht, Option.bind_some, hn, Option.map_some, Option.some_inj]
  generalize n.constructSignatures = xs at hxs
  induction hxs with
  | nil => rfl
  | cons hx _ ih =>
    rw [List.map_cons, List.map_cons, hx, ih]
    rfl

namespace GraphDraft

/-- The name of a class in the line. -/
def lineName (i : Nat) : String := "Y" ++ toString i

/-- A class in the line extends the next one, but for the last. -/
def lineClass (i : Nat) : ClassDraft where
  symbol := ⟨i + 2⟩
  base := if i = 17 then none else some (.bound ⟨1, 0, lineName (i + 1)⟩)

/-- Eighteen classes `Y0` to `Y17`, noted in some order. The last one declares a constructor with a
parameter `n`. -/
def line (order : List Nat) : GraphDraft where
  builder := (GraphBuilder.start.runAll? (.addModule "a.ts" :: ((List.range 18).map fun i =>
    .addSymbol (lineName i) SymbolFlags.classBit) ++ [.addSymbol "n" SymbolFlags.variableBit])).getD {}
  locals := .ofList ((List.range 18).map fun i => (⟨1, 0, lineName i⟩, ⟨i + 2⟩))
  globals := .empty
  signatures := [{
    owner := .construct ⟨19⟩, parameters := [⟨20⟩], result := none, pos := ⟨"a.ts", 18, 1⟩, doc := "",
    hasBody := true }]
  classes := order.map lineClass

theorem line_bare (order : List Nat) : (line order).builder.intrinsics = .empty := by
  change (line []).builder.intrinsics = .empty
  decide +kernel

theorem line_size (order : List Nat) : (line order).builder.graph.symbols.size = 21 := by
  change (line []).builder.graph.symbols.size = 21
  decide +kernel

theorem line_sound {order : List Nat} (horder : ∀ i ∈ order, i < 18) : (line order).Sound := by
  have hvalid : (line []).builder.graph.Valid := by decide +kernel
  have hwithin : ∀ {s : SymbolId}, s.index < 21 → s.Within (line order).extent := by
    intro s hs
    change s.index < (line order).builder.graph.symbols.size
    rwa [line_size]
  refine ⟨⟨SymbolGraph.valid_iff_closed.mp hvalid, by simp [line_bare], hwithin (by decide)⟩, ?_⟩
  constructor
  case locals =>
    refine Table.forall_values_ofList fun x hx => ?_
    obtain ⟨i, hi, rfl⟩ := List.mem_map.mp hx
    have hlt := List.mem_range.mp hi
    exact hwithin (Nat.add_lt_add_right (Nat.lt_trans hlt (by decide : 18 < 19)) 2)
  case signatures =>
    intro x hx
    obtain rfl := List.mem_singleton.mp hx
    exact ⟨hwithin (by decide), by simpa using hwithin (by decide), by simp⟩
  case classes =>
    intro c hc
    obtain ⟨i, hi, rfl⟩ := List.mem_map.mp hc
    exact hwithin (Nat.add_lt_add_right (Nat.lt_trans (horder i hi) (by decide : 18 < 19)) 2)
  all_goals simp [line]

/-- From each class in the line, the links lead to the last one. -/
theorem line_descends : ∀ i < 18, (line (List.range 18)).hierarchy.Descends (17 - i) ⟨i + 2⟩ ⟨19⟩ ∧
    (line (List.range 18).reverse).hierarchy.Descends (17 - i) ⟨i + 2⟩ ⟨19⟩ := by
  decide +kernel

/-- All but the last one declare no constructors. -/
theorem line_declared : ∀ i < 17, ((line (List.range 18)).hierarchy.declared ⟨i + 2⟩).isEmpty ∧
    ((line (List.range 18).reverse).hierarchy.declared ⟨i + 2⟩).isEmpty := by
  decide +kernel

/-- The constructor that `Y17` declares. -/
theorem line_constructors : (line (List.range 18).reverse).hierarchy.constructors ⟨19⟩ =
    [{ parameters := [⟨20⟩], pos := some ⟨"a.ts", 18, 1⟩ }] := by
  decide +kernel

/-- If the classes are noted from `Y17` on, then `Y1` offers the constructor with a parameter. If they are
noted from `Y0` on, it offers the one without. -/
theorem line_inherits :
    (line (List.range 18).reverse).linked.Offers ⟨3⟩ [{ parameters := [⟨20⟩], pos := some ⟨"a.ts", 18, 1⟩ }] ∧
      (line (List.range 18)).linked.Offers ⟨3⟩ [.implicit] := by
  have hup := link_inherits (line_sound (by decide)) (line_bare (List.range 18).reverse)
  have hdown := link_inherits (line_sound (by decide)) (line_bare (List.range 18))
  constructor
  · rw [← line_constructors]
    refine (hup.2 ((List.range' 2 16).reverse.map lineClass) (lineClass 1) [lineClass 0] 16 ⟨19⟩ rfl
      (line_declared 1 (by decide)).2 (line_descends 1 (by decide)).2).1 (by decide) ?_
    intro b hb m hm
    obtain ⟨i, hi, rfl⟩ := List.mem_map.mp hb
    obtain ⟨hi₂, hi₁₈⟩ : 2 ≤ i ∧ i < 18 := by simpa using hi
    obtain ⟨rfl, -⟩ := hm.unique (line_descends i hi₁₈).2
    change 17 - i ≤ 16
    omega
  · exact (hdown.2 [] (lineClass 0) ((List.range' 1 17).map lineClass) 17 ⟨19⟩ rfl
      (line_declared 0 (by decide)).1 (line_descends 0 (by decide)).1).2 (by decide) (by simp) 1 (by decide)
      (lineClass 1) (List.mem_map_of_mem (by decide)) (by decide +kernel)

/-- **Inherited constructors depend on the order of classes.** `Y1` is 16 links below `Y17`, but if `Y0` is
noted before it, then it does not offer the constructor of `Y17`. -/
theorem line_cutShort :
    (line (List.range 18)).Sound ∧ (line (List.range 18)).builder.intrinsics = .empty ∧
      lineClass 1 ∈ (line (List.range 18)).classes ∧
      ((line (List.range 18)).hierarchy.declared ⟨3⟩).isEmpty ∧
      (∀ i < 18, (line (List.range 18)).hierarchy.Descends (17 - i) ⟨i + 2⟩ ⟨19⟩) ∧
      ¬ (line (List.range 18)).linked.Offers ⟨3⟩ ((line (List.range 18)).hierarchy.constructors ⟨19⟩) := by
  refine ⟨line_sound (by decide), line_bare _, List.mem_map_of_mem (by decide),
    (line_declared 1 (by decide)).1, fun i hi => (line_descends i hi).1, fun h => ?_⟩
  have hparameters := h.parametersOf_eq
  revert hparameters
  decide +kernel

end GraphDraft

end ApiDocs
