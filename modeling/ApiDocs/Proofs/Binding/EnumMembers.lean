import ApiDocs.Proofs.Binding.EnumNotes

/-!
# Members of enums in drafts

Each member of an enum gets a symbol, or is declared again where there is one of its name, and its symbol and value
are noted of the enum. So what an enum exports under the names of its members are the members that were noted of it,
however many declarations it has and whatever is read in between.

## Main results

* `GraphDraft.enumMembers_adds`: members get symbols one after the other, and are noted.
* `GraphDraft.counting`: all that is read preserves what is noted of enums, if nothing else is exported under the
  names of members.
-/

namespace ApiDocs

open TypeScript

namespace GraphDraft

variable {d d' : GraphDraft} {s c m : SymbolId} {N : List String} {b : GraphBuilder}

/-! ## Members one by one -/

theorem membersNoted_withMembers (c : SymbolId) (ms : List (SymbolId × Option Literal)) (s : SymbolId) :
    membersNoted { d with builder := b, enums := withMembers c ms d.enums } s =
      d.membersNoted s ++ if s = c then ms else [] :=
  find?_withMembers c s ms d.enums

/-- One more member is noted of an enum. -/
theorem Enumerated.withNotes (h : d.Enumerated) (hhomed : Homed { d with builder := b })
    (hle : d.builder.Enlarges b) (hflags : b.FlagsMembers)
    (hc : c ∈ d.named.values) (henum : d.builder.IsEnum c) (ms : List (SymbolId × Option Literal))
    (hexported : ∀ {k n y}, (b.exportsOf k).get? n = some y → .enumMember ∈ b.kindsOf y →
      y ∈ (d.membersNoted k ++ if k = c then ms else []).map (·.1))
    (hnamed : ∀ {k n y}, d.named.get? (.symbol k, n) = some y → .enumMember ∈ b.kindsOf y →
      y ∈ (d.membersNoted k ++ if k = c then ms else []).map (·.1))
    (hcount : ∀ y, (d.builder.kindsOf y).count .enumMember + ms.countP (·.1 = y) ≤ (b.kindsOf y).count .enumMember) :
    Enumerated { d with builder := b, enums := withMembers c ms d.enums } where
  homed := hhomed.of_same { hhomed.inside with } rfl fun _ _ => rfl
  flags := hflags
  exported hget hm := by
    rw [membersNoted_withMembers]
    exact hexported hget hm
  named hget hm := by
    rw [membersNoted_withMembers]
    exact hnamed hget hm
  modules m hm := ⟨hle.within (h.modules m hm).1, (h.modules m hm).2⟩
  distinct := by
    rw [map_symbol_withMembers]
    split
    · exact h.distinct
    next hnot => exact h.distinct.append (List.nodup_singleton c) (List.disjoint_singleton.mpr hnot)
  owners k hk := by
    rw [map_symbol_withMembers] at hk
    have hcases : k ∈ d.enums.map (·.symbol) ∨ k = c := by
      split at hk
      · exact .inl hk
      · simpa using hk
    rcases hcases with hk | rfl
    · exact ⟨(h.owners k hk).1, (h.owners k hk).2.mono hle⟩
    · exact ⟨hc, henum.mono hle⟩
  callers x hx := (h.callers x hx).mono hle
  classes x hx := (h.classes x hx).mono hle
  once m := by
    change ((withMembers c ms d.enums).flatMap (·.members)).countP (·.1 = m) ≤ _
    rw [countP_withMembers]
    exact (Nat.add_le_add_right (h.once m) _).trans (hcount m)

variable {name : String} {x : Declaration}

/-- An enum is noted without members. -/
theorem Counted.withNone (h : d.Counted s N) (hc : c ∈ d.named.values) (henum : d.builder.IsEnum c) :
    Counted s N { d with enums := withMembers c [] d.enums } := by
  have hnoted : ∀ k, membersNoted { d with enums := withMembers c [] d.enums } k = d.membersNoted k := fun k => by
    have hmembers := membersNoted_withMembers (d := d) (b := d.builder) c [] k
    simpa using hmembers
  have henumerated := h.enumerated
  refine ⟨henumerated.withNotes (b := d.builder) henumerated.homed (.refl _) henumerated.flags hc henum []
    (fun hget hy => ?_) (fun hget hy => ?_) fun y => by simp, ?_⟩
  · simpa using henumerated.exported hget hy
  · simpa using henumerated.named hget hy
  · exact h.listed.keep (hnoted s) (fun _ _ => rfl) rfl (fun _ _ => id) fun _ _ => rfl

/-- A member that is new is noted. -/
theorem Enumerated.addMember (h : d.Enumerated) (hc : c ∈ d.named.values) (henum : d.builder.IsEnum c)
    (hx : x.kind = .enumMember) (v : Option Literal) :
    Enumerated { d with
      builder := d.builder.addMember c name SymbolFlags.enumMemberBit true x
      enums := withMembers c [(d.builder.next, v)] d.enums } := by
  have hkinds := GraphBuilder.kindsOf_addMember d.builder c name SymbolFlags.enumMemberBit true x
  have hflags := GraphBuilder.flagsOf_addMember d.builder c name SymbolFlags.enumMemberBit true x
  have htables := fun k => GraphBuilder.memberTable_addMember henum.within name SymbolFlags.enumMemberBit true x k true
  have hhomed := h.homed.addMember henum.within name SymbolFlags.enumMemberBit true x
  have hle : d.builder.Enlarges (d.builder.addMember c name SymbolFlags.enumMemberBit true x) :=
    .addMember c name _ true x
  generalize d.builder.addMember c name SymbolFlags.enumMemberBit true x = b at *
  have hold : ∀ {y}, y.Within d.extent → b.kindsOf y = d.builder.kindsOf y := fun hy => by
    rw [hkinds, if_neg (GraphBuilder.ne_next_of_within hy)]
  have hbefore : ∀ {k n y}, (d.builder.exportsOf k).get? n = some y → .enumMember ∈ b.kindsOf y →
      y ∈ (d.membersNoted k).map (·.1) := by
    intro k n y hget hy
    rw [hold (h.homed.inside.builder.within_of_get? hget)] at hy
    exact h.exported hget hy
  refine h.withNotes hhomed hle (fun m => ?_) hc henum [(d.builder.next, v)] (fun {k n y} hget hy => ?_)
    (fun {k n y} hget hy => ?_) fun y => ?_
  · rw [hflags, hkinds]
    split
    · exact iff_of_true (by decide) (by simp [hx])
    · exact h.flags m
  · change (b.memberTable k true).get? n = some y at hget
    rw [htables] at hget
    split at hget
    next hk =>
      rw [Table.get?_insert] at hget
      split at hget
      · obtain rfl := Option.some.inj hget
        simp [hk.1]
      · exact List.map_subset _ (List.subset_append_left _ _) (hbefore hget hy)
    next => exact List.map_subset _ (List.subset_append_left _ _) (hbefore hget hy)
  · rw [hold (h.homed.inside.named y (Table.mem_values_of_get? hget))] at hy
    exact List.map_subset _ (List.subset_append_left _ _) (h.named hget hy)
  · rw [hkinds]
    by_cases hy : y = d.builder.next
    · subst hy
      simp [GraphBuilder.kindsOf_next, hx]
    · simp [hy, Ne.symm hy]

/-- The entry and the note of a new member come behind the others. -/
theorem Listed.addMember (h : d.Listed s N) (henumerated : d.Enumerated) (hs : s.Within d.extent) (hname : name ∈ N)
    (hnone : (d.builder.exportsOf s).get? name = none) (hx : x.kind = .enumMember) (v : Option Literal) :
    Listed s N { d with
      builder := d.builder.addMember s name SymbolFlags.enumMemberBit true x
      enums := withMembers s [(d.builder.next, v)] d.enums } := by
  have hkinds := GraphBuilder.kindsOf_addMember d.builder s name SymbolFlags.enumMemberBit true x
  have hcalled := GraphBuilder.nameOf_addMember d.builder s name SymbolFlags.enumMemberBit true x
  have htable := GraphBuilder.memberTable_addMember hs name SymbolFlags.enumMemberBit true x s true
  have hle : d.builder.Enlarges (d.builder.addMember s name SymbolFlags.enumMemberBit true x) :=
    .addMember s name _ true x
  generalize d.builder.addMember s name SymbolFlags.enumMemberBit true x = b at *
  have hin : ∀ y ∈ d.membersNoted s, y.1.Within d.extent := fun y hy => henumerated.within_of_noted hy
  have hnoted : membersNoted { d with builder := b, enums := withMembers s [(d.builder.next, v)] d.enums } s =
      d.membersNoted s ++ [(d.builder.next, v)] := by rw [membersNoted_withMembers, if_pos rfl]
  have hentries : (b.exportsOf s).entries = (d.builder.exportsOf s).entries ++ [(name, d.builder.next)] := by
    change (b.memberTable s true).entries = _
    rw [htable, if_pos ⟨rfl, rfl⟩, Table.entries_insert_of_notMem]
    · rfl
    · intro hkey
      obtain ⟨m, hm⟩ := Table.mem_keys_iff.mp hkey
      exact Option.some_ne_none _ ((Table.get?_eq_some_iff.mpr hm).symm.trans hnone)
  have hcases : ∀ y ∈ membersNoted { d with builder := b, enums := withMembers s [(d.builder.next, v)] d.enums } s,
      y ∈ d.membersNoted s ∧ b.nameOf y.1 = d.builder.nameOf y.1 ∨ y = (d.builder.next, v) := by
    intro y hy
    rw [hnoted] at hy
    rcases List.mem_append.mp hy with hy | hy
    · exact .inl ⟨hy, hle.names (hin y hy)⟩
    · exact .inr (List.mem_singleton.mp hy)
  refine ⟨?_, fun y hy => ?_, fun y hy => ?_, fun y hy => ?_, fun y hy => ?_⟩
  · change ((b.exportsOf s).entries.filter _).Sublist ((membersNoted _ s).map fun x => (b.nameOf x.1, x.1))
    rw [hnoted, hentries, List.filter_append, List.map_append, henumerated.names_eq hle]
    refine h.entries.append ?_
    simp [hname, hcalled]
  · change (b.exportsOf s).get? (b.nameOf y.1) = some y.1
    rw [Table.get?_eq_some_iff, hentries]
    rcases hcases y hy with ⟨hy, hsame⟩ | rfl
    · rw [hsame]
      exact List.mem_append_left _ (Table.get?_eq_some_iff.mp (h.found y hy))
    · rw [hcalled]
      exact List.mem_append_right _ (List.mem_singleton.mpr rfl)
  · change b.nameOf y.1 ∈ N
    rcases hcases y hy with ⟨hy, hsame⟩ | rfl
    · rw [hsame]
      exact h.names y hy
    · rw [hcalled]
      exact hname
  · rcases hcases y hy with ⟨hy, -⟩ | rfl
    · exact h.unnamed y hy
    · exact fun hvalue => GraphBuilder.ne_next_of_within (henumerated.homed.inside.named _ hvalue) rfl
  · change b.kindsOf y.1 = _
    have hfresh : (d.membersNoted s).countP (·.1 = d.builder.next) = 0 := by
      refine List.countP_eq_zero.mpr fun z hz heq => ?_
      exact GraphBuilder.ne_next_of_within (hin z hz) (by simpa using heq)
    rw [hnoted, List.countP_append, hkinds]
    rcases hcases y hy with ⟨hy, -⟩ | rfl
    · have hne := GraphBuilder.ne_next_of_within (hin y hy)
      rw [if_neg hne, h.kinds y hy]
      simp [Ne.symm hne]
    · rw [if_pos rfl, hfresh, hx]
      simp

/-- A member that is new. -/
theorem Counted.addMember (h : d.Counted s N) (hc : c ∈ d.named.values) (henum : d.builder.IsEnum c)
    (hmay : c = s → name ∈ N) (hnone : (d.builder.exportsOf c).get? name = none) (hx : x.kind = .enumMember)
    (v : Option Literal) :
    Counted s N { d with
      builder := d.builder.addMember c name SymbolFlags.enumMemberBit true x
      enums := withMembers c [(d.builder.next, v)] d.enums } := by
  refine ⟨h.enumerated.addMember hc henum hx v, ?_⟩
  by_cases hs : s = c
  · subst hs
    exact h.listed.addMember h.enumerated henum.within (hmay rfl) hnone hx v
  · -- Members of other enums are no matter.
    have hin : ∀ y ∈ d.membersNoted s, y.1.Within d.extent := fun y hy => h.enumerated.within_of_noted hy
    refine h.listed.keep ?_ (fun y hy => ?_) ?_ (fun _ _ => id) fun y hy => ?_
    · rw [membersNoted_withMembers, if_neg hs, List.append_nil]
    · exact (GraphBuilder.Enlarges.addMember c name SymbolFlags.enumMemberBit true x).names (hin y hy)
    · change (((d.builder.addMember c name _ true x).memberTable s true).entries.filter _) = _
      rw [GraphBuilder.memberTable_addMember henum.within, if_neg fun hplace => hs hplace.1]
      rfl
    · change (d.builder.addMember c name _ true x).kindsOf y.1 = _
      rw [GraphBuilder.kindsOf_addMember, if_neg (GraphBuilder.ne_next_of_within (hin y hy))]

/-- A member that is declared again is noted again. -/
theorem Enumerated.declareMember (h : d.Enumerated) (hc : c ∈ d.named.values) (henum : d.builder.IsEnum c)
    (hget : (d.builder.exportsOf c).get? name = some m) (hx : x.kind = .enumMember) (v : Option Literal) :
    Enumerated { d with
      builder := d.builder.declareAgain m SymbolFlags.enumMemberBit x
      enums := withMembers c [(m, v)] d.enums } := by
  have hm : m.Within d.extent := h.homed.inside.builder.within_of_get? hget
  have hkinds := GraphBuilder.kindsOf_declareAgain hm SymbolFlags.enumMemberBit x
  have hflags := GraphBuilder.flagsOf_declareAgain hm SymbolFlags.enumMemberBit x
  have hexports : ∀ k, (d.builder.declareAgain m SymbolFlags.enumMemberBit x).exportsOf k = d.builder.exportsOf k :=
    fun k => GraphBuilder.memberTable_declareAgain d.builder m SymbolFlags.enumMemberBit x k true
  have hhomed := h.homed.declareAgain m SymbolFlags.enumMemberBit x
  have hle : d.builder.Enlarges (d.builder.declareAgain m SymbolFlags.enumMemberBit x) := .declareAgain m _ x
  generalize d.builder.declareAgain m SymbolFlags.enumMemberBit x = b at *
  refine h.withNotes hhomed hle (fun y => ?_) hc henum [(m, v)] (fun {k n y} hget' hy => ?_)
    (fun {k n y} hget' hy => ?_) fun y => ?_
  · rw [hflags, hkinds]
    split
    · exact iff_of_true (FlagSet.has_union_self _ _) (by simp [hx])
    · exact h.flags y
  · rw [hexports] at hget'
    by_cases hym : y = m
    · -- It is exported from the enum alone.
      subst hym
      simp [h.homed.exports_unique hget' hget]
    · rw [hkinds, if_neg hym] at hy
      exact List.map_subset _ (List.subset_append_left _ _) (h.exported hget' hy)
  · by_cases hym : y = m
    · subst hym
      simp [Container.symbol.inj (h.homed.exports_named hget' hget)]
    · rw [hkinds, if_neg hym] at hy
      exact List.map_subset _ (List.subset_append_left _ _) (h.named hget' hy)
  · rw [hkinds]
    by_cases hy : y = m
    · subst hy
      simp [hx]
    · simp [hy, Ne.symm hy]

/-- Under a name of a member there is a member that was noted. -/
theorem Listed.exists_noted (h : d.Listed s N) (hget : (d.builder.exportsOf s).get? name = some m) (hname : name ∈ N) :
    ∃ v, (m, v) ∈ d.membersNoted s ∧ d.builder.nameOf m = name := by
  have hentry : (name, m) ∈ (d.builder.exportsOf s).entries.filter fun e => e.1 ∈ N :=
    List.mem_filter.mpr ⟨Table.get?_eq_some_iff.mp hget, by simpa using hname⟩
  obtain ⟨⟨m', v⟩, hmem, heq⟩ := List.mem_map.mp (h.entries.subset hentry)
  obtain ⟨hcalled, rfl⟩ := Prod.mk.inj heq
  exact ⟨v, hmem, hcalled⟩

/-- A member that was there. -/
theorem Counted.declareMember (h : d.Counted s N) (hc : c ∈ d.named.values) (henum : d.builder.IsEnum c)
    (hmay : c = s → name ∈ N) (hget : (d.builder.exportsOf c).get? name = some m) (hx : x.kind = .enumMember)
    (v : Option Literal) :
    Counted s N { d with
      builder := d.builder.declareAgain m SymbolFlags.enumMemberBit x
      enums := withMembers c [(m, v)] d.enums } ∧ (c = s → d.builder.nameOf m = name) := by
  have hnotedBefore : c = s → ∃ v₀, (m, v₀) ∈ d.membersNoted s ∧ d.builder.nameOf m = name := by
    rintro rfl
    exact h.listed.exists_noted hget (hmay rfl)
  refine ⟨⟨h.enumerated.declareMember hc henum hget hx v, ?_⟩, fun hs => (hnotedBefore hs).choose_spec.2⟩
  obtain ⟨henumerated, hlisted⟩ := h
  have hm : m.Within d.extent := henumerated.homed.inside.builder.within_of_get? hget
  have hkinds := GraphBuilder.kindsOf_declareAgain hm SymbolFlags.enumMemberBit x
  have hexports : ∀ k, (d.builder.declareAgain m SymbolFlags.enumMemberBit x).exportsOf k = d.builder.exportsOf k :=
    fun k => GraphBuilder.memberTable_declareAgain d.builder m SymbolFlags.enumMemberBit x k true
  have hle : d.builder.Enlarges (d.builder.declareAgain m SymbolFlags.enumMemberBit x) := .declareAgain m _ x
  generalize d.builder.declareAgain m SymbolFlags.enumMemberBit x = b at *
  -- No symbol is noted that was not noted before.
  have hcases : ∀ y ∈ membersNoted { d with builder := b, enums := withMembers c [(m, v)] d.enums } s,
      ∃ y₀ ∈ d.membersNoted s, y₀.1 = y.1 ∧ b.nameOf y.1 = d.builder.nameOf y₀.1 := by
    intro y hy
    have hold : ∃ y₀ ∈ d.membersNoted s, y₀.1 = y.1 := by
      rw [membersNoted_withMembers] at hy
      rcases List.mem_append.mp hy with hy | hy
      · exact ⟨y, hy, rfl⟩
      · split at hy
        next hs =>
          obtain ⟨v₀, hmem, -⟩ := hnotedBefore hs.symm
          exact ⟨(m, v₀), hmem, by rw [List.mem_singleton.mp hy]⟩
        next => cases hy
    obtain ⟨y₀, hy₀, heq⟩ := hold
    exact ⟨y₀, hy₀, heq, by rw [← heq, hle.names (henumerated.within_of_noted hy₀)]⟩
  refine ⟨?_, fun y hy => ?_, fun y hy => ?_, fun y hy => ?_, fun y hy => ?_⟩
  · change ((b.exportsOf s).entries.filter _).Sublist ((membersNoted _ s).map fun x => (b.nameOf x.1, x.1))
    rw [membersNoted_withMembers, hexports, List.map_append, henumerated.names_eq hle]
    exact hlisted.entries.trans (List.sublist_append_left _ _)
  · obtain ⟨y₀, hy₀, heq, hname⟩ := hcases y hy
    change (b.exportsOf s).get? (b.nameOf y.1) = some y.1
    rw [hexports, hname, ← heq]
    exact hlisted.found y₀ hy₀
  · obtain ⟨y₀, hy₀, -, hname⟩ := hcases y hy
    change b.nameOf y.1 ∈ N
    rw [hname]
    exact hlisted.names y₀ hy₀
  · obtain ⟨y₀, hy₀, heq, -⟩ := hcases y hy
    rw [← heq]
    exact hlisted.unnamed y₀ hy₀
  · obtain ⟨y₀, hy₀, heq, -⟩ := hcases y hy
    change b.kindsOf y.1 = _
    rw [← heq, hkinds, membersNoted_withMembers, List.countP_append]
    split
    next hym =>
      have hs : s = c := by
        have hfound := hlisted.found y₀ hy₀
        rw [hym] at hfound
        exact henumerated.homed.exports_unique hfound hget
      have hold := hlisted.kinds y₀ hy₀
      rw [hym] at hold
      simp [hs, hym, hold, hx, List.replicate_succ']
    next hym =>
      rw [hlisted.kinds y₀ hy₀]
      split <;> simp [Ne.symm hym]

end GraphDraft

/-- The names and values of the members of an enum that have names, given the value of a first one without an
initializer. -/
def namedValues (next : Option Binary64) : List EnumMemberTree → List (String × Option Literal)
  | [] => []
  | m :: rest =>
    match m.name with
    | none => namedValues next rest
    | some name => (name, Site.memberValue? next m) :: namedValues (Site.nextValue? (Site.memberValue? next m)) rest

namespace GraphDraft

variable {d d' : GraphDraft} {s c : SymbolId} {pending : List (SymbolId × Option Literal)} {N : List String}

/-- Only the graph grows. -/
def building : Growth GraphDraft where
  Good _ := True
  Le d d' := d.builder.Enlarges d'.builder ∧ d' = { d with builder := d'.builder }
  refl d := ⟨.refl _, rfl⟩
  trans := by
    rintro d d' d'' ⟨hle, h⟩ ⟨hle', h'⟩
    refine ⟨hle.trans hle', ?_⟩
    rw [h', h]

/-- The symbol of a member is found or made, and declared. -/
def enumMember (site : Site) (enum : SymbolId) (m : EnumMemberTree) (name : String) : Drafting SymbolId := do
  let symbol ← bindMember enum name SymbolFlags.enumMemberBit true
  discard (site.declare symbol .enumMember m.span .none)
  attachDoc symbol (site.docAt m.span.start).summaryText
  return symbol

/-- A member has its symbol, and is counted. -/
structure MemberAdded (s : SymbolId) (N : List String) (c : SymbolId) (pending : List (SymbolId × Option Literal))
    (name : String) (member : SymbolId) (d : GraphDraft) : Prop where
  counted : ∀ v, Counted s N { d with enums := withMembers c (pending ++ [(member, v)]) d.enums }
  within : member.Within d.extent
  name : c = s → d.builder.nameOf member = name

theorem enumMember_adds (hnamed : c ∈ d.named.values) (henum : d.builder.IsEnum c)
    (h : Counted s N { d with enums := withMembers c pending d.enums }) (site : Site) (m : EnumMemberTree)
    {name : String} (hmay : c = s → name ∈ N) :
    building.Runs (enumMember site c m name) d fun member d' => MemberAdded s N c pending name member d' := by
  refine Growth.runs_of_completes (bindMember_binds d c name SymbolFlags.enumMemberBit true)
    fun member d₁ hbinds => ?_
  have hdeclared : building.Completes d (site.declare member .enumMember m.span .none) d₁ fun _ d₂ =>
      MemberAdded s N c pending name member d₂ := by
    let x : Declaration := { kind := .enumMember, pos := site.pos m.span, modifiers := .none }
    cases hbinds with
    | again hget hd₁ =>
      subst hd₁
      have hmember := h.enumerated.homed.inside.builder.within_of_get? hget
      have hle : d.builder.Enlarges (d.builder.declareAgain member SymbolFlags.enumMemberBit x) :=
        .declareAgain member _ x
      refine ⟨trivial, ⟨hle, rfl⟩, fun v => ?_, hle.within hmember, fun hc => ?_⟩
      · rw [withMembers_append]
        exact (h.declareMember hnamed henum hmay hget (show x.kind = .enumMember from rfl) v).1
      · exact (hle.names hmember).trans
          ((h.declareMember hnamed henum hmay hget (show x.kind = .enumMember from rfl) none).2 hc)
    | new hget hmember hd₁ =>
      subst hmember hd₁
      have hle : d.builder.Enlarges (d.builder.addMember c name SymbolFlags.enumMemberBit true x) :=
        .addMember c name _ true x
      refine ⟨trivial, ⟨hle, rfl⟩, fun v => ?_, GraphBuilder.next_within_addMember _ c name _ true x, fun _ => ?_⟩
      · rw [withMembers_append]
        exact h.addMember hnamed henum hmay hget (show x.kind = .enumMember from rfl) v
      · exact GraphBuilder.nameOf_addMember d.builder c name SymbolFlags.enumMemberBit true x
  refine hdeclared.discard.bind fun _ d₂ hd₂ hle₂ hadded => ?_
  have hdoc : ∀ doc, building.Runs (attachDoc member doc) d₂ fun _ d₃ =>
      MemberAdded s N c pending name member d₃ := by
    intro doc
    unfold attachDoc
    refine Growth.runs_get ?_
    split
    · have hle : d₂.builder.Enlarges (d₂.builder.setDoc member doc) :=
        .modifyAside (fun _ => rfl) (fun _ => rfl) fun _ => rfl
      refine ⟨trivial, ⟨hle, rfl⟩, fun v => ?_, hle.within hadded.within, fun hc => ?_⟩
      · exact (hadded.counted v).declares (.setDoc (hadded.counted v).enumerated.homed member doc)
      · exact (hle.names hadded.within).trans (hadded.name hc)
    · exact Growth.runs_pure trivial hadded
  exact (hdoc _).bind fun _ d₃ hd₃ _ h => Growth.runs_pure hd₃ h

/-- What is noted of members: their values, and for the enum that is counted, symbols of their names. -/
def Stands (b : GraphBuilder) (known : Prop) (m : String × Option Literal) (x : SymbolId × Option Literal) : Prop :=
  x.2 = m.2 ∧ x.1.Within b.extent ∧ (known → b.nameOf x.1 = m.1)

theorem Stands.mono {b b' : GraphBuilder} {known : Prop} {m : String × Option Literal}
    {x : SymbolId × Option Literal} (h : Stands b known m x) (hle : b.Enlarges b') : Stands b' known m x := by
  obtain ⟨hvalue, hin, hname⟩ := h
  refine ⟨hvalue, hle.within hin, fun hknown => ?_⟩
  rw [hle.names hin]
  exact hname hknown

/-- **The members of an enum** get symbols one after the other, and what is noted of them are their values. -/
theorem enumMembers_adds {members : List EnumMemberTree} (site : Site) (next : Option Binary64)
    (hnamed : c ∈ d.named.values) (henum : d.builder.IsEnum c)
    (hmay : ∀ m ∈ members, ∀ n ∈ m.name, c = s → n ∈ N)
    (h : Counted s N { d with enums := withMembers c pending d.enums }) :
    building.Runs (site.enumMembers c next members) d fun ms d' =>
      Counted s N { d' with enums := withMembers c (pending ++ ms) d'.enums } ∧
        List.Forall₂ (Stands d'.builder (c = s)) (namedValues next members) ms := by
  induction members generalizing d next pending with
  | nil => exact Growth.runs_pure trivial ⟨by simpa using h, .nil⟩
  | cons m rest ih =>
    have hrest : ∀ m' ∈ rest, ∀ n ∈ m'.name, c = s → n ∈ N := fun m' hm' => hmay m' (List.mem_cons_of_mem _ hm')
    cases hname : m.name with
    | none =>
      rw [Site.enumMembers, namedValues, hname]
      exact ih next hnamed henum hrest h
    | some name =>
      rw [Site.enumMembers, namedValues, hname]
      let value := Site.memberValue? next m
      change building.Runs (enumMember site c m name >>= fun symbol => do
        return (symbol, value) :: (← site.enumMembers c (Site.nextValue? value) rest)) d _
      refine (enumMember_adds hnamed henum h site m (hmay m (List.mem_cons_self ..) name hname)).bind
        fun member d₁ _ ⟨hle, hbuilt⟩ hadded => ?_
      obtain ⟨b, rfl⟩ : ∃ b, d₁ = { d with builder := b } := ⟨_, hbuilt⟩
      have hrun := @ih { d with builder := b } _ (Site.nextValue? value) hnamed (henum.mono hle) hrest
        (hadded.counted value)
      refine hrun.bind
        fun ms d₂ hd₂ hle₂ ⟨hcounted, hstand⟩ => Growth.runs_pure hd₂ ⟨?_, .cons ?_ hstand⟩
      · rw [List.append_assoc] at hcounted
        exact hcounted
      · exact Stands.mono ⟨rfl, hadded.within, hadded.name⟩ hle₂.1

/-- The members of an enum get symbols and are noted. -/
def enumBody (site : Site) (next : Option Binary64) (members : List EnumMemberTree) (enum : SymbolId) :
    Drafting Unit := do
  noteEnum enum (← site.enumMembers enum next members)

theorem enumBody_adds (h : d.Counted s N) (hnamed : c ∈ d.named.values) (henum : d.builder.IsEnum c) (site : Site)
    (next : Option Binary64) {members : List EnumMemberTree} (hmay : ∀ m ∈ members, ∀ n ∈ m.name, c = s → n ∈ N) :
    (enumBody site next members c d).2.Counted s N ∧ ∃ b ms, d.builder.Enlarges b ∧
      (enumBody site next members c d).2 = { d with builder := b, enums := withMembers c ms d.enums } ∧
      List.Forall₂ (Stands b (c = s)) (namedValues next members) ms := by
  have hbegun : Counted s N { d with enums := withMembers c [] d.enums } := h.withNone hnamed henum
  obtain ⟨-, ⟨hle, hbuilt⟩, hcounted, hstand⟩ := enumMembers_adds site next hnamed henum hmay hbegun
  generalize hrun : site.enumMembers c next members d = run at *
  obtain ⟨ms, d₁⟩ := run
  obtain ⟨b, rfl⟩ : ∃ b, d₁ = { d with builder := b } := ⟨_, hbuilt⟩
  have hbody : (enumBody site next members c d).2 = { d with builder := b, enums := withMembers c ms d.enums } := by
    have hnote : (enumBody site next members c d).2 = (noteEnum c ms { d with builder := b }).2 := by
      change (noteEnum c (site.enumMembers c next members d).1 (site.enumMembers c next members d).2).2 = _
      rw [hrun]
    exact hnote.trans (noteEnum_eq (d := { d with builder := b }) h.enumerated.distinct c ms)
  refine ⟨?_, b, ms, hle, hbody, hstand⟩
  rw [hbody]
  exact hcounted

/-! ## Declarations one by one -/

theorem Counted.alike (h : d.Counted s N) (halike : d.Alike d') : d'.Counted s N := by
  have hhomed := h.enumerated.homed.alike halike
  obtain ⟨hbuilder, hmodules, hnamed, -, -, hsignatures, -, henums, hclasses, -⟩ := halike
  have hnoted : ∀ s, d'.membersNoted s = d.membersNoted s := fun s => by
    rw [membersNoted, henums, membersNoted]
  have hextent : d'.extent = d.extent := by
    rw [extent, hbuilder, extent]
  obtain ⟨henumerated, hlisted⟩ := h
  refine ⟨⟨hhomed, ?_, ?_, ?_, ?_, ?_, ?_, ?_, ?_, ?_⟩, ?_⟩
  · rw [hbuilder]
    exact henumerated.flags
  · simp only [hbuilder, hnoted]
    exact henumerated.exported
  · simp only [hbuilder, hnoted, hnamed]
    exact henumerated.named
  · rw [hmodules, hnamed, hextent]
    exact henumerated.modules
  · rw [henums]
    exact henumerated.distinct
  · rw [henums, hnamed, hbuilder]
    exact henumerated.owners
  · rw [hsignatures, hbuilder]
    exact henumerated.callers
  · rw [hclasses, hbuilder]
    exact henumerated.classes
  · rw [henums, hbuilder]
    exact henumerated.once
  · refine hlisted.keep (hnoted s) (fun _ _ => ?_) ?_ (fun _ _ => ?_) fun _ _ => ?_
    · rw [hbuilder]
    · rw [hbuilder]
    · rw [hnamed]
      exact id
    · rw [hbuilder]

/-- What is no matter of members preserves this. -/
theorem Counted.noted (h : d.Counted s N) (hbuilder : d'.builder = d.builder) (hmodules : d'.modules = d.modules)
    (hnamed : d'.named = d.named) (henums : d'.enums = d.enums)
    (hcallers : ∀ x ∈ d'.signatures, d.builder.IsDeclared x.owner.symbol)
    (hclasses : ∀ x ∈ d'.classes, d.builder.IsDeclared x.symbol) : d'.Counted s N := by
  obtain ⟨b, modules, locals, named, globals, types, aliases, signatures, indexes, enums, heritage, classes, links,
    stars, scope⟩ := d'
  subst hbuilder hmodules hnamed henums
  obtain ⟨henumerated, hlisted⟩ := h
  have hhomed := henumerated.homed
  exact ⟨{ henumerated with
    homed := hhomed.of_same { hhomed.inside with } rfl fun _ _ => rfl
    callers := hcallers
    classes := hclasses }, { hlisted with }⟩

/-- Declarations and notes preserve this, if nothing else is exported under the names of members. -/
def counting (s : SymbolId) (N : List String) : Rule where
  Inv := Counted s N
  Open d m := m.Within d.extent ∧ d.builder.IsDeclared m
  May c n := c = s → n ∉ N
  MayCount c n := c = s → n ∈ N
  open_mono hle hm := ⟨hle.within hm.1, hm.2.mono hle⟩
  alike halike h := h.alike halike
  fresh {d} name flags x h hx := by
    refine ⟨h.declares (.addDeclared h.enumerated.homed name hx),
      GraphBuilder.next_within_addDeclared _ name flags x, ?_⟩
    exact ⟨x.kind, by simp [GraphBuilder.kindsOf_addDeclared], hx.kind⟩
  named {d} container name flags x h hx hnone := by
    refine ⟨h.declares (.named' h.enumerated.homed (container, name) name hx hnone),
      GraphBuilder.next_within_addDeclared _ name flags x, ?_⟩
    exact ⟨x.kind, by simp [GraphBuilder.kindsOf_addDeclared], hx.kind⟩
  again {d} container name m flags x h hx hget hm := by
    refine ⟨h.declares (.declareAgain h.enumerated.homed hm hx fun _ _ => Table.mem_values_of_get? hget),
      (GraphBuilder.Enlarges.declareAgain m flags x).within hm, ?_⟩
    exact ⟨x.kind, by simp [GraphBuilder.kindsOf_declareAgain hm], hx.kind⟩
  member {d} owner name flags isStatic x h howner hx hmay _ := by
    refine ⟨h.declares (.addMember h.enumerated.homed howner.1 hx hmay),
      GraphBuilder.next_within_addMember _ owner name flags isStatic x, ?_⟩
    exact ⟨x.kind, by simp [GraphBuilder.kindsOf_addMember], hx.kind⟩
  memberAgain {d} owner name m flags isStatic x h _ hx hmay hget hm := by
    refine ⟨h.declares (.declareAgain h.enumerated.homed hm hx fun {n} hfound hn => ?_),
      (GraphBuilder.Enlarges.declareAgain m flags x).within hm, ?_⟩
    · have hlisted : (d.builder.memberTable s true).get? n = some m := hfound
      obtain ⟨rfl, hstatic, hname | hvalue⟩ := h.enumerated.homed.tables hlisted hget
      · exact absurd (hname ▸ hn) (hmay hstatic.symm rfl)
      · exact hvalue
    · exact ⟨x.kind, by simp [GraphBuilder.kindsOf_declareAgain hm], hx.kind⟩
  documented doc h _ := h.declares (.setDoc h.enumerated.homed _ doc)
  exported container name h hm hbelongs hmay := h.declares (.exportAs h.enumerated.homed hm.1 hbelongs hmay)
  typed h _ _ := h.noted rfl rfl rfl rfl h.enumerated.callers h.enumerated.classes
  aliased _ _ h _ := h.noted rfl rfl rfl rfl h.enumerated.callers h.enumerated.classes
  signed x h howner _ := h.noted rfl rfl rfl rfl
    (List.forall_mem_append.mpr ⟨h.enumerated.callers, List.forall_mem_singleton.mpr howner.2⟩) h.enumerated.classes
  indexed _ h _ _ _ _ _ := h.noted rfl rfl rfl rfl h.enumerated.callers h.enumerated.classes
  classed x h hm := h.noted rfl rfl rfl rfl h.enumerated.callers
    (List.forall_mem_append.mpr ⟨h.enumerated.classes, List.forall_mem_singleton.mpr hm.2⟩)
  linked _ h _ := h.noted rfl rfl rfl rfl h.enumerated.callers h.enumerated.classes

theorem counting_enumerates (s : SymbolId) (N : List String) : (counting s N).Enumerates := by
  intro d c site next members hd hs hnamed hflags hmay
  obtain ⟨hcounted, b, ms, hle, hbody, -⟩ := enumBody_adds hd.2 hnamed ⟨hs.1, hs.2.2, hflags⟩ site next hmay
  refine ⟨⟨hcounted.enumerated.homed.inside, hcounted⟩, ?_, trivial⟩
  change d.builder.Enlarges (enumBody site next members c d).2.builder
  rw [hbody]
  exact hle

theorem counting_addsFiles (s : SymbolId) (N : List String) : (counting s N).AddsFiles where
  script {d} path h := by
    have hhomed := h.2.enumerated.homed
    exact h.2.declares (.of_same (hhomed.addScript path) (.addScript path) (fun _ => rfl) (fun _ hm => hm) (fun _ => rfl) fun _ _ _ => rfl)
  newModule {d} path h := by
    have hhomed := h.2.enumerated.homed
    have hle : d.builder.Enlarges (d.builder.addModule path).2 := .addModule path
    have hkinds : ∀ m, (d.builder.addModule path).2.kindsOf m = d.builder.kindsOf m :=
      GraphBuilder.kindsOf_addSymbol d.builder _ _
    have htables : ∀ c isStatic, (d.builder.addModule path).2.memberTable c isStatic =
        d.builder.memberTable c isStatic := GraphBuilder.memberTable_addSymbol d.builder _ _
    have hflags : ∀ m, (d.builder.addModule path).2.flagsOf m =
        if m = d.builder.next then SymbolFlags.moduleBit else d.builder.flagsOf m :=
      GraphBuilder.flagsOf_addSymbol d.builder _ _
    have hadded := hhomed.addModule path
    have hcounted : Counted s N { d with builder := (d.builder.addModule path).2 } :=
      h.2.declares (.of_same hadded hle (fun m => ?_) (fun m hm => by rwa [hkinds] at hm) (fun c => htables c true)
        fun _ _ _ => hkinds _)
    · refine ⟨{ hcounted.enumerated with
        homed := hadded.of_same { hadded.inside with } rfl fun _ _ => rfl
        modules := Table.forall_values_insert hcounted.enumerated.modules ?_ }, { hcounted.listed with }⟩
      refine ⟨GraphBuilder.next_within_addSymbol d.builder _ _, fun hm => ?_⟩
      exact GraphBuilder.ne_next_of_within (hhomed.inside.named _ hm) rfl
    · rw [hflags]
      split
      next heq =>
        subst heq
        rw [GraphBuilder.flagsOf, GraphBuilder.symbol?_next]
        rfl
      next => rfl

theorem start_counted (s : SymbolId) (N : List String) : start.Counted s N := by
  have hkinds : ∀ m, .enumMember ∉ start.builder.kindsOf m := by
    rintro ⟨_ | n⟩ hm
    · exact DeclarationKind.noConfusion (List.mem_singleton.mp hm)
    · exact List.not_mem_nil hm
  have hflags : ∀ m, (start.builder.flagsOf m).has SymbolFlags.enumMemberBit = false := by
    rintro ⟨_ | n⟩
    · rfl
    · exact (by decide : (.none : SymbolFlags).has SymbolFlags.enumMemberBit = false)
  refine ⟨?_, ?_⟩
  · exact {
      homed := start_homed
      flags := fun m => iff_of_false (by simp [hflags]) (hkinds m)
      exported := fun _ hm => absurd hm (hkinds _)
      named := fun hk => nomatch hk
      modules := fun _ hm => nomatch hm
      distinct := List.nodup_nil
      owners := fun _ hs => nomatch hs
      callers := fun _ hx => nomatch hx
      classes := fun _ hx => nomatch hx
      once := fun _ => Nat.zero_le _ }
  · exact {
      entries := by
        change ((start.builder.memberTable s true).entries.filter _).Sublist _
        rw [memberTable_start]
        exact List.nil_sublist _
      found := fun _ hx => nomatch hx
      names := fun _ hx => nomatch hx
      unnamed := fun _ hx => nomatch hx
      kinds := fun _ hx => nomatch hx }

end GraphDraft

end ApiDocs
