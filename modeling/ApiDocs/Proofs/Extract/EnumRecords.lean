import ApiDocs.Proofs.Binding.EnumValues
import ApiDocs.Proofs.Extract.LinkedSymbols

/-!
# Records of enums

What is documented of an enum are the members that were noted of it: linking exports nothing from it that is
flagged as a member, and each of its members keeps the type of its value.

## Main results

* `GraphDraft.Counted.linked_members`: what a linked enum exports as members are the members that were noted.
* `SymbolGraph.extract_countsMembers`: records of enums have the members of their declarations, which are counted up.
* `SymbolGraph.computedName_uncounted`: a member with a computed name is left out of the count.
-/

namespace ApiDocs

open TypeScript

namespace GraphDraft

variable {d : GraphDraft} {s m : SymbolId} {N : List String}

/-! ## Members of enums in drafts -/

/-- The names under which members were noted. -/
def notedNames (d : GraphDraft) (s : SymbolId) : List String := (d.membersNoted s).map fun x => d.builder.nameOf x.1

theorem nodup_of_notedNames (h : (d.notedNames s).Nodup) : ((d.membersNoted s).map (·.1)).Nodup := by
  refine List.Nodup.of_map d.builder.nameOf ?_
  rw [List.map_map]
  exact h

/-- What is exported under the names of members are all members. -/
theorem Listed.entries_eq (h : d.Listed s N) (hnodup : (d.notedNames s).Nodup) :
    ((d.builder.exportsOf s).entries.filter fun e => e.1 ∈ N) =
      (d.membersNoted s).map fun x => (d.builder.nameOf x.1, x.1) := by
  refine h.entries.eq_of_length_le (List.Subperm.length_le (List.subperm_of_subset ?_ fun e he => ?_))
  · refine List.Nodup.of_map Prod.fst ?_
    rw [List.map_map]
    exact hnodup
  · obtain ⟨x, hx, rfl⟩ := List.mem_map.mp he
    exact List.mem_filter.mpr ⟨Table.get?_eq_some_iff.mp (h.found x hx), by simpa using h.names x hx⟩

/-- A member is declared as one. -/
theorem Listed.mem_kinds (h : d.Listed s N) {x : SymbolId × Option Literal} (hx : x ∈ d.membersNoted s) :
    .enumMember ∈ d.builder.kindsOf x.1 := by
  have hpos : 0 < (d.membersNoted s).countP (·.1 = x.1) := List.countP_pos_iff.mpr ⟨x, hx, by simp⟩
  rw [h.kinds x hx]
  exact List.mem_replicate.mpr ⟨hpos.ne', rfl⟩

/-- What is exported is a member just if it is exported under the name of one. -/
theorem Counted.flagged_iff (h : d.Counted s N) {e : String × SymbolId} (he : e ∈ (d.builder.exportsOf s).entries) :
    (d.builder.flagsOf e.2).has SymbolFlags.enumMemberBit = true ↔ e.1 ∈ N := by
  have hget := Table.get?_eq_some_iff.mpr he
  constructor
  · intro hflag
    have hnoted := h.enumerated.exported hget ((h.enumerated.flags e.2).mp hflag)
    obtain ⟨x, hx, heq⟩ := List.mem_map.mp hnoted
    -- It has no name, so it is exported under one name only.
    obtain ⟨-, -, hname | hvalue⟩ := h.enumerated.homed.tables
      (show (d.builder.memberTable s true).get? e.1 = some e.2 from hget)
      (show (d.builder.memberTable s true).get? (d.builder.nameOf x.1) = some e.2 from heq ▸ h.listed.found x hx)
    · rw [hname]
      exact h.listed.names x hx
    · exact absurd (heq ▸ hvalue) (h.listed.unnamed x hx)
  · intro hn
    have hentry := h.listed.entries.subset (List.mem_filter.mpr ⟨he, by simpa using hn⟩)
    obtain ⟨x, hx, rfl⟩ := List.mem_map.mp hentry
    exact (h.enumerated.flags _).mpr (h.listed.mem_kinds hx)

/-! ## Members of enums that are linked -/

/-- What a module exports is no member of an enum. -/
theorem Enumerated.not_flagged (h : d.Enumerated) {t : SymbolId} (ht : t ∈ d.modules.values)
    {e : String × SymbolId} (he : e ∈ (d.builder.exportsOf t).entries) :
    (d.builder.flagsOf e.2).has SymbolFlags.enumMemberBit = false := by
  refine Bool.eq_false_iff.mpr fun hflag => ?_
  have hnoted := h.exported (Table.get?_eq_some_iff.mpr he) ((h.flags e.2).mp hflag)
  obtain ⟨x, hx, -⟩ := List.mem_map.mp hnoted
  obtain ⟨y, hy, rfl, -⟩ := mem_of_membersNoted hx
  exact (h.modules y.symbol ht).2 (h.owners y.symbol (List.mem_map_of_mem hy)).1

/-- **What a linked enum exports as members** are the members that were noted. -/
theorem Counted.linked_members (hd : d.Sound) (hu : d.Untyped) (h : d.Counted s N) (hnodup : (d.notedNames s).Nodup) :
    ((d.linked.builder.exportsOf s).values.filter fun m =>
        (d.linked.builder.flagsOf m).has SymbolFlags.enumMemberBit) = (d.membersNoted s).map (·.1) := by
  have htouches := linked_touches hd hu
  have hflag : ∀ {c e}, e ∈ (d.builder.exportsOf c).entries →
      (d.linked.builder.flagsOf e.2).has SymbolFlags.enumMemberBit =
        (d.builder.flagsOf e.2).has SymbolFlags.enumMemberBit := fun he =>
    htouches.has_flag (h.enumerated.homed.inside.builder.within_of_get? (Table.get?_eq_some_iff.mpr he)) (by decide)
  obtain ⟨new, hnew, hmodules⟩ := linked_exportsOf hd hu s
  have hown : ((d.builder.exportsOf s).entries.filter fun e =>
      (d.linked.builder.flagsOf e.2).has SymbolFlags.enumMemberBit) =
        (d.builder.exportsOf s).entries.filter fun e => e.1 ∈ N := by
    refine List.filter_congr fun e he => ?_
    rw [hflag he, Bool.eq_iff_iff, decide_eq_true_iff]
    exact h.flagged_iff he
  have hnone : (new.filter fun e => (d.linked.builder.flagsOf e.2).has SymbolFlags.enumMemberBit) = [] := by
    refine List.filter_eq_nil_iff.mpr fun e he => ?_
    obtain ⟨t, ht, het⟩ := hmodules e he
    simp [hflag het, h.enumerated.not_flagged ht het]
  change (((d.linked.builder.exportsOf s).entries.map Prod.snd).filter _) = _
  rw [List.filter_map, hnew, List.filter_append]
  change ((d.builder.exportsOf s).entries.filter (fun e => (d.linked.builder.flagsOf e.2).has _) ++
    new.filter (fun e => (d.linked.builder.flagsOf e.2).has _)).map Prod.snd = _
  rw [hown, hnone, List.append_nil, h.listed.entries_eq hnodup, List.map_map]
  rfl

/-- A member that is noted once is declared so, and nothing else gives it a type. -/
theorem Counted.linked_memberType (hd : d.Sound) (hu : d.Untyped) (h : d.Counted s N)
    (hnodup : (d.notedNames s).Nodup) {x : SymbolId × Option Literal} (hx : x ∈ d.membersNoted s) :
    d.builder.kindsOf x.1 = [.enumMember] ∧ d.linked.HasMemberType x.1 x.2 := by
  have hcount : (d.membersNoted s).countP (·.1 = x.1) = 1 := by
    have hone := List.count_eq_one_of_mem (nodup_of_notedNames hnodup) (List.mem_map_of_mem hx)
    rw [List.count, List.countP_map] at hone
    refine (List.countP_congr fun y _ => ?_).trans hone
    simp
  have hkinds := h.listed.kinds x hx
  rw [hcount] at hkinds
  have hsole : ¬ d.builder.IsDeclared x.1 := by
    rintro ⟨k, hk, hne⟩
    rw [hkinds] at hk
    exact hne (List.mem_singleton.mp hk)
  refine ⟨hkinds, linked_hasMemberType hd hu (fun e he heq => ?_) ?_ ?_⟩
  · exact hsole (heq ▸ (h.enumerated.owners e.symbol (List.mem_map_of_mem he)).2.declared)
  · -- All enums together note it at most as often as it is declared.
    obtain ⟨e, he, -, hmem⟩ := mem_of_membersNoted hx
    have hfound : x ∈ (d.enums.flatMap (·.members)).filter (·.1 = x.1) :=
      List.mem_filter.mpr ⟨List.mem_flatMap.mpr ⟨e, he, hmem⟩, by simp⟩
    have hlength : ((d.enums.flatMap (·.members)).filter (·.1 = x.1)).length ≤ 1 := by
      rw [← List.countP_eq_length_filter]
      simpa [hkinds] using h.enumerated.once x.1
    obtain ⟨y, hy⟩ := List.length_eq_one_iff.mp (hlength.antisymm (List.length_pos_of_mem hfound))
    rw [hy] at hfound ⊢
    rw [List.mem_singleton.mp hfound]
  · rintro (⟨y, hy, howner⟩ | ⟨y, hy, howner⟩)
    · have hcaller := h.enumerated.callers y hy
      rw [howner] at hcaller
      exact hsole hcaller
    · exact hsole (howner ▸ h.enumerated.classes y hy)

end GraphDraft

/-! ## Records of members -/

namespace Linking

variable {l : Linking} {s : SymbolId} {v : Option Literal} {refs : RefTable SymbolId}

/-- The value that is documented of a type of a member is that of the member. -/
theorem IsMemberType.literalValue_eq {t : TypeId} {type : TypeDoc} (h : IsMemberType v t l)
    (hdescribed : l.builder.graph.Described refs describedLevels t type) :
    Walk.literalValue (some type) (l.builder.graph.type? t) = v := by
  obtain ⟨x, hx, hnode⟩ := h
  have hshows := Linking.shows_of_described hx hdescribed
  cases v with
  | some v =>
    rw [show x.shape = .enumLiteral (primitiveOf v) v from hnode] at hshows
    rw [show type = .literal (primitiveOf v) v from hshows]
    rfl
  | none =>
    rw [show x = numberNode from hnode] at hx hshows
    have hname : type = .name "number" := hshows
    obtain ⟨y, hy, hcore⟩ := Option.map_eq_some_iff.mp hx
    have hflags : y.flags = TypeFlags.numberBit := congrArg (·.flags) hcore
    have hmeets : TypeFlags.numberBit.meets (TypeFlags.stringLiteralBit ∪ TypeFlags.numberLiteralBit) = false := by
      decide
    rw [hname, hy]
    simp [Walk.literalValue, hflags, hmeets]

/-- **The record of a member** has its name and its value. -/
theorem HasMemberType.record {doc : IdentifierDoc} (h : l.HasMemberType s v) (hs : s.Within l.extent)
    (hkinds : l.builder.kindsOf s ≠ [])
    (hdoc : l.builder.graph.IdentifierOf refs (l.builder.graph.viewAt s) false doc) :
    (doc.name, doc.value) = (l.builder.nameOf s, v) := by
  obtain ⟨t, ht, htype⟩ := h
  have hdeclared : ((l.builder.graph.symbolAt s).ownDeclaration).isSome = true := by
    refine Option.isSome_iff_ne_none.mpr (mt Symbol.ownDeclaration_eq_none_iff.mp fun hnone => hkinds ?_)
    rw [← GraphBuilder.symbolAt_kinds hs, hnone]
    rfl
  have htypeId : (l.builder.graph.viewAt s).typeId = some t := by
    refine (if_pos hdeclared).trans ?_
    rw [GraphBuilder.symbolAt_typeId hs]
    exact ht
  have hname : doc.name = l.builder.nameOf s := hdoc.name.trans (GraphBuilder.symbolAt_name hs)
  have hvalue := hdoc.value
  have hrel := hdoc.type
  rw [htypeId] at hvalue hrel
  cases htypeDoc : doc.type with
  | none =>
    rw [htypeDoc] at hrel
    cases hrel
  | some type =>
    rw [htypeDoc] at hrel hvalue
    cases hrel with
    | some hdescribed => rw [hname, hvalue, Option.bind_some, htype.literalValue_eq hdescribed]

end Linking

/-! ## Records of enums -/

namespace GraphDraft

variable {d : GraphDraft} {s : SymbolId} {N : List String}

/-- What extraction takes for the members of a linked enum. -/
theorem Counted.linked_exportsIn (hd : d.Sound) (hu : d.Untyped) (h : d.Counted s N) (hnodup : (d.notedNames s).Nodup)
    (hs : s.Within d.linked.extent) :
    d.link.exportsIn (·.has SymbolFlags.enumMemberBit) (d.link.symbolAt s) = (d.membersNoted s).map (·.1) := by
  have hclosed : d.linked.builder.graph.Closed := (link_closed hd).1
  have hexports : (d.link.symbolAt s).exports = d.linked.builder.exportsOf s := GraphBuilder.symbolAt_exports hs
  have hvalues : ((d.link.symbolAt s).exports.values.filter fun m =>
      (d.link.symbolAt m).flags.has SymbolFlags.enumMemberBit) = (d.membersNoted s).map (·.1) := by
    rw [← h.linked_members hd hu hnodup, hexports]
    refine List.filter_congr fun m hm => ?_
    have hin : m.Within d.linked.extent := (hclosed.symbolAt hs).exports m (hexports ▸ hm)
    rw [link_eq, GraphBuilder.symbolAt_flags hin]
  rw [SymbolGraph.exportsIn, hvalues]
  split
  · rfl
  next hmeets =>
    -- Whatever has members is flagged as an enum, and the exports of enums are looked into.
    cases hnoted : d.membersNoted s with
    | nil => rfl
    | cons x _ =>
      obtain ⟨e, he, rfl, -⟩ := mem_of_membersNoted (hnoted ▸ List.mem_cons_self : x ∈ d.membersNoted s)
      have henum := (h.enumerated.owners e.symbol (List.mem_map_of_mem he)).2
      have hflag : (d.link.symbolAt e.symbol).flags.has SymbolFlags.enumBit = true := by
        rw [link_eq, GraphBuilder.symbolAt_flags hs, (linked_touches hd hu).has_flag henum.within (by decide)]
        exact henum.flags
      have hnot := FlagSet.meets_eq_false_of_has hflag (Bool.eq_false_iff.mpr hmeets)
      exact absurd hnot (by decide)

/-- **The record of an enum** has the members that were noted, with their values. -/
theorem Counted.record (hd : d.Sound) (hu : d.Untyped) (h : d.Counted s N) (hnodup : (d.notedNames s).Nodup)
    (hs : s.Within d.linked.extent) {refs : RefTable SymbolId} {doc : EnumDoc} (hdoc : d.link.EnumOf refs s doc) :
    doc.memberList.map (fun m => (m.name, m.value)) =
      (d.membersNoted s).map fun x => (d.builder.nameOf x.1, x.2) := by
  have hmembers := hdoc.members
  rw [h.linked_exportsIn hd hu hnodup hs, List.forall₂_map_left_iff, List.forall₂_iff_zip] at hmembers
  obtain ⟨hlength, hrecords⟩ := hmembers
  rw [eq_comm, ← List.forall₂_eq_eq_eq, List.forall₂_map_left_iff, List.forall₂_map_right_iff,
    List.forall₂_iff_zip]
  refine ⟨hlength, fun {x m} hxm => ?_⟩
  have hx := (List.of_mem_zip hxm).1
  have hin := h.enumerated.within_of_noted hx
  obtain ⟨hkinds, htype⟩ := h.linked_memberType hd hu hnodup hx
  have htouches := linked_touches hd hu
  have hrecord := htype.record (htouches.within hin) (by rw [htouches.kindsOf_eq hin, hkinds]; simp) (hrecords hxm)
  rw [hrecord, htouches.nameOf_eq hin]

/-- What was noted of an enum of any sources, with the names of the symbols, are the values of its members. -/
theorem ofSources_notedValues {sources : List ParsedSource} (h : DistinctMembers sources s) :
    ((ofSources sources).membersNoted s).map (fun x => ((ofSources sources).builder.nameOf x.1, x.2)) =
      valuesOf (enumsIn sources s) := by
  rw [eq_comm, ← List.forall₂_eq_eq_eq, List.forall₂_map_right_iff]
  exact (ofSources_membersNoted h).imp fun v x hx => Prod.ext (hx.2.2 trivial).symm hx.1.symm

theorem ofSources_notedNames {sources : List ParsedSource} (h : DistinctMembers sources s) :
    (ofSources sources).notedNames s = memberNames sources s := by
  rw [memberNames, ← ofSources_notedValues h, List.map_map]
  rfl

/-- A layout is no matter of members. -/
theorem laidOut_counted (h : d.Counted s N) (layout : Option OutputLayout) : (d.laidOut layout).Counted s N := by
  refine ⟨laidOut_enumerated h.enumerated layout, ?_⟩
  cases layout with
  | none => exact h.listed
  | some l => exact { h.listed with }

end GraphDraft

/-- **The members of a record are those of declarations**, one declaration behind the other, and each declaration
is counted on its own. Members with computed names are passed over. -/
def EnumDoc.ListsMembers (doc : EnumDoc) (es : List EnumTree) : Prop :=
  ∃ parts, List.Forall₂ (fun e part => Counts (namedMembers e.members) part) es parts ∧
    doc.memberList.map (fun m => (m.name, m.value)) = parts.flatten

namespace SymbolGraph

open GraphDraft (DistinctMembers enumsIn)

variable {sources : List ParsedSource} {layout : Option OutputLayout} {o : ExtractOptions} {doc : Documentation}

/-- **Members of enums are counted up.** Each enum that extraction comes to has a record, and the record of an enum
has the members of its declarations, as they are counted in each of them. -/
theorem extract_countsMembers (hdoc : (ofSources sources layout).extract o = .ok doc) :
    ∃ t, (ofSources sources layout).Documents o t doc ∧
      (∀ {s}, (ofSources sources layout).Assembled o s → (ofSources sources layout).route? s = some .toEnum →
        ∃ e d, t.Built s (.toEnum e) ∧ doc.enum? e = some d) ∧
      ∀ {s e d}, t.Built s (.toEnum e) → doc.enum? e = some d → DistinctMembers sources s →
        d.ListsMembers (enumsIn sources s) := by
  have hclosed := (ofSources_closed sources layout).1
  obtain ⟨t, ht⟩ := exists_documents (valid_iff_closed.mpr hclosed) hdoc
  refine ⟨t, ht, fun {s} hs hroute => ?_, fun {s e d} hbuilt hd hdistinct => ?_⟩
  · obtain ⟨ids, m, hid, hof, -⟩ := ht.exists_reaches hs
    obtain ⟨e, hbuilt, -⟩ := hof.exists_enum hid hroute
    obtain ⟨d, hd, -, -⟩ := ht.enum_of_built hbuilt
    exact ⟨e, d, hbuilt, hd⟩
  · obtain ⟨d', hd', -, hrecord⟩ := ht.enum_of_built hbuilt
    obtain rfl := Option.some.inj (hd'.symm.trans hd)
    -- A layout changes neither what was noted nor what it is called.
    have hlaid : ((GraphDraft.ofSources sources).laidOut layout).notedNames s =
        (GraphDraft.ofSources sources).notedNames s ∧
        (((GraphDraft.ofSources sources).laidOut layout).membersNoted s).map
          (fun x => (((GraphDraft.ofSources sources).laidOut layout).builder.nameOf x.1, x.2)) =
        ((GraphDraft.ofSources sources).membersNoted s).map
          fun x => ((GraphDraft.ofSources sources).builder.nameOf x.1, x.2) := by
      cases layout <;> exact ⟨rfl, rfl⟩
    have hmembers := (GraphDraft.laidOut_counted (GraphDraft.ofSources_counted hdistinct) layout).record
      (GraphDraft.laidOut_sound (GraphDraft.ofSources_sound sources).1 layout)
      (GraphDraft.laidOut_noted (GraphDraft.ofSources_noted sources) layout).untyped
      (by rw [hlaid.1, GraphDraft.ofSources_notedNames hdistinct]; exact hdistinct.nodup) (hbuilt.within ht.sound)
      hrecord
    refine ⟨(enumsIn sources s).map fun e => namedValues (some (.zero false)) e.members, ?_, ?_⟩
    · rw [List.forall₂_map_right_iff]
      exact List.forall₂_same.mpr fun e _ => counts_namedValues e.members
    · rw [hmembers, hlaid.2, GraphDraft.ofSources_notedValues hdistinct, valuesOf, List.flatMap_def]

/-! ## Two declarations of an enum, and a computed name -/

/-- A module that exports an enum with these members in each of its declarations. -/
def declaring (parts : List (List EnumMemberTree)) : ParsedSource where
  path := "a.ts"
  text := ""
  tree := {
    statements := parts.map fun members => .exported ⟨0, 0⟩ (.enumLike ⟨"Level", members, false⟩)
    docs := [] }
  scoping := .lexical

/-- The names and values of the members of enums. -/
def memberListings (doc : Documentation) : List (List (String × Option Literal)) :=
  doc.enums.toList.map fun d => d.memberList.map fun m => (m.name, m.value)

/-- Members that count from one and lose count, then members that count from zero and on from a negative number. -/
def levels : ParsedSource := declaring [
  [⟨⟨0, 0⟩, some "Low", some (.number .one)⟩, ⟨⟨0, 0⟩, some "High", none⟩,
    ⟨⟨0, 0⟩, some "Text", some (.text "text")⟩, ⟨⟨0, 0⟩, some "Lost", none⟩],
  [⟨⟨0, 0⟩, some "First", none⟩, ⟨⟨0, 0⟩, some "Below", some (.parens (.negative .one))⟩,
    ⟨⟨0, 0⟩, some "Above", none⟩]]

theorem extract_levels : ((ofSources [levels] none).extract {}).toOption.map memberListings =
    some [[("Low", some (.number .one)), ("High", some (.number (.ofNat 2))), ("Text", some (.text "text")),
      ("Lost", none), ("First", some (.number (.zero false))), ("Below", some (.number (.ofInt (-1)))),
      ("Above", some (.number (.zero false)))]] := by
  have hfiles : (ofSources [levels] none).ownFiles.filter ((ofSources [levels] none).accepts {}) =
      [⟨"a.ts", some ⟨1⟩⟩] := by decide +kernel
  have hexports : ((ofSources [levels] none).symbol? ⟨1⟩).map (·.exports.entries) = some [("Level", ⟨2⟩)] := by
    decide +kernel
  rw [extract_of_sole hfiles hexports]
  decide +kernel

/-- Both declarations are counted on their own. -/
theorem levels_countsMembers : ∃ doc e d, (ofSources [levels] none).extract {} = .ok doc ∧
    doc.enum? e = some d ∧ DistinctMembers [levels] ⟨2⟩ ∧ (enumsIn [levels] ⟨2⟩).map (·.members.length) = [4, 3] ∧
    d.ListsMembers (enumsIn [levels] ⟨2⟩) := by
  have hlistings := extract_levels
  have hdistinct : DistinctMembers [levels] ⟨2⟩ := ⟨by decide +kernel, by decide +kernel⟩
  cases hdoc : (ofSources [levels] none).extract {} with
  | error e => simp [hdoc, Except.toOption] at hlistings
  | ok doc =>
    obtain ⟨t, -, hrecords, hmembers⟩ := extract_countsMembers hdoc
    have hfiles : (ofSources [levels] none).ownFiles.filter ((ofSources [levels] none).accepts {}) =
        [⟨"a.ts", some ⟨1⟩⟩] := by decide +kernel
    have hexports : ((ofSources [levels] none).symbol? ⟨1⟩).map (·.exports.entries) = some [("Level", ⟨2⟩)] := by
      decide +kernel
    have hreached : (ofSources [levels] none).Assembled {} ⟨2⟩ :=
      assembled_of_sole hfiles hexports (by decide +kernel)
    obtain ⟨e, d, hbuilt, hd⟩ := hrecords hreached (by decide +kernel)
    exact ⟨doc, e, d, rfl, hd, hdistinct, by decide +kernel, hmembers hbuilt hd hdistinct⟩

/-- Members one of which has a computed name, and a value that the next one does not follow on from. -/
def gappedMembers : List EnumMemberTree :=
  [⟨⟨0, 0⟩, some "A", some (.number .one)⟩, ⟨⟨0, 0⟩, none, some (.number (.ofNat 5))⟩, ⟨⟨0, 0⟩, some "C", none⟩]

/-- **Behind a member with a computed name the count is wrong**: that member is five, so the one behind it is six, but
it is documented as two, one more than the last member that has a name. -/
theorem computedName_uncounted :
    (gappedMembers[1]?.bind (·.value)).bind Site.enumValue? = some (.number (.ofNat 5)) ∧
      gappedMembers[2]?.bind (·.value) = none ∧ (Binary64.ofNat 5).add .one = .ofNat 6 ∧
      Binary64.ofNat 2 ≠ .ofNat 6 ∧
      ((ofSources [declaring [gappedMembers]] none).extract {}).toOption.map memberListings =
        some [[("A", some (.number .one)), ("C", some (.number (.ofNat 2)))]] := by
  refine ⟨rfl, rfl, by decide +kernel, by decide +kernel, ?_⟩
  have hfiles : (ofSources [declaring [gappedMembers]] none).ownFiles.filter
      ((ofSources [declaring [gappedMembers]] none).accepts {}) = [⟨"a.ts", some ⟨1⟩⟩] := by decide +kernel
  have hexports : ((ofSources [declaring [gappedMembers]] none).symbol? ⟨1⟩).map (·.exports.entries) =
      some [("Level", ⟨2⟩)] := by decide +kernel
  rw [extract_of_sole hfiles hexports]
  decide +kernel

end SymbolGraph

end ApiDocs
