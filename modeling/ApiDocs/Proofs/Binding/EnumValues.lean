import ApiDocs.Proofs.Binding.EnumMembers
import ApiDocs.Proofs.Number.Integers

/-!
# Values of enum members

A member of an enum without an initializer has a value one above that of the member before it, if that value is
a number. Members with computed names have no symbols and are passed over: the member before is the last one
that has a name. What is noted of an enum that is declared more than once is what each declaration gives, one
behind the other.

## Main definitions

* `EnumMemberTree.valueBehind`: the value of a member behind another one.
* `Counts`: the values of members, one after the other.
* `enumsOf`: the declarations of an enum.

## Main results

* `counts_namedValues`: the values that are noted are those of the members, one after the other.
* `GraphDraft.ofSources_membersNoted`: what is noted of an enum of any sources.
-/

namespace ApiDocs

open TypeScript

/-! ## Members one after the other -/

/-- The value of a member: that of its initializer, if it has one. Without one, the first member is zero, a
member behind a number is one above it, and others have no value. -/
def valueBehind (before : Option (Option Literal)) (m : EnumMemberTree) : Option Literal :=
  match m.value, before with
  | some e, _ => Site.enumValue? e
  | none, none => some (.number (.zero false))
  | none, some (some (.number v)) => some (.number (v.add Binary64.one))
  | none, some _ => none

/-- The members of an enum that have names. -/
def namedMembers (members : List EnumMemberTree) : List EnumMemberTree := members.filter (·.name.isSome)

/-- **The values of members, one after the other.** Behind an integer whose successor is a number, too, the value
is that successor. -/
structure Counts (members : List EnumMemberTree) (values : List (String × Option Literal)) : Prop where
  names : values.map (some ·.1) = members.map (·.name)
  valued : ∀ {i m v}, members[i]? = some m → values[i]? = some v →
    v.2 = valueBehind (if i = 0 then none else (values[i - 1]?).map (·.2)) m
  successors : ∀ {i m name v} {b : Binary64} {k : ℤ}, members[i + 1]? = some m → m.value = none →
    values[i]? = some (name, some (.number b)) → b.Denotes k → |k| < 2 ^ 53 → values[i + 1]? = some v →
    ∃ b', v.2 = some (.number b') ∧ b'.Denotes (k + 1)

/-- The value for a member without an initializer. -/
def nextBehind : Option (Option Literal) → Option Binary64
  | none => some (.zero false)
  | some before => Site.nextValue? before

theorem memberValue?_nextBehind (before : Option (Option Literal)) (m : EnumMemberTree) :
    Site.memberValue? (nextBehind before) m = valueBehind before m := by
  unfold Site.memberValue? valueBehind
  cases m.value with
  | some e => rfl
  | none =>
    match before with
    | none => rfl
    | some none => rfl
    | some (some (.number v)) => rfl
    | some (some (.text v)) => rfl

/-- The values behind a member are counted on from its value. -/
theorem getElem?_namedValues (members : List EnumMemberTree) (before : Option (Option Literal)) {i : Nat}
    {m : EnumMemberTree} {v : String × Option Literal} (hm : (namedMembers members)[i]? = some m)
    (hv : (namedValues (nextBehind before) members)[i]? = some v) :
    v.2 = valueBehind
      (if i = 0 then before else ((namedValues (nextBehind before) members)[i - 1]?).map (·.2)) m := by
  induction members generalizing before i with
  | nil => cases hm
  | cons x rest ih =>
    cases hname : x.name with
    | none =>
      rw [namedMembers, List.filter_cons_of_neg (by simp [hname])] at hm
      rw [namedValues, hname] at hv ⊢
      exact ih before hm hv
    | some name =>
      rw [namedMembers, List.filter_cons_of_pos (by simp [hname])] at hm
      rw [namedValues, hname] at hv ⊢
      dsimp only at hv ⊢
      rw [memberValue?_nextBehind] at hv ⊢
      have hnext : Site.nextValue? (valueBehind before x) = nextBehind (some (valueBehind before x)) := rfl
      rw [hnext] at hv ⊢
      cases i with
      | zero =>
        cases hm
        cases hv
        rfl
      | succ i =>
        rw [List.getElem?_cons_succ] at hm hv
        rw [ih (some (valueBehind before x)) hm hv, if_neg (Nat.succ_ne_zero i)]
        cases i with
        | zero => rfl
        | succ i => rfl

theorem map_fst_namedValues (next : Option Binary64) (members : List EnumMemberTree) :
    (namedValues next members).map (some ·.1) = (namedMembers members).map (·.name) := by
  induction members generalizing next with
  | nil => rfl
  | cons x rest ih =>
    cases hname : x.name with
    | none =>
      rw [namedValues, hname, namedMembers, List.filter_cons_of_neg (by simp [hname])]
      exact ih next
    | some name =>
      rw [namedValues, hname, namedMembers, List.filter_cons_of_pos (by simp [hname]), List.map_cons, List.map_cons,
        hname]
      exact congrArg _ (ih _)

/-- **The values that are noted** are those of the members that have names, one after the other. -/
theorem counts_namedValues (members : List EnumMemberTree) :
    Counts (namedMembers members) (namedValues (some (.zero false)) members) where
  names := map_fst_namedValues _ members
  valued hm hv := getElem?_namedValues members none hm hv
  successors {i m name v b k} hm hnone hbefore hb hk hv := by
    have hvalue : v.2 = valueBehind (some (some (.number b))) m := by
      have hcounted := getElem?_namedValues members none hm hv
      rw [if_neg (Nat.succ_ne_zero i), Nat.add_sub_cancel] at hcounted
      exact hcounted.trans (congrArg (valueBehind · m) (congrArg (Option.map (·.2)) hbefore))
    simp only [valueBehind, hnone] at hvalue
    exact ⟨b.add Binary64.one, hvalue, hb.add_one hk⟩

/-! ## Declarations of an enum -/

/-- The declaration as one of the enum that has the symbol. -/
def enumOf? (names : Table (Container × String) SymbolId) (s : SymbolId) (x : Container × Declared) :
    Option EnumTree :=
  match x.2 with
  | .enumLike e => if names.get? (x.1, e.name) = some s then some e else none
  | _ => none

/-- The declarations of the enum that has the symbol. -/
def enumsOf (names : Table (Container × String) SymbolId) (s : SymbolId) (xs : List (Container × Declared)) :
    List EnumTree :=
  xs.filterMap (enumOf? names s)

/-- The names and values of the members of an enum that have names, one declaration behind the other. -/
def valuesOf (es : List EnumTree) : List (String × Option Literal) :=
  es.flatMap fun e => namedValues (some (.zero false)) e.members

theorem valuesOf_enumsOf_append (names : Table (Container × String) SymbolId) (s : SymbolId)
    (xs ys : List (Container × Declared)) :
    valuesOf (enumsOf names s (xs ++ ys)) = valuesOf (enumsOf names s xs) ++ valuesOf (enumsOf names s ys) := by
  rw [enumsOf, List.filterMap_append, valuesOf, List.flatMap_append]
  rfl

namespace GraphDraft

variable {d d' d'' : GraphDraft} {xs ys : List (Container × Declared)} {es : List (SymbolId × String)}
  {names : Table (Container × String) SymbolId} {comes : Site → Placement → Declared → GraphDraft → Prop}
  {s : SymbolId} {N : List String}

/-- Only enums are noted as enums. -/
def sameEnums (es : List EnumDraft) : Rule where
  Inv d := d.enums = es
  Open _ _ := True
  open_mono _ _ := trivial
  alike halike h := halike.enums.trans h
  fresh _ _ _ h _ := ⟨h, trivial⟩
  named _ _ _ _ h _ _ := ⟨h, trivial⟩
  again _ _ _ _ _ h _ _ _ := ⟨h, trivial⟩
  member _ _ _ _ _ h _ _ _ _ := ⟨h, trivial⟩
  memberAgain _ _ _ _ _ _ h _ _ _ _ _ := ⟨h, trivial⟩
  documented _ h _ := h
  exported _ _ h _ _ _ := h
  typed h _ _ := h
  aliased _ _ h _ := h
  signed _ h _ _ := h
  indexed _ h _ _ _ _ _ := h
  classed _ h _ := h
  linked _ h _ := h

/-- More is noted of the enum of a symbol: what the declarations say. -/
def NotesMembers (s : SymbolId) (es : List EnumTree) (d d' : GraphDraft) : Prop :=
  ∃ ms, d'.membersNoted s = d.membersNoted s ++ ms ∧ List.Forall₂ (Stands d'.builder True) (valuesOf es) ms

theorem NotesMembers.of_enums_eq (h : d'.enums = d.enums) : NotesMembers s [] d d' := by
  refine ⟨[], ?_, .nil⟩
  rw [membersNoted, h, List.append_nil, membersNoted]

theorem NotesMembers.append (h : NotesMembers s (enumsOf names s xs) d d')
    (h' : NotesMembers s (enumsOf names s ys) d' d'') (hle : d'.builder.Enlarges d''.builder) :
    NotesMembers s (enumsOf names s (xs ++ ys)) d d'' := by
  obtain ⟨ms, hms, hstand⟩ := h
  obtain ⟨ms', hms', hstand'⟩ := h'
  refine ⟨ms ++ ms', by rw [hms', hms, List.append_assoc], ?_⟩
  rw [valuesOf_enumsOf_append]
  exact List.rel_append (List.Forall₂.imp (fun _ _ h => h.mono hle) hstand) hstand'

theorem Names.enums_eq {container : Container} {name : String} {flags : SymbolFlags}
    (h : Names d container name flags s d') : d'.enums = d.enums := by
  cases h with
  | again _ halike => exact halike.enums
  | new _ _ halike => exact halike.enums

/-- An enum is noted. -/
theorem enumLike_notesMembers (hd : (counting s N).Good d) (site : Site) (place : Placement) (e : EnumTree)
    (hnames : (site.declared place (.enumLike e) d).2.NamedIn names)
    (hmay : ∀ x ∈ exportedAs place.container place.visibility e.name, (counting s N).May x.1 x.2)
    (hadmits : (counting s N).Admits names place.container e) :
    NotesMembers s (enumsOf names s [(place.container, .enumLike e)]) d (site.declared place (.enumLike e) d).2 := by
  rw [Site.declared] at hnames ⊢
  have hname := hnames (enumLike_get? hd.1 site place e)
  have hcounts := hadmits.counts _ hname
  have hbound := (bindHere_names site d place.container e.name SymbolFlags.enumBit).post
  have hbody : (site.enumLike place e d).2 = (enumBody site (some (.zero false)) e.members
      (site.bindHere place.container e.name SymbolFlags.enumBit d).1
      (site.introduce place e.name (site.bindHere place.container e.name SymbolFlags.enumBit d).1 .enumDecl
        (Site.flagIf e.isDeclared ModifierFlags.declareBit)
        (site.bindHere place.container e.name SymbolFlags.enumBit d).2).2).2 := rfl
  rw [hbody]
  generalize site.bindHere place.container e.name SymbolFlags.enumBit d = run at hname hcounts hbound ⊢
  obtain ⟨s', d₁⟩ := run
  have hintroduced := Rule.introduce_obeys hd hbound site e.name hmay
    (show DeclarationKind.enumDecl ≠ .enumMember by decide) (by decide)
    (Site.flagIf e.isDeclared ModifierFlags.declareBit)
  obtain ⟨b, x, -, hdeclared, -, hb⟩ := introduce_builds site place e.name s' .enumDecl
    (Site.flagIf e.isDeclared ModifierFlags.declareBit) d₁
  have hle := (GraphBuilder.Enlarges.declare s' x).trans hdeclared
  obtain ⟨hs, hflags⟩ := hbound.flags hd.1
  have hgood := hintroduced.good
  have hthere := hintroduced.post
  dsimp only at hname hcounts ⊢
  generalize (site.introduce place e.name s' .enumDecl (Site.flagIf e.isDeclared ModifierFlags.declareBit) d₁).2 = d₂
    at *
  subst hb
  obtain ⟨-, b', ms, -, hnoted, hstand⟩ := enumBody_adds hgood.2 (Table.mem_values_of_get? hbound.get?)
    ⟨hthere.1, hthere.2.2, hle.flags hs hflags⟩ site (some (.zero false)) hcounts
  rw [hnoted]
  have hmembers : membersNoted { d₁ with builder := b', enums := withMembers s' ms d₁.enums } s =
      d.membersNoted s ++ if s = s' then ms else [] := by
    rw [hbound.enums_eq]
    exact find?_withMembers s' s ms d.enums
  by_cases hs : s = s'
  · subst hs
    have hone : enumsOf names s [(place.container, .enumLike e)] = [e] := by simp [enumsOf, enumOf?, hname]
    rw [hone]
    exact ⟨ms, by rw [hmembers, if_pos rfl], by simpa [valuesOf] using hstand⟩
  · have hnone : enumsOf names s [(place.container, .enumLike e)] = [] := by
      simp [enumsOf, enumOf?, hname, Ne.symm hs]
    rw [hnone]
    exact ⟨[], by rw [hmembers, if_neg hs], .nil⟩

/-- **What is noted of an enum** while declarations are read. -/
theorem Reads.notesMembers (h : Reads names comes xs es d d') (hd : (counting s N).Good d) (hnames : d'.NamedIn names)
    (hmay : ∀ e ∈ es, (counting s N).May e.1 e.2)
    (hadmits : ∀ c e, (c, .enumLike e) ∈ xs → (counting s N).Admits names c e) :
    NotesMembers s (enumsOf names s xs) d d' := by
  induction h with
  | @pass es d d' h =>
    exact .of_enums_eq (h (sameEnums d.enums) (fun _ _ => trivial) ⟨hd.1, rfl⟩).1.2
  | @declared site place x d hx _ =>
    by_cases henum : ∃ e, x = .enumLike e
    · obtain ⟨e, rfl⟩ := henum
      exact enumLike_notesMembers hd site place e hnames hmay (hadmits _ e (List.mem_singleton.mpr rfl))
    · have hsame := Rule.declared_obeys (R := sameEnums d.enums) ⟨hd.1, rfl⟩ site place hx hnames (fun _ _ => trivial)
        fun e he => absurd ⟨e, he⟩ henum
      have hnone : enumsOf names s [(place.container, x)] = [] := by
        cases x with
        | enumLike e => exact absurd ⟨e, rfl⟩ henum
        | _ => rfl
      rw [hnone]
      exact .of_enums_eq hsame.good.2
  | @append xs ys es es' d d' d'' h h' ih ih' =>
    obtain ⟨hfirst, hrest⟩ := List.forall_mem_append.mp hmay
    have hnames' : d'.NamedIn names := h'.namedIn (h.inside hd.1) hnames
    have hadmits' : ∀ c e, (c, .enumLike e) ∈ ys → (counting s N).Admits names c e :=
      fun c e he => hadmits c e (List.mem_append_right _ he)
    have hadmitsFirst : ∀ c e, (c, .enumLike e) ∈ xs → (counting s N).Admits names c e :=
      fun c e he => hadmits c e (List.mem_append_left _ he)
    obtain ⟨hd', -⟩ := h.obeys hnames' hfirst hadmitsFirst hd
    obtain ⟨-, hle⟩ := h'.obeys hnames hrest hadmits' hd'
    exact (ih hd hnames' hfirst hadmitsFirst).append (ih' hd' hnames hrest hadmits') hle

theorem ReadsFiles.notesMembers (h : ReadsFiles names comes xs es d d') (hd : (counting s N).Good d)
    (hnames : d'.NamedIn names) (hmay : ∀ e ∈ es, (counting s N).May e.1 e.2)
    (hadmits : ∀ c e, (c, .enumLike e) ∈ xs → (counting s N).Admits names c e) :
    NotesMembers s (enumsOf names s xs) d d' := by
  induction h with
  | refl d => exact .of_enums_eq rfl
  | @file xs ys es es' d d' d'' file path tree h hreads ih =>
    obtain ⟨hfirst, hrest⟩ := List.forall_mem_append.mp hmay
    have hadmits' : ∀ c e, (c, .enumLike e) ∈ ys → (counting s N).Admits names c e :=
      fun c e he => hadmits c e (List.mem_append_right _ he)
    have hadmitsFirst : ∀ c e, (c, .enumLike e) ∈ xs → (counting s N).Admits names c e :=
      fun c e he => hadmits c e (List.mem_append_left _ he)
    have hnames' : d'.NamedIn names := hreads.namedIn_addFile (h.inside hd.1) hnames
    obtain ⟨hd', -⟩ := h.obeys hnames' hfirst hadmitsFirst (counting_addsFiles s N) hd
    have hadded := Rule.addFile_obeys (counting_addsFiles s N) hd' file path tree
    obtain ⟨-, hle⟩ := hreads.obeys hnames hrest hadmits' hadded.good
    obtain ⟨ms, hms, hstand⟩ := hreads.notesMembers hadded.good hnames hrest hadmits'
    refine (ih hd hnames' hfirst hadmitsFirst).append ⟨ms, ?_, hstand⟩ (hadded.le.trans hle)
    rw [hms, membersNoted, (addFile_alike file path tree d').2, membersNoted]

/-! ## Enums of sources -/

/-- The declarations of an enum in sources. -/
def enumsIn (sources : List ParsedSource) (s : SymbolId) : List EnumTree :=
  enumsOf (ofSources sources).named s (declarationsOf sources)

/-- The names of the members of an enum in sources. -/
def memberNames (sources : List ParsedSource) (s : SymbolId) : List String :=
  (valuesOf (enumsIn sources s)).map (·.1)

/-- **The members of an enum have names of their own**: no two of them have the same, in one declaration or in
several, and nothing else is exported from the enum under the name of a member. -/
structure DistinctMembers (sources : List ParsedSource) (s : SymbolId) : Prop where
  nodup : (memberNames sources s).Nodup
  alone : ∀ n ∈ memberNames sources s, (s, n) ∉ exportsOf sources

theorem DistinctMembers.may {sources : List ParsedSource} (h : DistinctMembers sources s) :
    ∀ e ∈ exportsOf sources, (counting s (memberNames sources s)).May e.1 e.2 := by
  rintro ⟨c, n⟩ he rfl hn
  exact h.alone n hn he

/-- What is counted are the members of the enum. -/
theorem admits_counting (sources : List ParsedSource) (s : SymbolId) {c : Container} {e : EnumTree}
    (he : (c, .enumLike e) ∈ declarationsOf sources) :
    (counting s (memberNames sources s)).Admits (ofSources sources).named c e := by
  refine ⟨counting_enumerates s _, ?_⟩
  rintro s' hname m hm n hn rfl
  have hmem : e ∈ enumsIn sources s' :=
    List.mem_filterMap.mpr ⟨_, he, by simp [enumOf?, hname]⟩
  have hnamed : some n ∈ (namedValues (some (.zero false)) e.members).map (some ·.1) := by
    rw [map_fst_namedValues, ← hn]
    exact List.mem_map_of_mem (List.mem_filter.mpr ⟨hm, by simp [Option.mem_def.mp hn]⟩)
  obtain ⟨v, hv, hfst⟩ := List.mem_map.mp hnamed
  exact List.mem_map.mpr ⟨v, List.mem_flatMap.mpr ⟨e, hmem, hv⟩, Option.some.inj hfst⟩

/-- What an enum exports under the names of its members are the members. -/
theorem ofSources_counted {sources : List ParsedSource} (h : DistinctMembers sources s) :
    (ofSources sources).Counted s (memberNames sources s) :=
  Rule.ofSources h.may (fun _ _ he => admits_counting sources s he) (counting_addsFiles s _) (start_counted s _)

/-- What is exported as a member of an enum is noted, whatever the sources export. -/
theorem ofSources_enumerated (sources : List ParsedSource) : (ofSources sources).Enumerated := by
  have hnext : ∀ {k m}, (ofSources sources).named.get? k = some m → m ≠ (ofSources sources).builder.next :=
    fun hk => GraphBuilder.ne_next_of_within ((ofSources_sound sources).1.inside.named _ (Table.mem_values_of_get? hk))
  -- No enum has the symbol that is counted here.
  have hcounted : (ofSources sources).Counted (ofSources sources).builder.next [] :=
    Rule.ofSources (R := counting (ofSources sources).builder.next []) (fun _ _ _ => List.not_mem_nil)
      (fun c e _ => ⟨counting_enumerates _ [], fun s hname m _ n _ hs => absurd hs (hnext hname)⟩)
      (counting_addsFiles _ []) (start_counted _ [])
  exact hcounted.enumerated

/-- **What is noted of an enum of any sources** are the values of its members, one declaration behind the
other. -/
theorem ofSources_membersNoted {sources : List ParsedSource} (h : DistinctMembers sources s) :
    List.Forall₂ (Stands (ofSources sources).builder True) (valuesOf (enumsIn sources s))
      ((ofSources sources).membersNoted s) := by
  have hreads := ofSources_reads sources List.prefix_rfl (fun hk => hk) fun _ _ _ _ h => h
  obtain ⟨ms, hms, hstand⟩ := hreads.notesMembers ⟨start_sound.inside, start_counted s (memberNames sources s)⟩
    (fun hk => hk) h.may fun _ _ he => admits_counting sources s he
  rw [hms]
  exact hstand

end GraphDraft

end ApiDocs
