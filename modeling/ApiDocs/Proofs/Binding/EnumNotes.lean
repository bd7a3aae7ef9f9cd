import ApiDocs.Proofs.Binding.SymbolHomes
import ApiDocs.Proofs.Extract.TypeShapes

/-!
# What is noted of enums

Members of an enum are exported from its symbol, as is what a namespace of the same name exports. Flags tell which
exports are members of enums, and since no symbol is exported from two others, these are members of the enum that
exports them. Where nothing else is exported under the names of the members, what an enum exports under these
names are its members, in their order, and nothing else is declared with them.

Steps that declare something else preserve this.

## Main definitions

* `GraphDraft.membersNoted`: the members that are noted of the enum of a symbol.
* `GraphDraft.Enumerated`: what is exported as a member is noted of the enum.
* `GraphDraft.Listed`: what is exported under the names of members are the members.
* `GraphDraft.Declares`: what a step that is no matter of enums may do.

## Main results

* `GraphDraft.Enumerated.declares`, `GraphDraft.Counted.declares`: such a step preserves both.
-/

namespace ApiDocs

open TypeScript

/-- What goes into a table under another key is no matter. -/
theorem Table.filter_insert_of_not {κ α : Type} [DecidableEq κ] {t : Table κ α} {k : κ} {v : α} {p : κ → Bool}
    (hk : p k = false) :
    ((t.insert k v).entries.filter fun e => p e.1) = t.entries.filter fun e => p e.1 := by
  have hreplace : ∀ es : List (κ × α),
      ((es.map (Table.replaceEntry k v)).filter fun e => p e.1) = es.filter fun e => p e.1 := by
    intro es
    induction es with
    | nil => rfl
    | cons e es ih =>
      rw [List.map_cons, List.filter_cons, List.filter_cons, ih]
      by_cases he : e.1 = k
      · simp [Table.replaceEntry, he, hk]
      · simp [Table.replaceEntry, he]
  unfold Table.insert
  split
  · exact hreplace t.entries
  · simp [hk]

namespace GraphBuilder

variable {b b' : GraphBuilder} {s s' m : SymbolId} {name : String} {flags : SymbolFlags} {x : Declaration}

/-- Something was declared as what is no member of an enum. -/
def IsDeclared (b : GraphBuilder) (s : SymbolId) : Prop := ∃ k ∈ b.kindsOf s, k ≠ .enumMember

theorem IsDeclared.mono (h : b.IsDeclared s) (hle : b.Enlarges b') : b'.IsDeclared s := by
  obtain ⟨k, hk, hkind⟩ := h
  exact ⟨k, (hle.kinds s).subset hk, hkind⟩

/-- The symbol is that of an enum, which is declared. -/
structure IsEnum (b : GraphBuilder) (s : SymbolId) : Prop where
  within : s.Within b.extent
  declared : b.IsDeclared s
  flags : (b.flagsOf s).has SymbolFlags.enumBit

theorem IsEnum.mono (h : b.IsEnum s) (hle : b.Enlarges b') : b'.IsEnum s :=
  ⟨hle.within h.within, h.declared.mono hle, hle.flags h.within h.flags⟩

/-- The flag of members of enums tells how a symbol is declared. -/
def FlagsMembers (b : GraphBuilder) : Prop :=
  ∀ s, (b.flagsOf s).has SymbolFlags.enumMemberBit = true ↔ .enumMember ∈ b.kindsOf s

theorem has_enumMemberBit_of_meets (h : flags.meets SymbolFlags.enumMemberBit = false) :
    flags.has SymbolFlags.enumMemberBit = false :=
  FlagSet.has_eq_false_of_meets h (by decide)

end GraphBuilder

namespace GraphDraft

variable {d d' : GraphDraft} {s c m : SymbolId} {ms ms' : List (SymbolId × Option Literal)} {N : List String}

/-! ## Notes of enums -/

/-- The notes of enums with more members of one of them. -/
def withMembers (s : SymbolId) (ms : List (SymbolId × Option Literal)) : List EnumDraft → List EnumDraft
  | [] => [⟨s, ms⟩]
  | e :: es =>
    if e.symbol = s then { e with members := e.members ++ ms } :: es else e :: withMembers s ms es

/-- Each enum has one note. -/
theorem noteEnum_eq (hd : (d.enums.map (·.symbol)).Nodup) (s : SymbolId) (ms : List (SymbolId × Option Literal)) :
    (noteEnum s ms d).2 = { d with enums := withMembers s ms d.enums } := by
  have hnotes : ∀ es : List EnumDraft, (es.map (·.symbol)).Nodup →
      (if es.any (·.symbol == s) then
        es.map fun e => if e.symbol == s then { e with members := e.members ++ ms } else e
      else es ++ [⟨s, ms⟩]) = withMembers s ms es := by
    intro es hes
    induction es with
    | nil => rfl
    | cons e es ih =>
      obtain ⟨hnot, hes⟩ := List.nodup_cons.mp hes
      rw [withMembers, List.any_cons, List.map_cons]
      by_cases he : e.symbol = s
      · have hrest : es.map (fun e => if e.symbol == s then { e with members := e.members ++ ms } else e) = es := by
          refine (List.map_congr_left fun x hx => ?_).trans (List.map_id es)
          have hne : x.symbol ≠ s := fun hx' => hnot (List.mem_map.mpr ⟨x, hx, hx'.trans he.symm⟩)
          simp [hne]
        rw [hrest]
        simp [he]
      · rw [if_neg he, ← ih hes]
        simp [he]
        split <;> rfl
  change (if _ then _ else _ : GraphDraft) = _
  rw [← hnotes d.enums hd]
  split <;> rfl

theorem withMembers_append (s : SymbolId) (ms ms' : List (SymbolId × Option Literal)) (es : List EnumDraft) :
    withMembers s (ms ++ ms') es = withMembers s ms' (withMembers s ms es) := by
  induction es with
  | nil => simp [withMembers]
  | cons e es ih =>
    by_cases he : e.symbol = s
    · simp [withMembers, he]
    · simp [withMembers, he, ih]

theorem map_symbol_withMembers (s : SymbolId) (ms : List (SymbolId × Option Literal)) (es : List EnumDraft) :
    (withMembers s ms es).map (·.symbol) =
      if s ∈ es.map (·.symbol) then es.map (·.symbol) else es.map (·.symbol) ++ [s] := by
  induction es with
  | nil => rfl
  | cons e es ih =>
    by_cases he : e.symbol = s
    · simp [withMembers, he]
    · rw [withMembers, if_neg he, List.map_cons, ih]
      simp only [List.map_cons, List.mem_cons, Ne.symm he, false_or]
      split <;> rfl

/-- The members that are noted of the enum of a symbol. -/
def membersNoted (d : GraphDraft) (s : SymbolId) : List (SymbolId × Option Literal) :=
  ((d.enums.find? (·.symbol = s)).map (·.members)).getD []

theorem find?_withMembers (s s' : SymbolId) (ms : List (SymbolId × Option Literal)) (es : List EnumDraft) :
    (((withMembers s ms es).find? (·.symbol = s')).map (·.members)).getD [] =
      ((es.find? (·.symbol = s')).map (·.members)).getD [] ++ if s' = s then ms else [] := by
  induction es with
  | nil =>
    by_cases hs : s' = s
    · simp [withMembers, hs]
    · simp [withMembers, hs, Ne.symm hs]
  | cons e es ih =>
    by_cases he : e.symbol = s
    · by_cases hs : s' = s
      · simp [withMembers, he, hs]
      · simp [withMembers, he, hs, Ne.symm hs]
    · rw [withMembers, if_neg he, List.find?_cons, List.find?_cons]
      by_cases hs' : e.symbol = s'
      · have hs : s' ≠ s := fun h => he (hs'.trans h)
        simp [hs', hs]
      · simp only [hs', decide_false]
        exact ih

theorem countP_withMembers (s : SymbolId) (ms : List (SymbolId × Option Literal)) (es : List EnumDraft)
    (p : SymbolId × Option Literal → Bool) :
    ((withMembers s ms es).flatMap (·.members)).countP p = (es.flatMap (·.members)).countP p + ms.countP p := by
  induction es with
  | nil => simp [withMembers]
  | cons e es ih =>
    rw [withMembers]
    split
    · simp only [List.flatMap_cons, List.countP_append]
      omega
    · simp only [List.flatMap_cons, List.countP_append, ih]
      omega

/-! ## What is exported as a member -/

/-- **What is exported as a member of an enum is noted of the enum**, and no module is an enum. Each declaration of
a member is noted. -/
structure Enumerated (d : GraphDraft) : Prop where
  homed : d.Homed
  flags : d.builder.FlagsMembers
  exported : ∀ {c n m}, (d.builder.exportsOf c).get? n = some m → .enumMember ∈ d.builder.kindsOf m →
    m ∈ (d.membersNoted c).map (·.1)
  named : ∀ {c n m}, d.named.get? (.symbol c, n) = some m → .enumMember ∈ d.builder.kindsOf m →
    m ∈ (d.membersNoted c).map (·.1)
  modules : ∀ m ∈ d.modules.values, m.Within d.extent ∧ m ∉ d.named.values
  distinct : (d.enums.map (·.symbol)).Nodup
  owners : ∀ s ∈ d.enums.map (·.symbol), s ∈ d.named.values ∧ d.builder.IsEnum s
  callers : ∀ x ∈ d.signatures, d.builder.IsDeclared x.owner.symbol
  classes : ∀ x ∈ d.classes, d.builder.IsDeclared x.symbol
  once : ∀ m, (d.enums.flatMap (·.members)).countP (·.1 = m) ≤ (d.builder.kindsOf m).count .enumMember

/-- **What a symbol exports under some names are the members of its enum**, in their order, and each is declared as
often as it is noted, and in no other way. -/
structure Listed (s : SymbolId) (N : List String) (d : GraphDraft) : Prop where
  entries : ((d.builder.exportsOf s).entries.filter fun e => e.1 ∈ N).Sublist
    ((d.membersNoted s).map fun x => (d.builder.nameOf x.1, x.1))
  found : ∀ x ∈ d.membersNoted s, (d.builder.exportsOf s).get? (d.builder.nameOf x.1) = some x.1
  names : ∀ x ∈ d.membersNoted s, d.builder.nameOf x.1 ∈ N
  unnamed : ∀ x ∈ d.membersNoted s, x.1 ∉ d.named.values
  kinds : ∀ x ∈ d.membersNoted s,
    d.builder.kindsOf x.1 = List.replicate ((d.membersNoted s).countP (·.1 = x.1)) .enumMember

/-- Both of a symbol and some names. -/
structure Counted (s : SymbolId) (N : List String) (d : GraphDraft) : Prop where
  enumerated : d.Enumerated
  listed : d.Listed s N

theorem mem_of_membersNoted {x : SymbolId × Option Literal} (hx : x ∈ d.membersNoted s) :
    ∃ e ∈ d.enums, e.symbol = s ∧ x ∈ e.members := by
  unfold membersNoted at hx
  cases he : d.enums.find? (·.symbol = s) with
  | none =>
    rw [he] at hx
    cases hx
  | some e =>
    rw [he] at hx
    exact ⟨e, List.mem_of_find?_eq_some he, by simpa using List.find?_some he, hx⟩

/-- What is noted as a member is declared as one. -/
theorem Enumerated.mem_kinds (h : d.Enumerated) {x : SymbolId × Option Literal}
    (hx : x ∈ d.enums.flatMap (·.members)) : .enumMember ∈ d.builder.kindsOf x.1 := by
  have hpos : 0 < (d.enums.flatMap (·.members)).countP (·.1 = x.1) :=
    List.countP_pos_iff.mpr ⟨x, hx, by simp⟩
  exact List.count_pos_iff.mp (Nat.lt_of_lt_of_le hpos (h.once x.1))

theorem Enumerated.within (h : d.Enumerated) {x : SymbolId × Option Literal}
    (hx : x ∈ d.enums.flatMap (·.members)) : x.1.Within d.extent :=
  GraphBuilder.within_of_kindsOf (List.ne_nil_of_mem (h.mem_kinds hx))

theorem Enumerated.within_of_noted (h : d.Enumerated) {x : SymbolId × Option Literal} (hx : x ∈ d.membersNoted s) :
    x.1.Within d.extent := by
  obtain ⟨e, he, -, hx⟩ := mem_of_membersNoted hx
  exact h.within (List.mem_flatMap.mpr ⟨e, he, hx⟩)

/-- Names of members stay. -/
theorem Enumerated.names_eq (h : d.Enumerated) {b : GraphBuilder} (hle : d.builder.Enlarges b) (s : SymbolId) :
    (d.membersNoted s).map (fun x => (b.nameOf x.1, x.1)) =
      (d.membersNoted s).map fun x => (d.builder.nameOf x.1, x.1) := by
  refine List.map_congr_left fun x hx => ?_
  rw [hle.names (h.within_of_noted hx)]

/-! ## Steps that are no matter of enums -/

/-- **What a step that is no matter of enums may do**: no symbol becomes a member of an enum or ceases to be one,
and nothing changes under the names, nor with what is exported under them. -/
structure Declares (s : SymbolId) (N : List String) (d : GraphDraft) (b : GraphBuilder)
    (named : Table (Container × String) SymbolId) : Prop where
  homed : Homed { d with builder := b, named := named }
  enlarges : d.builder.Enlarges b
  flags : ∀ m, (b.flagsOf m).has SymbolFlags.enumMemberBit = (d.builder.flagsOf m).has SymbolFlags.enumMemberBit
  kinds : ∀ m, .enumMember ∈ b.kindsOf m → .enumMember ∈ d.builder.kindsOf m
  kept : ∀ m ∈ d.named.values, m ∈ named.values
  named : ∀ {k m}, named.get? k = some m → d.named.get? k = some m ∨ m = d.builder.next
  exported : ∀ {c n m}, (b.exportsOf c).get? n = some m → .enumMember ∈ b.kindsOf m →
    (d.builder.exportsOf c).get? n = some m ∨ ∃ n₀, d.named.get? (.symbol c, n₀) = some m
  entries : ((b.exportsOf s).entries.filter fun e => e.1 ∈ N) =
    (d.builder.exportsOf s).entries.filter fun e => e.1 ∈ N
  members : ∀ {n m}, (d.builder.exportsOf s).get? n = some m → n ∈ N → m ∉ d.named.values →
    b.kindsOf m = d.builder.kindsOf m

variable {b : GraphBuilder} {named : Table (Container × String) SymbolId}

/-- No symbol is added that is a member of an enum. -/
theorem Declares.ne_next (h : Declares s N d b named) {m : SymbolId} (hm : .enumMember ∈ b.kindsOf m) :
    m ≠ d.builder.next := by
  rintro rfl
  have hold := h.kinds _ hm
  rw [GraphBuilder.kindsOf_next] at hold
  cases hold

theorem Enumerated.declares (h : d.Enumerated) (hstep : Declares s N d b named) :
    Enumerated { d with builder := b, named := named } where
  homed := hstep.homed
  flags m := by
    change (b.flagsOf m).has _ = true ↔ _ ∈ b.kindsOf m
    rw [hstep.flags]
    exact (h.flags m).trans ⟨fun hm => (hstep.enlarges.kinds m).subset hm, hstep.kinds m⟩
  exported hget hm := by
    rcases hstep.exported hget hm with hold | ⟨n₀, hname⟩
    · exact h.exported hold (hstep.kinds _ hm)
    · exact h.named hname (hstep.kinds _ hm)
  named hget hm := by
    rcases hstep.named hget with hold | hnext
    · exact h.named hold (hstep.kinds _ hm)
    · exact absurd hnext (hstep.ne_next hm)
  modules m hm := by
    obtain ⟨hin, hnot⟩ := h.modules m hm
    refine ⟨hstep.enlarges.within hin, fun hvalue => ?_⟩
    obtain ⟨e, he, rfl⟩ := List.mem_map.mp hvalue
    rcases hstep.named (Table.get?_eq_some_iff.mpr he) with hold | hnext
    · exact hnot (Table.mem_values_of_get? hold)
    · exact GraphBuilder.ne_next_of_within hin hnext
  distinct := h.distinct
  owners s hs := by
    obtain ⟨hnamed, henum⟩ := h.owners s hs
    exact ⟨hstep.kept s hnamed, henum.mono hstep.enlarges⟩
  callers x hx := (h.callers x hx).mono hstep.enlarges
  classes x hx := (h.classes x hx).mono hstep.enlarges
  once m := (h.once m).trans ((hstep.enlarges.kinds m).sublist.count_le _)

theorem Listed.get?_of_entries (h : d.Listed s N)
    (hentries : ((b.exportsOf s).entries.filter fun e => e.1 ∈ N) =
      (d.builder.exportsOf s).entries.filter fun e => e.1 ∈ N)
    {x : SymbolId × Option Literal} (hx : x ∈ d.membersNoted s) :
    (b.exportsOf s).get? (d.builder.nameOf x.1) = some x.1 := by
  have hmem : (d.builder.nameOf x.1, x.1) ∈ (d.builder.exportsOf s).entries.filter fun e => e.1 ∈ N :=
    List.mem_filter.mpr ⟨Table.get?_eq_some_iff.mp (h.found x hx), by simpa using h.names x hx⟩
  rw [← hentries] at hmem
  exact Table.get?_eq_some_iff.mpr (List.mem_filter.mp hmem).1

/-- Where nothing changes under the names, nor with what is exported under them, this stays. -/
theorem Listed.keep (h : d.Listed s N) (hnoted : d'.membersNoted s = d.membersNoted s)
    (hnames : ∀ x ∈ d.membersNoted s, d'.builder.nameOf x.1 = d.builder.nameOf x.1)
    (hentries : ((d'.builder.exportsOf s).entries.filter fun e => e.1 ∈ N) =
      (d.builder.exportsOf s).entries.filter fun e => e.1 ∈ N)
    (hunnamed : ∀ x ∈ d.membersNoted s, x.1 ∈ d'.named.values → x.1 ∈ d.named.values)
    (hkinds : ∀ x ∈ d.membersNoted s, d'.builder.kindsOf x.1 = d.builder.kindsOf x.1) : d'.Listed s N where
  entries := by
    have hlist : (d.membersNoted s).map (fun x => (d'.builder.nameOf x.1, x.1)) =
        (d.membersNoted s).map fun x => (d.builder.nameOf x.1, x.1) :=
      List.map_congr_left fun x hx => by rw [hnames x hx]
    rw [hnoted, hentries, hlist]
    exact h.entries
  found x hx := by
    rw [hnoted] at hx
    rw [hnames x hx]
    exact h.get?_of_entries hentries hx
  names x hx := by
    rw [hnoted] at hx
    rw [hnames x hx]
    exact h.names x hx
  unnamed x hx hvalue := by
    rw [hnoted] at hx
    exact h.unnamed x hx (hunnamed x hx hvalue)
  kinds x hx := by
    rw [hnoted] at hx ⊢
    rw [hkinds x hx]
    exact h.kinds x hx

theorem Counted.declares (h : d.Counted s N) (hstep : Declares s N d b named) :
    Counted s N { d with builder := b, named := named } := by
  refine ⟨h.enumerated.declares hstep, h.listed.keep rfl (fun x hx => ?_) hstep.entries (fun x hx hvalue => ?_)
    fun x hx => ?_⟩
  · exact hstep.enlarges.names (h.enumerated.within_of_noted hx)
  · obtain ⟨e, he, heq⟩ := List.mem_map.mp hvalue
    rcases hstep.named (Table.get?_eq_some_iff.mpr he) with hold | hnext
    · exact heq ▸ Table.mem_values_of_get? hold
    · exact absurd (heq ▸ hnext) (GraphBuilder.ne_next_of_within (h.enumerated.within_of_noted hx))
  · exact hstep.members (h.listed.found x hx) (h.listed.names x hx) (h.listed.unnamed x hx)

namespace Declares

variable {name : String} {flags : SymbolFlags} {x : Declaration} {isStatic : Bool} {owner : SymbolId}

/-- Where tables and names stay, and only the symbol `m` is declared anew. -/
theorem of_same (hhomed : Homed { d with builder := b }) (hle : d.builder.Enlarges b)
    (hflags : ∀ m, (b.flagsOf m).has SymbolFlags.enumMemberBit = (d.builder.flagsOf m).has SymbolFlags.enumMemberBit)
    (hkinds : ∀ m, .enumMember ∈ b.kindsOf m → .enumMember ∈ d.builder.kindsOf m)
    (hexports : ∀ c, b.exportsOf c = d.builder.exportsOf c)
    (hmembers : ∀ {n m}, (d.builder.exportsOf s).get? n = some m → n ∈ N → m ∉ d.named.values →
      b.kindsOf m = d.builder.kindsOf m) : Declares s N d b d.named where
  homed := hhomed
  enlarges := hle
  flags := hflags
  kinds := hkinds
  kept _ hm := hm
  named hm := .inl hm
  exported hget _ := by
    rw [hexports] at hget
    exact .inl hget
  entries := by rw [hexports]
  members := hmembers

/-- A new symbol is none that was exported. -/
theorem kindsOf_of_get? (hd : d.Homed) {n : String} (hget : (d.builder.exportsOf c).get? n = some m)
    (hkinds : ∀ m, b.kindsOf m = if m = d.builder.next then [x.kind] else d.builder.kindsOf m) :
    b.kindsOf m = d.builder.kindsOf m := by
  rw [hkinds, if_neg (GraphBuilder.ne_next_of_within (hd.inside.builder.within_of_get? hget))]

theorem not_mem_of_new (hx : x.AsRead flags)
    (hkinds : ∀ m, b.kindsOf m = if m = d.builder.next then [x.kind] else d.builder.kindsOf m) (m : SymbolId)
    (hm : .enumMember ∈ b.kindsOf m) : .enumMember ∈ d.builder.kindsOf m := by
  rw [hkinds] at hm
  split at hm
  · exact absurd (List.mem_singleton.mp hm).symm hx.kind
  · exact hm

theorem has_of_new (hx : x.AsRead flags)
    (hflags : ∀ m, b.flagsOf m = if m = d.builder.next then flags else d.builder.flagsOf m) (m : SymbolId) :
    (b.flagsOf m).has SymbolFlags.enumMemberBit = (d.builder.flagsOf m).has SymbolFlags.enumMemberBit := by
  rw [hflags]
  split
  next h =>
    subst h
    rw [GraphBuilder.has_enumMemberBit_of_meets hx.flags, GraphBuilder.flagsOf, GraphBuilder.symbol?_next]
    rfl
  next => rfl

theorem addDeclared (hd : d.Homed) (name : String) (hx : x.AsRead flags) :
    Declares s N d (d.builder.addDeclared name flags x) d.named :=
  of_same (hd.addDeclared name flags x) (.addDeclared name flags x)
    (has_of_new hx (GraphBuilder.flagsOf_addDeclared d.builder name flags x))
    (not_mem_of_new hx (GraphBuilder.kindsOf_addDeclared d.builder name flags x))
    (fun c => GraphBuilder.memberTable_addDeclared d.builder name flags x c true)
    fun hget _ _ => kindsOf_of_get? hd hget (GraphBuilder.kindsOf_addDeclared d.builder name flags x)

theorem named' (hd : d.Homed) (key : Container × String) (name : String) (hx : x.AsRead flags)
    (hnone : d.named.get? key = none) :
    Declares s N d (d.builder.addDeclared name flags x) (d.named.insert key d.builder.next) := by
  have hadded : Declares s N d (d.builder.addDeclared name flags x) d.named := addDeclared hd name hx
  refine { hadded with homed := hd.named key name flags x hnone, kept := fun m hm => ?_, named := fun {k m} hk => ?_ }
  · obtain ⟨e, he, rfl⟩ := List.mem_map.mp hm
    have hkey : e.1 ≠ key := by
      intro heq
      have hget := Table.get?_eq_some_iff.mpr he
      rw [heq] at hget
      exact Option.some_ne_none _ (hget.symm.trans hnone)
    exact List.mem_map.mpr ⟨e, (Table.mem_entries_insert_of_ne hkey).mpr he, rfl⟩
  · rw [Table.get?_insert] at hk
    split at hk
    · exact .inr (Option.some.inj hk).symm
    · exact .inl hk

/-- A symbol that is none of the members is declared again. -/
theorem declareAgain (hd : d.Homed) (hs : m.Within d.extent) (hx : x.AsRead flags)
    (hother : ∀ {n}, (d.builder.exportsOf s).get? n = some m → n ∈ N → m ∈ d.named.values) :
    Declares s N d (d.builder.declareAgain m flags x) d.named := by
  have hkinds := GraphBuilder.kindsOf_declareAgain hs flags x
  have hflags := GraphBuilder.flagsOf_declareAgain hs flags x
  refine of_same (hd.declareAgain m flags x) (.declareAgain m flags x) (fun m' => ?_) (fun m' hm' => ?_)
    (fun c => GraphBuilder.memberTable_declareAgain d.builder m flags x c true) fun {n m'} hget hn hnot => ?_
  · rw [hflags]
    split
    next h => rw [FlagSet.has_union_iff hx.flags, h]
    next => rfl
  · rw [hkinds] at hm'
    split at hm'
    next h =>
      rcases List.mem_append.mp hm' with hold | hnew
      · rwa [h]
      · exact absurd (List.mem_singleton.mp hnew).symm hx.kind
    next => exact hm'
  · rw [hkinds, if_neg]
    rintro rfl
    exact hnot (hother hget hn)

theorem addMember (hd : d.Homed) (howner : owner.Within d.extent) (hx : x.AsRead flags)
    (hmay : isStatic = true → owner = s → name ∉ N) :
    Declares s N d (d.builder.addMember owner name flags isStatic x) d.named := by
  have hkinds := GraphBuilder.kindsOf_addMember d.builder owner name flags isStatic x
  have htables := fun c => GraphBuilder.memberTable_addMember howner name flags isStatic x c true
  refine ⟨hd.addMember howner name flags isStatic x, .addMember owner name flags isStatic x,
    has_of_new hx (GraphBuilder.flagsOf_addMember d.builder owner name flags isStatic x), not_mem_of_new hx hkinds,
    fun _ hm => hm, fun hm => .inl hm, fun {c n m} hget hm => ?_, ?_, fun hget _ _ => kindsOf_of_get? hd hget hkinds⟩
  · change ((d.builder.addMember owner name flags isStatic x).memberTable c true).get? n = some m at hget
    rw [htables] at hget
    split at hget
    · rw [Table.get?_insert] at hget
      split at hget
      · obtain rfl := Option.some.inj hget
        rw [hkinds, if_pos rfl] at hm
        exact absurd (List.mem_singleton.mp hm).symm hx.kind
      · exact .inl hget
    · exact .inl hget
  · change (((d.builder.addMember owner name flags isStatic x).memberTable s true).entries.filter _) = _
    rw [htables]
    split
    next h => exact Table.filter_insert_of_not (p := fun n => decide (n ∈ N)) (by simpa using hmay h.2.symm h.1.symm)
    next => rfl

theorem setDoc (hd : d.Homed) (m : SymbolId) (doc : String) : Declares s N d (d.builder.setDoc m doc) d.named := by
  have hkinds := GraphBuilder.kindsOf_setDoc (b := d.builder) m doc
  refine of_same (hd.setDoc m doc) (.modifyAside (fun _ => rfl) (fun _ => rfl) fun _ => rfl) (fun m' => ?_)
    (fun m' hm' => ?_) (fun c => GraphBuilder.memberTable_setDoc m doc c true) fun {n m'} _ _ _ => hkinds m'
  · rw [GraphBuilder.flagsOf_setDoc]
  · rwa [hkinds] at hm'

theorem exportAs (hd : d.Homed) (hm : m.Within d.extent) {container : SymbolId} (hbelongs : d.BelongsTo m container)
    (hmay : container = s → name ∉ N) : Declares s N d (d.builder.exportAs container name m) d.named := by
  have hkinds := GraphBuilder.kindsOf_exportAs (b := d.builder) container name m
  have htables := GraphBuilder.memberTable_exportAs d.builder container name m
  refine ⟨hd.exportAs hm hbelongs name, .modifyAside (fun _ => rfl) (fun _ => rfl) fun _ => rfl, fun m' => ?_,
    fun m' hm' => ?_, fun _ hm => hm, fun hm => .inl hm, fun {c n m'} hget hm' => ?_, ?_, fun _ _ _ => hkinds _⟩
  · rw [GraphBuilder.flagsOf_exportAs]
  · rwa [hkinds] at hm'
  · change ((d.builder.exportAs container name m).memberTable c true).get? n = some m' at hget
    rw [htables] at hget
    rw [hkinds] at hm'
    split at hget
    next h =>
      rw [Table.get?_insert] at hget
      split at hget
      · obtain rfl := Option.some.inj hget
        rcases hbelongs with hname | hunlisted
        · rw [h.1]
          exact .inr hname
        · exact absurd hm' hunlisted.kinds
      · exact .inl hget
    next => exact .inl hget
  · change (((d.builder.exportAs container name m).memberTable s true).entries.filter _) = _
    rw [htables]
    split
    next h => exact Table.filter_insert_of_not (p := fun n => decide (n ∈ N)) (by simpa using hmay h.1.symm)
    next => rfl

end Declares

end GraphDraft

end ApiDocs
