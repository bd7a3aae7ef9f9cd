import ApiDocs.Proofs.Binding.InterfaceBodies
import ApiDocs.Proofs.Binding.SilentSteps

/-!
# Interfaces in drafts

An interface that is declared once has the members of its body: before it is declared it has none, and what is read
behind the declaration neither adds members to it nor says more of those it has. They have no names outside of the
table of the interface, so only another declaration of it could reach them.

## Main definitions

* `GraphDraft.Settled`: the members of a symbol stay as they are, unless it is declared again.
* `GraphDraft.SoleInterface`: an interface of sources that is declared once.

## Main results

* `GraphDraft.interfaceLike_declares`: the declaration of an interface draws up its members.
* `GraphDraft.settling`: what is read behind it leaves them alone.
* `GraphDraft.ofSources_drawn`: so they are in the draft of sources that declare the interface once.
-/

namespace ApiDocs

open TypeScript

/-! ## Names of members -/

/-- Where a property and an index signature have their names. -/
theorem PropertyBody.slot_cases {members : List InterfaceMember} (h : PropertyBody members) {x : InterfaceMember}
    (hx : x ∈ members) : (∃ p ∈ propertiesIn members, ∃ n, p.key = .known n ∧ x.slot = some n) ∨
      indexesIn members ≠ [] ∧ x.slot = some Site.indexMember := by
  have hplain := h.plain x hx
  cases x with
  | property p =>
    obtain ⟨⟨n, hkey⟩, -, -⟩ := hplain
    exact .inl ⟨p, List.mem_filterMap.mpr ⟨_, hx, rfl⟩, n, hkey, by rw [InterfaceMember.slot, hkey]; rfl⟩
  | index i =>
    have hi : i ∈ indexesIn members := List.mem_filterMap.mpr ⟨_, hx, rfl⟩
    exact .inr ⟨List.ne_nil_of_mem hi, rfl⟩
  | method m => exact hplain.elim
  | construct span f => exact hplain.elim
  | call => exact hplain.elim

/-- Properties and index signatures have names of their own, if no property has the name of an index signature. -/
theorem PropertyBody.nodup_slots {members : List InterfaceMember} (h : PropertyBody members)
    (hfree : indexesIn members = [] ∨ ∀ p ∈ propertiesIn members, p.key ≠ .known Site.indexMember) :
    (members.map (·.slot)).Nodup := by
  induction members with
  | nil => exact List.nodup_nil
  | cons x members ih =>
    obtain ⟨hx, hplain⟩ := List.forall_mem_cons.mp h.plain
    rw [List.map_cons, List.nodup_cons, List.mem_map]
    cases x with
    | property p =>
      obtain ⟨⟨n, hkey⟩, -, -⟩ := hx
      obtain ⟨hfresh, hdistinct⟩ := List.nodup_cons.mp h.distinct
      have hbody : PropertyBody members := ⟨hplain, hdistinct, h.single⟩
      refine ⟨?_, ih hbody (hfree.imp id fun hfree q hq => hfree q (List.mem_cons_of_mem p hq))⟩
      rintro ⟨y, hy, hslot⟩
      rw [InterfaceMember.slot, hkey] at hslot
      obtain ⟨q, hq, k, hk, hslot'⟩ | ⟨hindex, hslot'⟩ := hbody.slot_cases hy
      · obtain rfl := Option.some.inj (hslot'.symm.trans hslot)
        exact hfresh (List.mem_map.mpr ⟨q, hq, hk.trans hkey.symm⟩)
      · obtain rfl := Option.some.inj (hslot'.symm.trans hslot)
        exact hfree.resolve_left hindex p (List.mem_cons_self ..) hkey
    | index i =>
      have hnone : indexesIn members = [] :=
        List.length_eq_zero_iff.mp (Nat.le_zero.mp (Nat.le_of_succ_le_succ h.single))
      have hbody : PropertyBody members := ⟨hplain, h.distinct, by simp [hnone]⟩
      refine ⟨?_, ih hbody (.inl hnone)⟩
      rintro ⟨y, hy, hslot⟩
      obtain ⟨q, hq, k, hk, hslot'⟩ | ⟨hindex, -⟩ := hbody.slot_cases hy
      · obtain rfl := Option.some.inj (hslot'.symm.trans hslot)
        exact hfree.resolve_left (List.cons_ne_nil _ _) q hq hk
      · exact hindex hnone
    | method m => exact hx.elim
    | construct span f => exact hx.elim
    | call => exact hx.elim

namespace GraphDraft

variable {d d' : GraphDraft} {s m : SymbolId} {E : List (String × SymbolId)} {F : SymbolId → SymbolFacts}
  {name : String} {flags : SymbolFlags} {isStatic : Bool} {owner : SymbolId}

/-! ## The declaration -/

theorem Names.membersOf_eq {container : Container} (h : Names d container name flags s d') (m : SymbolId) :
    d'.builder.membersOf m = d.builder.membersOf m := by
  cases h with
  | again _ halike =>
    rw [halike.builder]
    refine GraphBuilder.memberTable_modifyAside ?_ ?_ m false
    · exact fun _ => rfl
    · exact fun _ => rfl
  | new _ _ halike =>
    rw [halike.builder]
    exact GraphBuilder.memberTable_addSymbol _ _ _ m false

/-- Steps that leave members alone. -/
def sameMembers : Growth GraphDraft where
  Good _ := True
  Le d d' := ∀ m, d'.builder.membersOf m = d.builder.membersOf m
  refl _ _ := rfl
  trans h h' m := (h' m).trans (h m)

theorem typeParameters_sameMembers (d : GraphDraft) (site : Site) (ps : List TypeParameter) :
    sameMembers.Runs (site.typeParameters ps) d Anything := by
  refine Growth.runs_forM trivial fun p _ d₁ _ _ => ?_
  refine Growth.Runs.bind (P := Anything) ⟨trivial, fun m => ?_, trivial⟩ fun s d₂ _ _ _ => ?_
  · exact GraphBuilder.memberTable_addSymbol _ _ _ m false
  refine Growth.Runs.bind (P := Anything) ⟨trivial, fun m => ?_, trivial⟩
    fun _ d₃ _ _ _ => ⟨trivial, fun m => ?_, trivial⟩
  · exact GraphBuilder.memberTable_declare s _ m false
  · rw [(bindLocal_alike site p.name s d₃).builder]

/-- Before the members of an interface none are added, and these are read inside the scope of its type
parameters. -/
theorem interfaceHead_sameMembers (d : GraphDraft) (site : Site) (i : InterfaceTree) (s : SymbolId)
    (declaration : Nat) : sameMembers.Runs (Rule.interfaceHead site i s declaration) d fun inner _ =>
      inner = (site.inside ⟨d.nextScope, Site.boundTypeParameters i.typeParameters⟩).within s := by
  have hheritage : ∀ d names, sameMembers.Runs (Site.noteHeritage s declaration names) d Anything := by
    intro d names
    unfold Site.noteHeritage
    split <;> exact ⟨trivial, fun _ => rfl, trivial⟩
  refine Growth.Runs.bind (P := fun inner _ =>
    inner = site.inside ⟨d.nextScope, Site.boundTypeParameters i.typeParameters⟩) ⟨trivial, fun _ => rfl, rfl⟩ ?_
  rintro - d₁ - - rfl
  refine (hheritage d₁ _).bind fun _ d₂ _ _ _ => ?_
  refine Growth.Runs.bind (P := Anything) ⟨trivial, fun _ => rfl, trivial⟩ fun _ d₃ _ _ _ => ?_
  exact (typeParameters_sameMembers d₃ _ _).bind fun _ d₄ _ _ _ => Growth.runs_pure trivial rfl

/-- The body of an interface that has no members yet is drawn up. -/
theorem interfaceBody_draws (hd : housing.Good d) (hs : housing.There d s) (site : Site) (i : InterfaceTree)
    (declaration : Nat) (hempty : (d.builder.membersOf s).entries = []) (hplain : ∀ x ∈ i.members, x.IsPlain)
    (hslots : (i.members.map (·.slot)).Nodup) :
    List.Forall₂ (Drawn ((site.inside ⟨d.nextScope, Site.boundTypeParameters i.typeParameters⟩).within s)
      (Rule.interfaceBody site i s declaration d).2) i.members
        ((Rule.interfaceBody site i s declaration d).2.builder.membersOf s).entries := by
  obtain ⟨hgood, -, hthere⟩ := Rule.interfaceHead_obeys hd hs site i declaration
  obtain ⟨-, hsame, hinner⟩ := interfaceHead_sameMembers d site i s declaration
  have hrun : (Rule.interfaceBody site i s declaration d).2 =
      (i.members.forM ((Rule.interfaceHead site i s declaration d).1.interfaceMember s)
        (Rule.interfaceHead site i s declaration d).2).2 := rfl
  rw [hrun]
  generalize Rule.interfaceHead site i s declaration d = run at *
  obtain ⟨inner, d₁⟩ := run
  have hempty₁ : (d₁.builder.membersOf s).entries = [] := (congrArg Table.entries (hsame s)).trans hempty
  have hnone : ∀ x ∈ i.members, ∀ n ∈ x.slot, (d₁.builder.membersOf s).get? n = none := by
    intro x _ n _
    rw [Table.get?, hempty₁]
    rfl
  obtain ⟨new, -, hentries, hdrawn, -⟩ := interfaceMembers_add hplain hslots inner hgood hthere hnone
  rw [hempty₁, List.nil_append] at hentries
  rw [hentries, ← hinner]
  exact hdrawn

/-- What the declaration of an interface with a symbol brings about. -/
structure DeclaresInterface (site : Site) (container : Container) (i : InterfaceTree) (d : GraphDraft) (s : SymbolId)
    (d' : GraphDraft) : Prop where
  named : d'.named.get? (container, i.name) = some s
  kinds : d.builder.kindsOf s ++ [.interfaceDecl] <+: d'.builder.kindsOf s
  members : d.builder.kindsOf s = [] → (∀ x ∈ i.members, x.IsPlain) → (i.members.map (·.slot)).Nodup →
    List.Forall₂ (Drawn ((site.inside ⟨d.nextScope, Site.boundTypeParameters i.typeParameters⟩).within s) d')
      i.members (d'.builder.membersOf s).entries

theorem interfaceLike_run (site : Site) (place : Placement) (i : InterfaceTree) (d : GraphDraft) :
    (site.interfaceLike place i d).2 =
      (let run := site.bindHere place.container i.name SymbolFlags.interfaceBit d
       let run' := site.introduce place i.name run.1 .interfaceDecl
         (Site.flagIf i.isDeclared ModifierFlags.declareBit) run.2
       Rule.interfaceBody site i run.1 run'.1 run'.2).2 := rfl

/-- **The declaration of an interface** is one more of its symbol, and if it is the first one, it draws up the
members. -/
theorem interfaceLike_declares (hd : housing.Good d) (site : Site) (place : Placement) (i : InterfaceTree) :
    housing.Good (site.interfaceLike place i d).2 ∧
      ∃ s, DeclaresInterface site place.container i d s (site.interfaceLike place i d).2 := by
  have hnames := (bindHere_names site d place.container i.name SymbolFlags.interfaceBit).post
  have hscope : (site.bindHere place.container i.name SymbolFlags.interfaceBit d).2.nextScope = d.nextScope :=
    (bindHere_silent d site place.container i.name SymbolFlags.interfaceBit).le.2
  rw [interfaceLike_run]
  generalize site.bindHere place.container i.name SymbolFlags.interfaceBit d = run at hnames hscope ⊢
  obtain ⟨s, d₁⟩ := run
  obtain ⟨hd₂, -, hs₂⟩ := Rule.introduce_obeys hd hnames site i.name (fun _ _ => trivial)
    (show DeclarationKind.interfaceDecl ≠ .enumMember by decide) (by decide)
    (Site.flagIf i.isDeclared ModifierFlags.declareBit)
  obtain ⟨b, x, hx, hdeclared, hmembers, hb⟩ := introduce_builds site place i.name s .interfaceDecl
    (Site.flagIf i.isDeclared ModifierFlags.declareBit) d₁
  dsimp only at hnames hscope hd₂ hs₂ hdeclared hmembers hb ⊢
  generalize site.introduce place i.name s .interfaceDecl (Site.flagIf i.isDeclared ModifierFlags.declareBit) d₁ = run'
    at hd₂ hs₂ hb ⊢
  obtain ⟨declaration, d₂⟩ := run'
  dsimp only at hd₂ hs₂ hb ⊢
  have hbody := Rule.interfaceBody_obeys hd₂ hs₂ site i (fun _ _ => trivial) declaration
  have hnamed : d₂.NamedIn (Rule.interfaceBody site i s declaration d₂).2.named :=
    (Rule.interfaceBody_obeys (R := naming d₂.named) ⟨hd₂.1, fun hk => hk⟩ ⟨hs₂.1, trivial⟩ site i
      (fun _ _ => trivial) declaration).good.2
  have hkinds : d.builder.kindsOf s ++ [.interfaceDecl] <+: d₂.builder.kindsOf s := by
    have hadded : (d₁.builder.declare s x).2.kindsOf s = d.builder.kindsOf s ++ [.interfaceDecl] := by
      rw [GraphBuilder.kindsOf, GraphBuilder.kindsOf, GraphBuilder.declarationsOf_declare (hnames.flags hd.1).1,
        if_pos rfl, hnames.declarationsOf_eq, List.map_append, List.map_singleton, hx]
    rw [← hadded, hb]
    exact hdeclared.kinds s
  refine ⟨hbody.good, s, hnamed ?_, hkinds.trans (GraphBuilder.Enlarges.kinds hbody.le s),
    fun hfirst hplain hslots => ?_⟩
  · rw [hb]
    exact hnames.get?
  · have hscope₂ : d₂.nextScope = d.nextScope := by rw [hb, ← hscope]
    rw [← hscope₂]
    refine interfaceBody_draws hd₂ hs₂ site i declaration ?_ hplain hslots
    rw [hb]
    change (b.membersOf s).entries = []
    rw [hmembers s, hnames.membersOf_eq s]
    exact (hd.2 s hfirst).1

/-! ## Behind the declaration -/

/-- **The members of a symbol are settled**: they are these, and what is known of them is this, unless the symbol is
declared again. -/
structure Settled (s : SymbolId) (E : List (String × SymbolId)) (F : SymbolId → SymbolFacts) (d : GraphDraft) :
    Prop where
  homed : d.Homed
  declared : d.builder.kindsOf s ≠ []
  members : Redeclared s d ∨ (d.builder.membersOf s).entries = E ∧ ∀ e ∈ E, d.factsOf e.2 = F e.2

/-- The symbol is neither the settled one nor one of its members, unless that is declared again. -/
def Aloof (s : SymbolId) (E : List (String × SymbolId)) (d : GraphDraft) (m : SymbolId) : Prop :=
  Redeclared s d ∨ m ≠ s ∧ ∀ e ∈ E, e.2 ≠ m

theorem Aloof.mono (h : Aloof s E d m) (hle : d.builder.Enlarges d'.builder) : Aloof s E d' m :=
  h.imp_left fun h => h.mono hle

namespace Settled

/-- A member that is settled is in the table of its owner. -/
theorem get?_of_mem (hentries : (d.builder.membersOf s).entries = E) {e : String × SymbolId} (he : e ∈ E) :
    (d.builder.memberTable s false).get? e.1 = some e.2 :=
  Table.get?_eq_some_iff.mpr (hentries ▸ he)

theorem within (h : Settled s E F d) (hentries : (d.builder.membersOf s).entries = E) {e : String × SymbolId}
    (he : e ∈ E) : e.2.Within d.extent :=
  h.homed.inside.builder.within_of_memberTable (get?_of_mem hentries he)

/-- A step that leaves the settled members alone, if the symbol is not declared again. -/
theorem grow (h : Settled s E F d) (hhomed : d'.Homed) (hle : d.builder.Enlarges d'.builder)
    (hkept : ¬ Redeclared s d' → (d.builder.membersOf s).entries = E →
      d'.builder.membersOf s = d.builder.membersOf s ∧ ∀ e ∈ E, d'.factsOf e.2 = d.factsOf e.2) :
    Settled s E F d' := by
  refine ⟨hhomed, fun hnil => h.declared (List.prefix_nil.mp (hnil ▸ hle.kinds s)), ?_⟩
  by_cases hagain : Redeclared s d'
  · exact .inl hagain
  · obtain ⟨hentries, hfacts⟩ := h.members.resolve_left fun h => hagain (h.mono hle)
    obtain ⟨htable, hsame⟩ := hkept hagain hentries
    exact .inr ⟨htable ▸ hentries, fun e he => (hsame e he).trans (hfacts e he)⟩

/-- A symbol that is new is aloof. -/
theorem aloof_next (h : Settled s E F d) (hle : d.builder.Enlarges d'.builder) : Aloof s E d' d.builder.next := by
  obtain hagain | ⟨hentries, -⟩ := h.members
  · exact .inl (hagain.mono hle)
  · refine .inr ⟨(GraphBuilder.ne_next_of_within (GraphBuilder.within_of_kindsOf h.declared)).symm, fun e he => ?_⟩
    exact GraphBuilder.ne_next_of_within (h.within hentries he)

theorem addDeclared (h : Settled s E F d) (name : String) (flags : SymbolFlags) (x : Declaration) :
    Settled s E F { d with builder := d.builder.addDeclared name flags x } :=
  h.grow (h.homed.addDeclared name flags x) (.addDeclared name flags x) fun _ hentries =>
    ⟨GraphBuilder.memberTable_addDeclared d.builder name flags x s false,
      fun _ he => factsOf_addDeclared (h.within hentries he) name flags x⟩

/-- Only what is aloof gets members. -/
theorem addMember (h : Settled s E F d) (howner : owner.Within d.extent) (haloof : Aloof s E d owner) (name : String)
    (flags : SymbolFlags) (isStatic : Bool) (x : Declaration) :
    Settled s E F { d with builder := d.builder.addMember owner name flags isStatic x } := by
  have hle : d.builder.Enlarges (d.builder.addMember owner name flags isStatic x) :=
    .addMember owner name flags isStatic x
  refine h.grow (h.homed.addMember howner name flags isStatic x) hle fun hagain hentries => ?_
  obtain ⟨hne, -⟩ := haloof.resolve_left fun h => hagain (h.mono hle)
  refine ⟨?_, fun _ he => factsOf_addMember (h.within hentries he) owner name flags isStatic x⟩
  exact (GraphBuilder.memberTable_addMember howner name flags isStatic x s false).trans (if_neg fun hs => hne hs.1.symm)

/-- To declare the symbol itself is to declare it again; what is declared otherwise is aloof. -/
theorem declareAgain (h : Settled s E F d) (hm : m.Within d.extent) (flags : SymbolFlags) (x : Declaration)
    (hother : m ≠ s → Aloof s E d m) :
    Settled s E F { d with builder := d.builder.declareAgain m flags x } ∧
      Aloof s E { d with builder := d.builder.declareAgain m flags x } m := by
  have hle : d.builder.Enlarges (d.builder.declareAgain m flags x) := .declareAgain m flags x
  by_cases hms : m = s
  · have hagain : Redeclared s { d with builder := d.builder.declareAgain m flags x } := by
      change 1 < ((d.builder.declareAgain m flags x).kindsOf s).length
      rw [GraphBuilder.kindsOf_declareAgain hm, if_pos hms.symm, List.length_append, hms]
      exact Nat.lt_add_of_pos_left (List.length_pos_iff.mpr h.declared)
    exact ⟨h.grow (h.homed.declareAgain m flags x) hle fun hnot => absurd hagain hnot, .inl hagain⟩
  · have haloof := hother hms
    refine ⟨h.grow (h.homed.declareAgain m flags x) hle fun hagain hentries => ?_, haloof.mono hle⟩
    obtain ⟨-, hmembers⟩ := haloof.resolve_left fun h => hagain (h.mono hle)
    exact ⟨GraphBuilder.memberTable_declareAgain d.builder m flags x s false,
      fun e he => factsOf_declareAgain (h.within hentries he) hm (hmembers e he) flags x⟩

/-- What has a name is aloof. -/
theorem aloof_of_named (h : Settled s E F d) {k : Container × String} (hname : d.named.get? k = some m)
    (hne : m ≠ s) : Aloof s E d m := by
  obtain hagain | ⟨hentries, -⟩ := h.members
  · exact .inl hagain
  · refine .inr ⟨hne, fun e he heq => ?_⟩
    exact Bool.false_ne_true (h.homed.exports hname (heq ▸ get?_of_mem hentries he)).2

/-- What is in the table of another symbol is aloof. -/
theorem aloof_of_member (h : Settled s E F d) (howner : Aloof s E d owner)
    (hget : (d.builder.memberTable owner isStatic).get? name = some m) (hne : m ≠ s) : Aloof s E d m := by
  obtain hagain | ⟨hentries, -⟩ := h.members
  · exact .inl hagain
  · refine howner.imp_right fun ⟨howner, _⟩ => ⟨hne, fun e he heq => ?_⟩
    exact howner (h.homed.tables hget (heq ▸ get?_of_mem hentries he)).1

theorem setDoc (h : Settled s E F d) (m : SymbolId) (doc : String) :
    Settled s E F { d with builder := d.builder.setDoc m doc } :=
  h.grow (h.homed.setDoc m doc) (.modifyAside (fun _ => rfl) (fun _ => rfl) fun _ => rfl) fun _ hentries =>
    ⟨GraphBuilder.memberTable_setDoc m doc s false, fun _ he => factsOf_setDoc (h.within hentries he) m doc⟩

theorem exportAs (h : Settled s E F d) (hm : m.Within d.extent) {container : SymbolId}
    (hbelongs : d.BelongsTo m container) (name : String) :
    Settled s E F { d with builder := d.builder.exportAs container name m } :=
  h.grow (h.homed.exportAs hm hbelongs name) (.modifyAside (fun _ => rfl) (fun _ => rfl) fun _ => rfl)
    fun _ hentries =>
      ⟨by simpa using GraphBuilder.memberTable_exportAs d.builder container name m s false,
        fun _ he => factsOf_exportAs (h.within hentries he) container name m⟩

/-- What is noted of something that is aloof is no matter. -/
theorem noted (h : Settled s E F d) (hbuilder : d'.builder = d.builder) (hnamed : d'.named = d.named)
    (hnotes : ∀ m', m ≠ m' → d'.notesOf m' = d.notesOf m') (haloof : Aloof s E d m) : Settled s E F d' := by
  have hinside : d'.Inside := by
    refine ⟨?_, ?_⟩
    · rw [hbuilder]
      exact h.homed.inside.builder
    · change ∀ s ∈ d'.named.values, s.Within d'.builder.extent
      rw [hbuilder, hnamed]
      exact h.homed.inside.named
  have hle : d.builder.Enlarges d'.builder := hbuilder ▸ .refl _
  refine h.grow (h.homed.of_same hinside hnamed fun _ _ => by rw [hbuilder]) hle fun hagain _ => ?_
  obtain ⟨-, hmembers⟩ := haloof.resolve_left fun h => hagain (h.mono hle)
  exact ⟨by rw [hbuilder], fun e he => factsOf_noted hbuilder (hnotes e.2 (hmembers e he).symm)⟩

end Settled

/-- **What is read behind a declaration** leaves the members of its symbol alone. -/
def settling (s : SymbolId) (E : List (String × SymbolId)) (F : SymbolId → SymbolFacts) : Rule where
  Inv := Settled s E F
  Open d m := m.Within d.extent ∧ Aloof s E d m
  open_mono hle hm := ⟨hle.within hm.1, hm.2.mono hle⟩
  alike {d d'} halike h := by
    have hle : d.builder.Enlarges d'.builder := halike.builder ▸ .refl _
    refine h.grow (h.homed.alike halike) hle fun _ _ => ⟨by rw [halike.builder], fun e _ => ?_⟩
    exact factsOf_noted halike.builder (notesOf_alike halike e.2)
  fresh name flags x h _ := ⟨h.addDeclared name flags x, GraphBuilder.next_within_addDeclared _ name flags x,
    h.aloof_next (.addDeclared name flags x)⟩
  named {d} container name flags x h _ hnone := by
    have hadded := h.addDeclared name flags x
    refine ⟨{ hadded with homed := h.homed.named (container, name) name flags x hnone },
      GraphBuilder.next_within_addDeclared _ name flags x, h.aloof_next (.addDeclared name flags x)⟩
  again container name m flags x h _ hget hm := by
    obtain ⟨hsettled, haloof⟩ := h.declareAgain hm flags x fun hne => h.aloof_of_named hget hne
    exact ⟨hsettled, (GraphBuilder.Enlarges.declareAgain m flags x).within hm, haloof⟩
  member owner name flags isStatic x h howner _ _ _ :=
    ⟨h.addMember howner.1 howner.2 name flags isStatic x,
      GraphBuilder.next_within_addMember _ owner name flags isStatic x,
      h.aloof_next (.addMember owner name flags isStatic x)⟩
  memberAgain owner name m flags isStatic x h howner _ _ hget hm := by
    obtain ⟨hsettled, haloof⟩ := h.declareAgain hm flags x fun hne => h.aloof_of_member howner.2 hget hne
    exact ⟨hsettled, (GraphBuilder.Enlarges.declareAgain m flags x).within hm, haloof⟩
  documented doc h _ := h.setDoc _ doc
  exported container name h hm hbelongs _ := h.exportAs hm.1 hbelongs name
  typed h hm _ := h.noted rfl rfl (fun _ hne => notesOf_typed hne _) hm.2
  aliased _ _ h hm := h.noted rfl rfl (fun _ _ => rfl) hm.2
  signed _ h hm _ := h.noted rfl rfl (fun _ hne => notesOf_signed hne) hm.2
  indexed _ h hm _ _ _ _ := h.noted rfl rfl (fun _ hne => notesOf_indexed hne) hm.2
  classed _ h hm := h.noted rfl rfl (fun _ hne => notesOf_classed hne) hm.2
  linked _ h hm := h.noted rfl rfl (fun _ _ => rfl) hm.2

theorem settling_enumerates (s : SymbolId) (E : List (String × SymbolId)) (F : SymbolId → SymbolFacts) :
    (settling s E F).Enumerates := by
  refine Rule.enumerates_of_members (fun owner name x h howner _ _ _ _ => ?_)
    (fun {d} owner name m x h howner _ _ _ hget hm => ?_) fun {d m} members h hm => ?_
  · exact ⟨h.addMember howner.1 howner.2 name _ true x, GraphBuilder.next_within_addMember _ owner name _ true x,
      h.aloof_next (.addMember owner name _ true x)⟩
  · have hlisted : (d.builder.memberTable owner true).get? name = some m := hget
    obtain ⟨hsettled, haloof⟩ := h.declareAgain hm SymbolFlags.enumMemberBit x (h.aloof_of_member howner.2 hlisted)
    exact ⟨hsettled, (GraphBuilder.Enlarges.declareAgain m _ x).within hm, haloof⟩
  · obtain ⟨hbuilder, hnamed⟩ := noteEnum_aside m members d
    exact Settled.noted h hbuilder hnamed (fun _ hne => notesOf_noteEnum hne members) hm.2

theorem settling_admitsAll (s : SymbolId) (E : List (String × SymbolId)) (F : SymbolId → SymbolFacts) :
    (settling s E F).AdmitsAll where
  may _ _ := trivial
  counts _ _ := trivial
  enumerates := settling_enumerates s E F
  files := {
    script := fun {d} path ⟨_, h⟩ => h.grow (h.homed.addScript path) (.addScript path) fun _ _ => ⟨rfl, fun _ _ => rfl⟩
    newModule := fun {d} path ⟨_, h⟩ => by
      have hle : d.builder.Enlarges (d.builder.addModule path).2 := .addModule path
      have hadded := h.homed.addModule path
      refine h.grow (hadded.of_same { hadded.inside with } rfl fun _ _ => rfl) hle fun _ hentries =>
        ⟨GraphBuilder.memberTable_addSymbol d.builder _ _ s false, fun e he => ?_⟩
      have hin := h.within hentries he
      refine factsOf_eq (b := (d.builder.addModule path).2) (hle.names hin) ?_ ?_
      · exact (GraphBuilder.flagsOf_addSymbol d.builder _ _ e.2).trans (if_neg (GraphBuilder.ne_next_of_within hin))
      · exact GraphBuilder.declarationsOf_addSymbol d.builder _ _ e.2 }

/-! ## Interfaces of sources -/

/-- The symbol is declared once, as an interface in the sources. -/
structure SoleInterface (sources : List ParsedSource) (c : Container) (i : InterfaceTree) (s : SymbolId) : Prop where
  declared : (c, .interfaceLike i) ∈ declarationsOf sources
  named : (ofSources sources).named.get? (c, i.name) = some s
  once : ((ofSources sources).builder.kindsOf s).length = 1

/-- **An interface that is declared once has the members of its body**, if their names are those of its properties,
and that of an index signature is none of them. They are read where the interface stands, inside the scope of its type
parameters, which is the next one. -/
theorem ofSources_drawn {sources : List ParsedSource} {c : Container} {i : InterfaceTree}
    (hi : SoleInterface sources c i s) (hbody : PropertyBody i.members)
    (hfree : indexesIn i.members = [] ∨ ∀ p ∈ propertiesIn i.members, p.key ≠ .known Site.indexMember) :
    (ofSources sources).builder.kindsOf s = [.interfaceDecl] ∧ ∃ (site : Site) (place : Placement)
      (before : GraphDraft), ComesTo sources site place (.interfaceLike i) before ∧ place.container = c ∧
        List.Forall₂ (Drawn ((site.inside ⟨before.nextScope, Site.boundTypeParameters i.typeParameters⟩).within s)
          (ofSources sources)) i.members ((ofSources sources).builder.membersOf s).entries := by
  obtain ⟨site, place, before, hcomes, hplace⟩ := ofSources_comesTo hi.declared
  obtain ⟨hfirst, hrest⟩ := hcomes.leads
  have hbefore := hfirst.obeys housing_admitsAll ⟨start_sound.inside, start_housed⟩
  have hdeclares := interfaceLike_declares hbefore site place i
  have hhomedBefore := hfirst.obeys homing_admitsAll ⟨start_sound.inside, start_homed⟩
  obtain ⟨⟨-, hhomed⟩, -, -⟩ := Rule.declared_obeys hhomedBefore site place hcomes.single (fun hk => hk)
    (fun _ _ => trivial) fun e _ => homing_admitsAll.admits _ _ e
  rw [Site.declared] at hhomed hrest
  obtain ⟨hgood, s', hdeclared⟩ := hdeclares
  generalize (site.interfaceLike place i before).2 = behind at *
  -- The name leads to the same symbol in the end.
  obtain ⟨-, hle, hnames⟩ := hrest.keeps_names hgood.1 (by simp)
  have hnamed := hnames hdeclared.named
  rw [hplace] at hnamed
  obtain rfl := Option.some.inj (hi.named.symm.trans hnamed)
  obtain ⟨hfirst, hkinds⟩ := eq_singleton_of_prefix (hdeclared.kinds.trans (hle.kinds s)) hi.once
  have hdrawn := hdeclared.members hfirst hbody.plain (hbody.nodup_slots hfree)
  have hsettled : Settled s (behind.builder.membersOf s).entries behind.factsOf behind :=
    ⟨hhomed, List.ne_nil_of_mem (hdeclared.kinds.subset (List.mem_append_right _ (List.mem_singleton_self _))),
      .inr ⟨rfl, fun _ _ => rfl⟩⟩
  have hend := hrest.obeys (settling_admitsAll s _ _) ⟨hgood.1, hsettled⟩
  obtain ⟨hentries, hfacts⟩ := hend.2.members.resolve_left fun h => absurd hi.once h.ne'
  refine ⟨hkinds, site, place, before, hcomes, hplace, ?_⟩
  rw [hentries]
  rw [List.forall₂_iff_zip] at hdrawn ⊢
  exact ⟨hdrawn.1, fun {x e} hxe => (hdrawn.2 hxe).kept hle (hfacts e (List.of_mem_zip hxe).2)⟩

end GraphDraft

end ApiDocs
