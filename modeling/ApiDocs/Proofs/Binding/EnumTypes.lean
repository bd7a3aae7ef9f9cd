import ApiDocs.Proofs.Binding.Annotations
import ApiDocs.Proofs.Binding.InheritedConstructors
import ApiDocs.Proofs.Binding.TouchedPlaces

/-!
# Types of enums

When the names are settled, enums get their types, and no other types are there yet. A member whose value is
known has a type of its own, which holds the value; any other member is a number. So what a name of an enum or
of a member stands for can be told from its type alone.

## Main definitions

* `Linking.HasMemberType`: a member has the type of its value.

## Main results

* `GraphDraft.namesSettled_telling`: when types begin to be made, those of enums tell what they are.
-/

namespace ApiDocs

namespace Linking

variable {E : List EnumDraft} {l l' : Linking} {s : SymbolId} {t : TypeId} {value : Option Literal}

/-! ## Types of members -/

theorem shape_enumLiteral {x : TypeNode} {v : Literal}
    (hflags : x.flags = TypeFlags.enumLiteralBit ∪ match v with
      | .number _ => TypeFlags.numberLiteralBit
      | .text _ => TypeFlags.stringLiteralBit)
    (hliteral : x.literal = some v) : x.shape = .enumLiteral (primitiveOf v) v := by
  have hbits : x.flags.has TypeFlags.enumLiteralBit = true ∧ x.flags.has TypeFlags.unionBit = false ∧
      x.flags.has TypeFlags.numberLiteralBit = (primitiveOf v == "number") := by
    rw [hflags]
    cases v <;> (simp only [primitiveOf]; decide)
  rw [TypeNode.shape, if_pos hbits.1, TypeNode.enumShape, if_neg (by simp [hbits.2.1]), hliteral]
  cases v <;> simp [hbits.2.2, primitiveOf]

/-- The type is that of a member with this value. -/
def IsMemberType (value : Option Literal) (t : TypeId) (l : Linking) : Prop :=
  ∃ x, l.builder.typeCore? t = some x ∧ IsMemberNode x value

/-- The member has the type of the value. -/
def HasMemberType (s : SymbolId) (value : Option Literal) (l : Linking) : Prop :=
  ∃ t, l.builder.typeOf s = some t ∧ IsMemberType value t l

/-- What is kept as the type of an enum or of a member is such a type. -/
def EnumsTell (E : List EnumDraft) (l : Linking) : Prop :=
  ∀ {s t}, l.enumTypes.get? s = some t → ∃ x, l.builder.typeCore? t = some x ∧ IsEnumNode E s x

/-- Enums get types that tell what they are. -/
def enumTelling (E : List EnumDraft) : Growth Linking where
  Good l := l.Prepared ∧ l.EnumsTell E
  Le := enumerating.Le
  refl := enumerating.refl
  trans := enumerating.trans

theorem isMemberType_stable (value : Option Literal) (t : TypeId) : (enumTelling E).Stable (IsMemberType value t) := by
  rintro l l' hle ⟨x, hx, hnode⟩
  exact ⟨x, hle.2.type hx, hnode⟩

/-- A step that keeps the table of the types of enums. -/
theorem enumTelling_of_enumerating {α : Type} {x : LinkM α} {P : α → Linking → Prop} (hl : l.EnumsTell E)
    (h : enumerating.Runs x l P) (htable : (x l).2.enumTypes = l.enumTypes) : (enumTelling E).Runs x l P := by
  refine ⟨⟨h.good, fun {s t} ht => ?_⟩, h.le, h.post⟩
  rw [htable] at ht
  obtain ⟨y, hy, hshape⟩ := hl ht
  exact ⟨y, h.le.2.type hy, hshape⟩

/-- The type that is made for a member is that of its value. -/
theorem enumMemberType_telling (hl : (enumTelling E).Good l) (hs : s.Within l.extent) (value : Option Literal) :
    (enumTelling E).Runs (enumMemberType s value) l fun t l' => IsEnumType s t l' ∧ IsMemberType value t l' := by
  refine enumTelling_of_enumerating hl.2 ?_ (by cases value <;> rfl)
  cases value with
  | some v =>
    have hruns := build_runs hl.1.orderly.sound (GraphBuilder.enumLiteral_runs hl.1.orderly.sound.builder hs v)
    have hmade : making.Runs (build (·.enumLiteral s v)) l fun t l' =>
      t.Within l'.extent ∧ l'.builder.typeCore? t = some _ := addType_making hl.1.orderly hruns
    exact build_enumerating hl.1 (hmade.mono fun _ t ht =>
      ⟨⟨ht.1, _, ht.2, .inl rfl⟩, _, ht.2, shape_enumLiteral rfl rfl⟩)
  | none =>
    have hmade := intrinsic_takesForm (C := fun _ => True) hl.1.orderly
      (show keywordFlags? "number" = some TypeFlags.numberBit by decide)
    refine build_enumerating hl.1 (hmade.mono fun _ t ht => ?_)
    have hnode := (ht.form _ (.refl _) trivial).typeCore?_eq
    exact ⟨⟨ht.within, numberNode, hnode, .inr rfl⟩, numberNode, hnode, rfl⟩

/-- The type that is kept of an enum or of a member tells what it is. -/
theorem storeEnumType_telling (hl : (enumTelling E).Good l) (ht : IsEnumType s t l)
    (htells : ∃ x, l.builder.typeCore? t = some x ∧ IsEnumNode E s x) :
    (enumTelling E).Runs (do
      rebuild (·.setType s t)
      modify fun l => { l with enumTypes := l.enumTypes.insert s t }) l Anything := by
  have hstored := storeEnumType_enumerating hl.1 ht
  refine ⟨⟨hstored.good, fun {s' t'} hget => ?_⟩, hstored.le, trivial⟩
  obtain ⟨rfl, rfl⟩ | hget := Table.get?_insert_cases hget
  · obtain ⟨x, hx, hshape⟩ := htells
    exact ⟨x, hstored.le.2.type hx, hshape⟩
  · obtain ⟨x, hx, hshape⟩ := hl.2 hget
    exact ⟨x, hstored.le.2.type hx, hshape⟩

/-- Give a member its type, which is part of that of the enum if the value is known. -/
def linkMember (member : SymbolId) (value : Option Literal) : LinkM (Option TypeId) := do
  let t ← enumMemberType member value
  rebuild (·.setType member t)
  modify fun l => { l with enumTypes := l.enumTypes.insert member t }
  return if value.isSome then some t else none

/-- A member gets its type. -/
theorem linkMember_telling (hl : (enumTelling E).Good l) (hs : s.Within l.extent) {y : EnumDraft} (hy : y ∈ E)
    (hmember : (s, value) ∈ y.members) :
    (enumTelling E).Runs (linkMember s value) l fun o l' =>
        (∀ t ∈ o, t.Within l'.extent) ∧ HasMemberType s value l' := by
  refine (enumMemberType_telling hl hs value).bind fun t l₁ hl₁ hle₁ ht => ?_
  obtain ⟨x, hx, hnode⟩ := ht.2
  have hstored := storeEnumType_telling hl₁ ht.1 ⟨x, hx, .member hy hmember hnode⟩
  have hset : (l₁.builder.setType s t).typeOf s = some t := typeOf_setType_self (hs.mono hle₁.1.1)
  have hfinal : (enumTelling E).Runs (do
      rebuild (·.setType s t)
      modify fun l => { l with enumTypes := l.enumTypes.insert s t }) l₁ fun _ l' => l'.builder.typeOf s = some t :=
    ⟨hstored.good, hstored.le, hset⟩
  refine hfinal.bind fun _ l₂ hl₂ hle₂ hset => Growth.runs_pure hl₂ ⟨fun t' ht' => ?_, t, hset, ?_⟩
  · split at ht'
    · cases ht'
      exact ht.1.1.mono hle₂.1.1
    · cases ht'
  · exact isMemberType_stable value t _ _ hle₂ ht.2

theorem linkMember_touching {S : SymbolId → Prop} {T : SymbolId → Nat → Prop} (hs : S s)
    (value : Option Literal) :
    (touching S T).Runs (linkMember s value) l Anything := by
  refine (enumMemberType_touching s value).bind fun t _ _ _ _ => ?_
  refine (setType_touching hs).bind fun _ _ _ _ _ => ?_
  exact (store_touching rfl rfl).bind fun _ _ _ _ _ => Growth.runs_pure trivial trivial

/-- A member keeps its type where others get theirs. -/
theorem HasMemberType.frame (h : HasMemberType s value l) (hle : (enumTelling E).Le l l')
    {S : SymbolId → Prop} {T : SymbolId → Nat → Prop} (htouch : (touching S T).Le l l') (hs : ¬ S s) :
    HasMemberType s value l' := by
  obtain ⟨t, ht, hnode⟩ := h
  exact ⟨t, (htouch.types s hs).trans ht, isMemberType_stable value t _ _ hle hnode⟩

/-- Members get their types. One that occurs once has that of its value in the end. -/
theorem linkMembers_telling {members : List (SymbolId × Option Literal)} (hl : (enumTelling E).Good l)
    (hmembers : ∀ m ∈ members, m.1.Within l.extent) {y : EnumDraft} (hy : y ∈ E)
    (hlisted : ∀ m ∈ members, m ∈ y.members) :
    (enumTelling E).Runs (members.mapM fun m => linkMember m.1 m.2) l fun found l' =>
      (∀ t ∈ found.filterMap id, t.Within l'.extent) ∧
      ∀ x v, members.filter (·.1 = x) = [(x, v)] → HasMemberType x v l' := by
  induction members generalizing l with
  | nil => exact Growth.runs_pure hl ⟨by simp, by simp⟩
  | cons m members ih =>
    rw [List.mapM_cons]
    refine (linkMember_telling hl (hmembers m (by simp)) hy (hlisted m (by simp))).bind
      fun o l₁ hl₁ hle₁ ⟨ho, hm⟩ => ?_
    have hrest := ih hl₁ (fun m' hm' => (hmembers m' (by simp [hm'])).mono hle₁.1.1)
      fun m' hm' => hlisted m' (by simp [hm'])
    have htouch : (touching (fun s => ∃ m ∈ members, m.1 = s) fun _ _ => False).Runs
        (members.mapM fun m => linkMember m.1 m.2) l₁ fun found _ => ∀ _ ∈ found, True :=
      Growth.runs_mapM trivial (fun _ _ _ _ h => h) fun m hm _ _ _ => linkMember_touching ⟨m, hm, rfl⟩ m.2
    refine (hrest.framed htouch).bind fun found l₂ hl₂ hle₂ ⟨⟨hfound, hmembers₂⟩, hframe⟩ =>
      Growth.runs_pure hl₂ ⟨?_, fun x v honce => ?_⟩
    · intro t ht
      cases o with
      | none => exact hfound t ht
      | some t' =>
        obtain rfl | ht := List.mem_cons.mp ht
        · exact (ho t rfl).mono hle₂.1.1
        · exact hfound t ht
    · rw [List.filter_cons] at honce
      split at honce
      · obtain ⟨rfl, hnone⟩ := List.cons.inj honce
        refine hm.frame hle₂ hframe ?_
        rintro ⟨m', hm', hx⟩
        simpa [hx] using List.filter_eq_nil_iff.mp hnone m' hm'
      · exact hmembers₂ x v honce

/-- Give an enum its type, of which the types of members whose values are known are part. -/
def linkUnion (enum : SymbolId) (literals : List TypeId) : LinkM Unit := do
  let t ← build (·.enumType enum literals)
  rebuild (·.setType enum t)
  modify fun l => { l with enumTypes := l.enumTypes.insert enum t }

/-- An enum gets the type with its members. -/
theorem linkUnion_telling (hl : (enumTelling E).Good l) (hs : s.Within l.extent) {y : EnumDraft} (hy : y ∈ E)
    (hsymbol : y.symbol = s) {literals : List TypeId}
    (hliterals : ∀ t ∈ literals, t.Within l.extent) :
    (enumTelling E).Runs (linkUnion s literals) l fun _ l' =>
      ∃ t x, l'.builder.typeOf s = some t ∧ l'.builder.typeCore? t = some x ∧ x.shape = .enumUnion s := by
  have hruns := build_runs hl.1.orderly.sound (GraphBuilder.enumType_runs hl.1.orderly.sound.builder hs hliterals)
  have htype := enumTelling_of_enumerating hl.2 (build_enumerating hl.1 (addType_making hl.1.orderly hruns)) rfl
  refine htype.bind fun t l₁ hl₁ hle₁ ht => ?_
  have hshape : ∀ x : TypeNode, x.flags = TypeFlags.enumLiteralBit ∪ TypeFlags.unionBit ∪ TypeFlags.enumBit →
      x.symbol = some s → x.shape = .enumUnion s := fun _ => TypeNode.shape_of_enum
  have hstored := storeEnumType_telling hl₁ ⟨ht.1, _, ht.2, .inl rfl⟩ ⟨_, ht.2, .enum hy hsymbol (hshape _ rfl rfl)⟩
  refine ⟨hstored.good, hstored.le, t, _, ?_, hstored.le.2.type ht.2, hshape _ rfl rfl⟩
  exact typeOf_setType_self (hs.mono hle₁.1.1)

theorem linkUnion_touching {S : SymbolId → Prop} {T : SymbolId → Nat → Prop} (hs : S s) (literals : List TypeId) :
    (touching S T).Runs (linkUnion s literals) l Anything :=
  addType_touching.bind fun _ _ _ _ _ => (setType_touching hs).bind fun _ _ _ _ _ => store_touching rfl rfl

/-- An enum and its members get their types. -/
theorem linkEnum_telling (hl : (enumTelling E).Good l) {draft : EnumDraft} (hdraft : draft.Within l.extent)
    (hmem : draft ∈ E) :
    (enumTelling E).Runs (linkEnum draft) l fun _ l' =>
      ∀ x v, draft.symbol ≠ x → draft.members.filter (·.1 = x) = [(x, v)] → HasMemberType x v l' := by
  refine (linkMembers_telling hl hdraft.members hmem fun _ => id).bind
    fun found l₁ hl₁ hle₁ ⟨hfound, hmembers⟩ => ?_
  have hunion := linkUnion_telling hl₁ (hdraft.symbol.mono hle₁.1.1) hmem rfl hfound
  have htouch := linkUnion_touching (S := (· = draft.symbol)) (T := fun _ _ => False) (l := l₁) rfl
    (found.filterMap id)
  exact ⟨hunion.good, hunion.le, fun x v hx honce =>
    (hmembers x v honce).frame hunion.le htouch.le (Ne.symm hx)⟩

/-- Enums and their members get their types. A member that occurs once has that of its value. -/
theorem linkEnums_telling {drafts : List EnumDraft} (hl : (enumTelling E).Good l)
    (hdrafts : ∀ x ∈ drafts, x.Within l.extent) (hlisted : ∀ x ∈ drafts, x ∈ E) :
    (enumTelling E).Runs (drafts.forM linkEnum) l fun _ l' =>
      ∀ x v, (∀ e ∈ drafts, e.symbol ≠ x) →
        (drafts.flatMap (·.members)).filter (·.1 = x) = [(x, v)] → HasMemberType x v l' := by
  induction drafts generalizing l with
  | nil => exact Growth.runs_pure hl (by simp)
  | cons draft drafts ih =>
    change (enumTelling E).Runs (linkEnum draft >>= fun _ => drafts.forM linkEnum) l _
    refine (linkEnum_telling hl (hdrafts draft (by simp)) (hlisted draft (by simp))).bind
      fun _ l₁ hl₁ hle₁ hdraft => ?_
    have hrest := ih hl₁ (fun e he => (hdrafts e (by simp [he])).mono hle₁.1.1)
      fun e he => hlisted e (by simp [he])
    have htouch : (touching (fun s => ∃ e ∈ drafts, e.symbol = s ∨ ∃ m ∈ e.members, m.1 = s)
        fun _ _ => False).Runs (drafts.forM linkEnum) l₁ Anything :=
      Growth.runs_forM trivial fun e he _ _ _ =>
        linkEnum_touching ⟨e, he, .inl rfl⟩ fun m hm => ⟨e, he, .inr ⟨m, hm, rfl⟩⟩
    refine ⟨hrest.good, hrest.le, fun x v hx honce => ?_⟩
    rw [List.flatMap_cons, List.filter_append, List.append_eq_singleton_iff] at honce
    obtain ⟨-, honce⟩ | ⟨honce, hnone⟩ := honce
    · exact hrest.post x v (fun e he => hx e (by simp [he])) honce
    · refine (hdraft x v (hx draft (by simp)) honce).frame hrest.le htouch.le ?_
      rintro ⟨e, he, hsymbol | ⟨m, hm, hsymbol⟩⟩
      · exact hx e (by simp [he]) hsymbol
      · have hnot := List.filter_eq_nil_iff.mp hnone m (List.mem_flatMap.mpr ⟨e, he, hm⟩)
        simp [hsymbol] at hnot

end Linking

/-! ## When types begin to be made -/

namespace GraphDraft

variable {d : GraphDraft}

/-- What has no types yet, and only the library declares `Array`. -/
structure Untyped (d : GraphDraft) : Prop where
  intrinsics : d.builder.intrinsics = .empty
  signatures : d.builder.graph.signatures = #[]
  types : ∀ s, d.builder.typeOf s = none
  indexes : ∀ s i, d.builder.indexAt s i = none
  array : d.builder.nameOf GraphBuilder.arraySymbol = "Array"

/-- Settling what names stand for gives types to enums and their members only. -/
theorem settleNames_touching (d : GraphDraft) (l : Linking) :
    (Linking.touching (fun s => ∃ e ∈ d.enums, e.symbol = s ∨ ∃ m ∈ e.members, m.1 = s)
      fun _ _ => False).Runs d.settleNames l Linking.Anything := by
  refine (Linking.linkStars_touching d.stars).bind fun _ _ _ _ _ => ?_
  refine (Growth.runs_forM trivial fun x _ _ _ _ => Linking.linkAlias_touching x).bind fun _ _ _ _ _ => ?_
  refine (Growth.runs_forM trivial fun x _ _ _ _ => Linking.linkHeritage_touching x).bind fun _ _ _ _ _ => ?_
  exact Growth.runs_forM trivial fun e he _ _ _ =>
    Linking.linkEnum_touching ⟨e, he, .inl rfl⟩ fun m hm => ⟨e, he, .inr ⟨m, hm, rfl⟩⟩

/-- When all names are settled, enums and their members have their types. -/
theorem settleNames_enums (hd : d.Sound) (hbare : d.builder.intrinsics = .empty) :
    (Linking.enumTelling d.enums).Good d.namesSettled ∧ Linking.growth.Le d.begun d.namesSettled ∧
      ∀ x v, (∀ e ∈ d.enums, e.symbol ≠ x) →
        (d.enums.flatMap (·.members)).filter (·.1 = x) = [(x, v)] → d.namesSettled.HasMemberType x v := by
  have hnames := linkNames_naming (d := d) (begun_blank hd hbare)
  have hnotes := hd.notes.mono hnames.le.1
  have hgood : (Linking.enumTelling d.enums).Good _ := ⟨hnames.good.prepared, fun {s t} ht => by
    rw [hnames.good.enumTypes] at ht
    cases ht⟩
  have henums := Linking.linkEnums_telling hgood hnotes.enums fun _ => id
  exact ⟨henums.good, Linking.growth.trans hnames.le henums.le.1, henums.post⟩

/-- **When types begin to be made, those of enums tell what they are**, and no others are there. -/
theorem namesSettled_telling (hd : d.Sound) (hu : d.Untyped) :
    (Linking.relying (Linking.Telling d.enums)).Good d.namesSettled := by
  obtain ⟨⟨hprepared, henums⟩, -, -⟩ := settleNames_enums hd hu.intrinsics
  refine ⟨hprepared.orderly, ?_, fun {s t} ht => ?_, fun {s t} ht => ?_⟩
  · have harray : ((d.builder.graph.symbol? GraphBuilder.arraySymbol).map (·.name)).getD "" = "Array" := hu.array
    cases hx : d.builder.graph.symbol? GraphBuilder.arraySymbol with
    | none =>
      rw [hx] at harray
      simp at harray
    | some x =>
      rw [hx, Option.map_some, Option.getD_some] at harray
      obtain ⟨y, hy, hxy⟩ := Option.map_eq_some_iff.mp ((settleNames_touching d d.begun).le.bare hx)
      have hname : y.bare.name = x.bare.name := by rw [hxy]
      exact ⟨y.core, congrArg (Option.map Symbol.core) hy, hname.trans harray⟩
  · exact henums ht
  · rw [hprepared.aliasTypes] at ht
    cases ht

end GraphDraft

end ApiDocs
