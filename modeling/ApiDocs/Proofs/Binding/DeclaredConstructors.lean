import ApiDocs.Proofs.Binding.ClassHierarchy

/-!
# Declared constructors

Signatures are made owner by owner. Those of a class are kept as its constructors; those of an interface
belong to the type of its instances at once. When all signatures are made, the constructors that are kept
are those that can be seen of the declared ones, and nothing is kept of any other class. The classes that
declare none are asked after that.

## Main definitions

* `Linking.Ready`: only declared constructors are kept.
* `GraphDraft.hierarchy`: what the classes of a draft extend and declare.

## Main results

* `Linking.linkOwner_declaring`: the constructors of a class are kept as they are declared.
* `GraphDraft.exists_ready`: all are kept when classes are about to get their types.
-/

namespace ApiDocs

namespace Linking

variable {l l' : Linking} {h : Hierarchy} {s : SymbolId}

/-! ## Before constructors are kept -/

theorem linkStars_spares (stars : List StarDraft) : sparing.Runs (linkStars stars) l Anything :=
  Growth.runs_get ⟨trivial, ⟨fun _ _ => id, rfl, times_starRound_induction
    (P := fun b => b.graph.signatures = l.builder.graph.signatures) (fun _ _ _ _ => id) rfl _ _, rfl⟩, trivial⟩

/-- A change of the graph that makes no signatures. -/
theorem rebuild_spares {f : GraphBuilder → GraphBuilder}
    (hf : (f l.builder).graph.signatures = l.builder.graph.signatures) : sparing.Runs (rebuild f) l Anything :=
  spared (build_aside (f := fun b => ((), f b)) hf)

theorem linkAlias_spares (draft : AliasDraft) : sparing.Runs (linkAlias draft) l Anything := by
  unfold linkAlias
  refine Growth.runs_get ?_
  split
  · split
    · exact rebuild_spares rfl
    · exact Growth.runs_pure trivial trivial
  · exact Growth.runs_pure trivial trivial

theorem linkHeritage_spares (draft : HeritageDraft) : sparing.Runs (linkHeritage draft) l Anything := by
  refine (Growth.runs_mapM (G := sparing) (P := fun _ _ => True) trivial (fun _ _ _ _ h => h)
    fun ref _ _ _ _ => spared (resolveType_aside ref)).bind fun _ _ _ _ _ => ?_
  exact rebuild_spares rfl

theorem linkEnum_spares (draft : EnumDraft) : sparing.Runs (linkEnum draft) l Anything := by
  unfold linkEnum
  have hmember : ∀ member (value : Option Literal) (l : Linking),
      sparing.Runs (enumMemberType member value) l Anything := by
    intro member value l
    cases value with
    | some value => exact spared (build_aside (f := (·.enumLiteral member value)) rfl)
    | none => exact spared (intrinsic_aside _ _)
  have hstored : ∀ s t (l : Linking), sparing.Runs
      (modify fun l : Linking => { l with enumTypes := l.enumTypes.insert s t }) l Anything :=
    fun _ _ _ => ⟨trivial, ⟨fun _ _ => id, rfl, rfl, rfl⟩, trivial⟩
  refine (Growth.runs_mapM (G := sparing) (P := fun _ _ => True) trivial (fun _ _ _ _ h => h)
    fun member _ l' _ _ => ?_).bind fun _ _ _ _ _ => ?_
  · refine (hmember member.1 member.2 l').bind fun t _ _ _ _ => (rebuild_spares rfl).bind fun _ _ _ _ _ => ?_
    exact (hstored member.1 t _).bind fun _ _ _ _ _ => Growth.runs_pure trivial trivial
  · refine (spared addType_aside).bind fun t _ _ _ _ => (rebuild_spares rfl).bind fun _ _ _ _ _ => ?_
    exact hstored draft.symbol t _

theorem linkType_spares (symbol : SymbolId) (e : TypeExpr) : sparing.Runs (linkType symbol e) l Anything := by
  unfold linkType
  refine Growth.runs_get ?_
  split
  · exact (materializeWith_spares (expandAlias_spares maxExpansion) l e).bind fun _ _ _ _ _ => rebuild_spares rfl
  · exact Growth.runs_pure trivial trivial

theorem linkIndex_spares (draft : IndexDraft) : sparing.Runs (linkIndex draft) l Anything := by
  have hmade : ∀ (e : TypeExpr) (l : Linking), sparing.Runs (materialize e) l Anything :=
    fun e l => materializeWith_spares (expandAlias_spares maxExpansion) l e
  have hkey : sparing.Runs (draft.key.mapM materialize) l Anything := by
    cases draft.key with
    | none => exact Growth.runs_pure trivial trivial
    | some key =>
      rw [Option.mapM_some, map_eq_pure_bind]
      exact (hmade key l).bind fun _ _ _ _ _ => Growth.runs_pure trivial trivial
  exact hkey.bind fun _ l₁ _ _ _ => (hmade draft.value l₁).bind fun _ _ _ _ _ => rebuild_spares rfl

/-! ## Declared constructors -/

/-- Signatures may be made, but no constructors are kept. -/
def signing : Growth Linking where
  Good _ := True
  Le l l' := l'.constructors = l.constructors ∧
    ∀ {x g}, l.builder.graph.signature? x = some g → l'.builder.graph.signature? x = some g
  refl _ := ⟨rfl, id⟩
  trans h h' := ⟨h'.1.trans h.1, h'.2 ∘ h.2⟩

theorem signing_of_sparing {α : Type} {x : LinkM α} {Q : α → Linking → Prop} (h : sparing.Runs x l Q) :
    signing.Runs x l Q := by
  refine ⟨trivial, ⟨h.le.constructors, fun {y g} hy => ?_⟩, h.post⟩
  rwa [SymbolGraph.signature?, h.le.signatures]

theorem rebuild_signing {f : GraphBuilder → GraphBuilder}
    (hf : (f l.builder).graph.signatures = l.builder.graph.signatures) :
    signing.Runs (rebuild f) l Anything :=
  signing_of_sparing (spared (build_aside (f := fun b => ((), f b)) hf))

theorem resultType_signing (draft : SignatureDraft) : signing.Runs (resultType draft) l Anything := by
  refine signing_of_sparing ?_
  unfold resultType
  split
  · exact materializeWith_spares (expandAlias_spares maxExpansion) l _
  · exact spared (instanceType_aside _)
  · exact spared (intrinsic_aside _ _)

/-- A signature is that of its draft, but for its result. -/
theorem makeSignature_signing (draft : SignatureDraft) :
    signing.Runs (makeSignature draft) l fun x l' =>
      ∃ t, l'.builder.graph.signature? x = some (draft.constructor.signature t) :=
  (resultType_signing draft).bind fun t l₁ _ _ _ =>
    ⟨trivial, ⟨rfl, signature?_addSignature_of_some⟩, t, signature?_addSignature l₁.builder _⟩

theorem makeSignatures_signing (drafts : List SignatureDraft) :
    signing.Runs (drafts.mapM makeSignature) l fun xs l' => List.Forall₂ (fun draft x =>
      ∃ t, l'.builder.graph.signature? x = some (draft.constructor.signature t)) drafts xs := by
  refine Growth.runs_mapM_forall₂ (G := signing) trivial (fun draft x l₁ l₂ hle => ?_)
    fun draft _ l' _ _ => makeSignature_signing draft
  rintro ⟨t, hx⟩
  exact ⟨t, hle.2 hx⟩

/-- Only declared constructors are kept, as they are declared. -/
def declaring (h : Hierarchy) : Growth Linking where
  Good l := l.Orderly ∧ ∀ {s xs}, l.constructors.get? s = some xs →
    ¬ (h.declared s).isEmpty ∧ l.Stored h s (h.constructors s) xs
  Le l l' := making.Le l l' ∧ ∀ {s}, (l.constructors.get? s).isSome → (l'.constructors.get? s).isSome
  refl l := ⟨making.refl l, id⟩
  trans h h' := ⟨making.trans h.1 h'.1, h'.2 ∘ h.2⟩

theorem Stored.sign {cs : List Constructor} {xs : List SignatureId} (hs : l.Stored h s cs xs)
    (hdeclared : ¬ (h.declared s).isEmpty) (hle : signing.Le l l') : l'.Stored h s cs xs := by
  obtain ⟨i, -, hxs⟩ := hs
  refine ⟨i, fun hempty => absurd hempty hdeclared, hxs.imp ?_⟩
  rintro c x ⟨t, ht, hx⟩
  exact ⟨t, ht, hle.2 hx⟩

/-- A step that keeps no constructors. -/
theorem declaring_of_signing {α : Type} {x : LinkM α} {Q : α → Linking → Prop}
    (hl : (declaring h).Good l) (hmaking : making.Runs x l Q) (hsigning : signing.Runs x l Anything) :
    (declaring h).Runs x l Q := by
  obtain ⟨hsame, -⟩ := hsigning.le
  refine ⟨⟨hmaking.good, fun {s xs} hs => ?_⟩, ⟨hmaking.le, fun {s} hs => by rwa [hsame]⟩, hmaking.post⟩
  rw [hsame] at hs
  obtain ⟨hdeclared, hstored⟩ := hl.2 hs
  exact ⟨hdeclared, hstored.sign hdeclared hsigning.le⟩

/-- The constructors of an interface are added to the type of its instances. -/
theorem addConstructSignatures_signing (s : SymbolId) (xs : List SignatureId) :
    signing.Runs (do
      let t ← instanceType s
      xs.forM fun x => rebuild (·.addConstructSignature t x)) l Anything :=
  (signing_of_sparing (spared (instanceType_aside s))).bind fun _ _ _ _ _ =>
    Growth.runs_forM trivial fun _ _ _ _ _ => rebuild_signing rfl

theorem linkOwner_class {drafts : List SignatureDraft}
    (hclass : (((visibleSignatures drafts).mapM makeSignature l).2.builder.flagsOf s).has
      SymbolFlags.classBit) :
    (linkOwner (.construct s) drafts l).2 =
      let made := (visibleSignatures drafts).mapM makeSignature l
      { made.2 with constructors := made.2.constructors.insert s made.1 } := by
  unfold linkOwner
  rw [bind_apply]
  simp only [get_bind, hclass, if_true]
  rfl

theorem linkOwner_interface {drafts : List SignatureDraft}
    (hclass : ¬ (((visibleSignatures drafts).mapM makeSignature l).2.builder.flagsOf s).has
      SymbolFlags.classBit) : signing.Runs (linkOwner (.construct s) drafts) l Anything := by
  have hsigning := makeSignatures_signing (l := l) (visibleSignatures drafts)
  have hrest := addConstructSignatures_signing (l := ((visibleSignatures drafts).mapM makeSignature l).2) s
    ((visibleSignatures drafts).mapM makeSignature l).1
  refine ⟨trivial, ?_, trivial⟩
  unfold linkOwner
  rw [bind_apply]
  simp only [get_bind, if_neg hclass]
  exact signing.trans hsigning.le hrest.le

/-- The constructors of a class are kept as they are declared. -/
theorem linkOwner_declaring (hl : (declaring h).Good l) {owner : SignatureOwner}
    {drafts : List SignatureDraft} (howner : owner.Within l.extent)
    (hdrafts : ∀ x ∈ drafts, x.Within l.extent) (hne : drafts ≠ [])
    (hdeclared : ∀ s, owner = .construct s →
      h.declared s = if (l.builder.flagsOf s).has SymbolFlags.classBit then drafts else []) :
    (declaring h).Runs (linkOwner owner drafts) l fun _ l' =>
      ∀ s, owner = .construct s → ¬ (h.declared s).isEmpty → (l'.constructors.get? s).isSome := by
  have hmaking := making_of_makingOf (linkOwner_makingOf hl.1 howner hdrafts fun _ _ _ _ => trivial)
  have hsigning := makeSignatures_signing (l := l) (visibleSignatures drafts)
  cases owner with
  | call symbol =>
    refine (declaring_of_signing hl hmaking (hsigning.bind fun xs l₁ _ _ _ => ?_)).mono fun _ _ _ s hs => by
      cases hs
    exact (signing_of_sparing (spared addType_aside)).bind fun _ _ _ _ _ => rebuild_signing rfl
  | construct s =>
    have hdeclared := hdeclared s rfl
    have hsignatures := making_of_makingOf (makeSignatures_makingOf hl.1 hdrafts fun _ _ _ _ => trivial)
    rw [← hsignatures.le.2.builder.flagsOf_eq howner] at hdeclared
    split at hdeclared
    next hclass =>
      have hempty : ¬ (h.declared s).isEmpty := by rwa [hdeclared, List.isEmpty_iff]
      have hconstructors : h.constructors s = (visibleSignatures drafts).map (·.constructor) := by
        rw [Hierarchy.constructors, if_neg hempty, hdeclared]
      have hstored : Stored ((visibleSignatures drafts).mapM makeSignature l).2 h s (h.constructors s)
          ((visibleSignatures drafts).mapM makeSignature l).1 := by
        refine ⟨default, fun hs => absurd hs hempty, ?_⟩
        rw [hconstructors, List.forall₂_map_left_iff]
        refine hsigning.post.imp ?_
        rintro draft x ⟨t, hx⟩
        exact ⟨t, fun hs => absurd hs hempty, hx⟩
      have hstate := linkOwner_class hclass
      refine ⟨⟨hmaking.good, fun {s' xs} hs' => ?_⟩, ⟨hmaking.le, fun {s'} hs' => ?_⟩, ?_⟩
      · rw [hstate] at hs' ⊢
        rcases Table.get?_insert_cases hs' with ⟨rfl, rfl⟩ | hs'
        · exact ⟨hempty, hstored⟩
        · rw [hsigning.le.1] at hs'
          obtain ⟨hdeclared', hstored'⟩ := hl.2 hs'
          have hsigned := hstored'.sign hdeclared' hsigning.le
          exact ⟨hdeclared', hsigned⟩
      · rw [hstate]
        refine Table.isSome_get?_insert ?_
        rwa [hsigning.le.1]
      · rintro s' ⟨⟩ -
        rw [hstate]
        exact Option.isSome_iff_exists.mpr ⟨_, Table.get?_insert_self⟩
    next hclass =>
      refine (declaring_of_signing hl hmaking (linkOwner_interface hclass)).mono ?_
      rintro - - - s' ⟨⟩ hs'
      rw [hdeclared] at hs'
      exact absurd rfl hs'

/-- Before classes are asked, the declared constructors are kept, and no others. -/
def Ready (h : Hierarchy) (bases : Table SymbolId NameRef) (l : Linking) : Prop :=
  (walking h bases fun s cs => ¬ (h.declared s).isEmpty ∧ cs = h.constructors s).Good l

end Linking

/-! ## Drafts -/

namespace GraphDraft

variable {d : GraphDraft}

/-- No constructors are kept and no signatures made before the owners of signatures are gone through. -/
theorem settleValues_spares (d : GraphDraft) : d.begun.Spares (d.settleValues d.namesSettled).2 := by
  have hnames : Linking.sparing.Runs d.settleNames d.begun Linking.Anything := by
    refine (Linking.linkStars_spares d.stars).bind fun _ _ _ _ _ => ?_
    refine (Growth.runs_forM (G := Linking.sparing) trivial
      fun x _ _ _ _ => Linking.linkAlias_spares x).bind fun _ _ _ _ _ => ?_
    refine (Growth.runs_forM (G := Linking.sparing) trivial
      fun x _ _ _ _ => Linking.linkHeritage_spares x).bind fun _ _ _ _ _ => ?_
    exact Growth.runs_forM (G := Linking.sparing) trivial fun x _ _ _ _ => Linking.linkEnum_spares x
  have hvalues : Linking.sparing.Runs d.settleValues d.namesSettled Linking.Anything := by
    refine (Growth.runs_forM (G := Linking.sparing) trivial
      fun x _ _ _ _ => Linking.linkType_spares x.1 x.2).bind fun _ _ _ _ _ => ?_
    exact Growth.runs_forM (G := Linking.sparing) trivial fun x _ _ _ _ => Linking.linkIndex_spares x
  exact Linking.sparing.trans hnames.le hvalues.le

open Linking in
/-- What classes extend when all notes are settled, and the constructors that are noted for them. -/
def hierarchy (d : GraphDraft) : Hierarchy where
  base? := d.linked.baseOf? (basesOf d.classes)
  declared s :=
    if (d.linked.builder.flagsOf s).has SymbolFlags.classBit then
      d.signatures.filter (·.owner = .construct s)
    else []

theorem hierarchy_declared (d : GraphDraft) (s : SymbolId) : d.hierarchy.declared s =
    if (d.linked.builder.flagsOf s).has SymbolFlags.classBit then
      d.signatures.filter (·.owner = .construct s)
    else [] := rfl

/-- The signatures that are grouped for a class are its declared constructors. -/
theorem declared_of_mem {l : Linking} {s : SymbolId} {group : List SignatureDraft}
    (hgroup : (.construct s, group) ∈ (Linking.groupByOwner d.signatures).entries)
    (hflags : d.linked.builder.flagsOf s = l.builder.flagsOf s) :
    d.hierarchy.declared s = if (l.builder.flagsOf s).has SymbolFlags.classBit then group else [] := by
  rw [hierarchy_declared, hflags, (Linking.mem_groupByOwner_iff.mp hgroup).1]

/-- Declared constructors are grouped. -/
theorem exists_group {s : SymbolId} (hs : ¬ (d.hierarchy.declared s).isEmpty) :
    ∃ group, (.construct s, group) ∈ (Linking.groupByOwner d.signatures).entries := by
  refine ⟨_, Linking.mem_groupByOwner_iff.mpr ⟨rfl, ?_⟩⟩
  rw [hierarchy_declared, List.isEmpty_iff] at hs
  split at hs
  · exact hs
  · exact absurd rfl hs

/-- When all signatures are made, the declared constructors are kept, as they are declared. -/
theorem settleOwners_declaring {l : Linking} (hl : l.Orderly) (hempty : l.constructors = .empty)
    (hnotes : d.NotesWithin l.extent) (hkeeps : l.Keeps d.linked) :
    (Linking.declaring d.hierarchy).Runs d.settleOwners l fun _ l' =>
      ∀ s, ¬ (d.hierarchy.declared s).isEmpty → (l'.constructors.get? s).isSome := by
  have hgood : (Linking.declaring d.hierarchy).Good l := by
    refine ⟨hl, fun {s xs} hs => ?_⟩
    rw [hempty] at hs
    cases hs
  have hgroups := Linking.groupByOwner_within hnotes.signatures
  have hrun := Growth.runs_forM_forall (G := Linking.declaring d.hierarchy)
    (f := fun x : SignatureOwner × List SignatureDraft => Linking.linkOwner x.1 x.2)
    (P := fun x l' => ∀ s, x.1 = .construct s → ¬ (d.hierarchy.declared s).isEmpty →
      (l'.constructors.get? s).isSome) hgood (fun x _ _ hle h s hx hs => hle.2 (h s hx hs))
    (l := (Linking.groupByOwner d.signatures).entries) fun x hx l' hl' hle' => ?_
  · refine ⟨hrun.good, hrun.le, fun s hs => ?_⟩
    obtain ⟨group, hgroup⟩ := exists_group hs
    exact hrun.post _ hgroup s rfl hs
  · obtain ⟨howner, hdrafts⟩ := hgroups x hx
    obtain ⟨owner, group⟩ := x
    refine Linking.linkOwner_declaring hl' (howner.mono hle'.1.1.1)
      (fun y hy => (hdrafts y hy).mono hle'.1.1.1) (Linking.mem_groupByOwner_iff.mp hx).2 ?_
    rintro s rfl
    refine declared_of_mem hx ?_
    rw [hkeeps.builder.flagsOf_eq howner, hle'.1.2.builder.flagsOf_eq howner]

/-- When classes are about to get their types, the declared constructors are kept, and no others. -/
theorem exists_ready (hd : d.Sound) (hbare : d.builder.intrinsics = .empty) :
    ∃ l : Linking, l.Ready d.hierarchy (Linking.basesOf d.classes) ∧
      (∀ c ∈ d.classes, c.symbol.Within l.extent) ∧
      d.linked = (d.classes.forM (Linking.linkClass (Linking.basesOf d.classes)) l).2 := by
  obtain ⟨horderly, hnotes⟩ := namesSettled_orderly hd hbare
  obtain ⟨hl₁, hle₁, -⟩ := Linking.making_of_makingOf (settleValues_makingOf horderly hnotes)
  have hnotes₁ := hnotes.mono hle₁.1.1
  obtain ⟨hl₂, hle₂, -⟩ := Linking.making_of_makingOf (settleOwners_makingOf hl₁ hnotes₁)
  have hnotes₂ := hnotes₁.mono hle₂.1.1
  have hkeeps : Linking.Keeps _ d.linked := (settleClasses_makingOf hl₂ hnotes₂).le.1.2
  obtain ⟨hgood, -, hdeclared⟩ :=
    settleOwners_declaring hl₁ (settleValues_spares d).constructors hnotes₁ (hle₂.2.trans hkeeps)
  refine ⟨_, ⟨hgood.1, fun s => (hkeeps.baseOf?_eq hl₂.sound _ s).symm, hdeclared, fun {s xs} hs => ?_⟩,
    hnotes₂.classes, rfl⟩
  obtain ⟨hs', hstored⟩ := hgood.2 hs
  exact ⟨_, ⟨hs', rfl⟩, hstored⟩

end GraphDraft

end ApiDocs
