import ApiDocs.Proofs.Binding.TypePhase

/-!
# The constructors of classes

A class that declares no constructors takes over those of the class that it extends, and so on up to one
that declares some, or that extends no other class. They are made once: what was made for a class is kept,
also for the classes on the way up. But a walk that goes up has a limit. Where it ends before it came to the
top, the class there, and all on the way to it, get a constructor without parameters, and this is kept, too.

What a class gets so hangs on which classes were asked before. Every walk is of the same kind, though: what
it keeps comes from what was kept, from the top, or from the limit. A property that all of these have is one
that everything has that is kept.

## Main definitions

* `Constructor`: a constructor, but for what it makes.
* `Hierarchy`: what classes extend and which constructors they declare.
* `Hierarchy.Descends`: from a class, so many links lead to the class it has its constructors from.
* `Hierarchy.Rule`: a property of what classes get that no walk breaks.
* `Linking.Keeping`: what is kept has such a property.

## Main results

* `Linking.constructorsOf_walks`: a walk keeps to a rule and reaches the classes within its limit.
-/

namespace ApiDocs

/-! ## Hierarchies -/

/-- A constructor, but for what it makes. -/
structure Constructor where
  parameters : List SymbolId
  pos : Option SourcePos := none
  doc : String := ""
  deriving DecidableEq, Repr, Inhabited

namespace Constructor

/-- The constructor of a class that neither declares nor inherits one. -/
def implicit : Constructor := { parameters := [] }

/-- The signature with which it makes values of a type. -/
def signature (c : Constructor) (t : TypeId) : Signature :=
  { parameters := c.parameters, returnType := t, pos := c.pos, doc := c.doc }

end Constructor

/-- The constructor that a class declares. -/
def SignatureDraft.constructor (d : SignatureDraft) : Constructor :=
  { parameters := d.parameters, pos := some d.pos, doc := d.doc }

/-- What classes extend and which constructors they declare. -/
structure Hierarchy where
  base? : SymbolId → Option SymbolId
  declared : SymbolId → List SignatureDraft

namespace Hierarchy

section Spec

variable (h : Hierarchy)

/-- The class that a class takes its constructors over from. -/
def parent? (s : SymbolId) : Option SymbolId :=
  if (h.declared s).isEmpty then h.base? s else none

/-- The class so many links up. -/
def up : Nat → SymbolId → Option SymbolId
  | 0, s => some s
  | n + 1, s => (h.parent? s).bind (up n)

/-- From a class, so many links lead up to one that declares constructors or extends no class. -/
def Descends (n : Nat) (s r : SymbolId) : Prop := h.up n s = some r ∧ h.parent? r = none

instance (n : Nat) (s r : SymbolId) : Decidable (h.Descends n s r) := inferInstanceAs (Decidable (_ ∧ _))

/-- The constructors of a class at the top: those that can be seen of the declared ones. -/
def constructors (s : SymbolId) : List Constructor :=
  if (h.declared s).isEmpty then [.implicit]
  else (Linking.visibleSignatures (h.declared s)).map (·.constructor)

end Spec

variable {h : Hierarchy} {n m k : Nat} {s a b r r' : SymbolId}

theorem isEmpty_of_parent? (hb : h.parent? s = some b) : (h.declared s).isEmpty := by
  unfold parent? at hb
  split at hb
  · assumption
  · cases hb

theorem up_succ (hb : h.parent? s = some b) : h.up (n + 1) s = h.up n b := by
  rw [up, hb, Option.bind_some]

theorem up_add : h.up (n + m) s = (h.up n s).bind (h.up m) := by
  induction n generalizing s with
  | zero => rw [Nat.zero_add, up, Option.bind_some]
  | succ n ih =>
    rw [Nat.succ_add, up, up, Option.bind_assoc]
    exact congrArg _ (funext fun _ => ih)

/-- One more link up. -/
theorem up_snoc (ha : h.up n s = some a) (hb : h.parent? a = some b) : h.up (n + 1) s = some b := by
  rw [up_add, ha, Option.bind_some, up_succ hb, up]

theorem descends_zero_iff : h.Descends 0 s r ↔ s = r ∧ h.parent? s = none := by
  rw [Descends, up, Option.some_inj]
  constructor
  · rintro ⟨rfl, hs⟩
    exact ⟨rfl, hs⟩
  · rintro ⟨rfl, hs⟩
    exact ⟨rfl, hs⟩

theorem descends_succ_iff (hb : h.parent? s = some b) : h.Descends (n + 1) s r ↔ h.Descends n b r := by
  rw [Descends, Descends, up_succ hb]

/-- A class at the top descends from itself alone. -/
theorem Descends.of_top (hs : h.parent? s = none) (hr : h.Descends n s r) : n = 0 ∧ r = s := by
  cases n with
  | zero => exact ⟨rfl, (descends_zero_iff.mp hr).1.symm⟩
  | succ n =>
    rw [Descends, up, hs] at hr
    cases hr.1

/-- The classes on the way up descend from the same class, by what is left of the way. -/
theorem Descends.up (hr : h.Descends (n + m) s r) (ha : h.up n s = some a) : h.Descends m a r := by
  refine ⟨?_, hr.2⟩
  rw [← hr.1, up_add, ha, Option.bind_some]

/-- A class that is not at the top has a class above. -/
theorem Descends.parent? (hr : h.Descends (n + 1) s r) : ∃ b, h.parent? s = some b := by
  cases hb : h.parent? s with
  | some b => exact ⟨b, rfl⟩
  | none => exact absurd (hr.of_top hb).1 (by omega)

/-- The classes on the way up declare no constructors, and they are below the top themselves. -/
theorem Descends.below (hr : h.Descends n s r) (hk : k < n) (ha : h.up k s = some a) :
    (h.declared a).isEmpty ∧ ∃ m, h.Descends (m + 1) a r := by
  obtain ⟨m, rfl⟩ : ∃ m, n = k + (m + 1) := ⟨n - k - 1, by omega⟩
  obtain ⟨b, hb⟩ := (hr.up ha).parent?
  exact ⟨isEmpty_of_parent? hb, m, hr.up ha⟩

/-- Only one number of links leads to the top. -/
theorem Descends.unique (hr : h.Descends n s r) (hr' : h.Descends m s r') : n = m ∧ r = r' := by
  induction n generalizing m s with
  | zero =>
    obtain ⟨rfl, hs⟩ := descends_zero_iff.mp hr
    obtain ⟨rfl, rfl⟩ := hr'.of_top hs
    exact ⟨rfl, rfl⟩
  | succ n ih =>
    obtain ⟨b, hb⟩ := hr.parent?
    cases m with
    | zero =>
      rw [(descends_zero_iff.mp hr').2] at hb
      cases hb
    | succ m =>
      obtain ⟨rfl, hrr⟩ := ih ((descends_succ_iff hb).mp hr) ((descends_succ_iff hb).mp hr')
      exact ⟨rfl, hrr⟩

theorem parent?_eq_base? (hs : (h.declared s).isEmpty) : h.parent? s = h.base? s :=
  if_pos hs

theorem parent?_of_declared (hs : ¬ (h.declared s).isEmpty) : h.parent? s = none :=
  if_neg hs

/-- A class at the top without constructors has the one without parameters. -/
theorem constructors_eq_implicit (hs : (h.declared s).isEmpty) : h.constructors s = [.implicit] :=
  if_pos hs

/-! ## Rules -/

variable {F : Nat → SymbolId → Prop} {P : SymbolId → List Constructor → Prop}

/-- What classes may get, where a class may be asked with so many links left, is closed under all that a
walk does. -/
structure Rule (h : Hierarchy) (F : Nat → SymbolId → Prop) (P : SymbolId → List Constructor → Prop) :
    Prop where
  /-- Declared constructors. -/
  own : ∀ {s}, ¬ (h.declared s).isEmpty → P s (h.constructors s)
  /-- The class above is asked next. -/
  ask : ∀ {k s b}, F (k + 1) s → h.parent? s = some b → F k b
  /-- What it has is taken over. -/
  inherit : ∀ {k s b cs}, F (k + 1) s → h.parent? s = some b → P b cs → P s cs
  /-- The walk ends. -/
  stop : ∀ {k s}, F k s → (h.declared s).isEmpty → k = 0 ∨ h.parent? s = none → P s [.implicit]

theorem any_rule (h : Hierarchy) : h.Rule (fun _ _ => True) (fun _ _ => True) :=
  ⟨fun _ => trivial, fun _ _ => trivial, fun _ _ _ => trivial, fun _ _ _ => trivial⟩

/-- The constructors of a class may be those of the class it descends from, or the one without
parameters. -/
def MayGet (h : Hierarchy) (s : SymbolId) (cs : List Constructor) : Prop :=
  (∃ n r, h.Descends n s r ∧ cs = h.constructors r) ∨ cs = [.implicit]

theorem mayGet_rule (h : Hierarchy) : h.Rule (fun _ _ => True) h.MayGet where
  own hs := .inl ⟨0, _, descends_zero_iff.mpr ⟨rfl, parent?_of_declared hs⟩, rfl⟩
  ask _ _ := trivial
  inherit _ hb := by
    rintro (⟨n, r, hr, rfl⟩ | rfl)
    · exact .inl ⟨n + 1, r, (descends_succ_iff hb).mpr hr, rfl⟩
    · exact .inr rfl
  stop _ _ _ := .inr rfl

/-- Walks that can come to the top leave there the right constructors to all who descend from it. -/
theorem descends_rule (h : Hierarchy) (r : SymbolId) :
    h.Rule (fun k s => ∀ n, h.Descends n s r → n ≤ k)
      (fun s cs => ∀ n, h.Descends n s r → cs = h.constructors r) where
  own hs n hr := by rw [(hr.of_top (parent?_of_declared hs)).2]
  ask hk hb n hr := Nat.le_of_succ_le_succ (hk (n + 1) ((descends_succ_iff hb).mpr hr))
  inherit _ hb hcs n hr := by
    cases n with
    | zero =>
      rw [(descends_zero_iff.mp hr).2] at hb
      cases hb
    | succ n => exact hcs n ((descends_succ_iff hb).mp hr)
  stop {k s} hk hs hstop n hr := by
    have htop : h.parent? s = none := by
      rcases hstop with rfl | htop
      · obtain rfl := Nat.le_zero.mp (hk n hr)
        exact (descends_zero_iff.mp hr).2
      · exact htop
    rw [(hr.of_top htop).2, constructors_eq_implicit hs]

/-- Walks from elsewhere do not touch the classes that descend from a class at the top. -/
theorem untouched_rule (h : Hierarchy) (r : SymbolId) :
    h.Rule (fun _ s => ∀ n, h.Descends n s r → n = 0)
      (fun s _ => (h.declared s).isEmpty → ∀ n, h.Descends n s r → n = 0) where
  own hs hs' := absurd hs' hs
  ask hs hb n hr := absurd (hs (n + 1) ((descends_succ_iff hb).mpr hr)) (by omega)
  inherit hs _ _ _ := hs
  stop hs _ _ _ := hs

/-- A walk that does not come to the top leaves the constructor without parameters behind it. -/
theorem cutShort_rule {limit : Nat} (hr : h.Descends n s r) (hlimit : limit < n) :
    h.Rule (fun k a => ∃ i, i + k = limit ∧ h.up i s = some a)
      (fun a cs => ∀ i ≤ limit, h.up i s = some a → cs = [.implicit]) where
  own ha i hi hup := absurd (hr.below (Nat.lt_of_le_of_lt hi hlimit) hup).1 ha
  ask := by
    rintro k a b ⟨i, hi, ha⟩ hb
    exact ⟨i + 1, by omega, up_snoc ha hb⟩
  inherit := by
    rintro k a b cs ⟨i, hi, ha⟩ hb hcs - - -
    exact hcs (i + 1) (by omega) (up_snoc ha hb)
  stop _ _ _ _ _ _ := rfl

end Hierarchy

namespace Linking

variable {l l' l'' : Linking} {h : Hierarchy} {bases : Table SymbolId NameRef} {s : SymbolId} {t : TypeId}
  {F : Nat → SymbolId → Prop} {P : SymbolId → List Constructor → Prop}

/-! ## What stays -/

/-- Signatures, and what is kept of instances and constructors, last. -/
structure Lasts (l l' : Linking) : Prop where
  signatures : ∀ {x g}, l.builder.graph.signature? x = some g → l'.builder.graph.signature? x = some g
  instances : ∀ {s t}, l.instances.get? s = some t → l'.instances.get? s = some t
  constructors : ∀ {s xs}, l.constructors.get? s = some xs → l'.constructors.get? s = some xs

theorem Lasts.trans (h : l.Lasts l') (h' : l'.Lasts l'') : l.Lasts l'' :=
  ⟨h'.signatures ∘ h.signatures, h'.instances ∘ h.instances, h'.constructors ∘ h.constructors⟩

/-- The types of the graph and of its symbols last, too. -/
structure Stays (l l' : Linking) : Prop extends l.Lasts l' where
  types : ∀ {t n}, l.builder.graph.type? t = some n → l'.builder.graph.type? t = some n
  values : ∀ {s t}, l.builder.typeOf s = some t → l'.builder.typeOf s = some t

theorem Stays.refl (l : Linking) : l.Stays l := ⟨⟨id, id, id⟩, id, id⟩

theorem Stays.trans (h : l.Stays l') (h' : l'.Stays l'') : l.Stays l'' :=
  ⟨h.toLasts.trans h'.toLasts, h'.types ∘ h.types, h'.values ∘ h.values⟩

theorem addType_stays (n : TypeNode) : l.Stays { l with builder := (l.builder.addType n).2 } :=
  { Stays.refl l with
    types := fun {t x} ht => by
      obtain ⟨hlt, rfl⟩ := Array.getElem?_eq_some_iff.mp ht
      simp [SymbolGraph.type?, GraphBuilder.addType, Array.getElem?_push_lt hlt] }

theorem signature?_addSignature_of_some {b : GraphBuilder} {g g' : Signature} {x : SignatureId}
    (hx : b.graph.signature? x = some g) : (b.addSignature g').2.graph.signature? x = some g := by
  obtain ⟨hlt, rfl⟩ := Array.getElem?_eq_some_iff.mp hx
  simp [SymbolGraph.signature?, GraphBuilder.addSignature, Array.getElem?_push_lt hlt]

theorem signature?_addSignature (b : GraphBuilder) (g : Signature) :
    (b.addSignature g).2.graph.signature? (b.addSignature g).1 = some g := by
  simp [SymbolGraph.signature?, GraphBuilder.addSignature]

theorem addSignature_stays (g : Signature) : l.Stays { l with builder := (l.builder.addSignature g).2 } :=
  { Stays.refl l with signatures := signature?_addSignature_of_some }

theorem instanceType_of_some (hs : l.instances.get? s = some t) : instanceType s l = (t, l) := by
  unfold instanceType
  simp only [get_bind, hs]
  rfl

theorem instanceType_of_none (hs : l.instances.get? s = none) :
    instanceType s l = ((l.builder.reference s []).1, { l with
      builder := (l.builder.reference s []).2
      instances := l.instances.insert s (l.builder.reference s []).1 }) := by
  unfold instanceType
  simp only [get_bind, hs]
  rfl

theorem instanceType_stays (s : SymbolId) (l : Linking) : l.Stays (instanceType s l).2 := by
  cases hs : l.instances.get? s with
  | some t =>
    rw [instanceType_of_some hs]
    exact .refl l
  | none =>
    rw [instanceType_of_none hs]
    exact (addType_stays (l := l) _).trans
      { Stays.refl _ with instances := fun h => Table.get?_insert_of_eq_none hs h h }

/-- The type of the instances of a class is kept. -/
theorem instances_instanceType (s : SymbolId) (l : Linking) :
    (instanceType s l).2.instances.get? s = some (instanceType s l).1 := by
  cases hs : l.instances.get? s with
  | some t => rw [instanceType_of_some hs, hs]
  | none =>
    rw [instanceType_of_none hs]
    exact Table.get?_insert_self

/-- The base of a class is a class, other than itself, at the end of the aliases of its name. -/
theorem baseOf?_eq_some_iff {b : SymbolId} : l.baseOf? bases s = some b ↔
    ∃ ref x, bases.get? s = some ref ∧ l.lookup? ref = some x ∧ followAlias l.builder x = b ∧ b ≠ s ∧
      (l.builder.flagsOf b).has SymbolFlags.classBit := by
  simp only [baseOf?, Option.bind_eq_bind, Option.bind_eq_some_iff, Option.ite_none_right_eq_some,
    Bool.and_eq_true, decide_eq_true_eq, Option.some_inj]
  constructor
  · rintro ⟨ref, href, x, hx, ⟨hne, hclass⟩, rfl⟩
    exact ⟨ref, x, href, hx, rfl, hne, hclass⟩
  · rintro ⟨ref, x, href, hx, rfl, hne, hclass⟩
    exact ⟨ref, href, x, hx, ⟨hne, hclass⟩, rfl⟩

/-- What the library is asked for is no class. -/
theorem Keeps.flagsOf_fresh (h : l.Keeps l') (hnew : l.builder.symbolCore? s = none) :
    (l'.builder.flagsOf s).has SymbolFlags.classBit = false := by
  rw [GraphBuilder.flagsOf_eq_core]
  cases hx : l'.builder.symbolCore? s with
  | none => decide
  | some x =>
    rw [h.builder.fresh hnew hx]
    change SymbolFlags.interfaceBit.has SymbolFlags.classBit = false
    decide

/-- A class keeps its base. -/
theorem Keeps.baseOf?_eq (h : l.Keeps l') (hl : l.Sound) (bases : Table SymbolId NameRef) (s : SymbolId) :
    l'.baseOf? bases s = l.baseOf? bases s := by
  refine Option.ext fun b => ?_
  rw [baseOf?_eq_some_iff, baseOf?_eq_some_iff]
  have hknown : ∀ ref x, l.lookup? ref = some x →
      followAlias l'.builder x = followAlias l.builder x ∧
        l'.builder.flagsOf (followAlias l.builder x) = l.builder.flagsOf (followAlias l.builder x) := by
    intro ref x hx
    have hwithin := lookup?_within hl ref x hx
    exact ⟨h.followAlias_eq hl hwithin, h.builder.flagsOf_eq (followAlias_within hl.builder hwithin)⟩
  constructor
  · rintro ⟨ref, x, href, hx, rfl, hne, hclass⟩
    rcases h.lookup?_cases hl hx with hx | ⟨hnew, -⟩
    · obtain ⟨hfollow, hflags⟩ := hknown ref x hx
      rw [hfollow] at hne hclass ⊢
      exact ⟨ref, x, href, hx, rfl, hne, hflags ▸ hclass⟩
    · -- What has become known is no alias, and no class either.
      have hself : followAlias l'.builder x = x := by
        unfold followAlias maxAliasChain followFrom
        rw [h.builder.aliasOf_fresh hnew]
      rw [hself, h.flagsOf_fresh hnew] at hclass
      cases hclass
  · rintro ⟨ref, x, href, hx, rfl, hne, hclass⟩
    obtain ⟨hfollow, hflags⟩ := hknown ref x hx
    exact ⟨ref, x, href, h.lookup?_eq_some hl hx, hfollow, hne, hflags.symm ▸ hclass⟩

/-! ## What is kept -/

/-- The signatures are these constructors. Those of a class that declares none make its instances. -/
def Stored (l : Linking) (h : Hierarchy) (s : SymbolId) (cs : List Constructor) (xs : List SignatureId) :
    Prop :=
  ∃ i, ((h.declared s).isEmpty → l.instances.get? s = some i) ∧
    List.Forall₂ (fun c x => ∃ t, ((h.declared s).isEmpty → t = i) ∧
      l.builder.graph.signature? x = some (c.signature t)) cs xs

theorem Stored.mono {cs : List Constructor} {xs : List SignatureId} (hs : l.Stored h s cs xs)
    (hlasts : l.Lasts l') : l'.Stored h s cs xs := by
  obtain ⟨i, hi, hxs⟩ := hs
  refine ⟨i, fun hempty => hlasts.instances (hi hempty), hxs.imp ?_⟩
  rintro c x ⟨t, ht, hx⟩
  exact ⟨t, ht, hlasts.signatures hx⟩

theorem Stored.there {cs : List Constructor} {xs : List SignatureId} (hs : l.Stored h s cs xs) :
    SignaturesThere xs l := by
  obtain ⟨i, -, hxs⟩ := hs
  intro x hx
  obtain ⟨c, -, t, -, hsignature⟩ := forall₂_mem_right hxs hx
  exact (Array.getElem?_eq_some_iff.mp hsignature).1

/-- Declared constructors are kept, and everything that is kept has `P`. -/
structure Keeping (h : Hierarchy) (bases : Table SymbolId NameRef)
    (P : SymbolId → List Constructor → Prop) (l : Linking) : Prop where
  base : ∀ s, l.baseOf? bases s = h.base? s
  declared : ∀ s, ¬ (h.declared s).isEmpty → (l.constructors.get? s).isSome
  kept : ∀ {s xs}, l.constructors.get? s = some xs → ∃ cs, P s cs ∧ l.Stored h s cs xs

/-- Of what is kept, another property may be known. -/
theorem Keeping.imp {Q : SymbolId → List Constructor → Prop} (hl : l.Keeping h bases P)
    (hPQ : ∀ s cs, (l.constructors.get? s).isSome → P s cs → Q s cs) : l.Keeping h bases Q where
  base := hl.base
  declared := hl.declared
  kept {s xs} hs := by
    obtain ⟨cs, hcs, hstored⟩ := hl.kept hs
    exact ⟨cs, hPQ s cs (by rw [hs]; rfl) hcs, hstored⟩

/-- Walks through the classes. -/
def walking (h : Hierarchy) (bases : Table SymbolId NameRef) (P : SymbolId → List Constructor → Prop) :
    Growth Linking where
  Good l := l.Orderly ∧ l.Keeping h bases P
  Le l l' := making.Le l l' ∧ l.Stays l'
  refl l := ⟨making.refl l, .refl l⟩
  trans h h' := ⟨making.trans h.1 h'.1, h.2.trans h'.2⟩

/-- A step that keeps no more constructors. -/
theorem Keeping.grow (hk : l.Keeping h bases P) (hl : l.Sound) (hkeeps : l.Keeps l') (hlasts : l.Lasts l')
    (hsame : l'.constructors = l.constructors) : l'.Keeping h bases P where
  base s := by rw [hkeeps.baseOf?_eq hl, hk.base]
  declared s hs := by
    rw [hsame]
    exact hk.declared s hs
  kept {s xs} hs := by
    rw [hsame] at hs
    obtain ⟨cs, hcs, hstored⟩ := hk.kept hs
    exact ⟨cs, hcs, hstored.mono hlasts⟩

theorem walking_of_making {α : Type} {x : LinkM α} {Q : α → Linking → Prop}
    (hl : (walking h bases P).Good l) (hmaking : making.Runs x l Q) (hstays : l.Stays (x l).2)
    (hsame : (x l).2.constructors = l.constructors) : (walking h bases P).Runs x l Q :=
  ⟨⟨hmaking.good, hl.2.grow hl.1.sound hmaking.le.2 hstays.toLasts hsame⟩, ⟨hmaking.le, hstays⟩,
    hmaking.post⟩

theorem instanceType_walks (hl : (walking h bases P).Good l) (hs : s.Within l.extent) :
    (walking h bases P).Runs (instanceType s) l fun t l' =>
      t.Within l'.extent ∧ l'.instances.get? s = some t := by
  have hmade := instanceType_takesForm (C := fun _ => True) hl.1 hs
  have hpost := And.intro hmade.post.within (instances_instanceType s l)
  exact walking_of_making hl ⟨hmade.good, hmade.le, hpost⟩ (instanceType_stays s l)
    (instanceType_aside (l := l) s).le.constructors

theorem addSignature_walks (hl : (walking h bases P).Good l) {g : Signature} (hg : g.Within l.extent) :
    (walking h bases P).Runs (build (·.addSignature g)) l fun x l' =>
      l'.builder.graph.signature? x = some g := by
  have hmade := addSignature_making hl.1 hg
  exact walking_of_making hl ⟨hmade.good, hmade.le, signature?_addSignature _ g⟩ (addSignature_stays g) rfl

/-- Constructors that have `P` are kept for a class that had none at the start. It may have got some since,
where classes extend one another in a circle. -/
theorem storeConstructors_walks (hl : (walking h bases P).Good l') (hle : (walking h bases P).Le l l')
    {cs : List Constructor} {xs : List SignatureId} (hnew : l.constructors.get? s = none) (hcs : P s cs)
    (hstored : l'.Stored h s cs xs) :
    (walking h bases P).Good { l' with constructors := l'.constructors.insert s xs } ∧
      (walking h bases P).Le l { l' with constructors := l'.constructors.insert s xs } := by
  have hmaking : making.Runs
      (modify fun l : Linking => { l with constructors := l.constructors.insert s xs }) l' Anything :=
    storeConstructors_making hl.1 hstored.there
  have hstored' : ∀ {s' cs xs'}, l'.Stored h s' cs xs' →
      Stored { l' with constructors := l'.constructors.insert s xs } h s' cs xs' := fun hs => hs
  refine ⟨⟨hmaking.good, fun s' => ?_, fun s' hs' => ?_, fun {s' xs'} hs' => ?_⟩,
    making.trans hle.1 hmaking.le, { hle.2 with constructors := fun {s' xs'} hs' => ?_ }⟩
  · exact (hmaking.le.2.baseOf?_eq hl.1.sound bases s').trans (hl.2.base s')
  · exact Table.isSome_get?_insert (hl.2.declared s' hs')
  · rcases Table.get?_insert_cases hs' with ⟨rfl, rfl⟩ | hs'
    · exact ⟨cs, hcs, hstored' hstored⟩
    · obtain ⟨cs', hcs', hstored''⟩ := hl.2.kept hs'
      exact ⟨cs', hcs', hstored' hstored''⟩
  · exact Table.get?_insert_of_eq_none hnew hs' (hle.2.constructors hs')

/-! ## Walks -/

theorem inheritSignature_walks (hl : (walking h bases P).Good l) (ht : t.Within l.extent) (x : SignatureId) :
    (walking h bases P).Runs (inheritSignature t x) l fun o l' =>
      ∀ c t', l.builder.graph.signature? x = some (Constructor.signature c t') →
        ∃ y, o = some y ∧ l'.builder.graph.signature? y = some (c.signature t) := by
  unfold inheritSignature
  refine Growth.runs_get ?_
  split
  next g hg =>
    have hin := hl.1.sound.builder.graph.signatures g (Array.mem_of_getElem? hg)
    refine (addSignature_walks hl (g := { g with returnType := t }) ⟨ht, hin.parameters⟩).bind
      fun y l₁ hl₁ _ hy => Growth.runs_pure hl₁ fun c t' hc => ⟨y, rfl, ?_⟩
    rw [hg] at hc
    cases hc
    exact hy
  next hnone =>
    refine Growth.runs_pure hl fun c t' hc => ?_
    rw [hnone] at hc
    cases hc

/-- The constructors of the base, copied. -/
theorem inherited_walks (hl : (walking h bases P).Good l) (ht : t.Within l.extent)
    (hinstance : l.instances.get? s = some t) {b : SymbolId}
    {cs : List Constructor} {xs : List SignatureId} (hxs : l.Stored h b cs xs) :
    (walking h bases P).Runs (do return (← xs.mapM (inheritSignature t)).filterMap id) l
      fun ys l' => l'.Stored h s cs ys := by
  have hcopies := Growth.runs_mapM_forall₂ (G := walking h bases P) (l := xs)
    (f := inheritSignature t) hl
    (P := fun x o l' => ∀ c t', l.builder.graph.signature? x = some (Constructor.signature c t') →
      ∃ y, o = some y ∧ l'.builder.graph.signature? y = some (c.signature t))
    (fun x o l₁ l₂ hle hstep c t' hc => by
      obtain ⟨y, rfl, hy⟩ := hstep c t' hc
      exact ⟨y, rfl, hle.2.signatures hy⟩)
    fun x _ l₁ hl₁ hle₁ => (inheritSignature_walks hl₁ (ht.mono hle₁.1.1.1) x).mono
      fun _ o ho c t' hc => ho c t' (hle₁.2.signatures hc)
  refine hcopies.bind fun os l₁ hl₁ hle₁ hos => Growth.runs_pure hl₁ ?_
  refine ⟨t, fun _ => hle₁.2.instances hinstance, ?_⟩
  obtain ⟨i, -, hxs⟩ := hxs
  clear hcopies
  induction hxs generalizing os with
  | nil =>
    cases hos
    exact .nil
  | cons hc _ ih =>
    obtain ⟨t', -, hx⟩ := hc
    cases hos with
    | cons ho hos =>
      obtain ⟨y, rfl, hy⟩ := ho _ t' hx
      exact .cons ⟨t, fun _ => rfl, hy⟩ (ih _ hos)

/-- All classes within the limit got constructors, up to the first that had some. -/
def Supplies (h : Hierarchy) (k : Nat) (s : SymbolId) (l l' : Linking) : Prop :=
  ∀ i ≤ k, ∀ a, h.up i s = some a →
    (∀ j < i, ∀ b, h.up j s = some b → l.constructors.get? b = none) → (l'.constructors.get? a).isSome

theorem Supplies.mono {k : Nat} (hsupplies : Supplies h k s l l')
    (hkept : ∀ a, (l'.constructors.get? a).isSome → (l''.constructors.get? a).isSome) :
    Supplies h k s l l'' :=
  fun i hi a ha hfree => hkept a (hsupplies i hi a ha hfree)

/-- A class that had constructors is the first. -/
theorem supplies_of_kept (hs : (l.constructors.get? s).isSome) (k : Nat) : Supplies h k s l l := by
  intro i _ a ha hfree
  cases i with
  | zero =>
    cases ha
    exact hs
  | succ i =>
    rw [hfree 0 (Nat.succ_pos i) s rfl] at hs
    cases hs

/-- Otherwise it is the first after the class itself. -/
theorem supplies_of_parent? {k : Nat} (hs : (l'.constructors.get? s).isSome)
    (habove : ∀ b m, h.parent? s = some b → k = m + 1 → Supplies h m b l l') : Supplies h k s l l' := by
  intro i hi a ha hfree
  cases i with
  | zero =>
    cases ha
    exact hs
  | succ i =>
    obtain ⟨b, hb, ha⟩ := Option.bind_eq_some_iff.mp ha
    refine habove b (k - 1) hb (by omega) i (by omega) a ha fun j hj b' hb' => ?_
    exact hfree (j + 1) (Nat.succ_lt_succ hj) b' ((Hierarchy.up_succ hb).trans hb')

/-- A walk with so many links left. -/
def Walks (h : Hierarchy) (bases : Table SymbolId NameRef) (F : Nat → SymbolId → Prop)
    (P : SymbolId → List Constructor → Prop) (k : Nat) (f : SymbolId → LinkM (List SignatureId)) : Prop :=
  ∀ {s : SymbolId} {l : Linking}, (walking h bases P).Good l → F k s → s.Within l.extent →
    (walking h bases P).Runs (f s) l fun xs l' =>
      l'.constructors.get? s = some xs ∧ Supplies h k s l l'

/-- Where a walk ends, there is one constructor without parameters. -/
theorem implicit_walks (hrule : h.Rule F P) {k : Nat} (hl : (walking h bases P).Good l) (hk : F k s)
    (hs : (h.declared s).isEmpty) (hinstance : l.instances.get? s = some t) (ht : t.Within l.extent)
    (hend : k = 0 ∨ h.parent? s = none) :
    (walking h bases P).Runs (do return [← build (·.addSignature { parameters := [], returnType := t })]) l
      fun xs l' => ∃ cs, P s cs ∧ l'.Stored h s cs xs := by
  have hsignature : (Constructor.implicit.signature t).Within l.extent :=
    ⟨ht, by simp [Constructor.implicit, Constructor.signature]⟩
  refine (addSignature_walks hl hsignature).bind fun x l₁ hl₁ hle₁ hx => Growth.runs_pure hl₁ ?_
  refine ⟨_, hrule.stop hk hs hend, t, fun _ => hle₁.2.instances hinstance, ?_⟩
  exact .cons ⟨t, fun _ => rfl, hx⟩ .nil

theorem impliedConstructors_walks (hrule : h.Rule F P) {k : Nat}
    {inherit? : Option (SymbolId → LinkM (List SignatureId))}
    (hinherit : ∀ f ∈ inherit?, ∃ m, k = m + 1 ∧ Walks h bases F P m f) (hnone : inherit? = none → k = 0)
    (hl : (walking h bases P).Good l) (hk : F k s) (hs : (h.declared s).isEmpty)
    (hinstance : l.instances.get? s = some t) (ht : t.Within l.extent)
    (hbase : ∀ b ∈ h.parent? s, b.Within l.extent) :
    (walking h bases P).Runs (impliedConstructors inherit? (h.parent? s) t) l fun xs l' =>
      (∃ cs, P s cs ∧ l'.Stored h s cs xs) ∧
        ∀ b m, h.parent? s = some b → k = m + 1 → Supplies h m b l l' := by
  cases hb : h.parent? s with
  | none =>
    exact (implicit_walks hrule hl hk hs hinstance ht (.inr hb)).mono fun _ _ hpost => ⟨hpost, by simp⟩
  | some b =>
    cases inherit? with
    | none =>
      obtain rfl := hnone rfl
      exact (implicit_walks hrule hl hk hs hinstance ht (.inl rfl)).mono fun _ _ hpost => ⟨hpost, by simp⟩
    | some f =>
      obtain ⟨m, rfl, hwalks⟩ := hinherit f rfl
      refine (hwalks hl (hrule.ask hk hb) (hbase b hb)).bind fun inherited l₁ hl₁ hle₁ hpost => ?_
      obtain ⟨hinherited, hsupplies⟩ := hpost
      obtain ⟨cs, hcs, hstored⟩ := hl₁.2.kept hinherited
      have hcopies := inherited_walks hl₁ (ht.mono hle₁.1.1.1) (hle₁.2.instances hinstance) hstored
      refine ⟨hcopies.good, hcopies.le, ⟨cs, hrule.inherit hk hb hcs, hcopies.post⟩, ?_⟩
      rintro b' m' ⟨⟩ ⟨⟩
      refine hsupplies.mono fun a ha => ?_
      obtain ⟨xs, hxs⟩ := Option.isSome_iff_exists.mp ha
      exact Option.isSome_iff_exists.mpr ⟨xs, hcopies.le.2.constructors hxs⟩

theorem constructorsVia_walks (hrule : h.Rule F P) {k : Nat}
    {inherit? : Option (SymbolId → LinkM (List SignatureId))}
    (hinherit : ∀ f ∈ inherit?, ∃ m, k = m + 1 ∧ Walks h bases F P m f)
    (hnone : inherit? = none → k = 0) : Walks h bases F P k (constructorsVia inherit? bases) := by
  intro s l hl hk hs
  unfold constructorsVia
  refine Growth.runs_get ?_
  split
  next xs hxs => exact Growth.runs_pure hl ⟨hxs, supplies_of_kept (by rw [hxs]; rfl) k⟩
  next hnew =>
    -- A class of which nothing is kept declares no constructors.
    have hempty : (h.declared s).isEmpty := by
      by_contra hdeclared
      have hkept := hl.2.declared s hdeclared
      rw [hnew] at hkept
      cases hkept
    refine Growth.runs_get ?_
    dsimp only
    rw [hl.2.base s, ← Hierarchy.parent?_eq_base? hempty]
    have hbase : ∀ b ∈ h.parent? s, b.Within l.extent := by
      rw [Hierarchy.parent?_eq_base? hempty, ← hl.2.base s]
      exact baseOf?_within hl.1.sound bases s
    have hsame := (instanceType_aside (l := l) s).le.constructors
    obtain ⟨hl₁, hle₁, ht⟩ := instanceType_walks hl hs
    obtain ⟨hl₂, hle₂, hpost⟩ := impliedConstructors_walks hrule hinherit hnone hl₁ hk hempty ht.2 ht.1
      fun b hb => (hbase b hb).mono hle₁.1.1.1
    obtain ⟨⟨cs, hcs, hstored⟩, hsupplies⟩ := hpost
    obtain ⟨hl₃, hle₃⟩ := storeConstructors_walks hl₂ ((walking h bases P).trans hle₁ hle₂) hnew hcs hstored
    refine ⟨hl₃, hle₃, Table.get?_insert_self, ?_⟩
    refine supplies_of_parent? (Option.isSome_iff_exists.mpr ⟨_, Table.get?_insert_self⟩) fun b m hb hm => ?_
    intro i hi a ha hfree
    refine Table.isSome_get?_insert (hsupplies b m hb hm i hi a ha fun j hj b' hb' => ?_)
    rw [hsame]
    exact hfree j hj b' hb'

/-- **A walk up the classes** gives constructors to the class that is asked and to all within the limit, up
to the first that had some, and all that it keeps has the property of the rule. -/
theorem constructorsOf_walks (hrule : h.Rule F P) (k : Nat) :
    Walks h bases F P k (constructorsOf bases k) := by
  induction k with
  | zero => exact constructorsVia_walks hrule (by simp) fun _ => rfl
  | succ k ih =>
    refine constructorsVia_walks hrule (fun f hf => ?_) (by simp)
    cases hf
    exact ⟨k, rfl, ih⟩

end Linking

end ApiDocs
