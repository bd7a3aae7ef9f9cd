import ApiDocs.Proofs.Binding.DraftCuts

/-!
# Where symbols are found

A symbol has one name at most, and one owner: the tables that it is in are all those of one symbol, and what has
a name in a container is in no other table than that of the exports of the container. Only what has a name may be
exported under several ones, as it may be declared, and exported, more than once.

## Main definitions

* `GraphDraft.Homed`: symbols have one name and one owner.

## Main results

* `GraphDraft.Homed.addMember`, `GraphDraft.Homed.exportAs`: what is added to a table stays so.
* `GraphDraft.homing`: reading preserves this.
-/

namespace ApiDocs

open TypeScript

theorem Table.get?_insert {κ α : Type} [DecidableEq κ] {t : Table κ α} {k k' : κ} {v : α} :
    (t.insert k v).get? k' = if k' = k then some v else t.get? k' := by
  split
  next h => rw [h, Table.get?_insert_self]
  next h => exact Table.get?_insert_of_ne h

namespace GraphDraft

variable {d d' : GraphDraft} {s : SymbolId}

/-- **Symbols have one name and one owner.** -/
structure Homed (d : GraphDraft) : Prop where
  inside : d.Inside
  names : ∀ {k k' m}, d.named.get? k = some m → d.named.get? k' = some m → k = k'
  exports : ∀ {k m c isStatic n}, d.named.get? k = some m → (d.builder.memberTable c isStatic).get? n = some m →
    k.1 = .symbol c ∧ isStatic = true
  tables : ∀ {m c isStatic n c' isStatic' n'}, (d.builder.memberTable c isStatic).get? n = some m →
    (d.builder.memberTable c' isStatic').get? n' = some m →
    c = c' ∧ isStatic = isStatic' ∧ (n = n' ∨ m ∈ d.named.values)

namespace Homed

/-- Where names and tables stay, this stays. -/
theorem of_same (h : d.Homed) (hinside : d'.Inside) (hnamed : d'.named = d.named)
    (htables : ∀ c isStatic, d'.builder.memberTable c isStatic = d.builder.memberTable c isStatic) : d'.Homed where
  inside := hinside
  names hk hk' := by
    rw [hnamed] at hk hk'
    exact h.names hk hk'
  exports hk hn := by
    rw [hnamed] at hk
    rw [htables] at hn
    exact h.exports hk hn
  tables hn hn' := by
    rw [htables] at hn hn'
    rw [hnamed]
    exact h.tables hn hn'

theorem alike (h : d.Homed) (halike : d.Alike d') : d'.Homed :=
  h.of_same (h.inside.alike halike) halike.named fun _ _ => by rw [halike.builder]

theorem addDeclared (h : d.Homed) (name : String) (flags : SymbolFlags) (x : Declaration) :
    Homed { d with builder := d.builder.addDeclared name flags x } :=
  h.of_same (h.inside.rebuilt (.addDeclared name flags x) (h.inside.builder.addDeclared name flags x)) rfl
    (GraphBuilder.memberTable_addDeclared d.builder name flags x)

theorem declareAgain (h : d.Homed) (s : SymbolId) (flags : SymbolFlags) (x : Declaration) :
    Homed { d with builder := d.builder.declareAgain s flags x } :=
  h.of_same (h.inside.rebuilt (.declareAgain s flags x) (h.inside.builder.declareAgain s flags x)) rfl
    (GraphBuilder.memberTable_declareAgain d.builder s flags x)

theorem setDoc (h : d.Homed) (s : SymbolId) (doc : String) :
    Homed { d with builder := d.builder.setDoc s doc } := by
  have hle : d.builder.Enlarges (d.builder.setDoc s doc) := .modifyAside (fun _ => rfl) (fun _ => rfl) fun _ => rfl
  have hinside : (d.builder.setDoc s doc).Inside := h.inside.builder.modifyAside (fun _ => rfl) fun _ => rfl
  exact h.of_same (h.inside.rebuilt hle hinside) rfl (GraphBuilder.memberTable_setDoc s doc)

/-- No table leads to the symbol that is added next. -/
theorem ne_next_of_get? (h : d.Homed) {m c : SymbolId} {isStatic : Bool} {n : String}
    (hget : (d.builder.memberTable c isStatic).get? n = some m) : m ≠ d.builder.next :=
  GraphBuilder.ne_next_of_within (h.inside.builder.within_of_memberTable hget)

/-- What is exported from a symbol is exported from no other one. -/
theorem exports_unique (h : d.Homed) {m c c' : SymbolId} {n n' : String}
    (hget : (d.builder.exportsOf c).get? n = some m) (hget' : (d.builder.exportsOf c').get? n' = some m) : c = c' :=
  (h.tables (show (d.builder.memberTable c true).get? n = some m from hget)
    (show (d.builder.memberTable c' true).get? n' = some m from hget')).1

/-- What has a name in a container is exported from the container. -/
theorem exports_named (h : d.Homed) {m c : SymbolId} {k : Container × String} {n : String}
    (hname : d.named.get? k = some m) (hget : (d.builder.exportsOf c).get? n = some m) : k.1 = .symbol c :=
  (h.exports hname (show (d.builder.memberTable c true).get? n = some m from hget)).1

/-- A name gets its symbol. -/
theorem named (h : d.Homed) (key : Container × String) (name : String) (flags : SymbolFlags) (x : Declaration)
    (hnone : d.named.get? key = none) : Homed { d with
      builder := d.builder.addDeclared name flags x
      named := d.named.insert key d.builder.next } := by
  have hadded := h.addDeclared name flags x
  have hnext : ∀ {k m}, d.named.get? k = some m → m ≠ d.builder.next := fun hk =>
    GraphBuilder.ne_next_of_within (h.inside.named _ (Table.mem_values_of_get? hk))
  have hcases : ∀ {k m}, (d.named.insert key d.builder.next).get? k = some m →
      (k = key ∧ m = d.builder.next) ∨ d.named.get? k = some m := by
    intro k m hk
    rw [Table.get?_insert] at hk
    split at hk
    next heq => exact .inl ⟨heq, (Option.some.inj hk).symm⟩
    next => exact .inr hk
  refine ⟨⟨hadded.inside.builder, ?_⟩, fun {k k' m} hk hk' => ?_, fun {k m c isStatic n} hk hn => ?_,
    fun {m c isStatic n c' isStatic' n'} hn hn' => ?_⟩
  · exact Table.forall_values_insert hadded.inside.named (GraphBuilder.next_within_addDeclared _ name flags x)
  · rcases hcases hk with ⟨rfl, rfl⟩ | hold
    · rcases hcases hk' with ⟨rfl, -⟩ | hold'
      · rfl
      · exact absurd rfl (hnext hold')
    · rcases hcases hk' with ⟨rfl, rfl⟩ | hold'
      · exact absurd rfl (hnext hold)
      · exact h.names hold hold'
  · have hn' : (d.builder.memberTable c isStatic).get? n = some m := by
      rwa [← GraphBuilder.memberTable_addDeclared d.builder name flags x]
    rcases hcases hk with ⟨rfl, rfl⟩ | hold
    · exact absurd rfl (h.ne_next_of_get? hn')
    · exact h.exports hold hn'
  · obtain ⟨hc, hstatic, hname⟩ := hadded.tables hn hn'
    refine ⟨hc, hstatic, hname.imp_right fun hm => ?_⟩
    obtain ⟨e, he, rfl⟩ := List.mem_map.mp hm
    have hkey : e.1 ≠ key := by
      intro heq
      have hget := Table.get?_eq_some_iff.mpr he
      rw [heq] at hget
      exact Option.some_ne_none _ (hget.symm.trans hnone)
    exact List.mem_map.mpr ⟨e, (Table.mem_entries_insert_of_ne hkey).mpr he, rfl⟩

/-- A table gets a new symbol. -/
theorem addMember (h : d.Homed) {owner : SymbolId} (howner : owner.Within d.extent) (name : String)
    (flags : SymbolFlags) (isStatic : Bool) (x : Declaration) :
    Homed { d with builder := d.builder.addMember owner name flags isStatic x } := by
  have hinside := h.inside.rebuilt (.addMember owner name flags isStatic x)
    (h.inside.builder.addMember owner name flags isStatic x)
  have hcases : ∀ {c st n m}, ((d.builder.addMember owner name flags isStatic x).memberTable c st).get? n = some m →
      (c = owner ∧ st = isStatic ∧ n = name ∧ m = d.builder.next) ∨ (d.builder.memberTable c st).get? n = some m := by
    intro c st n m hn
    rw [GraphBuilder.memberTable_addMember howner] at hn
    split at hn
    next hplace =>
      rw [Table.get?_insert] at hn
      split at hn
      next heq => exact .inl ⟨hplace.1, hplace.2, heq, (Option.some.inj hn).symm⟩
      next => exact .inr hn
    next => exact .inr hn
  refine ⟨hinside, h.names, fun {k m c st n} hk hn => ?_, fun {m c st n c' st' n'} hn hn' => ?_⟩
  · rcases hcases hn with ⟨-, -, -, rfl⟩ | hold
    · exact absurd rfl (GraphBuilder.ne_next_of_within (h.inside.named _ (Table.mem_values_of_get? hk)))
    · exact h.exports hk hold
  · rcases hcases hn with ⟨rfl, rfl, rfl, rfl⟩ | hold
    · rcases hcases hn' with ⟨rfl, rfl, rfl, -⟩ | hold'
      · exact ⟨rfl, rfl, .inl rfl⟩
      · exact absurd rfl (h.ne_next_of_get? hold')
    · rcases hcases hn' with ⟨-, -, -, rfl⟩ | hold'
      · exact absurd rfl (h.ne_next_of_get? hold)
      · exact h.tables hold hold'

/-- What belongs to a container is exported from it. -/
theorem exportAs (h : d.Homed) (hs : s.Within d.extent) {container : SymbolId} (hbelongs : d.BelongsTo s container)
    (name : String) : Homed { d with builder := d.builder.exportAs container name s } := by
  have hle : d.builder.Enlarges (d.builder.exportAs container name s) :=
    .modifyAside (fun _ => rfl) (fun _ => rfl) fun _ => rfl
  have hinside := h.inside.rebuilt hle (h.inside.builder.exportAs container name hs)
  have hcases : ∀ {c st n m}, ((d.builder.exportAs container name s).memberTable c st).get? n = some m →
      (c = container ∧ st = true ∧ n = name ∧ m = s) ∨ (d.builder.memberTable c st).get? n = some m := by
    intro c st n m hn
    rw [GraphBuilder.memberTable_exportAs] at hn
    split at hn
    next hplace =>
      rw [Table.get?_insert] at hn
      split at hn
      next heq => exact .inl ⟨hplace.1, hplace.2.1, heq, (Option.some.inj hn).symm⟩
      next => exact .inr hn
    next => exact .inr hn
  -- Where it was before, it was exported from the container.
  have hsame : ∀ {c st n}, (d.builder.memberTable c st).get? n = some s →
      container = c ∧ true = st ∧ s ∈ d.named.values := by
    intro c st n hn
    rcases hbelongs with ⟨n₀, hname⟩ | hunlisted
    · obtain ⟨hc, hst⟩ := h.exports hname hn
      exact ⟨Container.symbol.inj hc, hst.symm, Table.mem_values_of_get? hname⟩
    · exact absurd (Table.mem_values_of_get? hn) (hunlisted.tables c st)
  refine ⟨hinside, h.names, fun {k m c st n} hk hn => ?_, fun {m c st n c' st' n'} hn hn' => ?_⟩
  · rcases hcases hn with ⟨rfl, rfl, -, rfl⟩ | hold
    · rcases hbelongs with ⟨n₀, hname⟩ | hunlisted
      · exact ⟨congrArg Prod.fst (h.names hk hname), rfl⟩
      · exact absurd (Table.mem_values_of_get? hk) hunlisted.named
    · exact h.exports hk hold
  · rcases hcases hn with ⟨rfl, rfl, rfl, rfl⟩ | hold
    · rcases hcases hn' with ⟨rfl, rfl, rfl, -⟩ | hold'
      · exact ⟨rfl, rfl, .inl rfl⟩
      · obtain ⟨hc, hst, hnamed⟩ := hsame hold'
        exact ⟨hc, hst, .inr hnamed⟩
    · rcases hcases hn' with ⟨rfl, rfl, rfl, rfl⟩ | hold'
      · obtain ⟨hc, hst, hnamed⟩ := hsame hold
        exact ⟨hc.symm, hst.symm, .inr hnamed⟩
      · exact h.tables hold hold'

theorem addScript (h : d.Homed) (path : String) : Homed { d with builder := d.builder.addScript path } :=
  h.of_same (h.inside.rebuilt (.addScript path) h.inside.builder) rfl fun _ _ => rfl

theorem addModule (h : d.Homed) (path : String) : Homed { d with builder := (d.builder.addModule path).2 } :=
  h.of_same (h.inside.rebuilt (.addModule path) (h.inside.builder.addModule path)) rfl
    (GraphBuilder.memberTable_addSymbol d.builder _ _)

end Homed

theorem within_of_enlarges (hle : d.builder.Enlarges d'.builder) (hs : s.Within d.extent) : s.Within d'.extent :=
  hle.within hs

/-- **Reading gives symbols one name and one owner.** -/
def homing : Rule where
  Inv := Homed
  Open d m := m.Within d.extent
  open_mono := @within_of_enlarges
  alike halike h := h.alike halike
  fresh name flags x h _ := ⟨h.addDeclared name flags x, GraphBuilder.next_within_addDeclared _ name flags x⟩
  named container name flags x h _ hnone :=
    ⟨h.named (container, name) name flags x hnone, GraphBuilder.next_within_addDeclared _ name flags x⟩
  again _ _ m flags x h _ _ hm := ⟨h.declareAgain m flags x, (GraphBuilder.Enlarges.declareAgain m flags x).within hm⟩
  member owner name flags isStatic x h howner _ _ _ :=
    ⟨h.addMember howner name flags isStatic x, GraphBuilder.next_within_addMember _ owner name flags isStatic x⟩
  memberAgain _ _ m flags _ x h _ _ _ _ hm :=
    ⟨h.declareAgain m flags x, (GraphBuilder.Enlarges.declareAgain m flags x).within hm⟩
  documented doc h _ := h.setDoc _ doc
  exported _ name h hm hbelongs _ := h.exportAs hm hbelongs name
  typed h _ _ := h.of_same { h.inside with } rfl fun _ _ => rfl
  aliased _ _ h _ := h.of_same { h.inside with } rfl fun _ _ => rfl
  signed _ h _ _ := h.of_same { h.inside with } rfl fun _ _ => rfl
  indexed _ h _ _ _ _ _ := h.of_same { h.inside with } rfl fun _ _ => rfl
  classed _ h _ := h.of_same { h.inside with } rfl fun _ _ => rfl
  linked _ h _ := h.of_same { h.inside with } rfl fun _ _ => rfl

theorem homing_enumerates : homing.Enumerates := by
  refine Rule.enumerates_of_members (fun owner name x h howner _ _ _ _ => ?_) (fun owner name m x h _ _ _ _ _ hm => ?_)
    fun {d s} members h _ => ?_
  · exact ⟨Homed.addMember h howner name _ true x, GraphBuilder.next_within_addMember _ owner name _ true x⟩
  · exact ⟨Homed.declareAgain h m _ x, (GraphBuilder.Enlarges.declareAgain m _ x).within hm⟩
  · change (if _ then _ else _ : GraphDraft).Homed
    split <;> exact Homed.of_same h { h.inside with } rfl fun _ _ => rfl

theorem homing_admitsAll : homing.AdmitsAll where
  may _ _ := trivial
  counts _ _ := trivial
  enumerates := homing_enumerates
  files := {
    script := fun path h => h.2.addScript path
    newModule := fun path h => (h.2.addModule path).of_same { (h.2.addModule path).inside with } rfl fun _ _ => rfl }

theorem memberTable_start (c : SymbolId) (isStatic : Bool) : start.builder.memberTable c isStatic = .empty := by
  obtain ⟨_ | n⟩ := c <;> cases isStatic <;> rfl

theorem start_homed : start.Homed where
  inside := start_sound.inside
  names hk := nomatch hk
  exports hk := nomatch hk
  tables hn := by
    rw [memberTable_start] at hn
    cases hn

end GraphDraft

end ApiDocs
