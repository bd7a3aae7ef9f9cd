import ApiDocs.Proofs.Binding.SymbolHomes

/-!
# What is known of a symbol

What a draft says of a symbol is its name, its flags, its declarations, and what is noted of it. A step changes
this of one symbol at most. Nothing is known of a symbol before it is declared.

## Main definitions

* `GraphDraft.factsOf`: what is known of a symbol.
* `GraphDraft.Redeclared`: a symbol is declared more than once.
* `GraphDraft.Housed`: nothing is known of what is not declared.

## Main results

* `GraphDraft.housing`: reading preserves this.
-/

namespace ApiDocs

/-- What is noted of a symbol. -/
structure SymbolNotes where
  types : List TypeExpr := []
  indexes : List IndexDraft := []
  signatures : List SignatureDraft := []
  classes : List ClassDraft := []
  enums : List EnumDraft := []

/-- What is known of a symbol. -/
structure SymbolFacts where
  name : String
  flags : SymbolFlags
  declarations : List Declaration
  notes : SymbolNotes

namespace GraphDraft

variable {d d' : GraphDraft} {m s : SymbolId} {b : GraphBuilder} {name : String} {flags : SymbolFlags}
  {isStatic : Bool} {x : Declaration}

/-- What is noted of a symbol. -/
def notesOf (d : GraphDraft) (m : SymbolId) : SymbolNotes where
  types := (d.symbolTypes.filter (·.1 = m)).map (·.2)
  indexes := d.indexes.filter (·.symbol = m)
  signatures := d.signatures.filter (·.owner.symbol = m)
  classes := d.classes.filter (·.symbol = m)
  enums := d.enums.filter (·.symbol = m)

/-- What is known of a symbol. -/
def factsOf (d : GraphDraft) (m : SymbolId) : SymbolFacts where
  name := d.builder.nameOf m
  flags := d.builder.flagsOf m
  declarations := d.builder.declarationsOf m
  notes := d.notesOf m

/-! ## Notes of other symbols -/

theorem notesOf_alike (h : d.Alike d') (m : SymbolId) : d'.notesOf m = d.notesOf m := by
  simp only [notesOf, h.symbolTypes, h.indexes, h.signatures, h.classes, h.enums]

theorem notesOf_typed (hs : s ≠ m) (e : TypeExpr) :
    notesOf { d with symbolTypes := d.symbolTypes ++ [(s, e)] } m = d.notesOf m := by
  simp [notesOf, hs]

theorem notesOf_signed {y : SignatureDraft} (hy : y.owner.symbol ≠ m) :
    notesOf { d with signatures := d.signatures ++ [y] } m = d.notesOf m := by
  simp [notesOf, hy]

theorem notesOf_indexed {y : IndexDraft} (hy : y.symbol ≠ m) :
    notesOf { d with indexes := d.indexes ++ [y] } m = d.notesOf m := by
  simp [notesOf, hy]

theorem notesOf_classed {y : ClassDraft} (hy : y.symbol ≠ m) :
    notesOf { d with classes := d.classes ++ [y] } m = d.notesOf m := by
  simp [notesOf, hy]

theorem notesOf_noteEnum (hs : s ≠ m) (members : List (SymbolId × Option Literal)) :
    (noteEnum s members d).2.notesOf m = d.notesOf m := by
  have hkept : ∀ es : List EnumDraft,
      (es.map fun e => if e.symbol == s then { e with members := e.members ++ members } else e).filter
        (·.symbol = m) = es.filter (·.symbol = m) := by
    intro es
    induction es with
    | nil => rfl
    | cons e es ih =>
      rw [List.map_cons, List.filter_cons, List.filter_cons, ih]
      by_cases he : e.symbol = s
      · simp [he, hs]
      · simp [he]
  change notesOf (if _ then _ else _ : GraphDraft) m = _
  split
  · simp only [notesOf, hkept]
  · simp [notesOf, hs]

/-! ## The first note of a symbol -/

theorem notesOf_typed_self (h : d.notesOf m = {}) (e : TypeExpr) :
    notesOf { d with symbolTypes := d.symbolTypes ++ [(m, e)] } m = { types := [e] } := by
  injection h with htypes hindexes hsignatures hclasses henums
  rw [notesOf, hindexes, hsignatures, hclasses, henums, List.filter_append, List.map_append, htypes]
  simp

theorem notesOf_indexed_self (h : d.notesOf m = {}) {y : IndexDraft} (hy : y.symbol = m) :
    notesOf { d with indexes := d.indexes ++ [y] } m = { indexes := [y] } := by
  injection h with htypes hindexes hsignatures hclasses henums
  rw [notesOf, htypes, hsignatures, hclasses, henums, List.filter_append, hindexes]
  simp [hy]

/-! ## Facts of other symbols -/

theorem factsOf_eq (hname : b.nameOf m = d.builder.nameOf m) (hflags : b.flagsOf m = d.builder.flagsOf m)
    (hdeclarations : b.declarationsOf m = d.builder.declarationsOf m) :
    factsOf { d with builder := b } m = d.factsOf m := by
  simp only [factsOf, hname, hflags, hdeclarations]
  rfl

theorem factsOf_addDeclared (hm : m.Within d.extent) (name : String) (flags : SymbolFlags) (x : Declaration) :
    factsOf { d with builder := d.builder.addDeclared name flags x } m = d.factsOf m := by
  have hne := GraphBuilder.ne_next_of_within hm
  refine factsOf_eq ((GraphBuilder.Enlarges.addDeclared name flags x).names hm) ?_ ?_
  · rw [GraphBuilder.flagsOf_addDeclared, if_neg hne]
  · rw [GraphBuilder.declarationsOf_addDeclared, if_neg hne]

theorem factsOf_addMember (hm : m.Within d.extent) (owner : SymbolId) (name : String) (flags : SymbolFlags)
    (isStatic : Bool) (x : Declaration) :
    factsOf { d with builder := d.builder.addMember owner name flags isStatic x } m = d.factsOf m := by
  have hne := GraphBuilder.ne_next_of_within hm
  refine factsOf_eq ((GraphBuilder.Enlarges.addMember owner name flags isStatic x).names hm) ?_ ?_
  · rw [GraphBuilder.flagsOf_addMember, if_neg hne]
  · rw [GraphBuilder.declarationsOf_addMember, if_neg hne]

theorem factsOf_declareAgain (hm : m.Within d.extent) (hs : s.Within d.extent) (hne : m ≠ s) (flags : SymbolFlags)
    (x : Declaration) : factsOf { d with builder := d.builder.declareAgain s flags x } m = d.factsOf m := by
  refine factsOf_eq ((GraphBuilder.Enlarges.declareAgain s flags x).names hm) ?_ ?_
  · rw [GraphBuilder.flagsOf_declareAgain hs, if_neg hne]
  · rw [GraphBuilder.declarationsOf_declareAgain hs, if_neg hne]

theorem factsOf_setDoc (hm : m.Within d.extent) (s : SymbolId) (doc : String) :
    factsOf { d with builder := d.builder.setDoc s doc } m = d.factsOf m := by
  have hle : d.builder.Enlarges (d.builder.setDoc s doc) := .modifyAside (fun _ => rfl) (fun _ => rfl) fun _ => rfl
  exact factsOf_eq (hle.names hm) (GraphBuilder.flagsOf_setDoc s doc m) (GraphBuilder.declarationsOf_setDoc s doc m)

theorem factsOf_exportAs (hm : m.Within d.extent) (container : SymbolId) (name : String) (s : SymbolId) :
    factsOf { d with builder := d.builder.exportAs container name s } m = d.factsOf m := by
  have hle : d.builder.Enlarges (d.builder.exportAs container name s) :=
    .modifyAside (fun _ => rfl) (fun _ => rfl) fun _ => rfl
  exact factsOf_eq (hle.names hm) (GraphBuilder.flagsOf_exportAs container name s m)
    (GraphBuilder.declarationsOf_exportAs container name s m)

/-- What is noted of other symbols is no matter. -/
theorem factsOf_noted (hbuilder : d'.builder = d.builder) (hnotes : d'.notesOf m = d.notesOf m) :
    d'.factsOf m = d.factsOf m := by
  simp only [factsOf, hbuilder, hnotes]

/-! ## What is declared once -/

/-- The symbol is declared more than once. -/
def Redeclared (s : SymbolId) (d : GraphDraft) : Prop := 1 < (d.builder.kindsOf s).length

theorem Redeclared.mono (h : Redeclared s d) (hle : d.builder.Enlarges d'.builder) : Redeclared s d' :=
  Nat.lt_of_lt_of_le h (hle.kinds s).length_le

/-- A declaration of something that is declared once is the first one. -/
theorem eq_singleton_of_prefix {α : Type} {l l' : List α} {x : α} (h : l ++ [x] <+: l') (hone : l'.length = 1) :
    l = [] ∧ l' = [x] := by
  obtain ⟨rest, rfl⟩ := h
  simp only [List.length_append, List.length_singleton] at hone
  obtain rfl : l = [] := List.length_eq_zero_iff.mp (by omega)
  obtain rfl : rest = [] := List.length_eq_zero_iff.mp (by omega)
  exact ⟨rfl, rfl⟩

/-! ## What is not declared -/

/-- **Nothing is known of what is not declared**: it has no members, and nothing is noted of it. -/
def Housed (d : GraphDraft) : Prop :=
  ∀ m, d.builder.kindsOf m = [] → (d.builder.membersOf m).entries = [] ∧ d.notesOf m = {}

theorem Housed.rebuilt (h : d.Housed) (hle : d.builder.Enlarges b)
    (hmembers : ∀ m, b.kindsOf m = [] → b.membersOf m = d.builder.membersOf m) : Housed { d with builder := b } := by
  intro m hm
  have hold : d.builder.kindsOf m = [] := List.prefix_nil.mp (hm ▸ hle.kinds m)
  obtain ⟨hentries, hnotes⟩ := h m hold
  refine ⟨?_, hnotes⟩
  change (b.membersOf m).entries = []
  rw [hmembers m hm]
  exact hentries

theorem Housed.addDeclared (h : d.Housed) (name : String) (flags : SymbolFlags) (x : Declaration) :
    Housed { d with builder := d.builder.addDeclared name flags x } :=
  h.rebuilt (.addDeclared name flags x) fun m _ =>
    GraphBuilder.memberTable_addDeclared d.builder name flags x m false

theorem Housed.declareAgain (h : d.Housed) (s : SymbolId) (flags : SymbolFlags) (x : Declaration) :
    Housed { d with builder := d.builder.declareAgain s flags x } :=
  h.rebuilt (.declareAgain s flags x) fun m _ => GraphBuilder.memberTable_declareAgain d.builder s flags x m false

/-- Only what is declared gets members. -/
theorem Housed.addMember (h : d.Housed) {owner : SymbolId} (howner : d.builder.kindsOf owner ≠ []) (name : String)
    (flags : SymbolFlags) (isStatic : Bool) (x : Declaration) :
    Housed { d with builder := d.builder.addMember owner name flags isStatic x } := by
  have hle : d.builder.Enlarges (d.builder.addMember owner name flags isStatic x) :=
    .addMember owner name flags isStatic x
  refine h.rebuilt hle fun m hm => ?_
  refine (GraphBuilder.memberTable_addMember (GraphBuilder.within_of_kindsOf howner) name flags isStatic x m
    false).trans (if_neg fun hplace => howner ?_)
  exact List.prefix_nil.mp (hm ▸ hplace.1 ▸ hle.kinds m)

/-- What is noted of something that is declared is no matter. -/
theorem Housed.noted (h : d.Housed) (hbuilder : d'.builder = d.builder) {s : SymbolId}
    (hs : d.builder.kindsOf s ≠ []) (hnotes : ∀ m, s ≠ m → d'.notesOf m = d.notesOf m) : d'.Housed := by
  intro m hm
  rw [hbuilder] at hm ⊢
  rw [hnotes m fun heq => hs (heq ▸ hm)]
  exact h m hm

/-- Reading declares symbols before anything is noted of them. -/
def housing : Rule where
  Inv := Housed
  Open d m := d.builder.kindsOf m ≠ []
  open_mono hle hm hnil := hm (List.prefix_nil.mp (hnil ▸ hle.kinds _))
  alike {d d'} halike h := by
    intro m hm
    rw [halike.builder] at hm ⊢
    rw [notesOf_alike halike]
    exact h m hm
  fresh {d} name flags x h _ := ⟨h.addDeclared name flags x, by simp [GraphBuilder.kindsOf_addDeclared]⟩
  named {d} container name flags x h _ _ := ⟨h.addDeclared name flags x, by simp [GraphBuilder.kindsOf_addDeclared]⟩
  again {d} container name s flags x h _ _ hs :=
    ⟨h.declareAgain s flags x, by simp [GraphBuilder.kindsOf_declareAgain hs]⟩
  member {d} owner name flags isStatic x h howner _ _ _ :=
    ⟨h.addMember howner name flags isStatic x, by simp [GraphBuilder.kindsOf_addMember]⟩
  memberAgain {d} owner name s flags isStatic x h _ _ _ _ hs :=
    ⟨h.declareAgain s flags x, by simp [GraphBuilder.kindsOf_declareAgain hs]⟩
  documented {d s} doc h _ := h.rebuilt (.modifyAside (fun _ => rfl) (fun _ => rfl) fun _ => rfl) fun m _ =>
    GraphBuilder.memberTable_setDoc s doc m false
  exported {d s} container name h _ _ _ :=
    h.rebuilt (.modifyAside (fun _ => rfl) (fun _ => rfl) fun _ => rfl) fun m _ => by
      simpa using GraphBuilder.memberTable_exportAs d.builder container name s m false
  typed h hs _ := h.noted rfl hs fun m hne => notesOf_typed hne _
  aliased _ _ h _ := h
  signed _ h hs _ := h.noted rfl hs fun m hne => notesOf_signed hne
  indexed _ h hs _ _ _ _ := h.noted rfl hs fun m hne => notesOf_indexed hne
  classed _ h hs := h.noted rfl hs fun m hne => notesOf_classed hne
  linked _ h _ := h

theorem housing_enumerates : housing.Enumerates := by
  refine Rule.enumerates_of_members (fun owner name x h howner _ _ _ _ => ?_) (fun owner name s x h _ _ _ _ _ hs => ?_)
    fun {d s} members h hs => ?_
  · exact ⟨Housed.addMember h howner name _ true x, by simp [housing, GraphBuilder.kindsOf_addMember]⟩
  · exact ⟨Housed.declareAgain h s _ x, by simp [housing, GraphBuilder.kindsOf_declareAgain hs]⟩
  · exact Housed.noted h (noteEnum_aside s members d).1 hs fun m hne => notesOf_noteEnum hne members

theorem housing_admitsAll : housing.AdmitsAll where
  may _ _ := trivial
  counts _ _ := trivial
  enumerates := housing_enumerates
  files := {
    script := fun path h => h.2.rebuilt (.addScript path) fun _ _ => rfl
    newModule := fun {d} path h => h.2.rebuilt (.addModule path) fun m _ =>
      GraphBuilder.memberTable_addSymbol d.builder _ _ m false }

theorem start_housed : start.Housed := by
  rintro ⟨_ | n⟩ hm
  · cases hm
  · exact ⟨rfl, rfl⟩

end GraphDraft

end ApiDocs
