import ApiDocs.Binding.Members
import ApiDocs.Proofs.Graph.Builder

/-!
# Sound drafts

A draft is sound if its graph is closed and every symbol that its notes hold is there. Notes are looked
at like parts of a graph: they are within an extent, and so within every larger one. A step that draws
up a draft lets the graph grow and keeps the draft sound.

## Main definitions

* `TypeExpr.Within`, `SignatureDraft.Within`, …: a note holds only symbols that are there.
* `GraphDraft.Sound`: a closed graph, with notes on symbols that are there.
* `GraphDraft.growth`: drafts grow, stay sound and keep their files and their layout.
-/

namespace ApiDocs

/-! ## Notes -/

mutual

/-- The symbols in a type expression are there. -/
def TypeExpr.Within (e : Extent) : TypeExpr → Prop
  | .reference _ _ arguments => AllWithin e arguments
  | .instanceOf symbol => symbol.Within e
  | .array element => element.Within e
  | .union members => AllWithin e members
  | .intersection members => AllWithin e members
  | .tuple elements => AllWithin e elements
  | .this owner => ∀ s ∈ owner, s.Within e
  | .keyword _ | .text _ | .number _ | .boolean _ | .verbatim _ => True

/-- The symbols in type expressions are there. -/
def TypeExpr.AllWithin (e : Extent) : List TypeExpr → Prop
  | [] => True
  | t :: ts => t.Within e ∧ AllWithin e ts

end

theorem TypeExpr.allWithin_iff {e : Extent} {ts : List TypeExpr} :
    AllWithin e ts ↔ ∀ t ∈ ts, t.Within e := by
  induction ts with
  | nil => simp [AllWithin]
  | cons t ts ih => simp [AllWithin, ih]

def SignatureOwner.Within (o : SignatureOwner) (e : Extent) : Prop :=
  match o with
  | .call s | .construct s => s.Within e

structure SignatureDraft.Within (d : SignatureDraft) (e : Extent) : Prop where
  owner : d.owner.Within e
  parameters : ∀ p ∈ d.parameters, p.Within e
  result : ∀ t ∈ d.result, t.Within e

structure IndexDraft.Within (d : IndexDraft) (e : Extent) : Prop where
  key : ∀ t ∈ d.key, t.Within e
  value : d.value.Within e

structure EnumDraft.Within (d : EnumDraft) (e : Extent) : Prop where
  symbol : d.symbol.Within e
  members : ∀ m ∈ d.members, m.1.Within e

/-- The symbols in the notes of a draft are there. -/
structure GraphDraft.NotesWithin (d : GraphDraft) (e : Extent) : Prop where
  modules : ∀ s ∈ d.modules.values, s.Within e
  locals : ∀ s ∈ d.locals.values, s.Within e
  named : ∀ s ∈ d.named.values, s.Within e
  globals : ∀ s ∈ d.globals.values, s.Within e
  symbolTypes : ∀ p ∈ d.symbolTypes, p.2.Within e
  typeAliases : ∀ t ∈ d.typeAliases.values, t.Within e
  signatures : ∀ x ∈ d.signatures, x.Within e
  indexes : ∀ x ∈ d.indexes, x.Within e
  enums : ∀ x ∈ d.enums, x.Within e
  classes : ∀ x ∈ d.classes, x.symbol.Within e

/-! ## Larger extents -/

mutual

theorem TypeExpr.Within.mono {e e' : Extent} (h : e.Le e') :
    {t : TypeExpr} → t.Within e → t.Within e'
  | .reference .., ht => TypeExpr.AllWithin.mono h ht
  | .instanceOf _, ht => SymbolId.Within.mono h ht
  | .array element, ht => TypeExpr.Within.mono h (t := element) ht
  | .union _, ht => TypeExpr.AllWithin.mono h ht
  | .intersection _, ht => TypeExpr.AllWithin.mono h ht
  | .tuple _, ht => TypeExpr.AllWithin.mono h ht
  | .this _, ht => fun s hs => (ht s hs).mono h
  | .keyword _, _ => trivial
  | .text _, _ => trivial
  | .number _, _ => trivial
  | .boolean _, _ => trivial
  | .verbatim _, _ => trivial

theorem TypeExpr.AllWithin.mono {e e' : Extent} (h : e.Le e') :
    {ts : List TypeExpr} → TypeExpr.AllWithin e ts → TypeExpr.AllWithin e' ts
  | [], _ => trivial
  | _ :: _, ht => ⟨TypeExpr.Within.mono h ht.1, TypeExpr.AllWithin.mono h ht.2⟩

end

section Mono

variable {e e' : Extent} (h : e.Le e')

include h

theorem SignatureOwner.Within.mono {o : SignatureOwner} (ho : o.Within e) : o.Within e' := by
  cases o <;> exact SymbolId.Within.mono h ho

theorem SignatureDraft.Within.mono {d : SignatureDraft} (hd : d.Within e) : d.Within e' where
  owner := hd.owner.mono h
  parameters p hp := (hd.parameters p hp).mono h
  result t ht := (hd.result t ht).mono h

theorem IndexDraft.Within.mono {d : IndexDraft} (hd : d.Within e) : d.Within e' where
  key t ht := (hd.key t ht).mono h
  value := hd.value.mono h

theorem EnumDraft.Within.mono {d : EnumDraft} (hd : d.Within e) : d.Within e' where
  symbol := hd.symbol.mono h
  members m hm := (hd.members m hm).mono h

theorem GraphDraft.NotesWithin.mono {d : GraphDraft} (hd : d.NotesWithin e) : d.NotesWithin e' where
  modules s hs := (hd.modules s hs).mono h
  locals s hs := (hd.locals s hs).mono h
  named s hs := (hd.named s hs).mono h
  globals s hs := (hd.globals s hs).mono h
  symbolTypes p hp := (hd.symbolTypes p hp).mono h
  typeAliases t ht := (hd.typeAliases t ht).mono h
  signatures x hx := (hd.signatures x hx).mono h
  indexes x hx := (hd.indexes x hx).mono h
  enums x hx := (hd.enums x hx).mono h
  classes x hx := (hd.classes x hx).mono h

end Mono

/-! ## Sound drafts -/

namespace GraphDraft

variable {d : GraphDraft} {symbol : SymbolId}

/-- How many symbols, types and signatures there are. -/
abbrev extent (d : GraphDraft) : Extent := d.builder.extent

/-- The graph is closed, and the notes are on symbols that are there. -/
structure Sound (d : GraphDraft) : Prop where
  builder : d.builder.Closed
  notes : d.NotesWithin d.extent

/-- Drafts grow and keep their files. -/
def growth : Growth GraphDraft where
  Good := Sound
  Le d d' := GraphBuilder.growth.Le d.builder d'.builder
  refl d := GraphBuilder.growth.refl d.builder
  trans := GraphBuilder.growth.trans

theorem within_stable (s : SymbolId) : growth.Stable fun d => s.Within d.extent :=
  fun _ _ hle hs => hs.mono hle.1

/-- What a step hands back is a symbol that is there. -/
abbrev SymbolThere (s : SymbolId) (d : GraphDraft) : Prop := s.Within d.extent

/-- A step that hands back nothing of interest. -/
abbrev Anything {α : Type} (_ : α) (_ : GraphDraft) : Prop := True

/-! ### Work on the graph -/

theorem build_runs {α : Type} {f : GraphBuilder → α × GraphBuilder} {P : α → GraphBuilder → Prop}
    (hd : d.Sound) (h : GraphBuilder.growth.Runs f d.builder P) :
    growth.Runs (build f) d fun a d' => P a d'.builder := by
  have hle : d.extent.Le (f d.builder).2.extent := h.le.1
  exact ⟨⟨h.good, { hd.notes.mono hle with }⟩, h.le, h.post⟩

theorem rebuild_runs {f : GraphBuilder → GraphBuilder} (hd : d.Sound)
    (h : d.builder.GrownTo (f d.builder)) : growth.Runs (rebuild f) d Anything :=
  ⟨⟨h.1, { hd.notes.mono h.2.1 with }⟩, h.2, trivial⟩

/-- A step that only changes notes. -/
theorem note_runs {f : GraphDraft → GraphDraft} (hd : d.Sound) (hbuilder : (f d).builder = d.builder)
    (h : (f d).NotesWithin d.extent) : growth.Runs (modify f) d Anything := by
  refine Growth.runs_modify ⟨by rw [hbuilder]; exact hd.builder, ?_⟩ ?_
  · rw [extent, hbuilder]
    exact h
  · change GraphBuilder.growth.Le d.builder (f d).builder
    rw [hbuilder]
    exact GraphBuilder.growth.refl _

theorem addSymbol_runs (hd : d.Sound) (name : String) (flags : SymbolFlags) :
    growth.Runs (build (·.addSymbol name flags)) d SymbolThere :=
  build_runs hd (GraphBuilder.addSymbol_runs hd.builder name flags)

theorem exportAs_runs {container : SymbolId} (hd : d.Sound) (name : String)
    (hs : symbol.Within d.extent) :
    growth.Runs (rebuild (·.exportAs container name symbol)) d Anything :=
  rebuild_runs hd (GraphBuilder.exportAs_grown hd.builder hs)

theorem freshScope_runs (hd : d.Sound) : growth.Runs freshScope d Anything :=
  ⟨⟨hd.builder, { hd.notes with }⟩, growth.refl d, trivial⟩

/-! ### Names -/

theorem bindLocal_runs (hd : d.Sound) (binding : LocalRef) (hs : symbol.Within d.extent) :
    growth.Runs (bindLocal binding symbol) d Anything :=
  note_runs hd rfl { hd.notes with locals := Table.forall_values_insert hd.notes.locals hs }

theorem bindNamed_runs (hd : d.Sound) (container : Container) (name : String) (flags : SymbolFlags) :
    growth.Runs (bindNamed container name flags) d SymbolThere := by
  unfold bindNamed
  refine Growth.runs_get ?_
  split
  next symbol hget =>
    have hs := hd.notes.named symbol (Table.mem_values_of_get? hget)
    exact (rebuild_runs hd (GraphBuilder.addFlags_grown hd.builder flags)).handBack
      (within_stable symbol) hs
  next =>
    refine (addSymbol_runs hd name flags).bind fun symbol d₁ hd₁ _ hs₁ => ?_
    have hnamed := Table.forall_values_insert (k := (container, name)) hd₁.notes.named hs₁
    refine (note_runs hd₁ rfl { hd₁.notes with named := hnamed }).bind fun _ d₂ hd₂ hle₂ _ => ?_
    have hs₂ : symbol.Within d₂.extent := hs₁.mono hle₂.1
    cases container with
    | symbol id => exact Growth.runs_pure hd₂ hs₂
    | script file =>
      refine Growth.runs_get ?_
      split
      · have hglobals := Table.forall_values_insert (k := name) hd₂.notes.globals hs₂
        exact (note_runs hd₂ rfl { hd₂.notes with globals := hglobals }).handBack
          (within_stable symbol) hs₂
      · exact Growth.runs_pure hd₂ hs₂

theorem bindMember_runs (hd : d.Sound) (owner : SymbolId) (name : String) (flags : SymbolFlags)
    (isStatic : Bool) : growth.Runs (bindMember owner name flags isStatic) d SymbolThere := by
  unfold bindMember
  refine Growth.runs_get ?_
  dsimp only
  have htable : ∀ s ∈ (if isStatic then d.builder.exportsOf owner
      else d.builder.membersOf owner).values, s.Within d.extent := by
    cases isStatic
    · exact GraphBuilder.within_of_membersOf hd.builder
    · exact GraphBuilder.within_of_exportsOf hd.builder
  split
  next symbol hget =>
    have hs := htable symbol (Table.mem_values_of_get? hget)
    exact (rebuild_runs hd (GraphBuilder.addFlags_grown hd.builder flags)).handBack
      (within_stable symbol) hs
  next =>
    refine (addSymbol_runs hd name flags).bind fun symbol d₁ hd₁ _ hs₁ => ?_
    cases isStatic with
    | true =>
      exact (exportAs_runs hd₁ name hs₁).handBack (within_stable symbol) hs₁
    | false =>
      exact (rebuild_runs hd₁ (GraphBuilder.member_grown hd₁.builder hs₁)).handBack
        (within_stable symbol) hs₁

theorem attachDoc_runs (hd : d.Sound) (symbol : SymbolId) (doc : String) :
    growth.Runs (attachDoc symbol doc) d Anything := by
  unfold attachDoc
  refine Growth.runs_get ?_
  split
  · exact rebuild_runs hd (GraphBuilder.setDoc_grown hd.builder doc)
  · exact Growth.runs_pure hd trivial

/-! ### Notes -/

theorem noteType_runs (hd : d.Sound) (symbol : SymbolId) {t : TypeExpr} (ht : t.Within d.extent) :
    growth.Runs (noteType symbol t) d Anything := by
  refine note_runs hd rfl { hd.notes with symbolTypes := ?_ }
  simpa [or_imp, forall_and] using ⟨fun a b => hd.notes.symbolTypes (a, b), ht⟩

theorem noteSignature_runs (hd : d.Sound) {s : SignatureDraft} (hs : s.Within d.extent) :
    growth.Runs (noteSignature s) d Anything := by
  refine note_runs hd rfl { hd.notes with signatures := ?_ }
  simpa [or_imp, forall_and] using ⟨hd.notes.signatures, hs⟩

theorem noteAlias_runs (hd : d.Sound) (symbol : SymbolId) (target : AliasTarget) :
    growth.Runs (noteAlias symbol target) d Anything :=
  note_runs hd rfl { hd.notes with }

theorem noteEnum_runs (hd : d.Sound) {members : List (SymbolId × Option Literal)}
    (hs : symbol.Within d.extent) (hm : ∀ m ∈ members, m.1.Within d.extent) :
    growth.Runs (noteEnum symbol members) d Anything := by
  unfold noteEnum
  by_cases hany : d.enums.any (·.symbol == symbol) = true
  · refine note_runs hd (by simp [hany]) ?_
    rw [if_pos hany]
    refine { hd.notes with enums := ?_ }
    intro x hx
    obtain ⟨y, hy, rfl⟩ := List.mem_map.mp hx
    have hin := hd.notes.enums y hy
    split
    · refine ⟨hin.symbol, fun m hmem => ?_⟩
      rcases List.mem_append.mp hmem with hmem | hmem
      · exact hin.members m hmem
      · exact hm m hmem
    · exact hin
  · refine note_runs hd (by simp [hany]) ?_
    rw [if_neg hany]
    refine { hd.notes with enums := ?_ }
    simpa [or_imp, forall_and] using ⟨hd.notes.enums, (⟨hs, hm⟩ : EnumDraft.Within ⟨symbol, members⟩ _)⟩

/-- The library alone is a sound draft. -/
theorem start_sound : start.Sound where
  builder := GraphBuilder.start_closed
  notes := {
    globals := Table.forall_values_insert (by simp)
      GraphBuilder.start_closed.array
    modules := by simp [start]
    locals := by simp [start]
    named := by simp [start]
    symbolTypes := by simp [start]
    typeAliases := by simp [start]
    signatures := by simp [start]
    indexes := by simp [start]
    enums := by simp [start]
    classes := by simp [start] }

end GraphDraft

end ApiDocs
