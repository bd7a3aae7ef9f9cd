import ApiDocs.Proofs.Binding.DraftRules

/-!
# Steps that say nothing

A name is looked up through the scopes around it, and a scope is known by the number that it got when it was
entered. Declaring something enters no scope, so the scope behind a declaration has the number that was next before.
It notes nothing either: what is noted of a declaration comes behind it.

## Main definitions

* `GraphDraft.Silent`: nothing was noted in between.
* `GraphDraft.silent`: steps that note nothing and enter no scope.

## Main results

* `GraphDraft.bindHere_silent`, `GraphDraft.introduce_silent`, …: names and declarations are such steps.
-/

namespace ApiDocs

open TypeScript

namespace GraphDraft

/-- Nothing was noted in between. -/
structure Silent (d d' : GraphDraft) : Prop where
  symbolTypes : d'.symbolTypes = d.symbolTypes
  typeAliases : d'.typeAliases = d.typeAliases
  signatures : d'.signatures = d.signatures
  indexes : d'.indexes = d.indexes
  enums : d'.enums = d.enums
  classes : d'.classes = d.classes

theorem Silent.refl (d : GraphDraft) : d.Silent d := by
  constructor <;> rfl

theorem Silent.trans {d d' d'' : GraphDraft} (h : d.Silent d') (h' : d'.Silent d'') : d.Silent d'' where
  symbolTypes := h'.symbolTypes.trans h.symbolTypes
  typeAliases := h'.typeAliases.trans h.typeAliases
  signatures := h'.signatures.trans h.signatures
  indexes := h'.indexes.trans h.indexes
  enums := h'.enums.trans h.enums
  classes := h'.classes.trans h.classes

/-- Steps that note nothing and enter no scope. -/
def silent : Growth GraphDraft where
  Good _ := True
  Le d d' := d.Silent d' ∧ d'.nextScope = d.nextScope
  refl d := ⟨.refl d, rfl⟩
  trans h h' := ⟨h.1.trans h'.1, h'.2.trans h.2⟩

/-- A step on the graph and on the look-up of names. -/
theorem silent_of_names {α : Type} {x : Drafting α} {d : GraphDraft} {b : GraphBuilder}
    {locals : Table LocalRef SymbolId} {named : Table (Container × String) SymbolId} {globals : Table String SymbolId}
    (h : (x d).2 = { d with builder := b, locals := locals, named := named, globals := globals }) :
    silent.Runs x d Anything := by
  refine ⟨trivial, ?_, trivial⟩
  change d.Silent (x d).2 ∧ (x d).2.nextScope = d.nextScope
  rw [h]
  exact ⟨⟨rfl, rfl, rfl, rfl, rfl, rfl⟩, rfl⟩

theorem bindNamed_silent (d : GraphDraft) (container : Container) (name : String) (flags : SymbolFlags) :
    silent.Runs (bindNamed container name flags) d Anything := by
  unfold bindNamed
  refine Growth.runs_get ?_
  split
  · exact silent_of_names rfl
  · refine Growth.Runs.bind (P := Anything) (silent_of_names rfl) fun _ d₁ _ _ _ => ?_
    refine Growth.Runs.bind (P := Anything) (silent_of_names rfl) fun _ d₂ _ _ _ => ?_
    cases container with
    | symbol id => exact Growth.runs_pure trivial trivial
    | script file =>
      refine Growth.runs_get ?_
      split
      · exact silent_of_names rfl
      · exact Growth.runs_pure trivial trivial

theorem bindLocal_silent (d : GraphDraft) (site : Site) (name : String) (s : SymbolId) :
    silent.Runs (site.bindLocal name s) d Anything := by
  unfold Site.bindLocal
  cases site.localRef? name <;> exact silent_of_names rfl

theorem bindHere_silent (d : GraphDraft) (site : Site) (container : Container) (name : String)
    (flags : SymbolFlags) : silent.Runs (site.bindHere container name flags) d Anything :=
  (bindNamed_silent d container name flags).bind fun s d₁ _ _ _ =>
    (bindLocal_silent d₁ site name s).bind fun _ _ _ _ _ => Growth.runs_pure trivial trivial

theorem bindMaybe_silent (d : GraphDraft) (site : Site) (container : Container) (name : Option String)
    (flags : SymbolFlags) : silent.Runs (site.bindMaybe container name flags) d Anything := by
  cases name with
  | some name => exact bindHere_silent d site container name flags
  | none => exact bindNamed_silent d container defaultName flags

theorem bindMember_silent (d : GraphDraft) (owner : SymbolId) (name : String) (flags : SymbolFlags)
    (isStatic : Bool) : silent.Runs (bindMember owner name flags isStatic) d Anything := by
  cases (bindMember_binds d owner name flags isStatic).post with
  | again _ h | new _ _ h => exact silent_of_names h

theorem attachDoc_silent (d : GraphDraft) (s : SymbolId) (doc : String) :
    silent.Runs (attachDoc s doc) d Anything := by
  obtain ⟨b, -, -, hb⟩ := attachDoc_builds s doc d
  exact silent_of_names hb

/-- What all members start with enters no scope. -/
theorem memberSymbol_silent (d : GraphDraft) (site : Site) (owner : SymbolId) (name doc : String)
    (flags : SymbolFlags) (isStatic : Bool) (kind : DeclarationKind) (span : Span) (modifiers : ModifierFlags) :
    silent.Runs (do
      let member ← bindMember owner name flags isStatic
      discard (site.declare member kind span modifiers)
      attachDoc member doc) d Anything :=
  (bindMember_silent d owner name flags isStatic).bind fun s _ _ _ _ =>
    Growth.Runs.bind (P := Anything) (silent_of_names rfl) fun _ d₂ _ _ _ => attachDoc_silent d₂ s doc

theorem introduce_silent (d : GraphDraft) (site : Site) (place : Placement) (name : String) (s : SymbolId)
    (kind : DeclarationKind) (modifiers : ModifierFlags) :
    silent.Runs (site.introduce place name s kind modifiers) d Anything := by
  obtain ⟨b, -, -, -, -, hb⟩ := introduce_builds site place name s kind modifiers d
  exact silent_of_names hb

end GraphDraft

end ApiDocs
