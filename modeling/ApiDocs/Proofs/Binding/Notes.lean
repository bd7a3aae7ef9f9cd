import ApiDocs.Proofs.Binding.DraftReading
import ApiDocs.Proofs.Binding.EnumTypes

/-!
# What drafts note

Reading sources makes no types: symbols and index signatures have none, and the expressions of types are noted
for later, of symbols that are there. Each such expression was read from an annotation or an initializer, or
stands for one that is not written.

## Main definitions

* `GraphDraft.Noted`: a draft without types, and with notes that were read.

## Main results

* `GraphDraft.ofSources_noted`: the draft of any sources is such a draft.
-/

namespace ApiDocs

open TypeScript

/-- Neither the symbol nor its declarations have types. -/
structure Symbol.Untyped (x : Symbol) : Prop where
  type : x.typeId = none
  indexes : ∀ d ∈ x.declarations, d.index = none

namespace GraphBuilder

variable {b : GraphBuilder} {s : SymbolId}

/-- No types were made, and the library's `Array` has its name. -/
structure Untyped (b : GraphBuilder) : Prop where
  intrinsics : b.intrinsics = .empty
  signatures : b.graph.signatures = #[]
  symbols : ∀ {s x}, b.graph.symbol? s = some x → x.Untyped
  array : ∃ x, b.graph.symbol? arraySymbol = some x ∧ x.name = "Array"

namespace Untyped

theorem addSymbol (h : b.Untyped) (name : String) (flags : SymbolFlags) : (b.addSymbol name flags).2.Untyped := by
  refine ⟨h.intrinsics, h.signatures, fun {s x} hx => ?_, ?_⟩
  · rw [symbol?_addSymbol] at hx
    split at hx
    · obtain rfl := Option.some.inj hx
      exact ⟨rfl, by simp⟩
    · exact h.symbols hx
  · obtain ⟨x, hx, hname⟩ := h.array
    refine ⟨x, ?_, hname⟩
    rw [symbol?_addSymbol, if_neg]
    · exact hx
    · intro hnext
      rw [hnext, symbol?_next] at hx
      cases hx

theorem modifySymbol (h : b.Untyped) {f : Symbol → Symbol} (hname : ∀ x, (f x).name = x.name)
    (hf : ∀ x : Symbol, x.Untyped → (f x).Untyped) : (b.modifySymbol s f).Untyped := by
  refine ⟨h.intrinsics, h.signatures, fun {s' x} hx => ?_, ?_⟩
  · rw [symbol?_modifySymbol] at hx
    split at hx
    · obtain ⟨y, hy, rfl⟩ := Option.map_eq_some_iff.mp hx
      exact hf y (h.symbols hy)
    · exact h.symbols hx
  · obtain ⟨x, hx, hx'⟩ := h.array
    rw [symbol?_modifySymbol, hx]
    split
    · exact ⟨f x, rfl, (hname x).trans hx'⟩
    · exact ⟨x, rfl, hx'⟩

/-- A change that leaves the types and the declarations of symbols alone. -/
theorem modifyAside (h : b.Untyped) {f : Symbol → Symbol} (hname : ∀ x, (f x).name = x.name)
    (htype : ∀ x, (f x).typeId = x.typeId) (hdeclarations : ∀ x, (f x).declarations = x.declarations) :
    (b.modifySymbol s f).Untyped :=
  h.modifySymbol hname fun x hx => ⟨(htype x).trans hx.type, by rw [hdeclarations]; exact hx.indexes⟩

theorem declare (h : b.Untyped) (s : SymbolId) {x : Declaration} (hx : x.index = none) :
    (b.declare s x).2.Untyped := by
  refine h.modifySymbol (fun _ => rfl) fun y hy => ⟨hy.type, fun d hd => ?_⟩
  rcases List.mem_append.mp hd with hd | hd
  · exact hy.indexes d hd
  · rw [List.mem_singleton.mp hd, hx]

theorem addDeclared (h : b.Untyped) (name : String) (flags : SymbolFlags) {x : Declaration}
    (hx : x.index = none) : (b.addDeclared name flags x).Untyped :=
  (h.addSymbol name flags).declare b.next hx

theorem declareAgain (h : b.Untyped) (s : SymbolId) (flags : SymbolFlags) {x : Declaration}
    (hx : x.index = none) : (b.declareAgain s flags x).Untyped := by
  have hflags : (b.addFlags s flags).Untyped := h.modifyAside (fun _ => rfl) (fun _ => rfl) fun _ => rfl
  exact hflags.declare s hx

theorem addMember (h : b.Untyped) (owner : SymbolId) (name : String) (flags : SymbolFlags) (isStatic : Bool)
    {x : Declaration} (hx : x.index = none) : (b.addMember owner name flags isStatic x).Untyped := by
  have hadded := h.addSymbol name flags
  have hlisted : ((b.addSymbol name flags).2.enlist owner name b.next isStatic).Untyped := by
    unfold GraphBuilder.enlist
    split <;> exact hadded.modifyAside (fun _ => rfl) (fun _ => rfl) fun _ => rfl
  exact hlisted.declare b.next hx

theorem addModule (h : b.Untyped) (path : String) : (b.addModule path).2.Untyped :=
  { h.addSymbol (String.ofList ('"' :: (path.toList ++ ['"']))) SymbolFlags.moduleBit with }

end Untyped

end GraphBuilder

namespace GraphDraft

variable {d d' : GraphDraft}

/-- A draft without types, and with notes that were read. -/
structure Noted (d : GraphDraft) : Prop where
  builder : d.builder.Untyped
  types : ∀ p ∈ d.symbolTypes, p.1.Within d.extent ∧ p.2.Written
  aliases : ∀ {s e}, d.typeAliases.get? s = some e → ∃ (site : Site) (t : TypeTree), e = site.typeExpr t
  results : ∀ x ∈ d.signatures, ∀ e ∈ x.result, e.Written
  indexes : ∀ x ∈ d.indexes, (∀ e ∈ x.key, e.Written) ∧ x.value.Written

/-- Notes stay what they are while the graph grows. -/
theorem Noted.rebuilt (h : d.Noted) {b : GraphBuilder} (hle : d.builder.Enlarges b) (hb : b.Untyped) :
    Noted { d with builder := b } :=
  { h with
    builder := hb
    types := fun p hp => ⟨hle.within (h.types p hp).1, (h.types p hp).2⟩ }

theorem Noted.alike (h : d.Noted) (halike : d.Alike d') : d'.Noted := by
  obtain ⟨hbuilder, -, -, htypes, haliases, hsignatures, hindexes, -, -, -⟩ := halike
  refine ⟨?_, fun p hp => ?_, fun {s e} he => ?_, fun x hx => ?_, fun x hx => ?_⟩
  · rw [hbuilder]
    exact h.builder
  · change p.1.Within d'.builder.extent ∧ _
    rw [hbuilder]
    rw [htypes] at hp
    exact h.types p hp
  · rw [haliases] at he
    exact h.aliases he
  · rw [hsignatures] at hx
    exact h.results x hx
  · rw [hindexes] at hx
    exact h.indexes x hx

/-- Declarations that are read preserve such drafts, and so do notes. -/
def noting : Rule where
  Inv := Noted
  Open d s := s.Within d.extent
  open_mono hle hs := hle.within hs
  alike halike h := h.alike halike
  fresh name flags x h hx :=
    ⟨h.rebuilt (.addDeclared name flags x) (h.builder.addDeclared name flags hx.index),
      GraphBuilder.next_within_addDeclared _ name flags x⟩
  named container name flags x h hx _ :=
    ⟨{ h.rebuilt (.addDeclared name flags x) (h.builder.addDeclared name flags hx.index) with },
      GraphBuilder.next_within_addDeclared _ name flags x⟩
  again _ _ s flags x h hx _ hs :=
    ⟨h.rebuilt (.declareAgain s flags x) (h.builder.declareAgain s flags hx.index),
      (GraphBuilder.Enlarges.declareAgain s flags x).within hs⟩
  member owner name flags isStatic x h _ hx _ _ :=
    ⟨h.rebuilt (.addMember owner name flags isStatic x) (h.builder.addMember owner name flags isStatic hx.index),
      GraphBuilder.next_within_addMember _ owner name flags isStatic x⟩
  memberAgain _ _ s flags _ x h _ hx _ _ hs :=
    ⟨h.rebuilt (.declareAgain s flags x) (h.builder.declareAgain s flags hx.index),
      (GraphBuilder.Enlarges.declareAgain s flags x).within hs⟩
  documented _ h _ :=
    h.rebuilt (.modifyAside (fun _ => rfl) (fun _ => rfl) fun _ => rfl)
      (h.builder.modifyAside (fun _ => rfl) (fun _ => rfl) fun _ => rfl)
  exported _ _ h _ _ _ :=
    h.rebuilt (.modifyAside (fun _ => rfl) (fun _ => rfl) fun _ => rfl)
      (h.builder.modifyAside (fun _ => rfl) (fun _ => rfl) fun _ => rfl)
  typed {d s e} h hs he := { h with
    types := fun p hp => by
      rcases List.mem_append.mp hp with hp | hp
      · exact h.types p hp
      · rw [List.mem_singleton.mp hp]
        exact ⟨hs, he⟩ }
  aliased {d s} site t h _ := { h with
    aliases := fun {s' e} he => by
      by_cases hs' : s' = s
      · subst hs'
        rw [Table.get?_insert_self] at he
        exact ⟨site, t, (Option.some.inj he).symm⟩
      · rw [Table.get?_insert_of_ne hs'] at he
        exact h.aliases he }
  signed x h _ hx := { h with
    results := fun y hy => by
      rcases List.mem_append.mp hy with hy | hy
      · exact h.results y hy
      · rw [List.mem_singleton.mp hy]
        exact hx }
  indexed x h _ hkey hvalue _ _ := { h with
    indexes := fun y hy => by
      rcases List.mem_append.mp hy with hy | hy
      · exact h.indexes y hy
      · rw [List.mem_singleton.mp hy]
        exact ⟨hkey, hvalue⟩ }
  classed _ h _ := { h with }
  linked _ h _ := { h with }

theorem noting_enumerates : noting.Enumerates := by
  refine Rule.enumerates_of_members (fun owner name x h _ _ _ hx _ => ?_) (fun owner name s x h _ _ _ hx _ hs => ?_)
    fun {d s} members h _ => ?_
  · exact ⟨h.rebuilt (.addMember owner name _ true x) (h.builder.addMember owner name _ true hx),
      GraphBuilder.next_within_addMember _ owner name _ true x⟩
  · exact ⟨h.rebuilt (.declareAgain s _ x) (h.builder.declareAgain s _ hx),
      (GraphBuilder.Enlarges.declareAgain s _ x).within hs⟩
  · change (if _ then _ else _ : GraphDraft).Noted
    split <;> exact { h with }

theorem noting_addsFiles : noting.AddsFiles where
  script path h := h.2.rebuilt (.addScript path) { h.2.builder with }
  newModule path h := { h.2.rebuilt (.addModule path) (.addModule h.2.builder path) with }

theorem start_noted : start.Noted := by
  refine ⟨⟨rfl, rfl, fun {s x} hx => ?_, _, rfl, rfl⟩, by simp [start], fun {s e} he => ?_, by simp [start],
    by simp [start]⟩
  · obtain ⟨_ | n⟩ := s
    · obtain rfl := Option.some.inj hx
      exact ⟨rfl, List.forall_mem_singleton.mpr rfl⟩
    · cases hx
  · cases he

/-- **The draft of any sources has no types, and its notes were read.** -/
theorem ofSources_noted (sources : List ParsedSource) : (ofSources sources).Noted :=
  Rule.ofSources (R := noting) (fun _ _ => trivial)
    (fun c e _ => Rule.admits_of_enumerates noting_enumerates (fun _ _ => trivial) c e) noting_addsFiles start_noted

/-- Where no types were made, none are there. -/
theorem Noted.untyped (h : d.Noted) : d.Untyped := by
  refine ⟨h.builder.intrinsics, h.builder.signatures, fun s => ?_, fun s i => ?_, ?_⟩
  · rw [GraphBuilder.typeOf]
    cases hx : d.builder.graph.symbol? s with
    | none => rfl
    | some x => exact (h.builder.symbols hx).type
  · rw [GraphBuilder.indexAt]
    cases hx : d.builder.graph.symbol? s with
    | none => rfl
    | some x =>
      rw [Option.bind_some]
      cases hdeclaration : x.declarations[i]? with
      | none => rfl
      | some declaration =>
        exact (h.builder.symbols hx).indexes declaration (List.mem_of_getElem? hdeclaration)
  · obtain ⟨x, hx, hname⟩ := h.builder.array
    rw [GraphBuilder.nameOf, hx, Option.map_some, Option.getD_some, hname]

end GraphDraft

end ApiDocs
