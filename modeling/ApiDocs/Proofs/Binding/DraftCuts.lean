import ApiDocs.Proofs.Binding.DraftReading

/-!
# Drafts before and behind a declaration

The draft of sources is reached by way of each of their declarations: something is read before it, then the
declaration, and something behind it. What a rule says that admits whatever is declared and exported is preserved
before and behind alike.

## Main definitions

* `GraphDraft.Rule.AdmitsAll`: a rule that admits whatever is declared and exported.
* `GraphDraft.LeadsWith`, `GraphDraft.Leads`: drafts lead to drafts by any reading.

## Main results

* `GraphDraft.ofSources_comesTo`: reading comes to each of the declarations of sources.
* `GraphDraft.ComesTo.leads`: the draft of sources cut at one of their declarations.
-/

namespace ApiDocs

open TypeScript

namespace GraphDraft

variable {d d' d'' : GraphDraft} {R : Rule} {xs ys : List (Container × Declared)} {es es' : List (SymbolId × String)}
  {names : Table (Container × String) SymbolId} {comes : Site → Placement → Declared → GraphDraft → Prop}
  {c : Container} {x : Declared}

/-- The rule admits whatever is declared and exported. -/
structure Rule.AdmitsAll (R : Rule) : Prop where
  may : ∀ s n, R.May s n
  counts : ∀ s n, R.MayCount s n
  enumerates : R.Enumerates
  files : R.AddsFiles

theorem Rule.AdmitsAll.admits (h : R.AdmitsAll) (names : Table (Container × String) SymbolId) (c : Container)
    (e : EnumTree) : R.Admits names c e :=
  Rule.admits_of_enumerates h.enumerates h.counts c e

theorem naming_admitsAll (names : Table (Container × String) SymbolId) : (naming names).AdmitsAll where
  may _ _ := trivial
  counts _ _ := trivial
  enumerates := naming_enumerates names
  files := ⟨fun _ h => h.2, fun _ h => h.2⟩

/-- **Something was read in between**, of which no more is known than what rules say to which the symbols are
open. -/
def LeadsWith (os : List SymbolId) (d d' : GraphDraft) : Prop :=
  ∀ R : Rule, R.AdmitsAll → R.Good d → (∀ s ∈ os, R.There d s) → R.Good d' ∧ d.builder.Enlarges d'.builder

/-- **Something was read in between**, of which no more is known than what rules say. -/
abbrev Leads (d d' : GraphDraft) : Prop := LeadsWith [] d d'

namespace LeadsWith

variable {os : List SymbolId}

theorem refl (d : GraphDraft) : LeadsWith os d d := fun _ _ hd _ => ⟨hd, .refl _⟩

theorem trans (h : LeadsWith os d d') (h' : LeadsWith os d' d'') : LeadsWith os d d'' := by
  intro R hR hd hos
  obtain ⟨hd', hle⟩ := h R hR hd hos
  obtain ⟨hd'', hle'⟩ := h' R hR hd' fun s hs => Rule.there_mono hle (hos s hs)
  exact ⟨hd'', hle.trans hle'⟩

theorem of_runs {α : Type} {x : Drafting α} {P : α → GraphDraft → Prop}
    (h : ∀ R : Rule, R.AdmitsAll → R.Good d → (∀ s ∈ os, R.There d s) → R.growth.Runs x d P) :
    LeadsWith os d (x d).2 :=
  fun R hR hd hos => ⟨(h R hR hd hos).good, (h R hR hd hos).le⟩

/-- Names and tables lead to symbols that are there, and names keep their symbols. -/
theorem keeps_names (h : LeadsWith os d d') (hd : d.Inside) (hos : ∀ s ∈ os, s.Within d.extent) :
    d'.Inside ∧ d.builder.Enlarges d'.builder ∧ ∀ {k s}, d.named.get? k = some s → d'.named.get? k = some s := by
  obtain ⟨hgood, hle⟩ := h (naming d.named) (naming_admitsAll _) ⟨hd, fun hk => hk⟩ fun s hs => ⟨hos s hs, trivial⟩
  exact ⟨hgood.1, hle, hgood.2⟩

theorem inside (h : d.Leads d') (hd : d.Inside) : d'.Inside := (h.keeps_names hd (by simp)).1

theorem obeys (h : d.Leads d') (hR : R.AdmitsAll) (hd : R.Good d) : R.Good d' := (h R hR hd (by simp)).1

end LeadsWith

theorem Reads.leads (h : Reads names comes xs es d d') (hnames : d'.NamedIn names) : d.Leads d' :=
  fun _ hR hd _ => h.obeys hnames (fun e _ => hR.may e.1 e.2) (fun c e _ => hR.admits names c e) hd

theorem addFile_leads (file : Nat) (path : String) (tree : SourceTree) (d : GraphDraft) :
    d.Leads (addFile file path tree d).2 :=
  .of_runs fun _ hR hd _ => Rule.addFile_obeys hR.files hd file path tree

theorem enter_leads (site : Site) (bound : List Bound) (d : GraphDraft) : d.Leads (site.enter bound d).2 :=
  .of_runs fun _ _ hd _ => Rule.enter_obeys hd site bound

theorem freshScope_leads (d : GraphDraft) : d.Leads (freshScope d).2 :=
  .of_runs fun _ _ hd _ => Rule.freshScope_obeys hd

/-! ## Statements -/

section Statements

variable {site found : Site} {st : Statement} {sts : List Statement} {place : Placement} {before : GraphDraft}

theorem statement_leads (hd : d.Inside) : d.Leads (site.statement c st d).2 :=
  (statement_reads hd st (fun _ _ _ _ h => h) fun hk => hk).leads fun hk => hk

theorem statements_leads (hd : d.Inside) : d.Leads (site.statements c sts d).2 :=
  (statements_read hd sts (fun _ _ _ _ h => h) fun hk => hk).leads fun hk => hk

/-- A statement that holds a declaration is read as that. -/
theorem statement_of_heldBy {v : Visibility} {span : Span} (h : heldBy st = some (v, span, x)) (site : Site)
    (c : Container) : site.statement c st = site.declared ⟨c, v, span⟩ x := by
  cases st with
  | declared | exported | exportFunction | exportClass | exportInterface =>
    obtain ⟨rfl, rfl, rfl⟩ := h
    simp only [Site.statement, Site.declared]
  | _ => cases h

theorem Comes.single (h : Comes site c sts d found place x before) : IsSingle x := by
  induction h with
  | here _ _ _ hx => exact hx
  | inside _ _ _ _ _ ih | later _ _ ih => exact ih

/-- What is read on the way to a declaration, and behind it. -/
theorem Comes.leads (h : Comes site c sts d found place x before) (hd : d.Inside) :
    d.Leads before ∧ (found.declared place x before).2.Leads (site.statements c sts d).2 := by
  have hcons : ∀ {site : Site} {c st} {rest : List Statement} {d : GraphDraft}, (site.statements c (st :: rest) d).2 =
      (site.statements c rest (site.statement c st d).2).2 := by
    intro site c st rest d
    rw [Site.statements]
    rfl
  induction h with
  | here rest d hst hx =>
    rw [hcons, statement_of_heldBy hst]
    refine ⟨.refl d, statements_leads ?_⟩
    rw [← statement_of_heldBy hst]
    exact LeadsWith.inside (statement_leads hd) hd
  | @inside site inner c st v span name body s d d₁ d₂ before found place x rest hst hbound henter _ ih =>
    have hbinds : d.Leads d₁ := fun R hR hd _ => by
      have h := (bindNamespace_passes d site ⟨c, v, span⟩ name).1 R (fun e _ => hR.may e.1 e.2) hd
      rwa [hbound] at h
    have henters : d₁.Leads d₂ := by
      have h := enter_leads site (body.flatMap Statement.bound) d₁
      rwa [henter] at h
    have hd₂ := LeadsWith.inside (hbinds.trans henters) hd
    obtain ⟨hfirst, hbody⟩ := ih hd₂
    have hrun : (site.statement c st d).2 = (inner.statements (.symbol s) body d₂).2 := by
      have hdeclared : (site.declared ⟨c, v, span⟩ (.namespaceLike name (some body)) d).2 =
          ((do
            let inner ← site.enter (body.flatMap Statement.bound)
            inner.statements (.symbol (bindNamespace site ⟨c, v, span⟩ name d).1) body : Drafting Unit)
          (bindNamespace site ⟨c, v, span⟩ name d).2).2 := by
        rw [Site.declared]
        rfl
      rw [statement_of_heldBy hst, hdeclared, hbound]
      change ((site.enter (body.flatMap Statement.bound) d₁).1.statements (.symbol s) body
        (site.enter (body.flatMap Statement.bound) d₁).2).2 = _
      rw [henter]
    rw [hcons, hrun]
    exact ⟨(hbinds.trans henters).trans hfirst,
      hbody.trans (statements_leads (LeadsWith.inside (statements_leads hd₂) hd₂))⟩
  | @later site c rest d before found place x st _ ih =>
    have hfirst : d.Leads (site.statement c st d).2 := statement_leads hd
    obtain ⟨hbefore, hbehind⟩ := ih (LeadsWith.inside hfirst hd)
    rw [hcons]
    exact ⟨hfirst.trans hbefore, hbehind⟩

end Statements

/-! ## Sources -/

section Sources

variable {sources : List ParsedSource} {site : Site} {place : Placement} {before : GraphDraft}

theorem inside_ofSources (sources : List ParsedSource) : (ofSources sources).Inside :=
  (ofSources_sound sources).1.inside

theorem ofSources_leads (earlier more : List ParsedSource) :
    (ofSources earlier).Leads (ofSources (earlier ++ more)) := by
  induction more using List.reverseRecOn with
  | nil =>
    rw [List.append_nil]
    exact .refl _
  | append_singleton more source ih =>
    have hadded := addFile_leads (earlier ++ more).length source.path source.tree (ofSources (earlier ++ more))
    have hfresh := hadded.trans (freshScope_leads _)
    rw [← List.append_assoc, ofSources_append]
    exact (ih.trans hfresh).trans (statements_leads (LeadsWith.inside hfresh (inside_ofSources _)))

theorem ComesTo.single (h : ComesTo sources site place x before) : IsSingle x := by
  obtain ⟨-, -, -, h⟩ := h
  exact h.single

/-- **What is read on the way to a declaration, and behind it.** -/
theorem ComesTo.leads (h : ComesTo sources site place x before) :
    start.Leads before ∧ (site.declared place x before).2.Leads (ofSources sources) := by
  obtain @⟨earlier, later, source, c, d₁, d₂, _, scope, _, _, _, rfl, hfile, hscope, h⟩ := h
  have hadded : (ofSources earlier).Leads d₁ := by
    have h := addFile_leads earlier.length source.path source.tree (ofSources earlier)
    rwa [hfile] at h
  have hfresh : d₁.Leads d₂ := by
    have h := freshScope_leads d₁
    rwa [hscope] at h
  have hfirst := hadded.trans hfresh
  obtain ⟨hbefore, hbehind⟩ := h.leads (LeadsWith.inside hfirst (inside_ofSources earlier))
  have hrun : ofSources (earlier ++ [source]) =
      ((Site.outermost earlier.length source scope).statements c source.tree.statements d₂).2 := by
    rw [ofSources_append]
    change ((Site.outermost earlier.length source (freshScope (addFile _ _ _ _).2).1).statements
      (addFile _ _ _ _).1 _ (freshScope (addFile _ _ _ _).2).2).2 = _
    rw [hfile, hscope]
  refine ⟨(ofSources_leads [] earlier).trans (hfirst.trans hbefore), hbehind.trans ?_⟩
  rw [← hrun]
  have hlater := ofSources_leads (earlier ++ [source]) later
  rwa [List.append_assoc, List.singleton_append] at hlater

theorem Reads.comes_of_mem (h : Reads names comes xs es d d') (hx : (c, x) ∈ xs) :
    ∃ site place before, comes site place x before ∧ place.container = c := by
  induction h with
  | pass h => cases hx
  | declared site place d _ hcomes =>
    obtain ⟨rfl, rfl⟩ := Prod.mk.inj (List.mem_singleton.mp hx)
    exact ⟨site, place, d, hcomes, rfl⟩
  | append _ _ ih ih' =>
    rcases List.mem_append.mp hx with hx | hx
    · exact ih hx
    · exact ih' hx

theorem ReadsFiles.comes_of_mem (h : ReadsFiles names comes xs es d d') (hx : (c, x) ∈ xs) :
    ∃ site place before, comes site place x before ∧ place.container = c := by
  induction h with
  | refl d => cases hx
  | file _ _ _ _ hreads ih =>
    rcases List.mem_append.mp hx with hx | hx
    · exact ih hx
    · exact hreads.comes_of_mem hx

/-- **Reading comes to each of the declarations of sources.** -/
theorem ofSources_comesTo (hx : (c, x) ∈ declarationsOf sources) :
    ∃ site place before, ComesTo sources site place x before ∧ place.container = c :=
  (ofSources_reads sources List.prefix_rfl (fun hk => hk) fun _ _ _ _ h => h).comes_of_mem hx

end Sources

end GraphDraft

end ApiDocs
