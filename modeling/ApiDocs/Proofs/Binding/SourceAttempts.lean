import ApiDocs.Binding.Binder
import ApiDocs.Proofs.Text.NormalForms

/-!
# Attempts to add sources

A binder knows each source by the normal form of its path and refuses a source whose normal form it has
already. What it knows after any attempts is the normal forms of the accepted paths. These are in the shape of
normal forms and pairwise distinct, whatever was attempted, and the next source is refused just if its path
leads to where an accepted one has led.

## Main definitions

* `Binder.attempt`, `Binder.attempts`: a binder after sources were added or refused.
* `Binder.Accepts`: a source is accepted behind others.

## Main results

* `Binder.mem_attempts_iff`: the paths of a binder are the normal forms of the accepted ones.
* `Binder.sources_distinguished`: normal forms are canonical, and tell the sources of a binder apart.
-/

namespace ApiDocs.Binder

open SourcePath

variable {b : Binder} {path text : String} {source : String × String}
  {sources : List (String × String)}

/-- The binder after an attempt to add a source. One that is refused leaves the binder as it is. -/
def attempt (b : Binder) (source : String × String) : Binder :=
  match b.addSource source.1 source.2 with
  | .ok b' => b'
  | .error _ => b

/-- The binder after attempts to add sources, in order. -/
def attempts (b : Binder) (sources : List (String × String)) : Binder := sources.foldl attempt b

/-- The paths that a binder knows its sources by. -/
def paths (b : Binder) : List String := b.sources.map Prod.fst

/-- The binder accepts a source. -/
def Accepts (b : Binder) (source : String × String) : Prop :=
  ∃ b', b.addSource source.1 source.2 = .ok b'

/-- Some source among `sources` was accepted, at a path with the given normal form. -/
def AcceptedAt (b : Binder) (sources : List (String × String)) (form : String) : Prop :=
  ∃ before source after, sources = before ++ source :: after ∧
    (b.attempts before).Accepts source ∧ normalize source.1 = form

/-! ## One attempt -/

theorem addSource_of_mem (h : normalize path ∈ b.paths) (text : String) :
    b.addSource path text = .error (.duplicate (normalize path)) := by
  obtain ⟨known, hknown, hpath⟩ := List.mem_map.mp h
  exact if_pos (List.any_eq_true.mpr ⟨known, hknown, by simpa using hpath⟩)

theorem addSource_of_notMem (h : normalize path ∉ b.paths) (text : String) :
    b.addSource path text = .ok { b with sources := b.sources ++ [(normalize path, text)] } := by
  refine if_neg fun hany => h ?_
  obtain ⟨known, hknown, hpath⟩ := List.any_eq_true.mp hany
  exact List.mem_map.mpr ⟨known, hknown, by simpa using hpath⟩

theorem accepts_iff : b.Accepts source ↔ normalize source.1 ∉ b.paths := by
  constructor
  · rintro ⟨b', hadd⟩ hmem
    rw [addSource_of_mem hmem] at hadd
    cases hadd
  · exact fun h => ⟨_, addSource_of_notMem h source.2⟩

theorem attempt_of_mem (h : normalize source.1 ∈ b.paths) : b.attempt source = b := by
  rw [attempt, addSource_of_mem h]

theorem paths_attempt_of_notMem (h : normalize source.1 ∉ b.paths) :
    (b.attempt source).paths = b.paths ++ [normalize source.1] := by
  rw [attempt, addSource_of_notMem h]
  simp [paths]

/-- An attempt keeps the paths distinct normal forms. -/
theorem attempt_keeps (hdistinct : b.paths.Nodup) (hforms : ∀ p ∈ b.paths, InNormalForm p.toList)
    (source : String × String) : (b.attempt source).paths.Nodup ∧
      ∀ p ∈ (b.attempt source).paths, InNormalForm p.toList := by
  by_cases h : normalize source.1 ∈ b.paths
  · rw [attempt_of_mem h]
    exact ⟨hdistinct, hforms⟩
  · rw [paths_attempt_of_notMem h]
    constructor
    · refine List.nodup_append.mpr ⟨hdistinct, by simp, ?_⟩
      intro p hp q hq heq
      rw [heq, List.mem_singleton.mp hq] at hp
      exact h hp
    · intro p hp
      rcases List.mem_append.mp hp with hp | hp
      · exact hforms p hp
      · rw [List.mem_singleton.mp hp]
        exact inNormalForm_normalize source.1

/-! ## All attempts -/

theorem attempts_concat (b : Binder) (sources : List (String × String)) (source : String × String) :
    b.attempts (sources ++ [source]) = (b.attempts sources).attempt source := by
  rw [attempts, List.foldl_append]
  rfl

theorem attempts_keeps (hdistinct : b.paths.Nodup) (hforms : ∀ p ∈ b.paths, InNormalForm p.toList)
    (sources : List (String × String)) : (b.attempts sources).paths.Nodup ∧
      ∀ p ∈ (b.attempts sources).paths, InNormalForm p.toList := by
  induction sources using List.reverseRecOn with
  | nil => exact ⟨hdistinct, hforms⟩
  | append_singleton sources source ih =>
    rw [attempts_concat]
    exact attempt_keeps ih.1 ih.2 source

theorem acceptedAt_concat {form : String} : b.AcceptedAt (sources ++ [source]) form ↔
    b.AcceptedAt sources form ∨ (b.attempts sources).Accepts source ∧ normalize source.1 = form := by
  constructor
  · rintro ⟨before, s, after, heq, haccepts, hform⟩
    rcases List.eq_nil_or_concat after with rfl | ⟨after, last, rfl⟩
    · obtain ⟨rfl, rfl⟩ := List.append_singleton_inj.mp heq
      exact .inr ⟨haccepts, hform⟩
    · rw [List.concat_eq_append, ← List.cons_append, ← List.append_assoc] at heq
      exact .inl ⟨before, s, after, (List.append_singleton_inj.mp heq).1, haccepts, hform⟩
  · rintro (⟨before, s, after, rfl, haccepts, hform⟩ | ⟨haccepts, hform⟩)
    · exact ⟨before, s, after ++ [source], by simp, haccepts, hform⟩
    · exact ⟨sources, source, [], rfl, haccepts, hform⟩

/-- **A binder knows the normal forms of the paths that it has accepted**, besides those from before. -/
theorem mem_attempts_iff {form : String} : form ∈ (b.attempts sources).paths ↔
    form ∈ b.paths ∨ b.AcceptedAt sources form := by
  induction sources using List.reverseRecOn with
  | nil =>
    have hnone : ¬ b.AcceptedAt [] form := by
      rintro ⟨before, s, after, heq, -⟩
      simp at heq
    simp [hnone, attempts]
  | append_singleton sources source ih =>
    rw [attempts_concat, acceptedAt_concat, ← or_assoc, ← ih, accepts_iff]
    by_cases h : normalize source.1 ∈ (b.attempts sources).paths
    · simp [attempt_of_mem h, h]
    · simp [paths_attempt_of_notMem h, h, eq_comm]

/-- **Normal forms are canonical, and tell the sources of a binder apart.** Normalizing twice is normalizing
once; a normal form is some names behind the root, or behind parents; and the normal form of a relative path
seen from a directory is that of their normal forms. After any attempts to add sources, the binder knows
pairwise distinct normal forms. A source is refused, as a duplicate, exactly if an accepted path before it has
the same normal form, and exactly then the attempt leaves the binder as it is. -/
theorem sources_distinguished (layout : Option OutputLayout) :
    (∀ path, normalize (normalize path) = normalize path ∧ InNormalForm (normalize path).toList) ∧
      (∀ directory path, isAbsolute path.toList = false →
        normalize (joined directory path) = normalize (joined (normalize directory) (normalize path))) ∧
      ∀ sources,
        (attempts { layout } sources).paths.Nodup ∧
        (∀ p ∈ (attempts { layout } sources).paths, InNormalForm p.toList) ∧
        ∀ path text,
          ((attempts { layout } sources).addSource path text = .error (.duplicate (normalize path)) ↔
            AcceptedAt { layout } sources (normalize path)) ∧
          (attempts { layout } (sources ++ [(path, text)]) = attempts { layout } sources ↔
            AcceptedAt { layout } sources (normalize path)) ∧
          ((attempts { layout } sources).Accepts (path, text) ↔
            ¬ AcceptedAt { layout } sources (normalize path)) := by
  refine ⟨fun path => ⟨normalize_normalize path, inNormalForm_normalize path⟩,
    fun directory path hpath => (normalize_joined hpath directory).symm, fun sources => ?_⟩
  obtain ⟨hdistinct, hforms⟩ := attempts_keeps (b := { layout }) List.nodup_nil (by simp [paths]) sources
  refine ⟨hdistinct, hforms, fun path text => ?_⟩
  have hknown : AcceptedAt { layout } sources (normalize path) ↔
      normalize path ∈ (attempts { layout } sources).paths := by
    have hnone : normalize path ∉ paths { layout } := by simp [paths]
    rw [mem_attempts_iff, or_iff_right hnone]
  rw [hknown, attempts_concat]
  by_cases h : normalize path ∈ (attempts { layout } sources).paths
  · have hkept : (attempts { layout } sources).attempt (path, text) = attempts { layout } sources :=
      attempt_of_mem h
    simp [addSource_of_mem h, hkept, accepts_iff, h]
  · have hgrown : (attempts { layout } sources).attempt (path, text) ≠ attempts { layout } sources := by
      intro heq
      have hpaths : ((attempts { layout } sources).attempt (path, text)).paths =
          (attempts { layout } sources).paths ++ [normalize path] := paths_attempt_of_notMem h
      rw [heq] at hpaths
      simp at hpaths
    simp [addSource_of_notMem h, hgrown, accepts_iff, h]

/-- A source that is added again under another spelling of its path is refused. -/
theorem respelled_distinguished : isAbsolute "./b/../c.ts".toList = false ∧
    normalize (joined "/.." "./b/../c.ts") = normalize (joined "/" "c.ts") ∧
    (attempts {} [("src/a.ts", "")]).addSource "src/./a.ts" "" = .error (.duplicate "src/a.ts") := by
  obtain ⟨-, hjoined, hattempts⟩ := sources_distinguished none
  refine ⟨by decide, ?_, ?_⟩
  · have h := hjoined "/.." "./b/../c.ts" (by decide)
    exact h.trans (by decide)
  · have hnormal : normalize "src/./a.ts" = "src/a.ts" := by decide
    rw [← hnormal]
    refine ((hattempts [("src/a.ts", "")]).2.2 "src/./a.ts" "").1.mpr
      ⟨[], ("src/a.ts", ""), [], rfl, ⟨_, rfl⟩, by decide⟩

end ApiDocs.Binder
