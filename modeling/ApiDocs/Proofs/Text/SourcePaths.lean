import ApiDocs.SourcePath
import ApiDocs.Proofs.Text.Splitting
import Mathlib.Data.List.Induction

/-!
# Source paths by their segments

A path is the list of its segments. Segments that stand for nothing add no component, so they can be
dropped. The others add one component each: `..` the parent, anything else a name.

Folding leaves no dots, and `..` only in front of names and never behind the root. Such components are
*settled*: each may stand where it stands because of those before it, so what comes before a place in
settled components is settled again, and folding settled components changes nothing. Hence the
components of a normal form are what its path was folded to, and a directory whose components are not
settled has no path in normal form under it.

## Main definitions

* `SourcePath.IsSegment`: a segment that stands for something.
* `SourcePath.bodyComponents`: the components of a path behind the root or a dot in front.
* `SourcePath.Settled`: components as folding leaves them.
* `SourcePath.IsDirect`: a path with the components of its normal form.

## Main results

* `SourcePath.components_normalize`: the components of a normal form.
* `SourcePath.isDirect_of_settled`: settled components are those of the normal form.
-/

namespace ApiDocs.SourcePath

open Text

variable {path x y rest s : List Char} {segments : List (List Char)} {c : Component}
  {cs : List Component} {f : Folded}

/-! ## Segments -/

/-- A segment that stands for something. -/
structure IsSegment (s : List Char) : Prop where
  noSlash : '/' ∉ s
  solid : isVoid s = false

/-- The component of a segment that stands for something. -/
def Component.ofSegment (s : List Char) : Component := if s = ['.', '.'] then .parent else .name s

theorem Component.ofSegment?_eq (s : List Char) :
    Component.ofSegment? s = if isVoid s then none else some (.ofSegment s) := by
  unfold Component.ofSegment?
  split
  · rfl
  · rfl
  · rfl
  next hempty hdot hparent =>
    have hsolid : isVoid s = false := by
      rw [isVoid, Bool.or_eq_false_iff, beq_eq_false_iff_ne, beq_eq_false_iff_ne]
      exact ⟨hempty, hdot⟩
    have hname : ofSegment s = .name s := if_neg hparent
    rw [hsolid, hname]
    rfl

theorem IsSegment.ofSegment? (h : IsSegment s) :
    Component.ofSegment? s = some (.ofSegment s) := by
  simp [Component.ofSegment?_eq, h.solid]

theorem filterMap_ofSegment? (h : ∀ s ∈ segments, IsSegment s) :
    segments.filterMap Component.ofSegment? = segments.map Component.ofSegment := by
  induction segments with
  | nil => rfl
  | cons s segments ih =>
    rw [List.filterMap_cons_some (h s (by simp)).ofSegment?, ih fun t ht => h t (by simp [ht]),
      List.map_cons]

theorem filterMap_dropWhile (segments : List (List Char)) :
    (segments.dropWhile isVoid).filterMap Component.ofSegment? =
      segments.filterMap Component.ofSegment? := by
  induction segments with
  | nil => rfl
  | cons s segments ih =>
    by_cases hs : isVoid s = true
    · rw [List.dropWhile_cons_of_pos hs, ih, List.filterMap_cons_none]
      simp [Component.ofSegment?_eq, hs]
    · rw [List.dropWhile_cons_of_neg hs]

/-- A segment with anything but dots in it is a name. -/
theorem isSegment_of_mem {a : Char} (hslash : '/' ∉ s) (ha : a ∈ s) (hdot : a ≠ '.') :
    IsSegment s ∧ s ≠ ['.', '.'] := by
  refine ⟨⟨hslash, ?_⟩, ?_⟩
  · rw [isVoid, Bool.or_eq_false_iff, beq_eq_false_iff_ne, beq_eq_false_iff_ne]
    constructor <;> rintro rfl <;> simp_all
  · rintro rfl
    simp_all

/-! ## Components -/

/-- The components of a path behind the root or a dot in front. -/
def bodyComponents (path : List Char) : List Component :=
  (splitOn '/' path).filterMap Component.ofSegment?

theorem components_eq (path : List Char) : components path = leading path ++ bodyComponents path := rfl

theorem bodyComponents_append (x y : List Char) :
    bodyComponents (x ++ '/' :: y) = bodyComponents x ++ bodyComponents y := by
  rw [bodyComponents, splitOn_append, List.filterMap_append]
  rfl

theorem bodyComponents_slash (y : List Char) : bodyComponents ('/' :: y) = bodyComponents y :=
  bodyComponents_append [] y

theorem bodyComponents_dot (y : List Char) : bodyComponents ('.' :: '/' :: y) = bodyComponents y :=
  bodyComponents_append ['.'] y

theorem bodyComponents_of_noSlash (h : '/' ∉ s) :
    bodyComponents s = (Component.ofSegment? s).toList := by
  rw [bodyComponents, splitOn_of_not_mem h]
  cases hs : Component.ofSegment? s <;> simp [hs]

theorem bodyComponents_intercalate (h : ∀ s ∈ segments, '/' ∉ s) :
    bodyComponents ((['/'] : List Char).intercalate segments) =
      segments.filterMap Component.ofSegment? := by
  by_cases hne : segments = []
  · subst hne
    rfl
  · rw [bodyComponents, splitOn_intercalate h hne]

/-- A component behind the front is a parent or a name. -/
theorem exists_segment_of_mem (h : c ∈ bodyComponents path) :
    ∃ s, IsSegment s ∧ c = .ofSegment s := by
  obtain ⟨s, hs, hc⟩ := List.mem_filterMap.mp h
  rw [Component.ofSegment?_eq] at hc
  by_cases hvoid : isVoid s = true
  · simp [hvoid] at hc
  · rw [if_neg hvoid] at hc
    exact ⟨s, ⟨notMem_of_mem_splitOn hs, by simpa using hvoid⟩, (Option.some.inj hc).symm⟩

/-- No root and no dot is in front of a path that starts with a segment. -/
theorem leading_of_isSegment (h : IsSegment s) (rest : List Char) : leading (s ++ rest) = [] := by
  obtain ⟨hslash, hsolid⟩ := h
  rw [isVoid, Bool.or_eq_false_iff, beq_eq_false_iff_ne, beq_eq_false_iff_ne] at hsolid
  obtain ⟨hempty, hdot⟩ := hsolid
  obtain ⟨a, s, rfl⟩ := List.exists_cons_of_ne_nil hempty
  have ha : a ≠ '/' := fun ha => hslash (by simp [ha])
  have hstart : startsWithDot (a :: (s ++ rest)) = false := by
    unfold startsWithDot
    split
    next heq =>
      have hs : s = [] := by simp_all
      simp_all
    next tail heq =>
      cases s with
      | nil => simp_all
      | cons b s => simp_all
    next => rfl
  simp [leading, isAbsolute, ha, hstart]

/-- What is in front of a path does not depend on what stands behind a slash. -/
theorem leading_append (x y y' : List Char) : leading (x ++ '/' :: y) = leading (x ++ '/' :: y') := by
  match x with
  | [] => rfl
  | [a] =>
    by_cases ha : a = '.'
    · subst ha
      rfl
    · simp [leading, isAbsolute, startsWithDot, ha]
  | a :: b :: x =>
    by_cases hab : a = '.' ∧ b = '/'
    · obtain ⟨rfl, rfl⟩ := hab
      rfl
    · have hstart (z : List Char) : startsWithDot (a :: b :: (x ++ '/' :: z)) = false := by
        unfold startsWithDot
        split <;> simp_all
      simp [leading, isAbsolute, hstart]

/-! ## Void ends -/

theorem noSlash_of_dropVoidEnds (path : List Char) :
    ∀ s ∈ (((splitOn '/' path).dropWhile isVoid).reverse.dropWhile isVoid).reverse, '/' ∉ s := by
  intro s hs
  have hmem := (List.dropWhile_suffix isVoid).subset (List.mem_reverse.mp hs)
  exact notMem_of_mem_splitOn ((List.dropWhile_suffix isVoid).subset (List.mem_reverse.mp hmem))

theorem noSlash_of_dropVoidEnd (path : List Char) :
    ∀ s ∈ ((splitOn '/' path).reverse.dropWhile isVoid).reverse, '/' ∉ s := by
  intro s hs
  have hmem := (List.dropWhile_suffix isVoid).subset (List.mem_reverse.mp hs)
  exact notMem_of_mem_splitOn (List.mem_reverse.mp hmem)

theorem bodyComponents_dropVoidEnds (path : List Char) :
    bodyComponents (dropVoidEnds path) = bodyComponents path := by
  rw [dropVoidEnds, bodyComponents_intercalate (noSlash_of_dropVoidEnds path), List.filterMap_reverse,
    filterMap_dropWhile, List.filterMap_reverse, List.reverse_reverse, filterMap_dropWhile]
  rfl

theorem bodyComponents_dropVoidEnd (path : List Char) :
    bodyComponents (dropVoidEnd path) = bodyComponents path := by
  rw [dropVoidEnd, bodyComponents_intercalate (noSlash_of_dropVoidEnd path), List.filterMap_reverse,
    filterMap_dropWhile, List.filterMap_reverse, List.reverse_reverse]
  rfl

section

variable (h : ∀ s ∈ splitOn '/' path, isVoid s = false)

include h

theorem dropWhile_reverse_splitOn :
    ((splitOn '/' path).reverse.dropWhile isVoid).reverse = splitOn '/' path := by
  have hback : (splitOn '/' path).reverse.dropWhile isVoid = (splitOn '/' path).reverse := by
    refine List.dropWhile_eq_self_iff.mpr fun hlt => ?_
    rw [h _ (List.mem_reverse.mp (List.getElem_mem hlt))]
    simp
  rw [hback, List.reverse_reverse]

theorem dropVoidEnd_eq_self : dropVoidEnd path = path := by
  rw [dropVoidEnd, dropWhile_reverse_splitOn h, intercalate_splitOn]

theorem dropVoidEnds_eq_self : dropVoidEnds path = path := by
  have hfront : (splitOn '/' path).dropWhile isVoid = splitOn '/' path := by
    refine List.dropWhile_eq_self_iff.mpr fun hlt => ?_
    rw [h _ (List.getElem_mem hlt)]
    simp
  rw [dropVoidEnds, hfront, dropWhile_reverse_splitOn h, intercalate_splitOn]

end

theorem dropVoidEnd_slash (y : List Char) :
    dropVoidEnd ('/' :: y) = [] ∨ dropVoidEnd ('/' :: y) = '/' :: dropVoidEnd y := by
  have hsplit : splitOn '/' ('/' :: y) = [] :: splitOn '/' y := splitOn_append [] y
  rw [dropVoidEnd, hsplit, List.reverse_cons, List.dropWhile_append]
  by_cases hall : ((splitOn '/' y).reverse.dropWhile isVoid).isEmpty = true
  · left
    rw [if_pos hall]
    rfl
  · right
    rw [if_neg hall, List.reverse_append]
    have hne : ((splitOn '/' y).reverse.dropWhile isVoid).reverse ≠ [] := by
      simpa [List.isEmpty_iff] using hall
    rw [List.reverse_singleton, List.singleton_append, List.intercalate_cons_of_ne_nil hne]
    rfl

/-! ## Folding -/

/-- Where a component may stand behind another: the root behind nothing, a parent behind parents. -/
def Component.MayFollow (a b : Component) : Prop := b ≠ .root ∧ (b = .parent → a = .parent)

/-- Components as folding leaves them. -/
structure Settled (cs : List Component) : Prop where
  noDot : .current ∉ cs
  order : cs.Pairwise Component.MayFollow

theorem settled_nil : Settled [] := ⟨by simp, .nil⟩

theorem Settled.of_prefix {cs' : List Component} (h : Settled cs') (hp : cs <+: cs') : Settled cs :=
  ⟨fun hdot => h.noDot (hp.subset hdot), h.order.sublist hp.sublist⟩

theorem settled_snoc_iff :
    Settled (cs ++ [c]) ↔ Settled cs ∧ c ≠ .current ∧ ∀ a ∈ cs, a.MayFollow c := by
  constructor
  · intro h
    refine ⟨h.of_prefix (List.prefix_append cs [c]), fun hc => h.noDot (by simp [hc]), ?_⟩
    intro a ha
    exact (List.pairwise_append.mp h.order).2.2 a ha c (by simp)
  · rintro ⟨h, hdot, hfollow⟩
    refine ⟨by simp [h.noDot, Ne.symm hdot], ?_⟩
    refine List.pairwise_append.mpr ⟨h.order, List.pairwise_singleton _ _, ?_⟩
    intro a ha b hb
    rw [List.mem_singleton.mp hb]
    exact hfollow a ha

theorem settled_snoc_name (h : Settled cs) (s : List Char) : Settled (cs ++ [.name s]) :=
  settled_snoc_iff.mpr ⟨h, nofun, fun _ _ => ⟨nofun, nofun⟩⟩

namespace Folded

/-- What a path was folded to. -/
def components (f : Folded) : List Component :=
  (if f.absolute then [.root] else []) ++ f.segments.reverse.map Component.ofSegment

/-- All segments stand for something, and their components are settled. -/
structure Normal (f : Folded) : Prop where
  segments : ∀ s ∈ f.segments, IsSegment s
  settled : Settled f.components

theorem components_push (f : Folded) (s : List Char) :
    { f with segments := s :: f.segments }.components = f.components ++ [.ofSegment s] := by
  simp [components]

theorem components_of_segments_eq {last : List Char} {before : List (List Char)}
    (h : f.segments = last :: before) :
    f.components = { f with segments := before }.components ++ [.ofSegment last] := by
  simp [components, h]

theorem root_mem_components (h : f.absolute = true) : .root ∈ f.components := by
  simp [components, h]

theorem Normal.push (h : f.Normal) (hs : IsSegment s)
    (hsettled : Settled (f.components ++ [.ofSegment s])) :
    Normal { f with segments := s :: f.segments } where
  segments t ht := by
    rcases List.mem_cons.mp ht with rfl | ht
    · exact hs
    · exact h.segments t ht
  settled := by
    rw [components_push]
    exact hsettled

theorem Normal.pop {last : List Char} {before : List (List Char)} (h : f.Normal)
    (hf : f.segments = last :: before) : Normal { f with segments := before } where
  segments t ht := h.segments t (by simp [hf, ht])
  settled := h.settled.of_prefix (by simp [components_of_segments_eq hf])

theorem ofSegment_parent : Component.ofSegment ['.', '.'] = .parent := rfl

theorem isSegment_parent : IsSegment ['.', '.'] := ⟨by decide, by decide⟩

/-- A parent can go behind parents. -/
theorem Normal.pushParent (h : f.Normal) (hall : ∀ a ∈ f.components, a = .parent) :
    Normal { f with segments := ['.', '.'] :: f.segments } := by
  refine h.push isSegment_parent (settled_snoc_iff.mpr ⟨h.settled, nofun, fun a ha => ?_⟩)
  exact ⟨nofun, fun _ => hall a ha⟩

/-- Before a parent that was folded there are only parents. -/
theorem Normal.all_parents {before : List (List Char)} (h : f.Normal)
    (hf : f.segments = ['.', '.'] :: before) : ∀ a ∈ f.components, a = .parent := by
  have hsettled := h.settled
  rw [components_of_segments_eq hf, ofSegment_parent] at hsettled ⊢
  intro a ha
  rcases List.mem_append.mp ha with ha | ha
  · exact ((settled_snoc_iff.mp hsettled).2.2 a ha).2 rfl
  · exact List.mem_singleton.mp ha

/-- Folding the component of a segment keeps what is folded normal. -/
theorem Normal.step (h : f.Normal) (hs : IsSegment s) : (f.step (.ofSegment s)).Normal := by
  by_cases hparent : s = ['.', '.']
  · subst hparent
    simp only [ofSegment_parent, Folded.step]
    cases hf : f.segments with
    | nil =>
      cases ha : f.absolute with
      | true => exact h
      | false =>
        have hnone : f.components = [] := by simp [components, hf, ha]
        simpa [hf, ha] using h.pushParent (by simp [hnone])
    | cons last before =>
      by_cases hlast : last = ['.', '.']
      · cases ha : f.absolute with
        | true => simpa [hlast, ha] using h
        | false =>
          subst hlast
          simpa [hf, ha] using h.pushParent (h.all_parents hf)
      · simpa [hlast] using h.pop hf
  · have hname : Component.ofSegment s = .name s := if_neg hparent
    rw [hname]
    refine h.push hs ?_
    rw [hname]
    exact settled_snoc_name h.settled s

end Folded

theorem foldl_leading (path : List Char) :
    (leading path).foldl Folded.step ⟨false, []⟩ = ⟨isAbsolute path, []⟩ := by
  cases ha : isAbsolute path with
  | true => simp [leading, ha, Folded.step]
  | false => cases hd : startsWithDot path <;> simp [leading, ha, hd, Folded.step]

/-- **What a path is folded to is normal.** -/
theorem fold_normal (path : List Char) : (fold path).Normal := by
  have hstart : Folded.Normal ⟨isAbsolute path, []⟩ := by
    refine ⟨by simp, ?_⟩
    cases isAbsolute path with
    | false => exact settled_nil
    | true =>
      have hroot : Settled ([] ++ [.root]) := settled_snoc_iff.mpr ⟨settled_nil, nofun, by simp⟩
      exact hroot
  have hbody : ∀ cs : List Component, (∀ c ∈ cs, ∃ s, IsSegment s ∧ c = .ofSegment s) →
      ∀ f : Folded, f.Normal → (cs.foldl Folded.step f).Normal := by
    intro cs
    induction cs with
    | nil => exact fun _ f hf => hf
    | cons c cs ih =>
      intro hcs f hf
      obtain ⟨s, hs, rfl⟩ := hcs c (by simp)
      exact ih (fun c hc => hcs c (by simp [hc])) _ (hf.step hs)
  rw [fold, components_eq, List.foldl_append, foldl_leading]
  exact hbody _ (fun c hc => exists_segment_of_mem hc) _ hstart

/-! ## Normal forms -/

/-- The text of segments starts with the first of them. -/
theorem leading_intercalate (h : ∀ s ∈ segments, IsSegment s) :
    leading ((['/'] : List Char).intercalate segments) = [] := by
  match segments with
  | [] => rfl
  | [s] =>
    rw [List.intercalate_singleton, ← List.append_nil s]
    exact leading_of_isSegment (h s (by simp)) []
  | s :: t :: segments =>
    rw [List.intercalate_cons_cons, List.append_assoc]
    exact leading_of_isSegment (h s (by simp)) _

theorem components_text (h : f.Normal) : components f.text = f.components := by
  have hsegments : ∀ s ∈ f.segments.reverse, IsSegment s := fun s hs => h.segments s (by simpa using hs)
  have hbody : bodyComponents ((['/'] : List Char).intercalate f.segments.reverse) =
      f.segments.reverse.map Component.ofSegment := by
    rw [bodyComponents_intercalate fun s hs => (hsegments s hs).noSlash, filterMap_ofSegment? hsegments]
  cases ha : f.absolute with
  | true =>
    simp only [Folded.text, Folded.components, ha, if_true, components_eq, bodyComponents_slash, hbody]
    rfl
  | false =>
    simp [Folded.text, Folded.components, ha, components_eq, leading_intercalate hsegments, hbody]

theorem components_normalize (path : String) :
    components (normalize path).toList = (fold path.toList).components := by
  rw [normalize, String.toList_ofList, components_text (fold_normal _)]

/-- Folding changes nothing in components that are settled. -/
theorem components_foldl_of_settled (h : Settled cs)
    (hnames : ∀ s, .name s ∈ cs → s ≠ ['.', '.']) :
    (cs.foldl Folded.step ⟨false, []⟩).components = cs := by
  induction cs using List.reverseRecOn with
  | nil => rfl
  | append_singleton cs c ih =>
    obtain ⟨hcs, hdot, hfollow⟩ := settled_snoc_iff.mp h
    have hf := ih hcs fun s hs => hnames s (by simp [hs])
    rw [List.foldl_append, List.foldl_cons, List.foldl_nil]
    generalize cs.foldl Folded.step ⟨false, []⟩ = f at hf ⊢
    subst hf
    cases c with
    | current => exact absurd rfl hdot
    | name s =>
      have hname : Component.ofSegment s = .name s := if_neg (hnames s (by simp))
      rw [← hname]
      simp only [hname, Folded.step]
      rw [Folded.components_push, hname]
    | root =>
      -- The root follows nothing, so it is the first.
      have hnone : f.components = [] :=
        List.eq_nil_iff_forall_not_mem.mpr fun a ha => (hfollow a ha).1 rfl
      have hsegments : f.segments = [] := by simp_all [Folded.components]
      rw [hnone]
      simp [Folded.step, Folded.components, hsegments]
    | parent =>
      have hall : ∀ a ∈ f.components, a = .parent := fun a ha => (hfollow a ha).2 rfl
      have hrelative : f.absolute = false := by
        by_contra habsolute
        have hroot := hall _ (Folded.root_mem_components (by simpa using habsolute))
        cases hroot
      rw [← Folded.ofSegment_parent, ← Folded.components_push]
      cases hsegments : f.segments with
      | nil => simp [Folded.step, hsegments, hrelative, Folded.ofSegment_parent]
      | cons last before =>
        have hlast : last = ['.', '.'] := by
          have hparent := hall (.ofSegment last)
            (by simp [Folded.components_of_segments_eq hsegments])
          by_contra hne
          simp [Component.ofSegment, hne] at hparent
        simp [Folded.step, hsegments, hlast, hrelative, Folded.ofSegment_parent]

/-- The path has the components of its normal form: it starts with no dot, and no `..` takes back a name
or leaves the root. -/
def IsDirect (path : String) : Prop := components path.toList = components (normalize path).toList

instance (path : String) : Decidable (IsDirect path) :=
  inferInstanceAs (Decidable (components path.toList = components (normalize path).toList))

theorem isDirect_of_settled {path : String} (h : Settled (components path.toList)) : IsDirect path := by
  rw [IsDirect, components_normalize, fold]
  refine (components_foldl_of_settled h fun s hs => ?_).symm
  rintro rfl
  rcases List.mem_append.mp hs with hleading | hbody
  · unfold leading at hleading
    split at hleading
    · simp at hleading
    · split at hleading <;> simp at hleading
  · obtain ⟨t, -, ht⟩ := exists_segment_of_mem hbody
    by_cases hparent : t = ['.', '.'] <;> simp_all [Component.ofSegment]

theorem settled_components_normalize (path : String) :
    Settled (components (normalize path).toList) := by
  rw [components_normalize]
  exact (fold_normal _).settled

end ApiDocs.SourcePath
