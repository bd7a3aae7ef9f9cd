import ApiDocs.Proofs.Text.EmittedPaths

/-!
# Normal forms of paths

Folding a path is the run of a stack machine: a name is put on the stack, and a parent takes one back. Its
result is written without dots and empty segments, with parents only in front of a relative path. A path of
this shape is read as the segments it is written with and folded to the same again, so these are the paths
in normal form.

A machine that starts from some directory instead of nothing ends in the same directory for a relative path
and for its normal form. The normal form leaves out a name together with the parent that took it back, and
these two leave any stack as it was, whether parents below it are kept or lost at the root. Hence joining two
paths and joining their normal forms is the same, and what is written into a path without leading anywhere
does not matter.

## Main definitions

* `SourcePath.IsName`: a segment that is a name.
* `SourcePath.InNormalForm`: the shape of a normal form.
* `SourcePath.joined`: a path seen from a directory.
* `SourcePath.Respells`: a path with something written into it that leads nowhere.

## Main results

* `SourcePath.normalize_eq_self_iff`: the paths that are their own normal form.
* `SourcePath.normalize_joined`: joining is determined by the normal forms.
* `SourcePath.Respells.normalize_eq`: a path that is respelled keeps its normal form.
-/

namespace ApiDocs.SourcePath

open Text

variable {path x y s : List Char} {segments names : List (List Char)} {c : Component}
  {cs : List Component} {f g : Folded}

/-- A segment that is a name. -/
structure IsName (s : List Char) : Prop extends IsSegment s where
  notParent : s ≠ ['.', '.']

instance (s : List Char) : Decidable (IsName s) :=
  decidable_of_iff (('/' ∉ s ∧ isVoid s = false) ∧ s ≠ ['.', '.'])
    ⟨fun h => ⟨⟨h.1.1, h.1.2⟩, h.2⟩, fun h => ⟨⟨h.noSlash, h.solid⟩, h.notParent⟩⟩

theorem IsName.ofSegment (h : IsName s) : Component.ofSegment s = .name s := if_neg h.notParent

/-! ## Folding again -/

theorem fold_eq (path : List Char) :
    fold path = (bodyComponents path).foldl Folded.step ⟨isAbsolute path, []⟩ := by
  rw [fold, components_eq, List.foldl_append, foldl_leading]

theorem Component.ofSegment_injective : Function.Injective Component.ofSegment := by
  intro s t h
  unfold ofSegment at h
  split at h <;> split at h <;> simp_all

/-- What a path was folded to is determined by its components. -/
theorem Folded.components_injective : Function.Injective Folded.components := by
  rintro ⟨a, segments⟩ ⟨b, segments'⟩ h
  have hnoRoot : ∀ l : List (List Char), .root ∉ l.map Component.ofSegment := by
    intro l hroot
    obtain ⟨s, -, hs⟩ := List.mem_map.mp hroot
    by_cases hparent : s = ['.', '.'] <;> simp [Component.ofSegment, hparent] at hs
  have habsolute : ∀ f : Folded, .root ∈ f.components ↔ f.absolute = true := by
    intro f
    have hnone := hnoRoot f.segments.reverse
    cases ha : f.absolute <;> simp_all [components]
  have hab : a = true ↔ b = true := by
    rw [← habsolute ⟨a, segments⟩, h, habsolute]
  obtain rfl : a = b := Bool.eq_iff_iff.mpr hab
  have hsegments := (List.map_inj_right Component.ofSegment_injective).mp (List.append_cancel_left h)
  obtain rfl : segments = segments' := List.reverse_inj.mp hsegments
  rfl

/-- **Folding what was folded changes nothing.** -/
theorem fold_text (h : f.Normal) : fold f.text = f := by
  apply Folded.components_injective
  rw [fold, components_text h]
  refine components_foldl_of_settled h.settled fun s hs => ?_
  rintro rfl
  rcases List.mem_append.mp hs with hroot | hsegments
  · cases ha : f.absolute <;> simp [ha] at hroot
  · obtain ⟨t, -, ht⟩ := List.mem_map.mp hsegments
    by_cases hparent : t = ['.', '.'] <;> simp_all [Component.ofSegment]

theorem fold_normalize (path : String) : fold (normalize path).toList = fold path.toList := by
  rw [normalize, String.toList_ofList, fold_text (fold_normal _)]

theorem normalize_normalize (path : String) : normalize (normalize path) = normalize path := by
  rw [normalize, fold_normalize, ← normalize]

/-! ## The shape of normal forms -/

/-- A path in normal form: names behind the root, or behind the parents that lead out of where a relative
path starts. -/
inductive InNormalForm : List Char → Prop
  | relative (up : Nat) {names : List (List Char)} (h : ∀ s ∈ names, IsName s) :
    InNormalForm ((['/'] : List Char).intercalate (List.replicate up ['.', '.'] ++ names))
  | absolute {names : List (List Char)} (h : ∀ s ∈ names, IsName s) :
    InNormalForm ('/' :: (['/'] : List Char).intercalate names)

/-- Settled segments are some parents and then names. -/
theorem exists_parents (hsegments : ∀ s ∈ segments, IsSegment s)
    (horder : (segments.map Component.ofSegment).Pairwise Component.MayFollow) :
    ∃ up names, segments = List.replicate up ['.', '.'] ++ names ∧ ∀ s ∈ names, IsName s := by
  induction segments with
  | nil => exact ⟨0, [], rfl, by simp⟩
  | cons s segments ih =>
    rw [List.map_cons, List.pairwise_cons] at horder
    obtain ⟨hfirst, horder⟩ := horder
    by_cases hs : s = ['.', '.']
    · obtain ⟨up, names, rfl, hnames⟩ := ih (fun t ht => hsegments t (by simp [ht])) horder
      exact ⟨up + 1, names, by simp [hs, List.replicate_succ], hnames⟩
    · refine ⟨0, s :: segments, rfl, fun t ht => ⟨hsegments t ht, ?_⟩⟩
      rintro rfl
      rcases List.mem_cons.mp ht with heq | ht
      · exact hs heq.symm
      · -- A parent behind a name does not settle.
        have hparent := (hfirst _ (List.mem_map_of_mem ht)).2 Folded.ofSegment_parent
        rw [Component.ofSegment, if_neg hs] at hparent
        cases hparent

theorem inNormalForm_text (h : f.Normal) : InNormalForm f.text := by
  have hsegments : ∀ s ∈ f.segments.reverse, IsSegment s := fun s hs => h.segments s (by simpa using hs)
  have horder := h.settled.order
  rw [Folded.components] at horder
  obtain ⟨up, names, heq, hnames⟩ := exists_parents hsegments (List.pairwise_append.mp horder).2.1
  rw [Folded.text_eq, heq]
  cases ha : f.absolute with
  | false =>
    rw [Folded.root, ha]
    exact .relative up hnames
  | true =>
    have hup : up = 0 := by
      by_contra hne
      have hmem : Component.parent ∈ f.segments.reverse.map Component.ofSegment := by
        rw [heq, ← Folded.ofSegment_parent]
        exact List.mem_map_of_mem (List.mem_append_left _ (List.mem_replicate.mpr ⟨hne, rfl⟩))
      have hroot := ((List.pairwise_append.mp horder).2.2 .root (by simp [ha]) _ hmem).2 rfl
      cases hroot
    subst hup
    rw [Folded.root, ha]
    exact .absolute hnames

theorem Folded.normal_root : Folded.Normal ⟨true, []⟩ := by
  have hsettled : Settled ([] ++ [.root]) := settled_snoc_iff.mpr ⟨settled_nil, by simp, by simp⟩
  exact ⟨by simp, hsettled⟩

theorem Folded.normal_parents (up : Nat) : Folded.Normal ⟨false, List.replicate up ['.', '.']⟩ := by
  induction up with
  | zero => exact ⟨by simp, settled_nil⟩
  | succ up ih =>
    refine ih.pushParent fun a ha => ?_
    obtain ⟨s, hs, rfl⟩ := List.mem_map.mp ha
    rw [List.eq_of_mem_replicate (List.mem_reverse.mp hs), Folded.ofSegment_parent]

/-- Names can stand behind whatever is settled. -/
theorem Folded.Normal.pushNames (hnames : ∀ s ∈ names, IsName s) (hf : f.Normal) :
    Folded.Normal { f with segments := names.reverse ++ f.segments } := by
  induction names generalizing f with
  | nil => exact hf
  | cons s names ih =>
    have hs := hnames s (by simp)
    have hnext := ih (fun t ht => hnames t (by simp [ht]))
      (hf.push hs.toIsSegment (hs.ofSegment ▸ settled_snoc_name hf.settled s))
    simpa using hnext

/-- A path in normal form is what its segments are folded to. -/
theorem InNormalForm.exists_normal (h : InNormalForm path) : ∃ f : Folded, f.Normal ∧ f.text = path := by
  cases h with
  | relative up hnames => exact ⟨_, (Folded.normal_parents up).pushNames hnames, by simp [Folded.text]⟩
  | absolute hnames => exact ⟨_, Folded.normal_root.pushNames hnames, by simp [Folded.text]⟩

/-- **The paths in normal form are those that are their own normal form.** -/
theorem normalize_eq_self_iff {path : String} : normalize path = path ↔ InNormalForm path.toList := by
  constructor
  · intro h
    rw [← h, normalize, String.toList_ofList]
    exact inNormalForm_text (fold_normal _)
  · intro h
    obtain ⟨f, hf, htext⟩ := h.exists_normal
    rw [normalize, ← htext, fold_text hf, htext, String.ofList_toList]

theorem inNormalForm_normalize (path : String) : InNormalForm (normalize path).toList :=
  normalize_eq_self_iff.mp (normalize_normalize path)

/-! ## Joining -/

/-- A path seen from a directory. -/
def joined (directory path : String) : String := String.ofList (join directory.toList path.toList)

theorem bodyComponents_snoc_slash (x : List Char) : bodyComponents (x ++ ['/']) = bodyComponents x := by
  rw [bodyComponents_append]
  exact List.append_nil _

section

variable (hpath : isAbsolute path = false)

include hpath

theorem join_nil : join [] path = path := by
  simp [join, hpath]

theorem join_slash (directory : List Char) :
    join (directory ++ ['/']) path = directory ++ '/' :: path := by
  simp [join, hpath]

theorem join_concat {a : Char} (ha : a ≠ '/') (directory : List Char) :
    join (directory ++ [a]) path = directory ++ [a] ++ '/' :: path := by
  rw [join, if_neg (by simp [hpath]), List.getLast?_concat]
  split
  next heq => cases heq
  next heq => exact absurd (Option.some.inj heq) ha
  next => rfl

/-- **A relative path goes on folding where its directory has led to.** -/
theorem fold_join (directory : List Char) :
    fold (join directory path) = (bodyComponents path).foldl Folded.step (fold directory) := by
  cases directory using List.reverseRecOn with
  | nil =>
    rw [join_nil hpath, fold_eq, hpath]
    rfl
  | append_singleton directory a =>
    have hfront (y : List Char) : isAbsolute (directory ++ [a] ++ y) = isAbsolute (directory ++ [a]) := by
      cases directory <;> rfl
    rw [fold_eq (directory ++ [a]), ← List.foldl_append]
    by_cases ha : a = '/'
    · subst ha
      rw [join_slash hpath, bodyComponents_snoc_slash, ← bodyComponents_append, ← hfront path,
        List.append_assoc]
      exact fold_eq _
    · rw [join_concat hpath ha, ← bodyComponents_append, ← hfront]
      exact fold_eq _

end

/-- A parent takes back the name before it, whatever is below. -/
theorem Folded.step_name_parent (hs : s ≠ ['.', '.']) (g : Folded) :
    (g.step (.name s)).step .parent = g := by
  simp [Folded.step, hs]

/-- **What components lead to from any directory depends on what they are folded to alone.** -/
theorem foldl_components (hcs : ∀ c ∈ cs, ∃ s, IsSegment s ∧ c = .ofSegment s) (g : Folded) :
    (cs.foldl Folded.step ⟨false, []⟩).absolute = false ∧
      (cs.foldl Folded.step ⟨false, []⟩).components.foldl Folded.step g = cs.foldl Folded.step g := by
  induction cs using List.reverseRecOn with
  | nil => exact ⟨rfl, rfl⟩
  | append_singleton cs c ih =>
    obtain ⟨hrelative, hlead⟩ := ih fun c hc => hcs c (by simp [hc])
    obtain ⟨s, -, rfl⟩ := hcs c (by simp)
    simp only [List.foldl_append, List.foldl_cons, List.foldl_nil]
    rw [← hlead]
    generalize cs.foldl Folded.step ⟨false, []⟩ = f at hrelative ⊢
    have hpush (t : List Char) : { f with segments := t :: f.segments }.components.foldl Folded.step g =
        (f.components.foldl Folded.step g).step (.ofSegment t) := by
      rw [Folded.components_push, List.foldl_append, List.foldl_cons, List.foldl_nil]
    by_cases hs : s = ['.', '.']
    · subst hs
      rw [Folded.ofSegment_parent]
      cases hf : f.segments with
      | nil =>
        have hstep : f.step .parent = { f with segments := ['.', '.'] :: f.segments } := by
          simp [Folded.step, hf, hrelative]
        rw [hstep]
        exact ⟨hrelative, hpush _⟩
      | cons last before =>
        by_cases hlast : last = ['.', '.']
        · have hstep : f.step .parent = { f with segments := ['.', '.'] :: f.segments } := by
            simp [Folded.step, hf, hlast, hrelative]
          rw [hstep]
          exact ⟨hrelative, hpush _⟩
        · -- The name that is taken back here was put on the other stack last.
          have hstep : f.step .parent = { f with segments := before } := by
            simp [Folded.step, hf, hlast]
          have hname : Component.ofSegment last = .name last := if_neg hlast
          refine ⟨by rw [hstep]; exact hrelative, ?_⟩
          rw [hstep, Folded.components_of_segments_eq hf, List.foldl_append, List.foldl_cons,
            List.foldl_nil, hname, Folded.step_name_parent hlast]
    · have hstep : f.step (.ofSegment s) = { f with segments := s :: f.segments } := by
        rw [Component.ofSegment, if_neg hs]
        rfl
      rw [hstep]
      exact ⟨hrelative, hpush s⟩

theorem leading_text_of_relative (hf : f.Normal) (hrelative : f.absolute = false) :
    leading f.text = [] := by
  have hsegments : ∀ s ∈ f.segments.reverse, IsSegment s := fun s hs => hf.segments s (by simpa using hs)
  have htext : f.text = (['/'] : List Char).intercalate f.segments.reverse := by
    simp [Folded.text, hrelative]
  rw [htext, leading_intercalate hsegments]

theorem isAbsolute_of_leading (h : leading path = []) : isAbsolute path = false := by
  unfold leading at h
  split at h
  · cases h
  next hfront => exact Bool.eq_false_iff.mpr hfront

theorem isAbsolute_of_isSegment (h : IsSegment s) : isAbsolute s = false := by
  have hleading := leading_of_isSegment h []
  rw [List.append_nil] at hleading
  exact isAbsolute_of_leading hleading

theorem isAbsolute_text (hf : f.Normal) : isAbsolute f.text = f.absolute := by
  cases ha : f.absolute with
  | true => simp [Folded.text, ha, isAbsolute]
  | false => exact isAbsolute_of_leading (leading_text_of_relative hf ha)

/-- **Only the normal forms count for joining.** -/
theorem fold_join_text (hpath : isAbsolute path = false) (directory : List Char) :
    fold (join (fold directory).text (fold path).text) = fold (join directory path) := by
  have hsegments : ∀ c ∈ bodyComponents path, ∃ s, IsSegment s ∧ c = .ofSegment s :=
    fun c hc => exists_segment_of_mem hc
  obtain ⟨hrelative, hlead⟩ := foldl_components hsegments (fold directory)
  rw [← hpath, ← fold_eq] at hrelative hlead
  rw [hpath] at hrelative
  have hnormal := fold_normal path
  have hbody : bodyComponents (fold path).text = (fold path).components := by
    rw [← components_text hnormal, components_eq, leading_text_of_relative hnormal hrelative,
      List.nil_append]
  have htext : isAbsolute (fold path).text = false := (isAbsolute_text hnormal).trans hrelative
  rw [fold_join htext, fold_text (fold_normal directory), hbody, hlead, fold_join hpath]

theorem normalize_joined {path : String} (hpath : isAbsolute path.toList = false) (directory : String) :
    normalize (joined (normalize directory) (normalize path)) = normalize (joined directory path) := by
  simp only [normalize, joined, String.toList_ofList, fold_join_text hpath]

/-! ## Other spellings -/

/-- What leads nowhere: an empty segment, a dot, and a name that is taken back. -/
inductive Idle : List Char → Prop
  | empty : Idle []
  | dot : Idle ['.']
  | back {s : List Char} (h : IsName s) : Idle (s ++ ['/', '.', '.'])

/-- The second path is the first with idle segments written into it. They do not turn a relative path into an
absolute one, or the other way round. -/
inductive Respells (path : List Char) : List Char → Prop
  | refl : Respells path path
  | between {x y idle : List Char} (h : Respells path (x ++ '/' :: y)) (hidle : Idle idle) :
    Respells path (x ++ '/' :: (idle ++ '/' :: y))
  | behind {x idle : List Char} (h : Respells path x) (hx : x ≠ []) (hidle : Idle idle) :
    Respells path (x ++ '/' :: idle)
  | before {y idle : List Char} (h : Respells path y) (hy : isAbsolute y = false) (hidle : Idle idle)
    (hne : idle ≠ []) : Respells path (idle ++ '/' :: y)

theorem Idle.foldl_eq {idle : List Char} (h : Idle idle) (g : Folded) :
    (bodyComponents idle).foldl Folded.step g = g := by
  cases h with
  | empty => rfl
  | dot => rfl
  | @back s hs =>
    have hbody : bodyComponents (s ++ ['/', '.', '.']) = [.name s, .parent] := by
      rw [bodyComponents_append, bodyComponents_of_noSlash hs.noSlash, hs.ofSegment?, hs.ofSegment]
      rfl
    rw [hbody]
    exact Folded.step_name_parent hs.notParent g

theorem Idle.isAbsolute_append {idle : List Char} (h : Idle idle) (hne : idle ≠ []) (y : List Char) :
    isAbsolute (idle ++ y) = false := by
  cases h with
  | empty => exact absurd rfl hne
  | dot => rfl
  | @back s hs =>
    rw [List.append_assoc]
    exact isAbsolute_of_leading (leading_of_isSegment hs.toIsSegment _)

theorem isAbsolute_append (hx : x ≠ []) (y : List Char) : isAbsolute (x ++ y) = isAbsolute x := by
  obtain ⟨a, x, rfl⟩ := List.exists_cons_of_ne_nil hx
  rfl

/-- Idle segments do not change what a path is folded to. -/
theorem Respells.fold_eq (h : Respells x y) : fold y = fold x := by
  induction h with
  | refl => rfl
  | @between x y idle _ hidle ih =>
    have hfront : isAbsolute (x ++ '/' :: (idle ++ '/' :: y)) = isAbsolute (x ++ '/' :: y) := by
      cases x <;> rfl
    rw [← ih, SourcePath.fold_eq, SourcePath.fold_eq, hfront]
    simp only [bodyComponents_append, List.foldl_append, hidle.foldl_eq]
  | behind _ hx hidle ih =>
    rw [← ih, SourcePath.fold_eq, SourcePath.fold_eq, isAbsolute_append hx, bodyComponents_append,
      List.foldl_append, hidle.foldl_eq]
  | before _ hy hidle hne ih =>
    rw [← ih, SourcePath.fold_eq, SourcePath.fold_eq, hidle.isAbsolute_append hne, hy,
      bodyComponents_append, List.foldl_append, hidle.foldl_eq]

/-- **A path that is respelled keeps its normal form.** -/
theorem Respells.normalize_eq {path path' : String} (h : Respells path.toList path'.toList) :
    normalize path' = normalize path := by
  rw [normalize, h.fold_eq, ← normalize]

end ApiDocs.SourcePath
