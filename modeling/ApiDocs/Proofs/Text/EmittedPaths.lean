import ApiDocs.Proofs.Text.SourcePaths

/-!
# Paths of emitted files

The path of an emitted file is that of its source with another extension, seen from the output
directory instead of the root directory of the sources. The extension is part of the last segment, so
what stands in front of a slash stays as it is, and the root directory can be taken off before or after
the extension is replaced.

The root directory is compared by its components as it is given, while sources have paths in normal
form. So a root directory that has the components of its normal form is taken off, however its slashes
are written. Any other one has components that are not settled and is in front of no source at all.

## Main definitions

* `SourcePath.emitted`: a path with another extension.
* `SourcePath.IsExtension`: an extension that makes a name of whatever it is put behind.
* `SourcePath.under`: a path behind some directories.
* `SourcePath.LiesUnder`: a source lies under a directory.

## Main results

* `SourcePath.exists_strip?_of_liesUnder`: a direct directory can be taken off the sources under it.
* `SourcePath.strip?_of_not_isDirect`: any other directory can be taken off no source.
-/

namespace ApiDocs.SourcePath

open Text

variable {path x y rest s ext : List Char} {segments : List (List Char)} {cs : List Component}
  {f : Folded}

/-! ## Extensions -/

/-- A path with another extension. -/
def emitted (path ext : List Char) : List Char := stem path ++ '.' :: ext.dropWhile (· = '.')

theorem replaceExtension_eq (path ext : String) :
    replaceExtension path ext = String.ofList (emitted path.toList ext.toList) := rfl

/-- The extension stays within a segment, and is not made of dots alone. -/
def IsExtension (ext : List Char) : Prop := '/' ∉ ext ∧ ∃ a ∈ ext, a ≠ '.'

instance (ext : List Char) : Decidable (IsExtension ext) :=
  decidable_of_iff ((!ext.contains '/' && ext.any (· != '.')) = true) (by simp [IsExtension])

theorem stem_append (x y : List Char) : stem (x ++ '/' :: y) = x ++ '/' :: stem y := by
  have hfind : ∀ es : List String, (∀ e ∈ es, '/' ∉ e.toList) →
      (es.findSome? fun e => stripEnd? e.toList (x ++ '/' :: y)) =
        (es.findSome? fun e => stripEnd? e.toList y).map (x ++ '/' :: ·) := by
    intro es hes
    induction es with
    | nil => rfl
    | cons e es ih =>
      rw [List.findSome?_cons, List.findSome?_cons, stripEnd?_append (hes e (by simp))]
      cases stripEnd? e.toList y with
      | none => exact ih fun e he => hes e (by simp [he])
      | some rest => rfl
  have hextensions : ∀ e ∈ sourceExtensions, '/' ∉ e.toList := by decide
  rw [stem, stem, hfind sourceExtensions hextensions]
  cases sourceExtensions.findSome? fun e => stripEnd? e.toList y <;> rfl

theorem emitted_append (x y ext : List Char) : emitted (x ++ '/' :: y) ext = x ++ '/' :: emitted y ext := by
  rw [emitted, stem_append, emitted, List.append_assoc, List.cons_append]

/-- A path without its extension is the beginning of the path. -/
theorem stem_isPrefix_self (path : List Char) : stem path <+: path := by
  unfold stem
  split
  next hfind =>
    obtain ⟨e, -, he⟩ := List.exists_of_findSome?_eq_some hfind
    by_cases hs : e.toList <:+ path
    · obtain ⟨before, rfl⟩ := hs
      rw [stripEnd?_suffix] at he
      exact ⟨e.toList, by rw [Option.some.inj he]⟩
    · rw [stripEnd?_eq_none hs] at he
      cases he
  next => exact List.prefix_rfl

/-- With an extension behind it, a segment is a name. -/
theorem emitted_isSegment (hs : '/' ∉ s) (hext : IsExtension ext) :
    IsSegment (emitted s ext) ∧ emitted s ext ≠ ['.', '.'] := by
  obtain ⟨hslash, a, ha, hdot⟩ := hext
  obtain ⟨dots, hdots⟩ := List.dropWhile_suffix (l := ext) fun b => decide (b = '.')
  have hmem : a ∈ ext.dropWhile (· = '.') := by
    rw [← List.takeWhile_append_dropWhile (p := fun b => decide (b = '.')) (l := ext)] at ha
    rcases List.mem_append.mp ha with ha | ha
    · exact absurd (by simpa using List.mem_takeWhile_imp ha) hdot
    · exact ha
  refine isSegment_of_mem (a := a) ?_ (by simp [emitted, hmem]) hdot
  have hstem : '/' ∉ stem s := fun h => hs ((stem_isPrefix_self s).subset h)
  have hdrop : '/' ∉ ext.dropWhile (· = '.') := fun h => hslash ((List.dropWhile_suffix _).subset h)
  simp [emitted, hstem, hdrop]

/-- A path has no slash, or a last segment behind the last one. -/
theorem exists_last (path : List Char) :
    '/' ∉ path ∨ ∃ x last, path = x ++ '/' :: last ∧ '/' ∉ last := by
  by_cases h : '/' ∈ path
  · obtain ⟨last, x, hpath, hlast⟩ := List.eq_append_cons_of_mem (List.mem_reverse.mpr h)
    refine .inr ⟨x.reverse, last.reverse, ?_, by simpa using hlast⟩
    rw [← List.reverse_reverse path, hpath]
    simp
  · exact .inl h

/-- If a path has settled components, so has it with another extension. -/
theorem settled_emitted (h : Settled (components path)) (hext : IsExtension ext) :
    Settled (components (emitted path ext)) := by
  rcases exists_last path with hslash | ⟨x, last, rfl, hlast⟩
  · obtain ⟨hsegment, hname⟩ := emitted_isSegment hslash hext
    have hleading := leading_of_isSegment hsegment []
    rw [List.append_nil] at hleading
    rw [components_eq, hleading, bodyComponents_of_noSlash hsegment.noSlash, hsegment.ofSegment?,
      Component.ofSegment, if_neg hname]
    exact settled_snoc_name settled_nil _
  · obtain ⟨hsegment, hname⟩ := emitted_isSegment hlast hext
    rw [components_eq, bodyComponents_append, ← List.append_assoc,
      leading_append x last (emitted last ext)] at h
    rw [emitted_append, components_eq, bodyComponents_append, ← List.append_assoc,
      bodyComponents_of_noSlash hsegment.noSlash, hsegment.ofSegment?, Component.ofSegment,
      if_neg hname]
    exact settled_snoc_name (h.of_prefix (List.prefix_append _ _)) _

/-- With another extension, the segments of a path still stand for something. -/
theorem solid_emitted (h : ∀ s ∈ splitOn '/' path, isVoid s = false) (hext : IsExtension ext) :
    ∀ s ∈ splitOn '/' (emitted path ext), isVoid s = false := by
  rcases exists_last path with hslash | ⟨x, last, rfl, hlast⟩
  · have hsegment := (emitted_isSegment hslash hext).1
    rw [splitOn_of_not_mem hsegment.noSlash]
    simpa using hsegment.solid
  · have hsegment := (emitted_isSegment hlast hext).1
    rw [emitted_append, splitOn_append, splitOn_of_not_mem hsegment.noSlash]
    rw [splitOn_append] at h
    intro s hs
    rcases List.mem_append.mp hs with hs | hs
    · exact h s (List.mem_append_left _ hs)
    · rw [List.mem_singleton.mp hs]
      exact hsegment.solid

/-! ## Taking off directories -/

/-- The path behind some directories. -/
def under (segments : List (List Char)) (rest : List Char) : List Char :=
  segments.foldr (fun s path => s ++ '/' :: path) rest

theorem nextInBody_segment (h : IsSegment s) (rest : List Char) :
    nextInBody (s ++ '/' :: rest) = some (.ofSegment s, rest) := by
  have hsolid : ¬ isVoid s = true := by simp [h.solid]
  simp only [nextInBody, splitOn_append_cons h.noSlash, List.dropWhile_cons_of_neg hsolid,
    h.ofSegment?, Option.map_some, intercalate_splitOn]

theorem stripBody_under (h : ∀ s ∈ segments, IsSegment s) (rest : List Char) :
    stripBody (segments.map Component.ofSegment) (under segments rest) = some (dropVoidEnds rest) := by
  induction segments with
  | nil => rfl
  | cons s segments ih =>
    rw [under, List.foldr_cons, List.map_cons, stripBody, nextInBody_segment (h s (by simp))]
    simp only [if_true]
    exact ih fun t ht => h t (by simp [ht])

/-- What is taken off a body is in front of it. -/
theorem prefix_of_stripBody (h : stripBody cs path = some rest) : cs <+: bodyComponents path := by
  induction cs generalizing path with
  | nil => exact List.nil_prefix
  | cons c cs ih =>
    simp only [stripBody, nextInBody] at h
    rw [bodyComponents, ← filterMap_dropWhile]
    cases hsegments : (splitOn '/' path).dropWhile isVoid with
    | nil => simp [hsegments] at h
    | cons s segments =>
      have hslash : ∀ t ∈ segments, '/' ∉ t := by
        intro t ht
        have hmem : t ∈ (splitOn '/' path).dropWhile isVoid := by simp [hsegments, ht]
        exact notMem_of_mem_splitOn ((List.dropWhile_suffix isVoid).subset hmem)
      rw [hsegments] at h
      cases hs : Component.ofSegment? s with
      | none => simp [hs] at h
      | some d =>
        simp only [hs, Option.map_some] at h
        by_cases hc : c = d
        · rw [if_pos hc] at h
          rw [List.filterMap_cons_some hs, ← hc, ← bodyComponents_intercalate hslash]
          exact List.cons_prefix_cons.mpr ⟨rfl, ih h⟩
        · simp [hc] at h

/-- A path starts with the root, with a dot of its own, or with neither. -/
theorem front_cases (path : List Char) : (∃ y, path = '/' :: y) ∨ path = ['.'] ∨
    (∃ y, path = '.' :: '/' :: y) ∨ (isAbsolute path = false ∧ startsWithDot path = false) := by
  by_cases ha : isAbsolute path = true
  · obtain ⟨y, rfl⟩ := List.head?_eq_some_iff.mp (beq_iff_eq.mp ha)
    exact .inl ⟨y, rfl⟩
  · by_cases hd : startsWithDot path = true
    · unfold startsWithDot at hd
      split at hd
      · exact .inr (.inl rfl)
      next y => exact .inr (.inr (.inl ⟨y, rfl⟩))
      · cases hd
    · exact .inr (.inr (.inr ⟨by simpa using ha, by simpa using hd⟩))

/-- The components of a path are those behind its front, after that of the front if there is one. -/
theorem components_cases (path : List Char) : (leading path = [] ∧ components path = bodyComponents path) ∨
    ∃ c, leading path = [c] ∧ components path = c :: bodyComponents (behindLeading path) := by
  rcases front_cases path with ⟨y, rfl⟩ | rfl | ⟨y, rfl⟩ | ⟨ha, hd⟩
  · exact .inr ⟨.root, rfl, congrArg (Component.root :: ·) (bodyComponents_slash y)⟩
  · exact .inr ⟨.current, rfl, rfl⟩
  · refine .inr ⟨.current, rfl, congrArg (Component.current :: ·) ?_⟩
    exact (bodyComponents_dot y).trans (bodyComponents_slash y).symm
  · have hleading : leading path = [] := by simp [leading, ha, hd]
    exact .inl ⟨hleading, by rw [components_eq, hleading, List.nil_append]⟩

/-- A directory that can be taken off a path is in front of it. -/
theorem prefix_of_strip? {base : List Char} (h : strip? base path = some rest) :
    components base <+: components path := by
  cases hbase : components base with
  | nil => exact List.nil_prefix
  | cons c cs =>
    simp only [strip?, hbase] at h
    rcases components_cases path with ⟨hleading, hcomponents⟩ | ⟨d, hleading, hcomponents⟩
    · rw [hleading] at h
      rw [hcomponents]
      exact prefix_of_stripBody h
    · rw [hleading] at h
      simp only [List.head?_cons, List.tail_cons, Option.some.injEq] at h
      by_cases hc : c = d
      · rw [if_pos hc] at h
        rw [hcomponents, hc]
        exact List.cons_prefix_cons.mpr ⟨rfl, prefix_of_stripBody h⟩
      · simp [hc] at h

/-- The slash in front of a path that is folded to an absolute one. -/
def Folded.root (f : Folded) : List Char := if f.absolute then ['/'] else []

/-- The directories that a path stands behind can be taken off, by any path with their components. -/
theorem strip?_under {base : List Char} (hf : f.Normal) (hbase : components base = f.components)
    (hne : f.components ≠ []) (rest : List Char) :
    strip? base (f.root ++ under f.segments.reverse rest) = some (dropVoidEnds rest) := by
  have hsegments : ∀ s ∈ f.segments.reverse, IsSegment s := fun s hs => hf.segments s (by simpa using hs)
  have hstrip := stripBody_under hsegments rest
  cases ha : f.absolute with
  | true =>
    have hcomponents : f.components = .root :: f.segments.reverse.map Component.ofSegment := by
      simp [Folded.components, ha]
    rw [strip?, hbase, hcomponents, Folded.root, ha]
    exact hstrip
  | false =>
    have hcomponents : f.components = f.segments.reverse.map Component.ofSegment := by
      simp [Folded.components, ha]
    have hroot : f.root = [] := by simp [Folded.root, ha]
    rw [hroot, List.nil_append, strip?, hbase, hcomponents]
    rw [hcomponents] at hne
    cases hs : f.segments.reverse with
    | nil => simp [hs] at hne
    | cons s segments =>
      have hleading : leading (under (s :: segments) rest) = [] :=
        leading_of_isSegment (hsegments s (by simp [hs])) _
      rw [hs] at hstrip
      simp only [List.map_cons, hleading] at hstrip ⊢
      exact hstrip

/-- Taking off nothing leaves a path that is the same but for its ends. -/
theorem exists_strip?_of_components_eq_nil {base : List Char} (hbase : components base = [])
    (path : List Char) : ∃ rest, strip? base path = some rest ∧
      bodyComponents rest = bodyComponents path ∧
      ((∀ s ∈ splitOn '/' path, isVoid s = false) → rest = path) := by
  simp only [strip?, hbase]
  rcases front_cases path with ⟨y, rfl⟩ | rfl | ⟨y, rfl⟩ | ⟨ha, hd⟩
  · have hsplit : splitOn '/' ('/' :: y) = [] :: splitOn '/' y := splitOn_append [] y
    refine ⟨'/' :: dropVoidEnd y, rfl, ?_, fun h => ?_⟩
    · rw [bodyComponents_slash, bodyComponents_slash, bodyComponents_dropVoidEnd]
    · exact absurd (h [] (by simp [hsplit])) (by decide)
  · exact ⟨['.'], rfl, rfl, fun _ => rfl⟩
  · have hsplit : splitOn '/' ('.' :: '/' :: y) = ['.'] :: splitOn '/' y := splitOn_append ['.'] y
    refine ⟨'.' :: dropVoidEnd ('/' :: y), rfl, ?_, fun h => ?_⟩
    · rw [bodyComponents_dot]
      rcases dropVoidEnd_slash y with hnone | hsome
      · rw [hnone, ← bodyComponents_slash y, ← bodyComponents_dropVoidEnd ('/' :: y), hnone]
        rfl
      · rw [hsome, bodyComponents_dot, bodyComponents_dropVoidEnd]
    · exact absurd (h ['.'] (by simp [hsplit])) (by decide)
  · rw [ha, hd]
    exact ⟨dropVoidEnd path, rfl, bodyComponents_dropVoidEnd path, dropVoidEnd_eq_self⟩

/-! ## Sources under a directory -/

/-- A source lies under a directory: in normal form, its path is `relative` seen from the directory. -/
structure LiesUnder (path directory relative : String) : Prop where
  nonempty : relative ≠ ""
  isRelative : isAbsolute relative.toList = false
  path_eq : (normalize path).toList = join (normalize directory).toList relative.toList

theorem exists_getLast?_intercalate (h : ∀ s ∈ segments, IsSegment s) (hne : segments ≠ []) :
    ∃ a, ((['/'] : List Char).intercalate segments).getLast? = some a ∧ a ≠ '/' := by
  induction segments with
  | nil => exact absurd rfl hne
  | cons s segments ih =>
    by_cases hsegments : segments = []
    · subst hsegments
      obtain ⟨hslash, hsolid⟩ := h s (by simp)
      have hs : s ≠ [] := by
        rintro rfl
        cases hsolid
      refine ⟨s.getLast hs, by rw [List.intercalate_singleton, List.getLast?_eq_some_getLast hs], ?_⟩
      exact fun ha => hslash (ha ▸ List.getLast_mem hs)
    · obtain ⟨a, ha, hslash⟩ := ih (fun t ht => h t (by simp [ht])) hsegments
      rw [List.intercalate_cons_of_ne_nil hsegments]
      exact ⟨a, by rw [List.getLast?_append, ha]; rfl, hslash⟩

theorem intercalate_under (hne : segments ≠ []) (rest : List Char) :
    (['/'] : List Char).intercalate segments ++ '/' :: rest = under segments rest := by
  induction segments with
  | nil => exact absurd rfl hne
  | cons s segments ih =>
    by_cases hsegments : segments = []
    · subst hsegments
      rw [List.intercalate_singleton]
      rfl
    · rw [List.intercalate_cons_of_ne_nil hsegments, List.append_assoc, ih hsegments]
      simp [under]

theorem Folded.text_eq (f : Folded) :
    f.text = f.root ++ (['/'] : List Char).intercalate f.segments.reverse := by
  cases ha : f.absolute <;> simp [Folded.text, Folded.root, ha]

theorem join_text (hf : f.Normal) {relative : List Char} (hrelative : isAbsolute relative = false) :
    join f.text relative = f.root ++ under f.segments.reverse relative := by
  by_cases hne : f.segments.reverse = []
  · rw [Folded.text_eq, hne]
    cases ha : f.absolute <;> simp [Folded.root, ha, join, hrelative, under]
  · have hsegments : ∀ s ∈ f.segments.reverse, IsSegment s :=
      fun s hs => hf.segments s (by simpa using hs)
    obtain ⟨a, ha, hslash⟩ := exists_getLast?_intercalate hsegments hne
    have hlast : f.text.getLast? = some a := by
      rw [Folded.text_eq, List.getLast?_append, ha]
      rfl
    have hjoin : join f.text relative = f.text ++ '/' :: relative := by
      unfold join
      rw [if_neg (by simp [hrelative]), hlast]
      split
      next heq => cases heq
      next heq => exact absurd (Option.some.inj heq) hslash
      next => rfl
    rw [hjoin, Folded.text_eq, List.append_assoc, intercalate_under hne]

theorem emitted_under (segments : List (List Char)) (rest ext : List Char) :
    emitted (under segments rest) ext = under segments (emitted rest ext) := by
  induction segments with
  | nil => rfl
  | cons s segments ih =>
    have h := emitted_append s (under segments rest) ext
    rw [ih] at h
    exact h

theorem emitted_root (f : Folded) (rest ext : List Char) :
    emitted (f.root ++ rest) ext = f.root ++ emitted rest ext := by
  cases ha : f.absolute with
  | true =>
    have hroot : f.root = ['/'] := by simp [Folded.root, ha]
    rw [hroot]
    exact emitted_append [] rest ext
  | false =>
    have hroot : f.root = [] := by simp [Folded.root, ha]
    rw [hroot]
    rfl

/-- What stands at the end of joined segments, behind a slash or alone, has no void segments. -/
theorem solid_of_intercalate_eq (hsegments : ∀ s ∈ segments, IsSegment s) (hrest : rest ≠ [])
    (h : (['/'] : List Char).intercalate segments = rest ∨
      ∃ x, (['/'] : List Char).intercalate segments = x ++ '/' :: rest) :
    ∀ s ∈ splitOn '/' rest, isVoid s = false := by
  have hne : segments ≠ [] := by
    rintro rfl
    rcases h with h | ⟨x, h⟩
    · exact hrest h.symm
    · simp at h
  have hsplit := splitOn_intercalate (fun s hs => (hsegments s hs).noSlash) hne
  intro s hs
  refine (hsegments s ?_).solid
  rw [← hsplit]
  rcases h with h | ⟨x, h⟩
  · rwa [h]
  · rw [h, splitOn_append]
    exact List.mem_append_right _ hs

/-- What stands behind a directory in a normal form has no void segments. -/
theorem solid_of_text_eq {g : Folded} (hg : g.Normal) (hrest : rest ≠ [])
    (hrelative : isAbsolute rest = false) (h : g.text = f.root ++ under f.segments.reverse rest) :
    ∀ s ∈ splitOn '/' rest, isVoid s = false := by
  have hsegments : ∀ s ∈ g.segments.reverse, IsSegment s := fun s hs => hg.segments s (by simpa using hs)
  refine solid_of_intercalate_eq hsegments hrest ?_
  have hbehind : f.root ++ under f.segments.reverse rest = rest ∨
      ∃ x, f.root ++ under f.segments.reverse rest = x ++ '/' :: rest := by
    by_cases hne : f.segments.reverse = []
    · rw [hne]
      cases ha : f.absolute with
      | true => exact .inr ⟨[], by simp [Folded.root, ha, under]⟩
      | false => exact .inl (by simp [Folded.root, ha, under])
    · refine .inr ⟨f.root ++ (['/'] : List Char).intercalate f.segments.reverse, ?_⟩
      rw [List.append_assoc, intercalate_under hne]
  rw [← h, Folded.text_eq] at hbehind
  cases ha : g.absolute with
  | false => simpa [Folded.root, ha] using hbehind
  | true =>
    have hroot : g.root = ['/'] := by simp [Folded.root, ha]
    rw [hroot] at hbehind
    rcases hbehind with hrest' | ⟨x, hx⟩
    · rw [← hrest'] at hrelative
      cases hrelative
    · cases x with
      | nil => exact .inl (List.cons.inj hx).2
      | cons b x => exact .inr ⟨x, (List.cons.inj hx).2⟩

theorem Folded.eq_of_components_eq_nil (h : f.components = []) :
    f.root = [] ∧ f.segments.reverse = [] := by
  cases ha : f.absolute with
  | true => simp [Folded.components, ha] at h
  | false => exact ⟨by simp [Folded.root, ha], by simpa [Folded.components, ha] using h⟩

section

variable {path directory relative ext : String}

/-- **A directory that is direct can be taken off the sources under it**, when they have another extension
already. What is left is the relative path with that extension, up to dots and slashes at its ends, which
only something else in place of an extension can have. -/
theorem exists_strip?_of_liesUnder (hdirect : IsDirect directory) (h : LiesUnder path directory relative)
    (ext : String) : ∃ rest,
      strip? directory.toList (replaceExtension (normalize path) ext).toList = some rest ∧
        bodyComponents rest = bodyComponents (replaceExtension relative ext).toList ∧
        (IsExtension ext.toList → rest = (replaceExtension relative ext).toList) := by
  have hf := fold_normal directory.toList
  have hbase : components directory.toList = (fold directory.toList).components :=
    hdirect.trans (components_normalize _)
  have hpath : (fold path.toList).text = (fold directory.toList).root ++
      under (fold directory.toList).segments.reverse relative.toList := by
    have heq := h.path_eq
    rwa [normalize, normalize, String.toList_ofList, String.toList_ofList, join_text hf h.isRelative] at heq
  have hsolid : ∀ s ∈ splitOn '/' relative.toList, isVoid s = false :=
    solid_of_text_eq (fold_normal path.toList) (by simpa using h.nonempty) h.isRelative hpath
  have hemitted : (replaceExtension (normalize path) ext).toList = (fold directory.toList).root ++
      under (fold directory.toList).segments.reverse (emitted relative.toList ext.toList) := by
    rw [replaceExtension_eq, String.toList_ofList, normalize, String.toList_ofList, hpath, emitted_root,
      emitted_under]
  rw [hemitted, replaceExtension_eq, String.toList_ofList]
  by_cases hnone : (fold directory.toList).components = []
  · -- Nothing is taken off: sources lie under the working directory as they are.
    obtain ⟨hroot, hsegments⟩ := Folded.eq_of_components_eq_nil hnone
    obtain ⟨rest, hstrip, hbody, hsame⟩ :=
      exists_strip?_of_components_eq_nil (hbase.trans hnone) (emitted relative.toList ext.toList)
    rw [hroot, hsegments]
    exact ⟨rest, hstrip, hbody, fun hext => hsame (solid_emitted hsolid hext)⟩
  · exact ⟨_, strip?_under hf hbase hnone _, bodyComponents_dropVoidEnds _,
      fun hext => dropVoidEnds_eq_self (solid_emitted hsolid hext)⟩

/-- **A directory that is not direct can be taken off no source.** -/
theorem strip?_of_not_isDirect (hdirect : ¬ IsDirect directory) (path : String)
    (hext : IsExtension ext.toList) :
    strip? directory.toList (replaceExtension (normalize path) ext).toList = none := by
  have hsettled : Settled (components (replaceExtension (normalize path) ext).toList) := by
    rw [replaceExtension_eq, String.toList_ofList]
    exact settled_emitted (settled_components_normalize path) hext
  refine Option.eq_none_iff_forall_ne_some.mpr fun rest hrest => hdirect ?_
  exact isDirect_of_settled (hsettled.of_prefix (prefix_of_strip? hrest))

end

end ApiDocs.SourcePath
