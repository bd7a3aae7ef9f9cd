import ApiDocs.Binding.DocComment
import ApiDocs.Proofs.Text.Lines

/-!
# Tags of documentation comments

A comment is some lines and then tags, each with the lines below it. Which tag a line belongs to is plain from
the text, but the reader of a comment keeps no tag: it only knows whether the last tag was one for parameters,
and goes on with whatever parameter it recorded last. So the lines below a tag that names its parameter go to
this parameter. A tag for parameters that names none records nothing, and the lines below it go to the
parameter of an earlier tag. These are the *strays*; without them each tag would be read by itself.

## Main definitions

* `DocComment.TagBlock`, `DocComment.splitTags`: a tag with the lines below it, and the tags of lines.
* `DocComment.strays`: the lines that go to a parameter of an earlier tag.
* `DocComment.entries`: what tags document, each with its lines and the strays behind it.

## Main results

* `DocComment.parameters_parse`: the parameters of a comment are the entries of its tags.
* `DocComment.parse_append`: a comment that goes on with a tag is read as its two parts, but for strays.
* `DocComment.nameless_strays`: the line below a tag without a name goes to the tag before.
-/

namespace ApiDocs.DocComment

open Text

variable {line : List Char} {lines xs ys : List (List Char)} {p : String × String}
  {ps : List (String × String)} {r : Reading}

/-! ## Texts with spaces between them -/

/-- Texts that are not empty, with a space between each two. -/
def spaced (texts : List (List Char)) : List Char := ([' '] : List Char).intercalate (texts.filter (· ≠ []))

theorem spaced_singleton (text : List Char) : spaced [text] = text := by
  by_cases h : text = [] <;> simp [spaced, h]

theorem spaced_ne_nil (h : xs.filter (· ≠ []) ≠ []) : spaced xs ≠ [] := by
  obtain ⟨x, more, hmore⟩ := List.exists_cons_of_ne_nil h
  have hx : x ∈ xs.filter (· ≠ []) := hmore ▸ List.mem_cons_self
  have hne : x ≠ [] := by simpa using (List.mem_filter.mp hx).2
  rw [spaced, hmore, intercalate_cons_flatMap]
  simp [hne]

/-- A text in front of others that are not all empty. -/
theorem spaced_cons (h : xs.filter (· ≠ []) ≠ []) (text : List Char) :
    spaced (text :: xs) = if text = [] then spaced xs else text ++ ' ' :: spaced xs := by
  obtain ⟨x, more, hmore⟩ := List.exists_cons_of_ne_nil h
  by_cases htext : text = []
  · simp [spaced, htext]
  · rw [if_neg htext, spaced, List.filter_cons_of_pos (by simpa using htext), spaced, hmore,
      List.intercalate_cons_cons, List.append_assoc]
    rfl

/-- Joining what is joined already. -/
theorem spaced_cons_spaced (xs ys : List (List Char)) : spaced (spaced xs :: ys) = spaced (xs ++ ys) := by
  by_cases h : xs.filter (· ≠ []) = []
  · have hnone : spaced xs = [] := by rw [spaced, h]; rfl
    rw [hnone, spaced, spaced, List.filter_append, h]
    simp
  · obtain ⟨x, more, hmore⟩ := List.exists_cons_of_ne_nil h
    have hne := spaced_ne_nil h
    rw [spaced, List.filter_cons_of_pos (by simpa using hne), spaced, spaced, List.filter_append, hmore,
      List.cons_append, intercalate_cons_flatMap, intercalate_cons_flatMap, intercalate_cons_flatMap,
      List.flatMap_append, List.append_assoc]

/-! ## Descriptions that go on -/

/-- A parameter whose description goes on with further lines. -/
def goesOn (lines : List (List Char)) (p : String × String) : String × String :=
  (p.1, String.ofList (spaced (p.2.toList :: lines)))

/-- Parameters of which the last goes on with further lines, if there is one. -/
def lastGoesOn (lines : List (List Char)) (ps : List (String × String)) : List (String × String) :=
  ps.dropLast ++ ps.getLast?.toList.map (goesOn lines)

theorem goesOn_nil (p : String × String) : goesOn [] p = p := by
  rw [goesOn, spaced_singleton, String.ofList_toList]

theorem goesOn_append (xs ys : List (List Char)) (p : String × String) :
    goesOn (xs ++ ys) p = goesOn ys (goesOn xs p) := by
  simp only [goesOn, String.toList_ofList, spaced_cons_spaced, List.cons_append]

theorem lastGoesOn_concat (lines : List (List Char)) (ps : List (String × String)) (p : String × String) :
    lastGoesOn lines (ps ++ [p]) = ps ++ [goesOn lines p] := by
  simp [lastGoesOn]

theorem lastGoesOn_nil (ps : List (String × String)) : lastGoesOn [] ps = ps := by
  cases ps using List.reverseRecOn with
  | nil => rfl
  | append_singleton ps p => rw [lastGoesOn_concat, goesOn_nil]

theorem lastGoesOn_append (xs ys : List (List Char)) (ps : List (String × String)) :
    lastGoesOn (xs ++ ys) ps = lastGoesOn ys (lastGoesOn xs ps) := by
  cases ps using List.reverseRecOn with
  | nil => rfl
  | append_singleton ps p => simp only [lastGoesOn_concat, goesOn_append]

/-- The reader goes on with the last parameter. -/
theorem continueLast_eq (hline : line ≠ []) (ps : List (String × String)) :
    continueLast line ps = lastGoesOn [line] ps := by
  induction ps with
  | nil => rfl
  | cons p ps ih =>
    cases ps with
    | nil =>
      obtain ⟨name, description⟩ := p
      rw [← List.nil_append [(name, description)], lastGoesOn_concat, goesOn,
        spaced_cons (by simpa using hline), spaced_singleton]
      by_cases hd : description = ""
      · simp [continueLast, hd]
      · have hne : description.toList ≠ [] := by simpa using hd
        have htext : description ++ " " ++ String.ofList line =
            String.ofList (description.toList ++ ' ' :: line) := by
          apply String.toList_injective
          simp
        simp [continueLast, hd, hne, htext]
    | cons q ps =>
      rw [continueLast, ih]
      · simp [lastGoesOn]
      · exact nofun

/-! ## Tags -/

/-- A tag with the lines below it, up to the next tag. -/
structure TagBlock where
  /-- The tag, behind its sign. -/
  text : List Char
  lines : List (List Char)
  deriving DecidableEq, Repr

/-- The lines before the first tag, and the tags. -/
def splitTags : List (List Char) → List (List Char) × List TagBlock
  | [] => ([], [])
  | ('@' :: text) :: lines => ([], ⟨text, (splitTags lines).1⟩ :: (splitTags lines).2)
  | line :: lines => (line :: (splitTags lines).1, (splitTags lines).2)

/-- The tags of a comment. -/
def tags (raw : String) : List TagBlock := (splitTags (contentLines raw)).2

namespace TagBlock

/-- Is the tag one for parameters? -/
def isParameter (b : TagBlock) : Bool := (splitBlank b.text).1 == "param".toList

/-- The parameter that the tag names, with the description on the line of the tag. -/
def parameter? (b : TagBlock) : Option (String × String) :=
  if b.isParameter then parameterOf? (trim ((splitBlank b.text).2.getD [])) else none

/-- The lines that go on with a description. -/
def continuation (b : TagBlock) : List (List Char) :=
  if b.isParameter then b.lines.filter (· ≠ []) else []

end TagBlock

/-- The lines of tags that go on with a parameter from before: those below tags that are for parameters and
name none, up to the first tag that names one. -/
def strays : List TagBlock → List (List Char)
  | [] => []
  | b :: bs =>
    match b.parameter? with
    | some _ => []
    | none => b.continuation ++ strays bs

/-- What tags document: the parameters that they name, each with the lines below and the strays behind. -/
def entries : List TagBlock → List (String × String)
  | [] => []
  | b :: bs => (b.parameter?.map (goesOn (b.continuation ++ strays bs))).toList ++ entries bs

/-! ## Reading -/

/-- The lines of a text without tags that a reader still goes on with. -/
def Reading.pending (r : Reading) (lines : List (List Char)) : List (List Char) :=
  if r.current = .parameter then lines.filter (· ≠ []) else []

theorem Reading.line_tag (r : Reading) (text : List Char) : r.line ('@' :: text) = r.tag text := rfl

/-- A tag ends what was read before it, and records the parameter that it names. -/
theorem Reading.tag_eq (r : Reading) (text : List Char) (lines : List (List Char)) :
    (r.tag text).summary = r.summary ∧ (r.tag text).current ≠ .summary ∧
      (r.tag text).parameters = r.parameters ++ (TagBlock.mk text lines).parameter?.toList ∧
      (r.tag text).pending lines = (TagBlock.mk text lines).continuation := by
  unfold Reading.tag TagBlock.parameter? TagBlock.continuation TagBlock.isParameter Reading.pending
  by_cases h : ((splitBlank text).1 == "param".toList) = true
  · simp only [if_pos h]
    exact ⟨trivial, nofun, trivial, rfl⟩
  · simp only [if_neg h]
    exact ⟨trivial, nofun, (List.append_nil _).symm, rfl⟩

/-- A line without a tag goes to the summary, to the last parameter, or nowhere. -/
theorem Reading.line_text (hline : ∀ text, line ≠ '@' :: text) (r : Reading) :
    (r.line line).current = r.current ∧
      (r.line line).summary = r.summary ++ (if r.current = .summary then [line] else []) ∧
      (r.line line).parameters = lastGoesOn (r.pending [line]) r.parameters := by
  unfold Reading.line Reading.pending
  split
  next text => exact absurd rfl (hline text)
  next hcurrent => simp [hcurrent, lastGoesOn_nil]
  next hother =>
    have hcurrent : r.current ≠ .summary := hother
    simp [hcurrent, lastGoesOn_nil]
  next cs _ _ _ hempty hcurrent =>
    have hne : cs ≠ [] := hempty
    simp [hcurrent, hne, continueLast_eq hne]
  next hcurrent => simp [hcurrent, lastGoesOn_nil]

theorem splitTags_text (hline : ∀ text, line ≠ '@' :: text) (lines : List (List Char)) :
    splitTags (line :: lines) = (line :: (splitTags lines).1, (splitTags lines).2) := by
  rw [splitTags]
  exact hline

/-- **Lines are read tag by tag**, apart from strays: those of the first tags go to what was read before. -/
theorem foldl_line (lines : List (List Char)) (r : Reading) :
    (lines.foldl Reading.line r).summary =
        r.summary ++ (if r.current = .summary then (splitTags lines).1 else []) ∧
      (lines.foldl Reading.line r).parameters =
        lastGoesOn (r.pending (splitTags lines).1 ++ strays (splitTags lines).2) r.parameters ++
          entries (splitTags lines).2 := by
  induction lines generalizing r with
  | nil => simp [splitTags, Reading.pending, strays, entries, lastGoesOn_nil]
  | cons line lines ih =>
    rw [List.foldl_cons]
    by_cases htag : ∃ text, line = '@' :: text
    · obtain ⟨text, rfl⟩ := htag
      obtain ⟨hsummary, hcurrent, hparameters, hpending⟩ := r.tag_eq text (splitTags lines).1
      obtain ⟨ihsummary, ihparameters⟩ := ih (r.tag text)
      have hnone : r.pending [] = [] := by simp [Reading.pending]
      rw [Reading.line_tag, splitTags, ihsummary, ihparameters, hsummary, hparameters, hpending, hnone,
        strays, entries, List.nil_append, if_neg hcurrent]
      refine ⟨by simp, ?_⟩
      cases hnamed : (TagBlock.mk text (splitTags lines).1).parameter? with
      | none => simp
      | some p => simp [lastGoesOn_concat, lastGoesOn_nil]
    · have hline : ∀ text, line ≠ '@' :: text := fun text h => htag ⟨text, h⟩
      obtain ⟨hcurrent, hsummary, hparameters⟩ := r.line_text hline
      obtain ⟨ihsummary, ihparameters⟩ := ih (r.line line)
      have hpending : r.pending (line :: (splitTags lines).1) =
          r.pending [line] ++ (r.line line).pending (splitTags lines).1 := by
        by_cases hparameter : r.current = .parameter <;>
          simp [Reading.pending, hcurrent, hparameter, List.filter_cons]
        split <;> rfl
      rw [ihsummary, ihparameters, hcurrent, hsummary, hparameters, splitTags_text hline, hpending,
        List.append_assoc, List.append_assoc, lastGoesOn_append (r.pending [line])]
      refine ⟨?_, rfl⟩
      by_cases hfront : r.current = .summary <;> simp [hfront]

/-! ## Comments -/

theorem summary_parse (raw : String) :
    (parse raw).summary = composeSummary ((contentLines raw).foldl Reading.line {}).summary := by
  rw [parse]

theorem parameters_eq_foldl (raw : String) :
    (parse raw).parameters = ((contentLines raw).foldl Reading.line {}).parameters := rfl

/-- **The parameters of a comment are the entries of its tags.** -/
theorem parameters_parse (raw : String) : (parse raw).parameters = entries (tags raw) := by
  rw [parameters_eq_foldl, (foldl_line (contentLines raw) {}).2]
  rfl

theorem undecorate_dropReturn (line : List Char) : undecorate (dropReturn line) = undecorate line := by
  rw [undecorate, undecorate, trim_dropReturn]

/-- A comment that goes on in a new line has the lines of both parts, and maybe an empty one between. -/
theorem exists_contentLines_append (a b : String) : ∃ more, (more = [] ∨ more = [[]]) ∧
    contentLines (a ++ "\n" ++ b) = contentLines a ++ more ++ contentLines b := by
  obtain ⟨more, hmore, hpieces⟩ := exists_map_splitOn undecorate_dropReturn a.toList
  refine ⟨more, hmore, ?_⟩
  have htext : (a ++ "\n" ++ b).toList = a.toList ++ '\n' :: b.toList := by simp
  rw [contentLines, htext, lines_append, List.map_append, map_dropReturn undecorate_dropReturn, hpieces]
  rfl

/-- An empty line at the end does not change the summary. -/
theorem composeSummary_blank (lines : List (List Char)) :
    composeSummary (lines ++ [[]]) = composeSummary lines := by
  have htrim : trim ((['\n'] : List Char).intercalate (lines ++ [[]])) =
      trim ((['\n'] : List Char).intercalate lines) := by
    cases lines with
    | nil => rfl
    | cons first more =>
      rw [List.cons_append, intercalate_cons_flatMap, intercalate_cons_flatMap, List.flatMap_append,
        ← List.append_assoc]
      exact trim_append_right (List.forall_mem_singleton.mpr (by decide)) _
  rw [composeSummary, composeSummary, htrim]

/-- An empty line at the end changes nothing. -/
theorem foldl_line_blank {more : List (List Char)} (hmore : more = [] ∨ more = [[]]) (lines : List (List Char)) :
    composeSummary ((lines ++ more).foldl Reading.line {}).summary =
        composeSummary (lines.foldl Reading.line {}).summary ∧
      ((lines ++ more).foldl Reading.line {}).parameters = (lines.foldl Reading.line {}).parameters := by
  rcases hmore with rfl | rfl
  · rw [List.append_nil]
    exact ⟨rfl, rfl⟩
  · rw [List.foldl_append, List.foldl_cons, List.foldl_nil]
    generalize lines.foldl Reading.line {} = r
    have hnoTag : ∀ text : List Char, [] ≠ '@' :: text := nofun
    obtain ⟨-, hsummary, hparameters⟩ := r.line_text hnoTag
    have hnone : r.pending [[]] = [] := by simp [Reading.pending]
    rw [hsummary, hparameters, hnone, lastGoesOn_nil]
    refine ⟨?_, rfl⟩
    by_cases hcurrent : r.current = .summary
    · rw [if_pos hcurrent, composeSummary_blank]
    · rw [if_neg hcurrent, List.append_nil]

/-- Strays are not empty. -/
theorem ne_nil_of_mem_strays {bs : List TagBlock} (h : line ∈ strays bs) : line ≠ [] := by
  induction bs with
  | nil => cases h
  | cons b bs ih =>
    rw [strays] at h
    split at h
    · cases h
    · rcases List.mem_append.mp h with h | h
      · unfold TagBlock.continuation at h
        split at h
        · simpa using (List.mem_filter.mp h).2
        · cases h
      · exact ih h

/-- Going on with lines that are not empty changes the last parameter. -/
theorem lastGoesOn_eq_self_iff (hlines : ∀ line ∈ lines, line ≠ []) :
    lastGoesOn lines ps = ps ↔ ps = [] ∨ lines = [] := by
  cases ps using List.reverseRecOn with
  | nil => simp [lastGoesOn]
  | append_singleton ps p =>
    constructor
    · intro h
      refine .inr (by_contra fun hne => ?_)
      have hfilter : lines.filter (· ≠ []) = lines := List.filter_eq_self.mpr (by simpa using hlines)
      have hsome : lines.filter (· ≠ []) ≠ [] := hfilter.symm ▸ hne
      rw [lastGoesOn_concat] at h
      have hp : goesOn lines p = p := by simpa using h
      have htext : spaced (p.2.toList :: lines) = p.2.toList := by
        rw [← String.toList_ofList (l := spaced _)]
        exact congrArg (fun q => q.2.toList) hp
      rw [spaced_cons hsome] at htext
      split at htext
      next hempty => exact spaced_ne_nil hsome (htext.trans hempty)
      next => simp at htext
    · rintro (h | rfl)
      · simp at h
      · exact lastGoesOn_nil _

/-- **A comment that goes on with a tag is read as its two parts, but for strays.** Let `b` start with a tag.
Then `a` with `b` below it has the summary of `a`, and its parameters are those of `a`, of which the last
goes on with the strays of `b`, and then those of `b`. So they are those of the two parts just if `a` has none
or `b` has no strays. Each parameter is described by the line of its tag, the lines below this tag up to
the next one, and the strays behind, and by nothing else. -/
theorem parse_append (a : String) {b : String} {text : List Char}
    (h : (contentLines b).head? = some ('@' :: text)) :
    (parse (a ++ "\n" ++ b)).summary = (parse a).summary ∧
    (parse (a ++ "\n" ++ b)).parameters =
      lastGoesOn (strays (tags b)) (parse a).parameters ++ (parse b).parameters ∧
    ((parse (a ++ "\n" ++ b)).parameters = (parse a).parameters ++ (parse b).parameters ↔
      (parse a).parameters = [] ∨ strays (tags b) = []) ∧
    ∀ raw, (parse raw).parameters = entries (tags raw) := by
  obtain ⟨more, hmore, hlines⟩ := exists_contentLines_append a b
  obtain ⟨hsummary, hparameters⟩ := foldl_line_blank hmore (contentLines a)
  obtain ⟨rest, hrest⟩ := List.head?_eq_some_iff.mp h
  have hfront : (splitTags (contentLines b)).1 = [] := by rw [hrest, splitTags]
  have hread := foldl_line (contentLines b) ((contentLines a ++ more).foldl Reading.line {})
  rw [hfront, ite_self, List.append_nil, ← List.foldl_append, ← hlines, hparameters] at hread
  have hwhole : (parse (a ++ "\n" ++ b)).parameters =
      lastGoesOn (strays (tags b)) (parse a).parameters ++ (parse b).parameters := by
    have hnone (r : Reading) : r.pending [] = [] := by simp [Reading.pending]
    rw [parameters_parse b, ← List.nil_append (strays _), ← hnone]
    exact hread.2
  refine ⟨?_, hwhole, ?_, parameters_parse⟩
  · rw [summary_parse, summary_parse, hread.1, hsummary]
  · rw [hwhole, List.append_left_inj]
    exact lastGoesOn_eq_self_iff fun line => ne_nil_of_mem_strays

/-- Two tags are read one by one. -/
theorem twoTags_parse : (contentLines "* @param dy - up\n*   or down").head? = some "@param dy - up".toList ∧
    (parse ("* Moves.\n* @param dx - right" ++ "\n" ++ "* @param dy - up\n*   or down")).parameters =
      [("dx", "right"), ("dy", "up or down")] := by
  have hfirst : (contentLines "* @param dy - up\n*   or down").head? = some "@param dy - up".toList := by decide
  obtain ⟨-, -, hparts, -⟩ := parse_append "* Moves.\n* @param dx - right" hfirst
  exact ⟨hfirst, (hparts.mpr (.inr (by decide))).trans (by decide)⟩

/-- **The line below a tag without a name goes to the tag before.** -/
theorem nameless_strays : (contentLines "@param\nmore").head? = some "@param".toList ∧
    (parse ("@param x one" ++ "\n" ++ "@param\nmore")).parameters = [("x", "one more")] ∧
    (parse "@param x one").parameters ++ (parse "@param\nmore").parameters = [("x", "one")] := by
  decide

end ApiDocs.DocComment
