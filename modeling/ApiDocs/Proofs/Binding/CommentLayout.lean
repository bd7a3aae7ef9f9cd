import ApiDocs.Proofs.Binding.DocComments
import ApiDocs.Text.NamePart

/-!
# The layout of documentation comments

A comment is usually laid out with a star in front of each line: the lines of a summary, maybe an empty line,
and a tag for each parameter, its description behind a dash and on further lines. Reading takes off the stars,
the dash and the blanks around them, and nothing of the texts: a summary may have lines that start with a star
or a dash, and a description may start with a sign or a star. Only what looks like a tag at the start of a
line, or like the dash at the start of a description, is not taken for text.

## Main definitions

* `DocComment.ParameterNote`: a parameter with the lines of its description.
* `DocComment.layout`: a comment as it is laid out.
* `DocComment.delimited`: a text as it stands between the delimiters of a comment.

## Main results

* `DocComment.parse_delimited`: what the delimiters leave around a text does not count.
* `DocComment.parse_layout`: reading a comment gives back what was laid out.
-/

namespace ApiDocs

open Text

namespace Text

variable {c : Char} {word cs : List Char}

/-! ## Words -/

/-- The text before and behind the first blank. -/
theorem splitBlank_append (hword : ∀ c ∈ word, isBlank c = false) (hc : isBlank c = true)
    (rest : List Char) : splitBlank (word ++ c :: rest) = (word, some rest) := by
  have hsolid : ∀ a ∈ word, (!isBlank a) = true := by simpa using hword
  have hdrop : (word ++ c :: rest).dropWhile (fun a => !isBlank a) = c :: rest := by
    rw [List.dropWhile_append_of_pos hsolid, List.dropWhile_cons_of_neg (by simp [hc])]
  have htake : (word ++ c :: rest).takeWhile (fun a => !isBlank a) = word := by
    rw [List.takeWhile_append_of_pos hsolid, List.takeWhile_cons_of_neg (by simp [hc]), List.append_nil]
  rw [splitBlank, hdrop, htake]

/-- The code points of blanks. -/
def blankCodes : List Nat := [0x09, 0x0A, 0x0B, 0x0C, 0x0D, 0x20, 0x85, 0xA0, 0x1680, 0x2000, 0x2001, 0x2002,
  0x2003, 0x2004, 0x2005, 0x2006, 0x2007, 0x2008, 0x2009, 0x200A, 0x2028, 0x2029, 0x202F, 0x205F, 0x3000]

theorem mem_blankCodes (h : isBlank c = true) : c.toNat ∈ blankCodes := by
  simp only [isBlank, Bool.or_eq_true, Bool.and_eq_true, decide_eq_true_eq, beq_iff_eq] at h
  simp only [blankCodes, List.mem_cons, List.not_mem_nil, or_false]
  omega

/-- No blank stands in a name. -/
theorem isBlank_of_isNamePart (h : isNamePart c = true) : isBlank c = false := by
  rw [← Bool.not_eq_true]
  intro hblank
  have hnone : blankCodes.all (fun n => !isNamePart (Char.ofNat n)) = true := by decide +kernel
  have hc := List.all_eq_true.mp hnone _ (mem_blankCodes hblank)
  simp [h] at hc

/-- A name has no sign that the reader of a tag takes off. -/
theorem not_sign_of_isNamePart (h : isNamePart c = true) : c ∉ ['[', ']', '=', '\x7b'] := by
  intro hsign
  have hnone : ['[', ']', '=', '\x7b'].all (fun c => !isNamePart c) = true := by decide
  simpa [h] using List.all_eq_true.mp hnone c hsign

end Text

namespace DocComment

variable {line name first cs : List Char} {more xs ys : List (List Char)}

/-! ## Decoration -/

/-- **The star in front of a line is taken off, and nothing of the line.** -/
theorem undecorate_star (line : List Char) : undecorate (" * ".toList ++ line) = trim line := by
  have hspace : ∀ c ∈ [' '], isBlank c = true := List.forall_mem_singleton.mpr (by decide)
  have hstar : trim (" * ".toList ++ line) = '*' :: trimEnd (' ' :: line) :=
    (trim_append_left hspace _).trans (trim_cons (by decide) _)
  have hstrip : stripStart? ['*'] ('*' :: trimEnd (' ' :: line)) = some (trimEnd (' ' :: line)) := by
    simp [stripStart?]
  rw [undecorate, hstar, hstrip, Option.getD_some, trim_trimEnd]
  exact trim_append_left hspace line

/-! ## Tags for parameters -/

theorem dropWhile_eq_self {p : Char → Bool} (h : ∀ c ∈ cs, p c = false) : cs.dropWhile p = cs :=
  List.dropWhile_eq_self_iff.mpr fun hlt => by simp [h _ (List.getElem_mem hlt)]

/-- A name without brackets and default is the name of its parameter. -/
theorem parameterName_eq_self (h : ∀ c ∈ name, c ∉ ['[', ']', '=', '\x7b']) : parameterName name = name := by
  have hbracket : ∀ c ∈ name, (c == '[' || c == ']') = false := by
    intro c hc
    have hsign := h c hc
    simp_all
  have hdefault : ∀ c ∈ name, decide (c ≠ '=') = true := by
    intro c hc
    have hsign := h c hc
    simp_all
  simp only [parameterName]
  rw [dropWhile_eq_self hbracket, dropWhile_eq_self fun c hc => hbracket c (List.mem_reverse.mp hc),
    List.reverse_reverse]
  exact List.takeWhile_eq_self_iff.mpr hdefault

theorem skipDashes_dash (h : ¬ "- ".toList <+: first) : skipDashes ("- ".toList ++ first) = first := by
  have hself : skipDashes first = first := by
    unfold skipDashes
    split
    next rest => exact absurd ⟨rest, rfl⟩ h
    next => rfl
  exact hself

/-- A text that is a name, a dash and a description. -/
structure IsPayload (name first : List Char) : Prop where
  name_ne_nil : name ≠ []
  name_parts : ∀ c ∈ name, isNamePart c = true
  first_ne_nil : first ≠ []
  first_trimmed : IsTrimmed first
  first_noDash : ¬ "- ".toList <+: first

theorem IsPayload.name_trimmed (h : IsPayload name first) : IsTrimmed name :=
  isTrimmed_of_solid fun c hc => isBlank_of_isNamePart (h.name_parts c hc)

theorem IsPayload.trimmed (h : IsPayload name first) : trim (name ++ " - ".toList ++ first) =
    name ++ " - ".toList ++ first :=
  h.name_trimmed.append h.first_trimmed h.name_ne_nil h.first_ne_nil _

/-- **A name, a dash and a description are read as this parameter with this description.** -/
theorem IsPayload.parameterOf? (h : IsPayload name first) :
    parameterOf? (name ++ " - ".toList ++ first) = some (String.ofList name, String.ofList first) := by
  obtain ⟨c, cs, hname⟩ := List.exists_cons_of_ne_nil h.name_ne_nil
  have hsign : ∀ c ∈ name, c ∉ ['[', ']', '=', '\x7b'] := fun c hc => not_sign_of_isNamePart (h.name_parts c hc)
  have hskip : skipType (name ++ " - ".toList ++ first) = name ++ " - ".toList ++ first := by
    rw [skipType, h.trimmed]
    split
    next rest heq =>
      rw [hname] at heq
      have hc := hsign c (by simp [hname])
      simp [(List.cons.inj heq).1] at hc
    next => rfl
  have hsplit : splitBlank (name ++ " - ".toList ++ first) = (name, some ("- ".toList ++ first)) := by
    have hsolid : ∀ c ∈ name, isBlank c = false := fun c hc => isBlank_of_isNamePart (h.name_parts c hc)
    rw [List.append_assoc]
    exact splitBlank_append hsolid (by decide) _
  have hwritten : parameterName (trim name) = c :: cs := by
    rw [h.name_trimmed, parameterName_eq_self hsign, hname]
  have hdash : trim ("- ".toList ++ first) = "- ".toList ++ first := by
    have hdashed : IsTrimmed (['-'] ++ [' '] ++ first) :=
      IsTrimmed.append (by decide) h.first_trimmed (by decide) h.first_ne_nil [' ']
    exact hdashed
  rw [DocComment.parameterOf?, hskip, hsplit]
  simp only [hwritten, Option.getD_some, hdash, skipDashes_dash h.first_noDash]
  rw [h.first_trimmed, hname]

/-- The tag of a parameter, with the lines below it. -/
def noteBlock (name first : List Char) (more : List (List Char)) : TagBlock :=
  ⟨"param ".toList ++ (name ++ " - ".toList ++ first), more⟩

/-- A tag that is laid out names its parameter, and goes on with the lines below it. -/
theorem noteBlock_reads (h : IsPayload name first) (hmore : ∀ line ∈ more, line ≠ []) :
    (noteBlock name first more).parameter? = some (String.ofList name, String.ofList first) ∧
      (noteBlock name first more).continuation = more := by
  have hletters : ∀ c ∈ "param".toList, isNamePart c = true := List.all_eq_true.mp (by decide)
  have hparam : ∀ c ∈ "param".toList, isBlank c = false := fun c hc => isBlank_of_isNamePart (hletters c hc)
  have hsplit : splitBlank (noteBlock name first more).text =
      ("param".toList, some (name ++ " - ".toList ++ first)) :=
    splitBlank_append (c := ' ') hparam (by decide) _
  have hparameter : (noteBlock name first more).isParameter = true := by
    rw [TagBlock.isParameter, hsplit]
    rfl
  rw [TagBlock.parameter?, TagBlock.continuation, if_pos hparameter, if_pos hparameter, hsplit,
    Option.getD_some, h.trimmed, h.parameterOf?]
  have hall : ∀ line ∈ more, decide (line ≠ []) = true := by simpa using hmore
  exact ⟨rfl, List.filter_eq_self.mpr hall⟩

/-! ## Lines of a comment -/

/-- A text on one line, without blanks at its ends. -/
structure IsLine (line : String) : Prop where
  unbroken : '\n' ∉ line.toList
  trimmed : IsTrimmed line.toList

instance (line : String) : Decidable (IsLine line) :=
  decidable_of_iff ('\n' ∉ line.toList ∧ IsTrimmed line.toList)
    ⟨fun ⟨hbreak, htrim⟩ => ⟨hbreak, htrim⟩, fun ⟨hbreak, htrim⟩ => ⟨hbreak, htrim⟩⟩

/-- A parameter as it is documented: its name, and the lines of its description. -/
structure ParameterNote where
  name : String
  first : String
  more : List String := []
  deriving DecidableEq, Repr

namespace ParameterNote

/-- The name has characters of identifiers, the lines are not empty, and none is taken for a dash or a tag. -/
structure Canonical (p : ParameterNote) : Prop where
  name_nonempty : p.name ≠ ""
  name_parts : ∀ c ∈ p.name.toList, isNamePart c = true
  first_line : IsLine p.first ∧ p.first ≠ ""
  first_noDash : ¬ "- ".toList <+: p.first.toList
  more_line : ∀ line ∈ p.more, IsLine line ∧ line ≠ "" ∧ ¬ "@".toList <+: line.toList

instance (p : ParameterNote) : Decidable p.Canonical :=
  decidable_of_iff
    (p.name ≠ "" ∧ p.name.toList.all isNamePart = true ∧ (IsLine p.first ∧ p.first ≠ "") ∧
      ¬ "- ".toList <+: p.first.toList ∧
      ∀ line ∈ p.more, IsLine line ∧ line ≠ "" ∧ ¬ "@".toList <+: line.toList)
    ⟨fun ⟨h₁, h₂, h₃, h₄, h₅⟩ => ⟨h₁, List.all_eq_true.mp h₂, h₃, h₄, h₅⟩,
      fun ⟨h₁, h₂, h₃, h₄, h₅⟩ => ⟨h₁, List.all_eq_true.mpr h₂, h₃, h₄, h₅⟩⟩

/-- The lines of the tag. -/
def lines (p : ParameterNote) : List String := ("@param " ++ p.name ++ " - " ++ p.first) :: p.more

/-- The description: its lines with a space between each two. -/
def description (p : ParameterNote) : String := " ".intercalate (p.first :: p.more)

/-- What is read for the parameter. -/
def entry (p : ParameterNote) : String × String := (p.name, p.description)

/-- The tag, behind its sign, with the lines below it. -/
def block (p : ParameterNote) : TagBlock :=
  noteBlock p.name.toList p.first.toList (p.more.map String.toList)

end ParameterNote

/-- Lines of a summary: none is a tag, and neither the first nor the last is empty. -/
structure IsSummary (summary : List String) : Prop where
  line : ∀ line ∈ summary, IsLine line ∧ ¬ "@".toList <+: line.toList
  first : summary.head? ≠ some ""
  last : summary.getLast? ≠ some ""

instance (summary : List String) : Decidable (IsSummary summary) :=
  decidable_of_iff
    ((∀ line ∈ summary, IsLine line ∧ ¬ "@".toList <+: line.toList) ∧
      summary.head? ≠ some "" ∧ summary.getLast? ≠ some "")
    ⟨fun ⟨h₁, h₂, h₃⟩ => ⟨h₁, h₂, h₃⟩, fun ⟨h₁, h₂, h₃⟩ => ⟨h₁, h₂, h₃⟩⟩

/-- The lines of a comment: those of the summary, maybe an empty one, and those of the parameters. -/
def layoutLines (summary : List String) (blank : Bool) (parameters : List ParameterNote) : List String :=
  summary ++ (if blank then [""] else []) ++ parameters.flatMap ParameterNote.lines

/-- A comment as it is laid out, with a star in front of each line. -/
def layout (summary : List String) (blank : Bool) (parameters : List ParameterNote) : String :=
  "\n".intercalate ((layoutLines summary blank parameters).map (" * " ++ ·))

variable {summary : List String} {p : ParameterNote} {parameters : List ParameterNote} {blank : Bool}

theorem ParameterNote.Canonical.isPayload (h : p.Canonical) : IsPayload p.name.toList p.first.toList where
  name_ne_nil := by simpa using h.name_nonempty
  name_parts := h.name_parts
  first_ne_nil := by simpa using h.first_line.2
  first_trimmed := h.first_line.1.trimmed
  first_noDash := h.first_noDash

/-- The line of the tag is one line, too. -/
theorem ParameterNote.Canonical.isLine (h : p.Canonical) : ∀ line ∈ p.lines, IsLine line := by
  have htext : ("@param " ++ p.name ++ " - " ++ p.first).toList =
      "@param ".toList ++ (p.name.toList ++ " - ".toList ++ p.first.toList) := by
    simp
  intro line hline
  rcases List.mem_cons.mp hline with rfl | hmore
  · constructor
    · have hname : '\n' ∉ p.name.toList := by
        intro hmem
        exact absurd (isBlank_of_isNamePart (h.name_parts _ hmem)) (by decide)
      simp [htext, hname, h.first_line.1.unbroken]
    · rw [htext]
      have hsign : IsTrimmed "@param".toList := by decide
      exact hsign.append h.isPayload.trimmed (by decide) (by simp) [' ']
  · exact (h.more_line line hmore).1

theorem isLine_of_mem_layoutLines (hsummary : IsSummary summary) (hparameters : ∀ p ∈ parameters, p.Canonical)
    (blank : Bool) : ∀ line ∈ layoutLines summary blank parameters, IsLine line := by
  intro line hline
  rcases List.mem_append.mp hline with hline | hline
  · rcases List.mem_append.mp hline with hline | hline
    · exact (hsummary.line line hline).1
    · have hempty : line = "" := by cases blank <;> simp_all
      rw [hempty]
      exact ⟨by decide, by decide⟩
  · obtain ⟨p, hp, hline⟩ := List.mem_flatMap.mp hline
    exact (hparameters p hp).isLine line hline

/-- **The lines that are read are those that were laid out.** -/
theorem contentLines_layout (hsummary : IsSummary summary) (hparameters : ∀ p ∈ parameters, p.Canonical)
    (blank : Bool) : contentLines (layout summary blank parameters) =
      (layoutLines summary blank parameters).map String.toList := by
  have hlines := isLine_of_mem_layoutLines hsummary hparameters blank
  have htext : (layout summary blank parameters).toList = (['\n'] : List Char).intercalate
      ((layoutLines summary blank parameters).map fun line => " * ".toList ++ line.toList) := by
    simp [layout, String.toList_intercalate, Function.comp_def]
  rw [contentLines, htext, map_lines_intercalate undecorate_dropReturn]
  · rw [List.map_map]
    refine List.map_congr_left fun line hline => ?_
    exact (undecorate_star line.toList).trans (hlines line hline).trimmed
  · intro text htext
    obtain ⟨line, -, rfl⟩ := List.mem_map.mp htext
    simp
  · intro text htext
    obtain ⟨line, hline, rfl⟩ := List.mem_map.mp htext
    simp [(hlines line hline).unbroken]

/-! ## Tags of a comment -/

theorem splitTags_append (hxs : ∀ line ∈ xs, ¬ "@".toList <+: line) (ys : List (List Char)) :
    splitTags (xs ++ ys) = (xs ++ (splitTags ys).1, (splitTags ys).2) := by
  induction xs with
  | nil => rfl
  | cons line xs ih =>
    have hline : ∀ text, line ≠ '@' :: text := by
      rintro text rfl
      exact hxs _ (by simp) ⟨text, rfl⟩
    rw [List.cons_append, splitTags_text hline, ih fun l hl => hxs l (by simp [hl])]
    rfl

theorem splitTags_notes (hparameters : ∀ p ∈ parameters, p.Canonical) :
    splitTags ((parameters.flatMap ParameterNote.lines).map String.toList) =
      ([], parameters.map ParameterNote.block) := by
  induction parameters with
  | nil => rfl
  | cons p parameters ih =>
    have hmore : ∀ line ∈ p.more.map String.toList, ¬ "@".toList <+: line := by
      intro line hline
      obtain ⟨text, htext, rfl⟩ := List.mem_map.mp hline
      exact ((hparameters p (by simp)).more_line text htext).2.2
    have htag : ("@param " ++ p.name ++ " - " ++ p.first).toList =
        '@' :: ("param ".toList ++ (p.name.toList ++ " - ".toList ++ p.first.toList)) := by
      simp
    rw [List.flatMap_cons, List.map_append, ParameterNote.lines, List.map_cons, List.cons_append, htag,
      splitTags, splitTags_append hmore, ih fun q hq => hparameters q (by simp [hq]), List.append_nil]
    rfl

/-- Texts that are not empty are joined with their spaces. -/
theorem ofList_spaced {texts : List String} (h : ∀ text ∈ texts, text ≠ "") :
    String.ofList (spaced (texts.map String.toList)) = " ".intercalate texts := by
  have hall : ∀ text ∈ texts.map String.toList, decide (text ≠ []) = true := by simpa using h
  rw [spaced, List.filter_eq_self.mpr hall]
  apply String.toList_injective
  rw [String.toList_ofList, String.toList_intercalate]
  rfl

/-- Tags that are laid out leave no strays, and document what was laid out. -/
theorem entries_notes (hparameters : ∀ p ∈ parameters, p.Canonical) :
    strays (parameters.map ParameterNote.block) = [] ∧
      entries (parameters.map ParameterNote.block) = parameters.map ParameterNote.entry := by
  induction parameters with
  | nil => exact ⟨rfl, rfl⟩
  | cons p parameters ih =>
    obtain ⟨hstrays, hentries⟩ := ih fun q hq => hparameters q (by simp [hq])
    have hp := hparameters p (by simp)
    have hmore : ∀ line ∈ p.more.map String.toList, line ≠ [] := by
      intro line hline
      obtain ⟨text, htext, rfl⟩ := List.mem_map.mp hline
      simpa using (hp.more_line text htext).2.1
    obtain ⟨hnamed, hcontinuation⟩ := noteBlock_reads hp.isPayload hmore
    have hentry : goesOn (p.more.map String.toList)
        (String.ofList p.name.toList, String.ofList p.first.toList) = p.entry := by
      have htexts : ∀ text ∈ p.first :: p.more, text ≠ "" :=
        List.forall_mem_cons.mpr ⟨hp.first_line.2, fun text htext => (hp.more_line text htext).2.1⟩
      rw [goesOn, String.ofList_toList, String.toList_ofList, ← List.map_cons, ofList_spaced htexts]
      rfl
    rw [List.map_cons, List.map_cons, strays, entries, ParameterNote.block, hnamed, hcontinuation, hstrays,
      hentries, List.append_nil, Option.map_some, hentry]
    exact ⟨rfl, rfl⟩

/-! ## Delimiters -/

/-- A text as it stands between the delimiters of a comment. The second star of the opening delimiter and the
blank in front of the closing one are on lines of their own. -/
def delimited (raw : String) : String := "*\n" ++ raw ++ "\n "

theorem composeSummary_front (lines : List (List Char)) :
    composeSummary ([] :: lines) = composeSummary lines := by
  cases lines with
  | nil => rfl
  | cons first more =>
    have htext : (['\n'] : List Char).intercalate ([] :: first :: more) =
        ['\n'] ++ (['\n'] : List Char).intercalate (first :: more) := by
      rw [List.intercalate_cons_cons, List.nil_append]
    rw [composeSummary, composeSummary, htext, trim_append_left (List.forall_mem_singleton.mpr (by decide))]

/-- Empty lines in front change nothing. -/
theorem foldl_line_front {front : List (List Char)} (hfront : ∀ line ∈ front, line = [])
    (lines : List (List Char)) :
    composeSummary ((front ++ lines).foldl Reading.line {}).summary =
        composeSummary (lines.foldl Reading.line {}).summary ∧
      ((front ++ lines).foldl Reading.line {}).parameters = (lines.foldl Reading.line {}).parameters := by
  have hnoTag : ∀ line ∈ front, ¬ "@".toList <+: line := by
    intro line hline
    rw [hfront line hline]
    decide
  obtain ⟨hsummary, hparameters⟩ := foldl_line (front ++ lines) {}
  obtain ⟨hsummary', hparameters'⟩ := foldl_line lines {}
  rw [hsummary, hparameters, hsummary', hparameters', splitTags_append hnoTag]
  refine ⟨?_, rfl⟩
  simp only [if_pos, List.nil_append]
  clear hsummary hparameters hnoTag
  induction front with
  | nil => rfl
  | cons line front ih =>
    rw [hfront line (by simp), List.cons_append, composeSummary_front]
    exact ih fun l hl => hfront l (by simp [hl])

/-- **What the delimiters leave around a text does not count.** -/
theorem parse_delimited (raw : String) : parse (delimited raw) = parse raw := by
  obtain ⟨more, hmore, hfront⟩ := exists_contentLines_append "*" (raw ++ "\n" ++ " ")
  obtain ⟨more', hmore', hback⟩ := exists_contentLines_append raw " "
  have hstar : contentLines "*" = [[]] := by decide
  have hspace : contentLines " " = [[]] := by decide
  have htext : delimited raw = "*" ++ "\n" ++ (raw ++ "\n" ++ " ") := by
    simp [delimited, String.append_assoc]
  have hempty : ∀ line ∈ [[]] ++ more, line = [] := by
    rcases hmore with rfl | rfl <;> decide
  obtain ⟨hsummary, hparameters⟩ := foldl_line_front hempty (contentLines (raw ++ "\n" ++ " "))
  obtain ⟨hsummary₁, hparameters₁⟩ := foldl_line_blank (.inr rfl) (contentLines raw ++ more')
  obtain ⟨hsummary₂, hparameters₂⟩ := foldl_line_blank hmore' (contentLines raw)
  rw [← hspace, ← hback] at hsummary₁ hparameters₁
  rw [htext, parse, parse, hfront, hstar, hsummary, hparameters, hsummary₁, hparameters₁, hsummary₂,
    hparameters₂]

/-! ## Comments -/

/-- A summary without blanks at its ends. -/
theorem IsSummary.trimmed (h : IsSummary summary) :
    IsTrimmed ((['\n'] : List Char).intercalate (summary.map String.toList)) := by
  cases summary with
  | nil => decide
  | cons first more =>
    have hfirst : first.toList ≠ [] := by simpa using h.first
    have hstart := (h.line first (by simp)).1.trimmed
    rw [List.map_cons, intercalate_cons_flatMap]
    rcases List.eq_nil_or_concat more with rfl | ⟨mid, last, rfl⟩
    · simpa using hstart
    · have hlast : last.toList ≠ [] := by
        have hl := h.last
        rw [List.concat_eq_append, ← List.cons_append, List.getLast?_concat] at hl
        simpa using hl
      have hend := (h.line last (by simp)).1.trimmed
      have hwhole := hstart.append hend hfirst hlast
        ((mid.map String.toList).flatMap (['\n'] ++ ·) ++ ['\n'])
      simpa [List.flatMap_append] using hwhole

theorem composeSummary_lines (hsummary : IsSummary summary) (blank : Bool) :
    composeSummary ((summary ++ if blank then [""] else []).map String.toList) =
      if summary = [] then none else some ("\n".intercalate summary) := by
  have hblank : composeSummary ((summary ++ if blank then [""] else []).map String.toList) =
      composeSummary (summary.map String.toList) := by
    cases blank with
    | false => rw [if_neg (by simp), List.append_nil]
    | true =>
      rw [if_pos rfl, List.map_append]
      exact composeSummary_blank _
  have htext : ("\n".intercalate summary).toList =
      (['\n'] : List Char).intercalate (summary.map String.toList) := String.toList_intercalate
  rw [hblank, composeSummary, hsummary.trimmed, ← htext]
  by_cases hnone : summary = []
  · subst hnone
    rfl
  · obtain ⟨first, more, rfl⟩ := List.exists_cons_of_ne_nil hnone
    have hfirst : first.toList ≠ [] := by simpa using hsummary.first
    rw [if_neg hnone]
    split
    next hempty =>
      rw [htext, List.map_cons, intercalate_cons_flatMap] at hempty
      exact absurd (List.append_eq_nil_iff.mp hempty).1 hfirst
    next => rw [String.ofList_toList]

/-- A comment that is laid out has the tags of its parameters behind the lines of its summary. -/
theorem splitTags_layout (hsummary : IsSummary summary) (hparameters : ∀ p ∈ parameters, p.Canonical)
    (blank : Bool) : splitTags (contentLines (layout summary blank parameters)) =
      ((summary ++ if blank then [""] else []).map String.toList, parameters.map ParameterNote.block) := by
  have hfront : ∀ line ∈ (summary ++ if blank then [""] else []).map String.toList, ¬ "@".toList <+: line := by
    intro line hline
    obtain ⟨text, htext, rfl⟩ := List.mem_map.mp hline
    rcases List.mem_append.mp htext with htext | htext
    · exact (hsummary.line text htext).2
    · have hempty : text = "" := by cases blank <;> simp_all
      rw [hempty]
      decide
  rw [contentLines_layout hsummary hparameters, layoutLines, List.map_append, splitTags_append hfront,
    splitTags_notes hparameters, List.append_nil]

/-- **Reading a comment gives back what was laid out.** A comment is laid out from any lines of a summary, an
empty line or none, and any parameters, with a star in front of each line. Its summary is read as the lines
with line feeds between them, or none if there are no lines, and its parameters as their names and the lines of
their descriptions with spaces between them, in order. The description of a name is that of the first
parameter with this name. Between delimiters on lines of their own, the same is read. -/
theorem parse_layout (hsummary : IsSummary summary) (hparameters : ∀ p ∈ parameters, p.Canonical)
    (blank : Bool) :
    parse (layout summary blank parameters) =
        { summary := if summary = [] then none else some ("\n".intercalate summary)
          parameters := parameters.map ParameterNote.entry } ∧
      (∀ name, (parse (layout summary blank parameters)).parameter name =
        ((parameters.find? (·.name = name)).map ParameterNote.description).getD "") ∧
      parse (delimited (layout summary blank parameters)) = parse (layout summary blank parameters) := by
  have hsplit := splitTags_layout hsummary hparameters blank
  have hread : parse (layout summary blank parameters) =
      { summary := if summary = [] then none else some ("\n".intercalate summary)
        parameters := parameters.map ParameterNote.entry } := by
    have hlines := (foldl_line (contentLines (layout summary blank parameters)) {}).1
    have htext := summary_parse (layout summary blank parameters)
    have hentries := parameters_parse (layout summary blank parameters)
    rw [hlines, hsplit, if_pos rfl, List.nil_append, composeSummary_lines hsummary] at htext
    rw [tags, hsplit, (entries_notes hparameters).2] at hentries
    rw [← htext, ← hentries]
  refine ⟨hread, fun name => ?_, parse_delimited _⟩
  have hname : (fun q : String × String => q.1 == name) ∘ ParameterNote.entry =
      fun p => decide (p.name = name) := by
    funext p
    rfl
  rw [hread, parameter, List.find?_map, hname, Option.map_map]
  rfl

/-- The summary of a comment that moves a point. -/
def moveSummary : List String := ["Moves the point.", "", "* by [dx] and then", "- by the other"]

/-- The parameters of a comment that moves a point. -/
def moveNotes : List ParameterNote :=
  [⟨"dx", "-1 or [1]", ["* often", "\x7bnumber\x7d 1"]⟩, ⟨"größe", "to the top", []⟩, ⟨"dx", "again", []⟩]

/-- Signs in the texts of a comment are read as text. -/
theorem moveNotes_parse : (IsSummary moveSummary ∧ ∀ p ∈ moveNotes, p.Canonical) ∧
    parse (layout moveSummary true moveNotes) =
      { summary := some "Moves the point.\n\n* by [dx] and then\n- by the other"
        parameters := [("dx", "-1 or [1] * often \x7bnumber\x7d 1"), ("größe", "to the top"), ("dx", "again")] } ∧
    (parse (layout moveSummary true moveNotes)).parameter "dx" = "-1 or [1] * often \x7bnumber\x7d 1" := by
  have hsummary : IsSummary moveSummary := by decide +kernel
  have hnotes : ∀ p ∈ moveNotes, p.Canonical := by decide +kernel
  obtain ⟨hread, hdescription, -⟩ := parse_layout hsummary hnotes true
  refine ⟨⟨hsummary, hnotes⟩, hread.trans ?_, (hdescription "dx").trans ?_⟩ <;> decide +kernel

end DocComment

end ApiDocs
