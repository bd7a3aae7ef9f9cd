import ApiDocs.Proofs.TypeScript.TypeReading

/-!
# Texts of types

The text of a type, as it is documented, is put together from the texts of its parts. Unions and
intersections stand in parentheses where they are elements or members of another type; function types are
kept as they are written, and stand nowhere in parentheses. An `Array` is written with brackets.

The text parses as the type again, with `T[]` for `Array<T>`, if no function type is an operand in it and no
`Array` has a second argument. Both are needed: what stands behind a function type is read as part of its
result, and only the first argument of an `Array` is written. The proof goes through the type, and says of
each part how it is read as an operand, with brackets behind it, and how it is read as a type.

## Main definitions

* `TypeScript.TypeTree.shown`: the text of a type.
* `TypeScript.TypeTree.spelled`: a type with `T[]` for `Array<T>`.
* `TypeScript.TypeTree.Ordinary`: types of keywords, names, arrays, unions, intersections and functions.
* `TypeScript.TypeTree.Clear`: types in which no function type is an operand.
* `TypeScript.TypeTree.parse`: the type that a text is read as.

## Main results

* `TypeScript.TypeTree.parse_shown`: the text of a type parses as the type.
-/

namespace ApiDocs.TypeScript

open ApiDocs.TypeScript.ParserState ApiDocs.TypeScript.Parser
open Text (intercalate_cons_flatMap length_le_intercalate)

/-! ## Function types -/

/-- The signs that a function type starts with. -/
def functionSigns : List (Char × String) := [('(', "("), ('<', "<")]

/-- A type starts as an operand does, or with the sign of a function type. -/
def TypeOpening (text : List Char) : Prop :=
  (∃ t ∈ operandEnds, Opening t text) ∨ ∃ c x cs, (c, x) ∈ functionSigns ∧ text = c :: cs

theorem TypeOpening.starts {text : List Char} (h : TypeOpening text) :
    Solid text ∧ ∃ t, Starts t text ∧ t ∉ typeEnds := by
  rcases h with ⟨t, -, h⟩ | ⟨c, x, cs, hx, rfl⟩
  · exact ⟨h.readable.1, h.starts⟩
  · have hplain : (c, x) ∈ plainSigns := (by decide : ∀ p ∈ functionSigns, p ∈ plainSigns) _ hx
    have hends : .punct x ∉ typeEnds := (by decide : ∀ p ∈ functionSigns, .punct p.2 ∉ typeEnds) _ hx
    exact ⟨solid_sign hplain cs, _, (scans_sign c x hplain cs).starts, hends⟩

theorem TypeOpening.readable {text : List Char} (h : TypeOpening text) : Readable text := by
  obtain ⟨hsolid, t, hstarts, -⟩ := h.starts
  exact ⟨hsolid, t, hstarts⟩

/-- The text starts as function types do, and it is kept as written wherever a type may end behind it. -/
structure FunctionText (w : String) : Prop where
  opens : ∃ c x cs, (c, x) ∈ functionSigns ∧ w.toList = c :: cs
  takes : ∀ {depth t rest}, depthFor w.toList.length ≤ depth → t ∈ typeEnds → Behind t rest →
    Takes (grammar depth (.type true)) w.toList rest (.verbatim w)

/-! ## Annotations and their texts -/

namespace TypeTree

/-- Put a text in parentheses on demand. -/
def grouped (nested : Bool) (text : List Char) : List Char :=
  if nested then '(' :: (text ++ [')']) else text

mutual

/-- The text of a type as it is documented. A union or intersection that is `nested` stands in
parentheses. -/
def shown (nested : Bool) : TypeTree → List Char
  | .keyword k => k.word.toList
  | .reference (.name n) _ arguments =>
    if arguments.isEmpty then n.toList
    else if n = "Array" then (shownAll true arguments).headD [] ++ ['[', ']']
    else n.toList ++ '<' :: (comma.intercalate (shownAll false arguments) ++ ['>'])
  | .array e => shown true e ++ ['[', ']']
  | .union ts => grouped nested ((operatorText '|').intercalate (shownAll true ts))
  | .intersection ts => grouped nested ((operatorText '&').intercalate (shownAll true ts))
  | .verbatim w => w.toList
  | _ => []

/-- The texts of types. -/
def shownAll (nested : Bool) : List TypeTree → List (List Char)
  | [] => []
  | t :: ts => shown nested t :: shownAll nested ts

end

mutual

/-- The type with `T[]` in place of `Array<T>`. -/
def spelled : TypeTree → TypeTree
  | .reference name written arguments =>
    match spelledAll arguments with
    | [e] => if name = .name "Array" then .array e else .reference name written [e]
    | arguments => .reference name written arguments
  | .array e => .array (spelled e)
  | .union ts => .union (spelledAll ts)
  | .intersection ts => .intersection (spelledAll ts)
  | t => t

/-- The types with `T[]` in place of `Array<T>`. -/
def spelledAll : List TypeTree → List TypeTree
  | [] => []
  | t :: ts => spelled t :: spelledAll ts

end

mutual

/-- The type is built from keywords, references by plain names, arrays, unions, intersections and function
types. Unions and intersections have at least two members. -/
def Ordinary : TypeTree → Prop
  | .keyword _ => True
  | .reference (.name n) written arguments =>
    isTypeName n = true ∧ written = n ∧ AllOrdinary arguments
  | .array e => Ordinary e
  | .union ts => 2 ≤ ts.length ∧ AllOrdinary ts
  | .intersection ts => 2 ≤ ts.length ∧ AllOrdinary ts
  | .verbatim w => FunctionText w
  | _ => False

/-- The types are built so. -/
def AllOrdinary : List TypeTree → Prop
  | [] => True
  | t :: ts => Ordinary t ∧ AllOrdinary ts

end

/-- Can the text of the type be an operand? The text of a function type cannot. -/
def isOperand : TypeTree → Bool
  | .verbatim _ => false
  | _ => true

mutual

/-- No function type is an operand, and `Array` has at most one argument. -/
def Clear : TypeTree → Prop
  | .reference name _ arguments => AllClear arguments ∧
    (name = .name "Array" → arguments.length ≤ 1 ∧ ∀ e ∈ arguments, e.isOperand = true)
  | .array e => Clear e ∧ e.isOperand = true
  | .union ts => AllClear ts ∧ ∀ t ∈ ts, t.isOperand = true
  | .intersection ts => AllClear ts ∧ ∀ t ∈ ts, t.isOperand = true
  | _ => True

/-- The same of types. -/
def AllClear : List TypeTree → Prop
  | [] => True
  | t :: ts => Clear t ∧ AllClear ts

end

/-! ## How texts are read -/

/-- The parser reads the text of a type as the type: as an operand, if it can be one, with brackets behind
it, and as a type. -/
structure Reads (T : TypeTree) : Prop where
  opens : ∀ {t rest}, T.isOperand = true → Behind t rest → Opening t (T.shown true ++ rest)
  operand : ∀ {depth k t rest}, T.isOperand = true → depthFor (T.shown true).length ≤ depth + 2 →
    t ∈ operandEnds → Behind t rest →
    Takes (bracketType (grammar depth)) (T.shown true ++ brackets k) rest (arrays k T.spelled)
  starts : ∀ {t rest}, t ∈ typeEnds → Behind t rest → TypeOpening (T.shown false ++ rest)
  type : ∀ {depth t rest}, depthFor (T.shown false).length ≤ depth → t ∈ typeEnds → Behind t rest →
    Takes (grammar depth (.type true)) (T.shown false) rest T.spelled

variable {T : TypeTree} {t : Token} {rest : List Char} {depth : Nat}

theorem shownAll_eq_map (nested : Bool) (ts : List TypeTree) :
    shownAll nested ts = ts.map (shown nested) := by
  induction ts with
  | nil => rfl
  | cons t ts ih => rw [shownAll, ih, List.map_cons]

theorem spelledAll_eq_map (ts : List TypeTree) : spelledAll ts = ts.map spelled := by
  induction ts with
  | nil => rfl
  | cons t ts ih => rw [spelledAll, ih, List.map_cons]

/-- An operand, as members of unions and intersections are parsed. -/
theorem takesOperand_of_brackets {text : List Char} {a : TypeTree}
    (opens : ∀ {t rest}, Behind t rest → Opening t (text ++ rest))
    (operand : ∀ {k t rest}, t ∈ operandEnds → Behind t rest →
      Takes (bracketType (grammar depth)) (text ++ brackets k) rest (arrays k a)) :
    TakesOperand (Rules.operatorType (grammar (depth + 1)) true) operandEnds text a where
  takes ht hbehind := by
    have htakes := operand (k := 0) ht hbehind
    rw [brackets, List.append_nil] at htakes
    exact takes_wordedType (grammar depth) true (opens hbehind) htakes
  opens ht hbehind := ⟨_, ht, opens hbehind⟩

/-- A type is read two rules below an operand. -/
theorem takes_type_of_union {text : List Char} {a : TypeTree} {t' : Token}
    (hdepth : depthFor text.length ≤ depth) (ht' : t' ∈ operandEnds) (hopen : Opening t' (text ++ rest))
    (ht : t ∈ typeEnds) (hbehind : Behind t rest)
    (hunion : ∀ d, depthFor text.length ≤ d + 2 → Takes (unionType (grammar (d + 1)) true) text rest a) :
    Takes (grammar depth (.type true)) text rest a := by
  obtain ⟨d, rfl⟩ : ∃ d, depth = d + 2 := ⟨depth - 2, by simp only [depthFor] at hdepth; omega⟩
  exact takes_fullType (grammar (d + 1)) ht' hopen ht hbehind (hunion d hdepth)

theorem mem_operandEnds (ht : t ∈ typeEnds) : t ∈ operandEnds :=
  List.mem_cons_of_mem _ (List.mem_cons_of_mem _ ht)

/-- An operand is a type. -/
theorem reads_of_operand (hshown : T.shown true = T.shown false)
    (opens : ∀ {t rest}, Behind t rest → Opening t (T.shown true ++ rest))
    (operand : ∀ {depth k t rest}, depthFor (T.shown true).length ≤ depth + 2 → t ∈ operandEnds →
      Behind t rest →
      Takes (bracketType (grammar depth)) (T.shown true ++ brackets k) rest (arrays k T.spelled)) :
    T.Reads where
  opens _ := opens
  operand _ := operand
  starts ht hbehind := hshown ▸ .inl ⟨_, mem_operandEnds ht, opens hbehind⟩
  type hdepth ht hbehind := by
    rw [← hshown] at hdepth ⊢
    refine takes_type_of_union hdepth (mem_operandEnds ht) (opens hbehind) ht hbehind fun d hd => ?_
    have hmembers : ∀ i ∈ [(T.shown true, T.spelled)],
        TakesOperand (Rules.operatorType (grammar (d + 1)) true) operandEnds i.1 i.2 := by
      simpa using takesOperand_of_brackets opens (operand hd)
    simpa [joined, List.intercalate] using bar_joins hmembers (by simp) ht hbehind

/-- A plain type is an operand, with brackets behind it or without. -/
theorem takes_operand_of_plain {rules : Rules} {text : List Char} {a : TypeTree} {k : Nat}
    (hplain : ∀ {t rest}, t = .punct "[" ∨ t ∈ operandEnds → Behind t rest →
      Takes (plainType rules) text rest a) (ht : t ∈ operandEnds) (hbehind : Behind t rest) :
    Takes (bracketType rules) (text ++ brackets k) rest (arrays k a) := by
  obtain ⟨t', ht', hbehind'⟩ := behind_brackets hbehind k
  refine takes_brackets rules ?_ hbehind (hplain (ht'.imp_right (· ▸ ht)) hbehind')
  exact (by decide : ∀ t ∈ operandEnds, t ≠ .punct "[") t ht

/-- A union or intersection is an operand in its parentheses. -/
theorem reads_of_group {t' : Token}
    (hshown : T.shown true = '(' :: (T.shown false ++ [')'])) (ht' : t' = .punct "|" ∨ t' = .punct "&")
    (opens : ∀ {t rest}, Behind t rest → Opening t' (T.shown false ++ rest))
    (type : ∀ {depth t rest}, depthFor (T.shown false).length ≤ depth → t ∈ typeEnds → Behind t rest →
      Takes (grammar depth (.type true)) (T.shown false) rest T.spelled) : T.Reads where
  opens _ hbehind := by
    rw [hshown, List.cons_append, List.append_assoc, List.singleton_append]
    exact .group ht' (opens (behind_sign ')' ")" (by decide) _))
  operand _ hdepth ht hbehind := by
    rw [hshown] at hdepth ⊢
    refine takes_operand_of_plain (fun ht hbehind => ?_) ht hbehind
    have hclose := fun rest => behind_sign ')' ")" (by decide) rest
    refine takes_group _ (opens (hclose _)).readable (type ?_ (by decide) (hclose _)) hbehind.readable
    simp only [depthFor, List.length_cons, List.length_append] at hdepth ⊢
    omega
  starts ht hbehind := .inl ⟨t', by rcases ht' with rfl | rfl <;> decide, opens hbehind⟩
  type := type

/-! ## Every type -/

theorem reads_keyword (k : KeywordType) : (TypeTree.keyword k).Reads := by
  refine reads_of_operand (by simp only [shown]) (fun hbehind => ?_) fun _ ht hbehind => ?_
  · rw [shown]
    exact .word (isOperandWord_keyword k) (.inl rfl) hbehind
  · rw [shown, spelled]
    · refine takes_operand_of_plain (fun ht hbehind => takes_keyword _ k ?_ hbehind) ht hbehind
      rcases ht with rfl | ht
      · decide
      · exact (by decide : ∀ t ∈ operandEnds, t ≠ .punct ".") _ ht
    all_goals simp

theorem reads_name {n : String} (hn : isTypeName n = true) :
    (TypeTree.reference (.name n) n []).Reads := by
  have hshown : ∀ nested, (TypeTree.reference (.name n) n []).shown nested = n.toList := by
    intro nested
    simp [shown]
  have hword := isOperandWord_of_isTypeName hn
  refine reads_of_operand (by rw [hshown, hshown]) (fun hbehind => ?_) fun _ ht hbehind => ?_
  · rw [hshown]
    exact .word hword (.inl rfl) hbehind
  · rw [hshown, spelled, spelledAll]
    refine takes_operand_of_plain (fun ht hbehind => takes_name _ hn ?_ hbehind) ht hbehind
    rcases ht with rfl | ht
    · decide
    · exact (by decide : ∀ t ∈ operandEnds, t ≠ .punct "." ∧ t ≠ .punct "<") _ ht

theorem reads_array {e : TypeTree} (hshown : ∀ nested, T.shown nested = e.shown true ++ ['[', ']'])
    (hspelled : T.spelled = .array e.spelled) (h : e.Reads) (he : e.isOperand = true) : T.Reads := by
  refine reads_of_operand (by rw [hshown, hshown]) (fun hbehind => ?_) fun {_ k _ _} hdepth ht hbehind => ?_
  · rw [hshown, List.append_assoc]
    exact (h.opens he (behind_sign '[' "[" (by decide) _)).of_bracket
  · rw [hshown] at hdepth ⊢
    rw [hspelled, List.append_assoc]
    refine h.operand he (k := k + 1) ?_ ht hbehind
    simp only [depthFor, List.length_append] at hdepth ⊢
    omega

theorem reads_instance {n : String} (hn : isTypeName n = true) (harray : n ≠ "Array")
    {arguments : List TypeTree} (hne : arguments ≠ []) (h : ∀ T ∈ arguments, T.Reads) :
    (TypeTree.reference (.name n) n arguments).Reads := by
  have hshown : ∀ nested, (TypeTree.reference (.name n) n arguments).shown nested =
      n.toList ++ '<' :: (comma.intercalate (arguments.map (shown false)) ++ ['>']) := by
    intro nested
    rw [shown, if_neg (by simpa using hne), if_neg harray, shownAll_eq_map]
  have hspelled : (TypeTree.reference (.name n) n arguments).spelled =
      .reference (.name n) n (arguments.map spelled) := by
    rw [spelled, spelledAll_eq_map]
    split
    next e he => rw [if_neg (by simpa using harray), he]
    next => rfl
  have hword := isOperandWord_of_isTypeName hn
  refine reads_of_operand (by rw [hshown, hshown]) (fun hbehind => ?_) fun {d _ _ _} hdepth ht hbehind => ?_
  · rw [hshown, List.append_assoc, List.cons_append]
    exact .word hword (.inr (.inl rfl)) (behind_sign '<' "<" (by decide) _)
  · rw [hshown] at hdepth ⊢
    rw [hspelled]
    refine takes_operand_of_plain (fun ht hbehind => takes_instance _ hn ?_) ht hbehind
    have hitems : ∀ i ∈ arguments.map (fun T => (T.shown false, T.spelled)),
        TakesItem (Rules.type (grammar d)) ">" i.1 (· = i.2) := by
      intro i hi
      obtain ⟨T, hT, rfl⟩ := List.mem_map.mp hi
      have hmem : ∀ {t : Token}, t = .punct "," ∨ t = .punct ">" → t ∈ typeEnds := by
        rintro t (rfl | rfl) <;> decide
      constructor
      · intro t rest ht hbehind
        refine ((h T hT).type ?_ (hmem ht) hbehind).takesSome
        have hlength := length_le_intercalate comma (List.mem_map_of_mem (f := shown false) hT)
        simp only [depthFor, List.length_append, List.length_cons] at hdepth ⊢
        omega
      · intro t rest ht hbehind
        obtain ⟨hsolid, t', hstarts, ht'⟩ := ((h T hT).starts (hmem ht) hbehind).starts
        refine ⟨hsolid, t', hstarts, ?_⟩
        rintro rfl
        exact ht' (by decide)
    simpa [Function.comp_def] using
      takes_typeArguments (grammar d) (by simpa using hne) hitems hbehind.readable

/-- Members of a union or intersection, before another and at the end. -/
theorem opens_members {c : Char} {x : String} (hx : (c, x) ∈ operatorSigns) {ts : List TypeTree}
    (hlength : 2 ≤ ts.length) (h : ∀ T ∈ ts, T.Reads) (hts : ∀ T ∈ ts, T.isOperand = true) :
    Opening (.punct x) ((operatorText c).intercalate (ts.map (shown true)) ++ rest) := by
  match ts, hlength with
  | T :: U :: ts, _ =>
    rw [List.map_cons, intercalate_cons_flatMap, List.append_assoc]
    exact (h T (by simp)).opens (hts T (by simp)) (behind_operator c x hx _)

theorem members_takeOperand {sep : List Char} {ts : List TypeTree} (h : ∀ T ∈ ts, T.Reads)
    (hts : ∀ T ∈ ts, T.isOperand = true)
    (hdepth : depthFor (sep.intercalate (ts.map (shown true))).length ≤ depth + 2) :
    ∀ i ∈ ts.map (fun T => (T.shown true, T.spelled)),
      TakesOperand (Rules.operatorType (grammar (depth + 1)) true) operandEnds i.1 i.2 := by
  intro i hi
  obtain ⟨T, hT, rfl⟩ := List.mem_map.mp hi
  refine takesOperand_of_brackets ((h T hT).opens (hts T hT)) ((h T hT).operand (hts T hT) ?_)
  have hlength := length_le_intercalate sep (List.mem_map_of_mem (f := shown true) hT)
  simp only [depthFor] at hdepth ⊢
  omega

theorem joined_of_length {join : List TypeTree → TypeTree} {as : List TypeTree} (h : 2 ≤ as.length) :
    joined join as = join as := by
  match as, h with
  | _ :: _ :: _, _ => rfl

/-- Unions and intersections, by how the parser takes their members. -/
theorem reads_members {c : Char} {x : String} (hx : (c, x) ∈ operatorSigns) {join : List TypeTree → TypeTree}
    (hjoins : Joins c join)
    {ts : List TypeTree}
    (hshown : ∀ nested, T.shown nested = grouped nested ((operatorText c).intercalate (ts.map (shown true))))
    (hspelled : T.spelled = join (ts.map spelled)) (hlength : 2 ≤ ts.length) (h : ∀ T ∈ ts, T.Reads)
    (hts : ∀ T ∈ ts, T.isOperand = true) : T.Reads := by
  have htext : T.shown false = (operatorText c).intercalate (ts.map (shown true)) := hshown false
  have hopens : ∀ {rest}, Opening (.punct x) (T.shown false ++ rest) := by
    intro rest
    rw [htext]
    exact opens_members hx hlength h hts
  have hoperator : Token.punct x = .punct "|" ∨ Token.punct x = .punct "&" :=
    (by decide : ∀ p ∈ operatorSigns, Token.punct p.2 = .punct "|" ∨ Token.punct p.2 = .punct "&") _ hx
  refine reads_of_group ?_ hoperator (fun _ => hopens) fun hdepth ht hbehind => ?_
  · rw [htext]
    exact hshown true
  · refine takes_type_of_union hdepth (punct_mem_operandEnds hx) hopens ht hbehind fun d hd => ?_
    rw [htext] at hd ⊢
    have hne : ts ≠ [] := by
      rintro rfl
      simp at hlength
    have hunion := hjoins (members_takeOperand h hts hd) (by simpa using hne) ht hbehind
    rw [List.map_map, List.map_map, joined_of_length (by simpa using hlength)] at hunion
    rwa [hspelled]

theorem reads_verbatim {w : String} (hw : FunctionText w) : (TypeTree.verbatim w).Reads where
  opens h := nomatch h
  operand h := nomatch h
  starts _ _ := by
    obtain ⟨c, x, cs, hx, hcs⟩ := hw.opens
    rw [shown, hcs]
    exact .inr ⟨c, x, _, hx, rfl⟩
  type hdepth ht hbehind := by
    rw [shown] at hdepth ⊢
    exact hw.takes hdepth ht hbehind

mutual

/-- **The text of a type is read as the type**, if no function type is an operand in it. -/
theorem reads : ∀ T : TypeTree, T.Ordinary → T.Clear → T.Reads
  | .keyword k, _, _ => reads_keyword k
  | .reference (.name n) written arguments, hT, hclear => by
    rw [Ordinary] at hT
    rw [Clear] at hclear
    obtain ⟨hn, rfl, harguments⟩ := hT
    have hreads := readsAll arguments harguments hclear.1
    match arguments, hclear, hreads with
    | [], _, _ => exact reads_name hn
    | e :: es, hclear, hreads =>
      by_cases harray : written = "Array"
      · subst harray
        obtain ⟨hlength, hoperand⟩ := hclear.2 rfl
        obtain rfl : es = [] := by simpa using hlength
        refine reads_array (fun nested => ?_) ?_ (hreads e (by simp)) (hoperand e (by simp))
        · simp [shown, shownAll]
        · simp [spelled, spelledAll]
      · exact reads_instance hn harray (by simp) hreads
  | .array e, hT, hclear => by
    rw [Ordinary] at hT
    rw [Clear] at hclear
    exact reads_array (fun _ => by rw [shown]) (by rw [spelled]) (reads e hT hclear.1) hclear.2
  | .union ts, hT, hclear => by
    rw [Ordinary] at hT
    rw [Clear] at hclear
    refine reads_members (x := "|") (by decide) bar_joins (fun nested => ?_) ?_ hT.1
      (readsAll ts hT.2 hclear.1) hclear.2
    · rw [shown, shownAll_eq_map]
    · rw [spelled, spelledAll_eq_map]
  | .intersection ts, hT, hclear => by
    rw [Ordinary] at hT
    rw [Clear] at hclear
    refine reads_members (x := "&") (by decide) ampersand_joins (fun nested => ?_) ?_ hT.1
      (readsAll ts hT.2 hclear.1) hclear.2
    · rw [shown, shownAll_eq_map]
    · rw [spelled, spelledAll_eq_map]
  | .verbatim w, hT, _ => reads_verbatim (by simpa only [Ordinary] using hT)
  | .text _, hT, _ | .number _, hT, _ | .boolean _, hT, _ | .reference (.member _ _) _ _, hT, _
  | .tuple _, hT, _ | .this, hT, _ => by simp [Ordinary] at hT

theorem readsAll : ∀ ts : List TypeTree, AllOrdinary ts → AllClear ts → ∀ T ∈ ts, T.Reads
  | [], _, _ => by simp
  | T :: ts, hts, hclear => by
    rw [AllOrdinary] at hts
    rw [AllClear] at hclear
    exact List.forall_mem_cons.mpr ⟨reads T hts.1 hclear.1, readsAll ts hts.2 hclear.2⟩

end

/-! ## Whole annotations -/

/-- The type of an annotation, whose text stands behind a colon. -/
def parse (text : String) : Except ParseError TypeTree := do
  let source : Cursor := ⟨':' :: ' ' :: text.toList, 0⟩
  let start ← Parser.start .typeScript source
  let (tree, finish) ← annotation? (grammar (depthFor source.rest.length)) start
  match tree, finish.token with
  | some tree, .eof => return tree
  | _, _ => failAt finish.here.offset "type expected"

theorem exists_start (source : List Char) (h : Solid source) (ht : Starts t source) :
    ∃ s, Parser.start .typeScript ⟨source, 0⟩ = .ok s ∧ s.here = ⟨source, 0⟩ ∧ s.token = t ∧
      scanToken s.here = .ok (s.token, s.next) ∧ s.dialect = .typeScript := by
  obtain ⟨read, rest, rfl, hscan⟩ := ht
  have hgap : scanGap true false ⟨read ++ rest, 0⟩ =
      .ok ({ lineEnded := true, lineBreak := true }, ⟨read ++ rest, 0⟩) := scanGapFuel_solid h _ _ _ _
  refine ⟨{
    dialect := .typeScript, token := t, here := ⟨read ++ rest, 0⟩, next := ⟨rest, 0 + byteLength read⟩
    lineBreak := true, lastStop := 0, docs := [], ambient := false, arrowResults := true }, ?_, rfl, rfl,
    hscan 0, rfl⟩
  unfold Parser.start
  simp only [hgap, bind, Except.bind, hscan 0]
  rfl

theorem parse_eq {text : List Char} {a : TypeTree} (hopen : Readable text)
    (h : ∀ {depth}, depthFor text.length ≤ depth → Takes (grammar depth (.type true)) text [] a) :
    parse (String.ofList text) = .ok a := by
  have hcolon := scans_sign ':' ":" (by decide) (' ' :: text)
  obtain ⟨s, hs, hhere, htoken, hscanned, hdialect⟩ :=
    exists_start (':' :: ' ' :: text) (solid_sign (x := ":") (by decide) _) hcolon.starts
  obtain ⟨s₁, hs₁, hr₁⟩ :=
    advance_reached (by rw [hhere]; rfl) hscanned (by rw [hdialect]; rfl) hcolon hopen
  have hdepth : depthFor text.length ≤ depthFor (':' :: ' ' :: text).length := by
    simp only [depthFor, List.length_cons]
    omega
  have hstands : s₁.StandsAt (text ++ []) := by
    rw [List.append_nil]
    exact hr₁.stands
  obtain ⟨s₂, hs₂, hr₂⟩ := h hdepth s₁ hstands
  have hend : s₂.token = .eof := hr₂.stands.token_eq scans_eof.starts
  have hannotation : annotation? (grammar (depthFor (':' :: ' ' :: text).length)) s = .ok (some a, s₂) :=
    annotation?_eq htoken (hdialect ▸ rfl) hs₁ hs₂
  unfold parse
  rw [String.toList_ofList]
  simp only [bind, Except.bind, hs, hannotation, hend]
  rfl

/-- **The text of a type parses again as the type**, if no function type is an operand in it. -/
theorem parse_shown (hT : T.Ordinary) (hclear : T.Clear) :
    parse (String.ofList (T.shown false)) = .ok T.spelled := by
  have hreads := reads T hT hclear
  have hopens := hreads.starts (by decide) behind_nil
  rw [List.append_nil] at hopens
  exact parse_eq hopens.readable fun hdepth => hreads.type hdepth (by decide) behind_nil

end TypeTree

end ApiDocs.TypeScript
