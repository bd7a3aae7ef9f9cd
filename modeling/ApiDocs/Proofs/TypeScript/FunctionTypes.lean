import ApiDocs.Proofs.Computation
import ApiDocs.Proofs.TypeScript.TypeTexts

/-!
# Texts of function types

A function type is kept as it is written, and its text is read in one piece: parameters in parentheses, an
arrow, and the result, which goes on as far as it can. So `(x: T) => R` is read as it is written wherever
a type may end, given that its types are. This is what `FunctionText` asks for.

That the result goes on as far as it can is also why a function type is no operand. Brackets or an operator
behind the text of a function type belong to its result: an array of functions without parentheses around
the function is a function that returns an array.

## Main definitions

* `TypeScript.functionText`: the text of a function type.
* `TypeScript.TypeTree.ReadsAsFunction`: the text of a type is read as a function type.

## Main results

* `TypeScript.isFunctionText_functionText`: the texts of function types are read as they are written.
* `TypeScript.functionArray_readsAsFunction`, `TypeScript.functionUnion_readsAsFunction`: function types
  as operands are misread.
-/

namespace ApiDocs.TypeScript

open ApiDocs.TypeScript.ParserState ApiDocs.TypeScript.Parser
open Text (intercalate_cons_flatMap length_le_intercalate)

variable {s : ParserState} {t : Token} {text rest : List Char} {depth : Nat}

/-! ## Results -/

/-- Does an assertion on a parameter start here? -/
def startsAssertion : Parser Bool := aheadHolds do
  expectWord "asserts"
  return (← word?).isSome && !(← lineBreak) && !(← atWord "is")

/-- Does a predicate on a parameter start here? -/
def startsPredicate : Parser Bool := aheadHolds do
  discard anyWord
  return (← atWord "is") && !(← lineBreak)

theorem no_predicate_of_sign (h : ∀ w plain, s.token ≠ .word w plain) :
    startsAssertion s = .ok (false, s) ∧ startsPredicate s = .ok (false, s) := by
  obtain ⟨e, he⟩ := expectWord_of_ne (h "asserts" true)
  obtain ⟨e', he'⟩ := anyWord_of_ne h
  exact ⟨aheadHolds_error ⟨e, bind_error he⟩, aheadHolds_error ⟨e', bind_error (discard_error he')⟩⟩

theorem no_predicate_of_word {w : String} {s₁ : ParserState} (htoken : s.token = .word w true)
    (hs₁ : advance s = .ok ((), s₁)) (h : ∀ w plain, s₁.token ≠ .word w plain) :
    startsAssertion s = .ok (false, s) ∧ startsPredicate s = .ok (false, s) := by
  constructor
  · by_cases hw : w = "asserts"
    · refine aheadHolds_ok (?_ : _ = Except.ok (false, s₁))
      rw [bind_ok (expectWord_of_eq (hw ▸ htoken) hs₁), word?_bind]
      cases hnext : s₁.token with
      | word w plain => exact absurd hnext (h w plain)
      | _ => rfl
    · obtain ⟨e, he⟩ : ∃ e, expectWord "asserts" s = .error e := expectWord_of_ne (by simp [htoken, hw])
      exact aheadHolds_error ⟨e, bind_error he⟩
  · refine aheadHolds_ok (?_ : _ = Except.ok (false, s₁))
    rw [bind_ok (discard_ok (anyWord_of_eq htoken hs₁)), atWord_bind, lineBreak_bind,
      beq_eq_false_iff_ne.mpr (h "is" true)]
    rfl

/-- A result that starts like a type is no predicate: no word follows its first word. -/
theorem resultType_eq (rules : Rules) (h : TypeOpening text) (hs : s.StandsAt text) :
    resultType rules s = rules.type s := by
  have hnone : startsAssertion s = .ok (false, s) ∧ startsPredicate s = .ok (false, s) := by
    rcases h with ⟨t, ht, h⟩ | ⟨c, x, cs, hx, rfl⟩
    · cases h with
      | word hw ht' hrest =>
        have hscan := scans_operandWord hw hrest.endsWord
        obtain ⟨s₁, hs₁, hr₁⟩ := hs.advance hscan hrest.readable
        refine no_predicate_of_word (hs.token_eq hscan.starts) hs₁ ?_
        rw [hr₁.stands.token_eq hrest.starts]
        rcases ht' with rfl | rfl | rfl
        · intro w plain heq
          simp [heq, operandEnds, typeEnds] at ht
        · simp
        · simp
      | group _ _ =>
        exact no_predicate_of_sign (by simp [hs.token_eq (scans_sign '(' "(" (by decide) _).starts])
    · have hplain : (c, x) ∈ plainSigns := (by decide : ∀ p ∈ functionSigns, p ∈ plainSigns) _ hx
      exact no_predicate_of_sign (by simp [hs.token_eq (scans_sign c x hplain cs).starts])
  rw [resultType, here_bind]
  change (startsAssertion >>= _) s = _
  rw [bind_ok hnone.1, if_neg (by decide)]
  change (startsPredicate >>= _) s = _
  rw [bind_ok hnone.2, if_neg (by decide)]

/-! ## Parameters -/

/-- Can the word name a parameter? -/
def isParameterName (n : String) : Bool := isWord n.toList && !reservedWords.contains n

/-- The text of a parameter with its type. -/
def parameterText (p : String × TypeTree) : List Char := p.1.toList ++ ':' :: ' ' :: p.2.shown false

theorem isWord_of_isParameterName {n : String} (h : isParameterName n = true) : isWord n.toList = true := by
  simp only [isParameterName, Bool.and_eq_true] at h
  exact h.1

theorem scans_parameterName {n : String} (hn : isParameterName n = true) (rest : List Char) :
    Scans (.word n true) n.toList (':' :: rest) := by
  have hscan := scans_word (isWord_of_isParameterName hn) (behind_sign ':' ":" (by decide) rest).endsWord
  rwa [String.ofList_toList] at hscan

theorem takes_bindingPattern (rules : Rules) {n : String} (hn : isParameterName n = true)
    (rest : List Char) : Takes (bindingPattern rules) n.toList (':' :: rest) ⟨some n, [n]⟩ := by
  intro s hs
  have hscan := scans_parameterName hn rest
  have htoken := hs.token_eq hscan.starts
  obtain ⟨s₁, hs₁, hr₁⟩ := hs.advance hscan (behind_sign ':' ":" (by decide) rest).readable
  have hname : name s = .ok (n, s₁) := by
    simp only [isParameterName, Bool.and_eq_true, Bool.not_eq_true'] at hn
    rw [name, word?_bind, htoken]
    dsimp only
    rw [hn.2, if_neg (by decide), bind_ok hs₁]
    rfl
  refine ⟨s₁, ?_, hr₁⟩
  have hbrace : eat "\x7b" s = .ok (false, s) := eat_of_ne (by simp [htoken])
  have hbracket : eat "[" s = .ok (false, s) := eat_of_ne (by simp [htoken])
  rw [bindingPattern, bind_ok hbrace, if_neg (by decide), bind_ok hbracket, if_neg (by decide),
    bind_ok hname]
  rfl

theorem takes_annotation (rules : Rules) {a : TypeTree} (hopen : Readable (text ++ rest))
    (h : Takes rules.type text rest a) : Takes (annotation? rules) (':' :: ' ' :: text) rest (some a) := by
  intro s hs
  obtain ⟨htoken, s₁, hs₁, hr₁⟩ := hs.sign ":" (by decide) hopen
  obtain ⟨s₂, hs₂, hr₂⟩ := h s₁ hr₁.stands
  exact ⟨s₂, annotation?_eq htoken hs.typed hs₁ hs₂, hr₁.trans hr₂⟩

/-- The parameter is no modifier of another one, since a colon follows it. -/
theorem modifiers_eq {n : String} (words : List String) (hn : isParameterName n = true)
    (hs : s.StandsAt (n.toList ++ ':' :: rest)) : modifiers words startsParameter s = .ok ({}, s) := by
  have hscan := scans_parameterName hn rest
  have hcolon := behind_sign ':' ":" (by decide) rest
  obtain ⟨s₁, hs₁, hr₁⟩ := hs.advance hscan hcolon.readable
  have hahead : aheadHolds (do
      advance
      return startsParameter (← token) && (n == "static" || !(← lineBreak))) s = .ok (false, s) := by
    refine aheadHolds_ok (?_ : _ = Except.ok (false, s₁))
    rw [bind_ok hs₁, token_bind, lineBreak_bind, hr₁.stands.token_eq hcolon.starts]
    rfl
  refine bind_ok (Collects.collect_eq (.done ?_) (by simp : ([] : List String).length ≤ _))
  rw [token_bind, hs.token_eq hscan.starts]
  dsimp only
  rw [bind_ok hahead, if_neg (by simp)]
  rfl

theorem decorators_eq (rules : Rules) (h : s.token ≠ .punct "@") : decorators rules s = .ok ((), s) := by
  refine discard_ok (Collects.collect_eq (.done ?_) (by simp : ([] : List Unit).length ≤ _))
  rw [bind_ok (eat_of_ne h), if_neg (by decide)]
  rfl

theorem takes_parameterEntry {n : String} {T : TypeTree} (hn : isParameterName n = true) (hT : T.Reads)
    (hdepth : depthFor (T.shown false).length ≤ depth + 1) (ht : t ∈ typeEnds) (h : Behind t rest) :
    TakesSome (parameterEntry (grammar (depth + 1))) (parameterText (n, T)) rest (∃ p, · = .single p) := by
  intro s hs
  rw [parameterText, List.append_assoc] at hs
  have hscan := scans_parameterName hn (' ' :: (T.shown false ++ rest))
  have htoken := hs.token_eq hscan.starts
  have hne : n ≠ "this" := by
    rintro rfl
    exact absurd hn (by decide)
  have hopens := hT.starts ht h
  obtain ⟨s₁, hs₁, hr₁⟩ := takes_bindingPattern (grammar depth) hn (' ' :: (T.shown false ++ rest)) s hs
  have hpattern : Rules.pattern (grammar (depth + 1)) s = .ok (⟨some n, [n]⟩, s₁) := hs₁
  have hstands := hr₁.stands_of_solid (solid_sign (x := ":") (by decide) _)
  obtain ⟨s₂, hs₂, hr₂⟩ :=
    takes_annotation (grammar (depth + 1)) hopens.readable (hT.type hdepth ht h) s₁ hstands
  have htyped : Parser.typed s = .ok (true, s) := congrArg (Except.ok <| Prod.mk · s) hs.typed
  have hrest : eat "..." s = .ok (false, s) := eat_of_ne (by simp [htoken])
  have hquestion : eat "?" s₁ = .ok (false, s₁) := eat_of_ne (by
    rw [hstands.token_eq (scans_sign ':' ":" (by decide) _).starts]
    decide)
  have hdefault : default? (grammar (depth + 1)) s₂ = .ok (none, s₂) := by
    have heat : eat "=" s₂ = .ok (false, s₂) := eat_of_ne (by
      rw [hr₂.stands.token_eq h.starts]
      exact (by decide : ∀ t ∈ typeEnds, t ≠ .punct "=") t ht)
    rw [default?, bind_ok heat]
    rfl
  refine ⟨.single {
    pattern := ⟨some n, [n]⟩, isOptional := false, type := some T.spelled, default := none
    span := ⟨s.here.offset, s₂.lastStop⟩, access := none, isReadonly := false }, s₂, ?_, ⟨_, rfl⟩,
    hr₁.trans hr₂⟩
  rw [parameterEntry, here_bind, bind_ok (decorators_eq _ (by simp [htoken])), bind_ok htyped,
    bind_ok (modifiers_eq _ hn hs), here_bind, bind_ok hrest, if_neg (by decide), atWord_bind, htoken,
    if_neg (by simpa using hne), bind_ok hpattern, bind_ok hquestion]
  dsimp only
  rw [if_neg (by decide), bind_ok hs₂, bind_ok hdefault]
  rfl

theorem parametersOf_single {entries : List ParameterEntry} (h : ∀ e ∈ entries, ∃ p, e = .single p) :
    ∃ ps, parametersOf entries = some ps := by
  induction entries with
  | nil => exact ⟨_, rfl⟩
  | cons e entries ih =>
    obtain ⟨⟨p, rfl⟩, hentries⟩ := List.forall_mem_cons.mp h
    obtain ⟨ps, hps⟩ := ih hentries
    exact ⟨_, by rw [parametersOf, hps, Option.map_some]⟩

/-! ## Function types -/

/-- The text of a function type, from the names and types of its parameters and its result. -/
def functionText (parameters : List (String × TypeTree)) (result : TypeTree) : List Char :=
  '(' :: (comma.intercalate (parameters.map parameterText) ++ ')' :: ' ' :: '=' :: '>' :: ' ' ::
    result.shown false)

/-- The parameters have names, and their types can be read. -/
def ReadableParameters (parameters : List (String × TypeTree)) : Prop :=
  ∀ p ∈ parameters, isParameterName p.1 = true ∧ p.2.Reads

theorem readableParameters_nil : ReadableParameters [] := fun _ hp => nomatch hp

variable {parameters : List (String × TypeTree)} {result : TypeTree}

theorem takesItem_parameter {p : String × TypeTree} (hn : isParameterName p.1 = true) (hT : p.2.Reads)
    (hdepth : depthFor (p.2.shown false).length ≤ depth + 1) :
    TakesItem (parameterEntry (grammar (depth + 1))) ")" (parameterText p) (∃ q, · = .single q) := by
  have hmem : ∀ {t : Token}, t = .punct "," ∨ t = .punct ")" → t ∈ typeEnds := by
    rintro t (rfl | rfl) <;> decide
  refine ⟨fun ht h => takes_parameterEntry hn hT hdepth (hmem ht) h, fun ht h => ?_⟩
  rw [parameterText, List.append_assoc]
  exact ⟨solid_word (isWord_of_isParameterName hn) _, _, (scans_parameterName hn _).starts, by simp⟩

theorem takes_parameterList (hparameters : ReadableParameters parameters)
    (hdepth : ∀ p ∈ parameters, depthFor (p.2.shown false).length ≤ depth + 1)
    (hrest : Readable (skipSpace rest)) :
    TakesSome (parameterList (grammar (depth + 1)))
      ('(' :: (comma.intercalate (parameters.map parameterText) ++ [')'])) rest fun _ => True := by
  intro s hs
  rw [List.cons_append, List.append_assoc, List.singleton_append] at hs
  have hitems : ∀ i ∈ parameters.map fun p => (parameterText p, (∃ q, · = ParameterEntry.single q)),
      TakesItem (parameterEntry (grammar (depth + 1))) ")" i.1 i.2 := by
    refine List.forall_mem_map.mpr fun p hp => ?_
    exact takesItem_parameter (hparameters p hp).1 (hparameters p hp).2 (hdepth p hp)
  have htexts : (parameters.map fun p => (parameterText p, (∃ q, · = ParameterEntry.single q))).map (·.1) =
      parameters.map parameterText := by simp
  have hreadable := readable_list (c := ')') (by decide) hitems rest
  rw [htexts] at hreadable
  obtain ⟨htoken, s₁, hs₁, hr₁⟩ := hs.sign "(" (by decide) hreadable.skipSpace
  have hlist := takes_commaList (c := ')') (by decide) (by decide) hitems hrest
  rw [htexts] at hlist
  obtain ⟨entries, s₂, hs₂, hentries, hr₂⟩ := hlist s₁ (by
    rw [List.append_assoc]
    exact hr₁.stands_of_solid hreadable.1)
  obtain ⟨ps, hps⟩ : ∃ ps, parametersOf entries = some ps := by
    refine parametersOf_single fun e he => ?_
    obtain ⟨i, hi, he⟩ := forall₂_mem_right hentries he
    obtain ⟨p, -, rfl⟩ := List.mem_map.mp hi
    exact he
  refine ⟨ps, s₂, ?_, trivial, hr₁.trans hr₂⟩
  rw [parameterList, bind_ok (expect_of_eq htoken hs₁), bind_ok hs₂, hps]
  rfl

/-- Parameters start at the parenthesis, as the sign behind it or behind the first name tells. -/
theorem startsParameters_function (rules : Rules) (hparameters : ReadableParameters parameters)
    (hs : s.StandsAt ('(' :: (comma.intercalate (parameters.map parameterText) ++ ')' :: rest))) :
    startsParameters rules s = .ok (true, s) := by
  cases parameters with
  | nil =>
    obtain ⟨htoken, s₁, hs₁, hr₁⟩ := hs.sign "(" (by decide) (behind_sign ')' ")" (by decide) rest).readable
    have htoken₁ := (hr₁.stands_of_solid (solid_sign (x := ")") (by decide) rest)).token_eq
      (scans_sign ')' ")" (by decide) rest).starts
    refine aheadHolds_ok (?_ : _ = Except.ok (true, s₁))
    rw [bind_ok (expect_of_eq htoken hs₁), atOneOf_bind, htoken₁]
    rfl
  | cons p parameters =>
    have hn := (hparameters p (by simp)).1
    have hword := isWord_of_isParameterName hn
    rw [List.map_cons, intercalate_cons_flatMap, parameterText, List.append_assoc, List.append_assoc] at hs
    obtain ⟨htoken, s₁, hs₁, hr₁⟩ := hs.sign "(" (by decide)
      (Readable.skipSpace ⟨solid_word hword _, _, (scans_parameterName hn _).starts⟩)
    have hstands := hr₁.stands_of_solid (solid_word hword _)
    have htoken₁ := hstands.token_eq (scans_parameterName hn _).starts
    obtain ⟨s₂, hs₂, hr₂⟩ := hstands.advance (scans_parameterName hn _)
      (behind_sign ':' ":" (by decide) _).readable
    have htoken₂ := hr₂.stands.token_eq (behind_sign ':' ":" (by decide) _).starts
    have hcolon : [":", ",", "?", "="].contains ":" = true := by decide
    refine aheadHolds_ok (?_ : _ = Except.ok (true, s₂))
    simp only [bind_ok (expect_of_eq htoken hs₁), atOneOf_bind, htoken₁, Bool.false_eq_true, if_false,
      bind_ok (discard_ok (anyWord_of_eq htoken₁ hs₂)), word?_bind, htoken₂, Option.isSome_none, hcolon,
      if_true, pure_run]

theorem length_parameter_le {p : String × TypeTree} (hp : p ∈ parameters) (result : TypeTree) :
    (p.2.shown false).length + 8 ≤ (functionText parameters result).length := by
  have hlength := length_le_intercalate comma (List.mem_map_of_mem (f := parameterText) hp)
  simp only [functionText, parameterText, List.length_cons, List.length_append] at hlength ⊢
  omega

theorem functionText_append (parameters : List (String × TypeTree)) (result : TypeTree) (rest : List Char) :
    functionText parameters result ++ rest =
      '(' :: (comma.intercalate (parameters.map parameterText) ++ [')']) ++
        ' ' :: '=' :: '>' :: ' ' :: (result.shown false ++ rest) := by
  simp [functionText]

theorem takes_functionType (hparameters : ReadableParameters parameters) (hresult : result.Reads)
    (hdepth : depthFor (functionText parameters result).length ≤ depth + 3) (ht : t ∈ typeEnds)
    (h : Behind t rest) :
    Takes (functionType (grammar (depth + 2))) (functionText parameters result) rest () := by
  intro s hs
  rw [functionText_append] at hs
  have hopens := hresult.starts ht h
  have harrow := behind_arrow (' ' :: (result.shown false ++ rest))
  have hparameter : ∀ p ∈ parameters, depthFor (p.2.shown false).length ≤ depth + 1 := by
    intro p hp
    have hlength := length_parameter_le hp result
    simp only [depthFor] at hdepth ⊢
    omega
  have hlength : depthFor (result.shown false).length ≤ depth + 2 := by
    simp only [depthFor, functionText, List.length_cons, List.length_append] at hdepth ⊢
    omega
  have htoken : s.token = .punct "(" := hs.token_eq (scans_sign '(' "(" (by decide) _).starts
  obtain ⟨ps, s₁, hs₁, -, hr₁⟩ := takes_parameterList hparameters hparameter harrow.readable s hs
  have hstands : s₁.StandsAt (['=', '>'] ++ ' ' :: (result.shown false ++ rest)) := hr₁.stands
  obtain ⟨s₂, hs₂, hr₂⟩ := hstands.advance (scans_arrow _) hopens.readable
  obtain ⟨s₃, hs₃, hr₃⟩ := hresult.type hlength ht h s₂ hr₂.stands
  refine ⟨s₃, ?_, hr₁.trans (hr₂.trans hr₃)⟩
  have hnone : ∀ w, discard (eatWord w) s = .ok ((), s) :=
    fun w => discard_ok (eatWord_of_ne (by simp [htoken]))
  have htypes : discard (Rules.typeParameters? (grammar (depth + 2))) s = .ok ((), s) := by
    refine discard_ok (?_ : _ = Except.ok ([], s))
    rw [Rules.typeParameters?, atSign_bind, htoken, if_neg (by decide)]
    rfl
  have hlist : discard (Rules.parameters (grammar (depth + 2))) s = .ok ((), s₁) := discard_ok hs₁
  have hresultType : discard (resultType (grammar (depth + 2))) s₂ = .ok ((), s₃) :=
    discard_ok ((resultType_eq _ hopens hr₂.stands).trans hs₃)
  rw [functionType, bind_ok (hnone _), bind_ok (hnone _), bind_ok htypes, bind_ok hlist,
    bind_ok (expect_of_eq (hr₁.stands.token_eq harrow.starts) hs₂), hresultType]

/-- **A function type is read as it is written.** -/
theorem isFunctionText_functionText (hparameters : ReadableParameters parameters) (hresult : result.Reads) :
    FunctionText (String.ofList (functionText parameters result)) where
  opens := ⟨'(', "(", _, by decide, by rw [String.toList_ofList, functionText]⟩
  takes {depth t rest} hdepth ht h s hs := by
    rw [String.toList_ofList] at hdepth hs
    obtain ⟨d, rfl⟩ : ∃ d, depth = d + 3 := ⟨depth - 3, by simp only [depthFor] at hdepth; omega⟩
    obtain ⟨s₁, hs₁, hr₁⟩ := takes_functionType hparameters hresult hdepth ht h s hs
    have hwritten := textFrom_of_reached hs hr₁
    rw [functionText_append, List.cons_append, List.append_assoc, List.singleton_append] at hs
    have htoken : s.token = .punct "(" := hs.token_eq (scans_sign '(' "(" (by decide) _).starts
    have hstarts : startsFunctionType (grammar (d + 2)) s = .ok (true, s) := by
      rw [startsFunctionType, atSign_bind, atWord_bind, htoken, if_neg (by decide), atWord_bind, htoken,
        if_neg (by decide), startsParameters_function _ hparameters hs]
    refine ⟨s₁, ?_, hr₁⟩
    change fullType (grammar (d + 2)) true s = _
    rw [fullType, here_bind, bind_ok hstarts, if_pos rfl, verbatim, bind_ok hs₁, bind_ok hwritten]
    rfl

/-! ## Function types as operands -/

/-- The type is not read as itself but as a function type, whose text is kept. -/
def TypeTree.ReadsAsFunction (T : TypeTree) : Prop :=
  TypeTree.parse (String.ofList (T.shown false)) = .ok (.verbatim (String.ofList (T.shown false)))

/-- What stands behind a function type is read as part of its result, if it can be. -/
theorem readsAsFunction (hparameters : ReadableParameters parameters) {T longer : TypeTree}
    {more : List Char} (hT : T.shown false = functionText parameters result ++ more)
    (hlonger : longer.Reads) (hmore : longer.shown false = result.shown false ++ more) :
    T.ReadsAsFunction := by
  have htext : T.shown false = functionText parameters longer := by simp [hT, functionText, hmore]
  have hfunction := isFunctionText_functionText hparameters hlonger
  have hparse : _ = Except.ok (TypeTree.verbatim (String.ofList (functionText parameters longer))).spelled :=
    TypeTree.parse_shown (by rwa [TypeTree.Ordinary]) (by simp [TypeTree.Clear])
  rw [TypeTree.ReadsAsFunction, htext]
  simpa [TypeTree.shown, TypeTree.spelled] using hparse

/-- **An array of functions is read as a function that returns an array.** -/
theorem functionArray_readsAsFunction (hparameters : ReadableParameters parameters) (hresult : result.Reads)
    (hoperand : result.isOperand = true) (hplain : result.shown true = result.shown false) :
    (TypeTree.array (.verbatim (String.ofList (functionText parameters result)))).ReadsAsFunction := by
  have harray : (TypeTree.array result).Reads :=
    TypeTree.reads_array (fun _ => by rw [TypeTree.shown]) (by rw [TypeTree.spelled]) hresult hoperand
  have htext : (TypeTree.array (.verbatim (String.ofList (functionText parameters result)))).shown false =
      functionText parameters result ++ ['[', ']'] := by
    rw [TypeTree.shown, TypeTree.shown, String.toList_ofList]
  exact readsAsFunction hparameters htext harray (by rw [TypeTree.shown, hplain])

/-- **A union that starts with a function is read as a function that returns a union.** -/
theorem functionUnion_readsAsFunction (hparameters : ReadableParameters parameters) {members : List TypeTree}
    (hne : members ≠ []) (hreads : ∀ T ∈ result :: members, T.Reads)
    (hoperands : ∀ T ∈ result :: members, T.isOperand = true)
    (hplain : result.shown true = result.shown false) :
    (TypeTree.union
      (.verbatim (String.ofList (functionText parameters result)) :: members)).ReadsAsFunction := by
  have hshown : ∀ ts nested, (TypeTree.union ts).shown nested = TypeTree.grouped nested
      ((operatorText '|').intercalate (ts.map (TypeTree.shown true))) := by
    intro ts nested
    rw [TypeTree.shown, TypeTree.shownAll_eq_map]
  have hlength : 2 ≤ (result :: members).length := by
    have hpos := List.length_pos_iff.mpr hne
    rw [List.length_cons]
    omega
  have hunion : (TypeTree.union (result :: members)).Reads :=
    TypeTree.reads_members (x := "|") (by decide) bar_joins (hshown _)
      (by rw [TypeTree.spelled, TypeTree.spelledAll_eq_map]) hlength hreads hoperands
  have htext : (TypeTree.union
      (.verbatim (String.ofList (functionText parameters result)) :: members)).shown false =
        functionText parameters result ++
          (members.map (TypeTree.shown true)).flatMap (operatorText '|' ++ ·) := by
    rw [hshown, List.map_cons, TypeTree.shown, String.toList_ofList, intercalate_cons_flatMap]
    rfl
  refine readsAsFunction hparameters htext hunion ?_
  rw [hshown, List.map_cons, intercalate_cons_flatMap, hplain]
  rfl

end ApiDocs.TypeScript
