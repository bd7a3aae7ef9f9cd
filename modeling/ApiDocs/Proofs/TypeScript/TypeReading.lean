import ApiDocs.Proofs.Text.Splitting
import ApiDocs.Proofs.TypeScript.Scanning
import ApiDocs.TypeScript.Parser.Grammar
import Mathlib.Data.List.Forall2

/-!
# Reading types

What the parser makes of a text that is put together from the texts of its parts, one rule of the grammar
at a time: names, type arguments, parentheses, brackets, unions and intersections. That a rule takes a text
is said with what may come behind the text, since this decides where the rule stops.

The parser looks ahead where a type starts. A parenthesis may belong to a function type, and a word may
make another type of the type behind it. `Opening` tells the texts for which neither is the case, from their
first operand and the sign behind it; the parser takes them for operands.

## Main definitions

* `TypeScript.Takes`, `TypeScript.TakesSome`: a parser takes a text and stops behind it.
* `TypeScript.Opening`: a text starts with an operand.
* `TypeScript.TakesItem`, `TypeScript.TakesOperand`: items of lists, members of unions and intersections.

## Main results

* `TypeScript.takes_commaList`: lists, from their items.
* `TypeScript.takes_brackets`: arrays, from their elements.
* `TypeScript.bar_joins`, `TypeScript.ampersand_joins`: unions and intersections, from their members.
* `TypeScript.takes_fullType`: an operand is taken for a type.
-/

namespace ApiDocs.TypeScript

open ApiDocs.TypeScript.ParserState ApiDocs.TypeScript.Parser
open Text (intercalate_cons_flatMap length_flatMap_le)

variable {α : Type} {s s' : ParserState} {t t' : Token} {text rest : List Char} {w : String}

/-- The tokens that a type may end before. -/
def typeEnds : List Token := [.eof, .punct ",", .punct ">", .punct ")"]

/-- The tokens that an operand may end before. -/
def operandEnds : List Token := .punct "&" :: .punct "|" :: typeEnds

/-- At the text, the parser gives a value and stops where `rest` is left. -/
def Takes (p : Parser α) (text rest : List Char) (a : α) : Prop :=
  ∀ s, s.StandsAt (text ++ rest) → ∃ s', p s = .ok (a, s') ∧ s.Reached rest s'

/-- At the text, the parser gives a value with the property and stops where `rest` is left. -/
def TakesSome (p : Parser α) (text rest : List Char) (Q : α → Prop) : Prop :=
  ∀ s, s.StandsAt (text ++ rest) → ∃ a s', p s = .ok (a, s') ∧ Q a ∧ s.Reached rest s'

theorem Takes.takesSome {p : Parser α} {a : α} (h : Takes p text rest a) : TakesSome p text rest (· = a) := by
  intro s hs
  obtain ⟨s', hs', hr⟩ := h s hs
  exact ⟨a, s', hs', rfl, hr⟩

/-! ## How operands start -/

/-- The words that are no names of types, or make other types of the types behind them. -/
def typeWords : List String :=
  ["this", "true", "false", "typeof", "import", "keyof", "unique", "readonly", "infer", "new"]

/-- Can the word stand for a type? -/
def isOperandWord (w : String) : Bool := isWord w.toList && !typeWords.contains w

/-- An operand starts with a word, or with a parenthesis before another operand that is followed by an
operator. The first operand in the text is followed by `t`. -/
inductive Opening : Token → List Char → Prop where
  | word {t t' : Token} {w : String} {rest : List Char} : isOperandWord w = true →
    t' = t ∨ t' = .punct "<" ∨ t' = .punct "[" → Behind t' rest → Opening t (w.toList ++ rest)
  | group {t t' : Token} {text : List Char} : t' = .punct "|" ∨ t' = .punct "&" → Opening t' text →
    Opening t ('(' :: text)

theorem isWord_of_isOperandWord (h : isOperandWord w = true) : isWord w.toList = true := by
  simp only [isOperandWord, Bool.and_eq_true] at h
  exact h.1

theorem ne_of_isOperandWord (h : isOperandWord w = true) {x : String} (hx : typeWords.contains x = true) :
    w ≠ x := by
  rintro rfl
  simp only [isOperandWord, hx] at h
  cases (Bool.and_eq_true _ _ ▸ h).2

theorem scans_operandWord (h : isOperandWord w = true) (hrest : EndsWord rest) :
    Scans (.word w true) w.toList rest := by
  have := scans_word (isWord_of_isOperandWord h) hrest
  rwa [String.ofList_toList] at this

theorem Opening.readable (h : Opening t text) : Readable text := by
  cases h with
  | @word _ _ w rest hw _ hrest =>
    exact ⟨solid_word (isWord_of_isOperandWord hw) rest, _, (scans_operandWord hw hrest.endsWord).starts⟩
  | group _ _ => exact (behind_sign '(' "(" (by decide) _).readable

/-- Brackets behind an operand make another operand. -/
theorem Opening.of_bracket (h : Opening (.punct "[") text) : Opening t text := by
  cases h with
  | word hw ht hrest => exact .word hw (.inr (ht.elim .inr id)) hrest
  | group ht h => exact .group ht h

/-- No type ends where an operand starts. -/
theorem Opening.starts (h : Opening t text) : ∃ t', Starts t' text ∧ t' ∉ typeEnds := by
  cases h with
  | word hw _ hrest => exact ⟨_, (scans_operandWord hw hrest.endsWord).starts, by simp [typeEnds]⟩
  | group _ _ => exact ⟨_, (scans_sign '(' "(" (by decide) _).starts, by decide⟩

theorem Opening.token (h : Opening t text) (hs : s.StandsAt text) :
    (∃ w, isOperandWord w = true ∧ s.token = .word w true) ∨ s.token = .punct "(" := by
  cases h with
  | word hw _ hrest => exact .inl ⟨_, hw, hs.token_eq (scans_operandWord hw hrest.endsWord).starts⟩
  | group _ _ => exact .inr (hs.token_eq (scans_sign '(' "(" (by decide) _).starts)

/-! ## No function types -/

/-- A parenthesis before an operand and an operator does not start parameters. -/
theorem startsParameters_group (rules : Rules) (ht : t = .punct "|" ∨ t = .punct "&") (h : Opening t text)
    (hs : s.StandsAt ('(' :: text)) : startsParameters rules s = .ok (false, s) := by
  obtain ⟨htoken, s₁, hs₁, hr₁⟩ := hs.sign "(" (by decide) h.readable.skipSpace
  have hstands := hr₁.stands_of_solid h.readable.1
  have hexpect := expect_of_eq htoken hs₁
  unfold startsParameters
  cases h with
  | @word _ t' w rest hw ht' hrest =>
    have hscan₁ := scans_operandWord hw hrest.endsWord
    have htoken₁ := hstands.token_eq hscan₁.starts
    obtain ⟨s₂, hs₂, hr₂⟩ := hstands.advance hscan₁ hrest.readable
    have htoken₂ := hr₂.stands.token_eq hrest.starts
    have hword : discard anyWord s₁ = .ok ((), s₂) := discard_ok (anyWord_of_eq htoken₁ hs₂)
    have hsign : ∃ x, t' = .punct x ∧ x ∈ ["|", "&", "<", "["] := by
      rcases ht' with rfl | rfl | rfl
      · rcases ht with rfl | rfl <;> simp
      · simp
      · simp
    obtain ⟨x, rfl, hx⟩ := hsign
    obtain ⟨hnot, hclose⟩ := (by decide : ∀ x ∈ ["|", "&", "<", "["],
      [":", ",", "?", "="].contains x = false ∧ x ≠ ")") x hx
    have hclosing : eat ")" s₂ = .ok (false, s₂) := eat_of_ne (by simpa [htoken₂] using hclose)
    refine aheadHolds_ok (?_ : _ = Except.ok (false, s₂))
    simp only [bind_ok hexpect, atOneOf_bind, htoken₁, Bool.false_eq_true, if_false, bind_ok hword,
      word?_bind, htoken₂, Option.isSome_none, hnot, bind_ok hclosing, pure_run]
  | group _ _ =>
    refine aheadHolds_error ?_
    have htoken₁ := hstands.token_eq (scans_sign '(' "(" (by decide) _).starts
    obtain ⟨e, he⟩ := anyWord_of_ne (s := s₁) (by simp [htoken₁])
    refine ⟨e, ?_⟩
    have hnot : [")", "..."].contains "(" = false ∧ ["[", "\x7b"].contains "(" = false := by decide
    simp only [bind_ok hexpect, atOneOf_bind, htoken₁, hnot, Bool.false_eq_true, if_false,
      bind_error (discard_error he)]

/-- An operand is not taken for a function type. -/
theorem startsFunctionType_operand (rules : Rules) (ht : t ∈ operandEnds) (h : Opening t text)
    (hs : s.StandsAt text) : startsFunctionType rules s = .ok (false, s) := by
  cases h with
  | @word _ t' w rest hw ht' hrest =>
    have hscan := scans_operandWord hw hrest.endsWord
    have htoken := hs.token_eq hscan.starts
    have hnew := ne_of_isOperandWord hw (show typeWords.contains "new" = true by decide)
    have hnone : startsParameters rules s = .ok (false, s) := by
      refine aheadHolds_error ?_
      obtain ⟨e, he⟩ := expect_of_ne (s := s) (x := "(") (by simp [htoken])
      exact ⟨e, bind_error he⟩
    -- Not even behind `abstract` does the word `new` follow.
    obtain ⟨s₁, hs₁, hr₁⟩ := hs.advance hscan hrest.readable
    have hnext : s₁.token ≠ .word "new" true := by
      rw [hr₁.stands.token_eq hrest.starts]
      rcases ht' with rfl | rfl | rfl
      · exact (by decide : ∀ t ∈ operandEnds, t ≠ .word "new" true) _ ht
      · decide
      · decide
    have hahead : aheadHolds (do advance; atWord "new") s = .ok (false, s) := by
      refine aheadHolds_ok (?_ : _ = Except.ok (false, s₁))
      rw [bind_ok hs₁, atWord_run, beq_eq_false_iff_ne.mpr hnext]
    rw [startsFunctionType, atSign_bind, atWord_bind, htoken, if_neg (by simp [hnew]), atWord_bind]
    split
    · exact hahead
    · exact hnone
  | group ht' h' =>
    have htoken := hs.token_eq (scans_sign '(' "(" (by decide) _).starts
    have hnone := startsParameters_group rules ht' h' hs
    rw [startsFunctionType, atSign_bind, atWord_bind, htoken, if_neg (by decide), atWord_bind, htoken,
      if_neg (by decide), hnone]

/-! ## Names and keywords -/

/-- Is the word a name of a type? -/
def isTypeName (n : String) : Bool := isOperandWord n && (KeywordType.ofWord? n).isNone

theorem isOperandWord_of_isTypeName {n : String} (h : isTypeName n = true) : isOperandWord n = true := by
  simp only [isTypeName, Bool.and_eq_true] at h
  exact h.1

theorem isOperandWord_keyword (k : KeywordType) : isOperandWord k.word = true := by
  cases k <;> decide

theorem ofWord?_word (k : KeywordType) : KeywordType.ofWord? k.word = some k := by
  cases k <;> decide

/-- What a word is taken for. -/
theorem plainType_word (rules : Rules) (hw : isOperandWord w = true) (htoken : s.token = .word w true) :
    plainType rules s =
      (match KeywordType.ofWord? w with
      | some k => do
        if ← aheadHolds do advance; atSign "." then typeReference rules
        else
          advance
          return .keyword k
      | none => typeReference rules) s := by
  have hne : ∀ x, typeWords.contains x = true → w ≠ x := fun x => ne_of_isOperandWord hw
  have h₁ := hne "this" (by decide)
  have h₂ := hne "true" (by decide)
  have h₃ := hne "false" (by decide)
  have h₄ := hne "typeof" (by decide)
  have h₅ := hne "import" (by decide)
  cases hk : KeywordType.ofWord? w <;>
    simp only [plainType, here_bind, token_bind, htoken, hk, h₁, h₂, h₃, h₄, h₅, false_imp_iff]

theorem takes_keyword (rules : Rules) (k : KeywordType) (ht : t ≠ .punct ".") (h : Behind t rest) :
    Takes (plainType rules) k.word.toList rest (.keyword k) := by
  intro s hs
  have hscan := scans_operandWord (isOperandWord_keyword k) h.endsWord
  obtain ⟨s₁, hs₁, hr₁⟩ := hs.advance hscan h.readable
  have hahead : aheadHolds (do advance; atSign ".") s = .ok (false, s) := by
    refine aheadHolds_ok (?_ : _ = Except.ok (false, s₁))
    rw [bind_ok hs₁, atSign_run, hr₁.stands.token_eq h.starts, beq_eq_false_iff_ne.mpr ht]
  refine ⟨s₁, ?_, hr₁⟩
  rw [plainType_word rules (isOperandWord_keyword k) (hs.token_eq hscan.starts), ofWord?_word]
  dsimp only
  rw [bind_ok hahead, if_neg (by decide), bind_ok hs₁]
  rfl

/-- A name, without dots. -/
theorem takes_entityName (hw : isOperandWord w = true) (ht : t ≠ .punct ".") (h : Behind t rest) :
    Takes entityName w.toList rest (.name w) := by
  intro s hs
  have hscan := scans_operandWord hw h.endsWord
  obtain ⟨s₁, hs₁, hr₁⟩ := hs.advance hscan h.readable
  have hdot : eat "." s₁ = .ok (false, s₁) := by
    refine eat_of_ne ?_
    rwa [hr₁.stands.token_eq h.starts]
  have hparts : collect (do if ← eat "." then return some (← anyWord) else return none) s₁ =
      .ok ([], s₁) := by
    refine Collects.collect_eq (.done ?_) (by simp)
    rw [bind_ok hdot]
    rfl
  refine ⟨s₁, ?_, hr₁⟩
  rw [entityName, bind_ok (anyWord_of_eq (hs.token_eq hscan.starts) hs₁), bind_ok hparts]
  rfl

/-! ## Lists -/

/-- The text between the items of a list. -/
def comma : List Char := [',', ' ']

theorem length_le_length_intercalate (texts : List (List Char)) :
    texts.length ≤ (comma.intercalate texts).length + 1 := by
  cases texts with
  | nil => simp
  | cons text texts =>
    have hmore : 2 * texts.length ≤ _ := length_flatMap_le comma texts
    rw [intercalate_cons_flatMap, List.length_append, List.length_cons]
    omega

/-- An item of a list up to the closing sign `x`: the parser takes it, before a comma and at the end, and
it does not start with that sign. -/
structure TakesItem (item : Parser α) (x : String) (text : List Char) (Q : α → Prop) : Prop where
  takes : ∀ {t rest}, t = .punct "," ∨ t = .punct x → Behind t rest → TakesSome item text rest Q
  readable : ∀ {t rest}, t = .punct "," ∨ t = .punct x → Behind t rest → Solid (text ++ rest) ∧
    ∃ t', Starts t' (text ++ rest) ∧ t' ≠ .punct x

/-- The step that `commaList` repeats. -/
def itemStep (x : String) (item : Parser α) : Parser (Option α) := do
  if ← atSign x then return none
  let a ← item
  if !(← atSign x) then expect ","
  return some a

/-- The rest of a list behind its first item: the closing sign, or a comma and more items. -/
def listTail (c : Char) (rest : List Char) : List (List Char) → List Char
  | [] => c :: rest
  | texts => ',' :: ' ' :: (comma.intercalate texts ++ c :: rest)

theorem intercalate_listTail (c : Char) (rest text : List Char) (texts : List (List Char)) :
    comma.intercalate (text :: texts) ++ c :: rest = text ++ listTail c rest texts := by
  cases texts with
  | nil => simp [listTail, List.intercalate]
  | cons _ _ => simp [listTail, comma, List.intercalate_cons_cons]

theorem behind_listTail {c : Char} {x : String} (hx : (c, x) ∈ plainSigns) (rest : List Char)
    (texts : List (List Char)) :
    ∃ t, (t = .punct "," ∨ t = .punct x) ∧ Behind t (listTail c rest texts) := by
  cases texts with
  | nil => exact ⟨_, .inr rfl, behind_sign c x hx rest⟩
  | cons _ _ => exact ⟨_, .inl rfl, behind_sign ',' "," (by decide) _⟩

theorem readable_list {c : Char} {x : String} (hx : (c, x) ∈ plainSigns) {item : Parser α}
    {items : List (List Char × (α → Prop))} (hitems : ∀ i ∈ items, TakesItem item x i.1 i.2)
    (rest : List Char) : Readable (comma.intercalate (items.map (·.1)) ++ c :: rest) := by
  cases items with
  | nil => exact ⟨solid_sign hx rest, _, (scans_sign c x hx rest).starts⟩
  | cons i items =>
    rw [List.map_cons, intercalate_listTail]
    obtain ⟨t, ht, hbehind⟩ := behind_listTail hx rest (items.map (·.1))
    obtain ⟨hsolid, t', hstarts, -⟩ := (hitems i (by simp)).readable ht hbehind
    exact ⟨hsolid, t', hstarts⟩

/-- The items are read one by one: by induction on what is left of the list. -/
theorem collects_items {c : Char} {x : String} (hx : (c, x) ∈ plainSigns) (hne : x ≠ ",") {item : Parser α}
    {items : List (List Char × (α → Prop))} (hitems : ∀ i ∈ items, TakesItem item x i.1 i.2)
    (hs : s.StandsAt (comma.intercalate (items.map (·.1)) ++ c :: rest)) :
    ∃ as s', Collects (itemStep x item) s as s' ∧ List.Forall₂ (fun i a => i.2 a) items as ∧
      s'.StandsAt (c :: rest) ∧ s'.ending = s.ending := by
  have hdone : ∀ {s : ParserState}, s.StandsAt (c :: rest) → itemStep x item s = .ok (none, s) := by
    intro s hs
    rw [itemStep, atSign_bind, hs.token_eq (scans_sign c x hx rest).starts, if_pos (by simp)]
    rfl
  induction items generalizing s with
  | nil => exact ⟨[], s, .done (hdone hs), .nil, hs, rfl⟩
  | cons i items ih =>
    obtain ⟨hitem, hitems⟩ := List.forall_mem_cons.mp hitems
    rw [List.map_cons, intercalate_listTail] at hs
    obtain ⟨t, ht, hbehind⟩ := behind_listTail hx rest (items.map (·.1))
    obtain ⟨-, t', hstarts, ht'⟩ := hitem.readable ht hbehind
    obtain ⟨a, s₁, hs₁, ha, hr₁⟩ := hitem.takes ht hbehind s hs
    have hstep : itemStep x item s = (do
        if !(← atSign x) then expect ","
        return some a : Parser (Option α)) s₁ := by
      rw [itemStep, atSign_bind, hs.token_eq hstarts, if_neg (by simpa using ht'), bind_ok hs₁]
    cases items with
    | nil =>
      have hstands := hr₁.stands_of_solid (solid_sign hx rest)
      have hlast : itemStep x item s = .ok (some a, s₁) := by
        rw [hstep, atSign_bind, hstands.token_eq (scans_sign c x hx rest).starts, if_neg (by simp)]
        rfl
      exact ⟨[a], s₁, .more hlast (.done (hdone hstands)), .cons ha .nil, hstands, hr₁.ending⟩
    | cons j items =>
      have hstands := hr₁.stands_of_solid (solid_sign (x := ",") (by decide) _)
      obtain ⟨htoken₁, s₂, hs₂, hr₂⟩ := hstands.sign "," (by decide) (readable_list hx hitems rest)
      obtain ⟨as, s', hcollects, has, hs', hending⟩ := ih hitems hr₂.stands
      have hmore : itemStep x item s = .ok (some a, s₂) := by
        rw [hstep, atSign_bind, htoken₁, if_pos (by simpa using hne.symm),
          bind_ok (expect_of_eq htoken₁ hs₂)]
        rfl
      exact ⟨a :: as, s', .more hmore hcollects, .cons ha has, hs',
        hending.trans (hr₂.ending.trans hr₁.ending)⟩

/-- Items between commas are taken one by one, and the closing sign behind them. -/
theorem takes_commaList {c : Char} {x : String} (hx : (c, x) ∈ plainSigns) (hne : x ≠ ",") {item : Parser α}
    {items : List (List Char × (α → Prop))} (hitems : ∀ i ∈ items, TakesItem item x i.1 i.2)
    (hrest : Readable (skipSpace rest)) :
    TakesSome (commaList x item) (comma.intercalate (items.map (·.1)) ++ [c]) rest
      (List.Forall₂ (fun i a => i.2 a) items) := by
  intro s hs
  rw [List.append_assoc, List.singleton_append] at hs
  obtain ⟨as, s₁, hcollect, has, hs₁, hending⟩ := collects_items hx hne hitems hs
  obtain ⟨htoken₁, s₂, hs₂, hr₂⟩ := hs₁.sign x hx hrest
  have hlength : as.length ≤ s.here.rest.length := by
    have h := length_le_length_intercalate (items.map (·.1))
    rw [List.length_map, has.length_eq] at h
    rw [hs.rest, List.length_append, List.length_cons]
    omega
  refine ⟨as, s₂, ?_, has, hr₂.of_ending hending⟩
  change (collect (itemStep x item) >>= _) s = _
  rw [bind_ok (hcollect.collect_eq hlength), bind_ok (expect_of_eq htoken₁ hs₂)]
  rfl

theorem takes_typeArguments (rules : Rules) {items : List (List Char × TypeTree)} (hne : items ≠ [])
    (hitems : ∀ i ∈ items, TakesItem rules.type ">" i.1 (· = i.2)) (hrest : Readable (skipSpace rest)) :
    Takes (typeArguments rules) ('<' :: (comma.intercalate (items.map (·.1)) ++ ['>'])) rest
      (items.map (·.2)) := by
  intro s hs
  have htext : ∃ t', Solid (comma.intercalate (items.map (·.1)) ++ ['>'] ++ rest) ∧
      Starts t' (comma.intercalate (items.map (·.1)) ++ ['>'] ++ rest) ∧ t' ≠ .punct ">" := by
    obtain ⟨i, items, rfl⟩ := List.exists_cons_of_ne_nil hne
    obtain ⟨t, ht, hbehind⟩ := behind_listTail (c := '>') (x := ">") (by decide) rest (items.map (·.1))
    obtain ⟨hsolid, t', hstarts, ht'⟩ := (hitems i (by simp)).readable ht hbehind
    rw [List.append_assoc, List.singleton_append, List.map_cons, intercalate_listTail]
    exact ⟨t', hsolid, hstarts, ht'⟩
  obtain ⟨t', hsolid, hstarts, ht'⟩ := htext
  rw [List.cons_append] at hs
  obtain ⟨htoken, s₁, hs₁, hr₁⟩ := hs.sign "<" (by decide) (Readable.skipSpace ⟨hsolid, t', hstarts⟩)
  have hstands := hr₁.stands_of_solid hsolid
  have hlist := takes_commaList (c := '>') (by decide) (by decide)
    (items.forall_mem_map.mpr hitems : ∀ i ∈ items.map fun i => (i.1, (· = i.2)), _) hrest
  rw [List.map_map] at hlist
  obtain ⟨as, s₂, hs₂, has, hr₂⟩ := hlist s₁ hstands
  obtain rfl : as = items.map (·.2) := by
    have heq : List.Forall₂ Eq as (items.map (·.2)) :=
      List.forall₂_map_right_iff.mpr (List.forall₂_map_left_iff.mp has).flip
    rwa [List.forall₂_eq_eq_eq] at heq
  refine ⟨s₂, ?_, hr₁.trans hr₂⟩
  rw [typeArguments, bind_ok (expect_of_eq htoken hs₁), atSign_bind, hstands.token_eq hstarts,
    if_neg (by simpa using ht')]
  exact hs₂

/-! ## References -/

variable {n : String}

theorem plainType_name (rules : Rules) (hn : isTypeName n = true) (htoken : s.token = .word n true) :
    plainType rules s = typeReference rules s := by
  simp only [isTypeName, Bool.and_eq_true, Option.isNone_iff_eq_none] at hn
  rw [plainType_word rules hn.1 htoken, hn.2]

/-- The name of a reference is also kept as written. -/
theorem typeReference_name (rules : Rules) (hn : isOperandWord n = true) (ht : t ≠ .punct ".")
    (h : Behind t rest) (hs : s.StandsAt (n.toList ++ rest)) : ∃ s', s.Reached rest s' ∧
      typeReference rules s =
        (do return .reference (.name n) n (← typeArguments? rules) : Parser TypeTree) s' := by
  obtain ⟨s₁, hs₁, hr₁⟩ := takes_entityName hn ht h s hs
  have hwritten := textFrom_of_reached hs hr₁
  rw [String.ofList_toList] at hwritten
  refine ⟨s₁, hr₁, ?_⟩
  rw [typeReference, here_bind, bind_ok hs₁, bind_ok hwritten]

theorem takes_name (rules : Rules) (hn : isTypeName n = true) (ht : t ≠ .punct "." ∧ t ≠ .punct "<")
    (h : Behind t rest) : Takes (plainType rules) n.toList rest (.reference (.name n) n []) := by
  intro s hs
  have hword := isOperandWord_of_isTypeName hn
  obtain ⟨s₁, hr₁, hreference⟩ := typeReference_name rules hword ht.1 h hs
  have htoken := hs.token_eq (scans_operandWord hword h.endsWord).starts
  have harguments : typeArguments? rules s₁ = .ok ([], s₁) := by
    rw [typeArguments?, atSign_bind, lineBreak_bind, hr₁.stands.token_eq h.starts, if_neg (by simp [ht.2])]
    rfl
  refine ⟨s₁, ?_, hr₁⟩
  rw [plainType_name rules hn htoken, hreference, bind_ok harguments]
  rfl

theorem takes_instance (rules : Rules) (hn : isTypeName n = true) {arguments : List TypeTree}
    (h : Takes (typeArguments rules) ('<' :: text) rest arguments) :
    Takes (plainType rules) (n.toList ++ '<' :: text) rest (.reference (.name n) n arguments) := by
  intro s hs
  have hword := isOperandWord_of_isTypeName hn
  have hbehind := behind_sign '<' "<" (by decide) (text ++ rest)
  rw [List.append_assoc, List.cons_append] at hs
  obtain ⟨s₁, hr₁, hreference⟩ := typeReference_name rules hword (by decide) hbehind hs
  have htoken := hs.token_eq (scans_operandWord hword hbehind.endsWord).starts
  have hstands := hr₁.stands_of_solid (solid_sign (x := "<") (by decide) _)
  obtain ⟨s₂, hs₂, hr₂⟩ := h s₁ hstands
  have harguments : typeArguments? rules s₁ = .ok (arguments, s₂) := by
    rw [typeArguments?, atSign_bind, lineBreak_bind, hr₁.stands.token_eq hbehind.starts, hstands.sameLine,
      if_pos (by decide), hs₂]
  refine ⟨s₂, ?_, hr₁.trans hr₂⟩
  rw [plainType_name rules hn htoken, hreference, bind_ok harguments]
  rfl

/-! ## Parentheses and brackets -/

theorem takes_group (rules : Rules) {a : TypeTree} (hopen : Readable (text ++ ')' :: rest))
    (h : Takes rules.type text (')' :: rest) a) (hrest : Readable (skipSpace rest)) :
    Takes (plainType rules) ('(' :: (text ++ [')'])) rest a := by
  intro s hs
  rw [List.cons_append, List.append_assoc, List.singleton_append] at hs
  obtain ⟨htoken, s₁, hs₁, hr₁⟩ := hs.sign "(" (by decide) hopen.skipSpace
  obtain ⟨s₂, hs₂, hr₂⟩ := h s₁ (hr₁.stands_of_solid hopen.1)
  obtain ⟨htoken₂, s₃, hs₃, hr₃⟩ :=
    (hr₂.stands_of_solid (solid_sign (x := ")") (by decide) rest)).sign ")" (by decide) hrest
  refine ⟨s₃, ?_, hr₁.trans (hr₂.trans hr₃)⟩
  rw [plainType, here_bind, token_bind, htoken]
  change (advance >>= _) s = _
  rw [bind_ok hs₁, bind_ok hs₂, bind_ok (expect_of_eq htoken₂ hs₃)]
  rfl

/-- Pairs of brackets. -/
def brackets : Nat → List Char
  | 0 => []
  | k + 1 => '[' :: ']' :: brackets k

/-- Arrays of arrays. -/
def arrays : Nat → TypeTree → TypeTree
  | 0, a => a
  | k + 1, a => arrays k (.array a)

theorem behind_brackets (h : Behind t rest) (k : Nat) :
    ∃ t', (t' = .punct "[" ∨ t' = t) ∧ Behind t' (brackets k ++ rest) := by
  cases k with
  | zero => exact ⟨t, .inr rfl, h⟩
  | succ k => exact ⟨_, .inl rfl, behind_sign '[' "[" (by decide) _⟩

/-- The step that `bracketType` repeats. -/
def bracketStep (rules : Rules) (start : Cursor) : Parser (Option (Option String)) := do
  if (← atSign "[") && !(← lineBreak) then
    advance
    if ← eat "]" then return some none
    discard rules.type
    expect "]"
    return some (some (← textFrom start))
  else return none

theorem collects_brackets (rules : Rules) (start : Cursor) (ht : t ≠ .punct "[") (h : Behind t rest) {k : Nat}
    (hs : s.Reached (brackets k ++ rest) s') : ∃ s'', Collects (bracketStep rules start) s'
      (List.replicate k none) s'' ∧ s.Reached rest s'' := by
  induction k generalizing s' with
  | zero =>
    refine ⟨s', .done ?_, hs⟩
    rw [bracketStep, atSign_bind, lineBreak_bind, hs.stands.token_eq h.starts, if_neg (by simp [ht])]
    rfl
  | succ k ih =>
    obtain ⟨_, -, hbehind⟩ := behind_brackets h k
    have hstands := hs.stands_of_solid (solid_sign (x := "[") (by decide) (']' :: (brackets k ++ rest)))
    obtain ⟨htoken, s₁, hs₁, hr₁⟩ := hstands.sign "[" (by decide) (behind_sign ']' "]" (by decide) _).readable
    have hstands₁ := hr₁.stands_of_solid (solid_sign (x := "]") (by decide) _)
    obtain ⟨htoken₁, s₂, hs₂, hr₂⟩ := hstands₁.sign "]" (by decide) hbehind.readable
    obtain ⟨s'', hcollects, hr''⟩ := ih (hs.trans (hr₁.trans hr₂))
    have hstep : bracketStep rules start s' = .ok (some none, s₂) := by
      rw [bracketStep, atSign_bind, lineBreak_bind, htoken, hstands.sameLine, if_pos (by decide), bind_ok hs₁,
        bind_ok (eat_of_eq htoken₁ hs₂)]
      rfl
    exact ⟨s'', .more hstep hcollects, hr''⟩

theorem length_brackets (k : Nat) : (brackets k).length = 2 * k := by
  induction k with
  | zero => rfl
  | succ k ih =>
    rw [brackets, List.length_cons, List.length_cons, ih]
    omega

theorem foldl_brackets (k : Nat) (a : TypeTree) :
    (List.replicate k (none : Option String)).foldl (fun t bracket =>
      match bracket with
      | none => TypeTree.array t
      | some written => .verbatim written) a = arrays k a := by
  induction k generalizing a with
  | zero => rfl
  | succ k ih => exact ih (.array a)

theorem takes_brackets (rules : Rules) {a : TypeTree} {k : Nat} (ht : t ≠ .punct "[") (h : Behind t rest)
    (hplain : Takes (plainType rules) text (brackets k ++ rest) a) :
    Takes (bracketType rules) (text ++ brackets k) rest (arrays k a) := by
  intro s hs
  rw [List.append_assoc] at hs
  obtain ⟨s₁, hs₁, hr₁⟩ := hplain s hs
  obtain ⟨s₂, hcollects, hr₂⟩ := collects_brackets rules s.here ht h hr₁
  refine ⟨s₂, ?_, hr₂⟩
  have hlength : (List.replicate k (none : Option String)).length ≤ s₁.here.rest.length := by
    rw [hr₁.stands.rest, List.length_replicate]
    cases k with
    | zero => omega
    | succ k =>
      rw [brackets, List.cons_append, skipSpace_sign (x := "[") (by decide), List.length_cons,
        List.cons_append, List.length_cons, List.length_append, length_brackets]
      omega
  rw [bracketType, here_bind, bind_ok hs₁]
  change (collect (bracketStep rules s.here) >>= _) s₁ = _
  rw [bind_ok (hcollects.collect_eq hlength)]
  exact congrArg _ (congrArg (·, s₂) (foldl_brackets k a))

/-! ## Operators -/

theorem Opening.token_ne_word (h : Opening t text) (hs : s.StandsAt text) {x : String}
    (hx : typeWords.contains x = true) : s.token ≠ .word x true := by
  rcases h.token hs with ⟨w, hw, htoken⟩ | htoken
  · rw [htoken]
    intro heq
    exact ne_of_isOperandWord hw hx (Token.word.inj heq).1
  · rw [htoken]
    exact fun heq => nomatch heq

theorem takes_wordedType (rules : Rules) (conditional : Bool) {a : TypeTree}
    (hopen : Opening t (text ++ rest)) (h : Takes (bracketType rules) text rest a) :
    Takes (wordedType rules conditional) text rest a := by
  intro s hs
  obtain ⟨s₁, hs₁, hr₁⟩ := h s hs
  have hne : ∀ x, typeWords.contains x = true → s.token ≠ .word x true := fun x => hopen.token_ne_word hs
  have hnone : startsOperatorType s = .ok (false, s) := by
    rw [startsOperatorType, atWord_bind, atWord_bind, atWord_bind,
      beq_eq_false_iff_ne.mpr (hne "keyof" (by decide)), beq_eq_false_iff_ne.mpr (hne "unique" (by decide)),
      beq_eq_false_iff_ne.mpr (hne "readonly" (by decide))]
    rfl
  refine ⟨s₁, ?_, hr₁⟩
  rw [wordedType, here_bind, bind_ok hnone, if_neg (by decide), atWord_bind,
    beq_eq_false_iff_ne.mpr (hne "infer" (by decide)), if_neg (by decide), hs₁]

/-- The parser takes the text for an operand, before each of the tokens. -/
structure TakesOperand (member : Parser TypeTree) (ends : List Token) (text : List Char) (a : TypeTree) :
    Prop where
  takes : ∀ {t rest}, t ∈ ends → Behind t rest → Takes member text rest a
  opens : ∀ {t rest}, t ∈ operandEnds → Behind t rest → ∃ t' ∈ operandEnds, Opening t' (text ++ rest)

/-- The step that `joinedType` repeats. -/
def operandStep (x : String) (member : Parser TypeTree) : Parser (Option TypeTree) := do
  if ← eat x then return some (← member)
  else return none

/-- The text of an operator with its spaces. -/
def operatorText (c : Char) : List Char := [' ', c, ' ']

variable {c : Char} {x : String} {member : Parser TypeTree} {ends : List Token}

theorem behind_operands (hx : (c, x) ∈ operatorSigns) (h : Behind t rest) (texts : List (List Char)) :
    ∃ t', (t' = .punct x ∨ t' = t) ∧ Behind t' (texts.flatMap (operatorText c ++ ·) ++ rest) := by
  cases texts with
  | nil => exact ⟨t, .inr rfl, h⟩
  | cons text texts => exact ⟨_, .inl rfl, behind_operator c x hx _⟩

theorem punct_mem_operandEnds (hx : (c, x) ∈ operatorSigns) : .punct x ∈ operandEnds :=
  (by decide : ∀ p ∈ operatorSigns, .punct p.2 ∈ operandEnds) _ hx

/-- Further operands are read one by one, each behind its operator. -/
theorem collects_operands (hx : (c, x) ∈ operatorSigns) {more : List (List Char × TypeTree)}
    (hmore : ∀ i ∈ more, TakesOperand member (.punct x :: ends) i.1 i.2) (hends : ends ⊆ operandEnds)
    (ht : t ∈ ends) (hne : t ≠ .punct x) (h : Behind t rest)
    (hs : s.Reached ((more.map (·.1)).flatMap (operatorText c ++ ·) ++ rest) s') :
    ∃ s'', Collects (operandStep x member) s' (more.map (·.2)) s'' ∧ s.Reached rest s'' := by
  induction more generalizing s' with
  | nil =>
    refine ⟨s', .done ?_, hs⟩
    have heat : eat x s' = .ok (false, s') := eat_of_ne (by rwa [hs.stands.token_eq h.starts])
    rw [operandStep, bind_ok heat]
    rfl
  | cons i more ih =>
    obtain ⟨hi, hmore⟩ := List.forall_mem_cons.mp hmore
    obtain ⟨t', ht', hbehind⟩ := behind_operands hx h (more.map (·.1))
    have hends' : t' ∈ .punct x :: ends := by
      rcases ht' with rfl | rfl
      · exact List.mem_cons_self
      · exact List.mem_cons_of_mem _ ht
    have hoperand : t' ∈ operandEnds := by
      rcases ht' with rfl | rfl
      · exact punct_mem_operandEnds hx
      · exact hends ht
    obtain ⟨_, -, hopening⟩ := hi.opens hoperand hbehind
    have hstands : s'.StandsAt ([c] ++ ' ' :: (i.1 ++ ((more.map (·.1)).flatMap (operatorText c ++ ·) ++
        rest))) := by
      simpa [operatorText, skipSpace] using hs.stands
    have hscan := scans_operator c x hx (i.1 ++ ((more.map (·.1)).flatMap (operatorText c ++ ·) ++ rest))
    obtain ⟨s₁, hs₁, hr₁⟩ := hstands.advance hscan hopening.readable
    obtain ⟨s₂, hs₂, hr₂⟩ := hi.takes hends' hbehind s₁ hr₁.stands
    obtain ⟨s'', hcollects, hr''⟩ := ih hmore (hs.trans (hr₁.trans hr₂))
    have hstep : operandStep x member s' = .ok (some i.2, s₂) := by
      rw [operandStep, bind_ok (eat_of_eq (hstands.token_eq hscan.starts) hs₁), if_pos rfl, bind_ok hs₂]
      rfl
    exact ⟨s'', .more hstep hcollects, hr''⟩

theorem opens_operands (hx : (c, x) ∈ operatorSigns) {items : List (List Char × TypeTree)}
    (hitems : ∀ i ∈ items, TakesOperand member ends i.1 i.2) (hne : items ≠ []) (ht : t ∈ operandEnds)
    (h : Behind t rest) : ∃ t' ∈ operandEnds,
      Opening t' ((operatorText c).intercalate (items.map (·.1)) ++ rest) := by
  obtain ⟨i, more, rfl⟩ := List.exists_cons_of_ne_nil hne
  obtain ⟨t', ht', hbehind⟩ := behind_operands hx h (more.map (·.1))
  rw [List.map_cons, intercalate_cons_flatMap, List.append_assoc]
  refine (hitems i (by simp)).opens ?_ hbehind
  rcases ht' with rfl | rfl
  · exact punct_mem_operandEnds hx
  · exact ht

/-- What `joinedType` makes of the members. -/
def joined (join : List TypeTree → TypeTree) : List TypeTree → TypeTree
  | [a] => a
  | as => join as

/-- Operands are taken one by one, and what they make up is taken before the other tokens. -/
theorem takes_joinedType (hx : (c, x) ∈ operatorSigns) (join : List TypeTree → TypeTree)
    {items : List (List Char × TypeTree)}
    (hitems : ∀ i ∈ items, TakesOperand member (.punct x :: ends) i.1 i.2) (hne : items ≠ []) (hends : ends ⊆ operandEnds) (hnot : .punct x ∉ ends) (ht : t ∈ ends)
    (h : Behind t rest) : Takes (joinedType x join member)
      ((operatorText c).intercalate (items.map (·.1))) rest (joined join (items.map (·.2))) := by
  intro s hs
  obtain ⟨_, -, hopening⟩ := opens_operands hx hitems hne (hends ht) h
  have hleading : eat x s = .ok (false, s) := by
    refine eat_of_ne ?_
    rcases hopening.token hs with ⟨w, -, htoken⟩ | htoken
    · simp [htoken]
    · rw [htoken]
      exact (by decide : ∀ p ∈ operatorSigns, .punct "(" ≠ Token.punct p.2) _ hx
  obtain ⟨i, more, rfl⟩ := List.exists_cons_of_ne_nil hne
  obtain ⟨hi, hmore⟩ := List.forall_mem_cons.mp hitems
  rw [List.map_cons, intercalate_cons_flatMap, List.append_assoc] at hs
  obtain ⟨t', ht', hbehind⟩ := behind_operands hx h (more.map (·.1))
  have htne : t ≠ .punct x := by
    rintro rfl
    exact hnot ht
  obtain ⟨s₁, hs₁, hr₁⟩ := hi.takes (by rcases ht' with rfl | rfl <;> simp [ht]) hbehind s hs
  obtain ⟨s₂, hcollects, hr₂⟩ := collects_operands hx hmore hends ht htne h hr₁
  refine ⟨s₂, ?_, hr₂⟩
  have hlength : (more.map (·.2)).length ≤ s₁.here.rest.length := by
    have hmore : 3 * _ ≤ _ := length_flatMap_le (operatorText c) (more.map (·.1))
    have hskip := length_le_length_skipSpace ((more.map (·.1)).flatMap (operatorText c ++ ·) ++ rest)
    rw [List.length_map] at hmore
    rw [List.length_append] at hskip
    rw [hr₁.stands.rest, List.length_map]
    omega
  rw [joinedType, bind_ok hleading, bind_ok hs₁]
  change (collect (operandStep x member) >>= _) s₁ = _
  rw [bind_ok (hcollects.collect_eq hlength)]
  cases more <;> rfl

/-- A single operand. -/
theorem TakesOperand.joinedType (hx : (c, x) ∈ operatorSigns) {join : List TypeTree → TypeTree} {a : TypeTree}
    (hi : TakesOperand member (.punct x :: ends) text a) (hends : ends ⊆ operandEnds)
    (hnot : .punct x ∉ ends) : TakesOperand (joinedType x join member) ends text a where
  takes ht h := by
    have hitems : ∀ i ∈ [(text, a)], TakesOperand member (.punct x :: ends) i.1 i.2 := by simpa using hi
    simpa [joined, List.intercalate] using
      takes_joinedType hx join hitems (by simp) hends hnot ht h
  opens := hi.opens

/-- Operands with the sign between them make up the type that `join` gives. -/
def Joins (c : Char) (join : List TypeTree → TypeTree) : Prop :=
  ∀ {rules : Rules} {items : List (List Char × TypeTree)} {t : Token} {rest : List Char},
    (∀ i ∈ items, TakesOperand (rules.operatorType true) operandEnds i.1 i.2) → items ≠ [] → t ∈ typeEnds →
    Behind t rest → Takes (unionType rules true) ((operatorText c).intercalate (items.map (·.1))) rest
      (joined join (items.map (·.2)))

theorem bar_joins : Joins '|' .union := by
  intro rules items t rest hitems hne ht h
  refine takes_joinedType (by decide) _ (fun i hi => ?_) hne (by decide) (by decide) ht h
  exact (hitems i hi).joinedType (c := '&') (by decide) (by decide) (by decide)

theorem ampersand_joins : Joins '&' .intersection := by
  intro rules items t rest hitems hne ht h
  have hmember : TakesOperand (joinedType "&" .intersection (rules.operatorType true))
      (.punct "|" :: typeEnds) ((operatorText '&').intercalate (items.map (·.1)))
      (joined .intersection (items.map (·.2))) := by
    refine ⟨fun ht h => takes_joinedType (by decide) _ hitems hne (by decide) (by decide) ht h, ?_⟩
    exact fun ht h => opens_operands (x := "&") (by decide) hitems hne ht h
  exact (hmember.joinedType (c := '|') (by decide) (by decide) (by decide)).takes ht h

/-- A type that is no function type and no conditional type. -/
theorem takes_fullType (rules : Rules) {a : TypeTree} (ht' : t' ∈ operandEnds)
    (hopen : Opening t' (text ++ rest)) (ht : t ∈ typeEnds) (h : Behind t rest)
    (hunion : Takes (unionType rules true) text rest a) : Takes (fullType rules true) text rest a := by
  intro s hs
  obtain ⟨s₁, hs₁, hr₁⟩ := hunion s hs
  have hextends : s₁.token ≠ .word "extends" true := by
    rw [hr₁.stands.token_eq h.starts]
    exact (by decide : ∀ t ∈ typeEnds, t ≠ .word "extends" true) t ht
  refine ⟨s₁, ?_, hr₁⟩
  rw [fullType, here_bind, bind_ok (startsFunctionType_operand rules ht' hopen hs), if_neg (by decide),
    bind_ok hs₁, atWord_bind, lineBreak_bind, beq_eq_false_iff_ne.mpr hextends, if_neg (by simp)]
  rfl

/-- A type behind a colon. -/
theorem annotation?_eq {rules : Rules} {a : TypeTree} {s₁ s₂ : ParserState} (htoken : s.token = .punct ":")
    (htyped : s.dialect.typed = true) (hs₁ : advance s = .ok ((), s₁)) (hs₂ : rules.type s₁ = .ok (a, s₂)) :
    annotation? rules s = .ok (some a, s₂) := by
  have hrequire : requireTypes s = .ok ((), s) := by
    change (if !s.dialect.typed then fail "types are not allowed here" else pure () : Parser Unit) s = _
    rw [htyped]
    rfl
  rw [annotation?, atSign_bind, htoken, if_pos (by decide), bind_ok hrequire, bind_ok hs₁, bind_ok hs₂]
  rfl

end ApiDocs.TypeScript
