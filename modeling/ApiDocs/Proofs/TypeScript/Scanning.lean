import ApiDocs.TypeScript.Parser.Type

/-!
# Scanning texts part by part

What token a text starts with depends on what follows the token: a word goes on as long as it can, and
a bar with another bar behind it is another sign. So a token is looked at with the text behind it,
`Scans`, and texts are put together one token at a time. Between two tokens there is at most one space.

A parser that has read some tokens stands before the next one, and what is left of the source is a text
that is known. All that matters of the way there is what was left when the last token had been read:
offsets follow from it, since where the source ends does not change.

## Main definitions

* `TypeScript.Scans`: a text starts with a token.
* `TypeScript.ParserState.StandsAt`: a parser is about to read a text.
* `TypeScript.ParserState.Reached`: a parser has read on.

## Main results

* `TypeScript.scans_word`, `TypeScript.scans_sign`: words and signs.
* `TypeScript.ParserState.StandsAt.advance`: reading a token.
-/

namespace ApiDocs.TypeScript

/-! ## Lengths -/

theorem foldl_utf8Size (cs : List Char) (n : Nat) :
    cs.foldl (fun n c => n + c.utf8Size) n = n + byteLength cs := by
  unfold byteLength
  induction cs generalizing n with
  | nil => rfl
  | cons c cs ih =>
    rw [List.foldl_cons, List.foldl_cons, ih, ih (0 + c.utf8Size)]
    omega

@[simp] theorem byteLength_nil : byteLength [] = 0 := rfl

@[simp] theorem byteLength_cons (c : Char) (cs : List Char) :
    byteLength (c :: cs) = c.utf8Size + byteLength cs := by
  rw [byteLength, List.foldl_cons, foldl_utf8Size]
  omega

@[simp] theorem byteLength_append (cs ds : List Char) :
    byteLength (cs ++ ds) = byteLength cs + byteLength ds := by
  rw [byteLength, List.foldl_append, foldl_utf8Size]
  rfl

theorem Cursor.moveTo_append (read rest : List Char) (offset : Nat) :
    (⟨read ++ rest, offset⟩ : Cursor).moveTo rest = ⟨rest, offset + byteLength read⟩ := by
  simp [Cursor.moveTo]

theorem Cursor.textUpTo_append (read rest : List Char) (offset : Nat) :
    (⟨read ++ rest, offset⟩ : Cursor).textUpTo (offset + byteLength read) = read := by
  suffices h : ∀ (read : List Char) (o : Nat), textUpTo.go (o + byteLength read) (read ++ rest) o = read
    from h read offset
  intro read
  induction read with
  | nil =>
    intro o
    cases rest <;> simp [textUpTo.go]
  | cons c read ih =>
    intro o
    have hsize := c.utf8Size_pos
    have hih := ih (o + c.utf8Size)
    rw [Nat.add_assoc] at hih
    simp only [byteLength_cons, List.cons_append, textUpTo.go]
    rw [if_pos (by omega), hih]

/-! ## Tokens -/

/-- A text starts with the token, which is written `read`, and behind it comes `rest`. -/
def Scans (t : Token) (read rest : List Char) : Prop :=
  ∀ offset, scanToken ⟨read ++ rest, offset⟩ = .ok (t, ⟨rest, offset + byteLength read⟩)

/-- The first token of a text. -/
def Starts (t : Token) (text : List Char) : Prop :=
  ∃ read rest, text = read ++ rest ∧ Scans t read rest

theorem Scans.starts {t : Token} {read rest : List Char} (h : Scans t read rest) :
    Starts t (read ++ rest) := ⟨read, rest, rfl, h⟩

theorem scans_eof : Scans .eof [] [] := fun _ => rfl

/-- Is the text a word? -/
def isWord : List Char → Bool
  | [] => false
  | c :: cs => Text.isNameStart c && cs.all Text.isNamePart

/-- A word ends before the text. -/
def EndsWord (rest : List Char) : Prop := ∀ c ∈ rest.head?, Text.isNamePart c = false ∧ c ≠ '\\'

theorem letter_of_isAlpha {c : Char} (h : c.isAlpha = true) :
    (65 ≤ c.toNat ∧ c.toNat ≤ 90) ∨ (97 ≤ c.toNat ∧ c.toNat ≤ 122) := by
  rcases (Bool.or_eq_true ..).mp h with hupper | hlower
  · exact .inl (of_decide_eq_true hupper)
  · have h := (Bool.and_eq_true ..).mp hlower
    exact .inr ⟨of_decide_eq_true h.1, of_decide_eq_true h.2⟩

theorem not_isDigit_of_isNameStart {c : Char} (h : Text.isNameStart c = true) : c.isDigit = false := by
  rw [← Bool.not_eq_true]
  intro hdigit
  have hdigit : 48 ≤ c.toNat ∧ c.toNat ≤ 57 := by
    have h := (Bool.and_eq_true ..).mp hdigit
    exact ⟨of_decide_eq_true h.1, of_decide_eq_true h.2⟩
  simp only [Text.isNameStart, Text.isForeignNamePart, Bool.or_eq_true, Bool.and_eq_true,
    decide_eq_true_eq] at h
  rcases h with ((halpha | rfl) | rfl) | hforeign
  · have := letter_of_isAlpha halpha
    omega
  · exact absurd hdigit (by decide)
  · exact absurd hdigit (by decide)
  · omega

theorem scanName_word {w rest : List Char} (hw : w.all Text.isNamePart) (hrest : EndsWord rest) (fuel : Nat)
    (hfuel : w.length < fuel) : scanName fuel (w ++ rest) = some (w, true, rest) := by
  induction w generalizing fuel with
  | nil =>
    obtain ⟨fuel, rfl⟩ : ∃ n, fuel = n + 1 := ⟨fuel - 1, by simp at hfuel; omega⟩
    cases rest with
    | nil => rfl
    | cons c rest =>
      obtain ⟨hpart, hslash⟩ := hrest c rfl
      simp [scanName, hpart, hslash]
  | cons c w ih =>
    obtain ⟨fuel, rfl⟩ : ∃ n, fuel = n + 1 := ⟨fuel - 1, by simp at hfuel; omega⟩
    simp only [List.all_cons, Bool.and_eq_true] at hw
    have hslash : c ≠ '\\' := by
      rintro rfl
      exact absurd hw.1 (by decide)
    have hmore := ih hw.2 fuel (by simp at hfuel; omega)
    simp [scanName, hslash, hw.1, hmore]

/-- A word is read as far as it goes. -/
theorem scans_word {w rest : List Char} (hw : isWord w = true) (hrest : EndsWord rest) :
    Scans (.word (String.ofList w) true) w rest := by
  intro offset
  obtain ⟨c, cs, rfl⟩ : ∃ c cs, w = c :: cs := by
    cases w with
    | nil => cases hw
    | cons c cs => exact ⟨c, cs, rfl⟩
  simp only [isWord, Bool.and_eq_true] at hw
  have hne : ∀ d : Char, Text.isNameStart d = false → c ≠ d := by
    rintro d hd rfl
    rw [hw.1] at hd
    cases hd
  have hall : (c :: cs).all Text.isNamePart := by simp [Text.isNamePart, hw.1, hw.2]
  have hlength : (c :: cs).length < (c :: cs ++ rest).length + 1 := by
    rw [List.length_append]
    omega
  have hname := scanName_word hall hrest ((c :: cs ++ rest).length + 1) hlength
  have hdigit := not_isDigit_of_isNameStart hw.1
  have hpoint := hne '.' (by decide)
  have hmove := Cursor.moveTo_append (c :: cs) rest offset
  unfold scanToken
  split
  next => simp_all
  next h => exact absurd (List.cons.inj h).1 (hne _ (by decide))
  next h => exact absurd (List.cons.inj h).1 (hne _ (by decide))
  next h => exact absurd (List.cons.inj h).1 (hne _ (by decide))
  next h => exact absurd (List.cons.inj h).1 (hne _ (by decide))
  next x after _ _ _ _ h =>
    obtain ⟨rfl, rfl⟩ := List.cons.inj h
    rw [if_neg (by simp [hdigit, hpoint]), if_pos (by simp [hw.1]), hname]
    simp only [List.isEmpty_cons, Bool.false_eq_true, if_false, hmove]

/-- The signs of one character that no longer sign starts with. -/
def plainSigns : List (Char × String) :=
  [('<', "<"), ('>', ">"), ('[', "["), (']', "]"), ('(', "("), (')', ")"), (',', ","), (':', ":")]

theorem scans_sign (c : Char) (x : String) (h : (c, x) ∈ plainSigns) (rest : List Char) :
    Scans (.punct x) [c] rest := by
  intro offset
  rw [← Cursor.moveTo_append]
  simp only [plainSigns, List.mem_cons, Prod.mk.injEq, List.not_mem_nil, or_false] at h
  rcases h with ⟨rfl, rfl⟩ | ⟨rfl, rfl⟩ | ⟨rfl, rfl⟩ | ⟨rfl, rfl⟩ | ⟨rfl, rfl⟩ | ⟨rfl, rfl⟩ | ⟨rfl, rfl⟩ |
    ⟨rfl, rfl⟩
  all_goals rfl

/-- The signs between the members of unions and intersections. -/
def operatorSigns : List (Char × String) := [('|', "|"), ('&', "&")]

theorem scans_operator (c : Char) (x : String) (h : (c, x) ∈ operatorSigns) (rest : List Char) :
    Scans (.punct x) [c] (' ' :: rest) := by
  intro offset
  rw [← Cursor.moveTo_append]
  simp only [operatorSigns, List.mem_cons, Prod.mk.injEq, List.not_mem_nil, or_false] at h
  rcases h with ⟨rfl, rfl⟩ | ⟨rfl, rfl⟩
  all_goals rfl

theorem scans_arrow (rest : List Char) : Scans (.punct "=>") ['=', '>'] rest := by
  intro offset
  rw [← Cursor.moveTo_append]
  rfl

/-! ## Gaps -/

/-- The text without a space at its front. -/
def skipSpace : List Char → List Char
  | ' ' :: cs => cs
  | cs => cs

/-- Nothing that stands between tokens is at the front of the text. -/
def Solid (text : List Char) : Prop :=
  ∀ c ∈ text.head?, isLineBreak c = false ∧ isGapChar c = false ∧ c ≠ '/'

/-- A token can be read off the text. -/
def Readable (text : List Char) : Prop := Solid text ∧ ∃ t, Starts t text

theorem not_isNameStart_of_isGapChar {c : Char} (h : isGapChar c = true) : Text.isNameStart c = false := by
  have hc : c.toNat ∈ [9, 10, 11, 12, 13, 0x20, 0x85, 0xA0, 0x1680, 0x2000, 0x2001, 0x2002, 0x2003, 0x2004,
      0x2005, 0x2006, 0x2007, 0x2008, 0x2009, 0x200A, 0x2028, 0x2029, 0x202F, 0x205F, 0x3000, 0xFEFF] := by
    simp only [isGapChar, Text.isBlank, Bool.or_eq_true, Bool.and_eq_true, decide_eq_true_eq,
      beq_iff_eq] at h
    simp only [List.mem_cons, List.not_mem_nil, or_false]
    omega
  rw [← Char.ofNat_toNat c]
  revert hc
  generalize c.toNat = n
  revert n
  decide +kernel

theorem isGapChar_of_isLineBreak {c : Char} (h : isLineBreak c = true) : isGapChar c = true := by
  simp only [isLineBreak, Bool.or_eq_true, decide_eq_true_eq, beq_iff_eq] at h
  rcases h with ((rfl | rfl) | h) | h
  · decide
  · decide
  · simp [isGapChar, Text.isBlank, h]
  · simp [isGapChar, Text.isBlank, h]

/-- A word is no part of a gap. -/
theorem solid_word {w : List Char} (hw : isWord w = true) (rest : List Char) : Solid (w ++ rest) := by
  cases w with
  | nil => cases hw
  | cons c cs =>
    simp only [isWord, Bool.and_eq_true] at hw
    have hgap : isGapChar c = false := by
      rw [← Bool.not_eq_true]
      intro hgap
      rw [not_isNameStart_of_isGapChar hgap] at hw
      cases hw.1
    have hbreak : isLineBreak c = false := by
      rw [← Bool.not_eq_true]
      intro hbreak
      rw [isGapChar_of_isLineBreak hbreak] at hgap
      cases hgap
    have hslash : c ≠ '/' := by
      rintro rfl
      exact absurd hw.1 (by decide)
    simpa [Solid] using ⟨hbreak, hgap, hslash⟩

theorem skipSpace_of_solid {text : List Char} (h : Solid text) : skipSpace text = text := by
  unfold skipSpace
  split
  next => exact absurd (h ' ' rfl).2.1 (by decide)
  next => rfl

theorem length_le_length_skipSpace (text : List Char) : text.length ≤ (skipSpace text).length + 1 := by
  unfold skipSpace
  split
  · simp
  · omega

theorem Readable.skipSpace {text : List Char} (h : Readable text) : Readable (skipSpace text) := by
  rwa [skipSpace_of_solid h.1]

theorem scanGapFuel_solid {text : List Char} (h : Solid text) (held : Bool) (gap : Gap) (fuel offset : Nat) :
    scanGapFuel held fuel gap ⟨text, offset⟩ = .ok (gap, ⟨text, offset⟩) := by
  cases fuel with
  | zero => rfl
  | succ fuel =>
    cases text with
    | nil => rfl
    | cons c text =>
      obtain ⟨hbreak, hgap, hslash⟩ := h c rfl
      simp [scanGapFuel, hbreak, hgap, hslash]

/-- A gap is at most one space. -/
theorem scanGap_skipSpace {rest : List Char} (h : Solid (skipSpace rest)) (held : Bool) (offset : Nat) :
    ∃ offset', scanGap false held ⟨rest, offset⟩ = .ok ({}, ⟨skipSpace rest, offset'⟩) ∧
      offset' + byteLength (skipSpace rest) = offset + byteLength rest := by
  unfold skipSpace at h ⊢
  split at h
  next cs =>
    refine ⟨offset + ' '.utf8Size, ?_, by simp; omega⟩
    simp only [scanGap, List.length_cons]
    exact scanGapFuel_solid h held {} _ _
  next => exact ⟨offset, scanGapFuel_solid h held {} _ _, rfl⟩

/-! ## Parsers on their way -/

namespace ParserState

/-- The parser is about to read a text, on the line of the token before. -/
structure StandsAt (s : ParserState) (text : List Char) : Prop where
  rest : s.here.rest = text
  scanned : scanToken s.here = .ok (s.token, s.next)
  sameLine : s.lineBreak = false
  typed : s.dialect.typed = true

/-- The offset at which the source ends. -/
def ending (s : ParserState) : Nat := s.here.offset + byteLength s.here.rest

/-- From `s` on, the parser has read tokens up to where `rest` was left, and got to `s'`. -/
structure Reached (s : ParserState) (rest : List Char) (s' : ParserState) : Prop where
  stands : s'.StandsAt (skipSpace rest)
  ending : s'.ending = s.ending
  lastStop : s'.lastStop + byteLength rest = s.ending

variable {s s' s'' : ParserState} {t : Token} {text read rest rest' : List Char}

theorem Reached.trans (h : s.Reached rest s') (h' : s'.Reached rest' s'') : s.Reached rest' s'' where
  stands := h'.stands
  ending := h'.ending.trans h.ending
  lastStop := h'.lastStop.trans h.ending

/-- Where parsing went on from is the same as long as the source ends at the same offset. -/
theorem Reached.of_ending (h : s'.Reached rest s'') (he : s'.ending = s.ending) : s.Reached rest s'' where
  stands := h.stands
  ending := h.ending.trans he
  lastStop := h.lastStop.trans he

theorem StandsAt.here_eq (h : s.StandsAt text) : s.here = ⟨text, s.here.offset⟩ := by
  rw [← h.rest]

theorem StandsAt.token_eq (h : s.StandsAt text) (ht : Starts t text) : s.token = t := by
  obtain ⟨read, rest, rfl, ht⟩ := ht
  have hscanned := h.scanned
  rw [h.here_eq, ht] at hscanned
  exact (Prod.mk.inj (Except.ok.inj hscanned)).1.symm

/-- A token is read. It may be the first on its line. -/
theorem advance_reached (hhere : s.here.rest = read ++ rest)
    (hscanned : scanToken s.here = .ok (s.token, s.next)) (htyped : s.dialect.typed = true)
    (ht : Scans t read rest) (hrest : Readable (skipSpace rest)) :
    ∃ s', Parser.advance s = .ok ((), s') ∧ s.Reached rest s' := by
  obtain ⟨hsolid, t', read', rest', htext, ht'⟩ := hrest
  have hnext : s.next = ⟨rest, s.here.offset + byteLength read⟩ := by
    rw [show s.here = ⟨read ++ rest, s.here.offset⟩ from hhere ▸ rfl, ht] at hscanned
    exact (Prod.mk.inj (Except.ok.inj hscanned)).2.symm
  obtain ⟨offset, hgap, hoffset⟩ := scanGap_skipSpace hsolid
    (s.token = .punct "=" || s.token = .punct "(") (s.here.offset + byteLength read)
  have hscan : scanToken ⟨skipSpace rest, offset⟩ = .ok (t', ⟨rest', offset + byteLength read'⟩) := by
    rw [htext]
    exact ht' offset
  refine ⟨{ s with
    token := t', here := ⟨skipSpace rest, offset⟩, next := ⟨rest', offset + byteLength read'⟩
    lineBreak := false, lastStop := s.next.offset }, ?_, ⟨rfl, hscan, rfl, htyped⟩, ?_, ?_⟩
  · unfold Parser.advance
    simp only [hnext, hgap, bind, Except.bind, hscan]
    rfl
  · simp only [ending, hhere, byteLength_append]
    omega
  · simp only [ending, hhere, byteLength_append, hnext]
    omega

theorem StandsAt.advance (h : s.StandsAt (read ++ rest)) (ht : Scans t read rest)
    (hrest : Readable (skipSpace rest)) : ∃ s', Parser.advance s = .ok ((), s') ∧ s.Reached rest s' :=
  advance_reached h.rest h.scanned h.typed ht hrest

end ParserState

/-- Behind a token comes the token `t`, in this text; it is not taken for a part of a word. -/
structure Behind (t : Token) (rest : List Char) : Prop where
  endsWord : EndsWord rest
  solid : Solid (skipSpace rest)
  starts : Starts t (skipSpace rest)

theorem Behind.readable {t : Token} {rest : List Char} (h : Behind t rest) : Readable (skipSpace rest) :=
  ⟨h.solid, t, h.starts⟩

theorem behind_nil : Behind .eof [] :=
  ⟨by simp [EndsWord], by simp [Solid, skipSpace], scans_eof.starts⟩

theorem solid_sign {c : Char} {x : String} (h : (c, x) ∈ plainSigns) (rest : List Char) :
    Solid (c :: rest) := by
  have hgap : isLineBreak c = false ∧ isGapChar c = false ∧ c ≠ '/' :=
    (by decide : ∀ p ∈ plainSigns, isLineBreak p.1 = false ∧ isGapChar p.1 = false ∧ p.1 ≠ '/') _ h
  simpa [Solid] using hgap

theorem skipSpace_sign {c : Char} {x : String} (h : (c, x) ∈ plainSigns) (rest : List Char) :
    skipSpace (c :: rest) = c :: rest :=
  skipSpace_of_solid (solid_sign h rest)

theorem behind_sign (c : Char) (x : String) (h : (c, x) ∈ plainSigns) (rest : List Char) :
    Behind (.punct x) (c :: rest) := by
  have hword : Text.isNamePart c = false ∧ c ≠ '\\' :=
    (by decide : ∀ p ∈ plainSigns, Text.isNamePart p.1 = false ∧ p.1 ≠ '\\') _ h
  refine ⟨by simpa [EndsWord] using hword, ?_, ?_⟩
  · rw [skipSpace_sign h]
    exact solid_sign h rest
  · rw [skipSpace_sign h]
    exact (scans_sign c x h rest).starts

theorem behind_operator (c : Char) (x : String) (h : (c, x) ∈ operatorSigns) (rest : List Char) :
    Behind (.punct x) (' ' :: c :: ' ' :: rest) := by
  have hgap : isLineBreak c = false ∧ isGapChar c = false ∧ c ≠ '/' :=
    (by decide : ∀ p ∈ operatorSigns, isLineBreak p.1 = false ∧ isGapChar p.1 = false ∧ p.1 ≠ '/') _ h
  refine ⟨?_, by simpa [skipSpace, Solid] using hgap, (scans_operator c x h rest).starts⟩
  simp only [EndsWord, List.head?_cons, Option.mem_some_iff, forall_eq']
  decide

theorem behind_arrow (rest : List Char) : Behind (.punct "=>") (' ' :: '=' :: '>' :: rest) := by
  refine ⟨?_, ?_, (scans_arrow rest).starts⟩
  · simp only [EndsWord, List.head?_cons, Option.mem_some_iff, forall_eq']
    decide
  · simp only [skipSpace, Solid, List.head?_cons, Option.mem_some_iff, forall_eq']
    decide

theorem ParserState.Reached.stands_of_solid {s s' : ParserState} {rest : List Char}
    (h : s.Reached rest s') (hrest : Solid rest) : s'.StandsAt rest := by
  have hstands := h.stands
  rwa [skipSpace_of_solid hrest] at hstands

/-- A sign is read. -/
theorem ParserState.StandsAt.sign {s : ParserState} {c : Char} {rest : List Char}
    (hs : s.StandsAt (c :: rest)) (x : String) (h : (c, x) ∈ plainSigns) (hrest : Readable (skipSpace rest)) :
    s.token = .punct x ∧ ∃ s', Parser.advance s = .ok ((), s') ∧ s.Reached rest s' := by
  have hscan := scans_sign c x h rest
  change s.StandsAt ([c] ++ rest) at hs
  exact ⟨hs.token_eq hscan.starts, hs.advance hscan hrest⟩

/-! ## Steps of parsers -/

namespace Parser

open ParserState

variable {α β : Type} {p : Parser α} {f : α → Parser β} {s s' : ParserState} {a : α} {x : String}

theorem bind_ok (h : p s = .ok (a, s')) : (p >>= f) s = f a s' := by
  simp only [bind, StateT.bind, h, Except.bind]

theorem bind_error {e : ParseError} (h : p s = .error e) : (p >>= f) s = .error e := by
  simp only [bind, StateT.bind, h, Except.bind]

@[simp] theorem pure_run : (pure a : Parser α) s = .ok (a, s) := rfl

@[simp] theorem token_bind {f : Token → Parser β} : (token >>= f) s = f s.token s := rfl

@[simp] theorem here_bind {f : Cursor → Parser β} : (here >>= f) s = f s.here s := rfl

@[simp] theorem lineBreak_bind {f : Bool → Parser β} : (lineBreak >>= f) s = f s.lineBreak s := rfl

@[simp] theorem atSign_run : atSign x s = .ok (s.token == .punct x, s) := rfl

@[simp] theorem atSign_bind {f : Bool → Parser β} :
    (atSign x >>= f) s = f (s.token == .punct x) s := rfl

@[simp] theorem atWord_run : atWord x s = .ok (s.token == .word x true, s) := rfl

@[simp] theorem atWord_bind {f : Bool → Parser β} :
    (atWord x >>= f) s = f (s.token == .word x true) s := rfl

@[simp] theorem atOneOf_bind {xs : List String} {f : Bool → Parser β} : (atOneOf xs >>= f) s =
    f (match s.token with | .punct x => xs.contains x | _ => false) s := by
  rw [atOneOf, bind_assoc, token_bind]
  cases s.token <;> rfl

@[simp] theorem word?_bind {f : Option String → Parser β} : (word? >>= f) s =
    f (match s.token with | .word w _ => some w | _ => none) s := by
  rw [word?, bind_assoc, token_bind]
  cases s.token <;> rfl

theorem discard_ok (h : p s = .ok (a, s')) : discard p s = .ok ((), s') := by
  change (p >>= fun _ => pure ()) s = _
  rw [bind_ok h]
  rfl

theorem discard_error {e : ParseError} (h : p s = .error e) : discard p s = .error e := by
  change (p >>= fun _ => pure ()) s = _
  rw [bind_error h]

theorem eat_of_ne (h : s.token ≠ .punct x) : eat x s = .ok (false, s) := by
  simp [eat, h]

theorem eat_of_eq (h : s.token = .punct x) (hs : advance s = .ok ((), s')) : eat x s = .ok (true, s') := by
  rw [eat, atSign_bind, h, if_pos (by simp), bind_ok hs]
  rfl

theorem eatWord_of_ne (h : s.token ≠ .word x true) : eatWord x s = .ok (false, s) := by
  simp [eatWord, h]

theorem expect_of_eq (h : s.token = .punct x) (hs : advance s = .ok ((), s')) :
    expect x s = .ok ((), s') := by
  simp [expect, h, hs]

theorem expect_of_ne (h : s.token ≠ .punct x) : ∃ e, expect x s = .error e := by
  simp [expect, h, fail, failAt]

theorem expectWord_of_eq (h : s.token = .word x true) (hs : advance s = .ok ((), s')) :
    expectWord x s = .ok ((), s') := by
  simp [expectWord, h, hs]

theorem expectWord_of_ne (h : s.token ≠ .word x true) : ∃ e, expectWord x s = .error e := by
  simp [expectWord, h, fail, failAt]

theorem anyWord_of_eq {w : String} {plain : Bool} (h : s.token = .word w plain)
    (hs : advance s = .ok ((), s')) : anyWord s = .ok (w, s') := by
  rw [anyWord, word?_bind, h]
  dsimp only
  rw [bind_ok hs]
  rfl

theorem anyWord_of_ne (h : ∀ w plain, s.token ≠ .word w plain) : ∃ e, anyWord s = .error e := by
  rw [anyWord, word?_bind]
  cases ht : s.token with
  | word w plain => exact absurd ht (h w plain)
  | _ => exact ⟨_, rfl⟩

theorem aheadHolds_ok {p : Parser Bool} {b : Bool} (h : p s = .ok (b, s')) :
    aheadHolds p s = .ok (b, s) := by
  have hahead : ahead p s = .ok (some b, s) := by simp [ahead, h]
  rw [aheadHolds, bind_ok hahead]
  rfl

theorem aheadHolds_error {p : Parser Bool} (h : ∃ e, p s = .error e) : aheadHolds p s = .ok (false, s) := by
  obtain ⟨e, h⟩ := h
  have hahead : ahead p s = .ok (none, s) := by simp [ahead, h]
  rw [aheadHolds, bind_ok hahead]
  rfl

/-- The text from where the parser stood is what it has read since. -/
theorem textFrom_of_reached {read rest : List Char} (hs : s.StandsAt (read ++ rest))
    (h : s.Reached rest s') : textFrom s.here s' = .ok (String.ofList read, s') := by
  have hstop : s'.lastStop = s.here.offset + byteLength read := by
    have hlast := h.lastStop
    rw [ending, hs.rest, byteLength_append] at hlast
    omega
  have htext : s.here.textUpTo s'.lastStop = read := by
    rw [hs.here_eq, hstop]
    exact Cursor.textUpTo_append read rest s.here.offset
  change Except.ok (String.ofList (s.here.textUpTo s'.lastStop), s') = _
  rw [htext]

/-! ### Repetition -/

/-- A step that is repeated gives the values one by one, and then nothing. -/
inductive Collects (step : Parser (Option α)) : ParserState → List α → ParserState → Prop where
  | done {s s' : ParserState} : step s = .ok (none, s') → Collects step s [] s'
  | more {s s₁ s' : ParserState} {a : α} {as : List α} : step s = .ok (some a, s₁) →
    Collects step s₁ as s' → Collects step s (a :: as) s'

theorem Collects.collectFuel_eq {step : Parser (Option α)} {as : List α} (h : Collects step s as s')
    {fuel : Nat} (hfuel : as.length < fuel) : collectFuel step fuel s = .ok (as, s') := by
  induction h generalizing fuel with
  | done hstep =>
    obtain ⟨fuel, rfl⟩ : ∃ n, fuel = n + 1 := ⟨fuel - 1, by simp at hfuel; omega⟩
    rw [collectFuel, bind_ok hstep]
    rfl
  | more hstep _ ih =>
    obtain ⟨fuel, rfl⟩ : ∃ n, fuel = n + 1 := ⟨fuel - 1, by simp at hfuel; omega⟩
    simp only [List.length_cons] at hfuel
    rw [collectFuel, bind_ok hstep]
    dsimp only
    rw [bind_ok (ih (by omega))]
    rfl

/-- There are no more values than characters, so the bound on repetition is never met. -/
theorem Collects.collect_eq {step : Parser (Option α)} {as : List α} (h : Collects step s as s')
    (hlength : as.length ≤ s.here.rest.length) : collect step s = .ok (as, s') :=
  h.collectFuel_eq (by omega)

end Parser

end ApiDocs.TypeScript
