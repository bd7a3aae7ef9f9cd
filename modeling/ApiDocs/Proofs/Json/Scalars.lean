import ApiDocs.Json.Reader
import ApiDocs.Json.Writer
import Mathlib.Data.List.TakeWhile
import Mathlib.Data.Nat.Digits.Lemmas

/-!
# Scalars are read back

A string, a word or a number is read off the front of a text as what it was written for. Strings close
themselves. A number does not, so it matters what follows it: nothing that a number could go on with.

Integers of 64 bits are read back whatever they are. Of doubles nothing is proved here: that the digits
chosen for a double lead back to it is asked of each double by itself, as `ReadsBack`. What is proved is
that a number which is read back alone is read back wherever it stands.

## Main definitions

* `Json.EndsNumber`: a text that a number before it cannot go on with.
* `Binary64.ReadsBack`: the text of the double is that of no other number.
* `Json.Readable`: all numbers in a value are read back.
-/

namespace ApiDocs

open Number (twoTo)

namespace Json

/-! ## Strings -/

theorem hexNumber?_hexPadded :
    ∀ n < 0x20, (Text.hexPadded 4 n).length = 4 ∧ hexNumber? (Text.hexPadded 4 n) = some n := by
  decide

theorem readUnits_of_ne {c : Char} {rest : List Char} (hquote : c ≠ '"') (hslash : c ≠ '\\')
    (hcontrol : ¬ c.toNat < 0x20) :
    readUnits (c :: rest) = (readUnits rest).map fun r => (.char c :: r.1, r.2) := by
  rw [readUnits.eq_def]
  split
  next h => exact absurd (List.cons.inj h).1 hquote
  next h => exact absurd (List.cons.inj h).1 hslash
  next h => exact absurd (List.cons.inj h).1 hslash
  next h =>
    obtain ⟨rfl, rfl⟩ := List.cons.inj h
    rw [if_neg hcontrol, Option.map_eq_bind]
    rfl
  next h => cases h

theorem readUnits_escape {e c : Char} {rest : List Char} (hu : e ≠ 'u') (h : escapedChar? e = some c) :
    readUnits ('\\' :: e :: rest) = (readUnits rest).map fun r => (.char c :: r.1, r.2) := by
  rw [readUnits.eq_def]
  split
  next h => cases h
  next h => exact absurd (List.cons.inj (List.cons.inj h).2).1 hu
  next h' =>
    cases h'
    rw [h, Option.map_eq_bind]
    rfl
  next hne h' =>
    cases h'
    exact absurd rfl (hne e rest rfl)
  next h => cases h

theorem readUnits_code {n : Nat} {digits rest : List Char} (hlength : digits.length = 4)
    (h : hexNumber? digits = some n) :
    readUnits ('\\' :: 'u' :: digits ++ rest) =
      (readUnits rest).map fun r => (.code n :: r.1, r.2) := by
  match digits, hlength with
  | [a, b, x, d], _ =>
    change readUnits ('\\' :: 'u' :: a :: b :: x :: d :: rest) = _
    rw [readUnits.eq_def, Option.map_eq_bind]
    simp only [h]
    rfl

/-- What is written for a character is read as one piece, which stands for the character. -/
theorem readUnits_stringChar (c : Char) (rest : List Char) :
    ∃ u, readUnits (stringChar c ++ rest) = (readUnits rest).map (fun r => (u :: r.1, r.2)) ∧
      ∀ us, joinUnits (u :: us) = (joinUnits us).map (c :: ·) := by
  unfold stringChar
  split
  next h => exact ⟨.char '"', readUnits_escape (by decide) rfl, fun _ => by rw [h]; rfl⟩
  next hquote =>
  split
  next h => exact ⟨.char '\\', readUnits_escape (by decide) rfl, fun _ => by rw [h]; rfl⟩
  next hslash =>
  split
  next h => exact ⟨.char '\x08', readUnits_escape (by decide) rfl, fun _ => by rw [h]; rfl⟩
  split
  next h => exact ⟨.char '\x0c', readUnits_escape (by decide) rfl, fun _ => by rw [h]; rfl⟩
  split
  next h => exact ⟨.char '\n', readUnits_escape (by decide) rfl, fun _ => by rw [h]; rfl⟩
  split
  next h => exact ⟨.char '\x0d', readUnits_escape (by decide) rfl, fun _ => by rw [h]; rfl⟩
  split
  next h => exact ⟨.char '\t', readUnits_escape (by decide) rfl, fun _ => by rw [h]; rfl⟩
  split
  next hcontrol =>
    obtain ⟨hlength, hnumber⟩ := hexNumber?_hexPadded c.toNat hcontrol
    refine ⟨.code c.toNat, readUnits_code hlength hnumber, fun us => ?_⟩
    -- A control is no half of a surrogate pair.
    have hhigh : isHighSurrogate c.toNat = false := by simp [isHighSurrogate]; omega
    have hlow : isLowSurrogate c.toNat = false := by simp [isLowSurrogate]; omega
    rw [joinUnits.eq_def]
    simp only [hhigh, hlow, Bool.false_eq_true, if_false, Char.ofNat_toNat]
  next hcontrol => exact ⟨.char c, readUnits_of_ne hquote hslash hcontrol, fun _ => rfl⟩

/-- A string is read back, whatever follows its closing quote. -/
theorem readString_stringText (s : String) (rest : List Char) :
    readString (s.toList.flatMap stringChar ++ '"' :: rest) = some (s, rest) := by
  have hunits : ∀ cs : List Char, ∃ us,
      readUnits (cs.flatMap stringChar ++ '"' :: rest) = some (us, rest) ∧ joinUnits us = some cs := by
    intro cs
    induction cs with
    | nil => exact ⟨[], by simp [readUnits], rfl⟩
    | cons c cs ih =>
      obtain ⟨us, hread, hjoin⟩ := ih
      obtain ⟨u, hunit, hchar⟩ := readUnits_stringChar c (cs.flatMap stringChar ++ '"' :: rest)
      refine ⟨u :: us, ?_, by rw [hchar, hjoin]; rfl⟩
      rw [List.flatMap_cons, List.append_assoc, hunit, hread]
      rfl
  obtain ⟨us, hread, hjoin⟩ := hunits s.toList
  unfold readString
  rw [hread]
  simp [hjoin]

/-! ## Digits -/

/-- A number that stands before the text cannot go on with it. -/
def EndsNumber (cs : List Char) : Prop :=
  ∀ c ∈ cs.head?, c.isDigit = false ∧ c ≠ '.' ∧ c ≠ 'e' ∧ c ≠ 'E'

theorem endsNumber_nil : EndsNumber [] := by simp [EndsNumber]

theorem digitsValue_digitsOf (n : Nat) : digitsValue (Number.digitsOf n) = n := by
  rw [digitsValue, ← Nat.ofDigitChars_eq_foldl]
  exact Nat.ofDigitChars_ten_toDigits

theorem isDigit_of_mem_digitsOf {n : Nat} {c : Char} (hc : c ∈ Number.digitsOf n) : c.isDigit = true :=
  Nat.isDigit_of_mem_toDigits (by decide) (by decide) hc

/-- The digits of a number that has more than one do not start with a zero. -/
theorem head?_digitsOf_ne_zero {n : Nat} (h : 1 < (Number.digitsOf n).length) :
    (Number.digitsOf n).head? ≠ some '0' := by
  induction n using Nat.strong_induction_on with
  | _ n ih =>
    unfold Number.digitsOf at h ⊢
    rw [Nat.toDigits_eq_if (by decide)] at h ⊢
    split at h
    · simp at h
    next hlarge =>
    rw [if_neg hlarge, List.head?_append_of_ne_nil _ Nat.toDigits_ne_nil]
    by_cases hlength : 1 < (Nat.toDigits 10 (n / 10)).length
    · exact ih (n / 10) (by omega) hlength
    -- What is left is one digit, and not zero.
    · have hsmall : n / 10 < 10 := by
        by_contra hge
        rw [Nat.toDigits_eq_if (by decide), if_neg hge] at hlength
        have := Nat.length_toDigits_pos (b := 10) (n := n / 10 / 10)
        simp only [List.length_append, List.length_cons, List.length_nil] at hlength
        omega
      have hpos : 0 < n / 10 := by omega
      rw [Nat.toDigits_of_lt_base hsmall]
      generalize n / 10 = d at hsmall hpos
      decide +revert

theorem spanDigits_append {cs : List Char} {rest : List Char} (h : EndsNumber rest) :
    spanDigits (cs ++ rest) = ((spanDigits cs).1, (spanDigits cs).2 ++ rest) := by
  induction cs with
  | nil =>
    cases rest with
    | nil => rfl
    | cons c rest => simp [spanDigits, (h c rfl).1]
  | cons c cs ih =>
    simp only [spanDigits, Prod.mk.injEq] at ih ⊢
    cases hc : c.isDigit <;> simp [hc, ih]

theorem spanDigits_of_forall {ds : List Char} (h : ∀ c ∈ ds, c.isDigit = true) :
    spanDigits ds = (ds, []) := by
  simp only [spanDigits, Prod.mk.injEq]
  exact ⟨List.takeWhile_eq_self_iff.mpr h, List.dropWhile_eq_nil_iff.mpr h⟩

/-! ## Numbers as written -/

/-- The sign in front of a number. -/
def splitSign (cs : List Char) : Bool × List Char :=
  match cs with
  | '-' :: rest => (true, rest)
  | _ => (false, cs)

/-- The digits behind a point, if there is one. -/
def readFraction : Reader (Option (List Char)) := fun cs =>
  match cs with
  | '.' :: rest =>
    match spanDigits rest with
    | ([], _) => none
    | (ds, rest) => some (some ds, rest)
  | _ => some (none, cs)

/-- The exponent behind its letter, if there is one. -/
def readScale : Reader (Option Int) := fun cs =>
  match cs with
  | c :: rest =>
    if c = 'e' || c = 'E' then (readExponent rest).map fun (e, rest) => (some e, rest)
    else some (none, cs)
  | [] => some (none, cs)

theorem readFraction_point (rest : List Char) :
    readFraction ('.' :: rest) =
      if (spanDigits rest).1 = [] then none
      else some (some (spanDigits rest).1, (spanDigits rest).2) := by
  simp only [readFraction]
  generalize spanDigits rest = digits
  obtain ⟨_ | ⟨d, ds⟩, left⟩ := digits
  · rfl
  · simp

theorem readFraction_of_ne {cs : List Char} (h : cs.head? ≠ some '.') :
    readFraction cs = some (none, cs) := by
  unfold readFraction
  split
  next => exact absurd rfl h
  next => rfl

/-- A number is read in four steps. -/
theorem readNumeral_eq (cs : List Char) :
    readNumeral cs =
      let (neg, cs) := splitSign cs
      let (whole, cs) := spanDigits cs
      if whole.isEmpty || (whole.head? == some '0' && 1 < whole.length) then none
      else (readFraction cs).bind fun (fraction, cs) =>
        (readScale cs).bind fun (exponent, cs) => some (⟨neg, whole, fraction, exponent⟩, cs) := by
  have hscale : ∀ (cs : List Char) (k : Option Int × List Char → Option (Numeral × List Char)),
      (match cs with
        | c :: rest =>
          if c = 'e' || c = 'E' then
            ((readExponent rest).map fun (e, rest) => (some e, rest)).bind k
          else (some (none, cs)).bind k
        | [] => (some (none, cs)).bind k) = (readScale cs).bind k := by
    intro cs k
    unfold readScale
    cases cs with
    | nil => rfl
    | cons c rest => dsimp only; split <;> rfl
  unfold readNumeral
  split
  next neg cs hsign =>
  rw [show splitSign _ = (neg, cs) from hsign]
  dsimp only
  generalize (spanDigits cs).1 = whole
  generalize (spanDigits cs).2 = cs
  split
  · rfl
  · split
    next rest =>
      rw [readFraction_point]
      generalize spanDigits rest = digits
      obtain ⟨_ | ⟨d, ds⟩, left⟩ := digits
      · rfl
      · exact hscale _ _
    next hne =>
      have hpoint : cs.head? ≠ some '.' := fun h =>
        (List.head?_eq_some_iff.mp h).elim hne
      rw [readFraction_of_ne hpoint]
      exact hscale _ _

theorem splitSign_append {cs : List Char} (hcs : cs ≠ []) (rest : List Char) :
    splitSign (cs ++ rest) = ((splitSign cs).1, (splitSign cs).2 ++ rest) := by
  cases cs with
  | nil => exact absurd rfl hcs
  | cons c cs =>
    unfold splitSign
    rw [List.cons_append]
    by_cases hc : c = '-'
    · subst hc
      rfl
    · split
      next h => exact absurd (List.cons.inj h).1 hc
      next =>
        split
        next h => exact absurd (List.cons.inj h).1 hc
        next => rfl

theorem readFraction_append {cs left rest : List Char} {x : Option (List Char)}
    (h : readFraction cs = some (x, left)) (hrest : EndsNumber rest) :
    readFraction (cs ++ rest) = some (x, left ++ rest) := by
  by_cases hpoint : cs.head? = some '.'
  · obtain ⟨cs, rfl⟩ := List.head?_eq_some_iff.mp hpoint
    rw [List.cons_append, readFraction_point, spanDigits_append hrest]
    rw [readFraction_point] at h
    split at h
    next => cases h
    next hds =>
      cases h
      rw [if_neg hds]
  · rw [readFraction_of_ne hpoint] at h
    cases h
    refine readFraction_of_ne fun h => ?_
    cases cs with
    | nil => exact (hrest _ h).2.1 rfl
    | cons c cs => exact hpoint h

/-- The sign in front of an exponent. -/
def splitScaleSign (cs : List Char) : Bool × List Char :=
  match cs with
  | '-' :: rest => (true, rest)
  | '+' :: rest => (false, rest)
  | _ => (false, cs)

theorem readExponent_eq (cs : List Char) :
    readExponent cs =
      if (spanDigits (splitScaleSign cs).2).1 = [] then none
      else
        let n : Int := digitsValue (spanDigits (splitScaleSign cs).2).1
        some (if (splitScaleSign cs).1 then -n else n, (spanDigits (splitScaleSign cs).2).2) := by
  unfold readExponent
  split
  next neg cs hsign =>
  rw [show splitScaleSign _ = (neg, cs) from hsign]
  dsimp only
  generalize spanDigits cs = digits
  obtain ⟨_ | ⟨d, ds⟩, left⟩ := digits
  · rfl
  · simp

theorem splitScaleSign_append {cs : List Char} (hcs : cs ≠ []) (rest : List Char) :
    splitScaleSign (cs ++ rest) = ((splitScaleSign cs).1, (splitScaleSign cs).2 ++ rest) := by
  cases cs with
  | nil => exact absurd rfl hcs
  | cons c cs =>
    unfold splitScaleSign
    rw [List.cons_append]
    split
    next h =>
      cases h
      rfl
    next h =>
      cases h
      rfl
    next hneg hpos =>
      split
      next h =>
        cases h
        exact (hneg _ rfl).elim
      next h =>
        cases h
        exact (hpos _ rfl).elim
      next => rfl

theorem readExponent_append {cs left rest : List Char} {e : Int}
    (h : readExponent cs = some (e, left)) (hrest : EndsNumber rest) :
    readExponent (cs ++ rest) = some (e, left ++ rest) := by
  rw [readExponent_eq] at h ⊢
  have hcs : cs ≠ [] := by
    rintro rfl
    cases h
  rw [splitScaleSign_append hcs, spanDigits_append hrest]
  split at h
  next => cases h
  next hds =>
    cases h
    rw [if_neg hds]

theorem readScale_append {cs left rest : List Char} {x : Option Int}
    (h : readScale cs = some (x, left)) (hrest : EndsNumber rest) :
    readScale (cs ++ rest) = some (x, left ++ rest) := by
  cases cs with
  | nil =>
    cases h
    cases rest with
    | nil => rfl
    | cons c rest =>
      obtain ⟨-, -, he, hE⟩ := hrest c rfl
      simp [readScale, he, hE]
  | cons c cs =>
    rw [List.cons_append, readScale]
    rw [readScale] at h
    split at h
    next hc =>
      obtain ⟨⟨e, left'⟩, he, h⟩ := Option.map_eq_some_iff.mp h
      cases h
      rw [if_pos hc, readExponent_append he hrest]
      rfl
    next hc =>
      cases h
      rw [if_neg hc]
      rfl

theorem readNumeral_append {cs left rest : List Char} {n : Numeral}
    (h : readNumeral cs = some (n, left)) (hrest : EndsNumber rest) :
    readNumeral (cs ++ rest) = some (n, left ++ rest) := by
  have hcs : cs ≠ [] := by
    rintro rfl
    cases h
  rw [readNumeral_eq] at h ⊢
  rw [splitSign_append hcs]
  dsimp only at h ⊢
  rw [spanDigits_append hrest]
  split at h
  next => cases h
  next hwhole =>
    obtain ⟨⟨fraction, behind⟩, hfraction, h⟩ := Option.bind_eq_some_iff.mp h
    obtain ⟨⟨exponent, behind'⟩, hscale, h⟩ := Option.bind_eq_some_iff.mp h
    cases h
    rw [if_neg hwhole]
    dsimp only
    rw [readFraction_append hfraction hrest, Option.bind_some, readScale_append hscale hrest,
      Option.bind_some]

/-- A number that is read up to the end of its text is read off the front of any text. -/
theorem readNumber_append {cs rest : List Char} {v : Json} (h : readNumber cs = some (v, []))
    (hrest : EndsNumber rest) : readNumber (cs ++ rest) = some (v, rest) := by
  unfold readNumber at h ⊢
  obtain ⟨⟨n, left⟩, hn, h⟩ := Option.bind_eq_some_iff.mp h
  obtain ⟨w, hv, h⟩ := Option.bind_eq_some_iff.mp h
  cases h
  rw [readNumeral_append hn hrest]
  simp only [Option.bind_eq_bind, Option.bind_some, hv]
  rfl

theorem readNumeral_digitsOf (neg : Bool) (n : Nat) :
    readNumeral (if neg then '-' :: Number.digitsOf n else Number.digitsOf n) =
      some (⟨neg, Number.digitsOf n, none, none⟩, []) := by
  have hsign : splitSign (if neg then '-' :: Number.digitsOf n else Number.digitsOf n) =
      (neg, Number.digitsOf n) := by
    cases neg with
    | true => rfl
    | false =>
      unfold splitSign
      rw [if_neg Bool.false_ne_true]
      split
      next h =>
        have hmem : '-' ∈ Number.digitsOf n := h ▸ List.mem_cons_self
        exact absurd (isDigit_of_mem_digitsOf hmem) (by decide)
      next => rfl
  have hwhole : ¬ ((Number.digitsOf n).isEmpty ||
      ((Number.digitsOf n).head? == some '0' && 1 < (Number.digitsOf n).length)) = true := by
    simp only [Bool.or_eq_true, Bool.and_eq_true, List.isEmpty_iff, beq_iff_eq, decide_eq_true_eq]
    rintro (hnil | ⟨hzero, hlength⟩)
    · exact Nat.toDigits_ne_nil hnil
    · exact head?_digitsOf_ne_zero hlength hzero
  rw [readNumeral_eq, hsign]
  dsimp only
  rw [spanDigits_of_forall fun c => isDigit_of_mem_digitsOf]
  dsimp only
  rw [if_neg hwhole]
  rfl

/-- An integer of 64 bits is read back. -/
theorem readNumber_intText {n : Int} (hlow : -(twoTo 63 : Int) ≤ n) (hhigh : n < twoTo 64) :
    readNumber (intText n) = some (.int n, []) := by
  have htext : intText n =
      if decide (n < 0) then '-' :: Number.digitsOf n.natAbs else Number.digitsOf n.natAbs := by
    simp [intText]
  have hvalue : Numeral.value? ⟨decide (n < 0), Number.digitsOf n.natAbs, none, none⟩ =
      some (.int n) := by
    unfold Numeral.value?
    simp only [digitsValue_digitsOf, Option.isNone_none, Bool.and_self, if_true]
    by_cases hneg : n < 0
    · have hne : n.natAbs ≠ 0 := by omega
      have hle : n.natAbs ≤ twoTo 63 := by omega
      simp [hneg, hne, hle, abs_of_neg hneg]
    · have hlt : n.natAbs < twoTo 64 := by omega
      have habs : (n.natAbs : Int) = n := by omega
      simp [hneg, hlt, habs]
  unfold readNumber
  rw [htext, readNumeral_digitsOf]
  simp only [Option.bind_eq_bind, Option.bind_some, hvalue]
  rfl

end Json

/-- The text of the number is that of no other number. -/
def Binary64.ReadsBack (x : Binary64) : Prop :=
  x.isFinite ∧ Json.readNumber (x.text .json).toList = some (.real x, [])

/-- The number 1.5, for one, is read back. -/
theorem Binary64.readsBack_oneAndHalf : (Binary64.ofDecimal false 15 (-1)).ReadsBack := by
  have htext : (Binary64.ofDecimal false 15 (-1)).text .json = "1.5" := by decide +kernel
  have hnumeral : Json.readNumeral "1.5".toList = some (⟨false, ['1'], some ['5'], none⟩, []) := rfl
  have hdouble : Json.Numeral.double? ⟨false, ['1'], some ['5'], none⟩ =
      some (.ofDecimal false 15 (-1)) := by
    decide +kernel
  refine ⟨by decide +kernel, ?_⟩
  rw [htext, Json.readNumber, hnumeral]
  simp [Json.Numeral.value?, hdouble]

namespace Json

/-! ## Scalars -/

/-- All numbers in the value are read back: integers have 64 bits, and doubles have texts of their
own. -/
inductive Readable : Json → Prop where
  | null : Readable .null
  | bool (b : Bool) : Readable (.bool b)
  | str (s : String) : Readable (.str s)
  | int {n : Int} (low : -(twoTo 63 : Int) ≤ n) (high : n < twoTo 64) : Readable (.int n)
  | real {x : Binary64} (readsBack : x.ReadsBack) : Readable (.real x)
  | arr {items : List Json} (each : ∀ v ∈ items, Readable v) : Readable (.arr items)
  | obj {members : List (String × Json)} (each : ∀ m ∈ members, Readable m.2) :
    Readable (.obj members)

/-- The characters that scalars start with. -/
def opensScalar (c : Char) : Bool := c ∈ ['"', 'n', 't', 'f', '-'] || c.isDigit

theorem opensScalar_cases {c : Char} (h : opensScalar c = true) :
    isGap c = false ∧ c ≠ '[' ∧ c ≠ ']' ∧ c ≠ '\x7b' ∧ c ≠ '\x7d' := by
  refine ⟨?_, ?_, ?_, ?_, ?_⟩
  · by_contra hgap
    simp only [isGap, Bool.not_eq_false, Bool.or_eq_true, decide_eq_true_eq] at hgap
    obtain ((rfl | rfl) | rfl) | rfl := hgap <;> exact absurd h (by decide)
  all_goals
    rintro rfl
    exact absurd h (by decide)

/-- A number starts with its sign or with a digit. -/
theorem head_of_readNumber {cs : List Char} {v : Json} {left : List Char}
    (h : readNumber cs = some (v, left)) : ∃ c rest, cs = c :: rest ∧ (c = '-' ∨ c.isDigit = true) := by
  unfold readNumber at h
  obtain ⟨⟨n, left⟩, hn, -⟩ := Option.bind_eq_some_iff.mp h
  cases cs with
  | nil => cases hn
  | cons c rest =>
    refine ⟨c, rest, rfl, ?_⟩
    by_contra hc
    obtain ⟨hsign, hdigit⟩ := not_or.mp hc
    rw [readNumeral_eq] at hn
    have hsplit : splitSign (c :: rest) = (false, c :: rest) := by
      unfold splitSign
      split
      next h => exact absurd (List.cons.inj h).1 hsign
      next => rfl
    simp [hsplit, spanDigits, hdigit] at hn

theorem readScalar_eq_readNumber {c : Char} {rest : List Char} (h : c = '-' ∨ c.isDigit = true) :
    readScalar (c :: rest) = readNumber (c :: rest) := by
  unfold readScalar
  split
  next h' =>
    cases h'
    exact absurd h (by decide)
  next h' =>
    cases h'
    exact absurd h (by decide)
  next h' =>
    cases h'
    exact absurd h (by decide)
  next h' =>
    cases h'
    exact absurd h (by decide)
  next => rfl

/-- The text of a scalar starts as a scalar does. -/
theorem scalarText_head {v : Json} (hv : v.Readable) (harr : v.arr? = none) (hobj : v.obj? = none) :
    ∃ c cs, scalarText v = c :: cs ∧ opensScalar c = true := by
  have hnumber : ∀ {cs : List Char}, readNumber cs = some (v, []) →
      ∃ c rest, cs = c :: rest ∧ opensScalar c = true := by
    intro cs h
    obtain ⟨c, rest, rfl, hc⟩ := head_of_readNumber h
    refine ⟨c, rest, rfl, ?_⟩
    obtain rfl | hc := hc
    · decide
    · simp [opensScalar, hc]
  cases hv with
  | null => exact ⟨'n', _, rfl, by decide⟩
  | bool b => cases b with
    | true => exact ⟨'t', _, rfl, by decide⟩
    | false => exact ⟨'f', _, rfl, by decide⟩
  | str s => exact ⟨'"', _, rfl, by decide⟩
  | int hlow hhigh => exact hnumber (readNumber_intText hlow hhigh)
  | real hx =>
    obtain ⟨c, cs, htext, hc⟩ := hnumber hx.2
    exact ⟨c, cs, by rw [scalarText, realText, if_pos hx.1, htext], hc⟩
  | arr => cases harr
  | obj => cases hobj

/-- **A scalar is read back,** whatever follows that does not go on with a number. -/
theorem readScalar_scalarText {v : Json} (hv : v.Readable) (harr : v.arr? = none)
    (hobj : v.obj? = none) {rest : List Char} (hrest : EndsNumber rest) :
    readScalar (scalarText v ++ rest) = some (v, rest) := by
  have hnumber : ∀ {cs : List Char}, readNumber cs = some (v, []) →
      readScalar (cs ++ rest) = some (v, rest) := by
    intro cs h
    obtain ⟨c, cs, rfl, hc⟩ := head_of_readNumber h
    rw [List.cons_append, readScalar_eq_readNumber hc, ← List.cons_append]
    exact readNumber_append h hrest
  cases hv with
  | null => rfl
  | bool b => cases b <;> rfl
  | str s =>
    have h := readString_stringText s rest
    rw [scalarText, stringText, List.cons_append, List.append_assoc]
    change (readString _).map _ = _
    rw [List.singleton_append, h]
    rfl
  | int hlow hhigh => exact hnumber (readNumber_intText hlow hhigh)
  | real hx =>
    rw [scalarText, realText, if_pos hx.1]
    exact hnumber hx.2
  | arr => cases harr
  | obj => cases hobj

end Json

end ApiDocs
