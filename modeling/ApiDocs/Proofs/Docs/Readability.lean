import ApiDocs.Proofs.Docs.PlainTexts
import ApiDocs.Proofs.Text.Splitting
import ApiDocs.Proofs.TypeScript.Scanning
import Mathlib.Data.List.Basic

/-!
# Reading formatted types back

The text of a type tells the type, up to what a text cannot tell: which of several records with one name a
reference points to, and whether a name without arguments is a reference at all. `NamedType` is what is
left of a type without that, and the text is made from it alone.

The proof gives a reader. It takes an operand, which is a name with its arguments or a type in parentheses,
and the brackets behind it, and then the operands that are joined to it. Where a part ends is told by the
character behind it: names have none of the signs in them, the brackets behind an operand make arrays of
it, and only a union or an intersection without parentheses goes on behind a blank. So the parentheses that
are written are all that the reader needs.

## Main definitions

* `NamedType`: a type without references.
* `TypeDoc.named`: a type with the names of records for references.
* `TypeDoc.Structured`: types of names, references, arrays, unions and intersections.
* `NamedType.read`: the type that a text stands for.

## Main results

* `NamedType.Structured.read_text`: the text of a type is read as the type.
* `TypeDoc.format_eq_iff`: two types have one text just if they are the same but for references.
-/

namespace ApiDocs

/-! ## Types without references -/

/-- A type in which names stand for references. -/
inductive NamedType where
  | name (text : String) (arguments : List NamedType)
  | arrayOf (element : NamedType)
  | unionOf (members : List NamedType)
  | intersectionOf (members : List NamedType)
  deriving Repr, Inhabited

namespace NamedType

mutual

/-- The text of a type; `nested` tells whether a union or intersection needs parentheses. -/
def text (nested : Bool) : NamedType → String
  | .name n [] => n
  | .name n (t :: ts) => n ++ "<" ++ ", ".intercalate (texts false (t :: ts)) ++ ">"
  | .arrayOf t => text true t ++ "[]"
  | .unionOf ts => parenthesized nested (" | ".intercalate (texts true ts))
  | .intersectionOf ts => parenthesized nested (" & ".intercalate (texts true ts))

/-- The texts of types, in order. -/
def texts (nested : Bool) : List NamedType → List String
  | [] => []
  | t :: ts => text nested t :: texts nested ts

end

theorem texts_eq_map (nested : Bool) (ts : List NamedType) : texts nested ts = ts.map (text nested) := by
  induction ts with
  | nil => rw [texts, List.map_nil]
  | cons t ts ih => rw [texts, ih, List.map_cons]

end NamedType

namespace TypeDoc

variable (refs : Array RefDoc)

mutual

/-- The type with the names of records for references. A record that is not there has no name. -/
def named : TypeDoc → NamedType
  | .name text => .name text []
  | .literal primitive _ => .name primitive []
  | .ref r arguments => .name ((refs[r.index]?.map (·.name)).getD "") (namedAll arguments)
  | .arrayOf element => .arrayOf (named element)
  | .unionOf members => .unionOf (namedAll members)
  | .intersectionOf members => .intersectionOf (namedAll members)
  | .unsupported _ display => .name display []

/-- The types with the names of records for references. -/
def namedAll : List TypeDoc → List NamedType
  | [] => []
  | d :: ds => named d :: namedAll ds

end

theorem namedAll_eq_map (ds : List TypeDoc) : namedAll refs ds = ds.map (named refs) := by
  induction ds with
  | nil => rw [namedAll, List.map_nil]
  | cons d ds ih => rw [namedAll, ih, List.map_cons]

mutual

/-- The text of a type is made from what is left of it without references. -/
theorem formatIn_eq_text : ∀ (d : TypeDoc) (nested : Bool), d.formatIn refs nested = (d.named refs).text nested
  | .name text, nested | .literal text _, nested | .unsupported _ text, nested => by
    simp only [formatIn_name, formatIn_literal, formatIn_unsupported, named, NamedType.text]
  | .ref r [], nested => by
    rw [formatIn_ref, named, namedAll, NamedType.text]
  | .ref r (d :: ds), nested => by
    rw [formatIn_generic refs nested r (List.cons_ne_nil d ds), formatIn_eq_texts (d :: ds) false,
      formatIn_ref, named, namedAll, NamedType.text]
  | .arrayOf d, nested => by
    rw [formatIn_array, formatIn_eq_text d true, named, NamedType.text]
  | .unionOf ds, nested => by
    rw [formatIn_union, formatIn_eq_texts ds true, named, NamedType.text]
  | .intersectionOf ds, nested => by
    rw [formatIn_intersection, formatIn_eq_texts ds true, named, NamedType.text]

theorem formatIn_eq_texts : ∀ (ds : List TypeDoc) (nested : Bool),
    ds.map (formatIn refs nested) = NamedType.texts nested (namedAll refs ds)
  | [], nested => by
    rw [namedAll, NamedType.texts, List.map_nil]
  | d :: ds, nested => by
    rw [List.map_cons, formatIn_eq_text d nested, formatIn_eq_texts ds nested, namedAll, NamedType.texts]

end

end TypeDoc

/-! ## Names -/

/-- The characters that hold types together. -/
def typeSigns : List Char := [' ', ',', '<', '>', '(', ')', '[', ']', '|', '&']

/-- A name is not empty, and has none of the characters that hold types together. -/
structure IsPlainName (name : String) : Prop where
  nonempty : name.toList ≠ []
  noSign : ∀ c ∈ name.toList, c ∉ typeSigns

theorem not_typeSign_of_isNamePart {c : Char} (h : Text.isNamePart c = true) : c ∉ typeSigns := by
  intro hsign
  have hnone : typeSigns.all (fun c => !Text.isNamePart c) = true := by decide
  rw [List.all_eq_true] at hnone
  simpa [h] using hnone c hsign

/-- Identifiers are such names. -/
theorem isPlainName_of_isWord {name : String} (h : TypeScript.isWord name.toList = true) :
    IsPlainName name := by
  obtain ⟨c, cs, hname⟩ : ∃ c cs, name.toList = c :: cs := by
    refine List.exists_cons_of_ne_nil ?_
    intro hempty
    rw [hempty] at h
    cases h
  rw [hname, TypeScript.isWord, Bool.and_eq_true, List.all_eq_true] at h
  refine ⟨by simp [hname], ?_⟩
  rw [hname, List.forall_mem_cons]
  refine ⟨not_typeSign_of_isNamePart ?_, fun c hc => not_typeSign_of_isNamePart (h.2 c hc)⟩
  rw [Text.isNamePart, h.1, Bool.true_or]

namespace NamedType

/-! ## The reader -/

/-- A reader takes a type off the front of a text. -/
abbrev Reader := List Char → Option (NamedType × List Char)

/-- Make arrays of an operand, one for each pair of brackets behind it. -/
def brackets (t : NamedType) : List Char → NamedType × List Char
  | '[' :: ']' :: cs => brackets (.arrayOf t) cs
  | cs => (t, cs)

/-- Take items off the front of a text, as long as there is a separator before them. -/
def readMore (sep : List Char) (item : Reader) (fuel : Nat) (cs : List Char) :
    Option (List NamedType × List Char) :=
  match sep.isPrefixOf? cs with
  | none => some ([], cs)
  | some cs =>
    match fuel with
    | 0 => none
    | fuel + 1 => do
      let (t, cs) ← item cs
      let (ts, cs) ← readMore sep item fuel cs
      return (t :: ts, cs)

/-- Take the rest of an operand that starts with a name. -/
def readArguments (type : Reader) (fuel : Nat) (name : String) : Reader
  | '<' :: cs => do
    let (t, cs) ← type cs
    let (ts, cs) ← readMore [',', ' '] type fuel cs
    let '>' :: cs := cs | none
    return brackets (.name name (t :: ts)) cs
  | cs => brackets (.name name []) cs

/-- Take an operand with the brackets behind it. -/
def readOperand (type : Reader) (fuel : Nat) : Reader
  | '(' :: cs => do
    let (t, cs) ← type cs
    let ')' :: cs := cs | none
    return brackets t cs
  | cs =>
    let isNamePart (c : Char) := decide (c ∉ typeSigns)
    readArguments type fuel (String.ofList (cs.takeWhile isNamePart)) (cs.dropWhile isNamePart)

/-- What operands are joined to: a union if there are more of them, an intersection likewise. -/
def joined (t : NamedType) (unions intersections : List NamedType) : NamedType :=
  match unions, intersections with
  | [], [] => t
  | [], ts => .intersectionOf (t :: ts)
  | ts, _ => .unionOf (t :: ts)

/-- Take a type; the fuel bounds its length. -/
def readType : Nat → Reader
  | 0, _ => none
  | fuel + 1, cs => do
    let operand := readOperand (readType fuel) fuel
    let (t, cs) ← operand cs
    let (us, cs) ← readMore [' ', '|', ' '] operand fuel cs
    let (is, cs) ← readMore [' ', '&', ' '] operand fuel cs
    return (joined t us is, cs)

/-- The type that a text stands for. -/
def read (text : String) : Option NamedType :=
  match readType (text.toList.length + 1) text.toList with
  | some (t, []) => some t
  | _ => none

/-! ## Texts as characters -/

/-- The text of a type as characters. -/
def chars (nested : Bool) (t : NamedType) : List Char := (t.text nested).toList

/-- The texts of the further types in a list, each behind its separator. -/
def further (sep : List Char) (nested : Bool) (ts : List NamedType) : List Char :=
  (ts.map (chars nested)).flatMap (sep ++ ·)

section

variable {t : NamedType} {ts : List NamedType} {sep rest : List Char} {nested : Bool} {n : String}
  {fuel : Nat}

@[simp]
theorem further_nil (sep : List Char) (nested : Bool) : further sep nested [] = [] := rfl

theorem further_cons (sep : List Char) (nested : Bool) (t : NamedType) (ts : List NamedType) :
    further sep nested (t :: ts) = sep ++ (t.chars nested ++ further sep nested ts) := by
  rw [further, List.map_cons, List.flatMap_cons, List.append_assoc]
  rfl

theorem length_chars_le_further (sep : List Char) (nested : Bool) (h : t ∈ ts) :
    (t.chars nested).length ≤ (further sep nested ts).length :=
  Text.length_le_flatMap sep (List.mem_map_of_mem h)

theorem length_le_further (sep : List Char) (hsep : sep ≠ []) (nested : Bool) (ts : List NamedType) :
    ts.length ≤ (further sep nested ts).length := by
  have hcount := Text.length_flatMap_le sep (ts.map (chars nested))
  rw [List.length_map] at hcount
  exact (Nat.le_mul_of_pos_left _ (List.length_pos_iff.mpr hsep)).trans hcount

/-- What holds of a text and of all that start with the separator holds where types are put before it. -/
theorem further_append {P : List Char → Prop} (hsep : ∀ cs, P (sep ++ cs)) (hrest : P rest)
    (nested : Bool) (ts : List NamedType) : P (further sep nested ts ++ rest) := by
  cases ts with
  | nil => exact hrest
  | cons t ts =>
    rw [further_cons, List.append_assoc]
    exact hsep _

theorem toList_intercalate_texts (sep : String) (nested : Bool) (t : NamedType) (ts : List NamedType) :
    (sep.intercalate (texts nested (t :: ts))).toList =
      t.chars nested ++ further sep.toList nested ts := by
  rw [String.toList_intercalate, texts_eq_map, List.map_map, List.map_cons,
    Text.intercalate_cons_flatMap]
  rfl

theorem chars_name : (name n []).chars nested = n.toList := by
  rw [chars, text]

theorem chars_generic : (name n (t :: ts)).chars nested =
    n.toList ++ '<' :: (t.chars false ++ (further [',', ' '] false ts ++ ['>'])) := by
  rw [chars, text]
  simp only [String.toList_append, toList_intercalate_texts, List.append_assoc]
  rfl

theorem chars_arrayOf : (arrayOf t).chars nested = t.chars true ++ ['[', ']'] := by
  rw [chars, text, String.toList_append]
  rfl

theorem chars_unionOf : (unionOf (t :: ts)).chars false = t.chars true ++ further [' ', '|', ' '] true ts := by
  rw [chars, text, parenthesized, if_neg Bool.false_ne_true, toList_intercalate_texts]
  rfl

theorem chars_intersectionOf :
    (intersectionOf (t :: ts)).chars false = t.chars true ++ further [' ', '&', ' '] true ts := by
  rw [chars, text, parenthesized, if_neg Bool.false_ne_true, toList_intercalate_texts]
  rfl

theorem chars_unionOf_nested : (unionOf ts).chars true = '(' :: ((unionOf ts).chars false ++ [')']) := by
  simp [chars, text, parenthesized]

theorem chars_intersectionOf_nested :
    (intersectionOf ts).chars true = '(' :: ((intersectionOf ts).chars false ++ [')']) := by
  simp [chars, text, parenthesized]

/-! ## Ends -/

/-- An operand may end before the text. -/
def EndsOperand (rest : List Char) : Prop := ∀ c ∈ rest.head?, c ∈ typeSigns ∧ c ≠ '<'

/-- An operand without further brackets may end before the text. -/
def EndsMember (rest : List Char) : Prop := ∀ c ∈ rest.head?, c ∈ typeSigns ∧ c ≠ '<' ∧ c ≠ '['

/-- A type may end before the text. -/
def EndsType (rest : List Char) : Prop := ∀ c ∈ rest.head?, c ∈ [',', '>', ')']

theorem EndsMember.endsOperand (h : EndsMember rest) : EndsOperand rest :=
  fun c hc => ⟨(h c hc).1, (h c hc).2.1⟩

theorem EndsType.endsMember (h : EndsType rest) : EndsMember rest := by
  intro c hc
  have hend := h c hc
  simp only [List.mem_cons, List.not_mem_nil, or_false] at hend
  rcases hend with rfl | rfl | rfl <;> decide

theorem brackets_of_endsMember (h : EndsMember rest) (t : NamedType) : brackets t rest = (t, rest) := by
  rw [brackets.eq_def]
  split
  next => exact absurd rfl (h '[' rfl).2.2
  next => rfl

/-! ## Reading texts -/

/-- Types that are put together from names, with two members or more where there are members. -/
inductive Structured : NamedType → Prop
  | name {n : String} {ts : List NamedType} (hname : IsPlainName n) (harguments : ∀ t ∈ ts, Structured t) :
    Structured (.name n ts)
  | arrayOf {t : NamedType} (helement : Structured t) : Structured (.arrayOf t)
  | unionOf {ts : List NamedType} (hlength : 2 ≤ ts.length) (hmembers : ∀ t ∈ ts, Structured t) :
    Structured (.unionOf ts)
  | intersectionOf {ts : List NamedType} (hlength : 2 ≤ ts.length) (hmembers : ∀ t ∈ ts, Structured t) :
    Structured (.intersectionOf ts)

/-- The text of the type as a part is read as an operand. -/
def ReadsAsOperand (t : NamedType) : Prop :=
  ∀ fuel rest, (t.chars true).length ≤ fuel → EndsOperand rest →
    readOperand (readType fuel) fuel (t.chars true ++ rest) = some (brackets t rest)

/-- The text of the type is read as a type. -/
def ReadsAsType (t : NamedType) : Prop :=
  ∀ fuel rest, (t.chars false).length < fuel → EndsType rest →
    readType fuel (t.chars false ++ rest) = some (t, rest)

theorem ReadsAsOperand.member (h : t.ReadsAsOperand) (hfuel : (t.chars true).length ≤ fuel)
    (hrest : EndsMember rest) :
    readOperand (readType fuel) fuel (t.chars true ++ rest) = some (t, rest) := by
  rw [h fuel rest hfuel hrest.endsOperand, brackets_of_endsMember hrest]

/-- Items are read one by one, up to what is no separator. -/
theorem readMore_further {item : Reader} {P : List Char → Prop} (hsep : ∀ cs, P (sep ++ cs))
    (hrest : P rest) (hend : sep.isPrefixOf? rest = none)
    (hitems : ∀ t ∈ ts, ∀ cs, P cs → item (t.chars nested ++ cs) = some (t, cs))
    (hfuel : ts.length ≤ fuel) :
    readMore sep item fuel (further sep nested ts ++ rest) = some (ts, rest) := by
  induction ts generalizing fuel with
  | nil =>
    rw [further_nil, List.nil_append, readMore.eq_def, hend]
  | cons t ts ih =>
    obtain ⟨fuel, rfl⟩ : ∃ k, fuel = k + 1 := ⟨fuel - 1, by simp at hfuel; omega⟩
    obtain ⟨ht, hts⟩ := List.forall_mem_cons.mp hitems
    have hsplit : sep.isPrefixOf? (further sep nested (t :: ts) ++ rest) =
        some (t.chars nested ++ (further sep nested ts ++ rest)) := by
      rw [List.isPrefixOf?_eq_some_iff_append_eq, further_cons, List.append_assoc, List.append_assoc]
    have hfirst := ht _ (further_append hsep hrest nested ts)
    have hmore := ih hts (by simp at hfuel; omega)
    rw [readMore, hsplit]
    simp only [hfirst, hmore, Option.bind_eq_bind, Option.bind_some]
    rfl

/-! ### Operands -/

theorem readOperand_name {type : Reader} (hname : IsPlainName n) (hrest : ∀ c ∈ rest.head?, c ∈ typeSigns) :
    readOperand type fuel (n.toList ++ rest) = readArguments type fuel n rest := by
  have hpart : ∀ c ∈ n.toList, decide (c ∉ typeSigns) = true := by
    intro c hc
    simpa using hname.noSign c hc
  have hend : rest.takeWhile (fun c => decide (c ∉ typeSigns)) = [] ∧
      rest.dropWhile (fun c => decide (c ∉ typeSigns)) = rest := by
    cases rest with
    | nil => exact ⟨rfl, rfl⟩
    | cons c cs => simp [hrest c rfl]
  -- no name starts with the parenthesis that the reader looks for first
  have hread : readOperand type fuel (n.toList ++ rest) =
      readArguments type fuel
        (String.ofList ((n.toList ++ rest).takeWhile fun c => decide (c ∉ typeSigns)))
        ((n.toList ++ rest).dropWhile fun c => decide (c ∉ typeSigns)) := by
    obtain ⟨c, cs, hcs⟩ := List.exists_cons_of_ne_nil hname.nonempty
    have hc : c ≠ '(' := by
      rintro rfl
      exact hname.noSign '(' (by simp [hcs]) (by decide)
    rw [hcs, List.cons_append]
    unfold readOperand
    split
    next h => exact absurd (List.cons.inj h).1 hc
    next => rfl
  rw [hread, List.takeWhile_append_of_pos hpart, List.dropWhile_append_of_pos hpart, hend.1, hend.2,
    List.append_nil, String.ofList_toList]

theorem readArguments_nil {type : Reader} (hrest : EndsOperand rest) :
    readArguments type fuel n rest = some (brackets (.name n []) rest) := by
  unfold readArguments
  split
  next => exact absurd rfl (hrest '<' rfl).2
  next => rfl

theorem readsAsOperand_name (hname : IsPlainName n) (hts : ∀ t ∈ ts, t.ReadsAsType) :
    (name n ts).ReadsAsOperand := by
  intro fuel rest hfuel hrest
  cases ts with
  | nil =>
    rw [chars_name, readOperand_name hname fun c hc => (hrest c hc).1, readArguments_nil hrest]
  | cons t ts =>
    obtain ⟨ht, hts⟩ := List.forall_mem_cons.mp hts
    rw [chars_generic] at hfuel ⊢
    simp only [List.length_append, List.length_cons] at hfuel
    have hsep : ∀ cs, EndsType ([',', ' '] ++ cs) := by
      rintro cs c ⟨⟩
      decide
    have hend : EndsType ('>' :: rest) := by
      rintro c ⟨⟩
      decide
    have hfirst := ht fuel _ (by omega) (further_append hsep hend false ts)
    have hmore : readMore [',', ' '] (readType fuel) fuel (further [',', ' '] false ts ++ '>' :: rest) =
        some (ts, '>' :: rest) := by
      have hcount := length_le_further [',', ' '] (by simp) false ts
      refine readMore_further hsep hend rfl ?_ (by omega)
      intro u hu cs hcs
      have hlength := length_chars_le_further [',', ' '] false hu
      exact hts u hu fuel cs (by omega) hcs
    rw [List.append_assoc, List.cons_append, readOperand_name hname (by rintro c ⟨⟩; decide)]
    simp only [List.append_assoc, List.singleton_append, readArguments, hfirst, hmore, Option.bind_eq_bind,
      Option.bind_some]
    rfl

theorem ReadsAsOperand.arrayOf (h : t.ReadsAsOperand) : (arrayOf t).ReadsAsOperand := by
  intro fuel rest hfuel hrest
  rw [chars_arrayOf, List.length_append] at hfuel
  have hend : EndsOperand (['[', ']'] ++ rest) := by
    rintro c ⟨⟩
    decide
  rw [chars_arrayOf, List.append_assoc, h fuel _ (by omega) hend, List.cons_append, List.cons_append,
    brackets, List.nil_append]

/-- A type in parentheses is read as an operand. -/
theorem ReadsAsType.grouped (h : t.ReadsAsType) (hchars : t.chars true = '(' :: (t.chars false ++ [')'])) :
    t.ReadsAsOperand := by
  intro fuel rest hfuel hrest
  rw [hchars, List.length_cons, List.length_append] at hfuel
  have ht := h fuel (')' :: rest) (by omega) (by rintro c ⟨⟩; decide)
  rw [hchars, List.cons_append, List.append_assoc, List.singleton_append]
  simp only [readOperand, ht, Option.bind_eq_bind, Option.bind_some]
  rfl

/-! ### Types -/

/-- Members are read one by one, up to what is no separator of theirs. -/
theorem readMore_members (sign : Char) (hts : ∀ t ∈ ts, t.ReadsAsOperand)
    (hfuel : (further [' ', sign, ' '] true ts).length ≤ fuel) (hrest : EndsMember rest)
    (hend : [' ', sign, ' '].isPrefixOf? rest = none) :
    readMore [' ', sign, ' '] (readOperand (readType fuel) fuel) fuel
      (further [' ', sign, ' '] true ts ++ rest) = some (ts, rest) := by
  have hcount := length_le_further [' ', sign, ' '] (by simp) true ts
  refine readMore_further (P := EndsMember) ?_ hrest hend ?_ (by omega)
  · rintro cs c ⟨⟩
    decide
  · intro t ht cs hcs
    have hlength := length_chars_le_further [' ', sign, ' '] true ht
    exact (hts t ht).member (by omega) hcs

/-- Operands that are joined by `|`, and then operands that are joined by `&`, are read one by one. -/
theorem readType_operands (us is : List NamedType) (ht : t.ReadsAsOperand) (hus : ∀ u ∈ us, u.ReadsAsOperand)
    (his : ∀ i ∈ is, i.ReadsAsOperand)
    (hfuel : (t.chars true).length + (further [' ', '|', ' '] true us).length +
      (further [' ', '&', ' '] true is).length ≤ fuel) (hrest : EndsType rest) :
    readType (fuel + 1) (t.chars true ++ (further [' ', '|', ' '] true us ++
      (further [' ', '&', ' '] true is ++ rest))) = some (joined t us is, rest) := by
  have hsep : ∀ sign cs, EndsMember ([' ', sign, ' '] ++ cs) := by
    rintro sign cs c ⟨⟩
    decide
  have hnone : ∀ sign, [' ', sign, ' '].isPrefixOf? rest = none := by
    intro sign
    cases rest with
    | nil => rfl
    | cons c cs =>
      have hc : ' ' ≠ c := by
        rintro rfl
        exact absurd (hrest ' ' rfl) (by decide)
      simp [List.isPrefixOf?, hc]
  have hend : EndsMember (further [' ', '&', ' '] true is ++ rest) :=
    further_append (hsep '&') hrest.endsMember true is
  have hother : [' ', '|', ' '].isPrefixOf? (further [' ', '&', ' '] true is ++ rest) = none :=
    further_append (P := ([' ', '|', ' '].isPrefixOf? · = none)) (fun _ => rfl) (hnone '|') true is
  have ht := ht.member (show _ ≤ fuel by omega) (further_append (hsep '|') hend true us)
  have hus := readMore_members '|' hus (show _ ≤ fuel by omega) hend hother
  have his := readMore_members '&' his (show _ ≤ fuel by omega) hrest.endsMember (hnone '&')
  simp only [readType, ht, hus, his, Option.bind_eq_bind, Option.bind_some]
  rfl

/-- A type whose text is that of operands which are joined to it is read as a type. -/
theorem readsAsType_joined {j : NamedType} (us is : List NamedType) (ht : t.ReadsAsOperand)
    (hus : ∀ u ∈ us, u.ReadsAsOperand) (his : ∀ i ∈ is, i.ReadsAsOperand)
    (hchars : j.chars false =
      t.chars true ++ (further [' ', '|', ' '] true us ++ further [' ', '&', ' '] true is))
    (hjoined : joined t us is = j) : j.ReadsAsType := by
  intro fuel rest hfuel hrest
  obtain ⟨fuel, rfl⟩ : ∃ k, fuel = k + 1 := ⟨fuel - 1, by omega⟩
  rw [hchars, List.length_append, List.length_append] at hfuel
  rw [hchars, List.append_assoc, List.append_assoc, readType_operands us is ht hus his (by omega) hrest,
    hjoined]

/-- A type that has no parentheses as a part is read as an operand and as a type alike. -/
theorem ReadsAsOperand.readsAsType (h : t.ReadsAsOperand) (hchars : t.chars false = t.chars true) :
    t.ReadsAsType :=
  readsAsType_joined [] [] h (by simp) (by simp) (by simp [hchars]) rfl

theorem exists_two_of_le_length (h : 2 ≤ ts.length) : ∃ t u us, ts = t :: u :: us := by
  match ts, h with
  | t :: u :: us, _ => exact ⟨t, u, us, rfl⟩

theorem readsAsType_unionOf (hlength : 2 ≤ ts.length) (h : ∀ t ∈ ts, t.ReadsAsOperand) :
    (unionOf ts).ReadsAsType := by
  obtain ⟨t, u, us, rfl⟩ := exists_two_of_le_length hlength
  obtain ⟨ht, hus⟩ := List.forall_mem_cons.mp h
  exact readsAsType_joined (u :: us) [] ht hus (by simp) (by simp [chars_unionOf]) rfl

theorem readsAsType_intersectionOf (hlength : 2 ≤ ts.length) (h : ∀ t ∈ ts, t.ReadsAsOperand) :
    (intersectionOf ts).ReadsAsType := by
  obtain ⟨t, i, is, rfl⟩ := exists_two_of_le_length hlength
  obtain ⟨ht, his⟩ := List.forall_mem_cons.mp h
  exact readsAsType_joined [] (i :: is) ht (by simp) his (by simp [chars_intersectionOf]) rfl

/-- The text of a type is read as the type, whether it stands alone or is a part. -/
theorem Structured.reads (h : t.Structured) : t.ReadsAsOperand ∧ t.ReadsAsType := by
  induction h with
  | @name n ts hname _ ih =>
    have hoperand := readsAsOperand_name hname fun t ht => (ih t ht).2
    refine ⟨hoperand, hoperand.readsAsType ?_⟩
    cases ts
    · rw [chars_name, chars_name]
    · rw [chars_generic, chars_generic]
  | arrayOf _ ih =>
    have hoperand := ih.1.arrayOf
    exact ⟨hoperand, hoperand.readsAsType (by rw [chars_arrayOf, chars_arrayOf])⟩
  | unionOf hlength _ ih =>
    have htype := readsAsType_unionOf hlength fun m hm => (ih m hm).1
    exact ⟨htype.grouped chars_unionOf_nested, htype⟩
  | intersectionOf hlength _ ih =>
    have htype := readsAsType_intersectionOf hlength fun m hm => (ih m hm).1
    exact ⟨htype.grouped chars_intersectionOf_nested, htype⟩

/-- **The text of a type is read as the type**, so the parentheses that are written are enough. -/
theorem Structured.read_text (h : t.Structured) : read (t.text false) = some t := by
  have htype := h.reads.2 ((t.text false).toList.length + 1) [] (Nat.lt_succ_self _) (by rintro c ⟨⟩)
  rw [chars, List.append_nil] at htype
  rw [read, htype]

example : read "Map<string, (A | B)[]>" = some (.name "Map" [.name "string" [],
    .arrayOf (.unionOf [.name "A" [], .name "B" []])]) := by
  rfl

end

end NamedType

/-! ## Described types -/

namespace TypeDoc

/-- Types that are put together from names and from references to the first `count` records, with two
members or more where there are members. -/
inductive Structured (count : Nat) : TypeDoc → Prop
  | name {text : String} (hname : IsPlainName text) : Structured count (.name text)
  | ref {r : RefId} {ds : List TypeDoc} (htarget : r.index < count)
    (harguments : ∀ d ∈ ds, Structured count d) : Structured count (.ref r ds)
  | arrayOf {d : TypeDoc} (helement : Structured count d) : Structured count (.arrayOf d)
  | unionOf {ds : List TypeDoc} (hlength : 2 ≤ ds.length) (hmembers : ∀ d ∈ ds, Structured count d) :
    Structured count (.unionOf ds)
  | intersectionOf {ds : List TypeDoc} (hlength : 2 ≤ ds.length)
    (hmembers : ∀ d ∈ ds, Structured count d) : Structured count (.intersectionOf ds)

variable {refs : Array RefDoc}

theorem Structured.named (hrefs : ∀ r ∈ refs, IsPlainName r.name) {d : TypeDoc}
    (h : d.Structured refs.size) : (d.named refs).Structured := by
  induction h with
  | name hname =>
    rw [TypeDoc.named]
    exact .name hname (by simp)
  | @ref r ds htarget _ ih =>
    rw [TypeDoc.named, namedAll_eq_map, Array.getElem?_eq_getElem htarget]
    refine .name (hrefs _ (Array.getElem_mem htarget)) ?_
    simpa using ih
  | arrayOf _ ih =>
    rw [TypeDoc.named]
    exact .arrayOf ih
  | unionOf hlength _ ih =>
    rw [TypeDoc.named, namedAll_eq_map]
    exact .unionOf (by simpa using hlength) (by simpa using ih)
  | intersectionOf hlength _ ih =>
    rw [TypeDoc.named, namedAll_eq_map]
    exact .intersectionOf (by simpa using hlength) (by simpa using ih)

/-- **Formatting is unambiguous.** Where the records have names of their own, two types have one text just
if they are the same with names for references. -/
theorem format_eq_iff (hrefs : ∀ r ∈ refs, IsPlainName r.name) {s t : TypeDoc}
    (hs : s.Structured refs.size) (ht : t.Structured refs.size) :
    s.format refs = t.format refs ↔ s.named refs = t.named refs := by
  rw [format_eq_formatIn, format_eq_formatIn, formatIn_eq_text, formatIn_eq_text]
  constructor
  · intro htext
    have hread := (hs.named hrefs).read_text
    rw [htext, (ht.named hrefs).read_text] at hread
    exact (Option.some.inj hread).symm
  · intro hnamed
    rw [hnamed]

/-- Two records of one name. -/
def boxRecords : Array RefDoc := #[{ name := "Box" }, { name := "Box" }]

/-- An array of boxes and texts, where the box may be a reference. -/
def boxArray (box : TypeDoc) : TypeDoc := .arrayOf (.unionOf [box, .name "string"])

theorem structured_boxArray {count : Nat} {box : TypeDoc} (hbox : box.Structured count) :
    (boxArray box).Structured count := by
  have hstring : (TypeDoc.name "string").Structured count := .name (isPlainName_of_isWord (by decide))
  refine .arrayOf (.unionOf (Nat.le_refl 2) ?_)
  rw [List.forall_mem_cons, List.forall_mem_singleton]
  exact ⟨hbox, hstring⟩

/-- Neither the record nor the kind of a reference shows in the text. -/
theorem boxArray_formats_alike :
    (∀ r ∈ boxRecords, IsPlainName r.name) ∧
      (boxArray (.ref ⟨1⟩ [])).Structured boxRecords.size ∧
      (boxArray (.name "Box")).Structured boxRecords.size ∧
      (boxArray (.ref ⟨1⟩ [])).format boxRecords = "(Box | string)[]" ∧
      (boxArray (.ref ⟨1⟩ [])).named boxRecords = (boxArray (.name "Box")).named boxRecords := by
  have hplain : IsPlainName "Box" := isPlainName_of_isWord (by decide)
  have hrefs : ∀ r ∈ boxRecords, IsPlainName r.name := by
    simp [boxRecords, hplain]
  have href : (boxArray (.ref ⟨1⟩ [])).Structured boxRecords.size :=
    structured_boxArray (.ref (by decide) (by simp))
  have hname : (boxArray (.name "Box")).Structured boxRecords.size := structured_boxArray (.name hplain)
  exact ⟨hrefs, href, hname, rfl, (format_eq_iff hrefs href hname).mp rfl⟩

end TypeDoc

end ApiDocs
