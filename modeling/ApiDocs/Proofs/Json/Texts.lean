import ApiDocs.Proofs.Json.Scalars

/-!
# Texts are read back

The compact and the indented layout differ in their gaps only, and the reader skips gaps. So both are
texts of one writer, which is given the gaps; what it writes is read back by induction on the depth that
the reader may still go. The reader refuses exactly the values that nest deeper.

## Main definitions

* `Json.Layout`: the gaps of a text.
* `Json.nesting`: how many arrays and objects stand inside one another.

## Main results

* `Json.parse?_compact`, `Json.parse?_pretty`: the text of a value is read as the value, if it is not
  nested too deeply, and is refused otherwise.
-/

namespace ApiDocs.Json

/-! ## How deep a value nests -/

mutual

/-- How many arrays and objects stand inside one another at the deepest place. -/
def nesting : Json → Nat
  | .arr items => itemsNesting items + 1
  | .obj members => membersNesting members + 1
  | _ => 0

/-- The deepest of the items. -/
def itemsNesting : List Json → Nat
  | [] => 0
  | v :: vs => max (nesting v) (itemsNesting vs)

/-- The deepest of the members. -/
def membersNesting : List (String × Json) → Nat
  | [] => 0
  | (_, v) :: ms => max (nesting v) (membersNesting ms)

end

theorem itemsNesting_le_iff {items : List Json} {n : Nat} :
    itemsNesting items ≤ n ↔ ∀ v ∈ items, v.nesting ≤ n := by
  induction items with
  | nil => simp [itemsNesting]
  | cons v vs ih => simp [itemsNesting, ih]

theorem membersNesting_le_iff {members : List (String × Json)} {n : Nat} :
    membersNesting members ≤ n ↔ ∀ m ∈ members, m.2.nesting ≤ n := by
  induction members with
  | nil => simp [membersNesting]
  | cons m ms ih => simp [membersNesting, ih]

theorem nesting_arr_le_iff {items : List Json} {n : Nat} :
    (Json.arr items).nesting ≤ n + 1 ↔ ∀ v ∈ items, v.nesting ≤ n := by
  rw [nesting, Nat.add_le_add_iff_right, itemsNesting_le_iff]

theorem nesting_obj_le_iff {members : List (String × Json)} {n : Nat} :
    (Json.obj members).nesting ≤ n + 1 ↔ ∀ m ∈ members, m.2.nesting ≤ n := by
  rw [nesting, Nat.add_le_add_iff_right, membersNesting_le_iff]

/-! ## One writer for both layouts -/

/-- The gaps of a text: one before the parts of a value, by the level they stand on, and one behind
the colons. -/
structure Layout where
  gap : Nat → List Char
  colon : List Char
  isGap_of_mem_gap : ∀ level, ∀ c ∈ gap level, isGap c = true
  isGap_of_mem_colon : ∀ c ∈ colon, isGap c = true

/-- The layout without gaps. -/
def Layout.compact : Layout where
  gap _ := []
  colon := []
  isGap_of_mem_gap := by simp
  isGap_of_mem_colon := by simp

/-- The layout with a line for each item and member. -/
def Layout.pretty : Layout where
  gap := newline
  colon := [' ']
  isGap_of_mem_gap := by
    intro level c hc
    obtain rfl | hc := List.mem_cons.mp hc
    · decide
    · rw [List.eq_of_mem_replicate hc]
      decide
  isGap_of_mem_colon := List.forall_mem_singleton.mpr (by decide)

/-- The parts of a value after the first, each behind a comma, and the closing character. -/
def listed (before after : List Char) (close : Char) (text : α → List Char) : List α → List Char
  | [] => after ++ [close]
  | x :: xs => ',' :: (before ++ (text x ++ listed before after close text xs))

mutual

/-- The text of a value that stands `level` steps deep. -/
def textIn (l : Layout) (level : Nat) : Json → List Char
  | .arr [] => ['[', ']']
  | .arr (v :: vs) => '[' :: (l.gap (level + 1) ++ (textIn l (level + 1) v ++ itemsIn l level vs))
  | .obj [] => ['\x7b', '\x7d']
  | .obj ((k, v) :: ms) =>
    '\x7b' :: (l.gap (level + 1) ++
      (stringText k ++ ':' :: (l.colon ++ (textIn l (level + 1) v ++ membersIn l level ms))))
  | v => scalarText v

/-- The items after the first. -/
def itemsIn (l : Layout) (level : Nat) : List Json → List Char
  | [] => l.gap level ++ [']']
  | v :: vs => ',' :: (l.gap (level + 1) ++ (textIn l (level + 1) v ++ itemsIn l level vs))

/-- The members after the first. -/
def membersIn (l : Layout) (level : Nat) : List (String × Json) → List Char
  | [] => l.gap level ++ ['\x7d']
  | (k, v) :: ms =>
    ',' :: (l.gap (level + 1) ++
      (stringText k ++ ':' :: (l.colon ++ (textIn l (level + 1) v ++ membersIn l level ms))))

end

/-- The text of a member. -/
def memberIn (l : Layout) (level : Nat) (m : String × Json) : List Char :=
  stringText m.1 ++ ':' :: (l.colon ++ textIn l level m.2)

theorem itemsIn_eq_listed (l : Layout) (level : Nat) (vs : List Json) :
    itemsIn l level vs = listed (l.gap (level + 1)) (l.gap level) ']' (textIn l (level + 1)) vs := by
  induction vs with
  | nil => rfl
  | cons v vs ih => rw [itemsIn, listed, ih]

theorem membersIn_eq_listed (l : Layout) (level : Nat) (ms : List (String × Json)) :
    membersIn l level ms =
      listed (l.gap (level + 1)) (l.gap level) '\x7d' (memberIn l (level + 1)) ms := by
  induction ms with
  | nil => rfl
  | cons m ms ih =>
    obtain ⟨k, v⟩ := m
    simp [membersIn, listed, memberIn, ih]

mutual

theorem textIn_compact (level : Nat) (v : Json) : textIn .compact level v = compactText v := by
  match v with
  | .arr [] => rfl
  | .arr (v :: vs) =>
    rw [textIn, compactText, textIn_compact (level + 1) v, itemsIn_compact level vs]
    rfl
  | .obj [] => rfl
  | .obj ((k, v) :: ms) =>
    rw [textIn, compactText, textIn_compact (level + 1) v, membersIn_compact level ms]
    rfl
  | .null | .bool _ | .int _ | .real _ | .str _ => rfl

theorem itemsIn_compact (level : Nat) (vs : List Json) :
    itemsIn .compact level vs = compactItems vs := by
  match vs with
  | [] => rfl
  | v :: vs =>
    rw [itemsIn, compactItems, textIn_compact (level + 1) v, itemsIn_compact level vs]
    rfl

theorem membersIn_compact (level : Nat) (ms : List (String × Json)) :
    membersIn .compact level ms = compactMembers ms := by
  match ms with
  | [] => rfl
  | (k, v) :: ms =>
    rw [membersIn, compactMembers, textIn_compact (level + 1) v, membersIn_compact level ms]
    rfl

end

mutual

theorem textIn_pretty (level : Nat) (v : Json) : textIn .pretty level v = prettyText level v := by
  match v with
  | .arr [] => rfl
  | .arr (v :: vs) =>
    rw [textIn, prettyText, textIn_pretty (level + 1) v, itemsIn_pretty level vs]
    rfl
  | .obj [] => rfl
  | .obj ((k, v) :: ms) =>
    rw [textIn, prettyText, textIn_pretty (level + 1) v, membersIn_pretty level ms]
    rfl
  | .null | .bool _ | .int _ | .real _ | .str _ => rfl

theorem itemsIn_pretty (level : Nat) (vs : List Json) :
    itemsIn .pretty level vs = prettyItems level vs := by
  match vs with
  | [] => rfl
  | v :: vs =>
    rw [itemsIn, prettyItems, textIn_pretty (level + 1) v, itemsIn_pretty level vs]
    rfl

theorem membersIn_pretty (level : Nat) (ms : List (String × Json)) :
    membersIn .pretty level ms = prettyMembers level ms := by
  match ms with
  | [] => rfl
  | (k, v) :: ms =>
    rw [membersIn, prettyMembers, textIn_pretty (level + 1) v, membersIn_pretty level ms]
    rfl

end

/-! ## Gaps are skipped -/

theorem skipGap_append {gap cs : List Char} (h : ∀ c ∈ gap, isGap c = true) :
    skipGap (gap ++ cs) = skipGap cs := by
  unfold skipGap
  rw [List.dropWhile_append_of_pos h]

theorem skipGap_cons {c : Char} {cs : List Char} (h : isGap c = false) :
    skipGap (c :: cs) = c :: cs := by
  rw [skipGap, List.dropWhile_cons_of_neg (by simp [h])]

/-- A number ends before a gap and before what closes or separates values. -/
theorem endsNumber_gap {gap rest : List Char} {c : Char} (hgap : ∀ c ∈ gap, isGap c = true)
    (hc : c = ',' ∨ c = ']' ∨ c = '\x7d') : EndsNumber (gap ++ c :: rest) := by
  intro d hd
  cases gap with
  | nil =>
    cases hd
    obtain rfl | rfl | rfl := hc <;> decide
  | cons g gap =>
    cases hd
    have hg := hgap d List.mem_cons_self
    simp only [isGap, Bool.or_eq_true, decide_eq_true_eq] at hg
    obtain ((rfl | rfl) | rfl) | rfl := hg <;> decide

/-! ## Lists are read back -/

section Lists

variable {α : Type} {item : Reader α} {text : α → List Char} {ok : α → Prop} [DecidablePred ok]
  {before after : List Char} {close : Char}

/-- A reader and a writer of items that go together: an item is read back if it is `ok`, and refused
otherwise. -/
structure ReadsItem (item : Reader α) (text : α → List Char) (ok : α → Prop) [DecidablePred ok]
    (close : Char) (x : α) : Prop where
  starts : ∃ c rest, text x = c :: rest ∧ isGap c = false ∧ c ≠ close
  reads : ∀ rest, EndsNumber rest → item (text x ++ rest) = if ok x then some (x, rest) else none

theorem ReadsItem.skipGap {x : α} (h : ReadsItem item text ok close x) (rest : List Char) :
    skipGap (text x ++ rest) = text x ++ rest := by
  obtain ⟨c, cs, htext, hc, -⟩ := h.starts
  rw [htext, List.cons_append, skipGap_cons hc]

/-- The last item is read up to the closing character. -/
theorem ReadsItem.readSeparated_last {x : α} (hx : ReadsItem item text ok close x)
    (hafter : ∀ c ∈ after, isGap c = true) (hclose : close = ']' ∨ close = '\x7d') (fuel : Nat)
    {gap : List Char} (hgap : ∀ c ∈ gap, isGap c = true) (rest : List Char) :
    readSeparated item close (fuel + 1) (gap ++ (text x ++ (after ++ close :: rest))) =
      if ok x then some ([x], rest) else none := by
  have hsolid : isGap close = false ∧ close ≠ ',' := by
    obtain rfl | rfl := hclose <;> decide
  rw [readSeparated, skipGap_append hgap, hx.skipGap, hx.reads _ (endsNumber_gap hafter (.inr hclose))]
  by_cases hok : ok x
  · rw [if_pos hok, if_pos hok]
    dsimp only [Option.bind_eq_bind, Option.bind_some]
    rw [skipGap_append hafter, skipGap_cons hsolid.1]
    split
    next h => exact absurd (List.cons.inj h).1 hsolid.2
    next h =>
      cases h
      rw [if_pos rfl]
      rfl
    next h => cases h
  · rw [if_neg hok, if_neg hok]
    rfl

/-- An item with a comma behind it is followed by more items. -/
theorem ReadsItem.readSeparated_comma {x : α} (hx : ReadsItem item text ok close x) (fuel : Nat)
    {gap : List Char} (hgap : ∀ c ∈ gap, isGap c = true) (behind : List Char) :
    readSeparated item close (fuel + 1) (gap ++ (text x ++ ',' :: behind)) =
      if ok x then (readSeparated item close fuel behind).map fun r => (x :: r.1, r.2) else none := by
  have hends : EndsNumber (',' :: behind) := endsNumber_gap (List.forall_mem_nil _) (.inl rfl)
  rw [readSeparated, skipGap_append hgap, hx.skipGap, hx.reads _ hends]
  by_cases hok : ok x
  · rw [if_pos hok, if_pos hok]
    dsimp only [Option.bind_eq_bind, Option.bind_some]
    rw [skipGap_cons (by decide), Option.map_eq_bind]
    rfl
  · rw [if_neg hok, if_neg hok]
    rfl

theorem readSeparated_listed (hbefore : ∀ c ∈ before, isGap c = true)
    (hafter : ∀ c ∈ after, isGap c = true) (hclose : close = ']' ∨ close = '\x7d') {x : α}
    {xs : List α} (hitems : ∀ y ∈ x :: xs, ReadsItem item text ok close y) {fuel : Nat}
    (hfuel : xs.length < fuel) {gap : List Char} (hgap : ∀ c ∈ gap, isGap c = true)
    (rest : List Char) :
    readSeparated item close fuel (gap ++ (text x ++ (listed before after close text xs ++ rest))) =
      if ∀ y ∈ x :: xs, ok y then some (x :: xs, rest) else none := by
  obtain ⟨fuel, rfl⟩ := Nat.exists_eq_add_one_of_ne_zero (Nat.ne_zero_of_lt hfuel)
  induction xs generalizing x fuel gap with
  | nil =>
    have hx := hitems x List.mem_cons_self
    rw [listed, List.append_assoc, List.singleton_append, hx.readSeparated_last hafter hclose fuel hgap]
    simp only [List.forall_mem_singleton]
  | cons y ys ih =>
    have hx := hitems x List.mem_cons_self
    have hys : ys.length < fuel := Nat.lt_of_succ_lt_succ hfuel
    obtain ⟨fuel, rfl⟩ := Nat.exists_eq_add_one_of_ne_zero (Nat.ne_zero_of_lt hys)
    have hrest := ih (fun z hz => hitems z (List.mem_cons_of_mem _ hz)) hbefore fuel hys
    rw [listed, List.cons_append, hx.readSeparated_comma (fuel + 1) hgap, List.append_assoc,
      List.append_assoc, hrest]
    by_cases hok : ok x
    · rw [if_pos hok]
      by_cases hall : ∀ z ∈ y :: ys, ok z
      · rw [if_pos hall, if_pos (List.forall_mem_cons.mpr ⟨hok, hall⟩)]
        rfl
      · rw [if_neg hall, if_neg fun h => hall (List.forall_mem_cons.mp h).2]
        rfl
    · rw [if_neg hok, if_neg fun h => hok (List.forall_mem_cons.mp h).1]

theorem length_lt_length_listed (xs : List α) :
    xs.length < (listed before after close text xs).length := by
  induction xs with
  | nil => simp [listed]
  | cons x xs ih =>
    simp only [listed, List.length_cons, List.length_append]
    omega

/-- A list that is not empty is read back if all its items are, and refused otherwise. -/
theorem readList_listed (hbefore : ∀ c ∈ before, isGap c = true)
    (hafter : ∀ c ∈ after, isGap c = true) (hclose : close = ']' ∨ close = '\x7d') {x : α}
    {xs : List α} (hitems : ∀ y ∈ x :: xs, ReadsItem item text ok close y) (rest : List Char) :
    readList item close (before ++ (text x ++ (listed before after close text xs ++ rest))) =
      if ∀ y ∈ x :: xs, ok y then some (x :: xs, rest) else none := by
  have hx := hitems x List.mem_cons_self
  obtain ⟨c, cs, htext, -, hc⟩ := hx.starts
  have hfuel : xs.length < (text x ++ (listed before after close text xs ++ rest)).length := by
    have hlisted : xs.length < (listed before after close text xs).length :=
      length_lt_length_listed xs
    simp only [List.length_append]
    omega
  rw [readList, skipGap_append hbefore, hx.skipGap]
  rw [← readSeparated_listed hbefore hafter hclose hitems hfuel (List.forall_mem_nil _) rest,
    List.nil_append, htext]
  exact if_neg hc

end Lists

/-! ## Values are read back -/

theorem textIn_head (l : Layout) (level : Nat) {v : Json} (hv : v.Readable) :
    ∃ c rest, textIn l level v = c :: rest ∧ isGap c = false ∧ c ≠ ']' := by
  have hscalar : v.arr? = none → v.obj? = none →
      ∃ c rest, scalarText v = c :: rest ∧ isGap c = false ∧ c ≠ ']' := fun harr hobj =>
    let ⟨c, rest, htext, hc⟩ := scalarText_head hv harr hobj
    let ⟨hgap, _, hclose, _⟩ := opensScalar_cases hc
    ⟨c, rest, htext, hgap, hclose⟩
  match v with
  | .arr [] | .arr (_ :: _) => exact ⟨'[', _, rfl, by decide, by decide⟩
  | .obj [] | .obj (_ :: _) => exact ⟨'\x7b', _, rfl, by decide, by decide⟩
  | .null | .bool _ | .int _ | .real _ | .str _ => exact hscalar rfl rfl

/-- With scalars the depth does not matter. -/
theorem read_scalarText (depth : Nat) {v : Json} (hv : v.Readable) (harr : v.arr? = none)
    (hobj : v.obj? = none) {rest : List Char} (hrest : EndsNumber rest) :
    read depth (scalarText v ++ rest) = some (v, rest) := by
  obtain ⟨c, cs, htext, hc⟩ := scalarText_head hv harr hobj
  obtain ⟨-, harray, -, hobject, -⟩ := opensScalar_cases hc
  rw [← readScalar_scalarText hv harr hobj hrest, htext, List.cons_append]
  cases depth with
  | zero =>
    rw [read]
    · exact fun _ h => harray (List.cons.inj h).1
    · exact fun _ h => hobject (List.cons.inj h).1
  | succ depth =>
    rw [read]
    · exact fun _ h => harray (List.cons.inj h).1
    · exact fun _ h => hobject (List.cons.inj h).1

theorem readMember_memberIn (l : Layout) (depth level : Nat) {m : String × Json} {rest : List Char}
    (hread : read depth (textIn l level m.2 ++ rest) =
      if m.2.nesting ≤ depth then some (m.2, rest) else none) (hv : m.2.Readable) :
    readMember (read depth) (memberIn l level m ++ rest) =
      if m.2.nesting ≤ depth then some (m, rest) else none := by
  obtain ⟨k, v⟩ := m
  have htext : memberIn l level (k, v) ++ rest =
      '"' :: (k.toList.flatMap stringChar ++ '"' :: ':' :: (l.colon ++ (textIn l level v ++ rest))) := by
    simp [memberIn, stringText]
  obtain ⟨c, cs, hhead, hc, -⟩ := textIn_head l level hv
  rw [htext, readMember, readString_stringText]
  dsimp only [Option.bind_eq_bind, Option.bind_some]
  rw [skipGap_cons (by decide)]
  have hskip : skipGap (l.colon ++ (textIn l level v ++ rest)) = textIn l level v ++ rest := by
    rw [skipGap_append l.isGap_of_mem_colon, hhead, List.cons_append, skipGap_cons hc]
  change (read depth (skipGap (l.colon ++ (textIn l level v ++ rest)))).bind _ = _
  rw [hskip, hread]
  split <;> rfl

/-- **A value is read off the front of its text** if it does not nest deeper than the reader may go,
and refused otherwise. -/
theorem read_textIn (l : Layout) (depth level : Nat) {v : Json} (hv : v.Readable) {rest : List Char}
    (hrest : EndsNumber rest) :
    read depth (textIn l level v ++ rest) =
      if v.nesting ≤ depth then some (v, rest) else none := by
  induction depth generalizing level v rest with
  | zero =>
    match v with
    | .arr [] | .arr (_ :: _) => simp [textIn, read, nesting]
    | .obj [] | .obj (_ :: _) => simp [textIn, read, nesting]
    | .null | .bool _ | .int _ | .real _ | .str _ => exact read_scalarText 0 hv rfl rfl hrest
  | succ depth ih =>
    match v, hv with
    | .arr [], _ => simp [textIn, read, readList, skipGap, isGap, nesting, itemsNesting]
    | .arr (v :: vs), .arr hvs =>
      have hitems : ∀ w ∈ v :: vs, ReadsItem (read depth) (textIn l (level + 1))
          (·.nesting ≤ depth) ']' w := fun w hw =>
        ⟨textIn_head l (level + 1) (hvs w hw), fun rest hrest => ih (level + 1) (hvs w hw) hrest⟩
      have hlist := readList_listed (l.isGap_of_mem_gap (level + 1)) (l.isGap_of_mem_gap level)
        (.inl rfl) hitems rest
      have htext : textIn l level (.arr (v :: vs)) ++ rest = '[' :: (l.gap (level + 1) ++
          (textIn l (level + 1) v ++
            (listed (l.gap (level + 1)) (l.gap level) ']' (textIn l (level + 1)) vs ++ rest))) := by
        rw [textIn, itemsIn_eq_listed]
        simp only [List.cons_append, List.append_assoc]
      rw [htext, read, hlist]
      simp only [nesting_arr_le_iff]
      split <;> rfl
    | .obj [], _ => simp [textIn, read, readList, skipGap, isGap, nesting, membersNesting]
    | .obj (m :: ms), .obj hms =>
      have hitems : ∀ w ∈ m :: ms, ReadsItem (readMember (read depth)) (memberIn l (level + 1))
          (·.2.nesting ≤ depth) '\x7d' w := fun w hw =>
        ⟨⟨'"', _, rfl, by decide, by decide⟩, fun rest hrest =>
          readMember_memberIn l depth (level + 1) (ih (level + 1) (hms w hw) hrest) (hms w hw)⟩
      have hlist := readList_listed (l.isGap_of_mem_gap (level + 1)) (l.isGap_of_mem_gap level)
        (.inr rfl) hitems rest
      have htext : textIn l level (.obj (m :: ms)) ++ rest = '\x7b' :: (l.gap (level + 1) ++
          (memberIn l (level + 1) m ++
            (listed (l.gap (level + 1)) (l.gap level) '\x7d' (memberIn l (level + 1)) ms ++ rest))) := by
        rw [textIn, membersIn_eq_listed, memberIn]
        simp only [List.cons_append, List.append_assoc]
      rw [htext, read, hlist]
      simp only [nesting_obj_le_iff]
      split <;> rfl
    | .null, hv | .bool _, hv | .int _, hv | .real _, hv | .str _, hv =>
      rw [if_pos (by simp [nesting])]
      exact read_scalarText _ hv rfl rfl hrest

theorem parse?_textIn (l : Layout) {v : Json} (hv : v.Readable) :
    parse? (String.ofList (textIn l 0 v)) = if v.nesting ≤ nestingLimit then some v else none := by
  obtain ⟨c, cs, hhead, hc, -⟩ := textIn_head l 0 hv
  have hskip : skipGap (textIn l 0 v) = textIn l 0 v := by rw [hhead, skipGap_cons hc]
  have hread := read_textIn l nestingLimit 0 hv endsNumber_nil
  rw [List.append_nil] at hread
  rw [parse?, String.toList_ofList, hskip, hread]
  by_cases hdeep : v.nesting ≤ nestingLimit
  · rw [if_pos hdeep, if_pos hdeep]
    rfl
  · rw [if_neg hdeep, if_neg hdeep]

/-- **The compact text of a value is read as the value,** unless it nests too deeply for the reader. -/
theorem parse?_compact {v : Json} (hv : v.Readable) :
    parse? v.compact = if v.nesting ≤ nestingLimit then some v else none := by
  rw [← parse?_textIn .compact hv, textIn_compact, compact]

/-- **The indented text of a value is read as the value,** unless it nests too deeply for the reader. -/
theorem parse?_pretty {v : Json} (hv : v.Readable) :
    parse? v.pretty = if v.nesting ≤ nestingLimit then some v else none := by
  rw [← parse?_textIn .pretty hv, textIn_pretty, pretty]

end ApiDocs.Json
