import ApiDocs.FlagSet
import ApiDocs.Proofs.Text.Lines
import Mathlib.Data.List.Nodup

/-!
# Flag texts are read back

The text of a flag set names its bits from a vocabulary and gives the bits without a name as a number.
Whatever names were chosen, groups of bits included, and whatever bits were left over, together they make
up the word again: this is what choosing a name keeps. Reading puts the words of the parts together, so
all that is left is to read each part as the word it was written for.

## Main definitions

* `FlagNames.WellFormed`: no name is given twice, and names are words of capital letters.

## Main results

* `FlagSet.ofText?_text`: the text of a flag set is read as the flag set, for every word.
-/

namespace ApiDocs

/-! ## Words -/

/-- The bits of all flags in a list. -/
def FlagNames.allBits (flags : FlagNames) : UInt32 := flags.foldr (fun e bits => e.2 ||| bits) 0

theorem FlagNames.foldl_or (flags : FlagNames) (bits : UInt32) :
    flags.foldl (fun bits e => bits ||| e.2) bits = bits ||| flags.allBits := by
  induction flags generalizing bits with
  | nil => exact UInt32.or_zero.symm
  | cons e flags ih =>
    rw [List.foldl_cons, ih, UInt32.or_assoc]
    rfl

theorem or_and_not (mask left : UInt32) : mask ||| left &&& ~~~mask = mask ||| left := by
  apply UInt32.toBitVec_inj.mp
  ext i hi
  simp only [UInt32.toBitVec_or, UInt32.toBitVec_and, UInt32.toBitVec_not, BitVec.getElem_or,
    BitVec.getElem_and, BitVec.getElem_not]
  cases mask.toBitVec[i] <;> simp

theorem or_eq_of_and_eq {word mask : UInt32} (h : word &&& mask = mask) : word ||| mask = word := by
  rw [← h]
  apply UInt32.toBitVec_inj.mp
  ext i hi
  simp only [UInt32.toBitVec_or, UInt32.toBitVec_and, BitVec.getElem_or, BitVec.getElem_and]
  cases word.toBitVec[i] <;> simp

/-- The names that are taken stand for bits of the word, and with the bits left over they make up what
was to be covered. -/
theorem FlagSet.cover_eq (word : UInt32) (names : FlagNames) (left : UInt32) :
    ∃ taken : FlagNames, taken ⊆ names ∧ (FlagSet.cover word names left).1 = taken.map Prod.fst ∧
      word ||| taken.allBits = word ∧
      left ||| taken.allBits = taken.allBits ||| (FlagSet.cover word names left).2 := by
  induction names generalizing left with
  | nil => exact ⟨[], List.Subset.refl _, rfl, UInt32.or_zero, by simp [FlagNames.allBits, cover]⟩
  | cons e names ih =>
    obtain ⟨name, mask⟩ := e
    unfold cover
    split
    next h =>
      obtain ⟨taken, hsub, hnames, hword, hleft⟩ := ih (left &&& ~~~mask)
      have hmask : word &&& mask = mask := by
        rw [Bool.and_eq_true, beq_iff_eq] at h
        exact h.1
      refine ⟨(name, mask) :: taken, List.cons_subset_cons _ hsub, by rw [List.map_cons, ← hnames], ?_, ?_⟩
      · change word ||| (mask ||| taken.allBits) = word
        rw [← UInt32.or_assoc, or_eq_of_and_eq hmask, hword]
      · change left ||| (mask ||| taken.allBits) = mask ||| taken.allBits ||| _
        calc left ||| (mask ||| taken.allBits) = mask ||| left ||| taken.allBits := by
              rw [← UInt32.or_assoc, UInt32.or_comm left]
          _ = mask ||| (left &&& ~~~mask ||| taken.allBits) := by
              rw [← UInt32.or_assoc mask (left &&& ~~~mask), or_and_not]
          _ = mask ||| taken.allBits ||| _ := by rw [hleft, UInt32.or_assoc]
    next =>
      obtain ⟨taken, hsub, h⟩ := ih left
      exact ⟨taken, fun e he => List.mem_cons_of_mem _ (hsub he), h⟩

/-! ## Numbers -/

theorem Json.hexNumber?_hex (n : Nat) : Json.hexNumber? (Text.hex n) = some n := by
  induction n using Nat.strongRecOn with
  | ind n ih =>
    have hdigit : ∀ d < 16, Json.hexValue? (Nat.digitChar d) = some d := by decide
    rw [Text.hex, Nat.toDigits_eq_if (by decide)]
    split
    next hsmall =>
      simp [Json.hexNumber?, hdigit n hsmall]
    next hlarge =>
      have hhigh := ih (n / 16) (by omega)
      rw [Json.hexNumber?, Text.hex] at hhigh
      rw [Json.hexNumber?, List.foldlM_append, hhigh]
      simp [hdigit (n % 16) (by omega)]
      omega

theorem mem_hex {n : Nat} {c : Char} (hc : c ∈ Text.hex n) : c ∈ "0123456789abcdef".toList := by
  induction n using Nat.strongRecOn with
  | ind n ih =>
    have hdigit : ∀ d < 16, Nat.digitChar d ∈ "0123456789abcdef".toList := by decide
    rw [Text.hex, Nat.toDigits_eq_if (by decide)] at hc
    split at hc
    next hsmall =>
      obtain rfl := List.mem_singleton.mp hc
      exact hdigit n hsmall
    next hlarge =>
      obtain hc | hc := List.mem_append.mp hc
      · exact ih (n / 16) (by omega) hc
      · obtain rfl := List.mem_singleton.mp hc
        exact hdigit (n % 16) (by omega)

theorem FlagSet.hexWord?_hex (word : UInt32) : hexWord? (Text.hex word.toNat) = some word := by
  have hne : Text.hex word.toNat ≠ [] := Nat.toDigits_ne_nil
  have hplus : ∀ rest, Text.hex word.toNat ≠ '+' :: rest := fun rest h =>
    absurd (mem_hex (h ▸ List.mem_cons_self : '+' ∈ Text.hex word.toNat)) (by decide)
  have hlt : word.toNat < Number.twoTo 32 := word.toNat_lt
  unfold hexWord?
  split
  next h => exact absurd h (hplus _)
  next => simp [hne, Json.hexNumber?_hex, hlt]

/-! ## Parts -/

namespace Text

theorem isBlank_of_isUpper {c : Char} (h : c.isUpper = true) :
    isBlank c = false ∧ c ≠ '|' ∧ c ≠ '0' := by
  have hrange : 65 ≤ c.toNat ∧ c.toNat ≤ 90 := of_decide_eq_true h
  refine ⟨?_, ?_, ?_⟩
  · simp only [isBlank, Bool.or_eq_false_iff, Bool.and_eq_false_iff, decide_eq_false_iff_not,
      beq_eq_false_iff_ne]
    omega
  all_goals
    rintro rfl
    exact absurd hrange (by decide)

end Text

namespace FlagSet

variable {names : FlagNames}

/-- A text without blanks and bars that is read as a word. -/
structure IsPart (names : FlagNames) (part : List Char) (word : UInt32) : Prop where
  ne_nil : part ≠ []
  solid : ∀ c ∈ part, Text.isBlank c = false ∧ c ≠ '|'
  reads : part? names part = some word

theorem IsPart.trim_eq {part : List Char} {word : UInt32} (h : IsPart names part word)
    {before after : List Char} (hbefore : ∀ c ∈ before, Text.isBlank c = true)
    (hafter : ∀ c ∈ after, Text.isBlank c = true) : Text.trim (before ++ part ++ after) = part := by
  rw [Text.trim_padded hbefore hafter]
  exact Text.isTrimmed_of_solid fun c hc => (h.solid c hc).1

/-- A part is read with blanks around it, too. -/
theorem IsPart.reads_padded {part : List Char} {word : UInt32} (h : IsPart names part word)
    {before after : List Char} (hbefore : ∀ c ∈ before, Text.isBlank c = true)
    (hafter : ∀ c ∈ after, Text.isBlank c = true) :
    part? names (before ++ part ++ after) = some word := by
  have hself : Text.trim part = part := Text.isTrimmed_of_solid fun c hc => (h.solid c hc).1
  have hreads := h.reads
  rw [part?, hself] at hreads
  rw [part?, h.trim_eq hbefore hafter]
  exact hreads

/-- The words of parts that are joined by bars are put together. -/
theorem foldlM_parts {before : List Char} (hbefore : ∀ c ∈ before, Text.isBlank c = true ∧ c ≠ '|')
    (a : FlagSet names) (e : List Char × UInt32) (parts : List (List Char × UInt32))
    (h : ∀ e' ∈ e :: parts, IsPart names e'.1 e'.2) :
    (Text.splitOn '|' (before ++ [' ', '|', ' '].intercalate ((e :: parts).map Prod.fst))).foldlM
      (fun a cs => (part? names cs).map fun b => (⟨a.bits ||| b⟩ : FlagSet names)) a =
      some ⟨(e :: parts).foldl (fun bits e => bits ||| e.2) a.bits⟩ := by
  induction parts generalizing before a e with
  | nil =>
    have hpart := h e List.mem_cons_self
    have hbar : '|' ∉ before ++ e.1 := fun hmem =>
      (List.mem_append.mp hmem).elim (fun h => (hbefore _ h).2 rfl) fun h => (hpart.solid _ h).2 rfl
    have hread := hpart.reads_padded (fun c hc => (hbefore c hc).1) (List.forall_mem_nil _)
    rw [List.append_nil] at hread
    rw [List.map_singleton, List.intercalate_singleton, Text.splitOn_of_not_mem hbar]
    simp [hread]
  | cons e' parts ih =>
    have hpart := h e List.mem_cons_self
    have hbar : '|' ∉ before ++ e.1 ++ [' '] := by
      intro hmem
      obtain hmem | hmem := List.mem_append.mp hmem
      · exact (List.mem_append.mp hmem).elim (fun h => (hbefore _ h).2 rfl)
          fun h => (hpart.solid _ h).2 rfl
      · exact absurd hmem (by decide)
    have htext : before ++ [' ', '|', ' '].intercalate ((e :: e' :: parts).map Prod.fst) =
        (before ++ e.1 ++ [' ']) ++
          '|' :: ([' '] ++ [' ', '|', ' '].intercalate ((e' :: parts).map Prod.fst)) := by
      rw [List.map_cons, List.map_cons, List.intercalate_cons_cons]
      simp
    have hread : part? names (before ++ e.1 ++ [' ']) = some e.2 :=
      hpart.reads_padded (fun c hc => (hbefore c hc).1) (List.forall_mem_singleton.mpr (by decide))
    rw [htext, Text.splitOn_append_cons hbar, List.foldlM_cons, hread]
    exact ih (List.forall_mem_singleton.mpr (by decide)) ⟨a.bits ||| e.2⟩ e' fun x hx =>
      h x (List.mem_cons_of_mem _ hx)

/-- A number is a part. -/
theorem isPart_hex (word : UInt32) : IsPart names ('0' :: 'x' :: Text.hex word.toNat) word := by
  have hsolid : ∀ c ∈ '0' :: 'x' :: Text.hex word.toNat, Text.isBlank c = false ∧ c ≠ '|' := by
    have hdigits : "0123456789abcdef".toList.all fun d => !Text.isBlank d && d != '|' := by decide
    have hdigit : ∀ d ∈ "0123456789abcdef".toList, Text.isBlank d = false ∧ d ≠ '|' := by
      simpa only [List.all_eq_true, Bool.and_eq_true, Bool.not_eq_true', bne_iff_ne] using hdigits
    intro c hc
    obtain rfl | hc := List.mem_cons.mp hc
    · decide
    obtain rfl | hc := List.mem_cons.mp hc
    · decide
    exact hdigit c (mem_hex hc)
  have htrim : Text.trim ('0' :: 'x' :: Text.hex word.toNat) = '0' :: 'x' :: Text.hex word.toNat :=
    Text.isTrimmed_of_solid fun c hc => (hsolid c hc).1
  refine ⟨List.cons_ne_nil _ _, hsolid, ?_⟩
  rw [part?, htrim]
  exact hexWord?_hex word

end FlagSet

/-- No name is given twice, and the names are words of capital letters. -/
structure FlagNames.WellFormed (names : FlagNames) : Prop where
  distinct : (names.map Prod.fst).Nodup
  capitals : ∀ e ∈ names, e.1.toList ≠ [] ∧ e.1.toList.all fun c => c.isUpper || c == '_'

namespace FlagSet

variable {names : FlagNames}

/-- A name of the vocabulary is a part. -/
theorem isPart_name (hnames : names.WellFormed) {e : String × UInt32} (he : e ∈ names) :
    IsPart names e.1.toList e.2 := by
  obtain ⟨hne, hcapitals⟩ := hnames.capitals e he
  simp only [List.all_eq_true, Bool.or_eq_true, beq_iff_eq] at hcapitals
  have hsolid : ∀ c ∈ e.1.toList, Text.isBlank c = false ∧ c ≠ '|' := by
    intro c hc
    obtain hc | rfl := hcapitals c hc
    · obtain ⟨hblank, hbar, -⟩ := Text.isBlank_of_isUpper hc
      exact ⟨hblank, hbar⟩
    · decide
  have hzero : ∀ rest, e.1.toList ≠ '0' :: rest := by
    intro rest h
    obtain hc | hc := hcapitals '0' (h ▸ List.mem_cons_self)
    · exact (Text.isBlank_of_isUpper hc).2.2 rfl
    · exact absurd hc (by decide)
  have htrim : Text.trim e.1.toList = e.1.toList :=
    Text.isTrimmed_of_solid fun c hc => (hsolid c hc).1
  have hfind : names.find? (·.1 == e.1) = some e := by
    cases hfound : names.find? (·.1 == e.1) with
    | none => exact absurd (List.find?_eq_none.mp hfound e he) (by simp)
    | some e' =>
      have hname : e'.1 = e.1 := by simpa using List.find?_some hfound
      rw [List.inj_on_of_nodup_map hnames.distinct (List.mem_of_find?_eq_some hfound) he hname]
  refine ⟨hne, hsolid, ?_⟩
  rw [part?, htrim]
  split
  next h => exact absurd h hne
  next h => exact absurd h (hzero _)
  next => rw [String.ofList_toList, hfind]; rfl

/-- The text of a flag set joins parts whose words make up the flag set. -/
theorem exists_parts (hnames : names.WellFormed) (f : FlagSet names) :
    ∃ parts : List (List Char × UInt32), (∀ e ∈ parts, IsPart names e.1 e.2) ∧
      f.text.toList = [' ', '|', ' '].intercalate (parts.map Prod.fst) ∧
      parts.foldl (fun bits e => bits ||| e.2) 0 = f.bits := by
  obtain ⟨taken, hsub, hcovered, hword, hleft⟩ := cover_eq f.bits names f.bits
  generalize hrest : (cover f.bits names f.bits).2 = left at hleft
  rw [hword] at hleft
  refine ⟨taken.map (fun e => (e.1.toList, e.2)) ++
    if left = 0 then [] else [('0' :: 'x' :: Text.hex left.toNat, left)], ?_, ?_, ?_⟩
  · intro e he
    obtain he | he := List.mem_append.mp he
    · obtain ⟨e, hmem, rfl⟩ := List.mem_map.mp he
      exact isPart_name hnames (hsub hmem)
    · split at he
      · cases he
      · obtain rfl := List.mem_singleton.mp he
        exact isPart_hex left
  · have hwritten : f.text = " | ".intercalate (if left == 0 then taken.map Prod.fst
        else taken.map Prod.fst ++ [String.ofList ('0' :: 'x' :: Text.hex left.toNat)]) := by
      rw [← hcovered, ← hrest]
      rfl
    rw [hwritten, String.toList_intercalate]
    congr 1
    by_cases hzero : left = 0 <;> simp [hzero]
  · rw [List.foldl_append, List.foldl_map, taken.foldl_or, UInt32.zero_or, hleft]
    split
    next hzero => rw [hzero, List.foldl_nil, UInt32.or_zero]
    next => rfl

/-- A text of parts is not blank. -/
theorem IsPart.trim_joined_ne_nil {e : List Char × UInt32} (h : IsPart names e.1 e.2)
    (parts : List (List Char × UInt32)) :
    Text.trim ([' ', '|', ' '].intercalate ((e :: parts).map Prod.fst)) ≠ [] := by
  obtain ⟨c, cs, hcs⟩ := List.exists_cons_of_ne_nil h.ne_nil
  have hblank : Text.isBlank c = false := (h.solid c (hcs ▸ List.mem_cons_self)).1
  rw [List.map_cons, hcs]
  cases parts.map Prod.fst with
  | nil =>
    rw [List.intercalate_singleton, Text.trim_cons hblank]
    exact List.cons_ne_nil _ _
  | cons next rest =>
    rw [List.intercalate_cons_cons, List.cons_append, List.cons_append, Text.trim_cons hblank]
    exact List.cons_ne_nil _ _

/-- A text of parts is read as what their words make up. -/
theorem ofText?_of_parts {text : String} {parts : List (List Char × UInt32)}
    (hparts : ∀ e ∈ parts, IsPart names e.1 e.2)
    (htext : text.toList = [' ', '|', ' '].intercalate (parts.map Prod.fst)) :
    ofText? text = some (⟨parts.foldl (fun bits e => bits ||| e.2) 0⟩ : FlagSet names) := by
  rw [ofText?, htext]
  cases parts with
  | nil => rfl
  | cons e parts =>
    have hsolid := (hparts e List.mem_cons_self).trim_joined_ne_nil parts
    have hread := foldlM_parts (List.forall_mem_nil _) none e parts hparts
    rw [List.nil_append] at hread
    rw [List.isEmpty_eq_false_iff.mpr hsolid, if_neg Bool.false_ne_true, hread]
    rfl

/-- **The text of a flag set is read as the flag set,** whatever bits are set. -/
theorem ofText?_text (hnames : names.WellFormed) (f : FlagSet names) : ofText? f.text = some f := by
  obtain ⟨parts, hparts, htext, hbits⟩ := exists_parts hnames f
  rw [ofText?_of_parts hparts htext, hbits]

end FlagSet

theorem symbolFlagNames_wellFormed : symbolFlagNames.WellFormed := ⟨by decide, by decide⟩

theorem typeFlagNames_wellFormed : typeFlagNames.WellFormed := ⟨by decide, by decide⟩

theorem objectFlagNames_wellFormed : objectFlagNames.WellFormed := ⟨by decide, by decide⟩

theorem modifierFlagNames_wellFormed : modifierFlagNames.WellFormed := ⟨by decide, by decide⟩

end ApiDocs
