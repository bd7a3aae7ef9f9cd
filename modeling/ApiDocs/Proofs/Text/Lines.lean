import ApiDocs.Proofs.Text.Splitting
import ApiDocs.Text.Lines
import Mathlib.Data.List.DropRight

/-!
# Lines and trimming

Trimming takes the blanks off both ends of a text, so blanks that are put around a text do not change what
is left, and a text that neither starts nor ends with a blank is left as it is. A carriage return is a blank.
Hence the lines of a text, once trimmed, are its pieces between line feeds, up to an empty line at the end.

## Main definitions

* `Text.IsTrimmed`: a text without blanks at its ends.

## Main results

* `Text.trim_padded`: trimming a text with blanks around it.
* `Text.isTrimmed_iff`: which texts are trimmed.
* `Text.lines_append`: the lines of two texts with a line feed between them.
-/

namespace ApiDocs.Text

variable {before after cs line : List Char} {c : Char}

/-! ## Trimming -/

/-- A text without blanks at its ends. -/
def IsTrimmed (cs : List Char) : Prop := trim cs = cs

instance (cs : List Char) : Decidable (IsTrimmed cs) := inferInstanceAs (Decidable (trim cs = cs))

theorem trimEnd_eq_rdropWhile (cs : List Char) : trimEnd cs = cs.rdropWhile isBlank := rfl

theorem trim_append_left (h : ∀ c ∈ before, isBlank c = true) (cs : List Char) :
    trim (before ++ cs) = trim cs := by
  rw [trim, trimStart, List.dropWhile_append_of_pos h]
  rfl

theorem trimEnd_append (h : ∀ c ∈ after, isBlank c = true) (cs : List Char) :
    trimEnd (cs ++ after) = trimEnd cs := by
  rw [trimEnd, List.reverse_append, List.dropWhile_append_of_pos (by simpa using h)]
  rfl

theorem trim_append_right (h : ∀ c ∈ after, isBlank c = true) (cs : List Char) :
    trim (cs ++ after) = trim cs := by
  rw [trim, trim, trimStart, trimStart, List.dropWhile_append]
  by_cases hnone : (cs.dropWhile isBlank).isEmpty = true
  · have hafter : after.dropWhile isBlank = [] := List.dropWhile_eq_nil_iff.mpr h
    rw [if_pos hnone, hafter, List.isEmpty_iff.mp hnone]
  · rw [if_neg hnone, trimEnd_append h]

/-- **Blanks around a text do not change what trimming leaves of it.** -/
theorem trim_padded (hbefore : ∀ c ∈ before, isBlank c = true) (hafter : ∀ c ∈ after, isBlank c = true)
    (cs : List Char) : trim (before ++ cs ++ after) = trim cs := by
  rw [trim_append_right hafter, trim_append_left hbefore]

theorem trim_trimEnd (cs : List Char) : trim (trimEnd cs) = trim cs := by
  have hblank : ∀ c ∈ cs.rtakeWhile isBlank, isBlank c = true := fun c hc => List.mem_rtakeWhile_imp hc
  have h := trim_append_right hblank (trimEnd cs)
  rw [trimEnd_eq_rdropWhile, List.rdropWhile_append_rtakeWhile] at h
  exact h.symm

/-- What stands behind a character that is no blank is trimmed by itself. -/
theorem trimEnd_cons (h : isBlank c = false) (cs : List Char) : trimEnd (c :: cs) = c :: trimEnd cs := by
  rw [trimEnd, List.reverse_cons, List.dropWhile_append]
  by_cases hnone : (cs.reverse.dropWhile isBlank).isEmpty = true
  · rw [if_pos hnone, trimEnd, List.isEmpty_iff.mp hnone]
    simp [h]
  · rw [if_neg hnone, List.reverse_append]
    rfl

theorem trim_cons (h : isBlank c = false) (cs : List Char) : trim (c :: cs) = c :: trimEnd cs := by
  rw [trim, trimStart, List.dropWhile_cons_of_neg (by simp [h]), trimEnd_cons h]

theorem trimEnd_eq_self_iff : trimEnd cs = cs ↔ ∀ c ∈ cs.getLast?, isBlank c = false := by
  rw [trimEnd_eq_rdropWhile, List.rdropWhile_eq_self_iff]
  cases cs using List.reverseRecOn <;> simp

theorem trimStart_eq_self_iff : trimStart cs = cs ↔ ∀ c ∈ cs.head?, isBlank c = false := by
  cases cs with
  | nil => simp [trimStart]
  | cons c cs =>
    rw [trimStart, List.dropWhile_eq_self_iff]
    simp

/-- **A text is trimmed if it neither starts nor ends with a blank.** -/
theorem isTrimmed_iff : IsTrimmed cs ↔
    (∀ c ∈ cs.head?, isBlank c = false) ∧ ∀ c ∈ cs.getLast?, isBlank c = false := by
  rw [← trimStart_eq_self_iff, ← trimEnd_eq_self_iff, IsTrimmed, trim]
  constructor
  · intro h
    -- Each of the two steps can only shorten the text, so none of them does.
    have hprefix : trimEnd (trimStart cs) <+: trimStart cs := List.rdropWhile_prefix isBlank _
    rw [h] at hprefix
    have hstart : trimStart cs = cs :=
      (List.dropWhile_suffix isBlank).eq_of_length_le hprefix.length_le
    rw [hstart] at h
    exact ⟨hstart, h⟩
  · rintro ⟨hstart, hend⟩
    rw [hstart, hend]

/-- A text without blanks is trimmed. -/
theorem isTrimmed_of_solid (h : ∀ c ∈ cs, isBlank c = false) : IsTrimmed cs :=
  isTrimmed_iff.mpr
    ⟨fun c hc => h c (List.mem_of_mem_head? hc), fun c hc => h c (List.mem_of_mem_getLast? hc)⟩

/-- Texts that are trimmed and not empty can be joined. -/
theorem IsTrimmed.append {x y : List Char} (hx : IsTrimmed x) (hy : IsTrimmed y) (hxne : x ≠ [])
    (hyne : y ≠ []) (sep : List Char) : IsTrimmed (x ++ sep ++ y) := by
  rw [isTrimmed_iff] at *
  constructor
  · rw [List.append_assoc, List.head?_append_of_ne_nil _ hxne]
    exact hx.1
  · rw [List.getLast?_append_of_ne_nil _ hyne]
    exact hy.2

/-! ## Lines -/

theorem trim_dropReturn (line : List Char) : trim (dropReturn line) = trim line := by
  unfold dropReturn
  split
  next rest hrest =>
    have hsuffix : ['\x0d'] <:+ line := by
      by_contra hnot
      rw [stripEnd?_eq_none hnot] at hrest
      cases hrest
    obtain ⟨before, rfl⟩ := hsuffix
    rw [stripEnd?_suffix] at hrest
    obtain rfl := Option.some.inj hrest
    exact (trim_append_right (List.forall_mem_singleton.mpr (by decide)) before).symm
  next => rfl

/-- **The lines of two texts with a line feed between them.** Every piece of the first is a line. -/
theorem lines_append (x y : List Char) :
    lines (x ++ '\n' :: y) = (splitOn '\n' x).map dropReturn ++ lines y := by
  have hne := splitOn_ne_nil '\n' y
  rw [lines, lines, splitOn_append]
  simp only [List.getLast?_append_of_ne_nil _ hne, List.dropLast_append_of_ne_nil hne, List.map_append,
    List.append_assoc]

section

variable {α : Type} {f : List Char → α} (hf : ∀ line, f (dropReturn line) = f line)

include hf

theorem map_dropReturn (pieces : List (List Char)) : (pieces.map dropReturn).map f = pieces.map f := by
  rw [List.map_map]
  exact List.map_congr_left fun line _ => hf line

/-- Up to carriage returns, the pieces of a text are its lines, and an empty one if it ends in a line feed. -/
theorem exists_map_splitOn (cs : List Char) : ∃ more, (more = [] ∨ more = [f []]) ∧
    (splitOn '\n' cs).map f = (lines cs).map f ++ more := by
  have hne := splitOn_ne_nil '\n' cs
  rw [lines]
  generalize splitOn '\n' cs = pieces at hne ⊢
  obtain ⟨init, last, rfl⟩ := (List.eq_nil_or_concat pieces).resolve_left hne
  simp only [List.concat_eq_append, List.dropLast_concat, List.getLast?_concat, List.map_append,
    map_dropReturn hf, List.append_assoc]
  cases last with
  | nil => exact ⟨[f []], .inr rfl, by simp⟩
  | cons c rest => exact ⟨[], .inl rfl, by simp⟩

/-- Up to carriage returns, lines that are not empty are those that their text has. -/
theorem map_lines_intercalate {texts : List (List Char)} (hne : ∀ text ∈ texts, text ≠ [])
    (hbreak : ∀ text ∈ texts, '\n' ∉ text) :
    (lines ((['\n'] : List Char).intercalate texts)).map f = texts.map f := by
  rcases List.eq_nil_or_concat texts with rfl | ⟨init, last, rfl⟩
  · rfl
  · rw [List.concat_eq_append] at *
    rw [lines, splitOn_intercalate hbreak (by simp)]
    obtain ⟨c, rest, hlast⟩ := List.exists_cons_of_ne_nil (hne last (by simp))
    simp only [List.dropLast_concat, List.getLast?_concat, List.map_append, map_dropReturn hf, hlast]

end

end ApiDocs.Text
