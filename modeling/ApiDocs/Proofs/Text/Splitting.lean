import ApiDocs.Text.Blank
import Mathlib.Data.List.TakeWhile

/-!
# Splitting and joining texts

The pieces of a text between the occurrences of a character are those of the list operation, so the
lemmas of the standard library apply: pieces without the character are what a text is put together from,
and putting them together is undone by splitting. A reader that takes the pieces one by one sees the first,
and then the separator and a piece as often as there are more.

## Main results

* `Text.splitOn_eq`: splitting is that of lists.
* `Text.notMem_of_mem_splitOn`: no piece has the character.
* `Text.stripEnd?_append`: a suffix without the character belongs to the last piece.
* `Text.intercalate_cons_flatMap`: the first piece, and each further one behind its separator.
-/

namespace ApiDocs.Text

variable {sep : Char} {piece x y cs : List Char}

theorem splitOn_eq (sep : Char) (cs : List Char) : splitOn sep cs = cs.splitOn sep := by
  induction cs with
  | nil => rw [splitOn, List.splitOn_nil]
  | cons c cs ih =>
    rw [splitOn, List.splitOn_cons_eq_if_modifyHead, ih]
    obtain ⟨piece, pieces, hpieces⟩ := List.exists_cons_of_ne_nil (List.splitOn_ne_nil sep cs)
    simp [hpieces]

theorem splitOn_of_not_mem (h : sep ∉ piece) : splitOn sep piece = [piece] := by
  rw [splitOn_eq, List.splitOn_eq_singleton h]

theorem splitOn_append (x y : List Char) :
    splitOn sep (x ++ sep :: y) = splitOn sep x ++ splitOn sep y := by
  simp only [splitOn_eq, List.splitOn_append_cons_self]

theorem splitOn_append_cons (h : sep ∉ piece) (rest : List Char) :
    splitOn sep (piece ++ sep :: rest) = piece :: splitOn sep rest := by
  rw [splitOn_append, splitOn_of_not_mem h, List.singleton_append]

theorem intercalate_splitOn (sep : Char) (cs : List Char) : [sep].intercalate (splitOn sep cs) = cs := by
  rw [splitOn_eq, List.intercalate_splitOn]

theorem splitOn_intercalate {pieces : List (List Char)} (h : ∀ p ∈ pieces, sep ∉ p)
    (hne : pieces ≠ []) : splitOn sep ([sep].intercalate pieces) = pieces := by
  rw [splitOn_eq, List.splitOn_intercalate sep h hne]

theorem notMem_of_mem_splitOn (h : piece ∈ splitOn sep cs) : sep ∉ piece := by
  induction cs generalizing piece with
  | nil =>
    rw [splitOn, List.mem_singleton] at h
    simp [h]
  | cons c cs ih =>
    obtain ⟨first, pieces, hpieces⟩ := List.exists_cons_of_ne_nil (splitOn_ne_nil sep cs)
    rw [splitOn, hpieces] at h
    by_cases hc : c = sep
    · rw [if_pos hc, List.mem_cons] at h
      rcases h with rfl | h
      · simp
      · exact ih (hpieces ▸ h)
    · rw [if_neg hc, List.mem_cons] at h
      rcases h with rfl | h
      · have hfirst : sep ∉ first := ih (by simp [hpieces])
        simpa [Ne.symm hc] using hfirst
      · exact ih (by simp [hpieces, h])

theorem stripEnd?_suffix (suf cs : List Char) : stripEnd? suf (cs ++ suf) = some cs := by
  simp [stripEnd?]

theorem stripEnd?_eq_none {suf : List Char} (h : ¬ suf <:+ cs) : stripEnd? suf cs = none := by
  simp [stripEnd?, h]

/-- A suffix without the character is a suffix of what stands behind it. -/
theorem stripEnd?_append {suf : List Char} (h : sep ∉ suf) (x y : List Char) :
    stripEnd? suf (x ++ sep :: y) = (stripEnd? suf y).map (x ++ sep :: ·) := by
  by_cases hs : suf <:+ y
  · obtain ⟨rest, rfl⟩ := hs
    have hwhole : x ++ sep :: (rest ++ suf) = (x ++ sep :: rest) ++ suf := by simp
    rw [hwhole, stripEnd?_suffix, stripEnd?_suffix, Option.map_some]
  · have hnot : ¬ suf <:+ x ++ sep :: y := by
      intro hlong
      rcases List.suffix_or_suffix_of_suffix hlong (List.suffix_append x (sep :: y)) with hshort | hover
      · rcases List.suffix_cons_iff.mp hshort with rfl | hy
        · simp at h
        · exact hs hy
      · exact h (hover.subset (by simp))
    rw [stripEnd?_eq_none hs, stripEnd?_eq_none hnot, Option.map_none]

/-! ## Joining -/

theorem intercalate_cons_flatMap (sep x : List Char) (xs : List (List Char)) :
    sep.intercalate (x :: xs) = x ++ xs.flatMap (sep ++ ·) := by
  induction xs generalizing x with
  | nil => simp [List.intercalate]
  | cons y ys ih =>
    rw [List.intercalate_cons_cons, ih, List.flatMap_cons, List.append_assoc, List.append_assoc]

theorem length_le_flatMap (sep : List Char) {text : List Char} {texts : List (List Char)}
    (h : text ∈ texts) : text.length ≤ (texts.flatMap (sep ++ ·)).length := by
  have hlength := (List.sublist_flatten_of_mem (List.mem_map_of_mem (f := (sep ++ ·)) h)).length_le
  rw [List.length_append, ← List.flatMap_def] at hlength
  omega

theorem length_le_intercalate (sep : List Char) {text : List Char} {texts : List (List Char)}
    (h : text ∈ texts) : text.length ≤ (sep.intercalate texts).length := by
  cases texts with
  | nil => cases h
  | cons first more =>
    rw [intercalate_cons_flatMap, List.length_append]
    rcases List.mem_cons.mp h with rfl | h
    · omega
    · have hmore := length_le_flatMap sep h
      omega

theorem length_flatMap_le (sep : List Char) (texts : List (List Char)) :
    sep.length * texts.length ≤ (texts.flatMap (sep ++ ·)).length := by
  induction texts with
  | nil => simp
  | cons text texts ih =>
    rw [List.flatMap_cons, List.length_append, List.length_append, List.length_cons, Nat.mul_add]
    omega

end ApiDocs.Text
