import ApiDocs.Binding.LineIndex
import ApiDocs.Proofs.Text.ByteOrder
import Mathlib.Data.List.Induction

/-!
# Line numbers

Lines are found by halving the list of their starts, and what is found is what counting gives: the line of an
offset is one more than the number of line feeds in front of it. A line feed itself is on the line that it ends,
and an offset that is no start belongs to the last start before.

Starts are words, so a source must have fewer bytes than there are words. Lines are words, too, and there are as
many lines as words at most; only behind the last line feed of a source that consists of nothing else, and is as
long as a source can be, the number of the line wraps around to zero.

## Main definitions

* `LineIndex.feedsBefore`: how many line feeds are in front of an offset.
* `LineIndex.Wraps`: the offset whose line has no number.
* `LineIndex.Starts`: where the lines of a source start.
* `LineIndex.Slot.Fits`: where an offset is among starts, or would be.
* `LineIndex.Spans`: the lines that a stretch goes over.

## Main results

* `LineIndex.searchBetween_fits`: the search finds where an offset is, or would be.
* `LineIndex.ofText_countsFeeds`: lines are counted by line feeds.
-/

namespace ApiDocs

open TypeScript (Span)

namespace LineIndex

variable {bytes : List UInt8} {starts : Array UInt32} {offset : UInt32} {index : LineIndex}

/-! ## Starts of lines -/

/-- The line feeds of a text in front of an offset. -/
def feedsBefore (text : String) (offset : Nat) : Nat := ((Text.bytes text).take offset).count lineFeed

/-- Where the lines of a source with these bytes start. -/
structure Starts (bytes : List UInt8) (starts : Array UInt32) : Prop where
  increasing : starts.toList.Pairwise (· < ·)
  within : ∀ s ∈ starts.toList, s.toNat ≤ bytes.length
  count : ∀ offset, starts.toList.countP (·.toNat ≤ offset) = 1 + (bytes.take offset).count lineFeed

theorem toNat_toUInt32 {n : Nat} (h : n < 2 ^ 32) : n.toUInt32.toNat = n :=
  UInt32.toNat_ofNat_of_lt' h

/-- One more byte. -/
theorem Starts.addByte (h : Starts bytes starts) (byte : UInt8) (hlength : bytes.length + 1 < 2 ^ 32) :
    Starts (bytes ++ [byte]) (LineIndex.addByte starts (byte, bytes.length)) := by
  unfold LineIndex.addByte
  by_cases hbyte : byte = lineFeed
  · rw [if_pos hbyte]
    refine ⟨?_, ?_, fun offset => ?_⟩
    · rw [Array.toList_push, List.pairwise_append]
      refine ⟨h.increasing, List.pairwise_singleton _ _, fun s hs t ht => ?_⟩
      obtain rfl := List.mem_singleton.mp ht
      have hle := h.within s hs
      rw [UInt32.lt_iff_toNat_lt, toNat_toUInt32 hlength]
      omega
    · intro s hs
      rw [Array.toList_push, List.mem_append, List.mem_singleton] at hs
      rw [List.length_append, List.length_singleton]
      obtain hs | rfl := hs
      · have hle := h.within s hs
        omega
      · rw [toNat_toUInt32 hlength]
    · rw [Array.toList_push, List.countP_append, List.countP_singleton, h.count, toNat_toUInt32 hlength,
        List.take_append, List.count_append, hbyte]
      by_cases hoffset : bytes.length + 1 ≤ offset
      · have htake : [lineFeed].take (offset - bytes.length) = [lineFeed] := List.take_of_length_le (by simp; omega)
        simp [hoffset, htake]
        omega
      · have htake : offset - bytes.length = 0 := by omega
        simp [hoffset, htake]
  · rw [if_neg hbyte]
    refine ⟨h.increasing, fun s hs => ?_, fun offset => ?_⟩
    · rw [List.length_append]
      exact Nat.le_add_right_of_le (h.within s hs)
    · have hnone : ([byte].take (offset - bytes.length)).count lineFeed = 0 := by
        refine List.count_eq_zero.mpr fun hmem => hbyte ?_
        exact (List.mem_singleton.mp (List.mem_of_mem_take hmem)).symm
      rw [h.count, List.take_append, List.count_append, hnone, Nat.add_zero]

theorem starts_foldl (bytes : List UInt8) (hlength : bytes.length < 2 ^ 32) :
    Starts bytes (bytes.zipIdx.foldl addByte #[0]) := by
  induction bytes using List.reverseRecOn with
  | nil => exact ⟨List.pairwise_singleton _ _, by simp, by simp⟩
  | append_singleton bytes byte ih =>
    rw [List.length_append, List.length_singleton] at hlength
    have hstep := (ih (by omega)).addByte byte hlength
    rw [List.zipIdx_append, List.foldl_append, List.zipIdx_singleton, Nat.zero_add]
    exact hstep

/-- **The starts that are kept** are those of the lines of the source. -/
theorem starts_ofText {text : String} (htext : text.utf8ByteSize < 2 ^ 32) :
    Starts (Text.bytes text) (ofText text).starts :=
  starts_foldl (Text.bytes text) htext

/-! ## Search -/

/-- The slot says where the offset is among the starts, or would be. -/
def Slot.Fits (starts : Array UInt32) (offset : UInt32) : Slot → Prop
  | .taken i => ∃ h : i < starts.size, starts[i] = offset
  | .vacant i => i ≤ starts.size ∧
    ∀ j (h : j < starts.size), (j < i → starts[j] < offset) ∧ (i ≤ j → offset < starts[j])

theorem getElem_lt (h : starts.toList.Pairwise (· < ·)) {i j : Nat} (hij : i < j) (hj : j < starts.size) :
    starts[i] < starts[j] :=
  List.pairwise_iff_getElem.mp h i j (by simpa using Nat.lt_trans hij hj) (by simpa using hj) hij

/-- **The search finds where an offset is, or would be**, if it is not outside of the stretch searched. -/
theorem searchBetween_fits (hstarts : starts.toList.Pairwise (· < ·)) {low high : Nat} (hhigh : high ≤ starts.size)
    (hle : low ≤ high) (hbelow : ∀ j (h : j < starts.size), j < low → starts[j] < offset)
    (habove : ∀ j (h : j < starts.size), high ≤ j → offset < starts[j]) :
    (searchBetween starts offset low high hhigh).Fits starts offset := by
  fun_induction searchBetween starts offset low high hhigh with
  | case1 low high hhigh hlt middle hmiddle heq => exact ⟨hmiddle, heq⟩
  | case2 low high hhigh hlt middle hmiddle hne hless ih =>
    have hdef : middle = low + (high - low) / 2 := rfl
    refine ih (by omega) (fun j hj hjm => ?_) habove
    -- What is in front of the middle is less still.
    rcases Nat.lt_or_eq_of_le (Nat.le_of_lt_succ hjm) with hjm | rfl
    · exact UInt32.lt_trans (getElem_lt hstarts hjm hmiddle) hless
    · exact hless
  | case3 low high hhigh hlt middle hmiddle hne hless ih =>
    have hdef : middle = low + (high - low) / 2 := rfl
    have hmore : offset < starts[middle] :=
      UInt32.lt_of_le_of_ne (UInt32.not_lt.mp hless) fun heq => hne heq.symm
    refine ih (by omega) hbelow fun j hj hjm => ?_
    rcases Nat.lt_or_eq_of_le hjm with hjm | rfl
    · exact UInt32.lt_trans hmore (getElem_lt hstarts hjm hj)
    · exact hmore
  | case4 low high hhigh hlt =>
    obtain rfl : low = high := by omega
    exact ⟨hhigh, fun j hj => ⟨hbelow j hj, habove j hj⟩⟩

theorem search_fits (hstarts : index.starts.toList.Pairwise (· < ·)) (offset : UInt32) :
    (index.search offset).Fits index.starts offset :=
  searchBetween_fits hstarts (Nat.le_refl _) (Nat.zero_le _) (fun _ _ h => absurd h (Nat.not_lt_zero _))
    fun _ hj h => absurd hj (Nat.not_lt.mpr h)

/-- So many are counted if these stand in front. -/
theorem countP_eq_of_front {α : Type} {xs : List α} {p : α → Bool} {k : Nat} (hk : k ≤ xs.length)
    (h : ∀ j (hj : j < xs.length), p xs[j] = decide (j < k)) : xs.countP p = k := by
  induction xs generalizing k with
  | nil => exact (Nat.le_zero.mp hk).symm
  | cons x xs ih =>
    have hx : p x = decide (0 < k) := h 0 (Nat.zero_lt_succ _)
    have hrest : xs.countP p = k - 1 := by
      refine ih (by simp at hk; omega) fun j hj => ?_
      rw [← List.getElem_cons_succ x xs j (Nat.succ_lt_succ hj), h (j + 1) (Nat.succ_lt_succ hj)]
      exact decide_eq_decide.mpr (by omega)
    rw [List.countP_cons, hrest, hx]
    by_cases hpos : 0 < k
    · simp [hpos]
      omega
    · simp [hpos]
      omega

/-- The word of the next number is the next word. -/
theorem toUInt32_succ (n : Nat) : n.toUInt32 + 1 = (n + 1).toUInt32 := by
  refine UInt32.toNat_inj.mp ?_
  rw [UInt32.toNat_add, Nat.toUInt32_eq, Nat.toUInt32_eq, UInt32.toNat_ofNat', UInt32.toNat_ofNat']
  simp

/-- The line of an offset is the number of lines that start there or before, as one does. -/
theorem line_eq_countP (hstarts : index.starts.toList.Pairwise (· < ·))
    (hpos : 0 < index.starts.toList.countP (· ≤ offset)) :
    index.line offset = (index.starts.toList.countP (· ≤ offset)).toUInt32 := by
  have hfits := search_fits hstarts offset
  unfold line
  split
  next i hi =>
    rw [hi] at hfits
    obtain ⟨hlt, rfl⟩ := hfits
    have hle : i + 1 ≤ index.starts.toList.length := by rwa [Array.length_toList]
    rw [toUInt32_succ]
    refine congrArg Nat.toUInt32 (countP_eq_of_front hle fun j hj => ?_).symm
    rw [Array.getElem_toList]
    refine decide_eq_decide.mpr ⟨fun hle => ?_, fun hle => ?_⟩
    · by_contra hij
      exact UInt32.not_lt.mpr hle (getElem_lt hstarts (by omega) (by simpa using hj))
    · rcases Nat.lt_or_eq_of_le (Nat.le_of_lt_succ hle) with hij | rfl
      · exact UInt32.le_of_lt (getElem_lt hstarts hij hlt)
      · exact UInt32.le_refl _
  next i hi =>
    rw [hi] at hfits
    obtain ⟨hle, hside⟩ := hfits
    have hcount : index.starts.toList.countP (· ≤ offset) = i := by
      refine countP_eq_of_front (by simpa using hle) fun j hj => ?_
      rw [Array.getElem_toList]
      obtain ⟨hbelow, habove⟩ := hside j (by simpa using hj)
      refine decide_eq_decide.mpr ⟨fun hle => ?_, fun hlt => UInt32.le_of_lt (hbelow hlt)⟩
      by_contra hij
      exact UInt32.not_lt.mpr hle (habove (Nat.not_lt.mp hij))
    rw [hcount] at hpos ⊢
    rw [toUInt32_succ, Nat.sub_add_cancel hpos]

/-! ## Lines of offsets and stretches -/

/-- **The line of an offset** is one more than the number of line feeds in front of it, as a word. -/
theorem line_eq {text : String} (htext : text.utf8ByteSize < 2 ^ 32) {offset : Nat}
    (hoffset : offset ≤ text.utf8ByteSize) :
    (ofText text).line offset.toUInt32 = (1 + feedsBefore text offset).toUInt32 := by
  have hstarts := starts_ofText htext
  have hcount : (ofText text).starts.toList.countP (· ≤ offset.toUInt32) = 1 + feedsBefore text offset := by
    rw [feedsBefore, ← hstarts.count offset]
    refine List.countP_congr fun s _ => ?_
    simp only [decide_eq_true_eq, UInt32.le_iff_toNat_le, toNat_toUInt32 (Nat.lt_of_le_of_lt hoffset htext)]
  rw [line_eq_countP hstarts.increasing (by omega), hcount]

theorem feedsBefore_mono (text : String) {m n : Nat} (h : m ≤ n) : feedsBefore text m ≤ feedsBefore text n :=
  ((List.take_prefix_take_left h).sublist).count_le lineFeed

theorem feedsBefore_le (text : String) (offset : Nat) : feedsBefore text offset ≤ offset :=
  List.count_le_length.trans (List.length_take_le offset _)

/-- As many line feeds are in front of an offset as there can be just if nothing else is. -/
theorem feedsBefore_eq_iff {text : String} {offset : Nat} (hoffset : offset ≤ text.utf8ByteSize) :
    feedsBefore text offset = offset ↔ ∀ byte ∈ (Text.bytes text).take offset, byte = lineFeed := by
  have hlength : ((Text.bytes text).take offset).length = offset := List.length_take_of_le hoffset
  have hcount := List.count_eq_length (a := lineFeed) (l := (Text.bytes text).take offset)
  rw [hlength] at hcount
  rw [feedsBefore, hcount]
  simp only [eq_comm]

/-- The offset is the end of a text that consists of line feeds and is as long as a text can be. There are as many
lines then as words, and the last one has no number. -/
def Wraps (text : String) (offset : Nat) : Prop :=
  offset + 1 = 2 ^ 32 ∧ ∀ byte ∈ Text.bytes text, byte = lineFeed

/-- **The number of a line counts line feeds** unless there is no word for it. -/
theorem toNat_line_eq_iff {text : String} (htext : text.utf8ByteSize < 2 ^ 32) {offset : Nat}
    (hoffset : offset ≤ text.utf8ByteSize) :
    ((ofText text).line offset.toUInt32).toNat = 1 + feedsBefore text offset ↔ ¬ Wraps text offset := by
  have hfeeds := feedsBefore_le text offset
  rw [line_eq htext hoffset]
  by_cases hword : 1 + feedsBefore text offset < 2 ^ 32
  · refine iff_of_true (toNat_toUInt32 hword) fun ⟨hend, hall⟩ => ?_
    have heq := (feedsBefore_eq_iff hoffset).mpr fun byte h => hall byte (List.mem_of_mem_take h)
    omega
  · -- All bytes of the text are in front of the offset, and no more fit.
    have heq : feedsBefore text offset = offset := by omega
    have hend : offset = text.utf8ByteSize := by omega
    refine iff_of_false (fun h => ?_) fun hnot => hnot ⟨by omega, ?_⟩
    · have hlt := (1 + feedsBefore text offset).toUInt32.toNat_lt
      omega
    · have hall := (feedsBefore_eq_iff hoffset).mp heq
      rwa [List.take_of_length_le (by rw [hend]; exact Nat.le_refl _)] at hall

/-- The offset of the last byte of a stretch, or where an empty one is. -/
def lastOffset (span : Span) : Nat := if span.start = span.stop then span.start else span.stop - 1

theorem lastOffset_eq {span : Span} (hspan : span.start ≤ span.stop) :
    max (span.stop - 1) span.start = lastOffset span := by
  unfold lastOffset
  split <;> omega

/-- The lines that a stretch of a text goes over. -/
structure Spans (text path : String) (span : Span) (pos : SourcePos) : Prop where
  sourcePath : pos.sourcePath = path
  first : pos.firstLine = 1 + feedsBefore text span.start
  last : pos.lastLine = 1 + feedsBefore text (lastOffset span)
  positive : 1 ≤ pos.firstLine
  ordered : pos.firstLine ≤ pos.lastLine
  bounded : pos.lastLine ≤ (Text.bytes text).count lineFeed + 1

/-- Every byte is on a line with a number. -/
theorem not_wraps_of_lt {text : String} (htext : text.utf8ByteSize < 2 ^ 32) {offset : Nat}
    (hoffset : offset < text.utf8ByteSize) : ¬ Wraps text offset :=
  fun ⟨hend, _⟩ => by omega

theorem pos_spans {text : String} (htext : text.utf8ByteSize < 2 ^ 32) (path : String) {span : Span}
    (hspan : span.start ≤ span.stop) (hstop : span.stop ≤ text.utf8ByteSize)
    (hnumber : span.start = span.stop → ¬ Wraps text span.start) :
    Spans text path span ((ofText text).pos path span) := by
  have hlast := lastOffset_eq hspan
  have hle : span.start ≤ lastOffset span ∧ lastOffset span ≤ span.stop := by
    unfold lastOffset
    split <;> omega
  have hfirst : ¬ Wraps text span.start := by
    by_cases hempty : span.start = span.stop
    · exact hnumber hempty
    · exact not_wraps_of_lt htext (by omega)
  have hend : ¬ Wraps text (lastOffset span) := by
    unfold lastOffset
    split
    · exact hfirst
    · exact not_wraps_of_lt htext (by omega)
  have hfirst' : ((ofText text).pos path span).firstLine = 1 + feedsBefore text span.start :=
    (toNat_line_eq_iff htext (by omega)).mpr hfirst
  have hlast' : ((ofText text).pos path span).lastLine = 1 + feedsBefore text (lastOffset span) := by
    rw [← (toNat_line_eq_iff htext (by omega)).mpr hend, ← hlast]
    rfl
  have hmono := feedsBefore_mono text hle.1
  have htotal : feedsBefore text (lastOffset span) ≤ (Text.bytes text).count lineFeed :=
    (List.take_sublist _ _).count_le lineFeed
  exact ⟨rfl, hfirst', hlast', by omega, by omega, by omega⟩

end LineIndex

end ApiDocs
