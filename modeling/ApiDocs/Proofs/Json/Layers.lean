import ApiDocs.Json.Overlay
import Mathlib.Data.List.Induction

/-!
# What layers hold at a path

Objects that are laid over one another are merged member by member. So what a member is in the end
depends on the members of that name alone, laid over one another in their turn, and this goes on along
any path of names. A value that is no object is not merged: it hides what lies below it, and is hidden
by what lies above it, objects without any member included.

Layers stand here with the highest first, the way in which they are searched.

## Main definitions

* `Json.at?`: the value at a path.
* `Json.merged?`: layers laid over one another.
* `Json.under`: what layers hold at a path, as far as it is not hidden.
* `Json.topmost?`: the highest of these values.

## Main results

* `Json.at?_merged?`: merging and going along a path can be exchanged.
* `Json.topmost?_of_at?_layered`: a value that is no object comes from the topmost layer that has one.
-/

namespace ApiDocs.Json

/-- Is the value an object? -/
def isObj : Json → Bool
  | .obj _ => true
  | _ => false

theorem eq_obj_of_isObj {v : Json} (h : v.isObj = true) : ∃ members, v = .obj members := by
  cases v with
  | obj members => exact ⟨members, rfl⟩
  | _ => cases h

/-- The value at a path of names. -/
def at? : List String → Json → Option Json
  | [], v => some v
  | name :: path, v => (v.field? name).bind (at? path)

/-- Layers laid over one another. -/
def merged? : List Json → Option Json
  | [] => none
  | high :: lows => some ((merged? lows).elim high fun low => low.overlay high)

/-- **What layers hold at a path.** A layer that is no object hides those below it. -/
def under : List String → List Json → List Json
  | [], layers => layers
  | name :: path, layers => under path ((layers.takeWhile isObj).filterMap (field? name))

/-- The highest value at a path. -/
def topmost? (path : List String) (layers : List Json) : Option Json := (under path layers).head?

theorem at?_singleton (name : String) (v : Json) : v.at? [name] = v.field? name := by
  cases h : v.field? name <;> simp [at?, h]

theorem at?_pair (name inner : String) (v : Json) :
    v.at? [name, inner] = (v.at? [name]).bind (field? inner) := by
  rw [at?_singleton, at?]
  exact congrArg _ (funext (at?_singleton inner))

/-! ## Two layers -/

theorem overlay_of_not_isObj (low : Json) {high : Json} (h : high.isObj = false) :
    low.overlay high = high := by
  cases high with
  | obj members => cases h
  | _ => cases low <;> simp [overlay]

theorem overlay_of_low_not_isObj {low : Json} (h : low.isObj = false) (high : Json) :
    low.overlay high = high := by
  cases low with
  | obj members => cases h
  | _ => cases high <;> simp [overlay]

@[simp] theorem isObj_overlay (low high : Json) : (low.overlay high).isObj = high.isObj := by
  cases high with
  | obj members => cases low <;> simp [overlay, isObj]
  | _ => rw [overlay_of_not_isObj low rfl]

theorem map_fst_overlayMembers (low high : List (String × Json)) :
    (overlayMembers low high).map Prod.fst = low.map Prod.fst := by
  induction low with
  | nil => simp [overlayMembers]
  | cons m low ih => simp [overlayMembers, ih]

/-- An object without members has nothing to say to an object. -/
theorem overlay_empty_overlay (v : Json) (members : List (String × Json)) :
    (v.overlay (.obj [])).overlay (.obj members) = v.overlay (.obj members) := by
  have hnone : ∀ low : List (String × Json), overlayMembers low [] = low := by
    intro low
    induction low with
    | nil => rw [overlayMembers]
    | cons m low ih =>
      rw [overlayMembers, ih]
      rfl
  by_cases hv : v.isObj = true
  · obtain ⟨low, rfl⟩ := eq_obj_of_isObj hv
    rw [overlay, hnone, List.filter_nil, List.append_nil]
  · have hlow : v.isObj = false := by simpa using hv
    rw [overlay_of_low_not_isObj hlow, overlay_of_low_not_isObj hlow]
    simp [overlay, overlayMembers]

theorem member?_cons (m : String × Json) (members : List (String × Json)) (name : String) :
    member? (m :: members) name = if m.1 = name then some m.2 else member? members name := by
  by_cases h : m.1 = name <;> simp [member?, h]

theorem member?_append (before members : List (String × Json)) (name : String) :
    member? (before ++ members) name = (member? before name).or (member? members name) := by
  simp only [member?, List.find?_append]
  cases before.find? (·.1 == name) <;> rfl

/-- A member of the lower object stays, with the member of its name laid over it. -/
theorem member?_overlayMembers (low high : List (String × Json)) (name : String) :
    member? (overlayMembers low high) name =
      (member? low name).map fun v => (member? high name).elim v v.overlay := by
  induction low with
  | nil => simp [overlayMembers, member?]
  | cons m low ih =>
    rw [overlayMembers, member?_cons, member?_cons]
    by_cases h : m.1 = name
    · rw [if_pos h, if_pos h, ← h, Option.map_some]
      cases member? high m.1 <;> rfl
    · rw [if_neg h, if_neg h, ih]

theorem member?_eq_none_iff {members : List (String × Json)} {name : String} :
    member? members name = none ↔ name ∉ members.map Prod.fst := by
  induction members with
  | nil => simp [member?]
  | cons m members ih =>
    rw [member?_cons, List.map_cons, List.mem_cons, not_or, ← ih]
    by_cases h : m.1 = name
    · simp [h]
    · simp [h, Ne.symm h]

theorem any_name_eq (members : List (String × Json)) (name : String) :
    members.any (·.1 == name) = (member? members name).isSome := by
  rw [Bool.eq_iff_iff, Option.isSome_iff_ne_none, ne_eq, member?_eq_none_iff]
  simp

/-- A member that is only in the upper object. -/
theorem member?_filter_absent (low high : List (String × Json)) (name : String) :
    member? (high.filter fun m => !low.any (·.1 == m.1)) name =
      if (member? low name).isSome then none else member? high name := by
  induction high with
  | nil => exact (ite_self none).symm
  | cons m high ih =>
    rw [List.filter_cons, any_name_eq, member?_cons]
    by_cases hname : m.1 = name
    · subst hname
      by_cases hlow : (member? low m.1).isSome = true
      · simp [hlow, ih]
      · simp [hlow, member?_cons]
    · rw [if_neg hname, ← ih]
      split
      · rw [member?_cons, if_neg hname]
      · rfl

/-- **Objects are merged member by member.** -/
theorem field?_overlay (low high : List (String × Json)) (name : String) :
    (Json.overlay (.obj low) (.obj high)).field? name =
      match member? low name, member? high name with
      | some v, some w => some (v.overlay w)
      | some v, none => some v
      | none, w => w := by
  rw [overlay, field?, ← member?, member?_append, member?_overlayMembers, member?_filter_absent]
  cases member? low name <;> cases member? high name <;> simp

/-! ## Many layers -/

theorem isObj_of_field? {v w : Json} {name : String} (h : v.field? name = some w) :
    v.isObj = true := by
  cases v with
  | obj members => rfl
  | _ => cases h

theorem merged?_eq_none_iff {layers : List Json} : merged? layers = none ↔ layers = [] := by
  cases layers <;> simp [merged?]

/-- One member of layers laid over one another. -/
theorem field?_merged? (name : String) (layers : List Json) :
    (merged? layers).bind (field? name) =
      merged? ((layers.takeWhile isObj).filterMap (field? name)) := by
  induction layers with
  | nil => rfl
  | cons high lows ih =>
    rw [merged?, Option.bind_some]
    by_cases hhigh : high.isObj = true
    · obtain ⟨upper, rfl⟩ := eq_obj_of_isObj hhigh
      rw [List.takeWhile_cons_of_pos hhigh, List.filterMap_cons]
      cases hlow : merged? lows with
      | none =>
        obtain rfl := merged?_eq_none_iff.mp hlow
        cases h : (Json.obj upper).field? name <;> simp [merged?, h]
      | some low =>
        rw [hlow, Option.bind_some] at ih
        by_cases hobj : low.isObj = true
        · obtain ⟨lower, rfl⟩ := eq_obj_of_isObj hobj
          rw [Option.elim_some, field?_overlay]
          change (Json.obj lower).field? name = _ at ih
          rw [field?, ← member?] at ih ⊢
          cases hv : member? lower name <;> cases hw : member? upper name <;>
            simp only [hv, merged?] at ih ⊢ <;> simp [← ih]
        · have hhidden : low.field? name = none := by
            cases h : low.field? name with
            | none => rfl
            | some w => exact absurd (isObj_of_field? h) hobj
          rw [hhidden] at ih
          rw [Option.elim_some, overlay_of_low_not_isObj (by simpa using hobj)]
          cases h : (Json.obj upper).field? name with
          | none => exact ih
          | some w => simp [merged?, ← ih]
    · rw [List.takeWhile_cons_of_neg hhigh, List.filterMap_nil, merged?]
      have hhidden : high.field? name = none := by
        cases h : high.field? name with
        | none => rfl
        | some w => exact absurd (isObj_of_field? h) hhigh
      cases merged? lows with
      | none => exact hhidden
      | some low =>
        rw [Option.elim_some, overlay_of_not_isObj low (by simpa using hhigh)]
        exact hhidden

/-- **Merging and going along a path can be exchanged.** -/
theorem at?_merged? (path : List String) (layers : List Json) :
    (merged? layers).bind (at? path) = merged? (under path layers) := by
  induction path generalizing layers with
  | nil => cases h : merged? layers <;> simp [at?, under, h]
  | cons name path ih =>
    rw [under, ← ih, ← field?_merged?]
    cases merged? layers <;> rfl

/-- Layers make an object if the highest of them is one; a highest layer that is none stays. -/
theorem head?_of_merged? {layers : List Json} {v : Json} (h : merged? layers = some v) :
    ∃ high, layers.head? = some high ∧ high.isObj = v.isObj ∧ (v.isObj = false → high = v) := by
  cases layers with
  | nil => cases h
  | cons high lows =>
    obtain rfl := Option.some.inj h
    refine ⟨high, rfl, ?_⟩
    cases hlow : merged? lows with
    | none => exact ⟨rfl, fun _ => rfl⟩
    | some low =>
      rw [Option.elim_some, isObj_overlay]
      exact ⟨rfl, fun hv => (overlay_of_not_isObj low hv).symm⟩

/-- What a further layer at the bottom adds at a path: nothing, or its own value. -/
theorem under_append_singleton (path : List String) (layers : List Json) (low : Json) :
    under path (layers ++ [low]) = under path layers ∨
      ∃ v, low.at? path = some v ∧ under path (layers ++ [low]) = under path layers ++ [v] := by
  induction path generalizing layers low with
  | nil => exact .inr ⟨low, rfl, rfl⟩
  | cons name path ih =>
    simp only [under, at?]
    rw [List.takeWhile_append]
    split
    · have hall : layers.takeWhile isObj = layers := (List.takeWhile_prefix isObj).eq_of_length ‹_›
      rw [List.filterMap_append, hall]
      cases hlow : low.field? name with
      | none =>
        left
        by_cases h : low.isObj = true
        · simp [List.takeWhile_cons_of_pos h, hlow]
        · simp [List.takeWhile_cons_of_neg h]
      | some v =>
        rw [List.takeWhile_cons_of_pos (isObj_of_field? hlow), List.takeWhile_nil, List.filterMap_cons,
          hlow, List.filterMap_nil, Option.bind_some]
        exact ih _ v
    · exact .inl rfl

/-- If all else fails, a value is taken from the lowest layer. It does not matter whether that layer is
merged with the others. -/
theorem topmost?_append_singleton_or (path : List String) (layers : List Json) (low : Json) :
    (topmost? path (layers ++ [low])).or (low.at? path) = (topmost? path layers).or (low.at? path) := by
  obtain h | ⟨v, hv, h⟩ := under_append_singleton path layers low
  · rw [topmost?, h, topmost?]
  · rw [topmost?, h, hv, topmost?]
    cases under path layers <;> rfl

/-- What is hidden by upper layers does not come up. -/
theorem topmost?_append_of_some {path : List String} {layers : List Json} {v : Json}
    (h : topmost? path layers = some v) (low : Json) : topmost? path (layers ++ [low]) = some v := by
  obtain hunder | ⟨w, -, hunder⟩ := under_append_singleton path layers low
  · rw [topmost?, hunder]
    exact h
  · rw [topmost?, hunder, List.head?_append, ← topmost?, h, Option.some_or]

/-! ## Layers over an empty object -/

/-- Layers from the lowest to the highest are laid over an empty object. -/
theorem merged?_layered (layers : List Json) :
    merged? (layers.reverse ++ [.obj []]) = some (layered layers) := by
  induction layers using List.reverseRecOn with
  | nil => rfl
  | append_singleton layers high ih =>
    rw [List.reverse_append, List.reverse_singleton, List.singleton_append, List.cons_append, merged?,
      ih, Option.elim_some]
    simp [layered]

theorem under_append_empty (name : String) (path : List String) (layers : List Json) :
    under (name :: path) (layers ++ [.obj []]) = under (name :: path) layers := by
  rw [under, under]
  congr 1
  induction layers with
  | nil => rfl
  | cons v layers ih =>
    by_cases h : v.isObj = true
    · rw [List.cons_append, List.takeWhile_cons_of_pos h, List.takeWhile_cons_of_pos h,
        List.filterMap_cons, List.filterMap_cons, ih]
    · rw [List.cons_append, List.takeWhile_cons_of_neg h, List.takeWhile_cons_of_neg h]

theorem at?_layered (name : String) (path : List String) (layers : List Json) :
    (layered layers).at? (name :: path) = merged? (under (name :: path) layers.reverse) := by
  rw [← under_append_empty, ← at?_merged?, merged?_layered, Option.bind_some]

/-- **A value that is no object comes from the topmost layer that has one there.** -/
theorem topmost?_of_at?_layered {name : String} {path : List String} {layers : List Json} {v : Json}
    (h : (layered layers).at? (name :: path) = some v) (hv : v.isObj = false) :
    topmost? (name :: path) layers.reverse = some v := by
  rw [at?_layered] at h
  obtain ⟨high, hhead, -, heq⟩ := head?_of_merged? h
  exact hhead.trans (congrArg some (heq hv))

/-- The topmost layer decides whether there is an object. -/
theorem isObj_of_topmost? {name : String} {path : List String} {layers : List Json} {v : Json}
    (h : topmost? (name :: path) layers.reverse = some v) :
    ∃ w, (layered layers).at? (name :: path) = some w ∧ w.isObj = v.isObj := by
  rw [at?_layered]
  cases hmerged : merged? (under (name :: path) layers.reverse) with
  | none =>
    rw [topmost?, merged?_eq_none_iff.mp hmerged] at h
    cases h
  | some w =>
    obtain ⟨high, hhead, hobj, -⟩ := head?_of_merged? hmerged
    obtain rfl := Option.some.inj (hhead.symm.trans h)
    exact ⟨w, rfl, hobj.symm⟩

/-- Where the layers hold nothing, none of them does. -/
theorem topmost?_of_at?_layered_none {name : String} {path : List String} {layers : List Json}
    (h : (layered layers).at? (name :: path) = none) :
    topmost? (name :: path) layers.reverse = none := by
  rw [at?_layered, merged?_eq_none_iff] at h
  rw [topmost?, h, List.head?_nil]

end ApiDocs.Json
