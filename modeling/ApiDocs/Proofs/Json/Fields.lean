import ApiDocs.Json.Record
import ApiDocs.Proofs.Json.Layers

/-!
# Fields that are found

A decoder of records looks for each of its fields in an object and refuses a field that stands there more
than once. So if it does not refuse the object, it has found the value of each field that is there. Most
decoders of single fields accept nothing but what is written for their result: the field of the result
tells the value again.

## Main definitions

* `Json.timesOf`: how often a name stands in an object.
* `Json.Exact`: a decoder accepts only what is written for its result.
* `Json.Written`: a result is the value that was found, or the default where none was found.

## Main results

* `Json.record?_obj_eq_some_iff`: when an object is decoded, and what is found in it.
* `Json.find_of_record?`: the fields that are found are those of the object.
* `Json.record?_overlay`: members laid over an object replace what is found.
* `Json.Record.of_defaulted`, `Json.Record.of_optional`: fields whose decoders are exact.
-/

namespace ApiDocs.Json

/-! ## Fields of objects -/

/-- How often a name stands in an object. -/
def timesOf (members : List (String × Json)) (name : String) : Nat :=
  (members.filter (·.1 == name)).length

theorem objectField?_eq_some_iff {members : List (String × Json)} {rule : FieldRule}
    (hrule : rule.2 ≠ .required) {found : Record} :
    objectField? members rule = some found ↔
      timesOf members rule.1 ≤ 1 ∧ found = members.filter (·.1 == rule.1) := by
  rw [objectField?, timesOf]
  cases h : members.filter (·.1 == rule.1) with
  | nil => simp [hrule, eq_comm]
  | cons m rest =>
    cases rest with
    | nil => simp [eq_comm]
    | cons other rest => simp

/-- **What a decoder of records finds in an object,** if all fields may be left out: every field once at
most, with its first and only value. -/
theorem record?_obj_eq_some_iff {rules : List FieldRule} (hrules : ∀ rule ∈ rules, rule.2 ≠ .required)
    {members : List (String × Json)} {r : Record} :
    record? rules (.obj members) = some r ↔
      (∀ rule ∈ rules, timesOf members rule.1 ≤ 1) ∧
        r = rules.flatMap fun rule => members.filter (·.1 == rule.1) := by
  have hfields : ∀ fields : List Record, rules.mapM (objectField? members) = some fields ↔
      (∀ rule ∈ rules, timesOf members rule.1 ≤ 1) ∧
        fields = rules.map fun rule => members.filter (·.1 == rule.1) := by
    induction rules with
    | nil => intro fields; simp [eq_comm]
    | cons rule rules ih =>
      intro fields
      have hhead : ∀ found : Record, objectField? members rule = some found ↔
          timesOf members rule.1 ≤ 1 ∧ found = members.filter (·.1 == rule.1) :=
        fun _ => objectField?_eq_some_iff (hrules rule List.mem_cons_self)
      have htail := ih fun other h => hrules other (List.mem_cons_of_mem _ h)
      rw [List.mapM_cons, List.forall_mem_cons, List.map_cons]
      simp only [Option.bind_eq_bind, Option.bind_eq_some_iff, hhead, htail, Option.pure_def]
      constructor
      · rintro ⟨_, ⟨hle, rfl⟩, _, ⟨hles, rfl⟩, h⟩
        exact ⟨⟨hle, hles⟩, (Option.some.inj h).symm⟩
      · rintro ⟨⟨hle, hles⟩, rfl⟩
        exact ⟨_, ⟨hle, rfl⟩, _, ⟨hles, rfl⟩, rfl⟩
  change (rules.mapM (objectField? members)).bind (fun fields => some fields.flatten) = some r ↔ _
  simp only [Option.bind_eq_some_iff, hfields, Option.some.injEq]
  constructor
  · rintro ⟨_, ⟨hle, rfl⟩, rfl⟩
    exact ⟨hle, by rw [List.flatMap]⟩
  · rintro ⟨hle, rfl⟩
    exact ⟨_, ⟨hle, rfl⟩, by rw [List.flatMap]⟩

theorem find_filter_name (members : List (String × Json)) (one name : String) :
    Record.find (members.filter (·.1 == one)) name =
      if one = name then member? members name else none := by
  rw [Record.find, List.find?_filter, member?]
  split
  · next h =>
    subst h
    simp only [and_self, Bool.decide_eq_true]
  · next h =>
    rw [Option.map_eq_none_iff, List.find?_eq_none]
    intro m _ hm
    simp only [decide_eq_true_eq, beq_iff_eq] at hm
    exact h (hm.1.symm.trans hm.2)

/-- A field that is known is found among those that were found. -/
theorem find_of_record? {rules : List FieldRule} (hrules : ∀ rule ∈ rules, rule.2 ≠ .required)
    {members : List (String × Json)} {r : Record} (h : record? rules (.obj members) = some r)
    {name : String} (hname : name ∈ rules.map Prod.fst) : r.find name = member? members name := by
  obtain ⟨-, rfl⟩ := (record?_obj_eq_some_iff hrules).mp h
  clear h hrules
  induction rules with
  | nil => cases hname
  | cons rule rules ih =>
    have happend : ∀ xs ys : Record, Record.find (xs ++ ys) name =
        (Record.find xs name).or (Record.find ys name) := fun xs ys => member?_append xs ys name
    rw [List.flatMap_cons, happend, find_filter_name]
    by_cases hone : rule.1 = name
    · rw [if_pos hone]
      by_cases hrest : name ∈ rules.map Prod.fst
      · rw [ih hrest, Option.or_self]
      · cases hfirst : member? members name with
        | some v => rfl
        | none =>
          rw [Option.none_or, Record.find, Option.map_eq_none_iff, List.find?_eq_none]
          intro m hm hbeq
          obtain ⟨other, -, hm⟩ := List.mem_flatMap.mp hm
          exact member?_eq_none_iff.mp hfirst
            (List.mem_map.mpr ⟨m, (List.mem_filter.mp hm).1, by simpa using hbeq⟩)
    · rw [if_neg hone, Option.none_or]
      exact ih ((List.mem_cons.mp hname).resolve_left (Ne.symm hone))

/-! ## Laying members over an object -/

theorem timesOf_eq_count (members : List (String × Json)) (name : String) :
    timesOf members name = (members.map Prod.fst).count name := by
  rw [timesOf, ← List.countP_eq_length_filter, List.count, List.countP_map]
  rfl

theorem timesOf_eq_zero_iff {members : List (String × Json)} {name : String} :
    timesOf members name = 0 ↔ member? members name = none := by
  rw [timesOf_eq_count, List.count_eq_zero, member?_eq_none_iff]

/-- Names that stand once in two objects stand once in one over the other. -/
theorem timesOf_overlay_le {low high : List (String × Json)} {name : String}
    (hlow : timesOf low name ≤ 1) (hhigh : timesOf high name ≤ 1) :
    timesOf (overlayMembers low high ++ high.filter fun m => !low.any (·.1 == m.1)) name ≤ 1 := by
  have hadd : ∀ xs ys : List (String × Json),
      timesOf (xs ++ ys) name = timesOf xs name + timesOf ys name := by
    intro xs ys
    rw [timesOf, List.filter_append, List.length_append, timesOf, timesOf]
  have hsame : timesOf (overlayMembers low high) name = timesOf low name := by
    rw [timesOf_eq_count, map_fst_overlayMembers, timesOf_eq_count]
  rw [hadd, hsame]
  by_cases hzero : timesOf low name = 0
  · rw [hzero, Nat.zero_add]
    exact Nat.le_trans (List.filter_sublist.filter _).length_le hhigh
  · have habsent : timesOf (high.filter fun m => !low.any (·.1 == m.1)) name = 0 := by
      rw [timesOf_eq_zero_iff, member?_filter_absent, if_pos]
      rw [Option.isSome_iff_ne_none]
      exact fun h => hzero (timesOf_eq_zero_iff.mpr h)
    rw [habsent]
    exact hlow

/-- **Members that are no objects replace fields of a record.** -/
theorem record?_overlay {rules : List FieldRule} (hrules : ∀ rule ∈ rules, rule.2 ≠ .required)
    {low high : List (String × Json)} {r : Record} (hr : record? rules (.obj low) = some r)
    (honce : ∀ name, timesOf high name ≤ 1)
    (hplain : ∀ name v, member? high name = some v → v.isObj = false) :
    ∃ r', record? rules ((obj low).overlay (.obj high)) = some r' ∧
      ∀ name ∈ rules.map Prod.fst, r'.find name = (member? high name).or (r.find name) := by
  obtain ⟨hlow, -⟩ := (record?_obj_eq_some_iff hrules).mp hr
  have hr' := (record?_obj_eq_some_iff hrules).mpr
    ⟨fun rule hrule => timesOf_overlay_le (hlow rule hrule) (honce rule.1), rfl⟩
  refine ⟨_, by rw [overlay]; exact hr', fun name hname => ?_⟩
  rw [find_of_record? hrules hr' hname, find_of_record? hrules hr hname]
  have hmember := field?_overlay low high name
  rw [overlay, field?, ← member?] at hmember
  rw [hmember]
  cases hhigh : member? high name with
  | none => cases member? low name <;> rfl
  | some w =>
    cases member? low name with
    | none => rfl
    | some v => exact congrArg some (overlay_of_not_isObj v (hplain name w hhigh))

/-! ## Values that say what they hold -/

/-- A value decodes only if it is what is written for the result, which is no object. -/
def Exact (decode : Json → Option α) (encode : α → Json) : Prop :=
  ∀ v a, decode v = some a → v = encode a ∧ (encode a).isObj = false

theorem exact_str : Exact str? .str := by
  intro v a h
  cases v <;> simp_all [str?, isObj]

theorem exact_bool : Exact bool? .bool := by
  intro v a h
  cases v <;> simp_all [bool?, isObj]

theorem exact_below (bound : Nat) : Exact (below? bound) nat := by
  intro v a h
  cases v with
  | int n =>
    rw [below?] at h
    split at h
    · next hn =>
      obtain rfl := Option.some.inj h
      simp only [Bool.and_eq_true, decide_eq_true_eq] at hn
      exact ⟨by rw [nat, Int.toNat_of_nonneg hn.1], rfl⟩
    · cases h
  | _ => cases h

theorem exact_strs : Exact (list? str?) strs := by
  intro v xs h
  cases v with
  | arr items =>
    refine ⟨?_, rfl⟩
    rw [strs, arr.injEq]
    rw [list?] at h
    induction items generalizing xs with
    | nil =>
      rw [List.mapM_nil] at h
      obtain rfl := Option.some.inj h
      rfl
    | cons item items ih =>
      rw [List.mapM_cons, Option.bind_eq_bind, Option.bind_eq_some_iff] at h
      obtain ⟨x, hx, h⟩ := h
      rw [Option.bind_eq_bind, Option.bind_eq_some_iff] at h
      obtain ⟨rest, hrest, h⟩ := h
      obtain rfl := Option.some.inj h
      rw [List.map_cons, ← ih rest hrest, (exact_str item x hx).1]
  | _ => cases h

theorem list?_strs (xs : List String) : list? str? (strs xs) = some xs := by
  induction xs with
  | nil => rfl
  | cons x xs ih =>
    rw [strs, list?] at ih
    rw [strs, list?, List.map_cons, List.mapM_cons, ih]
    rfl

/-- What was found is the value, which is no object; or nothing was found, and the value is assumed. -/
def Written (found : Option Json) (v assumed : Json) : Prop :=
  v.isObj = false ∧ found = some v ∨ found = none ∧ v = assumed

namespace Record

/-- A field with a default holds what is written, or the default where nothing is written. -/
theorem of_defaulted {decode : Json → Option α} {encode : α → Json} (hexact : Exact decode encode)
    {r : Record} {name : String} {fallback a : α}
    (h : r.defaulted name decode fallback = some a) :
    Written (r.find name) (encode a) (encode fallback) := by
  rw [defaulted] at h
  cases hfind : r.find name with
  | none =>
    rw [hfind] at h
    exact .inr ⟨rfl, congrArg encode (Option.some.inj h).symm⟩
  | some v =>
    rw [hfind] at h
    obtain ⟨rfl, hobj⟩ := hexact v a h
    exact .inl ⟨hobj, rfl⟩

/-- A field that may be absent holds what is written, and nothing where nothing is written. -/
theorem of_optional {decode : Json → Option α} {encode : α → Json} (hexact : Exact decode encode)
    {r : Record} {name : String} {a : Option α} (h : r.optional name decode = some a) :
    Written (r.find name) (ofOption encode a) .null := by
  rw [optional] at h
  cases hfind : r.find name with
  | none =>
    rw [hfind] at h
    obtain rfl := Option.some.inj h
    exact .inr ⟨rfl, rfl⟩
  | some v =>
    rw [hfind] at h
    split at h
    · next hnull =>
      obtain rfl := Option.some.inj h
      obtain rfl := Option.some.inj hnull
      exact .inl ⟨rfl, rfl⟩
    · next hv =>
      obtain rfl := Option.some.inj hv
      obtain ⟨x, hx, rfl⟩ := Option.map_eq_some_iff.mp h
      obtain ⟨rfl, hobj⟩ := hexact _ x hx
      exact .inl ⟨hobj, rfl⟩
    · next hnone => cases hnone

end Record

end ApiDocs.Json
