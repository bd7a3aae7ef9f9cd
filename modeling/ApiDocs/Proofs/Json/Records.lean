import ApiDocs.Json.Record
import ApiDocs.Proofs.Json.Texts
import Mathlib.Data.List.Forall2
import Mathlib.Data.List.Nodup

/-!
# Records are read back

An encoder writes the members of an object in the order in which the decoder lists its fields, and leaves
out only what the decoder can do without. So what the decoder finds is what the encoder gave, member by
member, and a record is read back as soon as each of its members is.

A member that is left out for an absent value is told from one that is there by the fact that no encoder
writes `null`.

## Main definitions

* `Json.Fills`: a member, written or left out, that is in place for a field.
* `Json.Record.given`: the members that are written.
* `Json.Stores`: a value is read back from its stored form, which is not `null`.

## Main results

* `Json.record?_ofFields`: the decoder finds the members that were given.
* `Json.Stores.required`, `Json.Stores.optional`, `Json.Stores.defaulted`: members are read back.
-/

namespace ApiDocs.Json

/-- The member stands for the field, or is left out where the field may be. -/
def Fills (rule : FieldRule) : Option (String × Json) → Prop
  | some m => m.1 = rule.1
  | none => rule.2 ≠ .required

@[simp] theorem fills_field {rule : FieldRule} {name : String} {v : Json} :
    Fills rule (field name v) ↔ name = rule.1 := Iff.rfl

@[simp] theorem fills_fieldOpt {name : String} {presence : Presence} (h : presence ≠ .required)
    {f : α → Json} (a : Option α) : Fills (name, presence) (fieldOpt name f a) := by
  cases a with
  | none => exact h
  | some a => rfl

@[simp] theorem fills_fieldIf {name : String} {presence : Presence} (h : presence ≠ .required)
    (cond : Bool) (v : Json) : Fills (name, presence) (fieldIf cond name v) := by
  cases cond with
  | false => exact h
  | true => rfl

@[simp] theorem fills_fieldList {name : String} {presence : Presence} (h : presence ≠ .required)
    (f : α → Json) (xs : List α) : Fills (name, presence) (fieldList name f xs) :=
  fills_fieldIf h _ _

/-- The members that are written. -/
def Record.given (fields : List (Option (String × Json))) : Record := fields.filterMap id

theorem Record.given_cons (f : Option (String × Json)) (fs : List (Option (String × Json))) :
    given (f :: fs) = f.toList ++ given fs := by
  cases f <;> rfl

theorem mem_given_name {rules : List FieldRule} {fields : List (Option (String × Json))}
    (h : List.Forall₂ Fills rules fields) {m : String × Json} (hm : m ∈ Record.given fields) :
    m.1 ∈ rules.map Prod.fst := by
  induction h with
  | nil => cases hm
  | cons hfill _ ih =>
    rw [Record.given_cons, List.mem_append] at hm
    obtain hm | hm := hm
    · obtain rfl := Option.mem_toList.mp hm
      rw [show m.1 = _ from hfill]
      exact List.mem_cons_self
    · exact List.mem_cons_of_mem _ (ih hm)

theorem Record.flatten_toList (fields : List (Option (String × Json))) :
    (fields.map Option.toList).flatten = given fields := by
  induction fields with
  | nil => rfl
  | cons f fs ih => rw [List.map_cons, List.flatten_cons, ih, given_cons]

/-- A field is found among the members if all others have other names. -/
theorem objectField?_given {rule : FieldRule} {field : Option (String × Json)} {before : Record}
    {fields : List (Option (String × Json))} (hfill : Fills rule field)
    (hbefore : ∀ m ∈ before, m.1 ≠ rule.1) (hbehind : ∀ m ∈ Record.given fields, m.1 ≠ rule.1) :
    objectField? (before ++ Record.given (field :: fields)) rule = some field.toList := by
  have hnone : ∀ l : Record, (∀ m ∈ l, m.1 ≠ rule.1) → l.filter (·.1 == rule.1) = [] :=
    fun l hl => List.filter_eq_nil_iff.mpr fun m hm => by simpa using hl m hm
  rw [objectField?, Record.given_cons, List.filter_append, List.filter_append, hnone before hbefore,
    hnone _ hbehind]
  cases field with
  | none => exact if_neg hfill
  | some m => simp [show m.1 = rule.1 from hfill]

/-- The decoder finds field after field. The members in front are those of fields that were found. -/
theorem mapM_objectField?_given {rules : List FieldRule} {fields : List (Option (String × Json))}
    (h : List.Forall₂ Fills rules fields) (hnames : (rules.map Prod.fst).Nodup) {before : Record}
    (hbefore : ∀ m ∈ before, m.1 ∉ rules.map Prod.fst) :
    rules.mapM (objectField? (before ++ Record.given fields)) = some (fields.map Option.toList) := by
  induction h generalizing before with
  | nil => rfl
  | @cons rule field rules fields hfill hrest ih =>
    obtain ⟨hrule, hnames⟩ := List.nodup_cons.mp hnames
    have hhead : objectField? (before ++ Record.given (field :: fields)) rule = some field.toList :=
      objectField?_given hfill (fun m hm heq => hbefore m hm (heq ▸ List.mem_cons_self))
        fun m hm heq => hrule (heq ▸ mem_given_name hrest hm)
    have hfound : ∀ m ∈ before ++ field.toList, m.1 ∉ rules.map Prod.fst := by
      intro m hm
      obtain hm | hm := List.mem_append.mp hm
      · exact fun h => hbefore m hm (List.mem_cons_of_mem _ h)
      · obtain rfl := Option.mem_toList.mp hm
        rw [show m.1 = rule.1 from hfill]
        exact hrule
    have htail := ih hnames hfound
    rw [List.append_assoc, ← Record.given_cons] at htail
    rw [List.mapM_cons, hhead, htail]
    rfl

/-- **The decoder of a record finds the members that were given.** -/
theorem record?_ofFields {rules : List FieldRule} {fields : List (Option (String × Json))}
    (h : List.Forall₂ Fills rules fields) (hnames : (rules.map Prod.fst).Nodup) :
    record? rules (ofFields fields) = some (Record.given fields) := by
  have hfields := mapM_objectField?_given h hnames (List.forall_mem_nil _)
  rw [List.nil_append] at hfields
  change (rules.mapM (objectField? (Record.given fields))).bind (fun fields => some fields.flatten) = _
  rw [hfields, Option.bind_some, Record.flatten_toList]

/-! ## Members -/

namespace Record

@[simp] theorem find_given_nil (name : String) : (given []).find name = none := rfl

@[simp] theorem find_given_field (n : String) (v : Json) (fs : List (Option (String × Json)))
    (name : String) :
    (given (field n v :: fs)).find name = if n = name then some v else (given fs).find name := by
  rw [given_cons]
  by_cases h : n = name <;> simp [find, field, h]

@[simp] theorem find_given_fieldIf (cond : Bool) (n : String) (v : Json)
    (fs : List (Option (String × Json))) (name : String) :
    (given (fieldIf cond n v :: fs)).find name =
      if n = name ∧ cond then some v else (given fs).find name := by
  rw [given_cons]
  by_cases h : n = name <;> cases cond <;> simp [find, fieldIf, h]

@[simp] theorem find_given_fieldList (n : String) (f : α → Json) (xs : List α)
    (fs : List (Option (String × Json))) (name : String) :
    (given (fieldList n f xs :: fs)).find name =
      if n = name ∧ (!xs.isEmpty) = true then some (.arr (xs.map f)) else (given fs).find name :=
  find_given_fieldIf _ _ _ _ _

@[simp] theorem find_given_fieldOpt (n : String) (f : α → Json) (a : Option α)
    (fs : List (Option (String × Json))) (name : String) :
    (given (fieldOpt n f a :: fs)).find name =
      if n = name then (a.map f).or ((given fs).find name) else (given fs).find name := by
  rw [given_cons]
  by_cases h : n = name <;> cases a <;> simp [find, fieldOpt, h]

end Record

/-! ## What holds of all members -/

/-- All values of the members have the property. -/
def Record.All (p : Json → Prop) (r : Record) : Prop := ∀ m ∈ r, p m.2

namespace Record

variable {p : Json → Prop} {fs : List (Option (String × Json))}

@[simp] theorem all_given_nil : (given []).All p ↔ True := by
  simp [All, given]

@[simp] theorem all_given_field {n : String} {v : Json} :
    (given (field n v :: fs)).All p ↔ p v ∧ (given fs).All p := by
  simp [All, given_cons, field]

@[simp] theorem all_given_fieldOpt {n : String} {f : α → Json} {a : Option α} :
    (given (fieldOpt n f a :: fs)).All p ↔
      (∀ x ∈ a, p (f x)) ∧ (given fs).All p := by
  cases a <;> simp [All, given_cons, fieldOpt]

@[simp] theorem all_given_fieldIf {cond : Bool} {n : String} {v : Json} :
    (given (fieldIf cond n v :: fs)).All p ↔
      (cond = true → p v) ∧ (given fs).All p := by
  cases cond <;> simp [All, given_cons, fieldIf]

@[simp] theorem all_given_fieldList {n : String} {f : α → Json} {xs : List α} :
    (given (fieldList n f xs :: fs)).All p ↔
      ((!xs.isEmpty) = true → p (.arr (xs.map f))) ∧ (given fs).All p :=
  all_given_fieldIf

end Record

/-- All numbers are read back, and the value nests at most `n` deep. -/
def ReadableIn (n : Nat) (v : Json) : Prop := v.Readable ∧ v.nesting ≤ n

theorem ReadableIn.mono {n m : Nat} {v : Json} (h : ReadableIn n v) (hle : n ≤ m) : ReadableIn m v :=
  ⟨h.1, h.2.trans hle⟩

@[simp] theorem readableIn_str (n : Nat) (s : String) : ReadableIn n (.str s) :=
  ⟨.str s, by simp [nesting]⟩

@[simp] theorem readableIn_bool (n : Nat) (b : Bool) : ReadableIn n (.bool b) :=
  ⟨.bool b, by simp [nesting]⟩

theorem readableIn_nat (n : Nat) {k : Nat} (h : k < Number.twoTo 64) : ReadableIn n (.nat k) :=
  ⟨.int (by omega) (by omega), by simp [nat, nesting]⟩

theorem readable_ofFields {fields : List (Option (String × Json))} :
    (ofFields fields).Readable ↔ (Record.given fields).All Readable :=
  ⟨fun | .obj h => h, .obj⟩

theorem readable_arr_map {f : α → Json} {xs : List α} :
    (Json.arr (xs.map f)).Readable ↔ ∀ x ∈ xs, (f x).Readable :=
  ⟨fun | .arr h => fun _ hx => h _ (List.mem_map_of_mem hx), fun h => .arr (by simpa using h)⟩

theorem nesting_ofFields_le {fields : List (Option (String × Json))} {n : Nat} :
    (ofFields fields).nesting ≤ n + 1 ↔ (Record.given fields).All (·.nesting ≤ n) :=
  nesting_obj_le_iff

theorem nesting_arr_map_le {f : α → Json} {xs : List α} {n : Nat} :
    (Json.arr (xs.map f)).nesting ≤ n + 1 ↔ ∀ x ∈ xs, (f x).nesting ≤ n := by
  rw [nesting_arr_le_iff, List.forall_mem_map]

/-- Members nest no deeper than the record. -/
theorem nesting_le_of_ofFields {fields : List (Option (String × Json))} {n : Nat}
    (h : (ofFields fields).nesting ≤ n) : (Record.given fields).All (·.nesting ≤ n) :=
  nesting_ofFields_le.mp (h.trans (Nat.le_succ n))

/-- Items nest no deeper than the array. -/
theorem nesting_le_of_arr_map {f : α → Json} {xs : List α} {n : Nat}
    (h : (Json.arr (xs.map f)).nesting ≤ n) : ∀ x ∈ xs, (f x).nesting ≤ n :=
  nesting_arr_map_le.mp (h.trans (Nat.le_succ n))

theorem readableIn_ofFields {fields : List (Option (String × Json))} {n : Nat} :
    ReadableIn (n + 1) (ofFields fields) ↔ (Record.given fields).All (ReadableIn n) := by
  rw [ReadableIn, readable_ofFields, nesting_ofFields_le]
  exact forall₂_and.symm

theorem readableIn_arr_map {f : α → Json} {xs : List α} {n : Nat} :
    ReadableIn (n + 1) (.arr (xs.map f)) ↔ ∀ x ∈ xs, ReadableIn n (f x) := by
  rw [ReadableIn, readable_arr_map, nesting_arr_map_le]
  exact forall₂_and.symm

/-! ## Values -/

/-- One step of a decoder. -/
theorem decode_step {x : Option α} {f : α → Option β} {a : α} {b : β} (hx : x = some a)
    (hf : f a = some b) : (x >>= f) = some b := by
  rw [hx]
  exact hf

/-- A value is read back from its stored form, which is not `null`. -/
structure Stores (encode : α → Json) (decode : Json → Option α) (a : α) : Prop where
  reads : decode (encode a) = some a
  ne_null : encode a ≠ .null

namespace Stores

variable {r : Record} {name : String} {encode : α → Json} {decode : Json → Option α}

theorem required {a : α} (h : Stores encode decode a) (hfind : r.find name = some (encode a)) :
    r.required name decode = some a := by
  rw [Record.required, hfind]
  exact h.reads

theorem optional {a : Option α} (h : ∀ x ∈ a, Stores encode decode x)
    (hfind : r.find name = a.map encode) : r.optional name decode = some a := by
  rw [Record.optional, hfind]
  cases a with
  | none => rfl
  | some a =>
    obtain ⟨hreads, hnull⟩ := h a rfl
    rw [Option.map_some]
    split
    next heq => exact absurd (Option.some.inj heq) hnull
    next heq =>
      rw [← Option.some.inj heq, hreads]
      rfl
    next heq => cases heq

/-- A member that is left out stands for the default. -/
theorem defaulted {a fallback : α} (h : Stores encode decode a) {b : Bool}
    (hb : b = false → a = fallback)
    (hfind : r.find name = if b = true then some (encode a) else none) :
    r.defaulted name decode fallback = some a := by
  rw [Record.defaulted, hfind]
  cases b with
  | true => exact h.reads
  | false => rw [hb rfl]; rfl

/-- A member for an optional value may also be `null`. -/
theorem optional_ofOption {a : Option α} (h : ∀ x ∈ a, Stores encode decode x)
    (hfind : r.find name = some (ofOption encode a)) : r.optional name decode = some a := by
  cases a with
  | none =>
    rw [Record.optional, hfind]
    rfl
  | some a => exact optional (a := some a) h hfind

theorem list {xs : List α} (h : ∀ x ∈ xs, Stores encode decode x) :
    Stores (fun xs => .arr (xs.map encode)) (list? decode) xs where
  reads := by
    rw [list?]
    induction xs with
    | nil => rfl
    | cons x xs ih =>
      rw [List.map_cons, List.mapM_cons, (h x List.mem_cons_self).reads,
        ih fun y hy => h y (List.mem_cons_of_mem _ hy)]
      rfl
  ne_null := nofun

/-- A list that is left out is empty. -/
theorem defaultedList {xs : List α} (h : ∀ x ∈ xs, Stores encode decode x)
    (hfind : r.find name = if (!xs.isEmpty) = true then some (.arr (xs.map encode)) else none) :
    r.defaulted name (list? decode) [] = some xs :=
  (list h).defaulted (b := !xs.isEmpty) (by simp) hfind

theorem str (s : String) : Stores Json.str Json.str? s := ⟨rfl, nofun⟩

end Stores

/-- A mark that is left out is not set. -/
theorem defaulted_true {r : Record} {name : String} (b : Bool)
    (hfind : r.find name = if b = true then some (.bool true) else none) :
    r.defaulted name bool? false = some b := by
  rw [Record.defaulted, hfind]
  cases b <;> rfl

end ApiDocs.Json
