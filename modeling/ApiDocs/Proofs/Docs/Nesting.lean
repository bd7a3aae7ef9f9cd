import ApiDocs.Proofs.Docs.Storage

/-!
# How deep stored documentation nests

Two measures of depth meet in a stored documentation: the levels of a type, which is what describing a
type counts, and the arrays and objects around one another in the text, which is what the reader of texts
counts. A level of a type costs up to three arrays and objects, for the arguments of a reference, and the
records around a type cost up to ten.

## Main definitions

* `TypeDoc.levels`: how many levels a type has.
* `Documentation.types`: the types in the records of a documentation.

## Main results

* `TypeDoc.nesting_toJson_lt`: the depth of a stored type by its levels.
* `Documentation.nesting_toJson_le`: the depth of a stored documentation by the levels of its types.
-/

namespace ApiDocs

open Json (nesting_ofFields_le nesting_arr_map_le)

/-! ## Types -/

namespace TypeDoc

mutual

/-- How many levels a type has, itself included. -/
def levels : TypeDoc → Nat
  | .name _ | .literal _ _ | .unsupported _ _ => 1
  | .ref _ arguments => levelsOfAll arguments + 1
  | .arrayOf element => levels element + 1
  | .unionOf members | .intersectionOf members => levelsOfAll members + 1

/-- The levels of the deepest of the types. -/
def levelsOfAll : List TypeDoc → Nat
  | [] => 0
  | t :: ts => max (levels t) (levelsOfAll ts)

end

theorem levelsOfAll_le_iff {ts : List TypeDoc} {n : Nat} :
    levelsOfAll ts ≤ n ↔ ∀ t ∈ ts, t.levels ≤ n := by
  induction ts with
  | nil => simp [levelsOfAll]
  | cons t ts ih => simp [levelsOfAll, ih]

theorem levels_pos (t : TypeDoc) : 0 < t.levels := by
  cases t <;> simp [levels]

/-- A level costs at most three arrays and objects, and the last one less. -/
theorem nesting_toJson_lt (n : Nat) {t : TypeDoc} (h : t.levels ≤ n) : t.toJson.nesting < 3 * n := by
  induction n generalizing t with
  | zero => exact absurd t.levels_pos (by omega)
  | succ n ih =>
    have hsome : ∀ {ts : List TypeDoc}, levelsOfAll ts + 1 ≤ n + 1 → ts ≠ [] →
        (Json.arr (ts.map toJson)).nesting ≤ 3 * n := by
      intro ts hts hne
      have hlevels := levelsOfAll_le_iff.mp (Nat.le_of_succ_le_succ hts)
      obtain ⟨t, ht⟩ := List.exists_mem_of_ne_nil ts hne
      have hpos := t.levels_pos.trans_le (hlevels t ht)
      obtain ⟨k, hk⟩ : ∃ k, 3 * n = k + 1 := ⟨3 * n - 1, by omega⟩
      rw [hk]
      exact nesting_arr_map_le.mpr fun t ht => by have := ih (hlevels t ht); omega
    have hall : ∀ {ts : List TypeDoc}, levelsOfAll ts + 1 ≤ n + 1 →
        (Json.arr (ts.map toJson)).nesting ≤ 3 * n + 1 := by
      intro ts hts
      cases ts with
      | nil => exact Nat.le_add_left 1 _
      | cons => exact (hsome hts (List.cons_ne_nil _ _)).trans (Nat.le_succ _)
    cases t with
    | name text =>
      have htext : (Json.str text).nesting = 0 := rfl
      rw [toJson, nesting_oneOf]
      omega
    | literal primitive value =>
      have hvalue : value.toJson.nesting = 0 := by cases value <;> rfl
      have hfields : (Json.ofFields [Json.field "name" (.str primitive),
          Json.field "value" value.toJson]).nesting ≤ 1 :=
        nesting_ofFields_le.mpr (by simp [Json.nesting, hvalue])
      rw [toJson, nesting_oneOf]
      omega
    | ref target arguments =>
      have hfields : (Json.ofFields [Json.field "target" target.toJson,
          Json.fieldIf (!arguments.isEmpty) "arguments" (.arr (arguments.map toJson))]).nesting ≤
          3 * n + 1 := by
        refine nesting_ofFields_le.mpr ?_
        simp only [Json.Record.all_given_field, Json.Record.all_given_fieldIf,
          Json.Record.all_given_nil]
        exact ⟨Nat.zero_le _, fun hne => hsome h (by simpa using hne), trivial⟩
      rw [toJson, nesting_oneOf, allToJson_eq]
      exact Nat.lt_of_le_of_lt (Nat.succ_le_succ hfields) (by omega)
    | arrayOf element =>
      have helement := ih (Nat.le_of_succ_le_succ h)
      rw [toJson, nesting_oneOf]
      omega
    | unionOf members =>
      have hmembers := hall h
      rw [toJson, nesting_oneOf, allToJson_eq]
      omega
    | intersectionOf members =>
      have hmembers := hall h
      rw [toJson, nesting_oneOf, allToJson_eq]
      omega
    | unsupported kind display =>
      have hfields : (Json.ofFields [Json.field "kind" (.str kind.code),
          Json.field "display" (.str display)]).nesting ≤ 1 :=
        nesting_ofFields_le.mpr (by simp [Json.nesting])
      rw [toJson, nesting_oneOf]
      omega

end TypeDoc

/-! ## Records -/

/-- The type of the identifier, if it has one. -/
def IdentifierDoc.types (d : IdentifierDoc) : List TypeDoc := d.type.toList

/-- The types of the parameters and the return type. -/
def SignatureDoc.types (d : SignatureDoc) : List TypeDoc :=
  d.paramList.flatMap (·.types) ++ [d.returnType]

/-- The types in the overloads. -/
def FunctionDoc.types (d : FunctionDoc) : List TypeDoc := d.signatureList.flatMap (·.types)

/-- The types of the index signature. -/
def IndexDoc.types (d : IndexDoc) : List TypeDoc := d.signature.toList ++ d.value.toList

/-- The types of the members. -/
def EnumDoc.types (d : EnumDoc) : List TypeDoc := d.memberList.flatMap (·.types)

/-- The types in functions and variables. -/
def ModuleDoc.types (d : ModuleDoc) : List TypeDoc :=
  d.functionList.flatMap (·.types) ++ d.variableList.flatMap (·.types)

/-- The types in constructor, members, index signature and what is nested. -/
def ClassDoc.types (d : ClassDoc) : List TypeDoc :=
  d.construct.toList.flatMap (·.types) ++ d.methodList.flatMap (·.types) ++
    d.propertyList.flatMap (·.types) ++ d.index.toList.flatMap (·.types) ++ d.exports.types

/-- The types in all records. -/
def Documentation.types (d : Documentation) : List TypeDoc :=
  d.modules.flatMap (·.types) ++ d.classes.toList.flatMap (·.types) ++
    d.enums.toList.flatMap (·.types)

/-- The types of the list nest at most `n` deep when they are stored. -/
def NestWithin (n : Nat) (ts : List TypeDoc) : Prop := ∀ t ∈ ts, t.toJson.nesting ≤ n

theorem nestWithin_append {n : Nat} {ts us : List TypeDoc} :
    NestWithin n (ts ++ us) ↔ NestWithin n ts ∧ NestWithin n us := List.forall_mem_append

theorem nestWithin_flatMap {n : Nat} {f : α → List TypeDoc} {xs : List α} :
    NestWithin n (xs.flatMap f) ↔ ∀ x ∈ xs, NestWithin n (f x) := List.forall_mem_flatMap

theorem nestWithin_toList {n : Nat} {o : Option TypeDoc} :
    NestWithin n o.toList ↔ ∀ t ∈ o, t.toJson.nesting ≤ n := by
  simp [NestWithin]

section Records

variable {n : Nat}

theorem SourcePos.nesting_toJson_le (p : SourcePos) : p.toJson.nesting ≤ 1 :=
  nesting_ofFields_le.mpr (by simp [Json.nesting, Json.nat])

theorem IdentifierDoc.nesting_toJson_le {d : IdentifierDoc} (h : NestWithin (n + 1) d.types) :
    d.toJson.nesting ≤ n + 2 := by
  have hvalue : ∀ l : Literal, l.toJson.nesting = 0 := fun l => by cases l <;> rfl
  rw [toJson, nesting_ofFields_le]
  simp only [Json.Record.all_given_field, Json.Record.all_given_fieldIf,
    Json.Record.all_given_fieldOpt, Json.Record.all_given_nil]
  exact ⟨Nat.zero_le _, nestWithin_toList.mp h, fun _ => Nat.zero_le _,
    fun l _ => (hvalue l).le.trans (Nat.zero_le _), fun p _ => p.nesting_toJson_le.trans (by omega),
    fun _ _ => Nat.zero_le _, trivial⟩

theorem SignatureDoc.nesting_toJson_le {d : SignatureDoc} (h : NestWithin (n + 1) d.types) :
    d.toJson.nesting ≤ n + 4 := by
  obtain ⟨hparams, hreturn⟩ := nestWithin_append.mp h
  have hreturn : d.returnType.toJson.nesting ≤ n + 1 := hreturn _ (List.mem_singleton_self _)
  rw [toJson, nesting_ofFields_le]
  simp only [Json.Record.all_given_field, Json.Record.all_given_fieldOpt, Json.Record.all_given_nil]
  exact ⟨fun p _ => p.nesting_toJson_le.trans (by omega),
    nesting_arr_map_le.mpr fun x hx =>
      IdentifierDoc.nesting_toJson_le (nestWithin_flatMap.mp hparams x hx),
    by omega, fun _ _ => Nat.zero_le _, trivial⟩

theorem FunctionDoc.nesting_toJson_le {d : FunctionDoc} (h : NestWithin (n + 1) d.types) :
    d.toJson.nesting ≤ n + 6 := by
  rw [toJson, nesting_ofFields_le]
  simp only [Json.Record.all_given_field, Json.Record.all_given_fieldOpt, Json.Record.all_given_nil]
  exact ⟨fun _ _ => Nat.zero_le _,
    nesting_arr_map_le.mpr fun s hs => SignatureDoc.nesting_toJson_le (nestWithin_flatMap.mp h s hs),
    trivial⟩

theorem IndexDoc.nesting_toJson_le {d : IndexDoc} (h : NestWithin (n + 1) d.types) :
    d.toJson.nesting ≤ n + 2 := by
  obtain ⟨hsignature, hvalue⟩ := nestWithin_append.mp h
  rw [toJson, nesting_ofFields_le]
  simp only [Json.Record.all_given_fieldOpt, Json.Record.all_given_nil]
  exact ⟨nestWithin_toList.mp hsignature, nestWithin_toList.mp hvalue, trivial⟩

theorem EnumDoc.nesting_toJson_le {d : EnumDoc} (h : NestWithin (n + 1) d.types) :
    d.toJson.nesting ≤ n + 4 := by
  rw [toJson, nesting_ofFields_le]
  simp only [Json.Record.all_given_field, Json.Record.all_given_fieldOpt, Json.Record.all_given_nil]
  exact ⟨Nat.zero_le _, fun p _ => p.nesting_toJson_le.trans (by omega), fun _ _ => Nat.zero_le _,
    nesting_arr_map_le.mpr fun x hx => IdentifierDoc.nesting_toJson_le (nestWithin_flatMap.mp h x hx),
    trivial⟩

theorem ModuleDoc.nesting_toJson_le {d : ModuleDoc} (h : NestWithin (n + 1) d.types) :
    d.toJson.nesting ≤ n + 8 := by
  obtain ⟨hfunctions, hvariables⟩ := nestWithin_append.mp h
  rw [toJson, nesting_ofFields_le]
  simp only [Json.Record.all_given_field, Json.Record.all_given_nil]
  exact ⟨nesting_arr_map_le.mpr fun _ _ => Nat.zero_le _,
    nesting_arr_map_le.mpr fun _ _ => Nat.zero_le _, nesting_arr_map_le.mpr fun _ _ => Nat.zero_le _,
    nesting_arr_map_le.mpr fun f hf =>
      FunctionDoc.nesting_toJson_le (nestWithin_flatMap.mp hfunctions f hf),
    nesting_arr_map_le.mpr fun x hx =>
      (IdentifierDoc.nesting_toJson_le (nestWithin_flatMap.mp hvariables x hx)).trans (by omega),
    trivial⟩

theorem ClassDoc.nesting_toJson_le {d : ClassDoc} (h : NestWithin (n + 1) d.types) :
    d.toJson.nesting ≤ n + 9 := by
  simp only [types, nestWithin_append] at h
  obtain ⟨⟨⟨⟨hconstruct, hmethods⟩, hproperties⟩, hindex⟩, hexports⟩ := h
  have hconstruct := nestWithin_flatMap.mp hconstruct
  have hindex := nestWithin_flatMap.mp hindex
  rw [toJson, nesting_ofFields_le]
  simp only [Json.Record.all_given_field, Json.Record.all_given_fieldOpt, Json.Record.all_given_nil]
  exact ⟨Nat.zero_le _, Nat.zero_le _, fun p _ => p.nesting_toJson_le.trans (by omega),
    fun _ _ => Nat.zero_le _,
    fun f hf => (FunctionDoc.nesting_toJson_le (hconstruct f (Option.mem_toList.mpr hf))).trans
      (by omega),
    nesting_arr_map_le.mpr fun f hf =>
      (FunctionDoc.nesting_toJson_le (nestWithin_flatMap.mp hmethods f hf)).trans (by omega),
    nesting_arr_map_le.mpr fun x hx =>
      (IdentifierDoc.nesting_toJson_le (nestWithin_flatMap.mp hproperties x hx)).trans (by omega),
    fun x hx => (IndexDoc.nesting_toJson_le (hindex x (Option.mem_toList.mpr hx))).trans (by omega),
    nesting_arr_map_le.mpr fun _ _ => Nat.zero_le _, ModuleDoc.nesting_toJson_le hexports, trivial⟩

theorem RefDoc.nesting_toJson_le (d : RefDoc) : d.toJson.nesting ≤ 2 := by
  have htarget : ∀ t : RefTarget, t.toJson.nesting = 1 := fun t => by cases t <;> rfl
  rw [toJson, nesting_ofFields_le]
  simp only [Json.Record.all_given_field, Json.Record.all_given_fieldOpt, Json.Record.all_given_nil]
  exact ⟨Nat.zero_le _, fun t _ => (htarget t).le, trivial⟩

theorem Documentation.nesting_toJson_le_of_types {d : Documentation}
    (h : NestWithin (n + 1) d.types) : d.toJson.nesting ≤ n + 11 := by
  simp only [types, nestWithin_append] at h
  obtain ⟨⟨hmodules, hclasses⟩, henums⟩ := h
  rw [toJson, nesting_ofFields_le]
  simp only [Json.Record.all_given_field, Json.Record.all_given_nil]
  exact ⟨nesting_arr_map_le.mpr fun m hm =>
      (ModuleDoc.nesting_toJson_le (nestWithin_flatMap.mp hmodules m hm)).trans (by omega),
    nesting_arr_map_le.mpr fun c hc => ClassDoc.nesting_toJson_le (nestWithin_flatMap.mp hclasses c hc),
    nesting_arr_map_le.mpr fun e he =>
      (EnumDoc.nesting_toJson_le (nestWithin_flatMap.mp henums e he)).trans (by omega),
    nesting_arr_map_le.mpr fun r _ => r.nesting_toJson_le.trans (by omega), trivial⟩

end Records

/-- **How deep a stored documentation nests,** by the levels of its types: ten arrays and objects for the
records and up to three for a level. -/
theorem Documentation.nesting_toJson_le {d : Documentation} {n : Nat}
    (h : ∀ t ∈ d.types, t.levels ≤ n + 1) : d.toJson.nesting ≤ 3 * n + 12 := by
  have hnest : NestWithin (3 * n + 1 + 1) d.types := fun t ht => by
    have := TypeDoc.nesting_toJson_lt (n + 1) (h t ht)
    omega
  exact Documentation.nesting_toJson_le_of_types hnest

end ApiDocs
