import ApiDocs.Json.Basic

/-!
# Decoding records

A record is written as an object with its fields by name, or as an array with its fields in order.
In an object, names that are not fields are passed over and a field that is given twice is refused.
In an array, only fields with a default may be missing, and nothing may follow the last field.

A choice between alternatives is written as an object with one member, named for the alternative;
an alternative without contents may be given by its name alone.

## Main definitions

* `Json.Presence`, `Json.FieldRule`: what a record expects.
* `Json.record?`: the fields that are given.
* `Json.Record.required`, `Json.Record.optional`, `Json.Record.defaulted`: decoding of one field.
* `Json.choice?`, `Json.choiceName?`: alternatives.
-/

namespace ApiDocs.Json

/-- May a field be left out? -/
inductive Presence where
  /-- It has to be there. -/
  | required
  /-- An object may leave it out. -/
  | optional
  /-- An object may leave it out, and an array may end before it. -/
  | defaulted
  deriving DecidableEq, Repr

/-- The name of a field and whether it may be left out. -/
abbrev FieldRule := String × Presence

/-- The fields that were given. -/
abbrev Record := List (String × Json)

/-- The field of an object, if it is given exactly once or may be left out. -/
def objectField? (members : List (String × Json)) (rule : FieldRule) : Option Record :=
  match members.filter (·.1 == rule.1) with
  | [] => if rule.2 = .required then none else some []
  | [m] => some [m]
  | _ => none

/-- The fields of an array, in order. -/
def arrayFields? : List FieldRule → List Json → Option Record
  | [], [] => some []
  | [], _ :: _ => none
  | rule :: rules, [] => if rule.2 = .defaulted then arrayFields? rules [] else none
  | rule :: rules, v :: vs => (arrayFields? rules vs).map ((rule.1, v) :: ·)

/-- The fields that are given by a value. -/
def record? (rules : List FieldRule) : Json → Option Record
  | .obj members => do
    let fields ← rules.mapM (objectField? members)
    return fields.flatten
  | .arr items => arrayFields? rules items
  | _ => none

namespace Record

/-- The value of a field. -/
def find (r : Record) (name : String) : Option Json := (r.find? (·.1 == name)).map (·.2)

/-- A field that has to be there. -/
def required (r : Record) (name : String) (decode : Json → Option α) : Option α :=
  match r.find name with
  | some v => decode v
  | none => none

/-- A field that may be absent or `null`. -/
def optional (r : Record) (name : String) (decode : Json → Option α) : Option (Option α) :=
  match r.find name with
  | some .null => some none
  | some v => (decode v).map some
  | none => some none

/-- A field with a default. -/
def defaulted (r : Record) (name : String) (decode : Json → Option α) (fallback : α) : Option α :=
  match r.find name with
  | some v => decode v
  | none => some fallback

end Record

/-- An array whose items all decode. -/
def list? (decode : Json → Option α) : Json → Option (List α)
  | .arr items => items.mapM decode
  | _ => none

/-- The name and the contents of the one alternative that is given. -/
def choice? : Json → Option (String × Json)
  | .obj [(name, v)] => some (name, v)
  | _ => none

/-- The name of an alternative without contents. -/
def choiceName? : Json → Option String
  | .str name => some name
  | .obj [(name, .null)] => some name
  | _ => none

/-! ## Encoding -/

/-- The members of an object, some of which may be left out. -/
def ofFields (fields : List (Option (String × Json))) : Json := .obj (fields.filterMap id)

/-- A member that is always written. -/
def field (name : String) (v : Json) : Option (String × Json) := some (name, v)

/-- A member that is left out when there is no value. -/
def fieldOpt (name : String) (f : α → Json) : Option α → Option (String × Json)
  | some a => some (name, f a)
  | none => none

/-- A member that is left out when the condition fails. -/
def fieldIf (cond : Bool) (name : String) (v : Json) : Option (String × Json) :=
  if cond then some (name, v) else none

/-- A list that is left out when it is empty. -/
def fieldList (name : String) (f : α → Json) (xs : List α) : Option (String × Json) :=
  fieldIf (!xs.isEmpty) name (.arr (xs.map f))

end ApiDocs.Json
