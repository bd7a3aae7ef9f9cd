import ApiDocs.Docs.TypeText

/-!
# Texts without hooks

Where hooks replace nothing, the text of a type is put together from the texts of its parts, and no monad
is in the way. There is one equation for each kind of type.

## Main definitions

* `TypeDoc.formatIn`: the text of a type that may be part of another one.
-/

namespace ApiDocs.TypeDoc

variable (refs : Array RefDoc) (nested : Bool)

/-- The text of a type that may be part of another one. -/
def formatIn (d : TypeDoc) : String := Id.run (d.formatNested FormatHooks.plain refs nested)

theorem format_eq_formatIn (d : TypeDoc) : d.format refs = d.formatIn refs false := rfl

theorem formatAll_eq_map (ds : List TypeDoc) :
    Id.run (formatAll FormatHooks.plain refs nested ds) = ds.map (formatIn refs nested) := by
  induction ds with
  | nil => rfl
  | cons d ds ih =>
    rw [List.map_cons, ← ih]
    rfl

theorem formatIn_name (text : String) : (name text).formatIn refs nested = text := rfl

theorem formatIn_literal (primitive : String) (value : Literal) :
    (literal primitive value).formatIn refs nested = primitive := rfl

theorem formatIn_unsupported (kind : UnsupportedKind) (display : String) :
    (unsupported kind display).formatIn refs nested = display := rfl

theorem formatIn_ref (r : RefId) : (ref r []).formatIn refs nested =
    (refs[r.index]?.map (·.name)).getD "" := rfl

theorem formatIn_generic (r : RefId) {ds : List TypeDoc} (hds : ds ≠ []) :
    (ref r ds).formatIn refs nested =
      (ref r []).formatIn refs nested ++ "<" ++ ", ".intercalate (ds.map (formatIn refs false)) ++ ">" := by
  obtain ⟨d, ds, rfl⟩ := List.exists_cons_of_ne_nil hds
  rw [← formatAll_eq_map]
  rfl

theorem formatIn_array (d : TypeDoc) : (arrayOf d).formatIn refs nested = d.formatIn refs true ++ "[]" :=
  rfl

theorem formatIn_union (ds : List TypeDoc) : (unionOf ds).formatIn refs nested =
    parenthesized nested (" | ".intercalate (ds.map (formatIn refs true))) := by
  rw [← formatAll_eq_map]
  rfl

theorem formatIn_intersection (ds : List TypeDoc) : (intersectionOf ds).formatIn refs nested =
    parenthesized nested (" & ".intercalate (ds.map (formatIn refs true))) := by
  rw [← formatAll_eq_map]
  rfl

end ApiDocs.TypeDoc
