import ApiDocs.Json.Basic
import ApiDocs.Table

/-!
# Values laid over values

Settings come in layers. A layer lies over another member by member: where both hold an object the
two are merged, and anywhere else the upper layer wins, arrays included.

## Main definitions

* `Json.distinct`: repeated members of objects resolved, the last one winning.
* `Json.overlay`: one value laid over another.
-/

namespace ApiDocs.Json

mutual

/-- The value with no member repeated in any object: the last value of a name is kept. -/
def distinct : Json → Json
  | .arr items => .arr (distinctItems items)
  | .obj members => .obj (Table.ofList (distinctMembers members)).entries
  | v => v

/-- `distinct` on every item. -/
def distinctItems : List Json → List Json
  | [] => []
  | x :: xs => distinct x :: distinctItems xs

/-- `distinct` on every member. -/
def distinctMembers : List (String × Json) → List (String × Json)
  | [] => []
  | (k, v) :: ms => (k, distinct v) :: distinctMembers ms

end

/-- The value of the first member of a name. -/
def member? (members : List (String × Json)) (name : String) : Option Json :=
  (members.find? (·.1 == name)).map (·.2)

mutual

/-- **One value laid over another.** -/
def overlay : (low high : Json) → Json
  | .obj low, .obj high =>
    .obj (overlayMembers low high ++ high.filter fun m => !low.any (·.1 == m.1))
  | _, high => high

/-- The members of the lower object, with those of the upper one laid over them. -/
def overlayMembers : (low high : List (String × Json)) → List (String × Json)
  | [], _ => []
  | (k, v) :: low, high =>
    (k, match member? high k with
      | some w => overlay v w
      | none => v) :: overlayMembers low high

end

/-- Layers from the lowest to the highest. -/
def layered (layers : List Json) : Json := layers.foldl overlay (.obj [])

end ApiDocs.Json
