import ApiDocs.Docs.Model

/-!
# The table of references

While a program is walked, each declared symbol that a type mentions gets one reference record, no
matter how often and from where it is mentioned. The key of a record is the symbol together with
its name: two symbols of one name have two records. A record is made by the first request, keeps
its position, and takes the last target that some request gives it.

## Main definitions

* `RefTable`: the records made so far, each with its symbol.
* `RefTable.request`: the record of a symbol, made if need be.
* `RefTable.lookup`: the record of a symbol, if there is one.
-/

namespace ApiDocs

/-- The records made so far, each with the symbol it stands for. -/
structure RefTable (σ : Type) where
  records : Array (σ × RefDoc) := #[]
  deriving Repr

namespace RefTable

variable {σ : Type} [DecidableEq σ]

/-- No records. -/
def empty : RefTable σ := {}

/-- The number of records. -/
def size (t : RefTable σ) : Nat := t.records.size

/-- The record at a position. -/
def get? (t : RefTable σ) (id : RefId) : Option RefDoc := (t.records[id.index]?).map (·.2)

/-- The record of a symbol under a name, if one was made. -/
def lookup (t : RefTable σ) (symbol : σ) (name : String) : Option RefId :=
  (t.records.findIdx? fun r => r.1 = symbol && r.2.name == name).map RefId.mk

/-- Give a record its target; no target leaves it as it is. -/
def patch (t : RefTable σ) (id : RefId) : Option RefTarget → RefTable σ
  | none => t
  | some target =>
    ⟨t.records.modify id.index fun r => (r.1, { r.2 with target := some target })⟩

/-- The record of a symbol, made on the first request. A target is attached on every request,
also to a record that was made before the declaration was reached. -/
def request (t : RefTable σ) (symbol : σ) (name : String) (target : Option RefTarget) :
    RefId × RefTable σ :=
  match t.lookup symbol name with
  | some id => (id, t.patch id target)
  | none =>
    let id : RefId := ⟨t.records.size⟩
    (id, ⟨t.records.push (symbol, { name, target })⟩)

/-- The records in the order of their making. -/
def refs (t : RefTable σ) : Array RefDoc := t.records.map (·.2)

end RefTable

end ApiDocs
