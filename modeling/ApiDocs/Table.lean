/-!
# Ordered tables

A table maps keys to values and remembers the order in which its keys came. Setting a key that is
there replaces its value and leaves its position; a new key goes to the end. That each key occurs
once is part of the type, so a table is determined by its list of entries.

## Main definitions

* `Table`: entries with pairwise distinct keys.
* `Table.get?`, `Table.insert`, `Table.modify`: look-up and update.
-/

namespace ApiDocs

/-- Entries in order, with pairwise distinct keys. -/
structure Table (κ : Type) (α : Type) where
  entries : List (κ × α)
  distinct : (entries.map Prod.fst).Nodup

namespace Table

variable {κ α β : Type}

instance [DecidableEq κ] [DecidableEq α] : DecidableEq (Table κ α) := fun s t =>
  if h : s.entries = t.entries then
    isTrue (by cases s; cases t; cases h; rfl)
  else isFalse (fun e => h (by rw [e]))

instance [Repr κ] [Repr α] : Repr (Table κ α) := ⟨fun t n => reprPrec t.entries n⟩

/-- The table without entries. -/
def empty : Table κ α := ⟨[], by simp⟩

instance : Inhabited (Table κ α) := ⟨empty⟩

/-- The keys, in order. -/
def keys (t : Table κ α) : List κ := t.entries.map Prod.fst

/-- The values, in the order of their keys. -/
def values (t : Table κ α) : List α := t.entries.map Prod.snd

/-- Is the table without entries? -/
def isEmpty (t : Table κ α) : Bool := t.entries.isEmpty

/-- Apply a function to every value. -/
def map (f : α → β) (t : Table κ α) : Table κ β :=
  ⟨t.entries.map fun e => (e.1, f e.2), by
    simpa [List.map_map, Function.comp_def] using t.distinct⟩

variable [DecidableEq κ]

/-- The value of a key. -/
def get? (t : Table κ α) (k : κ) : Option α := (t.entries.find? (·.1 = k)).map Prod.snd

/-- Does the table have the key? -/
def contains (t : Table κ α) (k : κ) : Bool := t.entries.any (·.1 = k)

/-- Replace the value of a key that is there. -/
def replaceEntry (k : κ) (v : α) (e : κ × α) : κ × α := if e.1 = k then (k, v) else e

theorem map_fst_replaceEntry (k : κ) (v : α) (l : List (κ × α)) :
    (l.map (replaceEntry k v)).map Prod.fst = l.map Prod.fst := by
  rw [List.map_map]
  apply List.map_congr_left
  intro e _
  simp only [Function.comp, replaceEntry]
  split <;> simp_all

/-- Set the value of a key. A key that is there keeps its position, a new one goes to the end. -/
def insert (t : Table κ α) (k : κ) (v : α) : Table κ α :=
  if h : t.contains k then
    ⟨t.entries.map (replaceEntry k v), by rw [map_fst_replaceEntry]; exact t.distinct⟩
  else
    ⟨t.entries ++ [(k, v)], by
      simp only [contains, List.any_eq_true, decide_eq_true_eq, not_exists, not_and] at h
      simp only [List.map_append, List.map_cons, List.map_nil, List.nodup_append]
      refine ⟨t.distinct, by simp, ?_⟩
      intro a ha b hb
      simp only [List.mem_map] at ha
      obtain ⟨e, he, rfl⟩ := ha
      simp only [List.mem_singleton] at hb
      rw [hb]
      exact h e he⟩

/-- A table from entries, read from the front as insertions. -/
def ofList (l : List (κ × α)) : Table κ α := l.foldl (fun t e => t.insert e.1 e.2) empty

/-- Change the value of a key, starting from `fresh` for a key that is not there. -/
def modify (t : Table κ α) (k : κ) (fresh : α) (f : α → α) : Table κ α :=
  t.insert k (f ((t.get? k).getD fresh))

/-! ## Lemmas -/

theorem keys_insert (t : Table κ α) (k : κ) (v : α) :
    (t.insert k v).keys = if t.contains k then t.keys else t.keys ++ [k] := by
  unfold insert
  split
  · exact map_fst_replaceEntry k v t.entries
  · simp [keys]

omit [DecidableEq κ] in
@[simp] theorem keys_empty : (empty : Table κ α).keys = [] := rfl

omit [DecidableEq κ] in
@[simp] theorem values_empty : (empty : Table κ α).values = [] := rfl

@[simp] theorem get?_empty (k : κ) : (empty : Table κ α).get? k = none := rfl

theorem contains_eq_true_iff (t : Table κ α) (k : κ) : t.contains k = true ↔ k ∈ t.keys := by
  simp only [contains, keys, List.any_eq_true, decide_eq_true_eq, List.mem_map]

end Table

end ApiDocs
