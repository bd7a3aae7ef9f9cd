import ApiDocs.Json.Basic

/-!
# Tables under construction

The lines of a TOML text build a tree of tables. A table comes into being in one of three ways, and
how it did decides what may be added to it later: a table *defined* by a header takes no keys from
elsewhere, a table *implied* by a longer header may still be defined, and a table made by a *dotted*
key grows only by dotted keys of the same table. An array of tables is entered at its last table.

## Main definitions

* `Toml.Node`: a value or a table.
* `Toml.grow`: change the table that a path leads to.
* `Toml.addValue`, `Toml.openTable`, `Toml.openTables`: the effect of a line.
* `Toml.Node.toJson`: the finished value.
-/

namespace ApiDocs.Toml

/-- How a table came into being. -/
inductive TableKind where
  | defined
  | implied
  | dotted
  deriving DecidableEq, Repr

/-- A value or a table. -/
inductive Node where
  /-- A value that nothing can be added to. -/
  | closed (value : Json)
  | table (kind : TableKind) (entries : List (String × Node))
  /-- The tables of an array. -/
  | tables (earlier : List (List (String × Node))) (last : List (String × Node))
  deriving Repr

/-- The entries of a table. -/
abbrev Entries := List (String × Node)

/-- The entry of a name. -/
def nodeOf? (entries : Entries) (name : String) : Option Node :=
  (entries.find? (·.1 == name)).map (·.2)

/-- Set the entry of a name. -/
def setEntry (entries : Entries) (name : String) (node : Node) : Entries :=
  if entries.any (·.1 == name) then
    entries.map fun e => if e.1 == name then (name, node) else e
  else entries ++ [(name, node)]

/-- Change the table that a path leads to, making the tables on the way. They are made as `fresh`.
With dotted keys, tables that are defined cannot be passed. -/
def grow (fresh : TableKind) (change : TableKind → Entries → Option Entries) :
    List String → TableKind → Entries → Option Entries
  | [], kind, entries => change kind entries
  | name :: path, _, entries => do
    let node ← match nodeOf? entries name with
      | none => (grow fresh change path fresh []).map (.table fresh)
      | some (.closed _) => none
      | some (.tables earlier last) => (grow fresh change path .defined last).map (.tables earlier)
      | some (.table kind inner) =>
        if fresh = .dotted && kind = .defined then none
        else (grow fresh change path kind inner).map (.table kind)
    return setEntry entries name node

/-- Add a value under a key of one or more parts. Only tables made by dotted keys take values from
them. -/
def addValue (path : List String) (name : String) (value : Json) : Entries → Option Entries :=
  grow .dotted (fun kind entries =>
    if !path.isEmpty && kind != .dotted then none
    else if (nodeOf? entries name).isSome then none
    else some (entries ++ [(name, .closed value)])) path .defined

/-- Define the table of a header. -/
def openTable (path : List String) (name : String) : Entries → Option Entries :=
  grow .implied (fun _ entries =>
    match nodeOf? entries name with
    | none => some (setEntry entries name (.table .defined []))
    | some (.table .implied inner) => some (setEntry entries name (.table .defined inner))
    | some _ => none) path .defined

/-- Append a table to the array of a header. -/
def openTables (path : List String) (name : String) : Entries → Option Entries :=
  grow .implied (fun _ entries =>
    match nodeOf? entries name with
    | none => some (setEntry entries name (.tables [] []))
    | some (.tables earlier last) => some (setEntry entries name (.tables (earlier ++ [last]) []))
    | some _ => none) path .defined

mutual

/-- The finished value. -/
def Node.toJson : Node → Json
  | .closed v => v
  | .table _ entries => .obj (entriesJson entries)
  | .tables earlier last => .arr (tablesJson earlier ++ [.obj (entriesJson last)])

/-- The finished values of entries. -/
def entriesJson : List (String × Node) → List (String × Json)
  | [] => []
  | (name, node) :: rest => (name, node.toJson) :: entriesJson rest

/-- The finished values of tables. -/
def tablesJson : List (List (String × Node)) → List Json
  | [] => []
  | entries :: rest => .obj (entriesJson entries) :: tablesJson rest

end

end ApiDocs.Toml
