import ApiDocs.Binding.Binder
import ApiDocs.Proofs.Binding.Declarations
import ApiDocs.Proofs.Graph.Symbols

/-!
# Steps of reading

Whatever the sources look like, a draft is put together from a few kinds of steps: a symbol is added and
declared, a name that is declared again gets one more declaration, a member goes into the table of its owner,
and something is noted. Here these steps are told apart. Names and tables only ever lead to symbols that are
there.

## Main definitions

* `TypeExpr.Written`: how the expressions of notes come about.
* `GraphBuilder.addDeclared`, `GraphBuilder.declareAgain`, `GraphBuilder.addMember`: the steps on the graph.
* `GraphDraft.Names`, `GraphDraft.Binds`: what the symbol of a name or of a member is.
* `GraphDraft.Inside`: names and tables lead to symbols that are there.
* `Growth.Completes`: a step that completes what another one began.
-/

namespace ApiDocs

open TypeScript

/-- How the expressions of notes come about: they are written, or they are of an initializer, or nothing is
written. -/
inductive TypeExpr.Written : TypeExpr → Prop where
  | read (site : Site) (t : TypeTree) : Written (site.typeExpr t)
  | initializer (site : Site) {literal : Bool} {value : Expr} {e : TypeExpr} :
    site.infer? literal value = some e → Written e
  | nothing : Written .any
  /-- The parameter for all further arguments is an array of anything. -/
  | rest : Written (.array .any)
  | instances (symbol : SymbolId) : Written (.instanceOf symbol)

/-- A declaration as it is read, with the flags that go with it, of what is no member of an enum. -/
structure Declaration.AsRead (x : Declaration) (flags : SymbolFlags) : Prop where
  kind : x.kind ≠ .enumMember
  heritage : x.heritage = []
  index : x.index = none
  flags : flags.meets SymbolFlags.enumMemberBit = false

/-- The symbol that a signature belongs to. -/
def SignatureOwner.symbol : SignatureOwner → SymbolId
  | .call s | .construct s => s

namespace GraphBuilder

/-- Add a symbol and declare it. -/
def addDeclared (b : GraphBuilder) (name : String) (flags : SymbolFlags) (d : Declaration) : GraphBuilder :=
  ((b.addSymbol name flags).2.declare b.next d).2

/-- Declare a symbol once more, with further flags. -/
def declareAgain (b : GraphBuilder) (s : SymbolId) (flags : SymbolFlags) (d : Declaration) : GraphBuilder :=
  ((b.addFlags s flags).declare s d).2

/-- The table in which members of an owner are. -/
def memberTable (b : GraphBuilder) (owner : SymbolId) (isStatic : Bool) : Table String SymbolId :=
  if isStatic then b.exportsOf owner else b.membersOf owner

/-- Put a member into its table. -/
def enlist (b : GraphBuilder) (owner : SymbolId) (name : String) (s : SymbolId) (isStatic : Bool) : GraphBuilder :=
  if isStatic then b.exportAs owner name s else b.member owner name s

/-- Add a member and declare it. -/
def addMember (b : GraphBuilder) (owner : SymbolId) (name : String) (flags : SymbolFlags) (isStatic : Bool)
    (d : Declaration) : GraphBuilder :=
  (((b.addSymbol name flags).2.enlist owner name b.next isStatic).declare b.next d).2

variable {b b' : GraphBuilder} {s : SymbolId}

theorem Enlarges.addDeclared (name : String) (flags : SymbolFlags) (d : Declaration) :
    b.Enlarges (b.addDeclared name flags d) :=
  Enlarges.trans (Enlarges.addSymbol name flags) (Enlarges.declare b.next d)

theorem Enlarges.addFlags (s : SymbolId) (flags : SymbolFlags) : b.Enlarges (b.addFlags s flags) :=
  Enlarges.modifySymbol (fun _ => rfl) (fun _ _ h => FlagSet.has_union h) fun _ => List.prefix_rfl

theorem Enlarges.declareAgain (s : SymbolId) (flags : SymbolFlags) (d : Declaration) :
    b.Enlarges (b.declareAgain s flags d) :=
  (Enlarges.addFlags s flags).trans (Enlarges.declare s d)

theorem Enlarges.enlist (owner : SymbolId) (name : String) (s : SymbolId) (isStatic : Bool) :
    b.Enlarges (b.enlist owner name s isStatic) := by
  unfold GraphBuilder.enlist
  split <;> exact Enlarges.modifyAside (fun _ => rfl) (fun _ => rfl) fun _ => rfl

theorem Enlarges.addMember (owner : SymbolId) (name : String) (flags : SymbolFlags) (isStatic : Bool)
    (d : Declaration) : b.Enlarges (b.addMember owner name flags isStatic d) :=
  (Enlarges.addSymbol name flags).trans
    ((Enlarges.enlist owner name b.next isStatic).trans (Enlarges.declare b.next d))

/-! ## Symbols that are there -/

/-- The symbol that is added next is there once it is added. -/
theorem next_within_addSymbol (b : GraphBuilder) (name : String) (flags : SymbolFlags) :
    b.next.Within (b.addSymbol name flags).2.extent := by
  simp [SymbolId.Within, next, GraphBuilder.addSymbol, SymbolGraph.extent]

theorem next_within_addDeclared (b : GraphBuilder) (name : String) (flags : SymbolFlags) (d : Declaration) :
    b.next.Within (b.addDeclared name flags d).extent :=
  (Enlarges.declare b.next d).within (next_within_addSymbol b name flags)

theorem next_within_addMember (b : GraphBuilder) (owner : SymbolId) (name : String) (flags : SymbolFlags)
    (isStatic : Bool) (d : Declaration) : b.next.Within (b.addMember owner name flags isStatic d).extent :=
  ((Enlarges.enlist owner name b.next isStatic).trans (.declare b.next d)).within
    (next_within_addSymbol b name flags)

/-- The tables of symbols lead to symbols that are there. -/
def Inside (b : GraphBuilder) : Prop :=
  ∀ s x, b.graph.symbol? s = some x →
    (∀ m ∈ x.exports.values, m.Within b.extent) ∧ ∀ m ∈ x.members.values, m.Within b.extent

namespace Inside

theorem addSymbol (h : b.Inside) (name : String) (flags : SymbolFlags) : (b.addSymbol name flags).2.Inside := by
  intro s x hx
  have hle : b.Enlarges (b.addSymbol name flags).2 := .addSymbol name flags
  rw [symbol?_addSymbol] at hx
  split at hx
  · obtain rfl := Option.some.inj hx
    simp
  · exact ⟨fun m hm => hle.within ((h s x hx).1 m hm), fun m hm => hle.within ((h s x hx).2 m hm)⟩

theorem modifySymbol (h : b.Inside) {f : Symbol → Symbol}
    (hexports : ∀ x : Symbol, (∀ m ∈ x.exports.values, m.Within b.extent) →
      ∀ m ∈ (f x).exports.values, m.Within b.extent)
    (hmembers : ∀ x : Symbol, (∀ m ∈ x.members.values, m.Within b.extent) →
      ∀ m ∈ (f x).members.values, m.Within b.extent) : (b.modifySymbol s f).Inside := by
  intro s' x hx
  have hextent : (b.modifySymbol s f).extent = b.extent := by
    simp [GraphBuilder.modifySymbol, SymbolGraph.extent]
  rw [hextent]
  rw [symbol?_modifySymbol] at hx
  split at hx
  · obtain ⟨y, hy, rfl⟩ := Option.map_eq_some_iff.mp hx
    exact ⟨hexports y (h s' y hy).1, hmembers y (h s' y hy).2⟩
  · exact h s' x hx

/-- A change that leaves tables alone. -/
theorem modifyAside (h : b.Inside) {f : Symbol → Symbol} (hexports : ∀ x, (f x).exports = x.exports)
    (hmembers : ∀ x, (f x).members = x.members) : (b.modifySymbol s f).Inside :=
  h.modifySymbol (fun x hx => by rwa [hexports]) fun x hx => by rwa [hmembers]

theorem declare (h : b.Inside) (s : SymbolId) (d : Declaration) : (b.declare s d).2.Inside :=
  h.modifyAside (fun _ => rfl) fun _ => rfl

theorem exportAs (h : b.Inside) (container : SymbolId) (name : String) (hs : s.Within b.extent) :
    (b.exportAs container name s).Inside :=
  h.modifySymbol (fun _ hx => Table.forall_values_insert hx hs) fun _ hx => hx

theorem member (h : b.Inside) (owner : SymbolId) (name : String) (hs : s.Within b.extent) :
    (b.member owner name s).Inside :=
  h.modifySymbol (fun _ hx => hx) fun _ hx => Table.forall_values_insert hx hs

theorem enlist (h : b.Inside) (owner : SymbolId) (name : String) (hs : s.Within b.extent) (isStatic : Bool) :
    (b.enlist owner name s isStatic).Inside := by
  unfold GraphBuilder.enlist
  split
  · exact h.exportAs owner name hs
  · exact h.member owner name hs

theorem addDeclared (h : b.Inside) (name : String) (flags : SymbolFlags) (d : Declaration) :
    (b.addDeclared name flags d).Inside :=
  (h.addSymbol name flags).declare b.next d

theorem declareAgain (h : b.Inside) (s : SymbolId) (flags : SymbolFlags) (d : Declaration) :
    (b.declareAgain s flags d).Inside := by
  have hflags : (b.addFlags s flags).Inside := h.modifyAside (fun _ => rfl) fun _ => rfl
  exact hflags.declare s d

theorem addMember (h : b.Inside) (owner : SymbolId) (name : String) (flags : SymbolFlags) (isStatic : Bool)
    (d : Declaration) : (b.addMember owner name flags isStatic d).Inside :=
  ((h.addSymbol name flags).enlist owner name (next_within_addSymbol b name flags) isStatic).declare b.next d

theorem addModule (h : b.Inside) (path : String) : (b.addModule path).2.Inside :=
  h.addSymbol (String.ofList ('"' :: (path.toList ++ ['"']))) SymbolFlags.moduleBit

/-- What is in a table is there. -/
theorem within_of_mem_memberTable (h : b.Inside) {owner : SymbolId} {isStatic : Bool}
    (hvalue : s ∈ (b.memberTable owner isStatic).values) : s.Within b.extent := by
  cases hx : b.graph.symbol? owner with
  | none => cases isStatic <;> simp [memberTable, exportsOf, membersOf, hx] at hvalue
  | some x =>
    cases isStatic with
    | true => exact (h owner x hx).1 s (by simpa [memberTable, exportsOf, hx] using hvalue)
    | false => exact (h owner x hx).2 s (by simpa [memberTable, membersOf, hx] using hvalue)

/-- A member that is found is there. -/
theorem within_of_memberTable (h : b.Inside) {owner : SymbolId} {name : String} {isStatic : Bool}
    (hget : (b.memberTable owner isStatic).get? name = some s) : s.Within b.extent :=
  h.within_of_mem_memberTable (Table.mem_values_of_get? hget)

theorem within_of_get? (h : b.Inside) {owner : SymbolId} {name : String}
    (hget : (b.exportsOf owner).get? name = some s) : s.Within b.extent :=
  h.within_of_memberTable (show (b.memberTable owner true).get? name = some s from hget)

end Inside

end GraphBuilder

namespace GraphDraft

/-- Drafts get larger and keep an invariant. -/
def enlarging (Inv : GraphDraft → Prop) : Growth GraphDraft where
  Good := Inv
  Le d d' := d.builder.Enlarges d'.builder
  refl d := .refl d.builder
  trans := GraphBuilder.Enlarges.trans

/-- The drafts differ in what only matters for the look-up of names and for exports. -/
structure Alike (d d' : GraphDraft) : Prop where
  builder : d'.builder = d.builder
  modules : d'.modules = d.modules
  named : d'.named = d.named
  symbolTypes : d'.symbolTypes = d.symbolTypes
  typeAliases : d'.typeAliases = d.typeAliases
  signatures : d'.signatures = d.signatures
  indexes : d'.indexes = d.indexes
  enums : d'.enums = d.enums
  classes : d'.classes = d.classes
  aliases : d'.aliases = d.aliases

variable {d d' d'' : GraphDraft} {s : SymbolId} {container : Container} {name : String} {flags : SymbolFlags}

theorem Alike.refl (d : GraphDraft) : d.Alike d := by
  constructor <;> rfl

theorem Alike.trans (h : d.Alike d') (h' : d'.Alike d'') : d.Alike d'' where
  builder := h'.builder.trans h.builder
  modules := h'.modules.trans h.modules
  named := h'.named.trans h.named
  symbolTypes := h'.symbolTypes.trans h.symbolTypes
  typeAliases := h'.typeAliases.trans h.typeAliases
  signatures := h'.signatures.trans h.signatures
  indexes := h'.indexes.trans h.indexes
  enums := h'.enums.trans h.enums
  classes := h'.classes.trans h.classes
  aliases := h'.aliases.trans h.aliases

/-- Names and tables lead to symbols that are there. -/
structure Inside (d : GraphDraft) : Prop where
  builder : d.builder.Inside
  named : ∀ s ∈ d.named.values, s.Within d.extent

theorem Sound.inside (hd : d.Sound) : d.Inside := by
  refine ⟨fun s x hx => ?_, hd.notes.named⟩
  have hwithin := hd.builder.graph.symbols x (Array.mem_of_getElem? hx)
  exact ⟨hwithin.exports, hwithin.members⟩

theorem Inside.alike (h : d.Inside) (halike : d.Alike d') : d'.Inside := by
  refine ⟨?_, ?_⟩
  · rw [halike.builder]
    exact h.builder
  · change ∀ s ∈ d'.named.values, s.Within d'.builder.extent
    rw [halike.builder, halike.named]
    exact h.named

theorem Inside.rebuilt (h : d.Inside) {b : GraphBuilder} (hle : d.builder.Enlarges b) (hb : b.Inside) :
    Inside { d with builder := b } :=
  ⟨hb, fun s hs => hle.within (h.named s hs)⟩

/-- The same work on the graphs of both. -/
theorem Alike.build (h : d.Alike d') (f : GraphBuilder → GraphBuilder) :
    Alike { d with builder := f d.builder } { d' with builder := f d'.builder } :=
  { h with builder := congrArg f h.builder }

/-- What the symbol of a name is, and what the draft is with it. -/
inductive Names (d : GraphDraft) (container : Container) (name : String) (flags : SymbolFlags) (s : SymbolId)
    (d' : GraphDraft) : Prop where
  | again : d.named.get? (container, name) = some s →
    Alike { d with builder := d.builder.addFlags s flags } d' → Names d container name flags s d'
  | new : d.named.get? (container, name) = none → s = d.builder.next →
    Alike { d with
      builder := (d.builder.addSymbol name flags).2
      named := d.named.insert (container, name) d.builder.next } d' → Names d container name flags s d'

/-- Changes of no matter afterwards. -/
theorem Names.alike (h : Names d container name flags s d') (h' : d'.Alike d'') :
    Names d container name flags s d'' := by
  cases h with
  | again hget halike => exact .again hget (halike.trans h')
  | new hget hs halike => exact .new hget hs (halike.trans h')

/-- What the symbol of a member is, and what the draft is with it. -/
inductive Binds (d : GraphDraft) (owner : SymbolId) (name : String) (flags : SymbolFlags) (isStatic : Bool)
    (s : SymbolId) (d' : GraphDraft) : Prop where
  | again : (d.builder.memberTable owner isStatic).get? name = some s →
    d' = { d with builder := d.builder.addFlags s flags } → Binds d owner name flags isStatic s d'
  | new : (d.builder.memberTable owner isStatic).get? name = none → s = d.builder.next →
    d' = { d with
      builder := (d.builder.addSymbol name flags).2.enlist owner name d.builder.next isStatic } →
    Binds d owner name flags isStatic s d'

/-- Steps of which only the outcome is looked at. -/
def outcome : Growth GraphDraft where
  Good _ := True
  Le _ _ := True
  refl _ := trivial
  trans _ _ := trivial

theorem bindNamed_names (d : GraphDraft) (container : Container) (name : String) (flags : SymbolFlags) :
    outcome.Runs (bindNamed container name flags) d (Names d container name flags) := by
  unfold bindNamed
  refine Growth.runs_get ?_
  split
  next symbol hget => exact ⟨trivial, trivial, .again hget (.refl _)⟩
  next hget =>
    refine Growth.Runs.bind (P := fun s d' => s = d.builder.next ∧
      d' = { d with builder := (d.builder.addSymbol name flags).2 }) ⟨trivial, trivial, rfl, rfl⟩ ?_
    rintro - - - - ⟨rfl, rfl⟩
    refine Growth.Runs.bind (P := fun _ => Names d container name flags d.builder.next)
      ⟨trivial, trivial, .new hget rfl (.refl _)⟩ fun _ d₂ _ _ hnames => ?_
    cases container with
    | symbol id => exact Growth.runs_pure trivial hnames
    | script file =>
      refine Growth.runs_get ?_
      split
      · exact ⟨trivial, trivial, hnames.alike (by constructor <;> rfl)⟩
      · exact Growth.runs_pure trivial hnames

theorem bindMember_binds (d : GraphDraft) (owner : SymbolId) (name : String) (flags : SymbolFlags)
    (isStatic : Bool) :
    outcome.Runs (bindMember owner name flags isStatic) d (Binds d owner name flags isStatic) := by
  unfold bindMember
  refine Growth.runs_get ?_
  cases isStatic with
  | true =>
    dsimp only
    split
    next symbol hget => exact ⟨trivial, trivial, .again hget rfl⟩
    next hget => exact ⟨trivial, trivial, .new hget rfl rfl⟩
  | false =>
    dsimp only
    split
    next symbol hget => exact ⟨trivial, trivial, .again hget rfl⟩
    next hget => exact ⟨trivial, trivial, .new hget rfl rfl⟩

end GraphDraft

namespace Growth

variable {σ α β : Type} {G : Growth σ} {before s : σ} {x : StateM σ α} {f : α → StateM σ β}
  {P : α → σ → Prop} {Q : β → σ → Prop}

/-- From a state that is not complete, `x` leads to a good one, larger than the state before. -/
structure Completes (G : Growth σ) (before : σ) (x : StateM σ α) (s : σ) (P : α → σ → Prop) : Prop where
  good : G.Good (x s).2
  le : G.Le before (x s).2
  post : P (x s).1 (x s).2

theorem Completes.bind (h : G.Completes before x s P)
    (hf : ∀ a s', G.Good s' → G.Le before s' → P a s' → G.Runs (f a) s' Q) :
    G.Completes before (x >>= f) s Q := by
  have hrest := hf (x s).1 (x s).2 h.good h.le h.post
  exact ⟨hrest.good, G.trans h.le hrest.le, hrest.post⟩

theorem Completes.discard {P : σ → Prop} (h : G.Completes before x s fun _ => P) :
    G.Completes before (discard x) s fun _ => P :=
  ⟨h.good, h.le, h.post⟩

/-- A step with any outcome, and what completes it. -/
theorem runs_of_completes {G' : Growth σ} (h : G'.Runs x s P)
    (hf : ∀ a s', P a s' → G.Completes s (f a) s' Q) : G.Runs (x >>= f) s Q := by
  have hrest := hf (x s).1 (x s).2 h.post
  exact ⟨hrest.good, hrest.le, hrest.post⟩

end Growth

end ApiDocs
