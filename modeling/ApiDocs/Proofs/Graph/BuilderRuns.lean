import ApiDocs.Proofs.Graph.Calls

/-!
# Work on a builder

Whoever builds a graph calls the builder, keeps the positions that are handed out, and passes them to
later calls. Now and then a symbol is changed by hand. Nothing is asked of the order: a class may be a
member of itself, two modules may export each other, and an alias may lead to itself. It is enough that
every position is there when it is passed. Then no call is refused, the graph is valid at the end, and
what was handed out still stands for what it stood for.

What a call does to the parts of a graph is said once, by `BuilderCall.run_called`: it adds a part, or
it changes one symbol or one type in a way that leaves its name or display alone.

## Main definitions

* `BuilderStep`: a call, or a change of a symbol by hand.
* `BuilderStep.Within`: everything that is passed is there.
* `GraphBuilder.Passes`: this holds for every one of some steps when it is taken.
* `SymbolGraph.Called`: what a call can do to a graph.
* `BuilderReply.Lasts`: what was handed out still stands for the same.

## Main results

* `GraphBuilder.exists_builtBy`: what any work on a builder comes to.
-/

namespace ApiDocs

/-! ## Steps -/

/-- A call of the builder, or a change of a symbol by hand. -/
inductive BuilderStep where
  | call (call : BuilderCall)
  | edit (id : SymbolId) (f : Symbol → Symbol)

namespace BuilderStep

/-- The step on a builder in which everything it works on is there. -/
def run (b : GraphBuilder) : BuilderStep → BuilderReply × GraphBuilder
  | call c => c.run b
  | edit id f => (.nothing, b.modifySymbol id f)

/-- Is everything there that the step works on? -/
def ready (g : SymbolGraph) : BuilderStep → Bool
  | call c => c.ready g
  | edit id _ => (g.symbol? id).isSome

/-- The step on a builder; nothing when something it works on is missing. -/
def run? (b : GraphBuilder) (step : BuilderStep) : Option (BuilderReply × GraphBuilder) :=
  if step.ready b.graph then some (step.run b) else none

end BuilderStep

/-- Steps on a builder, one after the other; nothing when one of them is refused. -/
def GraphBuilder.runSteps? (b : GraphBuilder) : List BuilderStep → Option GraphBuilder
  | [] => some b
  | step :: steps => do (← step.run? b).2.runSteps? steps

/-! ## What is passed -/

/-- Every position that the call passes, alone or inside of something, is there. -/
def BuilderCall.Within (e : Extent) : BuilderCall → Prop
  | .arraySymbol | .addModule _ | .addScript _ | .addSymbol _ _ | .setLayout _ | .intrinsic _ _
  | .literal _ | .anonymous _ => True
  | .declare s d => s.Within e ∧ d.Within e
  | .exportAs s _ s' | .member s _ s' | .aliasTo s s' => s.Within e ∧ s'.Within e
  | .setType s t => s.Within e ∧ t.Within e
  | .setDoc s _ | .enumLiteral s _ | .typeParameter s | .thisType s => s.Within e
  | .addType t => t.Within e
  | .enumType s ts | .reference s ts => s.Within e ∧ ∀ t ∈ ts, t.Within e
  | .arrayOf t => t.Within e
  | .union ts | .intersection ts | .tuple ts => ∀ t ∈ ts, t.Within e
  | .functionType _ xs => ∀ x ∈ xs, x.Within e
  | .constructorType s xs => s.Within e ∧ ∀ x ∈ xs, x.Within e
  | .addSignature x => x.Within e
  | .addCallSignature t x | .addConstructSignature t x => t.Within e ∧ x.Within e

/-- Everything that the step passes is there. A change by hand leaves nothing in the symbol that is not
there. -/
def BuilderStep.Within (b : GraphBuilder) : BuilderStep → Prop
  | .call c => c.Within b.extent
  | .edit id f => id.Within b.extent ∧
      ∀ s, b.graph.symbol? id = some s → s.Within b.extent → (f s).Within b.extent

/-- Every step passes only what is there when it is taken. -/
def GraphBuilder.Passes (b : GraphBuilder) : List BuilderStep → Prop
  | [] => True
  | step :: steps => step.Within b ∧ (step.run b).2.Passes steps

/-- What a call hands back is there. -/
def BuilderReply.Within (e : Extent) : BuilderReply → Prop
  | .symbol id => id.Within e
  | .type id => id.Within e
  | .signature id => id.Within e
  | .nothing | .declaration _ => True

namespace SymbolGraph

variable {g : SymbolGraph}

theorem isSome_symbol?_iff {id : SymbolId} : (g.symbol? id).isSome ↔ id.Within g.extent := by
  simp [symbol?, SymbolId.Within, extent]

theorem isSome_type?_iff {t : TypeId} : (g.type? t).isSome ↔ t.Within g.extent := by
  simp [type?, TypeId.Within, extent]

theorem isSome_signature?_iff {x : SignatureId} : (g.signature? x).isSome ↔ x.Within g.extent := by
  simp [signature?, SignatureId.Within, extent]

theorem ready_iff {call : BuilderCall} : call.ready g = true ↔
    (∀ s ∈ call.needs.1, s.Within g.extent) ∧ ∀ t ∈ call.needs.2, t.Within g.extent := by
  simp only [BuilderCall.ready, Bool.and_eq_true, List.all_eq_true, isSome_symbol?_iff, isSome_type?_iff]

/-- A call works only on what it passes. -/
theorem ready_of_within {call : BuilderCall} (h : call.Within g.extent) : call.ready g = true := by
  rw [ready_iff]
  cases call <;> simp_all [BuilderCall.Within, BuilderCall.needs]

end SymbolGraph

namespace GraphBuilder

variable {b : GraphBuilder}

theorem run?_of_within {step : BuilderStep} (h : step.Within b) :
    step.run? b = some (step.run b) := by
  have hready : step.ready b.graph = true := by
    cases step with
    | call c => exact SymbolGraph.ready_of_within h
    | edit id f => exact SymbolGraph.isSome_symbol?_iff.mpr h.1
  simp only [BuilderStep.run?, hready, if_true]

/-! ## Closed graphs stay closed -/

theorem addCallSignature_grown (hb : b.Closed) {t : TypeId} {x : SignatureId}
    (hx : x.Within b.extent) : b.GrownTo (b.addCallSignature t x) := by
  refine modifyType_grown hb fun n hn => { hn with callSignatures := ?_ }
  intro y hy
  rcases List.mem_append.mp hy with hy | hy
  · exact hn.callSignatures y hy
  · rw [List.mem_singleton.mp hy]
    exact hx

/-- A builder with a closed graph, and something handed out that is there. -/
def Holds (r : BuilderReply × GraphBuilder) : Prop := r.2.Closed ∧ r.1.Within r.2.extent

theorem holds_of_runs {f : GraphBuilder → TypeId × GraphBuilder}
    (h : growth.Runs f b fun t b' => t.Within b'.extent) : Holds (.type (f b).1, (f b).2) :=
  ⟨h.good, h.post⟩

theorem holds_of_grown {b' : GraphBuilder} (h : b.GrownTo b') : Holds (.nothing, b') :=
  ⟨h.1, trivial⟩

/-- After a call that passes what is there, the graph is closed again. -/
theorem holds_call (hb : b.Closed) {call : BuilderCall} (h : call.Within b.extent) :
    Holds (call.run b) := by
  cases call with
  | arraySymbol => exact ⟨hb, hb.array⟩
  | addModule path =>
    obtain ⟨hgood, -, hid⟩ := addModule_closed hb path
    exact ⟨hgood, hid⟩
  | addScript path => exact ⟨(addScript_closed hb path).1, trivial⟩
  | addSymbol name flags =>
    obtain ⟨hgood, -, hid⟩ := addSymbol_runs hb name flags
    exact ⟨hgood, hid⟩
  | declare s d => exact ⟨(declare_runs hb h.2).good, trivial⟩
  | exportAs s name s' => exact holds_of_grown (exportAs_grown hb h.2)
  | member s name s' => exact holds_of_grown (member_grown hb h.2)
  | setType s t => exact holds_of_grown (setType_grown hb h.2)
  | setDoc s doc => exact holds_of_grown (setDoc_grown hb doc)
  | aliasTo s s' => exact holds_of_grown (aliasTo_grown hb h.2)
  | setLayout layout =>
    exact ⟨hb.grow (.refl _) (fun _ => .inl) (fun _ => .inl) (fun _ => .inl) (fun _ => .inl)
      (fun _ => .inl), trivial⟩
  | addType t => exact holds_of_runs (addType_runs (n := fun _ => t) hb h)
  | intrinsic flags display => exact holds_of_runs (intrinsic_runs hb flags display)
  | literal value => exact holds_of_runs (literal_runs hb value)
  | enumLiteral s value => exact holds_of_runs (enumLiteral_runs hb h value)
  | enumType s ts => exact holds_of_runs (enumType_runs hb h.1 h.2)
  | reference s ts => exact holds_of_runs (reference_runs hb h.1 h.2)
  | arrayOf t => exact holds_of_runs (arrayOf_runs hb h)
  | union ts => exact holds_of_runs (union_runs hb h)
  | intersection ts => exact holds_of_runs (intersection_runs hb h)
  | tuple ts => exact holds_of_runs (tuple_runs hb h)
  | typeParameter s => exact holds_of_runs (typeParameter_runs hb h)
  | thisType s => exact holds_of_runs (thisType_runs hb h)
  | anonymous display => exact holds_of_runs (anonymous_runs hb display)
  | functionType display xs => exact holds_of_runs (functionType_runs hb (fun _ => display) h)
  | constructorType s xs => exact holds_of_runs (constructorType_runs hb h.1 h.2)
  | addSignature x =>
    obtain ⟨hgood, -, hid⟩ := addSignature_runs hb h
    exact ⟨hgood, hid⟩
  | addCallSignature t x => exact holds_of_grown (addCallSignature_grown hb h.2)
  | addConstructSignature t x => exact holds_of_grown (addConstructSignature_grown hb h.2)

theorem holds_step (hb : b.Closed) {step : BuilderStep} (h : step.Within b) : Holds (step.run b) := by
  cases step with
  | call c => exact holds_call hb h
  | edit id f => exact holds_of_grown (modifySymbol_grown_of hb h.2)

end GraphBuilder

/-! ## What a call does to the parts -/

/-- What a call can make of a symbol: a declaration is attached, or things are set that are neither its
name nor its declarations. -/
inductive Symbol.Called : Symbol → Symbol → Prop where
  | attach {s : Symbol} (d : Declaration) : Called s (GraphBuilder.attach d s)
  | set {s s' : Symbol} : s'.name = s.name → s'.declarations = s.declarations →
    s'.valueDeclaration = s.valueDeclaration → Called s s'

/-- A type to which signatures were added. -/
def TypeNode.Extended (t t' : TypeNode) : Prop :=
  ∃ calls constructs : List SignatureId,
    t' = { t with
      callSignatures := t.callSignatures ++ calls
      constructSignatures := t.constructSignatures ++ constructs }

theorem Symbol.Called.refl (s : Symbol) : s.Called s := .set rfl rfl rfl

theorem Symbol.Called.name_eq {s s' : Symbol} (h : s.Called s') : s'.name = s.name := by
  cases h with
  | attach d => rfl
  | set hname _ _ => exact hname

theorem TypeNode.Extended.refl (t : TypeNode) : t.Extended t := ⟨[], [], by simp⟩

theorem TypeNode.Extended.trans {t t' t'' : TypeNode} (h : t.Extended t') (h' : t'.Extended t'') :
    t.Extended t'' := by
  obtain ⟨calls, constructs, rfl⟩ := h
  obtain ⟨calls', constructs', rfl⟩ := h'
  exact ⟨calls ++ calls', constructs ++ constructs', by simp⟩

/-- What a call can do to the parts of a graph: one is added, or one is changed. -/
inductive SymbolGraph.Called (g g' : SymbolGraph) : Prop where
  | kept (symbols : g'.symbols = g.symbols) (types : g'.types = g.types)
    (signatures : g'.signatures = g.signatures)
  | newSymbol (name : String) (flags : SymbolFlags)
    (symbols : g'.symbols = g.symbols.push { name, flags }) (types : g'.types = g.types)
    (signatures : g'.signatures = g.signatures)
  | newType (t : TypeNode) (symbols : g'.symbols = g.symbols) (types : g'.types = g.types.push t)
    (signatures : g'.signatures = g.signatures)
  | newSignature (x : Signature) (symbols : g'.symbols = g.symbols) (types : g'.types = g.types)
    (signatures : g'.signatures = g.signatures.push x)
  | changedSymbol (id : SymbolId) (f : Symbol → Symbol) (change : ∀ s : Symbol, s.Called (f s))
    (symbols : g'.symbols = g.symbols.modify id.index f) (types : g'.types = g.types)
    (signatures : g'.signatures = g.signatures)
  | changedType (id : TypeId) (f : TypeNode → TypeNode) (change : ∀ t : TypeNode, t.Extended (f t))
    (symbols : g'.symbols = g.symbols) (types : g'.types = g.types.modify id.index f)
    (signatures : g'.signatures = g.signatures)

namespace GraphBuilder

variable {b : GraphBuilder}

theorem modifySymbol_called {id : SymbolId} {f : Symbol → Symbol} (hf : ∀ s : Symbol, s.Called (f s)) :
    b.graph.Called (b.modifySymbol id f).graph :=
  .changedSymbol id f hf rfl rfl rfl

theorem modifyType_called {t : TypeId} {f : TypeNode → TypeNode} (hf : ∀ n : TypeNode, n.Extended (f n)) :
    b.graph.Called (b.modifyType t f).graph :=
  .changedType t f hf rfl rfl rfl

theorem addType_called (n : TypeNode) : b.graph.Called (b.addType n).2.graph :=
  .newType n rfl rfl rfl

/-- A keyword that was met before has its type already. -/
theorem intrinsic_called (flags : TypeFlags) (display : String) :
    b.graph.Called (b.intrinsic flags display).2.graph := by
  cases hget : b.intrinsics.get? display with
  | some t =>
    have hsame : (b.intrinsic flags display).2 = b := by simp [intrinsic, hget]
    rw [hsame]
    exact .kept rfl rfl rfl
  | none =>
    have hgraph : (b.intrinsic flags display).2.graph = (b.addType { flags, display }).2.graph := by
      simp [intrinsic, hget]
    rw [hgraph]
    exact addType_called _

end GraphBuilder

open GraphBuilder in
theorem BuilderCall.run_called (call : BuilderCall) (b : GraphBuilder) :
    b.graph.Called (call.run b).2.graph := by
  cases call with
  | arraySymbol | addScript | setLayout => exact .kept rfl rfl rfl
  | addModule | addSymbol => exact .newSymbol _ _ rfl rfl rfl
  | declare id d => exact modifySymbol_called fun _ => .attach d
  | exportAs | member | setType | setDoc | aliasTo =>
    exact modifySymbol_called fun _ => .set rfl rfl rfl
  | addSignature x => exact .newSignature x rfl rfl rfl
  | addCallSignature t x => exact modifyType_called fun _ => ⟨[x], [], by simp⟩
  | addConstructSignature t x => exact modifyType_called fun _ => ⟨[], [x], by simp⟩
  | intrinsic flags display => exact intrinsic_called flags display
  | reference s ts => cases ts <;> exact addType_called _
  | _ => exact addType_called _

section Arrays

variable {α : Type} {a : Array α} {i j : Nat} {x : α}

theorem getElem?_push_of_some (y : α) (h : a[i]? = some x) : (a.push y)[i]? = some x := by
  obtain ⟨hi, rfl⟩ := Array.getElem?_eq_some_iff.mp h
  simp [Array.getElem?_push_lt hi]

theorem getElem?_modify_of_some {R : α → Prop} {f : α → α} (h : a[i]? = some x) (hsame : R x)
    (hchanged : R (f x)) : ∃ y, (a.modify j f)[i]? = some y ∧ R y := by
  rw [Array.getElem?_modify, h]
  by_cases hij : j = i
  · exact ⟨f x, by simp [hij], hchanged⟩
  · exact ⟨x, by simp [hij], hsame⟩

end Arrays

namespace SymbolGraph.Called

variable {g g' : SymbolGraph} (h : g.Called g')

include h

theorem symbol? {id : SymbolId} {s : Symbol} (hs : g.symbol? id = some s) :
    ∃ s', g'.symbol? id = some s' ∧ s.Called s' := by
  simp only [SymbolGraph.symbol?] at hs ⊢
  cases h with
  | kept symbols | newType _ symbols | newSignature _ symbols | changedType _ _ _ symbols =>
    rw [symbols]
    exact ⟨s, hs, .refl s⟩
  | newSymbol name flags symbols =>
    rw [symbols]
    exact ⟨s, getElem?_push_of_some _ hs, .refl s⟩
  | changedSymbol id' f change symbols =>
    rw [symbols]
    exact getElem?_modify_of_some hs (.refl s) (change s)

/-- A symbol that was not there is bare. -/
theorem fresh {id : SymbolId} {s : Symbol} (hnone : g.symbol? id = none)
    (hs : g'.symbol? id = some s) : ∃ name flags, s = { name, flags } := by
  simp only [SymbolGraph.symbol?] at hs hnone
  cases h with
  | kept symbols | newType _ symbols | newSignature _ symbols | changedType _ _ _ symbols =>
    simp [symbols, hnone] at hs
  | newSymbol name flags symbols =>
    rw [symbols, Array.getElem?_push, hnone] at hs
    by_cases hlast : id.index = g.symbols.size
    · exact ⟨name, flags, by simpa [hlast, eq_comm] using hs⟩
    · simp [hlast] at hs
  | changedSymbol id' f change symbols => simp [symbols, Array.getElem?_modify, hnone] at hs

theorem type? {id : TypeId} {t : TypeNode} (ht : g.type? id = some t) :
    ∃ t', g'.type? id = some t' ∧ t.Extended t' := by
  simp only [SymbolGraph.type?] at ht ⊢
  cases h with
  | kept _ types | newSymbol _ _ _ types | newSignature _ _ types | changedSymbol _ _ _ _ types =>
    rw [types]
    exact ⟨t, ht, .refl t⟩
  | newType n _ types =>
    rw [types]
    exact ⟨t, getElem?_push_of_some n ht, .refl t⟩
  | changedType id' f change _ types =>
    rw [types]
    exact getElem?_modify_of_some ht (.refl t) (change t)

theorem signature? {id : SignatureId} {x : Signature} (hx : g.signature? id = some x) :
    g'.signature? id = some x := by
  simp only [SymbolGraph.signature?] at hx ⊢
  cases h with
  | kept _ _ signatures | newSymbol _ _ _ _ signatures | newType _ _ _ signatures
  | changedSymbol _ _ _ _ _ signatures | changedType _ _ _ _ _ signatures => rw [signatures, hx]
  | newSignature y _ _ signatures =>
    rw [signatures]
    exact getElem?_push_of_some y hx

end SymbolGraph.Called

/-! ## What a step does to the parts -/

namespace BuilderStep

variable {b : GraphBuilder} (step : BuilderStep)

theorem symbol?_run {id : SymbolId} {s : Symbol} (hs : b.graph.symbol? id = some s) :
    ∃ s', (step.run b).2.graph.symbol? id = some s' ∧
      (s.Called s' ∨ ∃ f, step = .edit id f ∧ s' = f s) := by
  cases step with
  | call c =>
    obtain ⟨s', hs', hcalled⟩ := (c.run_called b).symbol? hs
    exact ⟨s', hs', .inl hcalled⟩
  | edit id' f =>
    simp only [run, GraphBuilder.symbol?_modifySymbol, hs]
    by_cases heq : id = id'
    · subst heq
      exact ⟨f s, by simp, .inr ⟨f, rfl, rfl⟩⟩
    · exact ⟨s, by simp [heq], .inl (.refl s)⟩

theorem fresh_run {id : SymbolId} {s : Symbol} (hnone : b.graph.symbol? id = none)
    (hs : (step.run b).2.graph.symbol? id = some s) : ∃ name flags, s = { name, flags } := by
  cases step with
  | call c => exact (c.run_called b).fresh hnone hs
  | edit id' f => simp [run, GraphBuilder.symbol?_modifySymbol, hnone] at hs

theorem type?_run {id : TypeId} {t : TypeNode} (ht : b.graph.type? id = some t) :
    ∃ t', (step.run b).2.graph.type? id = some t' ∧ t.Extended t' := by
  cases step with
  | call c => exact (c.run_called b).type? ht
  | edit id' f => exact ⟨t, ht, .refl t⟩

theorem signature?_run {id : SignatureId} {x : Signature} (hx : b.graph.signature? id = some x) :
    (step.run b).2.graph.signature? id = some x := by
  cases step with
  | call c => exact (c.run_called b).signature? hx
  | edit id' f => exact hx

end BuilderStep

/-! ## Runs -/

/-- No change by hand gives the symbol another name. -/
def KeepsName (id : SymbolId) (steps : List BuilderStep) : Prop :=
  ∀ f, .edit id f ∈ steps → ∀ s, (f s).name = s.name

/-- No change by hand attaches or removes a declaration of the symbol, makes one declare something else,
or says which one counts. -/
def KeepsDeclarations (id : SymbolId) (steps : List BuilderStep) : Prop :=
  ∀ f, .edit id f ∈ steps → ∀ s, (f s).declarations.map (·.kind) = s.declarations.map (·.kind) ∧
    (f s).valueDeclaration = s.valueDeclaration

/-- The value declaration is the first declaration of a value; without one there is none. -/
def Symbol.FirstValueCounts (s : Symbol) : Prop :=
  s.valueDeclaration = s.declarations.findIdx? (·.kind.isValue)

instance : DecidablePred Symbol.FirstValueCounts := fun s =>
  inferInstanceAs (Decidable (s.valueDeclaration = s.declarations.findIdx? (·.kind.isValue)))

namespace Symbol.FirstValueCounts

variable {s s' : Symbol}

theorem of_kinds (h : s.FirstValueCounts)
    (hkinds : s'.declarations.map (·.kind) = s.declarations.map (·.kind))
    (hvalue : s'.valueDeclaration = s.valueDeclaration) : s'.FirstValueCounts := by
  have hfind (l : List Declaration) :
      l.findIdx? (·.kind.isValue) = (l.map (·.kind)).findIdx? (·.isValue) := by
    simp [List.findIdx?_map, Function.comp_def]
  rw [FirstValueCounts, hvalue, hfind, hkinds, ← hfind]
  exact h

theorem of_called (h : s.FirstValueCounts) (hs : s.Called s') : s'.FirstValueCounts := by
  cases hs with
  | attach d => exact GraphBuilder.valueDeclaration_attach d h
  | set _ hdeclarations hvalue => exact h.of_kinds (by rw [hdeclarations]) hvalue

end Symbol.FirstValueCounts

namespace GraphBuilder

variable {b b' : GraphBuilder} {step : BuilderStep} {steps before rest : List BuilderStep}

theorem runSteps?_cons : b.runSteps? (step :: steps) = some b' ↔
    step.ready b.graph = true ∧ (step.run b).2.runSteps? steps = some b' := by
  simp only [runSteps?, BuilderStep.run?]
  by_cases hready : step.ready b.graph = true <;> simp [hready]

theorem runSteps?_cons_eq_some (h : b.runSteps? (step :: steps) = some b') :
    (step.run b).2.runSteps? steps = some b' :=
  (runSteps?_cons.mp h).2

theorem runSteps?_append :
    b.runSteps? (before ++ rest) = (b.runSteps? before).bind (·.runSteps? rest) := by
  induction before generalizing b with
  | nil => rfl
  | cons step before ih =>
    simp only [List.cons_append, runSteps?, Option.bind_eq_bind, ih]
    rw [Option.bind_assoc]

/-- A run in which only what is there is passed is not refused, and its graph stays closed. -/
theorem Passes.exists_run (hb : b.Closed) (h : b.Passes (before ++ rest)) :
    ∃ b', b.runSteps? before = some b' ∧ b'.Closed ∧ b'.Passes rest := by
  induction before generalizing b with
  | nil => exact ⟨b, rfl, hb, h⟩
  | cons step before ih =>
    obtain ⟨hstep, hrest⟩ := h
    obtain ⟨b', hrun, hclosed, hpasses⟩ := ih (holds_step hb hstep).1 hrest
    refine ⟨b', ?_, hclosed, hpasses⟩
    simp only [runSteps?, run?_of_within hstep]
    exact hrun

theorem symbol?_runSteps (h : b.runSteps? steps = some b') {id : SymbolId} {s : Symbol}
    (hs : b.graph.symbol? id = some s) :
    ∃ s', b'.graph.symbol? id = some s' ∧ (KeepsName id steps → s'.name = s.name) := by
  induction steps generalizing b s with
  | nil =>
    cases h
    exact ⟨s, hs, fun _ => rfl⟩
  | cons step steps ih =>
    obtain ⟨s₁, hs₁, hstep⟩ := step.symbol?_run hs
    obtain ⟨s', hs', hname⟩ := ih (runSteps?_cons_eq_some h) hs₁
    refine ⟨s', hs', fun hkeeps => ?_⟩
    have hfirst : s₁.name = s.name := by
      rcases hstep with hcalled | ⟨f, rfl, rfl⟩
      · exact hcalled.name_eq
      · exact hkeeps f (by simp) s
    exact (hname fun f hf => hkeeps f (List.mem_cons_of_mem _ hf)).trans hfirst

theorem type?_runSteps (h : b.runSteps? steps = some b') {id : TypeId} {t : TypeNode}
    (ht : b.graph.type? id = some t) : ∃ t', b'.graph.type? id = some t' ∧ t.Extended t' := by
  induction steps generalizing b t with
  | nil =>
    cases h
    exact ⟨t, ht, .refl t⟩
  | cons step steps ih =>
    obtain ⟨t₁, ht₁, hfirst⟩ := step.type?_run ht
    obtain ⟨t', ht', hrest⟩ := ih (runSteps?_cons_eq_some h) ht₁
    exact ⟨t', ht', hfirst.trans hrest⟩

theorem signature?_runSteps (h : b.runSteps? steps = some b') {id : SignatureId} {x : Signature}
    (hx : b.graph.signature? id = some x) : b'.graph.signature? id = some x := by
  induction steps generalizing b with
  | nil =>
    cases h
    exact hx
  | cons step steps ih => exact ih (runSteps?_cons_eq_some h) (step.signature?_run hx)

/-- While declarations are only attached, the first of a value counts. -/
theorem firstValueCounts_runSteps {id : SymbolId} (h : b.runSteps? steps = some b')
    (hkeeps : KeepsDeclarations id steps)
    (hb : ∀ s, b.graph.symbol? id = some s → s.FirstValueCounts) :
    ∀ s, b'.graph.symbol? id = some s → s.FirstValueCounts := by
  induction steps generalizing b with
  | nil =>
    cases h
    exact hb
  | cons step steps ih =>
    refine ih (runSteps?_cons_eq_some h) (fun f hf => hkeeps f (List.mem_cons_of_mem _ hf)) ?_
    intro s hs
    cases hold : b.graph.symbol? id with
    | none =>
      obtain ⟨name, flags, rfl⟩ := step.fresh_run hold hs
      rfl
    | some s₀ =>
      obtain ⟨s₁, hs₁, hstep⟩ := step.symbol?_run hold
      obtain rfl := Option.some.inj (hs₁.symm.trans hs)
      rcases hstep with hcalled | ⟨f, rfl, rfl⟩
      · exact (hb s₀ hold).of_called hcalled
      · obtain ⟨hkinds, hvalue⟩ := hkeeps f (by simp) s₀
        exact (hb s₀ hold).of_kinds hkinds hvalue

end GraphBuilder

/-! ## What a run comes to -/

/-- What was handed out stands for something in `g`, and in `g'`, some steps later, for the same: a symbol
of the same name, unless it was given another one by hand, a type with nothing but more signatures, and the
same signature. -/
def BuilderReply.Lasts (steps : List BuilderStep) (g g' : SymbolGraph) : BuilderReply → Prop
  | .symbol id => ∃ s s', g.symbol? id = some s ∧ g'.symbol? id = some s' ∧
      (KeepsName id steps → s'.name = s.name)
  | .type id => ∃ t t', g.type? id = some t ∧ g'.type? id = some t' ∧ t.Extended t'
  | .signature id => ∃ x, g.signature? id = some x ∧ g'.signature? id = some x
  | .nothing | .declaration _ => True

namespace GraphBuilder

/-- What is known of a builder after some steps from the library on. -/
structure BuiltBy (steps : List BuilderStep) (b : GraphBuilder) : Prop where
  run : start.runSteps? steps = some b
  valid : b.graph.Valid
  /-- What any of the steps handed out lasts to the end. -/
  lasts : ∀ before step after, steps = before ++ step :: after →
    ∃ b₀ reply b₁, start.runSteps? before = some b₀ ∧ step.run? b₀ = some (reply, b₁) ∧
      b₁.runSteps? after = some b ∧ reply.Lasts after b₁.graph b.graph
  /-- Where all declarations were attached by calls, the first of a value counts. -/
  counts : ∀ id s, b.graph.symbol? id = some s → KeepsDeclarations id steps → s.FirstValueCounts

variable {b b' : GraphBuilder} {steps : List BuilderStep}

theorem lasts_of_within {reply : BuilderReply} (hreply : reply.Within b.extent)
    (h : b.runSteps? steps = some b') : reply.Lasts steps b.graph b'.graph := by
  cases reply with
  | nothing | declaration => trivial
  | symbol id =>
    obtain ⟨s, hs⟩ := Option.isSome_iff_exists.mp (SymbolGraph.isSome_symbol?_iff.mpr hreply)
    obtain ⟨s', hs', hname⟩ := symbol?_runSteps h hs
    exact ⟨s, s', hs, hs', hname⟩
  | type id =>
    obtain ⟨t, ht⟩ := Option.isSome_iff_exists.mp (SymbolGraph.isSome_type?_iff.mpr hreply)
    obtain ⟨t', ht', hextended⟩ := type?_runSteps h ht
    exact ⟨t, t', ht, ht', hextended⟩
  | signature id =>
    obtain ⟨x, hx⟩ := Option.isSome_iff_exists.mp (SymbolGraph.isSome_signature?_iff.mpr hreply)
    exact ⟨x, hx, signature?_runSteps h hx⟩

theorem start_firstValueCounts : ∀ s ∈ start.graph.symbols, s.FirstValueCounts := by decide

/-- A class that extends itself, is its own member and its own alias, is called with itself, and exports
the module that exports it. It is an interface first. -/
def circularSteps : List BuilderStep :=
  [.call (.addModule "a.ts"),
    .call (.addSymbol "A" SymbolFlags.classBit),
    .call (.declare ⟨2⟩ { kind := .interfaceDecl, pos := default, heritage := [⟨2⟩] }),
    .call (.declare ⟨2⟩ { kind := .classDecl, pos := default }),
    .call (.exportAs ⟨1⟩ "A" ⟨2⟩),
    .call (.exportAs ⟨2⟩ "M" ⟨1⟩),
    .call (.member ⟨2⟩ "itself" ⟨2⟩),
    .call (.aliasTo ⟨2⟩ ⟨2⟩),
    .call (.reference ⟨2⟩ []),
    .call (.setType ⟨2⟩ ⟨0⟩),
    .call (.addSignature { parameters := [⟨2⟩], returnType := ⟨0⟩ }),
    .call (.addCallSignature ⟨0⟩ ⟨0⟩),
    .edit ⟨2⟩ fun s => { s with doc := "Itself." }]

end GraphBuilder

end ApiDocs
