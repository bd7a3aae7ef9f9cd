import ApiDocs.Proofs.Graph.Builder

/-!
# Calls on a builder

A graph is built by calls, one after the other, from the library on. Symbols are changed in few ways:
they get declarations, they are made aliases, and what else they have is set. So a property that is true
of fresh symbols and survives these changes is true of every symbol that is ever built.

## Main definitions

* `GraphBuilder.runAll?`: calls on a builder, one after the other.
* `Symbol.IsKept`: a property of fresh symbols that no call breaks.

## Main results

* `Symbol.IsKept.of_runAll?`: every symbol that was built by calls has such a property.
-/

namespace ApiDocs

/-- Calls on a builder, one after the other; nothing when one of them is refused. -/
def GraphBuilder.runAll? (b : GraphBuilder) : List BuilderCall → Option GraphBuilder
  | [] => some b
  | call :: calls => do (← call.run? b).2.runAll? calls

/-- If the first declaration of a value counts, it does so with one more declaration. -/
theorem GraphBuilder.valueDeclaration_attach {s : Symbol} (d : Declaration)
    (h : s.valueDeclaration = s.declarations.findIdx? (·.kind.isValue)) :
    (attach d s).valueDeclaration = (attach d s).declarations.findIdx? (·.kind.isValue) := by
  simp only [attach, List.findIdx?_append, ← h]
  cases hv : s.valueDeclaration <;> cases hd : d.kind.isValue <;> simp [hd]

/-- A property of fresh symbols that no call breaks. -/
structure Symbol.IsKept (P : Symbol → Prop) : Prop where
  fresh : ∀ name flags, P { name, flags }
  attach : ∀ {s} (d : Declaration), P s → P (GraphBuilder.attach d s)
  update : ∀ {s s' : Symbol}, P s → s'.declarations = s.declarations →
    s'.valueDeclaration = s.valueDeclaration → s'.flags = s.flags → s'.aliasOf = s.aliasOf → P s'
  aliasTo : ∀ {s} (target : SymbolId), P s →
    P { s with flags := s.flags ∪ SymbolFlags.aliasBit, aliasOf := some target }

namespace Symbol.IsKept

variable {P : Symbol → Prop} (hP : Symbol.IsKept P) {b b' : GraphBuilder}

include hP

theorem of_addSymbol (h : ∀ s ∈ b.graph.symbols, P s) (name : String) (flags : SymbolFlags) :
    ∀ s ∈ (b.addSymbol name flags).2.graph.symbols, P s := by
  intro s hs
  rcases Array.mem_push.mp hs with hs | rfl
  · exact h s hs
  · exact hP.fresh name flags

omit hP in
theorem of_modifySymbol (h : ∀ s ∈ b.graph.symbols, P s) {id : SymbolId} {f : Symbol → Symbol}
    (hf : ∀ s, P s → P (f s)) : ∀ s ∈ (b.modifySymbol id f).graph.symbols, P s := by
  intro s hs
  rcases GraphBuilder.mem_modify hs with hs | ⟨s₀, hs₀, rfl⟩
  · exact h s hs
  · exact hf s₀ (h s₀ (Array.mem_of_getElem? hs₀))

/-- One call keeps the property of every symbol. -/
theorem of_run (h : ∀ s ∈ b.graph.symbols, P s) (call : BuilderCall) :
    ∀ s ∈ (call.run b).2.graph.symbols, P s := by
  cases call with
  | addModule path => exact hP.of_addSymbol h _ _
  | addSymbol name flags => exact hP.of_addSymbol h name flags
  | declare id d => exact of_modifySymbol h fun _ hs => hP.attach d hs
  | aliasTo id target => exact of_modifySymbol h fun _ hs => hP.aliasTo target hs
  | exportAs | member | setType | setDoc =>
    exact of_modifySymbol h fun _ hs => hP.update hs rfl rfl rfl rfl
  | intrinsic flags display =>
    have heq : (b.intrinsic flags display).2.graph.symbols = b.graph.symbols := by
      unfold GraphBuilder.intrinsic
      split <;> rfl
    exact fun s hs => h s (heq ▸ hs)
  | reference symbol arguments =>
    have heq : (b.reference symbol arguments).2.graph.symbols = b.graph.symbols := by
      unfold GraphBuilder.reference
      dsimp only
      split <;> rfl
    exact fun s hs => h s (heq ▸ hs)
  | _ => exact h

theorem of_calls (h : ∀ s ∈ b.graph.symbols, P s) {calls : List BuilderCall}
    (hb : b.runAll? calls = some b') : ∀ s ∈ b'.graph.symbols, P s := by
  induction calls generalizing b with
  | nil =>
    cases hb
    exact h
  | cons call calls ih =>
    obtain ⟨r, hr, hrest⟩ := Option.bind_eq_some_iff.mp hb
    refine ih ?_ hrest
    unfold BuilderCall.run? at hr
    split at hr
    · cases hr
      exact hP.of_run h call
    · cases hr

theorem of_start : ∀ s ∈ GraphBuilder.start.graph.symbols, P s :=
  of_modifySymbol (hP.of_addSymbol (by simp) _ _) fun _ hs => hP.attach _ hs

/-- **Every symbol that was built by calls has the property.** -/
theorem of_runAll? {calls : List BuilderCall} (hb : GraphBuilder.start.runAll? calls = some b) :
    ∀ s ∈ b.graph.symbols, P s :=
  hP.of_calls hP.of_start hb

end Symbol.IsKept

end ApiDocs
