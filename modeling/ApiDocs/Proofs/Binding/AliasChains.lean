import ApiDocs.Proofs.Binding.TypePhase
import ApiDocs.Proofs.Extract.Identity
import ApiDocs.Proofs.Graph.Calls

/-!
# Where aliases lead

Linking and extraction both follow chains of aliases, each in its own way. Linking goes on while there
is a target, and stops before a symbol it has left already. Extraction goes on while a symbol is marked
as an alias, and fails at a symbol it has passed. If only marked symbols have targets, the two agree as
far as extraction does not fail.

So a type that is made of a name has the symbol that an export of the name leads to, and in the
documentation there is one reference for both.

## Main definitions

* `SymbolGraph.AliasesFlagged`: only symbols that are marked as aliases have targets.
* `Linking.aliasSteps`: the symbols of a chain, by the number of steps.
* `Linking.MadeThrough`: a type that was made of a name, and the symbol that the name leads to.
* `Linking.ChainsAgree`: linking and extraction agree on where aliases lead.

## Main results

* `Linking.chainsAgree`: they agree if only marked symbols have targets.
-/

namespace ApiDocs

/-! ## Marked symbols -/

theorem FlagSet.has_union_right {names : FlagNames} (a b : FlagSet names) : (a ∪ b).has b = true := by
  have hbits : (a.bits ||| b.bits) &&& b.bits = b.bits := by
    refine UInt32.toBitVec_inj.mp ?_
    ext i hi
    simpa using Or.inr
  exact beq_iff_eq.mpr hbits

/-- Only symbols that are marked as aliases have targets. -/
def SymbolGraph.AliasesFlagged (g : SymbolGraph) : Prop :=
  ∀ s ∈ g.symbols, s.aliasOf.isSome = true → s.isAlias = true

/-- A builder marks every symbol that it gives a target. -/
theorem Symbol.isKept_flagged :
    Symbol.IsKept fun s : Symbol => s.aliasOf.isSome = true → s.isAlias = true where
  fresh _ _ := by simp
  attach _ hs := hs
  update hs _ _ hflags halias := by simpa [Symbol.isAlias, hflags, halias] using hs
  aliasTo _ _ _ := FlagSet.has_union_right _ _

/-- A graph that was built by calls has no target that is not marked. -/
theorem GraphBuilder.aliasesFlagged_of_runAll? {calls : List BuilderCall} {b : GraphBuilder}
    (h : start.runAll? calls = some b) : b.graph.AliasesFlagged :=
  Symbol.isKept_flagged.of_runAll? h

namespace Linking

/-! ## Following a chain -/

section Follow

variable {b : GraphBuilder} {s t : SymbolId}

/-- The symbol of a chain after a number of steps, as far as there are targets. -/
def aliasSteps (b : GraphBuilder) : Nat → SymbolId → Option SymbolId
  | 0, s => some s
  | n + 1, s => (b.aliasOf s).bind (aliasSteps b n)

theorem followFrom_onChain (n : Nat) (seen : List SymbolId) :
    ∃ k ≤ n, aliasSteps b k s = some (followFrom b n seen s) := by
  induction n generalizing seen s with
  | zero => exact ⟨0, Nat.le_refl 0, rfl⟩
  | succ n ih =>
    have hhere : ∃ k ≤ n + 1, aliasSteps b k s = some s := ⟨0, Nat.zero_le _, rfl⟩
    unfold followFrom
    split
    next t ht =>
      split
      · exact hhere
      · obtain ⟨k, hk, hsteps⟩ := ih (s := t) (s :: seen)
        exact ⟨k + 1, Nat.succ_le_succ hk, by rw [aliasSteps, ht]; exact hsteps⟩
    next => exact hhere

theorem followFrom_of_aliasOf_eq_none (h : b.aliasOf s = none) (n : Nat) (seen : List SymbolId) :
    followFrom b n seen s = s := by
  cases n <;> simp [followFrom, h]

/-- What linking comes to where extraction has come to `r`: the same symbol, or the alias without a
target. -/
def EndsAs (b : GraphBuilder) (s : SymbolId) : Option SymbolId → Prop
  | some t => s = t
  | none => ∃ x, b.graph.symbol? s = some x ∧ x.isAlias = true ∧ x.aliasOf = none

/-- A chain that extraction follows without failure is followed to its end by linking. Both have passed
the same symbols; extraction also refuses the present one as the next. -/
theorem followFrom_endsAs (hflagged : b.graph.AliasesFlagged) {name : String} {limit hops : Nat}
    {passed : List SymbolId} {r : Option SymbolId}
    (h : b.graph.followAlias name limit hops passed s = .ok r) :
    EndsAs b (followFrom b hops passed s) r := by
  induction hops generalizing passed s with
  | zero =>
    cases SymbolGraph.leadsTo_of_followAlias h with
    | here => rfl
    | nowhere hs ha =>
      rw [SymbolGraph.followAlias_zero hs ha] at h
      cases h
    | hop hs ha =>
      rw [SymbolGraph.followAlias_zero hs ha] at h
      cases h
  | succ hops ih =>
    cases SymbolGraph.leadsTo_of_followAlias h with
    | @here _ x hs ha =>
      -- A symbol that is not marked has no target, so linking stays.
      have hnone : b.aliasOf s = none := by
        have htarget := hflagged x (Array.mem_of_getElem? hs)
        rw [ha] at htarget
        simpa [GraphBuilder.aliasOf, hs] using htarget
      rw [followFrom_of_aliasOf_eq_none hnone]
      rfl
    | @nowhere _ x hs ha ht =>
      have hnone : b.aliasOf s = none := by simp [GraphBuilder.aliasOf, hs, ht]
      rw [followFrom_of_aliasOf_eq_none hnone]
      exact ⟨x, hs, ha, ht⟩
    | @hop _ target x _ hs ha ht =>
      have htarget : b.aliasOf s = some target := by simp [GraphBuilder.aliasOf, hs, ht]
      by_cases hmem : target ∈ s :: passed
      · exact absurd h (SymbolGraph.followAlias_ne_ok_of_mem hs ha ht hmem)
      · rw [SymbolGraph.followAlias_of_notMem hs ha ht hmem] at h
        have hpassed : target ∉ passed := fun hp => hmem (List.mem_cons_of_mem s hp)
        simpa only [followFrom, htarget, hpassed, if_false] using ih h

theorem followAlias_endsAs (hflagged : b.graph.AliasesFlagged) {name : String} {r : Option SymbolId}
    (h : b.graph.resolveAlias maxAliasChain name s = .ok r) : EndsAs b (followAlias b s) r :=
  followFrom_endsAs hflagged h

end Follow

/-! ## Types that carry a symbol -/

/-- The type is there and has the symbol. -/
def Carries (s : SymbolId) (t : TypeId) (l : Linking) : Prop :=
  ∃ x, l.builder.typeCore? t = some x ∧ x.symbol = some s

section Carry

variable {l : Linking} {s : SymbolId} {t : TypeId}

theorem Carries.keep {L : Linking} (h : Carries s t l) (hL : l.Keeps L) : Carries s t L := by
  obtain ⟨x, hx, hsymbol⟩ := h
  exact ⟨x, hL.builder.type hx, hsymbol⟩

theorem carries_of_plain {node : TypeNode} (h : l.builder.HasForm (.plain node) t)
    (hsymbol : node.symbol = some s) : Carries s t l := by
  rw [TypeForm.plain, GraphBuilder.HasForm] at h
  obtain ⟨x, hx, rfl, -⟩ := h
  exact ⟨x, hx, hsymbol⟩

theorem addType_carries {n : GraphBuilder → TypeNode} (hl : l.Orderly)
    (h : growth.Runs (build fun b => b.addType (n b)) l TypeThere)
    (hsymbol : (n l.builder).symbol = some s) :
    making.Runs (build fun b => b.addType (n b)) l (Carries s) :=
  (addType_making hl h).mono fun _ _ ht => ⟨_, ht.2, hsymbol⟩

theorem instanceType_carries (hl : l.Orderly) (hs : s.Within l.extent) :
    making.Runs (instanceType s) l (Carries s) := by
  have hmade := instanceType_takesForm (C := fun _ => True) hl hs
  exact ⟨hmade.good, hmade.le, carries_of_plain (hmade.post.form _ (.refl _) trivial) rfl⟩

theorem parameterType_carries (hl : l.Orderly) (hs : s.Within l.extent) :
    making.Runs (parameterType s) l (Carries s) := by
  have hmade := parameterType_takesForm (C := fun _ => True) hl hs
  exact ⟨hmade.good, hmade.le, carries_of_plain (hmade.post.form _ (.refl _) trivial) rfl⟩

theorem reference_carries (hl : l.Orderly) (hs : s.Within l.extent) {ts : List TypeId} (hne : ts ≠ [])
    (hts : ∀ t ∈ ts, t.Within l.extent) :
    making.Runs (build (·.reference s ts)) l (Carries s) := by
  obtain ⟨t, rest, rfl⟩ := List.exists_cons_of_ne_nil hne
  exact addType_carries hl (build_runs hl.sound (GraphBuilder.reference_runs hl.sound.builder hs hts)) rfl

/-- A class or interface with arguments has the symbol of it, an array that of the library. -/
theorem instantiate_carries (hl : l.Orderly) (hs : s.Within l.extent) {ts : List TypeId}
    (hts : ∀ t ∈ ts, t.Within l.extent) : making.Runs (instantiate s ts) l (Carries s) := by
  match ts, hts with
  | [], _ => exact instanceType_carries hl hs
  | [element], hts =>
    rw [instantiate]
    split
    next harray =>
      have helement := hts element (by simp)
      exact addType_carries hl (build_runs hl.sound (GraphBuilder.arrayOf_runs hl.sound.builder helement))
        (by rw [harray])
    next => exact reference_carries hl hs (by simp) hts
  | _ :: _ :: _, hts => exact reference_carries hl hs (by simp) hts

/-- The type of an enum has the symbol of the enum. -/
theorem known_carries (hl : l.Orderly) (hm : l.meaningOf s = .known t)
    (hnumber : l.builder.typeCore? t ≠ some numberNode) : Carries s t l := by
  obtain ⟨x, hx, hsymbol | rfl⟩ := hl.enumTypes (enumTypes_of_known hm)
  · exact ⟨x, hx, hsymbol⟩
  · exact absurd hx hnumber

end Carry

/-- The symbol is that of a declared type: of a class, an interface, a type parameter, an enum or a
member of an enum. A member whose value is not known is just a number, and not meant here. -/
def IsDeclaredType (L : Linking) (s : SymbolId) : Prop :=
  L.meaningOf s = .instantiable ∨ L.meaningOf s = .parameter ∨
    ∃ t, L.meaningOf s = .known t ∧ L.builder.typeCore? t ≠ some numberNode

/-- **A type that is made of a name has the symbol at the end of its aliases**, if that is one of a
declared type. -/
theorem reference_carriesTarget {l : Linking} (hl : l.Orderly) {written : String} {ref : NameRef}
    {arguments : List TypeExpr} (hin : (TypeExpr.reference written ref arguments).Within l.extent) :
    making.Runs (materialize (.reference written ref arguments)) l fun t l' => ∀ L, l'.Keeps L →
      ∀ s, L.target? ref = some s → L.IsDeclaredType s → Carries s t L := by
  rw [materialize]
  refine reference_runs id (resolveType_making hl ref) (fun l₁ hl₁ _ hnone => ?_) fun l₁ s m hl₁ hle₁ hrefers => ?_
  · have hmade := anonymous_takesForm (C := fun _ => True) hl₁ written
    refine ⟨hmade.good, hmade.le, fun L hL s hs => ?_⟩
    rw [hnone L (hmade.le.2.trans hL)] at hs
    cases hs
  suffices h : making.Runs (makeAs (expandAlias maxExpansion) written arguments s m) l₁
      fun t l' => l₁.IsDeclaredType s → Carries s t l' by
    obtain ⟨hgood, hle, hpost⟩ := h
    refine ⟨hgood, hle, fun L hL s' hs' hdeclared => ?_⟩
    have hL₁ := hle.2.trans hL
    obtain rfl := Option.some.inj ((hrefers.target L hL₁).symm.trans hs')
    refine (hpost ?_).keep hL
    rw [IsDeclaredType, hrefers.meaning L hL₁, ← hrefers.now] at hdeclared
    refine hdeclared.imp_right (Or.imp_right ?_)
    rintro ⟨t, ht, hnumber⟩
    refine ⟨t, ht, ?_⟩
    rwa [hL₁.builder.typeCore?_eq (meaningOf_known hl₁.sound ht)] at hnumber
  have hm := hrefers.now
  cases m with
  | known t =>
    refine Growth.runs_pure hl₁ fun hdeclared => known_carries hl₁ hm ?_
    simpa [IsDeclaredType, hm] using hdeclared
  | instantiable =>
    have hfits : l₁.AllFit maxExpansion arguments := fun L _ hnest => allUse_of_forall hnest arguments
    have hin₁ := TypeExpr.AllWithin.mono hle₁.1.1 hin
    refine (materializeAll_takeForms (expandAlias_expandsTo maxExpansion) hl₁ arguments hin₁ hfits).bind
      fun ts l₂ hl₂ hle₂ hts => ?_
    exact (instantiate_carries hl₂ (hrefers.within.mono hle₂.1.1) hts.within).mono fun _ _ h _ => h
  | parameter => exact (parameterType_carries hl₁ hrefers.within).mono fun _ _ h _ => h
  | expandable =>
    have hexpand := expandAlias_expandsTo maxExpansion s written l₁ hl₁ fun L _ hnest => hnest s
    refine hexpand.mono fun _ _ _ hdeclared => ?_
    simp [IsDeclaredType, hm] at hdeclared
  | value =>
    refine (anonymous_takesForm (C := fun _ => True) hl₁ written).mono fun _ _ _ hdeclared => ?_
    simp [IsDeclaredType, hm] at hdeclared

end Linking

/-! ## References -/

/-- The symbol that a type of the shape is a reference to. -/
def TypeShape.referent? : TypeShape → Option SymbolId
  | .enumUnion s | .reference s _ => some s
  | _ => none

theorem TypeNode.referenceShape_referent? {x : TypeNode} {arguments : List TypeId} {s : SymbolId}
    (h : (x.referenceShape arguments).referent? = some s) : x.symbol = some s := by
  unfold referenceShape at h
  split at h
  next s' hs' => exact hs'.trans h
  next => cases h

/-- A type can only be a reference to its own symbol. -/
theorem TypeNode.shape_referent? {x : TypeNode} {s : SymbolId} (h : x.shape.referent? = some s) :
    x.symbol = some s := by
  unfold shape at h
  split at h
  · unfold enumShape at h
    split at h
    · split at h
      next s' hs' => exact hs'.trans h
      next => cases h
    · split at h <;> cases h
  split at h
  · cases h
  split at h
  · unfold instantiationShape at h
    split at h
    · split at h
      · cases h
      · exact referenceShape_referent? h
    · exact referenceShape_referent? h
  split at h
  · exact referenceShape_referent? h
  split at h
  · cases h
  split at h
  · cases h
  split at h <;> cases h

namespace SymbolGraph

variable {g : SymbolGraph} {o : ExtractOptions} {refs : RefTable SymbolId} {doc : Documentation}

/-- A type that is described as a reference has the symbol that the reference is for. -/
theorem Described.symbol_of_ref {levels : Nat} {id : TypeId} {r : RefId} {xs : List TypeDoc}
    (h : g.Described refs levels id (.ref r xs)) :
    ∃ x s, g.type? id = some x ∧ x.symbol = some s ∧ refs.Has s r := by
  cases levels with
  | zero =>
    obtain ⟨x, -, hx⟩ := h
    cases hx
  | succ levels =>
    obtain ⟨x, hx, h⟩ := h
    split at h
    next s hshape =>
      obtain ⟨r', hr, heq⟩ := h
      cases heq
      exact ⟨x, s, hx, TypeNode.shape_referent? (by rw [hshape]; rfl), hr⟩
    next => cases h
    next => cases h
    next =>
      obtain ⟨_, -, heq⟩ := h
      cases heq
    next s arguments hshape =>
      obtain ⟨r', xs', hr, -, heq⟩ := h
      cases heq
      exact ⟨x, s, hx, TypeNode.shape_referent? (by rw [hshape]; rfl), hr⟩
    next => cases h
    next =>
      obtain ⟨_, -, heq⟩ := h
      cases heq
    next =>
      obtain ⟨_, -, heq⟩ := h
      cases heq
    next => cases h

/-- The reference is that of the symbol, and it leads to the class or enum that exports of the symbol
have in their records. -/
structure SharesReference (g : SymbolGraph) (o : ExtractOptions) (refs : RefTable SymbolId)
    (doc : Documentation) (s : SymbolId) (r : RefId) : Prop where
  has : refs.Has s r
  named : ∃ d, doc.ref? r = some d ∧ d.name = (g.symbolAt s).name
  class_eq : ∀ {i : Nat} {m : ModuleDoc} {c : ClassId}, (g.documented o)[i]? = some s →
    doc.modules[i]? = some m → m.Lists c → (doc.ref? r).bind (·.target) = some (.toClass c)
  enum_eq : ∀ {i : Nat} {m : ModuleDoc} {e : EnumId}, (g.documented o)[i]? = some s →
    doc.modules[i]? = some m → e ∈ m.enumList → (doc.ref? r).bind (·.target) = some (.toEnum e)

theorem Documents.sharesReference (h : g.Documents o refs doc) {s : SymbolId} {r : RefId}
    (hr : refs.Has s r) : g.SharesReference o refs doc s r := by
  obtain ⟨-, d, hd, hname, htarget⟩ := h.record hr
  have hbuilt : ∀ {x}, refs.Built s x → (doc.ref? r).bind (·.target) = some x := by
    intro x hx
    rw [hd, Option.bind_some]
    exact (htarget x).mpr hx
  refine ⟨hr, ⟨d, hd, hname⟩, ?_, ?_⟩
  · intro i m c hi hm hc
    obtain ⟨s', hs', hb⟩ := (h.moduleOf hi hm).exists_symbol_of_class hc
    rw [List.mem_singleton.mp hs'] at hb
    exact hbuilt hb
  · intro i m e hi hm he
    obtain ⟨s', hs', hb⟩ := (h.moduleOf hi hm).exists_symbol_of_enum he
    rw [List.mem_singleton.mp hs'] at hb
    exact hbuilt hb

end SymbolGraph

/-! ## Agreement -/

namespace Linking

/-- The type was made of a name some time before, and extraction follows the name to the symbol. -/
inductive MadeThrough (L : Linking) (limit : Nat) : TypeId → SymbolId → Prop where
  | reference {l : Linking} {written : String} {ref : NameRef} {arguments : List TypeExpr}
    {s t : SymbolId} {name : String} : l.Orderly →
    (TypeExpr.reference written ref arguments).Within l.extent →
    (materialize (.reference written ref arguments) l).2.Keeps L →
    L.lookup? ref = some s → L.builder.graph.resolveAlias limit name s = .ok (some t) →
    MadeThrough L limit (materialize (.reference written ref arguments) l).1 t

/-- Linking and extraction agree on where aliases lead. -/
structure ChainsAgree (L : Linking) (o : ExtractOptions) : Prop where
  resolved : ∀ {s t name}, L.builder.graph.resolveAlias o.maxAliasDepth name s = .ok (some t) →
    followAlias L.builder s = t
  unresolved : ∀ {s name}, L.builder.graph.resolveAlias o.maxAliasDepth name s = .ok none →
    ∃ x, L.builder.graph.symbol? (followAlias L.builder s) = some x ∧ x.isAlias = true ∧ x.aliasOf = none
  /-- Whether or not a chain comes back to itself, linking stays on it. -/
  onChain : ∀ s, ∃ n ≤ maxAliasChain, aliasSteps L.builder n s = some (followAlias L.builder s)
  /-- A type that is made of a name has the symbol that an export of the name leads to. -/
  carried : ∀ {type t}, L.MadeThrough o.maxAliasDepth type t → L.IsDeclaredType t →
    ∃ x, L.builder.graph.type? type = some x ∧ x.symbol = some t
  /-- Wherever such a type is described as a reference, it is the reference of that symbol. -/
  shared : L.builder.graph.Valid → ∀ {doc}, L.builder.graph.extract o = .ok doc →
    ∃ refs, L.builder.graph.Documents o refs doc ∧
      ∀ {type t levels r arguments}, L.MadeThrough o.maxAliasDepth type t → L.IsDeclaredType t →
        L.builder.graph.Described refs levels type (.ref r arguments) →
        L.builder.graph.SharesReference o refs doc t r

variable {L : Linking} {o : ExtractOptions}

theorem MadeThrough.exists_symbol (hflagged : L.builder.graph.AliasesFlagged) {type : TypeId}
    {t : SymbolId} (h : L.MadeThrough maxAliasChain type t) (ht : L.IsDeclaredType t) :
    ∃ x, L.builder.graph.type? type = some x ∧ x.symbol = some t := by
  cases h with
  | @reference l written ref arguments s _ name hl hin hkeeps hlookup hresolve =>
    have htarget : L.target? ref = some t := by
      rw [target?, hlookup, Option.map_some]
      exact congrArg some (followAlias_endsAs hflagged hresolve)
    obtain ⟨x, hx, hsymbol⟩ := (reference_carriesTarget hl hin).post L hkeeps t htarget ht
    obtain ⟨y, hy, rfl⟩ := Option.map_eq_some_iff.mp hx
    exact ⟨y, hy, hsymbol⟩

/-- **Linking and extraction agree on where aliases lead**, if only marked symbols have targets and
both follow chains as far. -/
theorem chainsAgree (hflagged : L.builder.graph.AliasesFlagged)
    (hlimit : o.maxAliasDepth = maxAliasChain) : L.ChainsAgree o := by
  refine ⟨?_, ?_, fun s => followFrom_onChain maxAliasChain [], ?_, ?_⟩
  · intro s t name h
    rw [hlimit] at h
    exact followAlias_endsAs hflagged h
  · intro s name h
    rw [hlimit] at h
    exact followAlias_endsAs hflagged h
  · intro type t h ht
    rw [hlimit] at h
    exact h.exists_symbol hflagged ht
  · intro hvalid doc hdoc
    obtain ⟨refs, hdocuments⟩ := SymbolGraph.exists_documents hvalid hdoc
    refine ⟨refs, hdocuments, fun {type t levels r arguments} h ht hd => ?_⟩
    rw [hlimit] at h
    obtain ⟨x, hx, hsymbol⟩ := h.exists_symbol hflagged ht
    obtain ⟨y, s, hy, hs, hr⟩ := hd.symbol_of_ref
    obtain rfl := Option.some.inj (hx.symm.trans hy)
    obtain rfl := Option.some.inj (hsymbol.symm.trans hs)
    exact hdocuments.sharesReference hr

/-! ## A class that is exported again -/

/-- A module exports a class, a second one exports it again, and a third one exports a variable. -/
def reexportingCalls : List BuilderCall := [
  .addModule "a.ts", .addSymbol "C" SymbolFlags.classBit,
  .declare ⟨2⟩ { kind := .classDecl, pos := default }, .exportAs ⟨1⟩ "C" ⟨2⟩,
  .addModule "b.ts", .addSymbol "D" .none, .aliasTo ⟨4⟩ ⟨2⟩, .exportAs ⟨3⟩ "D" ⟨4⟩,
  .addModule "c.ts", .addSymbol "x" SymbolFlags.variableBit,
  .declare ⟨6⟩ { kind := .variableDecl, pos := default }, .exportAs ⟨5⟩ "x" ⟨6⟩]

/-- The name of the class, as the third module imports it from the second one. -/
def importedName : NameRef := .bound ⟨2, 0, "D"⟩

/-- The imported name means the alias, and no types were made yet. -/
def reexporting : Linking where
  builder := (GraphBuilder.start.runAll? reexportingCalls).getD {}
  modules := .empty
  locals := .ofList [(⟨2, 0, "D"⟩, ⟨4⟩)]
  globals := .ofList [("Array", GraphBuilder.arraySymbol)]
  typeAliases := .empty

/-- The type of the imported name. -/
def importedType : TypeId := (materialize (.reference "D" importedName []) reexporting).1

/-- The type of the imported name was made, and the variable has it. -/
def reexported : Linking :=
  let l := (materialize (.reference "D" importedName []) reexporting).2
  { l with builder := l.builder.setType ⟨6⟩ importedType }

theorem reexporting_blank : reexporting.Blank := by
  refine blank_of_valid (by decide) ?_ (by decide) (by simp) (by decide)
    (by decide) (by simp)
  change 0 < reexporting.builder.graph.symbols.size
  decide

theorem reexported_flagged : reexported.builder.graph.AliasesFlagged := by
  have hcalls : GraphBuilder.start.runAll?
      (reexportingCalls ++ [.reference ⟨2⟩ [], .setType ⟨6⟩ ⟨0⟩]) = some reexported.builder := by
    decide
  exact GraphBuilder.aliasesFlagged_of_runAll? hcalls

theorem reexported_madeThrough : reexported.MadeThrough maxAliasChain importedType ⟨2⟩ := by
  have hkeeps : (materialize (.reference "D" importedName []) reexporting).2.Keeps reexported :=
    .of_builder (.modifySymbol fun _ => rfl)
  have hresolve : reexported.builder.graph.resolveAlias maxAliasChain "D" ⟨4⟩ = .ok (some ⟨2⟩) := by
    decide
  have hin : (TypeExpr.reference "D" importedName []).Within reexporting.extent := by
    simp [TypeExpr.Within, TypeExpr.AllWithin]
  have hlookup : reexported.lookup? importedName = some ⟨4⟩ := by decide
  exact .reference reexporting_blank.prepared.orderly hin hkeeps hlookup hresolve

theorem extract_reexported : ∃ doc, reexported.builder.graph.extract {} = .ok doc := by
  have hfiles : reexported.builder.graph.ownFiles.filter (reexported.builder.graph.accepts {}) =
      [⟨"a.ts", some ⟨1⟩⟩, ⟨"b.ts", some ⟨3⟩⟩, ⟨"c.ts", some ⟨5⟩⟩] := by decide
  have hfirst : reexported.builder.graph.sortedExports ⟨"a.ts", some ⟨1⟩⟩ = .ok [("C", ⟨2⟩)] :=
    SymbolGraph.sortedExports_eq_singleton (by decide)
  have hsecond : reexported.builder.graph.sortedExports ⟨"b.ts", some ⟨3⟩⟩ = .ok [("D", ⟨4⟩)] :=
    SymbolGraph.sortedExports_eq_singleton (by decide)
  have hthird : reexported.builder.graph.sortedExports ⟨"c.ts", some ⟨5⟩⟩ = .ok [("x", ⟨6⟩)] :=
    SymbolGraph.sortedExports_eq_singleton (by decide)
  have hok : (reexported.builder.graph.extract {}).isOk = true := by
    simp only [SymbolGraph.extract, hfiles, List.mapM_cons, List.mapM_nil, SymbolGraph.documentFile,
      hfirst, hsecond, hthird]
    decide +kernel
  cases hdoc : reexported.builder.graph.extract {} with
  | ok doc => exact ⟨doc, rfl⟩
  | error e =>
    rw [hdoc] at hok
    cases hok

/-- A variable whose type is imported through an alias, and the class that is exported under two
names. -/
theorem reexported_chainsAgree :
    reexported.ChainsAgree {} ∧ reexported.MadeThrough maxAliasChain importedType ⟨2⟩ ∧
      reexported.IsDeclaredType ⟨2⟩ ∧ reexported.builder.graph.Valid ∧
      ∃ doc, reexported.builder.graph.extract {} = .ok doc :=
  ⟨chainsAgree reexported_flagged rfl, reexported_madeThrough, .inl (by decide),
    by decide, extract_reexported⟩

end Linking

end ApiDocs
