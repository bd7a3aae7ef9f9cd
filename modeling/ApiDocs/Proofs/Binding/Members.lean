import ApiDocs.Proofs.Binding.Draft

/-!
# Reading members keeps drafts sound

Whatever a parameter, a method or a property looks like and whatever its names mean, reading it into a
sound draft gives a sound draft. There is one lemma for each kind of syntax. All they need of a place in
a file is that the class or interface it is in is there; what names refer to is only noted, and does
not matter yet.

## Main definitions

* `Site.Within`: the class or interface around a place is there.
-/

namespace ApiDocs

open TypeScript
open GraphDraft

/-! ## Type expressions -/

namespace TypeExpr

variable {e : Extent}

theorem Within.widened {t : TypeExpr} (h : t.Within e) : t.widened.Within e := by
  unfold TypeExpr.widened
  split
  · trivial
  · trivial
  · trivial
  · exact h

theorem mem_distinct {ts : List TypeExpr} {t : TypeExpr} (h : t ∈ distinct ts) : t ∈ ts := by
  have hloop : ∀ (us kept : List TypeExpr),
      t ∈ us.foldl (fun kept t => if kept.any (same · t) then kept else kept ++ [t]) kept →
      t ∈ kept ∨ t ∈ us := by
    intro us
    induction us with
    | nil => exact fun kept h => .inl h
    | cons u us ih =>
      intro kept h
      rcases ih _ h with h | h
      · dsimp only at h
        split at h
        · exact .inl h
        · rcases List.mem_append.mp h with h | h
          · exact .inl h
          · rw [List.mem_singleton.mp h]
            exact .inr (by simp)
      · exact .inr (by simp [h])
  simpa using hloop ts [] h

theorem unionOf_within {ts : List TypeExpr} (h : ∀ t ∈ ts, t.Within e) : (unionOf ts).Within e := by
  have hdistinct : ∀ t ∈ distinct ts, t.Within e := fun t ht => h t (mem_distinct ht)
  unfold unionOf
  split
  · trivial
  next t heq => exact hdistinct t (by simp [heq])
  · exact allWithin_iff.mpr hdistinct

end TypeExpr

namespace Site

/-- The class or interface around the place is there. -/
def Within (site : Site) (e : Extent) : Prop := ∀ s ∈ site.owner, s.Within e

theorem Within.mono {site : Site} {e e' : Extent} (h : e.Le e') (hsite : site.Within e) :
    site.Within e' :=
  fun s hs => (hsite s hs).mono h

variable {site : Site} {e : Extent}

theorem Within.inside (hsite : site.Within e) (frame : ScopeFrame) : (site.inside frame).Within e :=
  hsite

theorem within_within {owner : SymbolId} (h : owner.Within e) : (site.within owner).Within e := by
  intro s hs
  cases hs
  exact h

mutual

theorem typeExpr_within (h : site.Within e) : ∀ t : TypeTree, (site.typeExpr t).Within e
  | .keyword _ => by simp [typeExpr, TypeExpr.Within]
  | .text _ => by simp [typeExpr, TypeExpr.Within]
  | .number _ => by simp [typeExpr, TypeExpr.Within]
  | .boolean _ => by simp [typeExpr, TypeExpr.Within]
  | .reference _ _ ts => by simpa [typeExpr, TypeExpr.Within] using typeExprs_within h ts
  | .array t => by simpa [typeExpr, TypeExpr.Within] using typeExpr_within h t
  | .union ts => by simpa [typeExpr, TypeExpr.Within] using typeExprs_within h ts
  | .intersection ts => by simpa [typeExpr, TypeExpr.Within] using typeExprs_within h ts
  | .tuple elements => by simp [typeExpr, TypeExpr.Within, TypeExpr.allWithin_iff]
  | .this => by simpa [typeExpr, TypeExpr.Within, Within] using h
  | .verbatim _ => by simp [typeExpr, TypeExpr.Within]

theorem typeExprs_within (h : site.Within e) :
    ∀ ts : List TypeTree, TypeExpr.AllWithin e (site.typeExprs ts)
  | [] => by simp [typeExprs, TypeExpr.AllWithin]
  | t :: ts => by
    simpa [typeExprs, TypeExpr.AllWithin] using ⟨typeExpr_within h t, typeExprs_within h ts⟩

end

theorem keep_within (literal : Bool) {t : TypeExpr} (h : t.Within e) :
    (keep literal t).Within e := by
  unfold keep
  split
  · exact h
  · exact h.widened

mutual

theorem infer?_within (h : site.Within e) (literal : Bool) :
    ∀ x : Expr, ∀ t ∈ site.infer? literal x, t.Within e
  | .text v => by simpa [infer?] using keep_within literal (t := .text v) trivial
  | .number v => by simpa [infer?] using keep_within literal (t := .number v) trivial
  | .negative v => by simpa [infer?] using keep_within literal (t := .number v.neg) trivial
  | .boolean v => by simpa [infer?] using keep_within literal (t := .boolean v) trivial
  | .null => by simp [infer?, TypeExpr.Within]
  | .template => by simp [infer?, TypeExpr.Within]
  | .array elements => by
    simpa [infer?, TypeExpr.Within] using TypeExpr.unionOf_within (inferAll_within h elements)
  | .instanceOf _ => by simp [infer?, TypeExpr.Within, TypeExpr.AllWithin]
  | .arrow .. => by simp [infer?, TypeExpr.Within]
  | .parens x => by simpa [infer?] using infer?_within h literal x
  | .cast t => by simpa [infer?] using typeExpr_within h t
  | .name _ => by simp [infer?]
  | .other => by simp [infer?]

theorem inferAll_within (h : site.Within e) : ∀ xs : List Expr, ∀ t ∈ site.inferAll xs, t.Within e
  | [] => by simp [inferAll]
  | x :: xs => by
    intro t ht
    rcases List.mem_append.mp ht with ht | ht
    · exact infer?_within h false x t (by simpa using ht)
    · exact inferAll_within h xs t ht

end

theorem getD_any_within {o : Option TypeExpr} (h : ∀ t ∈ o, t.Within e) : (o.getD .any).Within e := by
  cases o with
  | none => simp [TypeExpr.any, TypeExpr.Within]
  | some t => exact h t rfl

theorem bind_infer?_within (hsite : site.Within e) (literal : Bool) (value : Option Expr) :
    ∀ t ∈ value.bind (site.infer? literal), t.Within e := by
  intro t ht
  obtain ⟨x, -, hx⟩ := Option.bind_eq_some_iff.mp ht
  exact infer?_within hsite literal x t hx

theorem map_typeExpr_within (hsite : site.Within e) (type : Option TypeTree) :
    ∀ t ∈ type.map site.typeExpr, t.Within e := by
  intro t ht
  obtain ⟨x, -, rfl⟩ := Option.map_eq_some_iff.mp ht
  exact typeExpr_within hsite x

/-! ## Scopes and parameters -/

variable {d : GraphDraft} {symbol owner : SymbolId}

theorem declare_runs (hd : d.Sound) (site : Site) (symbol : SymbolId) (kind : DeclarationKind)
    (span : Span) (modifiers : ModifierFlags) :
    growth.Runs (site.declare symbol kind span modifiers) d Anything :=
  build_runs hd (GraphBuilder.declare_runs hd.builder ⟨by simp, by simp⟩)

theorem enter_runs (hd : d.Sound) (hsite : site.Within d.extent) (bound : List Bound) :
    growth.Runs (site.enter bound) d fun inner d' => inner.Within d'.extent := by
  refine (freshScope_runs hd).bind fun scope d' hd' hle _ => ?_
  exact Growth.runs_pure hd' ((hsite.mono hle.1).inside _)

theorem bindLocal_runs (hd : d.Sound) (site : Site) (name : String) (hs : symbol.Within d.extent) :
    growth.Runs (site.bindLocal name symbol) d Anything := by
  unfold bindLocal
  split
  · exact GraphDraft.bindLocal_runs hd _ hs
  · exact Growth.runs_pure hd trivial

theorem typeParameters_runs (hd : d.Sound) (site : Site) (ps : List TypeParameter) :
    growth.Runs (site.typeParameters ps) d Anything := by
  refine Growth.runs_forM hd fun p _ d' hd' _ => ?_
  refine (addSymbol_runs hd' _ _).bind fun symbol d₁ hd₁ _ hs => ?_
  refine (declare_runs hd₁ _ _ _ _ _).discard.bind fun _ d₂ hd₂ hle _ => ?_
  exact bindLocal_runs hd₂ site p.name (hs.mono hle.1)

/-- What parameters of both kinds start with: a symbol, its declaration, its binding and its
documentation. -/
theorem parameterSymbol_runs (hd : d.Sound) (site : Site) (name doc : String) (flags : SymbolFlags)
    (span : Span) (single : Bool) {α : Type} {rest : SymbolId → Drafting α}
    {P : α → GraphDraft → Prop}
    (hrest : ∀ symbol d', d'.Sound → growth.Le d d' → symbol.Within d'.extent →
      growth.Runs (rest symbol) d' P) :
    growth.Runs (do
      let symbol ← build (·.addSymbol name flags)
      discard (site.declare symbol .parameter span .none)
      if single then site.bindLocal name symbol
      attachDoc symbol doc
      rest symbol) d P := by
  refine (addSymbol_runs hd name flags).bind fun symbol d₁ hd₁ hle₁ hs₁ => ?_
  refine (declare_runs hd₁ _ _ _ _ _).discard.bind fun _ d₂ hd₂ hle₂ _ => ?_
  have hs₂ : symbol.Within d₂.extent := hs₁.mono hle₂.1
  have hdoc : ∀ d₃, d₃.Sound → growth.Le d₂ d₃ →
      growth.Runs (do attachDoc symbol doc; rest symbol) d₃ P := by
    intro d₃ hd₃ hle₃
    refine (attachDoc_runs hd₃ symbol doc).bind fun _ d₄ hd₄ hle₄ _ => ?_
    have hle := growth.trans hle₃ hle₄
    exact hrest symbol d₄ hd₄ (growth.trans hle₁ (growth.trans hle₂ hle)) (hs₂.mono hle.1)
  cases single with
  | true => exact (bindLocal_runs hd₂ site name hs₂).bind fun _ d₃ hd₃ hle₃ _ => hdoc d₃ hd₃ hle₃
  | false => exact hdoc d₂ hd₂ (growth.refl d₂)

theorem parameter_runs (hd : d.Sound) (hsite : site.Within d.extent) (doc : DocComment)
    (owner : Option SymbolId) (position : Nat) (p : Parameter) :
    growth.Runs (site.parameter doc owner position p) d SymbolThere := by
  refine parameterSymbol_runs hd site (parameterName p.pattern position) _ _ _ _ ?_
  intro symbol d₁ hd₁ hle₁ hs₁
  have hsite₁ := hsite.mono hle₁.1
  refine (noteType_runs hd₁ symbol ?_).bind fun _ d₂ hd₂ hle₂ _ => ?_
  · split
    · exact typeExpr_within hsite₁ _
    · exact getD_any_within (bind_infer?_within hsite₁ false p.default)
  have hs₂ : symbol.Within d₂.extent := hs₁.mono hle₂.1
  cases owner with
  | none => exact Growth.runs_pure hd₂ hs₂
  | some owner =>
    dsimp only
    split
    · refine (bindMember_runs hd₂ owner _ _ _).bind fun property d₃ hd₃ hle₃ _ => ?_
      refine (declare_runs hd₃ _ _ _ _ _).discard.bind fun _ d₄ hd₄ hle₄ _ => ?_
      refine (attachDoc_runs hd₄ _ _).bind fun _ d₅ hd₅ hle₅ _ => ?_
      have hle : growth.Le d₂ d₅ := growth.trans hle₃ (growth.trans hle₄ hle₅)
      have hsite₅ := hsite₁.mono (growth.trans hle₂ hle).1
      refine (noteType_runs hd₅ property ?_).bind fun _ d₆ hd₆ hle₆ _ => ?_
      · split
        · exact typeExpr_within hsite₅ _
        · exact getD_any_within (bind_infer?_within hsite₅ false p.default)
      exact Growth.runs_pure hd₆ (hs₂.mono (growth.trans hle hle₆).1)
    · exact Growth.runs_pure hd₂ hs₂

theorem restParameter_runs (hd : d.Sound) (hsite : site.Within d.extent) (doc : DocComment)
    (position : Nat) (p : RestParameter) :
    growth.Runs (site.restParameter doc position p) d SymbolThere := by
  refine parameterSymbol_runs hd site (parameterName p.pattern position) _ _ _ _ ?_
  intro symbol d₁ hd₁ hle₁ hs₁
  have htype : ((p.type.map site.typeExpr).getD (.array .any)).Within d₁.extent := by
    cases h : p.type with
    | none => simp [TypeExpr.Within, TypeExpr.any]
    | some t => exact typeExpr_within (hsite.mono hle₁.1) t
  exact (noteType_runs hd₁ symbol htype).handBack (within_stable symbol) hs₁

theorem parameters_runs (hd : d.Sound) (hsite : site.Within d.extent) (ps : Parameters)
    (doc : DocComment) (owner : Option SymbolId) :
    growth.Runs (site.parameters ps doc owner) d fun ids d' => ∀ s ∈ ids, s.Within d'.extent := by
  have hitems : growth.Runs (ps.items.zipIdx.mapM fun x => site.parameter doc owner x.2 x.1) d
      fun ids d' => ∀ s ∈ ids, s.Within d'.extent :=
    Growth.runs_mapM hd within_stable fun x _ d' hd' hle =>
      parameter_runs hd' (hsite.mono hle.1) doc owner x.2 x.1
  refine hitems.bind fun items d₁ hd₁ hle₁ hitems => ?_
  have hrest : growth.Runs (ps.rest.toList.mapM (site.restParameter doc ps.items.length)) d₁
      fun ids d' => ∀ s ∈ ids, s.Within d'.extent :=
    Growth.runs_mapM hd₁ within_stable fun p _ d' hd' hle =>
      restParameter_runs hd' (hsite.mono (growth.trans hle₁ hle).1) doc _ p
  refine hrest.bind fun rest d₂ hd₂ hle₂ hrest => Growth.runs_pure hd₂ fun s hs => ?_
  rcases List.mem_append.mp hs with hs | hs
  · exact (hitems s hs).mono hle₂.1
  · exact hrest s hs

/-! ## Signatures -/

theorem signature_runs (hd : d.Sound) (hsite : site.Within d.extent) {o : SignatureOwner}
    (ho : o.Within d.extent) (f : FunctionTree) (span : Span) (doc : DocComment)
    (propertyOwner : Option SymbolId) (result : Option TypeTree) :
    growth.Runs (site.signature o f span doc propertyOwner result) d Anything := by
  refine (typeParameters_runs hd site _).bind fun _ d₁ hd₁ hle₁ _ => ?_
  refine (parameters_runs hd₁ (hsite.mono hle₁.1) _ _ _).bind fun ids d₂ hd₂ hle₂ hids => ?_
  have hle := growth.trans hle₁ hle₂
  exact noteSignature_runs hd₂
    ⟨ho.mono hle.1, hids, map_typeExpr_within (hsite.mono hle.1) result⟩

theorem callSignature_runs (hd : d.Sound) (hsite : site.Within d.extent)
    (hs : symbol.Within d.extent) (f : FunctionTree) (span : Span) (doc : DocComment) :
    growth.Runs (site.callSignature symbol f span doc) d Anything := by
  refine (enter_runs hd hsite _).bind fun inner d₁ hd₁ hle₁ hinner => ?_
  exact signature_runs hd₁ hinner (o := .call symbol) (hs.mono hle₁.1) f span doc none f.result

/-- A constructor, of a class or of an interface. -/
theorem constructSignature_runs (hd : d.Sound) (hsite : site.Within d.extent)
    (ho : owner.Within d.extent) (f : FunctionTree) (span : Span) (doc : DocComment)
    (propertyOwner : Option SymbolId) (result : Option TypeTree) :
    growth.Runs (do
      let inner ← site.enter (boundInFunction f)
      inner.signature (.construct owner) f span doc propertyOwner result) d Anything := by
  refine (enter_runs hd hsite _).bind fun inner d₁ hd₁ hle₁ hinner => ?_
  exact signature_runs hd₁ hinner (o := .construct owner) (ho.mono hle₁.1) f span doc _ result

/-! ## Members -/

/-- What all members start with: a symbol, its declaration and its documentation. -/
theorem memberSymbol_runs (hd : d.Sound) (site : Site) (owner : SymbolId) (name doc : String)
    (flags : SymbolFlags) (isStatic : Bool) (kind : DeclarationKind) (span : Span)
    (modifiers : ModifierFlags) {rest : SymbolId → Drafting PUnit}
    (hrest : ∀ member d', d'.Sound → growth.Le d d' → member.Within d'.extent →
      growth.Runs (rest member) d' Anything) :
    growth.Runs (do
      let member ← bindMember owner name flags isStatic
      discard (site.declare member kind span modifiers)
      attachDoc member doc
      rest member) d Anything := by
  refine (bindMember_runs hd _ _ _ _).bind fun member d₁ hd₁ hle₁ hs₁ => ?_
  refine (declare_runs hd₁ _ _ _ _ _).discard.bind fun _ d₂ hd₂ hle₂ _ => ?_
  refine (attachDoc_runs hd₂ _ _).bind fun _ d₃ hd₃ hle₃ _ => ?_
  have hle := growth.trans hle₂ hle₃
  exact hrest member d₃ hd₃ (growth.trans hle₁ hle) (hs₁.mono hle.1)

theorem method_runs (hd : d.Sound) (hsite : site.Within d.extent) (ho : owner.Within d.extent)
    (m : MethodTree) : growth.Runs (site.method owner m) d Anything := by
  have haccessor : ∀ name modifiers, growth.Runs (site.accessor owner name m modifiers) d Anything := by
    intro name modifiers
    refine memberSymbol_runs hd site _ _ _ _ _ _ _ _ fun member d₁ hd₁ hle₁ _ => ?_
    refine (enter_runs hd₁ (hsite.mono hle₁.1) _).bind fun inner d₂ hd₂ _ hinner => ?_
    split
    · exact noteType_runs hd₂ _ (typeExpr_within hinner _)
    · exact Growth.runs_pure hd₂ trivial
  have hplain : ∀ name modifiers, growth.Runs (site.plainMethod owner name m modifiers) d Anything := by
    intro name modifiers
    refine memberSymbol_runs hd site _ _ _ _ _ _ _ _ fun member d₁ hd₁ hle₁ hs₁ => ?_
    exact callSignature_runs hd₁ (hsite.mono hle₁.1) hs₁ _ _ _
  unfold method
  split
  · exact constructSignature_runs hd hsite ho _ _ _ _ _
  · split
    · exact Growth.runs_pure hd trivial
    · dsimp only
      split
      · exact haccessor _ _
      · exact haccessor _ _
      · exact hplain _ _

theorem property_runs (hd : d.Sound) (hsite : site.Within d.extent) (p : PropertyTree) :
    growth.Runs (site.property owner p) d Anything := by
  unfold property
  split
  · exact Growth.runs_pure hd trivial
  · refine memberSymbol_runs hd site _ _ _ _ _ _ _ _ fun member d₁ hd₁ hle₁ _ => ?_
    refine noteType_runs hd₁ _ (getD_any_within ?_)
    have hsite₁ := hsite.mono hle₁.1
    cases p.type with
    | some t => simpa using typeExpr_within hsite₁ t
    | none => exact bind_infer?_within hsite₁ _ _

theorem indexSignature_runs (hd : d.Sound) (hsite : site.Within d.extent) (i : IndexTree) :
    growth.Runs (site.indexSignature owner i) d Anything := by
  refine (bindMember_runs hd _ _ _ _).bind fun member d₁ hd₁ hle₁ _ => ?_
  refine (declare_runs hd₁ _ _ _ _ _).bind fun declaration d₂ hd₂ hle₂ _ => ?_
  have hsite₂ := hsite.mono (growth.trans hle₁ hle₂).1
  refine note_runs hd₂ rfl { hd₂.notes with indexes := ?_ }
  intro x hx
  rcases List.mem_append.mp hx with hx | hx
  · exact hd₂.notes.indexes x hx
  · rw [List.mem_singleton.mp hx]
    exact ⟨map_typeExpr_within hsite₂ _, typeExpr_within hsite₂ _⟩

theorem classMember_runs (hd : d.Sound) (hsite : site.Within d.extent) (ho : owner.Within d.extent)
    (m : ClassMember) : growth.Runs (site.classMember owner m) d Anything := by
  cases m with
  | method m => exact method_runs hd hsite ho m
  | property p => exact property_runs hd hsite p
  | index i => exact indexSignature_runs hd hsite i
  | other => exact Growth.runs_pure hd trivial

theorem interfaceMember_runs (hd : d.Sound) (hsite : site.Within d.extent)
    (ho : owner.Within d.extent) (m : InterfaceMember) :
    growth.Runs (site.interfaceMember owner m) d Anything := by
  cases m with
  | method m => exact method_runs hd hsite ho m
  | property p => exact property_runs hd hsite p
  | index i => exact indexSignature_runs hd hsite i
  | construct span f => exact constructSignature_runs hd hsite ho _ _ _ _ _
  | call => exact Growth.runs_pure hd trivial

end Site

end ApiDocs
