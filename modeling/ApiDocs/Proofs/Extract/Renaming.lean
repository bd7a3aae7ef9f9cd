import ApiDocs.Proofs.Extract.Extraction
import ApiDocs.Proofs.Graph.Renaming
import ApiDocs.Proofs.Simulation

/-!
# Extraction and renaming

A walk uses positions only to look things up and to tell symbols apart. Over a graph that holds the
renamed parts of another it therefore does the same, step by step, with a table of references whose
symbols are renamed. Where the first walk looks up what is not there, nothing is said about the second;
in a closed graph this does not happen.

The exports of a symbol are gone through in the order of the table only if the symbol is built as a
class or an enum, so only the tables of such symbols have to be in one order.

## Main definitions

* `RefTable.rename`, `WalkState.rename`: the state of a walk with renamed symbols.
* `Walk.Agrees`: a walk over one graph does what another one does over another graph.
-/

namespace ApiDocs

variable {ρ : Renaming}

/-! ## The table of references -/

namespace RefTable

/-- The table with renamed symbols. -/
def rename (ρ : Renaming) (t : RefTable SymbolId) : RefTable SymbolId :=
  ⟨t.records.map fun r => (ρ.symbol r.1, r.2)⟩

@[simp] theorem get?_rename (t : RefTable SymbolId) (r : RefId) : (t.rename ρ).get? r = t.get? r := by
  simp [get?, rename, Function.comp_def]

@[simp] theorem getRef_rename (t : RefTable SymbolId) (r : RefId) :
    (t.rename ρ).getRef r = t.getRef r := by
  simp [getRef]

@[simp] theorem refs_rename (t : RefTable SymbolId) : (t.rename ρ).refs = t.refs := by
  simp [refs, rename, Function.comp_def]

variable (hρ : Function.Injective ρ.symbol) (t : RefTable SymbolId) (id : SymbolId) (name : String)

include hρ

/-- A record is found under the new position of its symbol. -/
theorem lookup_rename : (t.rename ρ).lookup (ρ.symbol id) name = t.lookup id name := by
  simp [lookup, rename, Array.findIdx?_map, Function.comp_def, hρ.eq_iff]

theorem request_rename (target : Option RefTarget) :
    (t.rename ρ).request (ρ.symbol id) name target =
      ((t.request id name target).1, (t.request id name target).2.rename ρ) := by
  unfold request
  rw [lookup_rename hρ]
  cases t.lookup id name with
  | none => simp [rename]
  | some r =>
    cases target with
    | none => rfl
    | some target =>
      simp only [patch, rename, Prod.mk.injEq, mk.injEq, true_and]
      apply Array.ext_getElem?
      intro i
      simp only [Array.getElem?_modify, Array.getElem?_map]
      split <;> simp [Function.comp_def]

end RefTable

/-- The state with renamed symbols. -/
def WalkState.rename (ρ : Renaming) (s : WalkState) : WalkState := { s with refs := s.refs.rename ρ }

/-- What is linked at the end does not depend on the positions of symbols. -/
theorem WalkState.finish_rename (s : WalkState) : (s.rename ρ).finish = s.finish := by
  have hbase : WalkState.linkBase (s.refs.rename ρ) = WalkState.linkBase s.refs := by
    funext c classes r
    simp [WalkState.linkBase]
  have hbases : WalkState.linkBases (s.refs.rename ρ) = WalkState.linkBases s.refs := by
    funext classes noted
    rw [WalkState.linkBases, WalkState.linkBases, hbase]
  simp [WalkState.finish, WalkState.rename, hbases]

/-! ## Reading -/

namespace SymbolGraph

variable {Fixed : SymbolId → Prop} {g g' : SymbolGraph} {limit : Nat} (h : g.Embeds ρ Fixed g')

include h

theorem getSymbol_follows (id : SymbolId) :
    Follows (ExtractError.OfAlias limit)
      (fun s s' => (s.rename ρ).Reordered s' ∧ (Fixed id → s' = s.rename ρ))
      (g.getSymbol id) (g'.getSymbol (ρ.symbol id)) := by
  cases hs : g.symbol? id with
  | none => simpa [getSymbol, hs] using follows_of_not (fun h => by cases h)
  | some s =>
    obtain ⟨s', hs', hsame⟩ := h.symbol hs
    rw [getSymbol_eq_ok_iff.mpr hs, getSymbol_eq_ok_iff.mpr hs']
    exact follows_ok hsame

theorem getType_follows (id : TypeId) :
    Follows (ExtractError.OfAlias limit) (fun t t' => t' = t.rename ρ) (g.getType id)
      (g'.getType (ρ.type id)) := by
  cases ht : g.type? id with
  | none => simpa [getType, ht] using follows_of_not (by nofun)
  | some t =>
    rw [getType_eq_ok_iff.mpr ht, getType_eq_ok_iff.mpr (h.type ht)]
    exact follows_ok rfl

theorem getSignature_follows (id : SignatureId) :
    Follows (ExtractError.OfAlias limit) (fun s s' => s' = s.rename ρ) (g.getSignature id)
      (g'.getSignature (ρ.signature id)) := by
  cases hs : g.signature? id with
  | none => simpa [getSignature, hs] using follows_of_not (by nofun)
  | some s =>
    rw [getSignature_eq_ok_iff.mpr hs, getSignature_eq_ok_iff.mpr (h.signature hs)]
    exact follows_ok rfl

theorem view_follows (id : SymbolId) :
    Follows (ExtractError.OfAlias limit) (fun v v' => v' = v.rename ρ) (g.view id)
      (g'.view (ρ.symbol id)) := by
  refine (getSymbol_follows h id).bind fun s s' hs => follows_ok ?_
  rw [hs.1.view_eq, s.view_rename]

theorem view_renamed {id : SymbolId} (hin : id.Within g.extent) :
    g'.view (ρ.symbol id) = .ok ((g.viewAt id).rename ρ) := by
  obtain ⟨s', hs', hsame, -⟩ := h.symbol (symbol?_eq_some hin)
  simp only [view, getSymbol_eq_ok_iff.mpr hs']
  change Except.ok (s'.view (ρ.symbol id)) = _
  rw [hsame.view_eq, Symbol.view_rename]
  rfl

theorem flags_symbolAt_renamed {id : SymbolId} (hin : id.Within g.extent) :
    (g'.symbolAt (ρ.symbol id)).flags = (g.symbolAt id).flags := by
  obtain ⟨s', hs', hsame, -⟩ := h.symbol (symbol?_eq_some hin)
  have hat : g'.symbolAt (ρ.symbol id) = s' := by simp [symbolAt, hs']
  rw [hat, hsame.flags_eq]
  rfl

theorem within_renamed {id : SymbolId} (hin : id.Within g.extent) :
    (ρ.symbol id).Within g'.extent := by
  obtain ⟨s', hs', -⟩ := h.symbol (symbol?_eq_some hin)
  exact within_of_symbol? hs'

/-! ## Aliases -/

/-- A chain of aliases in the second graph passes the renamed symbols. -/
theorem followAlias_follows (name : String) (hops : Nat) (passed : List SymbolId) (id : SymbolId) :
    Follows (ExtractError.OfAlias limit) (fun r r' => r' = r.map ρ.symbol)
      (g.followAlias name limit hops passed id)
      (g'.followAlias name limit hops (passed.map ρ.symbol) (ρ.symbol id)) := by
  induction hops using Nat.strong_induction_on generalizing passed id with
  | _ hops ih =>
    unfold followAlias
    refine (getSymbol_follows h id).bind fun s s' hs => ?_
    have halias : s'.isAlias = s.isAlias := by rw [Symbol.isAlias, hs.1.flags_eq]; rfl
    have htarget : s'.aliasOf = s.aliasOf.map ρ.symbol := hs.1.aliasOf_eq
    rw [halias, htarget]
    split
    · exact follows_ok rfl
    cases hops with
    | zero => exact fun _ => rfl
    | succ hops =>
      cases s.aliasOf with
      | none => exact follows_ok rfl
      | some target =>
        have hmem : ρ.symbol target ∈ ρ.symbol id :: passed.map ρ.symbol ↔ target ∈ id :: passed := by
          rw [← List.map_cons, List.mem_map_of_injective h.injective]
        simp only [Option.map_some, hmem]
        split
        · -- The chain comes back: the names on the way are the same.
          rw [← List.map_cons, ← List.map_cons, ← List.map_reverse]
          refine (follows_mapM fun p _ => ?_).bind fun names names' hnames => ?_
          · exact (getSymbol_follows h p).bind fun s s' hs => follows_ok hs.1.name_eq.symm
          · rw [hnames]
            exact fun _ => rfl
        · exact ih hops (Nat.lt_succ_self hops) (id :: passed) target

theorem resolveAlias_follows (name : String) (id : SymbolId) :
    Follows (ExtractError.OfAlias limit) (fun r r' => r' = r.map ρ.symbol)
      (g.resolveAlias limit name id) (g'.resolveAlias limit name (ρ.symbol id)) :=
  followAlias_follows h name limit [] id

/-! ## Types -/

theorem referTo_simulates (id : SymbolId) :
    Simulates (ExtractError.OfAlias limit) (RefTable.rename ρ) Eq (g.referTo id)
      (g'.referTo (ρ.symbol id)) := by
  refine (simulates_lift (getSymbol_follows h id)).bind fun s s' hs => ?_
  have hname : s'.name = s.name := hs.1.name_eq
  rw [hname]
  exact simulates_modifyGet fun t => t.request_rename h.injective id s.name none

theorem describeWithin_simulates (levels : Nat) (id : TypeId) :
    Simulates (ExtractError.OfAlias limit) (RefTable.rename ρ) Eq (g.describeWithin levels id)
      (g'.describeWithin levels (ρ.type id)) := by
  induction levels generalizing id with
  | zero =>
    unfold describeWithin
    exact (simulates_lift (getType_follows h id)).bind_of_eq fun t => simulates_pure rfl
  | succ levels ih =>
    unfold describeWithin
    refine (simulates_lift (getType_follows h id)).bind_of_eq fun t => ?_
    have hdisplay : (t.rename ρ).display = t.display := rfl
    rw [t.shape_rename, hdisplay]
    have hall : ∀ ids : List TypeId, Simulates (ExtractError.OfAlias limit) (RefTable.rename ρ) Eq
        (ids.mapM (g.describeWithin levels)) ((ids.map ρ.type).mapM (g'.describeWithin levels)) :=
      fun ids => simulates_mapM fun i _ => ih i
    cases t.shape with
    | enumUnion symbol =>
      exact (referTo_simulates h symbol).bind_same fun _ => simulates_pure rfl
    | array element =>
      exact (ih element).bind_same fun _ => simulates_pure rfl
    | reference symbol arguments =>
      refine (referTo_simulates h symbol).bind_same fun r => ?_
      exact (hall arguments).bind_same fun ds => simulates_pure rfl
    | union members =>
      exact (hall members).bind_same fun _ => simulates_pure rfl
    | intersection members =>
      exact (hall members).bind_same fun _ => simulates_pure rfl
    | enumLiteral primitive value => exact simulates_pure rfl
    | simple => exact simulates_pure rfl
    | tuple => exact simulates_pure rfl
    | unsupported => exact simulates_pure rfl

end SymbolGraph

namespace Walk

open SymbolGraph

variable {Fixed : SymbolId → Prop} {g g' : SymbolGraph} {limit : Nat}

/-- From renamed states the second walk does the same, and gives the same result. -/
abbrev Agrees {α : Type} (ρ : Renaming) (limit : Nat) (x y : Walk α) : Prop :=
  Simulates (ExtractError.OfAlias limit) (WalkState.rename ρ) Eq x y

section Values

variable (h : g.Embeds ρ Fixed g')

include h

theorem describe_agrees (id : TypeId) : Agrees ρ limit (describe g id) (describe g' (ρ.type id)) := by
  refine simulates_get.bind_of_eq fun s => ?_
  refine (simulates_lift (describeWithin_simulates h describedLevels id s.refs)).bind ?_
  rintro ⟨d, refs⟩ ⟨d', refs'⟩ ⟨hd, hrefs⟩
  dsimp only at hd hrefs
  subst hd hrefs
  exact (simulates_set rfl).bind fun _ _ _ => simulates_pure rfl

theorem describeOptional_agrees (id : Option TypeId) :
    Agrees ρ limit (id.mapM (describe g)) ((id.map ρ.type).mapM (describe g')) := by
  cases id with
  | none => exact simulates_pure rfl
  | some id => exact (describe_agrees h id).map fun d d' hd => by rw [hd]

theorem requestRef_agrees (id : SymbolId) (name : String) (target : Option RefTarget) :
    Agrees ρ limit (requestRef id name target) (requestRef (ρ.symbol id) name target) := by
  refine simulates_modifyGet fun s => ?_
  have hrequest := s.refs.request_rename h.injective id name target
  simp [WalkState.rename, hrequest]

theorem existingTarget_agrees (v : SymbolView) :
    Agrees ρ limit (existingTarget v) (existingTarget (v.rename ρ)) := by
  refine simulates_get.bind_of_eq fun s => ?_
  have hlookup : (s.rename ρ).refs.lookup (v.rename ρ).symbol (v.rename ρ).name =
      s.refs.lookup v.symbol v.name := s.refs.lookup_rename h.injective v.symbol v.name
  dsimp only
  rw [hlookup]
  cases s.refs.lookup v.symbol v.name with
  | none => exact simulates_pure rfl
  | some r =>
    have hget : (s.rename ρ).refs.getRef r = s.refs.getRef r := s.refs.getRef_rename r
    dsimp only
    rw [hget]
    exact (simulates_lift (follows_refl _)).bind_same fun d => simulates_pure rfl

/-! ## Identifiers and functions -/

omit h in
theorem literalValue_rename (described : Option TypeDoc) (t : Option TypeNode) :
    literalValue described (t.map (·.rename ρ)) = literalValue described t := by
  unfold literalValue
  split
  · rfl
  · rw [Option.bind_map]
    rfl

theorem identifier_agrees (v : SymbolView) (optional : Bool) :
    Agrees ρ limit (identifier g v optional) (identifier g' (v.rename ρ) optional) := by
  refine (describeOptional_agrees h v.typeId).bind_same fun type => ?_
  have hnode : Simulates (ExtractError.OfAlias limit) (WalkState.rename ρ)
      (Option.Rel fun t t' => t' = t.rename ρ)
      (v.typeId.mapM fun id => (g.getType id : Walk TypeNode))
      ((v.typeId.map ρ.type).mapM fun id => (g'.getType id : Walk TypeNode)) :=
    simulates_optionMapM fun id _ => simulates_lift (getType_follows h id)
  refine hnode.bind fun node node' hnode => simulates_pure ?_
  have hsame : node' = node.map (·.rename ρ) := by
    cases hnode with
    | none => rfl
    | some ht => rw [ht]; rfl
  rw [hsame, literalValue_rename]
  rfl

theorem parameter_agrees (id : SymbolId) :
    Agrees ρ limit (parameter g id) (parameter g' (ρ.symbol id)) := by
  refine (simulates_lift (view_follows h id)).bind_of_eq fun v => ?_
  exact identifier_agrees h v _

theorem signature_agrees (id : SignatureId) :
    Agrees ρ limit (signature g id) (signature g' (ρ.signature id)) := by
  refine (simulates_lift (getSignature_follows h id)).bind_of_eq fun s => ?_
  refine (describe_agrees h s.returnType).bind_same fun returnType => ?_
  exact (simulates_mapM fun p _ => parameter_agrees h p).bind_same fun params => simulates_pure rfl

theorem signatures_agree (ids : List SignatureId) :
    Agrees ρ limit (ids.mapM (signature g)) ((ids.map ρ.signature).mapM (signature g')) :=
  simulates_mapM fun id _ => signature_agrees h id

theorem function_agrees (v : SymbolView) :
    Agrees ρ limit (function g v) (function g' (v.rename ρ)) := by
  have htype : (v.rename ρ).typeId = v.typeId.map ρ.type := rfl
  unfold function
  rw [htype]
  cases v.typeId with
  | none => exact simulates_pure rfl
  | some id =>
    refine (simulates_lift (getType_follows h id)).bind_of_eq fun t => ?_
    exact (signatures_agree h t.callSignatures).bind_same fun _ => simulates_pure rfl

theorem constructors_agree (v : SymbolView) :
    Agrees ρ limit (constructors g v) (constructors g' (v.rename ρ)) := by
  have htype : (v.rename ρ).typeId = v.typeId.map ρ.type := rfl
  unfold constructors
  rw [htype]
  cases v.typeId with
  | none => exact simulates_pure rfl
  | some id =>
    refine (simulates_lift (getType_follows h id)).bind_of_eq fun t => ?_
    exact signatures_agree h t.constructSignatures

theorem indexTypes_agree (v : SymbolView) :
    Agrees ρ limit (indexTypes g v) (indexTypes g' (v.rename ρ)) := by
  have hindex : (v.rename ρ).declaration.bind (·.index) =
      (v.declaration.bind (·.index)).map (·.rename ρ) := by
    cases hd : v.declaration <;> simp [SymbolView.rename, hd, Declaration.rename]
  unfold indexTypes
  rw [hindex]
  cases v.declaration.bind (·.index) with
  | none => exact simulates_pure rfl
  | some x =>
    refine (describeOptional_agrees h x.key).bind_same fun key => ?_
    exact (describeOptional_agrees h x.value).bind_same fun value => simulates_pure rfl

/-! ## Members and heritage -/

theorem addMember_agrees (body : ClassBody) (id : SymbolId) :
    Agrees ρ limit (addMember g body id) (addMember g' body (ρ.symbol id)) := by
  refine (simulates_lift (view_follows h id)).bind_of_eq fun v => ?_
  have hprivate : (v.rename ρ).declaration.any (·.isPrivate) = v.declaration.any (·.isPrivate) := by
    cases hd : v.declaration <;> simp [SymbolView.rename, hd, Declaration.rename, Declaration.isPrivate]
  have hflags : (v.rename ρ).flags = v.flags := rfl
  rw [hprivate, hflags, v.kind_rename]
  split
  · exact simulates_pure rfl
  split
  · exact (function_agrees h v).bind_same fun _ => simulates_pure rfl
  split
  · exact (identifier_agrees h v _).bind_same fun _ => simulates_pure rfl
  split
  · exact (indexTypes_agree h v).bind_same fun _ => simulates_pure rfl
  · exact simulates_pure rfl

theorem heritageRef_agrees (base : SymbolId) :
    Agrees ρ limit (heritageRef g limit base) (heritageRef g' limit (ρ.symbol base)) := by
  refine (simulates_lift (getSymbol_follows h base)).bind fun s s' hs => ?_
  have hname : s'.name = s.name := hs.1.name_eq
  rw [hname]
  refine (simulates_lift (resolveAlias_follows h s.name base)).bind_of_eq fun r => ?_
  cases r with
  | none => exact simulates_pure rfl
  | some target =>
    refine (simulates_lift (getSymbol_follows h target)).bind fun u u' hu => ?_
    have hdeclared : u'.declarations.isEmpty = u.declarations.isEmpty := by
      simp [hu.1.declarations_eq, Symbol.rename]
    have hname : u'.name = u.name := hu.1.name_eq
    rw [hdeclared, hname]
    split
    · exact simulates_pure rfl
    · exact (requestRef_agrees h target u.name none).bind_same fun _ => simulates_pure rfl

theorem noteHeritage_agrees (c : ClassId) (v : SymbolView) :
    Agrees ρ limit (noteHeritage g limit c v) (noteHeritage g' limit c (v.rename ρ)) := by
  have hheritage : ((v.rename ρ).declaration.map (·.heritage)).getD [] =
      ((v.declaration.map (·.heritage)).getD []).map ρ.symbol := by
    cases hd : v.declaration <;> simp [SymbolView.rename, hd, Declaration.rename]
  unfold noteHeritage
  dsimp only
  rw [hheritage]
  refine (simulates_mapM fun b _ => heritageRef_agrees h b).bind_same fun rss => ?_
  split
  · exact fun s => follows_ok ⟨rfl, rfl⟩
  · exact simulates_pure rfl

/-! ## Enums -/

theorem enterEnum_agrees (v : SymbolView) :
    Agrees ρ limit (enterEnum v) (enterEnum (v.rename ρ)) := by
  refine simulates_get.bind_of_eq fun s => ?_
  refine Simulates.bind (R := fun _ _ => True) (simulates_modify ?_) fun _ _ _ => ?_
  · exact fun _ => rfl
  · exact (requestRef_agrees h v.symbol v.name _).bind_same fun _ => simulates_pure rfl

theorem enterClass_agrees (v : SymbolView) (kind : ClassKind) :
    Agrees ρ limit (enterClass v kind) (enterClass (v.rename ρ) kind) := by
  refine simulates_get.bind_of_eq fun s => ?_
  refine Simulates.bind (R := fun _ _ => True) (simulates_modify ?_) fun _ _ _ => ?_
  · exact fun _ => rfl
  · exact (requestRef_agrees h v.symbol v.name _).bind_same fun _ => simulates_pure rfl

end Values

theorem fillEnum_agrees (e : EnumId) (members : List IdentifierDoc) :
    Agrees ρ limit (fillEnum e members) (fillEnum e members) := by
  refine simulates_get.bind_of_eq fun s => ?_
  refine (simulates_lift (follows_refl _)).bind_same fun enums => ?_
  exact fun s => follows_ok ⟨rfl, rfl⟩

theorem fillClass_agrees (c : OpenClass) (nested : List SymbolId) (exports : ModuleDoc) :
    Agrees ρ limit (fillClass c exports) (fillClass { c with nested } exports) := by
  refine simulates_get.bind_of_eq fun s => ?_
  refine (simulates_lift (follows_refl _)).bind_same fun classes => ?_
  exact fun s => follows_ok ⟨rfl, rfl⟩

/-! ## Classes and enums -/

section Built

variable (h : g.Embeds ρ Fixed g') (hg : g.Closed) {id : SymbolId} (hin : id.Within g.extent)

include h hin

theorem getSymbol_simulates (hfixed : Fixed id) :
    Simulates (ExtractError.OfAlias limit) (WalkState.rename ρ)
      (fun s s' => s = g.symbolAt id ∧ s' = s.rename ρ) (g.getSymbol id : Walk Symbol)
      (g'.getSymbol (ρ.symbol id) : Walk Symbol) := by
  obtain ⟨s', hs', -, hsame⟩ := h.symbol (symbol?_eq_some hin)
  rw [getSymbol_eq_ok hin, getSymbol_eq_ok_iff.mpr hs', hsame hfixed]
  exact simulates_pure ⟨rfl, rfl⟩

omit hin in
theorem exportsWhere_renamed {s : Symbol} (hs : s.Within g.extent) (keep : SymbolFlags → Bool) :
    exportsWhere g' keep (s.rename ρ) = .ok ((g.exportsIn keep s).map ρ.symbol) := by
  have hvalues : (s.rename ρ).exports.values = s.exports.values.map ρ.symbol := by
    simp [Symbol.rename, Table.map, Table.values]
  have hin' : ∀ id ∈ s.exports.values.map ρ.symbol, id.Within g'.extent := by
    intro id hid
    obtain ⟨x, hx, rfl⟩ := List.mem_map.mp hid
    exact within_renamed h (hs.exports x hx)
  unfold exportsWhere exportsIn
  rw [hvalues]
  change (if s.flags.meets SymbolFlags.hasExports then _ else _) = _
  split
  · have hfilter := filterM_eq_ok (l := s.exports.values.map ρ.symbol)
      (p := fun id => (do return keep (← g'.getSymbol id).flags : Except ExtractError Bool))
      (q := fun id => keep (g'.symbolAt id).flags) ?_
    · rw [hfilter, List.filter_map]
      congr 2
      refine List.filter_congr fun x hx => ?_
      simp only [Function.comp, flags_symbolAt_renamed h (hs.exports x hx)]
    · intro id hid
      rw [getSymbol_eq_ok (hin' id hid)]
      rfl
  · rfl

include hg

theorem enumBody_agrees (hfixed : Fixed id) :
    Agrees ρ limit (enumBody g (g.viewAt id)) (enumBody g' ((g.viewAt id).rename ρ)) := by
  have hs := hg.symbolAt hin
  refine (enterEnum_agrees h (g.viewAt id)).bind_same fun e => ?_
  refine (getSymbol_simulates h hin hfixed).bind ?_
  rintro s s' ⟨rfl, rfl⟩
  have hmembers : Agrees ρ limit (enumMembers g (g.symbolAt id))
      (enumMembers g' ((g.symbolAt id).rename ρ)) := by
    unfold enumMembers
    rw [exportsWhere_eq_ok hs, exportsWhere_renamed h hs]
    refine simulates_mapM fun m _ => ?_
    refine (simulates_lift (view_follows h m)).bind_of_eq fun v => ?_
    exact identifier_agrees h v false
  refine hmembers.bind_same fun ds => ?_
  exact (fillEnum_agrees e ds).bind_same fun _ => simulates_pure rfl

theorem buildEnum_agrees (hfixed : Fixed id) :
    Agrees ρ limit (buildEnum g (g.viewAt id)) (buildEnum g' ((g.viewAt id).rename ρ)) := by
  refine (existingTarget_agrees h (g.viewAt id)).bind_same fun r => ?_
  split
  · exact simulates_pure rfl
  · exact enumBody_agrees h hg hin hfixed

/-- What is known of a class when it is opened is the same, but for the symbols nested in it. -/
theorem openClass_simulates (hfixed : Fixed id) (kind : ClassKind) :
    Simulates (ExtractError.OfAlias limit) (WalkState.rename ρ)
      (fun c c' => c.nested = g.nestedIn id ∧ c' = { c with nested := c.nested.map ρ.symbol })
      (openClass g limit (g.viewAt id) kind) (openClass g' limit ((g.viewAt id).rename ρ) kind) := by
  have hs := hg.symbolAt hin
  refine (enterClass_agrees h (g.viewAt id) kind).bind_same fun c => ?_
  refine (constructors_agree h (g.viewAt id)).bind_same fun constructors => ?_
  refine (getSymbol_simulates h hin hfixed).bind ?_
  rintro s s' ⟨rfl, rfl⟩
  have hvalues : ((g.symbolAt id).rename ρ).members.values =
      (g.symbolAt id).members.values.map ρ.symbol := by
    simp [Symbol.rename, Table.map, Table.values]
  rw [hvalues]
  refine (simulates_foldlM (fun body m _ => addMember_agrees h body m) _).bind_same fun body => ?_
  refine (noteHeritage_agrees h c (g.viewAt id)).bind_same fun _ => ?_
  unfold nestedExports
  rw [exportsWhere_eq_ok hs, exportsWhere_renamed h hs]
  exact simulates_pure ⟨rfl, rfl⟩

theorem classBody_agrees (hfixed : Fixed id) (kind : ClassKind)
    {nested nested' : SymbolView → ModuleDoc → Walk ModuleDoc}
    (hnested : ∀ n ∈ g.nestedIn id, ∀ m,
      Agrees ρ limit (nested (g.viewAt n) m) (nested' ((g.viewAt n).rename ρ) m)) :
    Agrees ρ limit (classBody g limit nested (g.viewAt id) kind)
      (classBody g' limit nested' ((g.viewAt id).rename ρ) kind) := by
  refine (openClass_simulates h hg hin hfixed kind).bind ?_
  rintro c c' ⟨hc, rfl⟩
  have hexports : Agrees ρ limit
      (c.nested.foldlM (fun m n => do nested (← g.view n) m) ({} : ModuleDoc))
      ((c.nested.map ρ.symbol).foldlM (fun m n => do nested' (← g'.view n) m) ({} : ModuleDoc)) := by
    rw [hc]
    refine simulates_foldlM (fun m n hn => ?_) _
    have hn' := within_of_mem_exportsIn (hg.symbolAt hin) hn
    rw [view_eq_ok hn', view_renamed h hn']
    exact hnested n hn m
  refine hexports.bind_same fun exports => ?_
  exact (fillClass_agrees c _ exports).bind_same fun _ => simulates_pure rfl

theorem buildClass_agrees (hfixed : Fixed id) (kind : ClassKind)
    {nested nested' : SymbolView → ModuleDoc → Walk ModuleDoc}
    (hnested : ∀ n ∈ g.nestedIn id, ∀ m,
      Agrees ρ limit (nested (g.viewAt n) m) (nested' ((g.viewAt n).rename ρ) m)) :
    Agrees ρ limit (buildClass g limit nested (g.viewAt id) kind)
      (buildClass g' limit nested' ((g.viewAt id).rename ρ) kind) := by
  refine (existingTarget_agrees h (g.viewAt id)).bind_same fun r => ?_
  split
  · exact simulates_pure rfl
  · exact classBody_agrees h hg hin hfixed kind hnested

omit hin in
/-- **The record of a symbol** is the same over both graphs, if the second walk has at least the depth
of the first. The induction is on the depth; symbols with `A` nest symbols with `A`, and the tables of
those that are built are in one order. -/
theorem assemble_agrees {A : SymbolId → Prop}
    (hA : ∀ {id kind}, A id → g.route? id = some (.toClass kind) → ∀ n ∈ g.nestedIn id, A n)
    (hfixed : ∀ {id x}, A id → g.RoutedTo id x → Fixed id) (depth : Nat) :
    ∀ depth', depth ≤ depth' → ∀ id, A id → id.Within g.extent → ∀ m,
      Agrees ρ limit (assemble g limit depth (g.viewAt id) m)
        (assemble g' limit depth' ((g.viewAt id).rename ρ) m) := by
  induction depth using Nat.strong_induction_on with
  | _ depth ih =>
    intro depth' hle id hid hin m
    have hroute : (g.viewAt id).kind.map DeclarationKind.route = g.route? id := rfl
    unfold assemble
    rw [SymbolView.kind_rename, hroute]
    split
    next =>
      exact (function_agrees h (g.viewAt id)).bind_same fun _ => simulates_pure rfl
    next hr =>
      have hid' : Fixed id := hfixed (x := .toEnum ⟨0⟩) hid hr
      exact (buildEnum_agrees h hg hin hid').bind_same fun _ => simulates_pure rfl
    next =>
      exact (identifier_agrees h (g.viewAt id) false).bind_same fun _ => simulates_pure rfl
    next kind hr =>
      have hid' : Fixed id := hfixed (x := .toClass ⟨0⟩) hid ⟨kind, hr⟩
      cases depth with
      | zero => exact simulates_throw nofun
      | succ depth =>
        obtain ⟨depth', rfl⟩ : ∃ d, depth' = d + 1 := ⟨depth' - 1, by omega⟩
        have hnested : ∀ n ∈ g.nestedIn id, ∀ m, Agrees ρ limit
            (assemble g limit depth (g.viewAt n) m)
            (assemble g' limit depth' ((g.viewAt n).rename ρ) m) :=
          fun n hn => ih depth (Nat.lt_succ_self depth) depth' (by omega) n (hA hid hr n hn)
            (within_of_mem_exportsIn (hg.symbolAt hin) hn)
        refine (buildClass_agrees h hg hin hid' kind hnested).bind_same fun c => ?_
        cases kind with
        | ofClass => exact simulates_pure rfl
        | ofInterface => exact simulates_pure rfl
    next => exact simulates_pure rfl
    next => exact simulates_pure rfl

end Built

end Walk

end ApiDocs
