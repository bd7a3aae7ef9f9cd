import ApiDocs.Extract.SymbolView
import ApiDocs.Proofs.Graph.Extent
import Mathlib.Data.Finset.Lattice.Fold

/-!
# Renamed graphs

The positions of symbols, types and signatures carry no meaning of their own. A renaming gives each
position another one, and renames what is at it. A graph holds another one under a renaming when it has
the renamed parts at the renamed positions, whatever else it has.

One more difference may be allowed: the exports of some symbols may come in another order. Which
symbols these are is left open here; for the walk they are those whose exports it never goes through
in the order of the table.

## Main definitions

* `Renaming`: new positions for symbols, types and signatures.
* `Symbol.rename`, `TypeNode.rename`, `Signature.rename`, `SourceFile.rename`: renamed parts.
* `SymbolGraph.RenamedIn`: a graph holds the renamed parts of another.
* `SymbolGraph.Embeds`: the same, but that some exports may be in another order.
-/

namespace ApiDocs

/-- New positions for symbols, types and signatures. -/
structure Renaming where
  symbol : SymbolId → SymbolId
  type : TypeId → TypeId
  signature : SignatureId → SignatureId

/-- Every position is kept. -/
def Renaming.keep : Renaming := ⟨id, id, id⟩

/-! ## Renamed parts -/

variable (ρ : Renaming)

def IndexTypes.rename (x : IndexTypes) : IndexTypes := ⟨x.key.map ρ.type, x.value.map ρ.type⟩

def Declaration.rename (d : Declaration) : Declaration :=
  { d with heritage := d.heritage.map ρ.symbol, index := d.index.map (·.rename ρ) }

def Symbol.rename (s : Symbol) : Symbol :=
  { s with
    exports := s.exports.map ρ.symbol
    members := s.members.map ρ.symbol
    declarations := s.declarations.map (·.rename ρ)
    typeId := s.typeId.map ρ.type
    aliasOf := s.aliasOf.map ρ.symbol }

def TypeNode.rename (t : TypeNode) : TypeNode :=
  { t with
    symbol := t.symbol.map ρ.symbol
    typeArguments := t.typeArguments.map ρ.type
    constituents := t.constituents.map ρ.type
    callSignatures := t.callSignatures.map ρ.signature
    constructSignatures := t.constructSignatures.map ρ.signature }

def Signature.rename (s : Signature) : Signature :=
  { s with parameters := s.parameters.map ρ.symbol, returnType := ρ.type s.returnType }

def SourceFile.rename (f : SourceFile) : SourceFile := { f with symbol := f.symbol.map ρ.symbol }

def SymbolView.rename (v : SymbolView) : SymbolView :=
  { v with
    symbol := ρ.symbol v.symbol
    declaration := v.declaration.map (·.rename ρ)
    typeId := v.typeId.map ρ.type }

def TypeShape.rename : TypeShape → TypeShape
  | .enumUnion symbol => .enumUnion (ρ.symbol symbol)
  | .enumLiteral primitive value => .enumLiteral primitive value
  | .simple => .simple
  | .array element => .array (ρ.type element)
  | .reference symbol arguments => .reference (ρ.symbol symbol) (arguments.map ρ.type)
  | .tuple => .tuple
  | .union members => .union (members.map ρ.type)
  | .intersection members => .intersection (members.map ρ.type)
  | .unsupported => .unsupported

/-- The symbol is another one, but that its exports may be in another order. -/
structure Symbol.Reordered (s s' : Symbol) : Prop where
  same : s' = { s with exports := s'.exports }
  exports : s'.exports.entries.Perm s.exports.entries

theorem Symbol.Reordered.refl (s : Symbol) : s.Reordered s := ⟨rfl, .refl _⟩

/-! ## Graphs -/

namespace SymbolGraph

/-- The second graph has the renamed parts of the first at their new positions. It may have more. -/
structure RenamedIn (g g' : SymbolGraph) : Prop where
  layout : g'.layout = g.layout
  files : g'.files = g.files.map (·.rename ρ)
  symbol : ∀ {id s}, g.symbol? id = some s → g'.symbol? (ρ.symbol id) = some (s.rename ρ)
  type : ∀ {id t}, g.type? id = some t → g'.type? (ρ.type id) = some (t.rename ρ)
  signature : ∀ {id s}, g.signature? id = some s →
    g'.signature? (ρ.signature id) = some (s.rename ρ)

/-- The second graph has the renamed parts of the first, but that the exports of symbols without
`Fixed` may be in another order. No two symbols get one position. -/
structure Embeds (Fixed : SymbolId → Prop) (g g' : SymbolGraph) : Prop where
  injective : Function.Injective ρ.symbol
  layout : g'.layout = g.layout
  files : g'.files = g.files.map (·.rename ρ)
  symbol : ∀ {id s}, g.symbol? id = some s → ∃ s', g'.symbol? (ρ.symbol id) = some s' ∧
    (s.rename ρ).Reordered s' ∧ (Fixed id → s' = s.rename ρ)
  type : ∀ {id t}, g.type? id = some t → g'.type? (ρ.type id) = some (t.rename ρ)
  signature : ∀ {id s}, g.signature? id = some s →
    g'.signature? (ρ.signature id) = some (s.rename ρ)

variable {ρ} {g g' : SymbolGraph}

theorem RenamedIn.embeds (h : g.RenamedIn ρ g') (hρ : Function.Injective ρ.symbol)
    (Fixed : SymbolId → Prop) : g.Embeds ρ Fixed g' where
  injective := hρ
  layout := h.layout
  files := h.files
  symbol hs := ⟨_, h.symbol hs, .refl _, fun _ => rfl⟩
  type := h.type
  signature := h.signature

end SymbolGraph

/-! ## What renaming leaves alone -/

theorem Symbol.ownDeclaration_rename (s : Symbol) :
    (s.rename ρ).ownDeclaration = s.ownDeclaration.map (·.rename ρ) := by
  have hvalue : (s.rename ρ).valueDeclaration? = s.valueDeclaration?.map (·.rename ρ) := by
    cases h : s.valueDeclaration <;> simp [valueDeclaration?, rename, h]
  have hfirst : (s.rename ρ).declarations.head? = s.declarations.head?.map (·.rename ρ) := by
    simp [rename]
  unfold ownDeclaration
  rw [hvalue, hfirst]
  cases s.valueDeclaration? with
  | none => rfl
  | some value =>
    cases s.declarations.head? with
    | none => rfl
    | some first =>
      simp only [Option.map_some]
      have hkinds : (value.rename ρ).kind = value.kind ∧ (first.rename ρ).kind = first.kind :=
        ⟨rfl, rfl⟩
      rw [hkinds.1, hkinds.2]
      split <;> rfl

variable {ρ}

section Reordered

variable {s s' : Symbol} (h : s.Reordered s')

include h

theorem Symbol.Reordered.name_eq : s'.name = s.name := by rw [h.same]

theorem Symbol.Reordered.flags_eq : s'.flags = s.flags := by rw [h.same]

theorem Symbol.Reordered.declarations_eq : s'.declarations = s.declarations := by rw [h.same]

theorem Symbol.Reordered.aliasOf_eq : s'.aliasOf = s.aliasOf := by rw [h.same]

/-- The view of a symbol does not depend on its exports. -/
theorem Symbol.Reordered.view_eq (id : SymbolId) : s'.view id = s.view id := by
  rw [h.same]
  rfl

end Reordered

theorem Symbol.view_rename (s : Symbol) (id : SymbolId) :
    (s.rename ρ).view (ρ.symbol id) = (s.view id).rename ρ := by
  have hown := s.ownDeclaration_rename ρ
  simp only [Symbol.view, SymbolView.rename, hown, Option.isSome_map, Option.map_map]
  congr 1
  split <;> rfl

theorem SymbolView.kind_rename (v : SymbolView) : (v.rename ρ).kind = v.kind := by
  simp only [SymbolView.kind, SymbolView.rename, Option.map_map]
  rfl

theorem TypeNode.referenceShape_rename (t : TypeNode) (arguments : List TypeId) :
    (t.rename ρ).referenceShape (arguments.map ρ.type) = (t.referenceShape arguments).rename ρ := by
  cases h : t.symbol <;> simp [referenceShape, rename, h, TypeShape.rename]

/-- The shape of a renamed type is the renamed shape. -/
theorem TypeNode.shape_rename (t : TypeNode) : (t.rename ρ).shape = t.shape.rename ρ := by
  have henum : (t.rename ρ).enumShape = t.enumShape.rename ρ := by
    unfold enumShape
    cases hs : t.symbol <;> cases hl : t.literal <;>
      simp only [rename, hs, hl, Option.map_some, Option.map_none] <;> split <;> rfl
  have hinstance : (t.rename ρ).instantiationShape = t.instantiationShape.rename ρ := by
    unfold instantiationShape
    have hargs : (t.rename ρ).typeArguments = t.typeArguments.map ρ.type := rfl
    have hname : (t.rename ρ).targetName = t.targetName := rfl
    rw [hargs, hname]
    cases ha : t.typeArguments with
    | nil => exact t.referenceShape_rename []
    | cons a rest =>
      simp only [List.map_cons]
      split
      · rfl
      · exact t.referenceShape_rename (a :: rest)
  have hreference : (t.rename ρ).referenceShape [] = (t.referenceShape []).rename ρ :=
    t.referenceShape_rename []
  have hflags : (t.rename ρ).flags = t.flags := rfl
  have hsimple : (t.rename ρ).isSimple = t.isSimple := rfl
  have hobject : ∀ kinds, (t.rename ρ).isObject kinds = t.isObject kinds := fun _ => rfl
  unfold shape
  rw [henum, hinstance, hreference, hflags, hsimple]
  simp only [hobject]
  repeat' split
  all_goals rfl

/-! ## Every position kept -/

theorem Table.map_id {κ α : Type} (t : Table κ α) : t.map id = t := by
  simp [Table.map]

@[simp] theorem Renaming.keep_symbol : keep.symbol = id := rfl

@[simp] theorem Renaming.keep_type : keep.type = id := rfl

@[simp] theorem Renaming.keep_signature : keep.signature = id := rfl

theorem SourceFile.rename_keep (f : SourceFile) : f.rename .keep = f := by
  simp [rename]

theorem Declaration.rename_keep (d : Declaration) : d.rename .keep = d := by
  have hindex : d.index.map (·.rename .keep) = d.index := by
    cases d.index <;> simp [IndexTypes.rename]
  simp [rename, hindex]

theorem Symbol.rename_keep (s : Symbol) : s.rename .keep = s := by
  have hdeclarations : s.declarations.map (·.rename .keep) = s.declarations :=
    (List.map_congr_left fun d _ => d.rename_keep).trans (List.map_id' _)
  simp [rename, hdeclarations, Table.map_id]

theorem TypeNode.rename_keep (t : TypeNode) : t.rename .keep = t := by
  simp [rename]

theorem Signature.rename_keep (s : Signature) : s.rename .keep = s := by
  simp [rename]

/-! ## Symbols that are not there

How a renaming treats symbols outside of a graph does not matter to the graph. A renaming that keeps the
symbols of the graph apart can therefore be taken to keep all symbols apart. -/

theorem Table.map_congr {κ α β : Type} {t : Table κ α} {f f' : α → β}
    (h : ∀ a ∈ t.values, f a = f' a) : t.map f = t.map f' := by
  simp only [Table.map, Table.mk.injEq]
  refine List.map_congr_left fun e he => ?_
  rw [h e.2 (List.mem_map_of_mem he)]

namespace Renaming

/-- The renaming with another way to rename symbols. -/
def withSymbol (ρ : Renaming) (f : SymbolId → SymbolId) : Renaming := { ρ with symbol := f }

variable {f : SymbolId → SymbolId} {e : Extent} (h : ∀ id : SymbolId, id.Within e → f id = ρ.symbol id)

include h

theorem map_withSymbol {ids : List SymbolId} (hin : ∀ id ∈ ids, id.Within e) :
    ids.map f = ids.map ρ.symbol :=
  List.map_congr_left fun id hid => h id (hin id hid)

theorem file_withSymbol {x : SourceFile} (hx : x.Within e) :
    x.rename (ρ.withSymbol f) = x.rename ρ := by
  have hsymbol := Option.map_congr fun id hid => h id (hx id hid)
  simp [SourceFile.rename, withSymbol, hsymbol]

theorem declaration_withSymbol {d : Declaration} (hd : d.Within e) :
    d.rename (ρ.withSymbol f) = d.rename ρ := by
  have hheritage := map_withSymbol h hd.heritage
  simp only [Declaration.rename, withSymbol, hheritage]
  rfl

theorem symbol_withSymbol {s : Symbol} (hs : s.Within e) :
    s.rename (ρ.withSymbol f) = s.rename ρ := by
  have hexports := Table.map_congr fun id hid => h id (hs.exports id hid)
  have hmembers := Table.map_congr fun id hid => h id (hs.members id hid)
  have halias := Option.map_congr fun id hid => h id (hs.aliasOf id hid)
  have hdeclarations : s.declarations.map (·.rename (ρ.withSymbol f)) = s.declarations.map (·.rename ρ) :=
    List.map_congr_left fun d hd => declaration_withSymbol h (hs.declarations d hd)
  simp only [Symbol.rename, hdeclarations]
  simp only [withSymbol, hexports, hmembers, halias]

theorem type_withSymbol {t : TypeNode} (ht : t.Within e) :
    t.rename (ρ.withSymbol f) = t.rename ρ := by
  have hsymbol := Option.map_congr fun id hid => h id (ht.symbol id hid)
  simp [TypeNode.rename, withSymbol, hsymbol]

theorem signature_withSymbol {s : Signature} (hs : s.Within e) :
    s.rename (ρ.withSymbol f) = s.rename ρ := by
  have hparameters := map_withSymbol h hs.parameters
  simp [Signature.rename, withSymbol, hparameters]

end Renaming

namespace SymbolGraph

variable {g g' : SymbolGraph}

theorem RenamedIn.withSymbol (h : g.RenamedIn ρ g') (hg : g.Closed) {f : SymbolId → SymbolId}
    (hf : ∀ id : SymbolId, id.Within g.extent → f id = ρ.symbol id) :
    g.RenamedIn (ρ.withSymbol f) g' where
  layout := h.layout
  files := by
    rw [h.files]
    exact List.map_congr_left fun x hx => (Renaming.file_withSymbol hf (hg.files x hx)).symm
  symbol {id s} hs := by
    rw [Renaming.symbol_withSymbol hf (hg.symbols s (Array.mem_of_getElem? hs))]
    have hid : f id = ρ.symbol id := hf id (Array.getElem?_eq_some_iff.mp hs).1
    exact (congrArg g'.symbol? hid).trans (h.symbol hs)
  type {id t} ht := by
    rw [Renaming.type_withSymbol hf (hg.types t (Array.mem_of_getElem? ht))]
    exact h.type ht
  signature {id s} hs := by
    rw [Renaming.signature_withSymbol hf (hg.signatures s (Array.mem_of_getElem? hs))]
    exact h.signature hs

/-- A renaming that keeps the symbols of an extent apart agrees there with one that keeps all apart. -/
theorem exists_injective_of_injOn {e : Extent} {f : SymbolId → SymbolId}
    (hf : Set.InjOn f {id | id.Within e}) :
    ∃ f', Function.Injective f' ∧ ∀ id : SymbolId, id.Within e → f' id = f id := by
  -- Symbols outside of the extent go above all positions that are taken.
  let bound := (Finset.range e.symbols).sup fun i => (f ⟨i⟩).index
  have hbound : ∀ id : SymbolId, id.Within e → (f id).index ≤ bound := fun id hid =>
    Finset.le_sup (f := fun i => (f ⟨i⟩).index) (Finset.mem_range.mpr hid)
  refine ⟨fun id => if id.Within e then f id else ⟨bound + 1 + id.index⟩, ?_, ?_⟩
  · intro id id' heq
    by_cases hid : id.Within e <;> by_cases hid' : id'.Within e <;>
      simp only [hid, hid', if_true, if_false] at heq
    · exact hf hid hid' heq
    · have hle := hbound id hid
      simp only [heq] at hle
      omega
    · have hle := hbound id' hid'
      simp only [← heq] at hle
      omega
    · obtain ⟨i⟩ := id
      obtain ⟨j⟩ := id'
      simp only [SymbolId.mk.injEq] at heq ⊢
      omega
  · intro id hid
    simp [hid]

end SymbolGraph

end ApiDocs
