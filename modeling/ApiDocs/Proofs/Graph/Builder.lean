import ApiDocs.Graph.Builder
import ApiDocs.Proofs.Computation
import ApiDocs.Proofs.Graph.Extent
import Mathlib.Data.List.Nodup

/-!
# Growing graphs stay closed

A builder only ever adds parts, or changes what a part says. So a graph that is closed stays closed as
long as what is stored in it is there when it is stored, and every position that was handed out stays
good. The files of a graph change only where a file is added, and its layout only where one is set.

## Main definitions

* `GraphBuilder.Closed`: the graph is closed, and the keyword types are there.
* `GraphBuilder.growth`: builders grow and keep their files and their layout.
-/

namespace ApiDocs

/-! ## Tables -/

namespace Table

variable {κ α : Type} [DecidableEq κ] {t : Table κ α} {k k' : κ} {v w : α}

theorem mem_values_of_get? (h : t.get? k = some v) : v ∈ t.values := by
  obtain ⟨e, he, rfl⟩ := Option.map_eq_some_iff.mp h
  exact List.mem_map_of_mem (List.mem_of_find?_eq_some he)

omit [DecidableEq κ] in
theorem mem_keys_iff : k ∈ t.keys ↔ ∃ v, (k, v) ∈ t.entries := by
  simp [keys]

theorem get?_eq_some_iff : t.get? k = some v ↔ (k, v) ∈ t.entries := by
  constructor
  · intro h
    obtain ⟨e, he, rfl⟩ := Option.map_eq_some_iff.mp h
    have hk : e.1 = k := by simpa using List.find?_some he
    rw [← hk]
    exact List.mem_of_find?_eq_some he
  · intro h
    cases he : t.entries.find? (·.1 = k) with
    | none => simpa using List.find?_eq_none.mp he (k, v) h
    | some e =>
      have hk : e.1 = k := by simpa using List.find?_some he
      have hsame := List.inj_on_of_nodup_map t.distinct (List.mem_of_find?_eq_some he) h hk
      simp [get?, he, hsame]

theorem entries_insert_of_notMem (h : k ∉ t.keys) :
    (t.insert k v).entries = t.entries ++ [(k, v)] := by
  have hnot : ¬ t.contains k = true := by rwa [contains_eq_true_iff]
  simp [insert, hnot]

theorem mem_entries_insert {x : κ × α} (h : x ∈ (t.insert k v).entries) :
    x = (k, v) ∨ x ∈ t.entries := by
  unfold insert at h
  split at h
  · obtain ⟨y, hy, rfl⟩ := List.mem_map.mp h
    unfold replaceEntry
    split
    · exact .inl rfl
    · exact .inr hy
  · rcases List.mem_append.mp h with h | h
    · exact .inr h
    · exact .inl (List.mem_singleton.mp h)

theorem mem_values_insert (h : w ∈ (t.insert k v).values) : w = v ∨ w ∈ t.values := by
  obtain ⟨x, hx, rfl⟩ := List.mem_map.mp h
  rcases mem_entries_insert hx with rfl | hx
  · exact .inl rfl
  · exact .inr (List.mem_map_of_mem hx)

/-- What holds of all values still does when one with the property is set. -/
theorem forall_values_insert {p : α → Prop} (h : ∀ w ∈ t.values, p w) (hv : p v) :
    ∀ w ∈ (t.insert k v).values, p w := by
  intro w hw
  rcases mem_values_insert hw with rfl | hw
  · exact hv
  · exact h w hw

theorem mem_entries_insert_self : (k, v) ∈ (t.insert k v).entries := by
  unfold insert
  split
  next h =>
    obtain ⟨w, hw⟩ := mem_keys_iff.mp ((contains_eq_true_iff t k).mp h)
    exact List.mem_map.mpr ⟨(k, w), hw, by simp [replaceEntry]⟩
  next => simp

theorem mem_entries_insert_of_ne (hk : k' ≠ k) :
    (k', w) ∈ (t.insert k v).entries ↔ (k', w) ∈ t.entries := by
  constructor
  · intro h
    rcases mem_entries_insert h with h | h
    · cases h
      exact absurd rfl hk
    · exact h
  · intro h
    unfold insert
    split
    · exact List.mem_map.mpr ⟨_, h, by simp [replaceEntry, hk]⟩
    · exact List.mem_append_left _ h

theorem get?_insert_self : (t.insert k v).get? k = some v :=
  get?_eq_some_iff.mpr mem_entries_insert_self

theorem get?_insert_of_ne (hk : k' ≠ k) : (t.insert k v).get? k' = t.get? k' := by
  refine Option.ext fun w => ?_
  rw [get?_eq_some_iff, get?_eq_some_iff, mem_entries_insert_of_ne hk]

theorem isSome_get?_insert (h : (t.get? k').isSome) : ((t.insert k v).get? k').isSome := by
  by_cases hk : k' = k
  · subst hk
    rw [get?_insert_self]
    rfl
  · rwa [get?_insert_of_ne hk]

/-- A key that was not in a table before does not touch what was. -/
theorem get?_insert_of_eq_none {t₀ : Table κ α} (hk : t₀.get? k = none) (hk' : t₀.get? k' = some w)
    (h : t.get? k' = some w) : (t.insert k v).get? k' = some w := by
  have hne : k' ≠ k := by
    rintro rfl
    rw [hk] at hk'
    cases hk'
  rw [get?_insert_of_ne hne, h]

theorem forall_values_ofList {p : α → Prop} {xs : List (κ × α)} (h : ∀ x ∈ xs, p x.2) :
    ∀ v ∈ (ofList xs).values, p v := by
  unfold ofList
  refine List.foldlRecOn (motive := fun t : Table κ α => ∀ v ∈ t.values, p v) _ _ (by simp) ?_
  exact fun t ht x hx => forall_values_insert ht (h x hx)

end Table

namespace GraphBuilder

variable {b : GraphBuilder} {name : String} {flags : SymbolFlags} {id s : SymbolId} {t : TypeId}

/-- How many symbols, types and signatures there are. -/
abbrev extent (b : GraphBuilder) : Extent := b.graph.extent

/-- The graph is closed, and the keyword types and the symbol of arrays are there. -/
structure Closed (b : GraphBuilder) : Prop where
  graph : b.graph.Closed
  intrinsics : ∀ t ∈ b.intrinsics.values, t.Within b.extent
  array : arraySymbol.Within b.extent

/-- Builders grow and keep their files and their layout. -/
def growth : Growth GraphBuilder where
  Good := Closed
  Le b b' := b.extent.Le b'.extent ∧ b'.graph.files = b.graph.files ∧ b'.graph.layout = b.graph.layout
  refl _ := ⟨.refl _, rfl, rfl⟩
  trans h h' := ⟨h.1.trans h'.1, h'.2.1.trans h.2.1, h'.2.2.trans h.2.2⟩

/-- What a builder with closed graph grew to, if only parts that mention what is there were added or
changed. -/
theorem Closed.grow {b' : GraphBuilder} (hb : b.Closed) (hle : b.extent.Le b'.extent)
    (hfiles : ∀ f ∈ b'.graph.files, f ∈ b.graph.files ∨ f.Within b'.extent)
    (hsymbols : ∀ x ∈ b'.graph.symbols, x ∈ b.graph.symbols ∨ x.Within b'.extent)
    (htypes : ∀ x ∈ b'.graph.types, x ∈ b.graph.types ∨ x.Within b'.extent)
    (hsignatures : ∀ x ∈ b'.graph.signatures, x ∈ b.graph.signatures ∨ x.Within b'.extent)
    (hintrinsics : ∀ t ∈ b'.intrinsics.values, t ∈ b.intrinsics.values ∨ t.Within b'.extent) :
    b'.Closed where
  graph := {
    files := fun f hf => (hfiles f hf).elim (fun h => (hb.graph.files f h).mono hle) id
    symbols := fun x hx => (hsymbols x hx).elim (fun h => (hb.graph.symbols x h).mono hle) id
    types := fun x hx => (htypes x hx).elim (fun h => (hb.graph.types x h).mono hle) id
    signatures := fun x hx =>
      (hsignatures x hx).elim (fun h => (hb.graph.signatures x h).mono hle) id }
  intrinsics := fun t ht => (hintrinsics t ht).elim (fun h => (hb.intrinsics t h).mono hle) id
  array := hb.array.mono hle

/-! ## Growth -/

section

variable (hb : b.Closed)

include hb

theorem addSymbol_runs (name : String) (flags : SymbolFlags) :
    growth.Runs (fun b => b.addSymbol name flags) b fun id b' => id.Within b'.extent := by
  have hle : b.extent.Le (b.addSymbol name flags).2.extent :=
    ⟨by simp [addSymbol, extent, SymbolGraph.extent], Nat.le_refl _, Nat.le_refl _⟩
  refine ⟨hb.grow hle (fun _ => .inl) ?_ (fun _ => .inl) (fun _ => .inl) (fun _ => .inl), ⟨hle, rfl, rfl⟩,
    by simp [SymbolId.Within, addSymbol, extent, SymbolGraph.extent]⟩
  intro x hx
  rcases Array.mem_push.mp hx with hx | rfl
  · exact .inl hx
  · exact .inr (by constructor <;> simp)

/-- Add a type that may depend on what is there. -/
theorem addType_runs {n : GraphBuilder → TypeNode} (hn : (n b).Within b.extent) :
    growth.Runs (fun b => b.addType (n b)) b fun t b' => t.Within b'.extent := by
  have hle : b.extent.Le (b.addType (n b)).2.extent :=
    ⟨Nat.le_refl _, by simp [addType, extent, SymbolGraph.extent], Nat.le_refl _⟩
  refine ⟨hb.grow hle (fun _ => .inl) (fun _ => .inl) ?_ (fun _ => .inl) (fun _ => .inl), ⟨hle, rfl, rfl⟩,
    by simp [TypeId.Within, addType, extent, SymbolGraph.extent]⟩
  intro x hx
  rcases Array.mem_push.mp hx with hx | rfl
  · exact .inl hx
  · exact .inr (hn.mono hle)

theorem addSignature_runs {x : Signature} (hx : x.Within b.extent) :
    growth.Runs (fun b => b.addSignature x) b fun s b' => s.Within b'.extent := by
  have hle : b.extent.Le (b.addSignature x).2.extent :=
    ⟨Nat.le_refl _, Nat.le_refl _, by simp [addSignature, extent, SymbolGraph.extent]⟩
  refine ⟨hb.grow hle (fun _ => .inl) (fun _ => .inl) (fun _ => .inl) ?_ (fun _ => .inl), ⟨hle, rfl, rfl⟩,
    by simp [SignatureId.Within, addSignature, extent, SymbolGraph.extent]⟩
  intro y hy
  rcases Array.mem_push.mp hy with hy | rfl
  · exact .inl hy
  · exact .inr (hx.mono hle)

theorem addScript_closed (path : String) :
    (b.addScript path).Closed ∧ b.extent.Le (b.addScript path).extent := by
  refine ⟨hb.grow (.refl _) ?_ (fun _ => .inl) (fun _ => .inl) (fun _ => .inl) (fun _ => .inl), .refl _⟩
  intro f hf
  rcases List.mem_append.mp hf with hf | hf
  · exact .inl hf
  · rw [List.mem_singleton.mp hf]
    exact .inr (by simp [SourceFile.Within])

theorem addModule_closed (path : String) :
    (b.addModule path).2.Closed ∧ b.extent.Le (b.addModule path).2.extent ∧
      (b.addModule path).1.Within (b.addModule path).2.extent := by
  obtain ⟨hgood, hle, hid⟩ := addSymbol_runs hb (String.ofList ('"' :: (path.toList ++ ['"'])))
    SymbolFlags.moduleBit
  refine ⟨hgood.grow (.refl _) ?_ (fun _ => .inl) (fun _ => .inl) (fun _ => .inl) (fun _ => .inl),
    hle.1, hid⟩
  intro f hf
  rcases List.mem_append.mp hf with hf | hf
  · exact .inl hf
  · rw [List.mem_singleton.mp hf]
    refine .inr fun id hid' => ?_
    cases hid'
    exact hid

end

/-! ## Updates -/

/-- The builder grew to a closed one and kept its files. -/
def GrownTo (b b' : GraphBuilder) : Prop := b'.Closed ∧ growth.Le b b'

theorem GrownTo.trans {b' b'' : GraphBuilder} (h : b.GrownTo b') (h' : b'.GrownTo b'') :
    b.GrownTo b'' :=
  ⟨h'.1, growth.trans h.2 h'.2⟩

theorem symbol?_modifySymbol (b : GraphBuilder) (id m : SymbolId) (f : Symbol → Symbol) :
    (b.modifySymbol id f).graph.symbol? m =
      if m = id then (b.graph.symbol? m).map f else b.graph.symbol? m := by
  have hindex : id.index = m.index ↔ m = id := by
    cases id
    cases m
    simp [eq_comm]
  simp [modifySymbol, SymbolGraph.symbol?, Array.getElem?_modify, hindex]

theorem mem_modify {α : Type} {a : Array α} {i : Nat} {f : α → α} {x : α} (h : x ∈ a.modify i f) :
    x ∈ a ∨ ∃ y, a[i]? = some y ∧ x = f y := by
  obtain ⟨j, hj, rfl⟩ := Array.mem_iff_getElem.mp h
  have hj' : j < a.size := by simpa using hj
  rw [Array.getElem_modify]
  split
  next hij => exact .inr ⟨a[j], by simp [hij, hj'], rfl⟩
  next => exact .inl (Array.getElem_mem hj')

section

variable (hb : b.Closed)

include hb

theorem modifySymbol_grown_of {f : Symbol → Symbol}
    (hf : ∀ x, b.graph.symbol? id = some x → x.Within b.extent → (f x).Within b.extent) :
    b.GrownTo (b.modifySymbol id f) := by
  have hextent : (b.modifySymbol id f).extent = b.extent := by
    simp [modifySymbol, extent, SymbolGraph.extent]
  have hle : b.extent.Le (b.modifySymbol id f).extent := hextent ▸ .refl _
  refine ⟨hb.grow hle (fun _ => .inl) ?_ (fun _ => .inl) (fun _ => .inl) (fun _ => .inl), hle, rfl, rfl⟩
  intro x hx
  rcases mem_modify hx with hx | ⟨y, hy, rfl⟩
  · exact .inl hx
  · exact .inr (hextent ▸ hf y hy (hb.graph.symbols y (Array.mem_of_getElem? hy)))

theorem modifySymbol_grown {f : Symbol → Symbol}
    (hf : ∀ x, x.Within b.extent → (f x).Within b.extent) : b.GrownTo (b.modifySymbol id f) :=
  modifySymbol_grown_of hb fun x _ => hf x

theorem modifyType_grown {f : TypeNode → TypeNode}
    (hf : ∀ x, x.Within b.extent → (f x).Within b.extent) : b.GrownTo (b.modifyType t f) := by
  have hextent : (b.modifyType t f).extent = b.extent := by
    simp [modifyType, extent, SymbolGraph.extent]
  have hle : b.extent.Le (b.modifyType t f).extent := hextent ▸ .refl _
  refine ⟨hb.grow hle (fun _ => .inl) (fun _ => .inl) ?_ (fun _ => .inl) (fun _ => .inl), hle, rfl, rfl⟩
  intro x hx
  rcases mem_modify hx with hx | ⟨y, hy, rfl⟩
  · exact .inl hx
  · exact .inr (hextent ▸ hf y (hb.graph.types y (Array.mem_of_getElem? hy)))

theorem declare_runs {d : Declaration} (hd : d.Within b.extent) :
    growth.Runs (fun b => b.declare id d) b fun _ _ => True := by
  have hgrown : b.GrownTo (b.modifySymbol id (attach d)) := by
    refine modifySymbol_grown hb fun x hx => { hx with valueDeclaration := ?_, declarations := ?_ }
    · intro i hi
      simp only [attach, List.length_append, List.length_singleton] at hi ⊢
      split at hi
      · cases hi
        omega
      · have := hx.valueDeclaration i hi
        omega
    · intro d' hd'
      rcases List.mem_append.mp hd' with hd' | hd'
      · exact hx.declarations d' hd'
      · rw [List.mem_singleton.mp hd']
        exact hd
  exact ⟨hgrown.1, hgrown.2, trivial⟩

theorem exportAs_grown (hs : s.Within b.extent) : b.GrownTo (b.exportAs id name s) :=
  modifySymbol_grown hb fun _ hx => { hx with exports := Table.forall_values_insert hx.exports hs }

theorem member_grown (hs : s.Within b.extent) : b.GrownTo (b.member id name s) :=
  modifySymbol_grown hb fun _ hx => { hx with members := Table.forall_values_insert hx.members hs }

theorem setType_grown (ht : t.Within b.extent) : b.GrownTo (b.setType id t) := by
  refine modifySymbol_grown hb fun _ hx => { hx with typeId := ?_ }
  intro t' ht'
  cases ht'
  exact ht

theorem setDoc_grown (doc : String) : b.GrownTo (b.setDoc id doc) :=
  modifySymbol_grown hb fun _ hx => { hx with }

theorem addFlags_grown (flags : SymbolFlags) : b.GrownTo (b.addFlags id flags) :=
  modifySymbol_grown hb fun _ hx => { hx with }

theorem aliasTo_grown (hs : s.Within b.extent) : b.GrownTo (b.aliasTo id s) := by
  refine modifySymbol_grown hb fun _ hx => { hx with aliasOf := ?_ }
  intro s' hs'
  cases hs'
  exact hs

theorem modifyDeclaration_grown {index : Nat} {f : Declaration → Declaration}
    (hf : ∀ d, d.Within b.extent → (f d).Within b.extent) :
    b.GrownTo (b.modifyDeclaration id index f) := by
  refine modifySymbol_grown hb fun x hx => { hx with valueDeclaration := ?_, declarations := ?_ }
  · simpa using hx.valueDeclaration
  · intro d hd
    obtain ⟨i, hi, rfl⟩ := List.mem_iff_getElem.mp hd
    rw [List.getElem_modify]
    split
    · exact hf _ (hx.declarations _ (List.getElem_mem _))
    · exact hx.declarations _ (List.getElem_mem _)

theorem addConstructSignature_grown {x : SignatureId} (hx : x.Within b.extent) :
    b.GrownTo (b.addConstructSignature t x) := by
  refine modifyType_grown hb fun n hn => { hn with constructSignatures := ?_ }
  intro y hy
  rcases List.mem_append.mp hy with hy | hy
  · exact hn.constructSignatures y hy
  · rw [List.mem_singleton.mp hy]
    exact hx

end

/-! ## Types -/

section

variable (hb : b.Closed)

include hb

theorem intrinsic_runs (flags : TypeFlags) (display : String) :
    growth.Runs (fun b => b.intrinsic flags display) b fun t b' => t.Within b'.extent := by
  cases hget : b.intrinsics.get? display with
  | some t =>
    have heq : b.intrinsic flags display = (t, b) := by simp [intrinsic, hget]
    refine ⟨?_, ?_, ?_⟩ <;> rw [heq]
    · exact hb
    · exact growth.refl b
    · exact hb.intrinsics t (Table.mem_values_of_get? hget)
  | none =>
    obtain ⟨hgood, hle, ht⟩ := addType_runs hb (n := fun _ => { flags, display }) (by constructor <;> simp)
    have heq : b.intrinsic flags display =
        ((b.addType { flags, display }).1,
          { (b.addType { flags, display }).2 with
            intrinsics := b.intrinsics.insert display (b.addType { flags, display }).1 }) := by
      simp [intrinsic, hget, addType]
    refine ⟨?_, ?_, ?_⟩ <;> rw [heq]
    · refine hgood.grow (.refl _) (fun _ => .inl) (fun _ => .inl) (fun _ => .inl) (fun _ => .inl) ?_
      intro t' ht'
      rcases Table.mem_values_insert ht' with rfl | ht'
      · exact .inr ht
      · exact .inl ht'
    · exact ⟨hle.1, hle.2⟩
    · exact ht

theorem any_runs : growth.Runs any b fun t b' => t.Within b'.extent := intrinsic_runs hb _ _

theorem number_runs : growth.Runs number b fun t b' => t.Within b'.extent := intrinsic_runs hb _ _

theorem literal_runs (value : Literal) :
    growth.Runs (fun b => b.literal value) b fun t b' => t.Within b'.extent :=
  addType_runs hb (by constructor <;> simp)

theorem anonymous_runs (display : String) :
    growth.Runs (fun b => b.anonymous display) b fun t b' => t.Within b'.extent :=
  addType_runs hb (by constructor <;> simp [objectNode])

theorem enumLiteral_runs (hs : s.Within b.extent) (value : Literal) :
    growth.Runs (fun b => b.enumLiteral s value) b fun t b' => t.Within b'.extent :=
  addType_runs hb (by constructor <;> simp [hs])

theorem typeParameter_runs (hs : s.Within b.extent) :
    growth.Runs (fun b => b.typeParameter s) b fun t b' => t.Within b'.extent :=
  addType_runs hb (by constructor <;> simp [hs])

theorem thisType_runs (hs : s.Within b.extent) :
    growth.Runs (fun b => b.thisType s) b fun t b' => t.Within b'.extent :=
  addType_runs hb (by constructor <;> simp [hs])

variable {ts : List TypeId} {xs : List SignatureId}

theorem enumType_runs (hs : s.Within b.extent) (hts : ∀ t ∈ ts, t.Within b.extent) :
    growth.Runs (fun b => b.enumType s ts) b fun t b' => t.Within b'.extent :=
  addType_runs hb ⟨by simp [hs], by simp, hts, by simp, by simp⟩

theorem reference_runs (hs : s.Within b.extent) (hts : ∀ t ∈ ts, t.Within b.extent) :
    growth.Runs (fun b => b.reference s ts) b fun t b' => t.Within b'.extent := by
  cases ts with
  | nil => exact addType_runs hb (by constructor <;> simp [objectNode, hs])
  | cons t ts =>
    exact addType_runs hb ⟨by simp [hs], hts, by simp [objectNode], by simp [objectNode],
      by simp [objectNode]⟩

theorem arrayOf_runs (ht : t.Within b.extent) :
    growth.Runs (fun b => b.arrayOf t) b fun t b' => t.Within b'.extent :=
  addType_runs hb (by constructor <;> simp [objectNode, ht, hb.array])

theorem union_runs (hts : ∀ t ∈ ts, t.Within b.extent) :
    growth.Runs (fun b => b.union ts) b fun t b' => t.Within b'.extent :=
  addType_runs hb ⟨by simp, by simp, hts, by simp, by simp⟩

theorem intersection_runs (hts : ∀ t ∈ ts, t.Within b.extent) :
    growth.Runs (fun b => b.intersection ts) b fun t b' => t.Within b'.extent :=
  addType_runs hb ⟨by simp, by simp, hts, by simp, by simp⟩

theorem tuple_runs (hts : ∀ t ∈ ts, t.Within b.extent) :
    growth.Runs (fun b => b.tuple ts) b fun t b' => t.Within b'.extent :=
  addType_runs hb ⟨by simp [objectNode], hts, by simp [objectNode], by simp [objectNode],
    by simp [objectNode]⟩

theorem functionType_runs (display : GraphBuilder → String) (hxs : ∀ x ∈ xs, x.Within b.extent) :
    growth.Runs (fun b => b.functionType (display b) xs) b fun t b' => t.Within b'.extent :=
  addType_runs hb ⟨by simp [objectNode], by simp [objectNode], by simp [objectNode], hxs,
    by simp [objectNode]⟩

theorem constructorType_runs (hs : s.Within b.extent) (hxs : ∀ x ∈ xs, x.Within b.extent) :
    growth.Runs (fun b => b.constructorType s xs) b fun t b' => t.Within b'.extent :=
  addType_runs hb ⟨by simp [hs], by simp [objectNode], by simp [objectNode], by simp [objectNode], hxs⟩

end

/-! ## Reading -/

section

variable (hb : b.Closed)

include hb

theorem within_of_exportsOf : ∀ x ∈ (b.exportsOf id).values, x.Within b.extent := by
  unfold exportsOf
  cases h : b.graph.symbol? id with
  | none => simp
  | some x => exact (hb.graph.symbols x (Array.mem_of_getElem? h)).exports

theorem within_of_membersOf : ∀ x ∈ (b.membersOf id).values, x.Within b.extent := by
  unfold membersOf
  cases h : b.graph.symbol? id with
  | none => simp
  | some x => exact (hb.graph.symbols x (Array.mem_of_getElem? h)).members

theorem within_of_aliasOf (h : b.aliasOf id = some s) : s.Within b.extent := by
  obtain ⟨x, hx, hs⟩ := Option.bind_eq_some_iff.mp h
  exact (hb.graph.symbols x (Array.mem_of_getElem? hx)).aliasOf s hs

end

/-- The library alone is closed. -/
theorem start_closed : start.Closed where
  graph := {
    files := by simp [start, declare, modifySymbol, addSymbol, SourceFile.Within]
    symbols := by
      intro x hx
      obtain ⟨i, hi, rfl⟩ := Array.mem_iff_getElem.mp hx
      obtain rfl : i = 0 := by simpa [start, declare, modifySymbol, addSymbol] using hi
      have hsymbol : start.graph.symbols[0] =
          attach libraryDeclaration { name := "Array", flags := SymbolFlags.interfaceBit } := rfl
      have hdeclaration : libraryDeclaration.Within start.extent := ⟨by simp [libraryDeclaration],
        by simp [libraryDeclaration]⟩
      rw [hsymbol]
      exact ⟨by simp [attach], by simp [attach],
        by simp [attach], by simp [attach], by simp [attach, libraryDeclaration, DeclarationKind.isValue],
        by simpa [attach] using hdeclaration⟩
    types := by simp [start, declare, modifySymbol, addSymbol]
    signatures := by simp [start, declare, modifySymbol, addSymbol] }
  intrinsics := by simp [start, declare, modifySymbol, addSymbol]
  array := by
    simp [start, declare, modifySymbol, addSymbol, arraySymbol, SymbolId.Within, extent,
      SymbolGraph.extent]

end GraphBuilder

end ApiDocs
