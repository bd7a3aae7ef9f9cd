import ApiDocs.Proofs.Extract.WalkState

/-!
# Linking bases

At the end of a walk, the references that were noted for a class are turned into the classes they lead
to. `WalkState.linked` says what becomes of one class, whatever else is linked before or after it; so
the order in which classes were noted does not matter.

## Main definitions

* `WalkState.linked`: a class with the bases that some references lead to.
-/

namespace ApiDocs.WalkState

variable {g : SymbolGraph} {refs : RefTable SymbolId} {id c : ClassId} {classes : Array ClassDoc}

/-- A class with the base that a reference leads to. -/
def linkedBase (refs : RefTable SymbolId) (id : ClassId) (d : ClassDoc) (ref : RefId) : ClassDoc :=
  match (refs.get? ref).bind (·.target) with
  | some (.toClass base) => extend id base d
  | _ => d

/-- A class with the bases that some references lead to. -/
def linked (refs : RefTable SymbolId) (id : ClassId) (rs : List RefId) (d : ClassDoc) : ClassDoc :=
  rs.foldl (linkedBase refs id) d

theorem linked_nil : linked refs id [] = fun d => d := rfl

theorem linked_cons (r : RefId) (rs : List RefId) :
    linked refs id (r :: rs) = linked refs id rs ∘ (linkedBase refs id · r) := rfl

theorem linked_append (rs rs' : List RefId) :
    linked refs id (rs ++ rs') = linked refs id rs' ∘ linked refs id rs := by
  funext d
  exact List.foldl_append

/-- Only the list of bases changes, and it gets only what references lead to. -/
theorem linked_eq (refs : RefTable SymbolId) (id : ClassId) (rs : List RefId) (d : ClassDoc) :
    linked refs id rs d = { d with extendList := (linked refs id rs d).extendList } ∧
      ∀ base ∈ (linked refs id rs d).extendList, base ∈ d.extendList ∨
        ∃ r ∈ rs, (refs.get? r).bind (·.target) = some (.toClass base) := by
  induction rs generalizing d with
  | nil => exact ⟨rfl, fun base hb => .inl hb⟩
  | cons r rs ih =>
    have hstep : linkedBase refs id d r = { d with extendList := (linkedBase refs id d r).extendList } ∧
        ∀ base ∈ (linkedBase refs id d r).extendList, base ∈ d.extendList ∨
          (refs.get? r).bind (·.target) = some (.toClass base) := by
      unfold linkedBase
      split
      next base ht =>
        unfold extend
        split
        · exact ⟨rfl, fun b hb => .inl hb⟩
        · refine ⟨rfl, fun b hb => ?_⟩
          rcases List.mem_append.mp hb with hb | hb
          · exact .inl hb
          · exact .inr (by rw [List.mem_singleton.mp hb, ht])
      next => exact ⟨rfl, fun b hb => .inl hb⟩
    obtain ⟨hrest, hbases⟩ := ih (linkedBase refs id d r)
    rw [linked_cons, Function.comp_apply]
    refine ⟨?_, fun base hb => ?_⟩
    · rw [hrest, hstep.1]
    · rcases hbases base hb with hb | ⟨r', hr', ht⟩
      · rcases hstep.2 base hb with hb | ht
        · exact .inl hb
        · exact .inr ⟨r, by simp, ht⟩
      · exact .inr ⟨r', by simp [hr'], ht⟩

/-- One reference is linked in the class it was noted for. -/
theorem linkBase_eq_ok {r : RefId} (hr : r.index < refs.records.size)
    (hid : id.index < classes.size) :
    ∃ classes', linkBase refs id classes r = .ok classes' ∧ classes'.size = classes.size ∧
      ∀ i, classes'[i]? =
        if id.index = i then (classes[i]?).map (linkedBase refs id · r) else classes[i]? := by
  have hget : refs.get? r = some refs.records[r.index].2 := by
    simp [RefTable.get?, Array.getElem?_eq_getElem hr]
  have hgetRef : refs.getRef r = .ok refs.records[r.index].2 := by simp [RefTable.getRef, hget]
  unfold linkBase linkedBase
  rw [hgetRef, hget]
  change ∃ classes', (match refs.records[r.index].2.target with
    | some (.toClass base) => modifyAt .classes classes id.index (extend id base)
    | _ => return classes) = .ok classes' ∧ _
  simp only [Option.bind_some]
  split
  next base ht =>
    refine ⟨_, by rw [modifyAt, if_pos hid], by simp, fun i => ?_⟩
    rw [Array.getElem?_modify]
  next ht =>
    exact ⟨classes, rfl, rfl, fun i => by simp⟩

/-- All references noted together are linked in the class they were noted for. -/
theorem linkBases_eq_ok {rs : List RefId} (hr : ∀ r ∈ rs, r.index < refs.records.size)
    (hid : id.index < classes.size) :
    ∃ classes', linkBases refs classes (id, rs) = .ok classes' ∧ classes'.size = classes.size ∧
      ∀ i, classes'[i]? =
        if id.index = i then (classes[i]?).map (linked refs id rs) else classes[i]? := by
  unfold linkBases
  induction rs generalizing classes with
  | nil => exact ⟨classes, rfl, rfl, fun i => by simp [linked_nil]⟩
  | cons r rs ih =>
    obtain ⟨classes₁, h₁, hsize₁, hget₁⟩ := linkBase_eq_ok (hr r (by simp)) hid
    obtain ⟨classes₂, h₂, hsize₂, hget₂⟩ :=
      ih (fun r' hr' => hr r' (by simp [hr'])) (show id.index < classes₁.size by omega)
    refine ⟨classes₂, ?_, hsize₂.trans hsize₁, fun i => ?_⟩
    · rw [List.foldlM_cons]
      change (linkBase refs id classes r >>= _) = _
      rw [h₁]
      exact h₂
    · rw [hget₂, hget₁]
      by_cases hi : id.index = i
      · simp [hi, linked_cons]
      · simp [hi]

/-- **Linking.** Every class gets the bases that the references noted for it lead to. -/
theorem finish_eq_ok {s : WalkState} (hs : s.Sound g) :
    ∃ classes : Array ClassDoc, s.finish = .ok { classes, enums := s.enums, refs := s.refs.refs } ∧
      classes.size = s.classes.size ∧
      ∀ c : ClassId, classes[c.index]? =
        (s.classes[c.index]?).map (linked s.refs c (s.noted c)) := by
  have hloop : ∀ (pending : List (ClassId × List RefId)) (classes : Array ClassDoc),
      (∀ p ∈ pending, p.1.index < classes.size ∧ ∀ r ∈ p.2, r.index < s.refs.records.size) →
      ∃ classes', pending.foldlM (linkBases s.refs) classes = .ok classes' ∧
        classes'.size = classes.size ∧ ∀ c : ClassId, classes'[c.index]? =
          (classes[c.index]?).map
            (linked s.refs c ((pending.filter (·.1 = c)).flatMap (·.2))) := by
    intro pending
    induction pending with
    | nil => exact fun classes _ => ⟨classes, rfl, rfl, fun c => by simp [linked_nil]⟩
    | cons p pending ih =>
      intro classes hin
      obtain ⟨hid, hr⟩ := hin p (by simp)
      obtain ⟨classes₁, h₁, hsize₁, hget₁⟩ := linkBases_eq_ok hr hid
      obtain ⟨classes₂, h₂, hsize₂, hget₂⟩ := ih classes₁ fun q hq => by
        rw [hsize₁]
        exact hin q (by simp [hq])
      refine ⟨classes₂, ?_, hsize₂.trans hsize₁, fun c => ?_⟩
      · rw [List.foldlM_cons, h₁]
        exact h₂
      · rw [hget₂, hget₁]
        by_cases hc : p.1 = c
        · subst hc
          simp [linked_append]
        · have hne : ¬ p.1.index = c.index := fun h => hc (by cases hp : p.1; cases c; simp_all)
          simp [hc, hne]
  obtain ⟨classes, hfold, hsize, hget⟩ := hloop s.pendingExtends s.classes hs.pending
  refine ⟨classes, ?_, hsize, hget⟩
  unfold finish
  rw [hfold]
  rfl

end ApiDocs.WalkState
