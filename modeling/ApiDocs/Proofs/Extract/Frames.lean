import ApiDocs.Extract.Walk
import ApiDocs.Proofs.Computation

/-!
# What a walk leaves alone

A class is entered bare, its position is handed out, and it is filled in only after what is nested in it
was built, which may be any number of other classes. Whatever the state, the graph and the depth: an
operation of the walk that succeeds leaves the classes alone that were there before, be they bare or filled
in, and the classes it adds extend nothing. Nothing is asked of the state, so this holds at every moment of
a walk, between the entering and the filling in of a class as well as after it.

## Main definitions

* `WalkState.Framed`: old classes are as they were, and new ones extend nothing.
* `Walk.Frames`: a computation that leads to framed states.

## Main results

* `Walk.assemble_frames`: building the record of a symbol leaves the classes alone that are there.
-/

namespace ApiDocs

/-- From `s` to `s'`, the classes that were there are as they were, and the new ones extend nothing. -/
structure WalkState.Framed (s s' : WalkState) : Prop where
  old : ∀ {i : Nat}, i < s.classes.size → s'.classes[i]? = s.classes[i]?
  unlinked : ∀ {i : Nat} {d : ClassDoc}, s.classes.size ≤ i → s'.classes[i]? = some d →
    d.extendList = []

namespace WalkState.Framed

variable {s s' s'' : WalkState}

theorem of_classes_eq (h : s'.classes = s.classes) : s.Framed s' where
  old _ := by rw [h]
  unlinked hi hd := by
    rw [h] at hd
    exact absurd (Array.getElem?_eq_some_iff.mp hd).1 (by omega)

theorem refl (s : WalkState) : s.Framed s := of_classes_eq rfl

theorem size_le (h : s.Framed s') : s.classes.size ≤ s'.classes.size := by
  by_contra hlt
  have hi : s'.classes.size < s.classes.size := by omega
  have hget := h.old hi
  rw [Array.getElem?_eq_getElem hi] at hget
  exact absurd (Array.getElem?_eq_some_iff.mp hget).1 (by omega)

theorem trans (h : s.Framed s') (h' : s'.Framed s'') : s.Framed s'' where
  old hi := (h'.old (Nat.lt_of_lt_of_le hi h.size_le)).trans (h.old hi)
  unlinked {i d} hi hd := by
    by_cases hmid : i < s'.classes.size
    · rw [h'.old hmid] at hd
      exact h.unlinked hi hd
    · exact h'.unlinked (by omega) hd

/-- A class that extends nothing is put behind the others. -/
theorem push {d : ClassDoc} (hd : d.extendList = []) (h : s'.classes = s.classes.push d) :
    s.Framed s' where
  old hi := by rw [h, Array.getElem?_push, if_neg (by omega)]
  unlinked {i d'} hi hd' := by
    rw [h, Array.getElem?_push] at hd'
    by_cases hlast : i = s.classes.size
    · rw [if_pos hlast] at hd'
      rw [← Option.some.inj hd', hd]
    · rw [if_neg hlast] at hd'
      exact absurd (Array.getElem?_eq_some_iff.mp hd').1 (by omega)

/-- A new class is changed in what it does not extend. -/
theorem modify (h : s.Framed s') {c : Nat} (hc : s.classes.size ≤ c) {f : ClassDoc → ClassDoc}
    (hf : ∀ d, (f d).extendList = d.extendList) (hs'' : s''.classes = s'.classes.modify c f) :
    s.Framed s'' where
  old {i} hi := by
    rw [hs'', Array.getElem?_modify, if_neg (by omega)]
    exact h.old hi
  unlinked {i d} hi hd := by
    rw [hs'', Array.getElem?_modify] at hd
    by_cases hic : c = i
    · rw [if_pos hic] at hd
      obtain ⟨d', hd', rfl⟩ := Option.map_eq_some_iff.mp hd
      rw [hf]
      exact h.unlinked hi hd'
    · rw [if_neg hic] at hd
      exact h.unlinked hi hd

end WalkState.Framed

namespace Walk

variable {α β : Type} {x : Walk α}

/-- If it succeeds, the computation leaves the classes alone that were there. -/
def Frames (x : Walk α) : Prop := ∀ s, Yields (fun _ => True) x s fun _ s' => s.Framed s'

/-! ## The rules -/

theorem frames_pure (a : α) : Frames (pure a) := fun s => yields_pure (.refl s)

theorem Frames.bind {f : α → Walk β} (hx : Frames x) (hf : ∀ a, Frames (f a)) : Frames (x >>= f) := by
  intro s
  refine yields_bind ((hx s).mono fun a s₁ h₁ => ?_)
  exact (hf a s₁).mono fun b s₂ h₂ => h₁.trans h₂

theorem frames_lift (y : Except ExtractError α) : Frames (liftM y) :=
  fun s => yields_lift (fun _ _ => .refl s) fun _ _ => trivial

/-- A failure leaves nothing to say. -/
theorem frames_throw (e : ExtractError) : Frames (throw e : Walk α) := fun _ => trivial

theorem frames_mapM {f : β → Walk α} (hf : ∀ b, Frames (f b)) (l : List β) : Frames (l.mapM f) := by
  induction l with
  | nil => exact frames_pure []
  | cons b l ih =>
    rw [List.mapM_cons]
    exact (hf b).bind fun a => ih.bind fun as => frames_pure (a :: as)

theorem frames_foldlM {f : α → β → Walk α} (hf : ∀ a b, Frames (f a b)) (l : List β) (a : α) :
    Frames (l.foldlM f a) := by
  induction l generalizing a with
  | nil => exact frames_pure a
  | cons b l ih =>
    rw [List.foldlM_cons]
    exact (hf a b).bind ih

theorem frames_optionMapM {f : β → Walk α} (hf : ∀ b, Frames (f b)) (o : Option β) :
    Frames (o.mapM f) := by
  cases o with
  | none => exact frames_pure none
  | some b => exact fun s => yields_map (hf b s)

/-! ## Values -/

section

variable (g : SymbolGraph)

theorem describe_frames (id : TypeId) : Frames (describe g id) := by
  intro s
  refine yields_bind (yields_get (yields_bind (yields_lift (fun r _ => ?_) fun _ _ => trivial)))
  exact yields_bind (yields_set (yields_pure (.of_classes_eq rfl)))

theorem requestRef_frames (symbol : SymbolId) (name : String) (target : Option RefTarget) :
    Frames (requestRef symbol name target) :=
  fun _ => yields_modifyGet (.of_classes_eq rfl)

theorem existingTarget_frames (v : SymbolView) : Frames (existingTarget v) := by
  intro s
  refine yields_bind (yields_get ?_)
  dsimp only
  split
  · exact yields_pure (.refl s)
  · exact (frames_lift _).bind (fun _ => frames_pure _) s

theorem identifier_frames (v : SymbolView) (optional : Bool) : Frames (identifier g v optional) := by
  refine (frames_optionMapM (describe_frames g) _).bind fun _ => ?_
  exact (frames_optionMapM (fun _ => frames_lift _) _).bind fun _ => frames_pure _

theorem parameter_frames (id : SymbolId) : Frames (parameter g id) :=
  (frames_lift _).bind fun v => identifier_frames g v _

theorem signature_frames (id : SignatureId) : Frames (signature g id) := by
  refine (frames_lift _).bind fun s => (describe_frames g _).bind fun _ => ?_
  exact (frames_mapM (parameter_frames g) _).bind fun _ => frames_pure _

theorem function_frames (v : SymbolView) : Frames (function g v) := by
  unfold function
  split
  · exact frames_pure _
  · refine (frames_lift _).bind fun t => ?_
    exact (frames_mapM (signature_frames g) _).bind fun _ => frames_pure _

theorem indexTypes_frames (v : SymbolView) : Frames (indexTypes g v) := by
  unfold indexTypes
  split
  · exact frames_pure _
  · refine (frames_optionMapM (describe_frames g) _).bind fun _ => ?_
    exact (frames_optionMapM (describe_frames g) _).bind fun _ => frames_pure _

/-! ## Enums -/

theorem enumMembers_frames (s : Symbol) : Frames (enumMembers g s) := by
  refine (frames_lift _).bind fun ids => frames_mapM (fun id => ?_) ids
  exact (frames_lift _).bind fun v => identifier_frames g v false

theorem enterEnum_frames (v : SymbolView) : Frames (enterEnum v) := by
  intro s
  refine yields_bind (yields_get (yields_bind (yields_modify ?_)))
  exact yields_bind (yields_modifyGet (yields_pure (.of_classes_eq rfl)))

theorem fillEnum_frames (id : EnumId) (members : List IdentifierDoc) : Frames (fillEnum id members) := by
  intro s
  refine yields_bind (yields_get (yields_bind (yields_lift (fun _ _ => ?_) fun _ _ => trivial)))
  exact yields_set (.of_classes_eq rfl)

theorem buildEnum_frames (v : SymbolView) : Frames (buildEnum g v) := by
  have hbody : Frames (enumBody g v) := by
    refine (enterEnum_frames v).bind fun id => (frames_lift _).bind fun symbol => ?_
    exact (enumMembers_frames g symbol).bind fun members =>
      (fillEnum_frames id members).bind fun _ => frames_pure id
  refine (existingTarget_frames v).bind fun r => ?_
  split
  · exact frames_pure _
  · exact hbody

/-! ## Classes -/

theorem addMember_frames (body : ClassBody) (id : SymbolId) : Frames (addMember g body id) := by
  refine (frames_lift _).bind fun v => ?_
  split
  · exact frames_pure _
  split
  · exact (function_frames g v).bind fun _ => frames_pure _
  split
  · exact (identifier_frames g v _).bind fun _ => frames_pure _
  split
  · exact (indexTypes_frames g v).bind fun _ => frames_pure _
  · exact frames_pure _

theorem constructors_frames (v : SymbolView) : Frames (constructors g v) := by
  unfold constructors
  split
  · exact frames_pure _
  · exact (frames_lift _).bind fun t => frames_mapM (signature_frames g) _

variable (limit : Nat)

theorem heritageRef_frames (base : SymbolId) : Frames (heritageRef g limit base) := by
  refine (frames_lift _).bind fun symbol => (frames_lift _).bind fun r => ?_
  split
  · exact frames_pure _
  · refine (frames_lift _).bind fun target => ?_
    split
    · exact frames_pure _
    · exact (requestRef_frames _ _ _).bind fun _ => frames_pure _

theorem noteHeritage_frames (c : ClassId) (v : SymbolView) : Frames (noteHeritage g limit c v) := by
  refine (frames_mapM (heritageRef_frames g limit) _).bind fun refs => ?_
  dsimp only
  split
  · exact fun _ => yields_modify (.of_classes_eq rfl)
  · exact frames_pure _

/-- A class that is opened is put behind the others. -/
theorem openClass_framed (v : SymbolView) (kind : ClassKind) (s : WalkState) :
    Yields (fun _ => True) (openClass g limit v kind) s fun c s' =>
      s.Framed s' ∧ c.id = ⟨s.classes.size⟩ := by
  have henter : Yields (fun _ => True) (enterClass v kind) s fun c s' =>
      s.Framed s' ∧ c = ⟨s.classes.size⟩ := by
    refine yields_bind (yields_get (yields_bind (yields_modify ?_)))
    exact yields_bind (yields_modifyGet (yields_pure ⟨.push rfl rfl, rfl⟩))
  refine yields_bind (henter.mono ?_)
  rintro c s₁ ⟨h₁, rfl⟩
  refine yields_bind ((constructors_frames g v s₁).mono fun constructors s₂ h₂ => ?_)
  refine yields_bind (yields_lift (fun symbol _ => ?_) fun _ _ => trivial)
  refine yields_bind ((frames_foldlM (addMember_frames g) _ _ s₂).mono fun body s₃ h₃ => ?_)
  refine yields_bind ((noteHeritage_frames g limit _ v s₃).mono fun _ s₄ h₄ => ?_)
  refine yields_bind (yields_lift (fun nested _ => ?_) fun _ _ => trivial)
  exact yields_pure ⟨h₁.trans (h₂.trans (h₃.trans h₄)), rfl⟩

theorem extendList_fill (c : OpenClass) (exports : ModuleDoc) (d : ClassDoc) :
    (c.fill exports d).extendList = d.extendList := by
  have hfold : ∀ (l : List SignatureDoc) (d : ClassDoc),
      (l.foldl ClassDoc.addConstructor d).extendList = d.extendList := by
    intro l
    induction l with
    | nil => exact fun _ => rfl
    | cons x l ih => exact fun d => ih (d.addConstructor x)
  exact hfold c.constructors d

/-- A new class is filled in, which leaves alone what it extends. -/
theorem fillClass_framed {s s' : WalkState} (h : s.Framed s') {c : OpenClass}
    (hc : s.classes.size ≤ c.id.index) (exports : ModuleDoc) :
    Yields (fun _ => True) (fillClass c exports) s' fun _ s'' => s.Framed s'' := by
  refine yields_bind (yields_get (yields_bind (yields_lift (fun classes hclasses => ?_) fun _ _ => trivial)))
  simp only [modifyAt] at hclasses
  split at hclasses
  · cases hclasses
    exact yields_set (h.modify hc (extendList_fill c exports) rfl)
  · cases hclasses

/-- Only the class that was opened is filled in, which is a new one. -/
theorem classBody_frames {nested : SymbolView → ModuleDoc → Walk ModuleDoc}
    (hnested : ∀ v m, Frames (nested v m)) (v : SymbolView) (kind : ClassKind) :
    Frames (classBody g limit nested v kind) := by
  intro s
  refine yields_bind ((openClass_framed g limit v kind s).mono ?_)
  rintro c s₁ ⟨h₁, hc⟩
  have hloop : Frames (c.nested.foldlM (fun m id => do nested (← g.view id) m) ({} : ModuleDoc)) :=
    frames_foldlM (fun m id => (frames_lift _).bind fun v => hnested v m) _ _
  refine yields_bind ((hloop s₁).mono fun exports s₂ h₂ => ?_)
  have hindex : s.classes.size ≤ c.id.index := by simp [hc]
  refine yields_bind ((fillClass_framed (h₁.trans h₂) hindex exports).mono ?_)
  exact fun _ _ h => yields_pure h

theorem buildClass_frames {nested : SymbolView → ModuleDoc → Walk ModuleDoc}
    (hnested : ∀ v m, Frames (nested v m)) (v : SymbolView) (kind : ClassKind) :
    Frames (buildClass g limit nested v kind) := by
  refine (existingTarget_frames v).bind fun r => ?_
  split
  · exact frames_pure _
  · exact classBody_frames g limit hnested v kind

/-- **Building the record of a symbol leaves the classes alone that are there**, in any graph, from any
state and with any depth left. The recursion is that of the nesting. -/
theorem assemble_frames (depth : Nat) (v : SymbolView) (m : ModuleDoc) :
    Frames (assemble g limit depth v m) := by
  unfold assemble
  split
  · exact (function_frames g v).bind fun _ => frames_pure _
  · exact (buildEnum_frames g v).bind fun _ => frames_pure _
  · exact (identifier_frames g v _).bind fun _ => frames_pure _
  next kind _ =>
    match depth with
    | 0 => exact frames_throw _
    | depth + 1 =>
      refine (buildClass_frames g limit (assemble_frames depth) v kind).bind fun c => ?_
      cases kind with
      | ofClass => exact frames_pure _
      | ofInterface => exact frames_pure _
  · exact frames_pure _
  · exact frames_pure _

end

end Walk

end ApiDocs
