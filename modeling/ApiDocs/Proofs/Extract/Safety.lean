import ApiDocs.Graph.Codec
import ApiDocs.Proofs.Extract.Extraction

/-!
# Safety of extraction

A walk over a valid graph never looks where nothing is: it ends with a documentation, or it fails
because of a chain of aliases. Whatever cycles the graph has, no class or enum is built twice. To say
so of all walks, also of those that fail, a traced walk writes down the symbol of each class and enum
right before it is built. Without what it wrote down it is the walk itself.

## Main definitions

* `Traced`: walks that write down whose building they enter.
* `Traced.Erases`: a traced walk is another walk, but for what it writes down.
* `SymbolGraph.extractTraced`: extraction with the symbols that were entered.
-/

namespace ApiDocs

/-- The state of a walk, and the symbols whose building was entered, in order. -/
structure TracedState where
  walk : WalkState := {}
  entered : List SymbolId := []

/-- A walk that writes down whose building it enters. Also a failure says so. -/
abbrev Traced := StateT TracedState (Except (ExtractError × List SymbolId))

namespace Traced

variable {α β : Type}

/-- A walk that enters no building. -/
def lift (x : Walk α) : Traced α := fun s =>
  match x s.walk with
  | .ok (a, walk) => .ok (a, { s with walk })
  | .error e => .error (e, s.entered)

/-- Write down that the building of a symbol is entered. -/
def enter (id : SymbolId) : Traced PUnit :=
  modify fun s => { s with entered := s.entered ++ [id] }

variable (g : SymbolGraph)

/-- An enum, built on first sight. -/
def buildEnum (v : SymbolView) : Traced EnumId := do
  if let some (.toEnum existing) ← lift (Walk.existingTarget v) then return existing
  enter v.symbol
  lift (Walk.enumBody g v)

/-- The building of a class that was not built before. -/
def classBody (limit : Nat) (nested : SymbolView → ModuleDoc → Traced ModuleDoc)
    (v : SymbolView) (kind : ClassKind) : Traced ClassId := do
  let c ← lift (Walk.openClass g limit v kind)
  let exports ← c.nested.foldlM (fun m id => do nested (← lift (g.view id)) m) {}
  lift (Walk.fillClass c exports)
  return c.id

/-- A class, built on first sight. -/
def buildClass (limit : Nat) (nested : SymbolView → ModuleDoc → Traced ModuleDoc)
    (v : SymbolView) (kind : ClassKind) : Traced ClassId := do
  if let some (.toClass existing) ← lift (Walk.existingTarget v) then return existing
  enter v.symbol
  classBody g limit nested v kind

/-- The record of a symbol, added to a module. -/
def assemble (limit : Nat) : Nat → SymbolView → ModuleDoc → Traced ModuleDoc
  | depth, v, m =>
    match v.kind.map DeclarationKind.route with
    | some .toFunction => do
      return { m with functionList := m.functionList ++ [← lift (Walk.function g v)] }
    | some .toEnum => do return { m with enumList := m.enumList ++ [← buildEnum g v] }
    | some .toVariable => do
      return { m with variableList := m.variableList ++ [← lift (Walk.identifier g v false)] }
    | some (.toClass kind) =>
      match depth with
      | 0 => lift (throw .nestingExceeded)
      | depth + 1 => do
        let id ← buildClass g limit (assemble limit depth) v kind
        match kind with
        | .ofClass => return { m with classList := m.classList ++ [id] }
        | .ofInterface => return { m with interfaceList := m.interfaceList ++ [id] }
    | some .skip => return m
    | none => return m

end Traced

namespace SymbolGraph

variable (g : SymbolGraph) (o : ExtractOptions)

/-- The record of one export. -/
def documentExportTraced (entry : String × SymbolId) : Traced (List ModuleDoc) := do
  match ← Traced.lift (g.resolveAlias o.maxAliasDepth entry.1 entry.2) with
  | none => return []
  | some id =>
    let v ← Traced.lift (g.view id)
    if v.declaration.isNone then return []
    return [← Traced.assemble g o.maxAliasDepth (g.symbols.size + 1) v {}]

/-- The records of one file. -/
def documentFileTraced (file : SourceFile) : Traced (List ModuleDoc) := do
  let exports ← Traced.lift (g.sortedExports file)
  return (← exports.mapM (g.documentExportTraced o)).flatten

/-- Extraction, with the symbols whose building was entered. -/
def extractTraced : Except ExtractError Documentation × List SymbolId :=
  let files := g.ownFiles.filter (g.accepts o)
  match (files.mapM (g.documentFileTraced o)).run {} with
  | .ok (modules, s) => (do return { ← s.walk.finish with modules := modules.flatten }, s.entered)
  | .error (e, entered) => (.error e, entered)

end SymbolGraph

/-! ## Traced walks are walks -/

namespace Traced

variable {α β : Type} {x : Walk α} {y : Traced α}

/-- What a traced walk does, without what it wrote down. -/
def forget : Except (ExtractError × List SymbolId) (α × TracedState) →
    Except ExtractError (α × WalkState)
  | .ok (a, s) => .ok (a, s.walk)
  | .error (e, _) => .error e

/-- The traced walk does what the walk does. -/
def Erases (y : Traced α) (x : Walk α) : Prop := ∀ s, forget (y s) = x s.walk

theorem erases_pure (a : α) : Erases (pure a) (pure a) := fun _ => rfl

theorem erases_lift (x : Walk α) : Erases (lift x) x := by
  intro s
  unfold lift
  split
  next h => rw [h]; rfl
  next h => rw [h]; rfl

theorem erases_bind {k' : α → Traced β} {k : α → Walk β} (hx : Erases y x)
    (hk : ∀ a, Erases (k' a) (k a)) : Erases (y >>= k') (x >>= k) := by
  intro s
  change forget (y s >>= fun r => k' r.1 r.2) = (x s.walk >>= fun r => k r.1 r.2)
  rw [← hx s]
  cases h : y s with
  | ok r => exact hk r.1 r.2
  | error e => rfl

theorem erases_enter {id : SymbolId} (h : Erases y x) : Erases (enter id >>= fun _ => y) x :=
  fun s => h { s with entered := s.entered ++ [id] }

theorem erases_mapM {f' : β → Traced α} {f : β → Walk α} (h : ∀ b, Erases (f' b) (f b))
    (l : List β) : Erases (l.mapM f') (l.mapM f) := by
  induction l with
  | nil => exact erases_pure []
  | cons b l ih =>
    rw [List.mapM_cons, List.mapM_cons]
    exact erases_bind (h b) fun a => erases_bind ih fun as => erases_pure _

theorem erases_foldlM {f' : α → β → Traced α} {f : α → β → Walk α}
    (h : ∀ a b, Erases (f' a b) (f a b)) (l : List β) (a : α) :
    Erases (l.foldlM f' a) (l.foldlM f a) := by
  induction l generalizing a with
  | nil => exact erases_pure a
  | cons b l ih =>
    rw [List.foldlM_cons, List.foldlM_cons]
    exact erases_bind (h a b) ih

variable {g : SymbolGraph} {limit : Nat}

theorem erases_buildEnum (v : SymbolView) : Erases (buildEnum g v) (Walk.buildEnum g v) := by
  refine erases_bind (erases_lift _) fun r => ?_
  rcases r with _ | c | e
  · exact erases_enter (erases_lift _)
  · exact erases_enter (erases_lift _)
  · exact erases_pure e

theorem erases_buildClass {nested' : SymbolView → ModuleDoc → Traced ModuleDoc}
    {nested : SymbolView → ModuleDoc → Walk ModuleDoc} (h : ∀ v m, Erases (nested' v m) (nested v m))
    (v : SymbolView) (kind : ClassKind) :
    Erases (buildClass g limit nested' v kind) (Walk.buildClass g limit nested v kind) := by
  have hbody : Erases (classBody g limit nested' v kind) (Walk.classBody g limit nested v kind) := by
    refine erases_bind (erases_lift _) fun c => erases_bind (erases_foldlM (fun m id => ?_) _ _) ?_
    · exact erases_bind (erases_lift _) fun v => h v m
    · exact fun exports => erases_bind (erases_lift _) fun _ => erases_pure _
  refine erases_bind (erases_lift _) fun r => ?_
  rcases r with _ | c | e
  · exact erases_enter hbody
  · exact erases_pure c
  · exact erases_enter hbody

theorem erases_assemble :
    ∀ depth v m, Erases (assemble g limit depth v m) (Walk.assemble g limit depth v m) := by
  -- The depth counts only where a class is nested, so that is where it is looked at.
  intro depth
  induction depth using Nat.strong_induction_on with
  | _ depth ih =>
    intro v m
    unfold assemble Walk.assemble
    rcases v.kind.map DeclarationKind.route with _ | _ | _ | kind | _ | _
    · exact erases_pure m
    · exact erases_bind (erases_lift _) fun _ => erases_pure _
    · exact erases_bind (erases_buildEnum v) fun _ => erases_pure _
    · cases depth with
      | zero => exact erases_lift _
      | succ depth =>
        refine erases_bind (erases_buildClass (ih depth (Nat.lt_succ_self depth)) v kind) fun c => ?_
        cases kind <;> exact erases_pure _
    · exact erases_bind (erases_lift _) fun _ => erases_pure _
    · exact erases_pure m

end Traced

namespace SymbolGraph

variable {g : SymbolGraph} {o : ExtractOptions}

theorem erases_documentFile (file : SourceFile) :
    Traced.Erases (g.documentFileTraced o file) (g.documentFile o file) := by
  have hexport : ∀ entry, Traced.Erases (g.documentExportTraced o entry) (g.documentExport o entry) := by
    intro entry
    refine Traced.erases_bind (Traced.erases_lift _) fun r => ?_
    cases r with
    | none => exact Traced.erases_pure _
    | some id =>
      refine Traced.erases_bind (Traced.erases_lift _) fun v => ?_
      split
      · exact Traced.erases_pure _
      · exact Traced.erases_bind (Traced.erases_assemble _ v {}) fun _ => Traced.erases_pure _
  refine Traced.erases_bind (Traced.erases_lift _) fun exports => ?_
  exact Traced.erases_bind (Traced.erases_mapM hexport _) fun _ => Traced.erases_pure _

/-- Extraction does the same whether it is traced or not. -/
theorem extractTraced_fst (g : SymbolGraph) (o : ExtractOptions) :
    (g.extractTraced o).1 = g.extract o := by
  have herase := Traced.erases_mapM (fun file => erases_documentFile (g := g) (o := o) file)
    (g.ownFiles.filter (g.accepts o)) {}
  unfold extractTraced extract
  simp only [StateT.run]
  rw [← herase]
  cases hrun : (g.ownFiles.filter (g.accepts o)).mapM (g.documentFileTraced o) {} with
  | ok r => rfl
  | error e => rfl

end SymbolGraph

/-! ## No building is entered twice -/

namespace Traced

open SymbolGraph

variable {α : Type} {x : Walk α} {g : SymbolGraph} {limit : Nat} {s : TracedState} {id : SymbolId}

/-- The symbols that were written down are different from each other, all of them were built, and
there are as many as classes and enums. -/
structure Fresh (g : SymbolGraph) (s : TracedState) : Prop where
  sound : s.walk.Sound g
  nodup : s.entered.Nodup
  built : ∀ id ∈ s.entered, ∃ x, s.walk.refs.Built id x
  length : s.entered.length = s.walk.classes.size + s.walk.enums.size

/-- A failure after different symbols were written down. -/
def FreshFailure (e : ExtractError × List SymbolId) : Prop := e.2.Nodup

/-- Growth of a traced walk. -/
def traceGrowth (g : SymbolGraph) : Growth TracedState where
  Good := Fresh g
  Le s s' := s.walk.refs.Le s'.walk.refs
  refl _ := .refl _
  trans := .trans

theorem lift_yields {E : ExtractError → Prop} {Q : α → WalkState → Prop} (hs : s.entered.Nodup)
    (h : Yields E x s.walk Q) :
    Yields FreshFailure (lift x) s fun a s' => s'.entered = s.entered ∧ Q a s'.walk := by
  unfold Yields lift
  cases hx : x s.walk with
  | ok r => exact ⟨rfl, h.of_ok hx⟩
  | error e => exact hs

/-- A walk that enters no building. -/
theorem lift_keeps {E : ExtractError → Prop} {P : α → Prop}
    (h : ∀ w, w.Sound g → Yields E x w fun a w' => w'.Sound g ∧ w.refs.Le w'.refs ∧
      w'.classes.size = w.classes.size ∧ w'.enums.size = w.enums.size ∧ P a) :
    (traceGrowth g).Keeps FreshFailure (lift x) fun a _ => P a := by
  intro s hs
  refine (lift_yields hs.nodup (h s.walk hs.sound)).mono ?_
  rintro a s' ⟨hentered, hsound, hle, hclasses, henums, ha⟩
  refine ⟨⟨hsound, by rw [hentered]; exact hs.nodup, ?_, ?_⟩, hle, ha⟩
  · rw [hentered]
    intro id hid
    obtain ⟨y, hy⟩ := hs.built id hid
    exact ⟨y, hy.mono hle⟩
  · rw [hentered, hclasses, henums]
    exact hs.length

theorem lift_mention_keeps {P : α → WalkState → Prop}
    (h : (mentionGrowth g).Keeps (fun _ => True) x P) :
    (traceGrowth g).Keeps FreshFailure (lift x) fun _ _ => True := by
  refine lift_keeps fun w hw => (h w hw.refs).mono ?_
  rintro a w' ⟨hgood, hle, -⟩
  exact ⟨hw.mention hgood hle, hle.2.le, by rw [hle.1], by rw [hle.1], trivial⟩

/-- Looking something up. -/
theorem lift_read_keeps {y : Except ExtractError α} {P : α → Prop} (h : ∀ a, y = .ok a → P a) :
    (traceGrowth g).Keeps FreshFailure (lift (liftM y)) fun a _ => P a := by
  refine lift_keeps (E := fun _ => True) fun w hw => yields_lift (fun a ha => ?_) fun _ _ => trivial
  exact ⟨hw, .refl _, rfl, rfl, h a ha⟩

/-- The start of the building of a symbol that was not built before. -/
theorem lift_entered_yields {E : ExtractError → Prop} {Q : α → WalkState → Prop} (hs : Fresh g s)
    (hnew : ∀ y, ¬ s.walk.refs.Built id y) (h : Yields E x s.walk Q)
    (hQ : ∀ a w, Q a w → w.Sound g ∧ s.walk.refs.Le w.refs ∧ (∃ y, w.refs.Built id y) ∧
      w.classes.size + w.enums.size = s.walk.classes.size + s.walk.enums.size + 1) :
    Yields FreshFailure (lift x) { s with entered := s.entered ++ [id] } fun a s' =>
      Fresh g s' ∧ s.walk.refs.Le s'.walk.refs ∧ Q a s'.walk := by
  have hid : id ∉ s.entered := by
    intro hid
    obtain ⟨y, hy⟩ := hs.built id hid
    exact hnew y hy
  have hnodup : (s.entered ++ [id]).Nodup := by
    refine List.nodup_append.mpr ⟨hs.nodup, by simp, ?_⟩
    rintro a ha b hb rfl
    exact hid (List.mem_singleton.mp hb ▸ ha)
  refine (lift_yields (s := { s with entered := s.entered ++ [id] }) hnodup h).mono ?_
  rintro a s' ⟨hentered, ha⟩
  obtain ⟨hsound, hle, hbuilt, hsize⟩ := hQ a s'.walk ha
  refine ⟨⟨hsound, by rw [hentered]; exact hnodup, ?_, ?_⟩, hle, ha⟩
  · rw [hentered]
    intro id' hid'
    rcases List.mem_append.mp hid' with hid' | hid'
    · obtain ⟨y, hy⟩ := hs.built id' hid'
      exact ⟨y, hy.mono hle⟩
    · rw [List.mem_singleton.mp hid']
      exact hbuilt
  · rw [hentered, hsize, List.length_append, hs.length]
    rfl

variable (hg : g.Closed)

include hg

/-- An enum is entered only if it was not built before. -/
theorem buildEnum_keeps (h : id.Within g.extent) (hroute : g.route? id = some .toEnum) :
    (traceGrowth g).Keeps FreshFailure (buildEnum g (g.viewAt id)) fun _ _ => True := by
  intro s hs
  unfold buildEnum
  refine yields_bind ((lift_yields hs.nodup
    (Walk.existingTarget_yields (E := fun _ => True) hs.sound h)).mono ?_)
  rintro r ⟨w, entered⟩ ⟨rfl, rfl, hr⟩
  have hbody : (∀ y, ¬ s.walk.refs.Built id y) →
      Yields FreshFailure (do enter (g.viewAt id).symbol; lift (Walk.enumBody g (g.viewAt id))) s
        fun _ s' => (traceGrowth g).Good s' ∧ (traceGrowth g).Le s s' ∧ True := by
    intro hnew
    refine yields_bind (yields_modify ?_)
    have hyields : Yields (ExtractError.OfAlias 0) (Walk.enumBody g (g.viewAt id)) s.walk fun e w =>
        (w.Sound g ∧ WalkState.Grows g 0 (fun _ => True) s.walk w ∧ w.refs.Built id (.toEnum e)) ∧
          w.classes.size = s.walk.classes.size ∧ w.enums.size = s.walk.enums.size + 1 :=
      Walk.enumBody_yields hg hs.sound h trivial hroute hnew
    refine (lift_entered_yields hs hnew hyields ?_).mono ?_
    · exact fun e w hw => ⟨hw.1.1, hw.1.2.1.refs, ⟨_, hw.1.2.2⟩, by omega⟩
    · exact fun e s' hs' => ⟨hs'.1, hs'.2.1, trivial⟩
  rcases r with _ | c | e
  · exact hbody fun y hb => by simpa using (hr y).mpr hb
  · obtain ⟨kind, hkind⟩ := hs.sound.routed ((hr _).mp rfl)
    rw [hroute] at hkind
    cases hkind
  · exact yields_pure ⟨hs, (traceGrowth g).refl s, trivial⟩

omit hg in
theorem lift_fillClass_keeps (c : Walk.OpenClass) (exports : ModuleDoc) :
    (traceGrowth g).Keeps FreshFailure (lift (Walk.fillClass c exports)) fun _ _ => True := by
  refine lift_keeps (E := fun _ => True) fun w hw => ?_
  refine yields_bind (yields_get (yields_bind (yields_lift ?_ fun _ _ => trivial)))
  intro classes hclasses
  have hsize : classes.size = w.classes.size := by
    unfold modifyAt at hclasses
    split at hclasses
    · cases hclasses
      simp
    · cases hclasses
  exact yields_set ⟨hw.of_same rfl rfl hsize rfl, .refl _, hsize, rfl, trivial⟩

/-- A class is entered only if it was not built before. -/
theorem buildClass_keeps {nested : SymbolView → ModuleDoc → Traced ModuleDoc}
    (hnested : ∀ n ∈ g.nestedIn id, ∀ m,
      (traceGrowth g).Keeps FreshFailure (nested (g.viewAt n) m) fun _ _ => True)
    (h : id.Within g.extent) {kind : ClassKind} (hroute : g.route? id = some (.toClass kind)) :
    (traceGrowth g).Keeps FreshFailure (buildClass g limit nested (g.viewAt id) kind)
      fun _ _ => True := by
  intro s hs
  unfold buildClass
  refine yields_bind ((lift_yields hs.nodup
    (Walk.existingTarget_yields (E := fun _ => True) hs.sound h)).mono ?_)
  rintro r ⟨w, entered⟩ ⟨rfl, rfl, hr⟩
  have hbody : (∀ y, ¬ s.walk.refs.Built id y) →
      Yields FreshFailure
        (do enter (g.viewAt id).symbol; classBody g limit nested (g.viewAt id) kind) s
        fun _ s' => (traceGrowth g).Good s' ∧ (traceGrowth g).Le s s' ∧ True := by
    intro hnew
    refine yields_bind (yields_modify ?_)
    unfold classBody
    refine yields_bind ((lift_entered_yields hs hnew
      (Walk.openClass_yields hg hs.sound h hroute hnew) ?_).mono ?_)
    · intro c w hw
      have hsize : w.classes.size = s.walk.classes.size + 1 := by simp [hw.classes]
      exact ⟨hw.sound, hw.refs, ⟨_, hw.built⟩, by rw [hsize, hw.enums]; omega⟩
    rintro c s₁ ⟨hs₁, hle₁, hopened⟩
    rw [hopened.nested]
    refine yields_bind ((Growth.foldlM (G := traceGrowth g) (P := fun _ _ _ => True) ?_ []
      ({} : ModuleDoc) s₁ hs₁ trivial).mono ?_)
    · intro done n hn m s' hs' _
      have hin := within_of_mem_exportsIn (hg.symbolAt h) hn
      refine yields_bind ((lift_read_keeps (P := fun v => v = g.viewAt n) ?_ s' hs').mono ?_)
      · intro v hv
        rw [view_eq_ok hin] at hv
        exact (Except.ok.inj hv).symm
      rintro v s₂ ⟨hs₂, hle₂, rfl⟩
      refine (hnested n hn m s₂ hs₂).mono ?_
      rintro m' s₃ ⟨hs₃, hle₃, -⟩
      exact ⟨hs₃, (traceGrowth g).trans hle₂ hle₃, trivial⟩
    rintro exports s₂ ⟨hs₂, hle₂, -⟩
    refine yields_bind ((lift_fillClass_keeps c exports s₂ hs₂).mono ?_)
    rintro - s₃ ⟨hs₃, hle₃, -⟩
    exact yields_pure ⟨hs₃, (traceGrowth g).trans hle₁ ((traceGrowth g).trans hle₂ hle₃), trivial⟩
  rcases r with _ | c | e
  · exact hbody fun y hb => by simpa using (hr y).mpr hb
  · exact yields_pure ⟨hs, (traceGrowth g).refl s, trivial⟩
  · have henum : g.route? id = some .toEnum := hs.sound.routed ((hr _).mp rfl)
    rw [hroute] at henum
    cases henum

theorem assemble_keeps (depth : Nat) : ∀ id, id.Within g.extent → ∀ m,
    (traceGrowth g).Keeps FreshFailure (assemble g limit depth (g.viewAt id) m) fun _ _ => True := by
  have hmap : ∀ {β : Type} {y : Traced β} {f : β → ModuleDoc} {P : β → TracedState → Prop},
      (traceGrowth g).Keeps FreshFailure y P →
      (traceGrowth g).Keeps FreshFailure (do return f (← y)) fun _ _ => True := by
    intro β y f P hy s hs
    refine yields_bind ((hy s hs).mono ?_)
    exact fun a s' hs' => yields_pure ⟨hs'.1, hs'.2.1, trivial⟩
  induction depth using Nat.strong_induction_on with
  | _ depth ih =>
    intro id h m
    have hroute : (g.viewAt id).kind.map DeclarationKind.route = g.route? id := rfl
    unfold assemble
    rw [hroute]
    split
    next => exact hmap (lift_mention_keeps (Walk.function_viewAt_keeps hg h))
    next hr => exact hmap (buildEnum_keeps hg h hr)
    next => exact hmap (lift_mention_keeps (Walk.identifier_viewAt_keeps hg h false))
    next kind hr =>
      cases depth with
      | zero => exact fun s hs => hs.nodup
      | succ depth =>
        have hbuild : (traceGrowth g).Keeps FreshFailure
            (buildClass g limit (assemble g limit depth) (g.viewAt id) kind) fun _ _ => True :=
          buildClass_keeps hg (fun n hn => ih depth (Nat.lt_succ_self depth) n
            (within_of_mem_exportsIn (hg.symbolAt h) hn)) h hr
        cases kind with
        | ofClass => exact hmap hbuild
        | ofInterface => exact hmap hbuild
    next => exact Growth.Keeps.pure fun _ _ => trivial
    next => exact Growth.Keeps.pure fun _ _ => trivial

end Traced

namespace SymbolGraph

variable {g : SymbolGraph} {o : ExtractOptions}

theorem documentFileTraced_keeps (hg : g.Closed) {file : SourceFile} (hf : file ∈ g.files) :
    (Traced.traceGrowth g).Keeps Traced.FreshFailure (g.documentFileTraced o file)
      fun _ _ => True := by
  have hexport : ∀ entry ∈ g.exportEntries file,
      (Traced.traceGrowth g).Keeps Traced.FreshFailure (g.documentExportTraced o entry)
        fun _ _ => True := by
    intro entry he s hs
    have hin := within_of_mem_exportEntries hg hf he
    refine yields_bind ((Traced.lift_read_keeps
      (P := fun r => ∀ t ∈ r, t.Within g.extent) ?_ s hs).mono ?_)
    · intro r hr
      rcases resolveAlias_outcome hg o.maxAliasDepth entry.1 hin with ⟨r', hr', hin'⟩ | ⟨e, herr, -⟩
      · cases hr'.symm.trans hr
        exact hin'
      · cases herr.symm.trans hr
    rintro r s₁ ⟨hs₁, hle₁, hr⟩
    cases r with
    | none => exact yields_pure ⟨hs₁, hle₁, trivial⟩
    | some id =>
      have hid := hr id rfl
      refine yields_bind ((Traced.lift_read_keeps (P := fun v => v = g.viewAt id) ?_ s₁ hs₁).mono ?_)
      · intro v hv
        cases (view_eq_ok hid).symm.trans hv
        rfl
      rintro v s₂ ⟨hs₂, hle₂, rfl⟩
      split
      · exact yields_pure ⟨hs₂, (Traced.traceGrowth g).trans hle₁ hle₂, trivial⟩
      · refine yields_bind ((Traced.assemble_keeps hg _ id hid {} s₂ hs₂).mono ?_)
        rintro m s₃ ⟨hs₃, hle₃, -⟩
        exact yields_pure ⟨hs₃, (Traced.traceGrowth g).trans hle₁
          ((Traced.traceGrowth g).trans hle₂ hle₃), trivial⟩
  intro s hs
  refine yields_bind ((Traced.lift_read_keeps (P := fun es => es = g.exportEntries file) ?_ s hs).mono ?_)
  · intro es hes
    cases (sortedExports_eq_ok hg hf).symm.trans hes
    rfl
  rintro es s₁ ⟨hs₁, hle₁, rfl⟩
  have hloop := Growth.mapM (G := Traced.traceGrowth g) (P := fun _ _ _ => True)
    (fun _ _ _ _ _ _ => trivial) hexport s₁ hs₁
  refine yields_bind (hloop.mono ?_)
  rintro mss s₂ ⟨hs₂, hle₂, -⟩
  exact yields_pure ⟨hs₂, (Traced.traceGrowth g).trans hle₁ hle₂, trivial⟩

/-- No building is entered twice, also in a walk that fails, and each class and enum comes from one
that was entered. -/
theorem extractTraced_snd (hg : g.Closed) (o : ExtractOptions) :
    (g.extractTraced o).2.Nodup ∧ ∀ doc, (g.extractTraced o).1 = .ok doc →
      (g.extractTraced o).2.length = doc.classes.size + doc.enums.size := by
  have hstart : Traced.Fresh g {} := ⟨sound_empty g, .nil, by simp, rfl⟩
  have hloop := Growth.mapM (G := Traced.traceGrowth g) (P := fun _ _ _ => True)
    (l := g.ownFiles.filter (g.accepts o)) (fun _ _ _ _ _ _ => trivial)
    (fun file hf => documentFileTraced_keeps (o := o) hg
      (List.mem_of_mem_drop (List.mem_filter.mp hf).1)) {} hstart
  unfold extractTraced
  simp only [StateT.run]
  cases hrun : (g.ownFiles.filter (g.accepts o)).mapM (g.documentFileTraced o) {} with
  | error e => exact ⟨hloop.of_error hrun, fun doc hdoc => by cases hdoc⟩
  | ok r =>
    have hfresh : Traced.Fresh g r.2 := (hloop.of_ok hrun).1
    obtain ⟨classes, hfinish, hsize, -⟩ := WalkState.finish_eq_ok hfresh.sound
    refine ⟨hfresh.nodup, fun doc hdoc => ?_⟩
    dsimp only at hdoc
    rw [hfinish] at hdoc
    cases hdoc
    exact hsize ▸ hfresh.length

theorem valid_of_ofText {text : String} (h : ofText text = .ok g) : g.Valid := by
  unfold ofText at h
  split at h
  · cases h
  next g' _ =>
    split at h
    · cases h
    next hnone =>
      cases h
      exact (valid_iff_dangling?_eq_none g).mpr hnone

/-- **Extraction is safe.** Every graph that is read from a text is valid. On a valid graph,
extraction gives a documentation or fails because of a chain of aliases, whatever cycles there are in
exports, heritage, aliases and types: it never asks for a position that is not there, and it never
runs out of depth. And the building of a class or enum is entered at most once for each symbol, once
for each class and enum of the result. -/
theorem extract_safe :
    (∀ text g, ofText text = .ok g → g.Valid) ∧
      ∀ (g : SymbolGraph) (o : ExtractOptions), g.Valid →
        ((∃ doc, g.extract o = .ok doc) ∨
          (∃ name chain, g.extract o = .error (.aliasCycle name chain)) ∨
          ∃ name, g.extract o = .error (.aliasDepthExceeded name o.maxAliasDepth)) ∧
        (g.extractTraced o).1 = g.extract o ∧ (g.extractTraced o).2.Nodup ∧
        ∀ doc, g.extract o = .ok doc →
          (g.extractTraced o).2.length = doc.classes.size + doc.enums.size := by
  refine ⟨fun text g h => valid_of_ofText h, fun g o hvalid => ?_⟩
  obtain ⟨hnodup, hlength⟩ := extractTraced_snd (valid_iff_closed.mp hvalid) o
  rw [extractTraced_fst] at hlength
  exact ⟨extract_cases hvalid o, extractTraced_fst g o, hnodup, hlength⟩

/-- The class that nests itself is entered once. -/
theorem selfNested_safe :
    selfNested.Valid ∧ (selfNested.extractTraced {}).1 = selfNested.extract {} ∧
      (selfNested.extractTraced {}).2.Nodup :=
  let safe := extract_safe.2 selfNested {} selfNested_valid
  ⟨selfNested_valid, safe.2.1, safe.2.2.1⟩

end SymbolGraph

end ApiDocs
