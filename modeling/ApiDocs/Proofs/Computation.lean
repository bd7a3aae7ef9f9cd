import Mathlib.Data.List.Forall2
import Mathlib.Data.List.ReduceOption

/-!
# Computations that may fail

The walk over a graph is a computation with a state that may fail. What such a computation does is
said by `Yields`: from a state it gives a result and a state with some property, or it fails for one
of the causes that are allowed. The rules below follow the shape of a program, so a statement about a
program is proved by going through it once.

Loops need an invariant and, since later steps must not undo what earlier ones achieved, an order in
which states grow. `Growth` holds the two together, and `Growth.mapM` and `Growth.foldlM` are the
loops.

## Main definitions

* `Yields`: what a computation does from a state.
* `Growth`: an invariant of states and the order in which they grow.
* `Growth.Keeps`: a computation from good states to larger good ones.
* `Growth.Runs`: the same for one that cannot fail, from one state.
* `embed`: one that cannot fail as one that may.
-/

namespace ApiDocs

variable {σ ε α β : Type}

/-- From `s`, `x` gives a result and a state with `Q`, or it fails for a cause in `E`. -/
def Yields (E : ε → Prop) (x : StateT σ (Except ε) α) (s : σ) (Q : α → σ → Prop) : Prop :=
  match x s with
  | .ok (a, s') => Q a s'
  | .error e => E e

variable {E : ε → Prop} {s s' : σ} {a : α} {Q Q' : α → σ → Prop} {x : StateT σ (Except ε) α}

theorem Yields.of_ok (h : Yields E x s Q) (hx : x s = .ok (a, s')) : Q a s' := by
  simpa [Yields, hx] using h

theorem Yields.of_error {e : ε} (h : Yields E x s Q) (hx : x s = .error e) : E e := by
  simpa [Yields, hx] using h

theorem Yields.mono (h : Yields E x s Q) (hQ : ∀ a s', Q a s' → Q' a s') : Yields E x s Q' := by
  unfold Yields at h ⊢
  split at h
  · exact hQ _ _ h
  · exact h

/-! ## The rules -/

theorem yields_pure (h : Q a s) : Yields E (pure a) s Q := h

theorem yields_bind {f : α → StateT σ (Except ε) β} {Q : β → σ → Prop}
    (h : Yields E x s fun a s' => Yields E (f a) s' Q) : Yields E (x >>= f) s Q := by
  unfold Yields at h
  unfold Yields
  change match (x s >>= fun r => f r.1 r.2) with
    | .ok (a, s') => Q a s'
    | .error e => E e
  split at h
  next hx => rw [hx]; exact h
  next hx => rw [hx]; exact h

theorem yields_map {f : α → β} {Q : β → σ → Prop} (h : Yields E x s fun a s' => Q (f a) s') :
    Yields E (f <$> x) s Q := by
  rw [map_eq_pure_bind]
  exact yields_bind (h.mono fun _ _ => yields_pure)

theorem yields_get {Q : σ → σ → Prop} (h : Q s s) :
    Yields E (get : StateT σ (Except ε) σ) s Q := h

theorem yields_set {t : σ} {Q : PUnit → σ → Prop} (h : Q ⟨⟩ t) :
    Yields E (set t : StateT σ (Except ε) PUnit) s Q := h

theorem yields_modify {f : σ → σ} {Q : PUnit → σ → Prop} (h : Q ⟨⟩ (f s)) :
    Yields E (modify f : StateT σ (Except ε) PUnit) s Q := h

theorem yields_modifyGet {f : σ → α × σ} (h : Q (f s).1 (f s).2) :
    Yields E (modifyGet f : StateT σ (Except ε) α) s Q := h

/-- A computation without a state, used where there is one. -/
theorem yields_lift {y : Except ε α} (hok : ∀ a, y = .ok a → Q a s) (herr : ∀ e, y = .error e → E e) :
    Yields E (liftM y : StateT σ (Except ε) α) s Q := by
  cases y with
  | ok a => exact hok a rfl
  | error e => exact herr e rfl

theorem yields_lift_ok {y : Except ε α} (hy : y = .ok a) (h : Q a s) :
    Yields E (liftM y : StateT σ (Except ε) α) s Q := by
  subst hy
  exact h

/-! ## Related values -/

theorem optionRel_imp {R S : α → β → Prop} (h : ∀ a b, R a b → S a b) {o : Option α} {o' : Option β}
    (hR : Option.Rel R o o') : Option.Rel S o o' := by
  cases hR with
  | none => exact .none
  | some hab => exact .some (h _ _ hab)

theorem optionRel_trans {γ : Type} {R : α → β → Prop} {S : β → γ → Prop} {P : α → γ → Prop}
    (h : ∀ a b c, R a b → S b c → P a c) {o : Option α} {o' : Option β} {o'' : Option γ} (hR : Option.Rel R o o')
    (hS : Option.Rel S o' o'') : Option.Rel P o o'' := by
  cases hR with
  | none =>
    cases hS
    exact .none
  | some hab =>
    cases hS with
    | some hbc => exact .some (h _ _ _ hab hbc)

theorem optionRel_map_left {γ : Type} {R : β → γ → Prop} {f : α → β} {o : Option α} {o' : Option γ}
    (h : Option.Rel R (o.map f) o') : Option.Rel (fun a c => R (f a) c) o o' := by
  cases o with
  | none =>
    cases h
    exact .none
  | some a =>
    cases h with
    | some hac => exact .some hac

theorem optionRel_some_left {R : α → β → Prop} {a : α} {o : Option β}
    (h : Option.Rel R (some a) o) : ∃ b, o = some b ∧ R a b := by
  cases h with
  | some hab => exact ⟨_, rfl, hab⟩

theorem optionRel_mem_right {R : α → β → Prop} {o : Option α} {o' : Option β}
    (h : Option.Rel R o o') {b : β} (hb : b ∈ o') : ∃ a ∈ o, R a b := by
  cases h with
  | none => simp at hb
  | some hab =>
    cases hb
    exact ⟨_, rfl, hab⟩

theorem forall₂_mem_left {R : α → β → Prop} {as : List α} {bs : List β}
    (h : List.Forall₂ R as bs) {a : α} (ha : a ∈ as) : ∃ b ∈ bs, R a b := by
  induction h with
  | nil => simp at ha
  | cons hab _ ih =>
    rcases List.mem_cons.mp ha with rfl | ha
    · exact ⟨_, by simp, hab⟩
    · obtain ⟨b, hb, hr⟩ := ih ha
      exact ⟨b, by simp [hb], hr⟩

theorem forall₂_mem_right {R : α → β → Prop} {as : List α} {bs : List β}
    (h : List.Forall₂ R as bs) {b : β} (hb : b ∈ bs) : ∃ a ∈ as, R a b :=
  forall₂_mem_left h.flip hb

theorem forall₂_trans {γ : Type} {R : α → β → Prop} {S : β → γ → Prop} {P : α → γ → Prop}
    (h : ∀ a b c, R a b → S b c → P a c) {as : List α} {bs : List β} {cs : List γ} (hR : List.Forall₂ R as bs)
    (hS : List.Forall₂ S bs cs) : List.Forall₂ P as cs := by
  induction hR generalizing cs with
  | nil =>
    cases hS
    exact .nil
  | cons hab _ ih =>
    cases hS with
    | cons hbc hS => exact .cons (h _ _ _ hab hbc) (ih hS)

theorem forall₂_flatten {γ : Type} {R : β → γ → Prop} {f : α → List β} {as : List α}
    {css : List (List γ)} (h : List.Forall₂ (fun a cs => List.Forall₂ R (f a) cs) as css) :
    List.Forall₂ R (as.flatMap f) css.flatten := by
  induction h with
  | nil => exact .nil
  | cons hac _ ih => exact List.rel_append hac ih

/-- What is related to lists one after the other falls into as many lists. -/
theorem exists_flatten_of_forall₂ {γ : Type} {R : β → γ → Prop} {f : α → List β} {as : List α}
    {cs : List γ} (h : List.Forall₂ R (as.flatMap f) cs) :
    ∃ css, cs = css.flatten ∧ List.Forall₂ (fun a cs => List.Forall₂ R (f a) cs) as css := by
  induction as generalizing cs with
  | nil =>
    cases h
    exact ⟨[], rfl, .nil⟩
  | cons a as ih =>
    rw [List.flatMap_cons] at h
    have hfront := List.forall₂_take_append cs (f a) (as.flatMap f) h.flip
    have hrest := List.forall₂_drop_append cs (f a) (as.flatMap f) h.flip
    obtain ⟨css, hcss, hall⟩ := ih hrest.flip
    refine ⟨cs.take (f a).length :: css, ?_, .cons hfront.flip hall⟩
    rw [List.flatten_cons, ← hcss, List.take_append_drop]

/-- What is related to the results of a partial function is related to its arguments, some of which have
nothing. -/
theorem exists_reduceOption_of_forall₂ {γ : Type} {R : β → γ → Prop} {f : α → Option β} {as : List α}
    {cs : List γ} (h : List.Forall₂ R (as.filterMap f) cs) :
    ∃ os : List (Option γ), cs = os.reduceOption ∧
      List.Forall₂ (fun a o => Option.Rel R (f a) o) as os := by
  induction as generalizing cs with
  | nil =>
    cases h
    exact ⟨[], rfl, .nil⟩
  | cons a as ih =>
    cases hf : f a with
    | none =>
      rw [List.filterMap_cons_none hf] at h
      obtain ⟨os, hos, hall⟩ := ih h
      exact ⟨none :: os, by simpa using hos, .cons (by rw [hf]; exact .none) hall⟩
    | some b =>
      rw [List.filterMap_cons_some hf] at h
      cases h with
      | @cons _ c _ cs hbc h =>
        obtain ⟨os, hos, hall⟩ := ih h
        exact ⟨some c :: os, by simp [hos], .cons (by rw [hf]; exact .some hbc) hall⟩

theorem forall₂_getElem? {R : α → β → Prop} {as : List α} {bs : List β} (h : List.Forall₂ R as bs)
    {i : Nat} {a : α} (ha : as[i]? = some a) : ∃ b, bs[i]? = some b ∧ R a b := by
  induction h generalizing i with
  | nil => simp at ha
  | cons hab _ ih =>
    cases i with
    | zero =>
      simp only [List.getElem?_cons_zero, Option.some.injEq] at ha
      subst ha
      exact ⟨_, rfl, hab⟩
    | succ i => exact ih ha

theorem optionRel_getElem? {R : α → β → Prop} {as : List α} {bs : List β} (h : List.Forall₂ R as bs)
    (i : Nat) : Option.Rel R as[i]? bs[i]? := by
  induction h generalizing i with
  | nil => exact .none
  | cons hab _ ih =>
    cases i with
    | zero => exact .some hab
    | succ i => exact ih i

/-- The results of a loop that may fail are those of its steps. -/
theorem mapM_eq_ok_iff {f : α → Except ε β} {as : List α} {bs : List β} :
    as.mapM f = .ok bs ↔ List.Forall₂ (fun a b => f a = .ok b) as bs := by
  induction as generalizing bs with
  | nil => cases bs <;> simp [pure, Except.pure]
  | cons a as ih =>
    rw [List.mapM_cons, List.forall₂_cons_left_iff]
    cases hb : f a with
    | error e => simp [bind, Except.bind]
    | ok b =>
      cases hbs : as.mapM f with
      | error e => simp [bind, Except.bind, ← ih, hbs]
      | ok bs' => simp [bind, Except.bind, pure, Except.pure, ← ih, hbs, eq_comm]

/-! ## Growth -/

/-- An invariant of states and the order in which they grow. -/
structure Growth (σ : Type) where
  Good : σ → Prop
  Le : σ → σ → Prop
  refl : ∀ s, Le s s
  trans : ∀ {s t u}, Le s t → Le t u → Le s u

namespace Growth

variable (G : Growth σ)

/-- From good states, `x` leads to larger good states, and its result has `P` there. -/
def Keeps (E : ε → Prop) (x : StateT σ (Except ε) α) (P : α → σ → Prop) : Prop :=
  ∀ s, G.Good s → Yields E x s fun a s' => G.Good s' ∧ G.Le s s' ∧ P a s'

/-- What holds of a state holds of all larger ones. -/
def Stable (P : σ → Prop) : Prop := ∀ s s', G.Le s s' → P s → P s'

variable {G}

theorem Keeps.pure {P : α → σ → Prop} (h : ∀ s, G.Good s → P a s) :
    G.Keeps E (pure a) P :=
  fun s hs => yields_pure ⟨hs, G.refl s, h s hs⟩

/-- A loop that collects results: each result keeps the property it had when it was made. -/
theorem mapM {f : β → StateT σ (Except ε) α} {P : β → α → σ → Prop} {l : List β}
    (stable : ∀ b a, G.Stable (P b a)) (step : ∀ b ∈ l, G.Keeps E (f b) (P b)) :
    G.Keeps E (l.mapM f) fun as s => List.Forall₂ (fun b a => P b a s) l as := by
  induction l with
  | nil => exact Keeps.pure fun _ _ => .nil
  | cons b l ih =>
    intro s hs
    rw [List.mapM_cons]
    refine yields_bind ((step b (by simp) s hs).mono ?_)
    rintro a s₁ ⟨hs₁, h₁, ha⟩
    refine yields_bind ((ih (fun c hc => step c (by simp [hc])) s₁ hs₁).mono ?_)
    rintro as s₂ ⟨hs₂, h₂, has⟩
    exact yields_pure ⟨hs₂, G.trans h₁ h₂, .cons (stable b a s₁ s₂ h₂ ha) has⟩

/-- A loop with an accumulator: `P` relates what was consumed to what was accumulated. -/
theorem foldlM {f : α → β → StateT σ (Except ε) α} {P : List β → α → σ → Prop} {l : List β}
    (step : ∀ done, ∀ b ∈ l, ∀ a s, G.Good s → P done a s →
      Yields E (f a b) s fun a' s' => G.Good s' ∧ G.Le s s' ∧ P (done ++ [b]) a' s') :
    ∀ done a s, G.Good s → P done a s →
      Yields E (l.foldlM f a) s fun a' s' => G.Good s' ∧ G.Le s s' ∧ P (done ++ l) a' s' := by
  induction l with
  | nil =>
    intro done a s hs ha
    exact yields_pure ⟨hs, G.refl s, by simpa using ha⟩
  | cons b l ih =>
    intro done a s hs ha
    rw [List.foldlM_cons]
    refine yields_bind ((step done b (by simp) a s hs ha).mono ?_)
    rintro a₁ s₁ ⟨hs₁, h₁, ha₁⟩
    refine (ih (fun d c hc => step d c (by simp [hc])) (done ++ [b]) a₁ s₁ hs₁ ha₁).mono ?_
    rintro a₂ s₂ ⟨hs₂, h₂, ha₂⟩
    exact ⟨hs₂, G.trans h₁ h₂, by simpa using ha₂⟩

/-- A computation on a value that may be absent. -/
theorem optionMapM {f : β → StateT σ (Except ε) α} {P : β → α → σ → Prop} {o : Option β}
    (step : ∀ b ∈ o, G.Keeps E (f b) (P b)) :
    G.Keeps E (o.mapM f) fun r s => Option.Rel (fun b a => P b a s) o r := by
  cases o with
  | none => exact Keeps.pure fun _ _ => .none
  | some b =>
    intro s hs
    refine yields_map ((step b rfl s hs).mono ?_)
    rintro a s' ⟨hs', hle, ha⟩
    exact ⟨hs', hle, .some ha⟩

/-! ## Computations that cannot fail -/

variable (G) in
/-- From `s`, `x` leads to a larger good state, and its result has `P` there. -/
structure Runs (x : StateM σ α) (s : σ) (P : α → σ → Prop) : Prop where
  good : G.Good (x s).2
  le : G.Le s (x s).2
  post : P (x s).1 (x s).2

variable {x : StateM σ α} {P : α → σ → Prop}

theorem runs_pure (hs : G.Good s) (h : P a s) : G.Runs (pure a) s P := ⟨hs, G.refl s, h⟩

theorem Runs.bind {f : α → StateM σ β} {Q : β → σ → Prop} (h : G.Runs x s P)
    (hf : ∀ a s', G.Good s' → G.Le s s' → P a s' → G.Runs (f a) s' Q) : G.Runs (x >>= f) s Q := by
  have hrest := hf (x s).1 (x s).2 h.good h.le h.post
  exact ⟨hrest.good, G.trans h.le hrest.le, hrest.post⟩

theorem Runs.mono {Q : α → σ → Prop} (h : G.Runs x s P)
    (hQ : G.Good (x s).2 → ∀ a, P a (x s).2 → Q a (x s).2) : G.Runs x s Q :=
  ⟨h.good, h.le, hQ h.good _ h.post⟩

/-- A step whose outcome is known. -/
theorem runs_of_eq {s' : σ} (h : x s = (a, s')) (hgood : G.Good s') (hle : G.Le s s') (hpost : P a s') :
    G.Runs x s P := by
  constructor <;> rw [h] <;> assumption

/-- What is known of a step in two ways. -/
theorem Runs.both {G' : Growth σ} {Q : α → σ → Prop} (h : G.Runs x s P) (h' : G'.Runs x s Q) :
    G.Runs x s fun a s' => P a s' ∧ Q a s' :=
  ⟨h.good, h.le, h.post, h'.post⟩

/-- A step that is known to grow in another way, too. -/
theorem Runs.framed {G' : Growth σ} {Q : α → σ → Prop} (h : G.Runs x s P) (h' : G'.Runs x s Q) :
    G.Runs x s fun a s' => P a s' ∧ G'.Le s s' :=
  ⟨h.good, h.le, h.post, h'.le⟩

/-- A step after which something is handed back that was there before. -/
theorem Runs.handBack {x : StateM σ β} {Q : β → σ → Prop} (h : G.Runs x s Q) (stable : G.Stable (P a))
    (ha : P a s) : G.Runs (x >>= fun _ => pure a) s P :=
  h.bind fun _ s' hs' hle _ => runs_pure hs' (stable s s' hle ha)

theorem Runs.discard (h : G.Runs x s P) : G.Runs (discard x) s fun _ _ => True :=
  ⟨h.good, h.le, trivial⟩

theorem runs_get {f : σ → StateM σ β} {Q : β → σ → Prop} (h : G.Runs (f s) s Q) :
    G.Runs (get >>= f) s Q :=
  ⟨h.good, h.le, h.post⟩

theorem runs_modify {f : σ → σ} (hgood : G.Good (f s)) (hle : G.Le s (f s)) :
    G.Runs (modify f) s fun _ _ => True :=
  ⟨hgood, hle, trivial⟩

/-- A loop: what a step has brought about stays. -/
theorem runs_forM_forall {f : β → StateM σ PUnit} {P : β → σ → Prop} {l : List β} (hs : G.Good s)
    (stable : ∀ b, G.Stable (P b))
    (step : ∀ b ∈ l, ∀ s', G.Good s' → G.Le s s' → G.Runs (f b) s' fun _ => P b) :
    G.Runs (l.forM f) s fun _ s' => ∀ b ∈ l, P b s' := by
  induction l generalizing s with
  | nil => exact runs_pure hs (by simp)
  | cons b l ih =>
    change G.Runs (f b >>= fun _ => l.forM f) s _
    refine (step b (by simp) s hs (G.refl s)).bind fun _ s₁ hs₁ hle₁ hb => ?_
    have hrest := ih hs₁ fun c hc s' hs' hle => step c (by simp [hc]) s' hs' (G.trans hle₁ hle)
    refine ⟨hrest.good, hrest.le, fun c hc => ?_⟩
    rcases List.mem_cons.mp hc with rfl | hc
    · exact stable c _ _ hrest.le hb
    · exact hrest.post c hc

theorem runs_forM {f : β → StateM σ PUnit} {l : List β} (hs : G.Good s)
    (step : ∀ b ∈ l, ∀ s', G.Good s' → G.Le s s' → G.Runs (f b) s' fun _ _ => True) :
    G.Runs (l.forM f) s fun _ _ => True :=
  (runs_forM_forall (P := fun _ _ => True) hs (fun _ _ _ _ h => h) step).mono fun _ _ _ => trivial

/-- A loop that collects results: each result keeps the property it had when it was made. -/
theorem runs_mapM_forall₂ {f : β → StateM σ α} {P : β → α → σ → Prop} {l : List β} (hs : G.Good s)
    (stable : ∀ b a, G.Stable (P b a))
    (step : ∀ b ∈ l, ∀ s', G.Good s' → G.Le s s' → G.Runs (f b) s' (P b)) :
    G.Runs (l.mapM f) s fun as s' => List.Forall₂ (fun b a => P b a s') l as := by
  induction l generalizing s with
  | nil => exact runs_pure hs .nil
  | cons b l ih =>
    rw [List.mapM_cons]
    refine (step b (by simp) s hs (G.refl s)).bind fun a s₁ hs₁ hle₁ ha => ?_
    refine (ih hs₁ ?_).bind fun as s₂ hs₂ hle₂ has => runs_pure hs₂ ?_
    · exact fun c hc s' hs' hle => step c (by simp [hc]) s' hs' (G.trans hle₁ hle)
    · exact .cons (stable b a s₁ s₂ hle₂ ha) has

/-- The same if the property does not hang on what was consumed. -/
theorem runs_mapM {f : β → StateM σ α} {l : List β} (hs : G.Good s)
    (stable : ∀ a, G.Stable (P a))
    (step : ∀ b ∈ l, ∀ s', G.Good s' → G.Le s s' → G.Runs (f b) s' P) :
    G.Runs (l.mapM f) s fun as s' => ∀ a ∈ as, P a s' := by
  refine (runs_mapM_forall₂ hs (fun _ => stable) step).mono fun _ as has a ha => ?_
  obtain ⟨-, -, hP⟩ := forall₂_mem_right has ha
  exact hP

/-- A loop whose steps may hand back nothing. -/
theorem runs_mapM_filterMap {f : β → StateM σ (Option α)} {l : List β} (hs : G.Good s)
    (stable : ∀ a, G.Stable (P a))
    (step : ∀ b ∈ l, ∀ s', G.Good s' → G.Le s s' → G.Runs (f b) s' fun o t => ∀ a ∈ o, P a t) :
    G.Runs (l.mapM f) s fun os s' => ∀ a ∈ os.filterMap id, P a s' := by
  have hstable : ∀ o : Option α, G.Stable fun t => ∀ a ∈ o, P a t :=
    fun o t t' hle h a ha => stable a t t' hle (h a ha)
  have hloop := runs_mapM hs hstable step
  refine ⟨hloop.good, hloop.le, fun a ha => ?_⟩
  obtain ⟨o, ho, hoa⟩ := List.mem_filterMap.mp ha
  exact hloop.post o ho a hoa

end Growth

/-- A computation of two steps gives what the second makes of the outcome of the first. -/
theorem bind_eq_iff {x : StateM σ α} {f : α → StateM σ β} {r : β × σ} :
    (x >>= f) s = r ↔ ∃ a s', x s = (a, s') ∧ f a s' = r := by
  constructor
  · exact fun h => ⟨_, _, rfl, h⟩
  · rintro ⟨a, s', hx, hf⟩
    change f (x s).1 (x s).2 = r
    rw [hx]
    exact hf

/-! ## The same steps where others may fail -/

section Embed

variable {m : Type → Type} [Monad m]

/-- A computation that cannot fail, where others can. -/
def embed (x : StateM σ α) : StateT σ m α := fun s => pure (x s)

@[simp]
theorem embed_pure (a : α) : (embed (pure a) : StateT σ m α) = pure a := rfl

@[simp]
theorem embed_modifyGet (f : σ → α × σ) : (embed (modifyGet f) : StateT σ m α) = modifyGet f := rfl

variable [LawfulMonad m]

@[simp]
theorem embed_bind (x : StateM σ α) (f : α → StateM σ β) :
    (embed (x >>= f) : StateT σ m β) = embed x >>= fun a => embed (f a) := by
  funext s
  change pure (f (x s).1 (x s).2) = (pure (x s) >>= fun r => pure (f r.1 r.2) : m (β × σ))
  rw [pure_bind]

@[simp]
theorem embed_map (f : α → β) (x : StateM σ α) :
    (embed (f <$> x) : StateT σ m β) = f <$> embed x := by
  rw [map_eq_pure_bind, map_eq_pure_bind, embed_bind]
  rfl

theorem embed_mapM {f : β → StateM σ α} {f' : β → StateT σ m α} {l : List β}
    (h : ∀ b ∈ l, f' b = embed (f b)) : l.mapM f' = embed (l.mapM f) := by
  induction l with
  | nil => simp
  | cons b l ih =>
    rw [List.mapM_cons, List.mapM_cons, h b (by simp), ih fun c hc => h c (by simp [hc])]
    simp

/-- A step that succeeds is what it gives. -/
theorem liftM_ok_bind (a : α) (f : α → StateT σ (Except ε) β) :
    (liftM (Except.ok a : Except ε α) >>= f : StateT σ (Except ε) β) = f a := rfl

end Embed

/-- In a loop that does not fail, no step fails. -/
theorem exists_ok_of_mapM {f : β → StateT σ (Except ε) α} {l : List β} {r : List α × σ}
    (h : l.mapM f s = .ok r) : ∀ b ∈ l, ∃ s₁ r₁, f b s₁ = .ok r₁ := by
  let G : Growth σ := ⟨fun _ => True, fun _ _ => True, fun _ => trivial, fun _ _ => trivial⟩
  have hstep : ∀ b ∈ l, G.Keeps (fun _ : ε => True) (f b) fun _ _ => ∃ s₁ r₁, f b s₁ = .ok r₁ := by
    intro b _ s₁ _
    unfold Yields
    cases hb : f b s₁ with
    | ok r₁ => exact ⟨trivial, trivial, s₁, r₁, hb⟩
    | error e => trivial
  intro b hb
  obtain ⟨-, -, hall⟩ := (Growth.mapM (fun _ _ _ _ _ h => h) hstep s trivial).of_ok h
  obtain ⟨a, -, ha⟩ := forall₂_mem_left hall hb
  exact ha

end ApiDocs
