import ApiDocs.Proofs.Computation

/-!
# Two computations side by side

Two runs that differ only in how things are named go through the same steps. `Simulates` says so of two
computations with a state: whatever the first one does, the second does the same from the renamed
state. Failures are compared only if they are of a given kind, so that nothing has to be said about a
second run where the first one failed for a cause that a separate argument rules out.

## Main definitions

* `Follows`: the outcome of the second computation is that of the first.
* `Simulates`: the same for computations with a state.
-/

namespace ApiDocs

variable {σ τ ε α β γ δ : Type} {E : ε → Prop}

/-- If `x` gives a result, `y` gives one that is related to it; if `x` fails for a cause in `E`, then
`y` fails for the same cause. -/
def Follows (E : ε → Prop) (R : α → β → Prop) (x : Except ε α) (y : Except ε β) : Prop :=
  match x with
  | .ok a => ∃ b, y = .ok b ∧ R a b
  | .error e => E e → y = .error e

section Follows

variable {R : α → β → Prop} {S : γ → δ → Prop} {x : Except ε α} {y : Except ε β}

theorem follows_ok {a : α} {b : β} (h : R a b) : Follows E R (.ok a) (.ok b) := ⟨b, rfl, h⟩

theorem follows_refl (x : Except ε α) : Follows E Eq x x := by
  cases x with
  | ok a => exact follows_ok rfl
  | error e => exact fun _ => rfl

theorem follows_of_not {e : ε} (h : ¬ E e) : Follows E R (.error e) y := fun he => absurd he h

/-- Of a result that is used it is known where it comes from. -/
theorem Follows.with_eq (h : Follows E R x y) : Follows E (fun a b => x = .ok a ∧ R a b) x y := by
  cases hx : x with
  | ok a =>
    rw [hx] at h
    obtain ⟨b, hy, hab⟩ := h
    exact ⟨b, hy, rfl, hab⟩
  | error e =>
    rw [hx] at h
    exact h

theorem Follows.bind {k : α → Except ε γ} {k' : β → Except ε δ} (h : Follows E R x y)
    (hk : ∀ a b, R a b → Follows E S (k a) (k' b)) : Follows E S (x >>= k) (y >>= k') := by
  cases hx : x with
  | ok a =>
    rw [hx] at h
    obtain ⟨b, hy, hab⟩ := h
    rw [hy]
    exact hk a b hab
  | error e =>
    rw [hx] at h
    intro he
    rw [h he]
    rfl

theorem follows_mapM {k : γ → Except ε α} {k' : δ → Except ε α} {φ : γ → δ} {l : List γ}
    (h : ∀ c ∈ l, Follows E Eq (k c) (k' (φ c))) : Follows E Eq (l.mapM k) ((l.map φ).mapM k') := by
  induction l with
  | nil => exact follows_ok rfl
  | cons c l ih =>
    rw [List.map_cons, List.mapM_cons, List.mapM_cons]
    refine (h c (by simp)).bind fun a b hab => ?_
    refine (ih fun d hd => h d (by simp [hd])).bind fun as bs habs => ?_
    exact follows_ok (by rw [hab, habs])

/-- Where only causes in `E` are possible, the two outcomes are the same. -/
theorem Follows.eq {y : Except ε α} (h : Follows E Eq x y) (hx : ∀ e, x = .error e → E e) : y = x := by
  cases hcase : x with
  | ok a =>
    rw [hcase] at h
    obtain ⟨b, hy, rfl⟩ := h
    exact hy
  | error e =>
    rw [hcase] at h
    exact h (hx e hcase)

end Follows

/-- From renamed states, `y` does what `x` does, up to the relation between results. -/
def Simulates (E : ε → Prop) (f : σ → τ) (R : α → β → Prop) (x : StateT σ (Except ε) α)
    (y : StateT τ (Except ε) β) : Prop :=
  ∀ s, Follows E (fun r r' => R r.1 r'.1 ∧ r'.2 = f r.2) (x s) (y (f s))

variable {f : σ → τ} {R : α → β → Prop} {S : γ → δ → Prop} {x : StateT σ (Except ε) α}
  {y : StateT τ (Except ε) β}

/-! ## The rules -/

theorem simulates_pure {a : α} {b : β} (h : R a b) : Simulates E f R (pure a) (pure b) :=
  fun _ => follows_ok ⟨h, rfl⟩

theorem Simulates.bind {k : α → StateT σ (Except ε) γ} {k' : β → StateT τ (Except ε) δ}
    (h : Simulates E f R x y) (hk : ∀ a b, R a b → Simulates E f S (k a) (k' b)) :
    Simulates E f S (x >>= k) (y >>= k') := by
  intro s
  refine (h s).bind ?_
  rintro ⟨a, s₁⟩ ⟨b, t₁⟩ ⟨hab, ht⟩
  dsimp only at hab ht
  subst ht
  exact hk a b hab s₁

/-- A step after one with the same result on both sides. -/
theorem Simulates.bind_same {y : StateT τ (Except ε) α} {k : α → StateT σ (Except ε) γ}
    {k' : α → StateT τ (Except ε) δ} (h : Simulates E f Eq x y)
    (hk : ∀ a, Simulates E f S (k a) (k' a)) : Simulates E f S (x >>= k) (y >>= k') := by
  refine h.bind fun a b hab => ?_
  subst hab
  exact hk a

/-- A step after one whose second result is determined by the first. -/
theorem Simulates.bind_of_eq {φ : α → β} {k : α → StateT σ (Except ε) γ}
    {k' : β → StateT τ (Except ε) δ} (h : Simulates E f (fun a b => b = φ a) x y)
    (hk : ∀ a, Simulates E f S (k a) (k' (φ a))) : Simulates E f S (x >>= k) (y >>= k') := by
  refine h.bind fun a b hab => ?_
  subst hab
  exact hk a

theorem Simulates.map {k : α → γ} {k' : β → δ} (h : Simulates E f R x y)
    (hk : ∀ a b, R a b → S (k a) (k' b)) : Simulates E f S (k <$> x) (k' <$> y) := by
  rw [map_eq_pure_bind, map_eq_pure_bind]
  exact h.bind fun a b hab => simulates_pure (hk a b hab)

theorem simulates_get : Simulates E f (fun s t => t = f s) (get : StateT σ (Except ε) σ)
    (get : StateT τ (Except ε) τ) :=
  fun _ => follows_ok ⟨rfl, rfl⟩

theorem simulates_set {s : σ} {t : τ} (h : t = f s) :
    Simulates E f (fun _ _ => True) (set s : StateT σ (Except ε) PUnit)
      (set t : StateT τ (Except ε) PUnit) := by
  subst h
  exact fun _ => follows_ok ⟨trivial, rfl⟩

theorem simulates_modify {m : σ → σ} {m' : τ → τ} (h : ∀ s, m' (f s) = f (m s)) :
    Simulates E f (fun _ _ => True) (modify m : StateT σ (Except ε) PUnit)
      (modify m' : StateT τ (Except ε) PUnit) :=
  fun s => follows_ok ⟨trivial, h s⟩

theorem simulates_modifyGet {m : σ → α × σ} {m' : τ → α × τ}
    (h : ∀ s, m' (f s) = ((m s).1, f (m s).2)) :
    Simulates E f Eq (modifyGet m : StateT σ (Except ε) α) (modifyGet m' : StateT τ (Except ε) α) :=
  fun s => ⟨m' (f s), rfl, by simp [h], by simp [h]⟩

theorem simulates_lift {u : Except ε α} {v : Except ε β} (h : Follows E R u v) :
    Simulates E f R (liftM u : StateT σ (Except ε) α) (liftM v : StateT τ (Except ε) β) := by
  intro s
  cases hu : u with
  | ok a =>
    rw [hu] at h
    obtain ⟨b, rfl, hab⟩ := h
    exact follows_ok ⟨hab, rfl⟩
  | error e =>
    rw [hu] at h
    intro he
    rw [h he]
    rfl

/-- A failure that nothing has to be said about. -/
theorem simulates_throw {e : ε} (h : ¬ E e) :
    Simulates E f R (throw e : StateT σ (Except ε) α) y :=
  fun _ => follows_of_not h

theorem simulates_refl (x : StateT σ (Except ε) α) : Simulates E id Eq x x := by
  intro s
  change Follows E _ (x s) (x s)
  cases x s with
  | ok r => exact follows_ok ⟨rfl, rfl⟩
  | error e => exact fun _ => rfl

/-! ## Loops -/

theorem simulates_mapM {k : γ → StateT σ (Except ε) α} {k' : δ → StateT τ (Except ε) α} {φ : γ → δ}
    {l : List γ} (h : ∀ c ∈ l, Simulates E f Eq (k c) (k' (φ c))) :
    Simulates E f Eq (l.mapM k) ((l.map φ).mapM k') := by
  induction l with
  | nil => exact simulates_pure rfl
  | cons c l ih =>
    rw [List.map_cons, List.mapM_cons, List.mapM_cons]
    refine (h c (by simp)).bind_same fun a => ?_
    exact (ih fun d hd => h d (by simp [hd])).bind_same fun as => simulates_pure rfl

theorem simulates_foldlM {k : α → γ → StateT σ (Except ε) α} {k' : α → δ → StateT τ (Except ε) α}
    {φ : γ → δ} {l : List γ} (h : ∀ a, ∀ c ∈ l, Simulates E f Eq (k a c) (k' a (φ c))) (a : α) :
    Simulates E f Eq (l.foldlM k a) ((l.map φ).foldlM k' a) := by
  induction l generalizing a with
  | nil => exact simulates_pure rfl
  | cons c l ih =>
    rw [List.map_cons, List.foldlM_cons, List.foldlM_cons]
    refine (h a c (by simp)).bind_same fun b => ?_
    exact ih (fun a d hd => h a d (by simp [hd])) b

theorem simulates_optionMapM {k : γ → StateT σ (Except ε) α} {k' : δ → StateT τ (Except ε) β}
    {φ : γ → δ} {o : Option γ} (h : ∀ c ∈ o, Simulates E f R (k c) (k' (φ c))) :
    Simulates E f (Option.Rel R) (o.mapM k) ((o.map φ).mapM k') := by
  cases o with
  | none => exact simulates_pure .none
  | some c => exact (h c rfl).map fun a b hab => .some hab

end ApiDocs
