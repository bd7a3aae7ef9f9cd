import ApiDocs.Proofs.Extract.Builders
import Mathlib.Data.Fintype.Card

/-!
# The state of a walk

While a walk goes on, some classes are open: they are entered, but what is nested in them is still
being looked at. What holds between two states of a walk is therefore said of the classes and enums
that are new in the second, `WalkState.Grows`: they are complete, and the old ones are as they were.
An open class is an old one for everything that happens inside it, so the relation can be used again
at each level of nesting, and it says of the walk as a whole that all classes are complete.

## Main definitions

* `WalkState.Sound`: records and the symbols they were built for belong together.
* `WalkState.Grows`: new classes and enums are complete, old ones unchanged.
-/

namespace ApiDocs

namespace SymbolGraph

/-- The symbol is routed to the kind of record that the target is. -/
def RoutedTo (g : SymbolGraph) (id : SymbolId) : RefTarget → Prop
  | .toClass _ => ∃ kind, g.route? id = some (.toClass kind)
  | .toEnum _ => g.route? id = some .toEnum

end SymbolGraph

namespace WalkState

open SymbolGraph

/-- The class or enum is there. -/
def Holds (s : WalkState) : RefTarget → Prop
  | .toClass c => c.index < s.classes.size
  | .toEnum e => e.index < s.enums.size

/-- The references noted for a class. -/
def noted (s : WalkState) (c : ClassId) : List RefId :=
  (s.pendingExtends.filter (·.1 = c)).flatMap (·.2)

/-- Each class and enum was built for one symbol, which was routed to it. -/
structure Sound (g : SymbolGraph) (s : WalkState) : Prop where
  refs : s.refs.Sound g
  holds : ∀ {id x}, s.refs.Built id x → s.Holds x
  routed : ∀ {id x}, s.refs.Built id x → g.RoutedTo id x
  injective : ∀ {id id' x}, s.refs.Built id x → s.refs.Built id' x → id = id'
  onto : ∀ {x}, s.Holds x → ∃ id, s.refs.Built id x
  pending : ∀ p ∈ s.pendingExtends,
    p.1.index < s.classes.size ∧ ∀ r ∈ p.2, r.index < s.refs.records.size

/-- The class is that of the symbol, and the references noted for it are those of its heritage. -/
structure Complete (g : SymbolGraph) (limit : Nat) (s : WalkState) (id : SymbolId) (c : ClassId)
    (d : ClassDoc) : Prop where
  record : g.ClassOf s.refs id d
  unlinked : d.extendList = []
  resolves : ∀ b ∈ g.namedBases id, g.Resolves limit b
  heritage : List.Forall₂ s.refs.Has (g.heritageOf limit id) (s.noted c)

/-- Classes and enums that are new in `s'` are complete and built for symbols with `A`; those of `s`
are as they were. -/
structure Grows (g : SymbolGraph) (limit : Nat) (A : SymbolId → Prop) (s s' : WalkState) : Prop where
  refs : s.refs.Le s'.refs
  classes : ∀ {i : Nat}, i < s.classes.size → s'.classes[i]? = s.classes[i]?
  enums : ∀ {i : Nat}, i < s.enums.size → s'.enums[i]? = s.enums[i]?
  noted : ∀ {c : ClassId}, c.index < s.classes.size → s'.noted c = s.noted c
  newClass : ∀ {c : ClassId} {d : ClassDoc}, s.classes.size ≤ c.index →
    s'.classes[c.index]? = some d →
    ∃ id, A id ∧ s'.refs.Built id (.toClass c) ∧ Complete g limit s' id c d
  newEnum : ∀ {e : EnumId} {d : EnumDoc}, s.enums.size ≤ e.index →
    s'.enums[e.index]? = some d →
    ∃ id, A id ∧ s'.refs.Built id (.toEnum e) ∧ g.EnumOf s'.refs id d

variable {g : SymbolGraph} {limit : Nat} {A : SymbolId → Prop} {s s' s'' : WalkState}

/-! ## Sound states -/

/-- There are no more classes than symbols, since each is built for a symbol of its own. -/
theorem Sound.classes_le (h : s.Sound g) : s.classes.size ≤ g.symbols.size := by
  have hsymbol : ∀ i : Fin s.classes.size, ∃ j : Fin g.symbols.size,
      s.refs.Built ⟨j⟩ (.toClass ⟨i⟩) := by
    intro i
    obtain ⟨id, hb⟩ := h.onto (x := .toClass ⟨i⟩) i.isLt
    exact ⟨⟨id.index, hb.within h.refs⟩, hb⟩
  choose f hf using hsymbol
  have hinj : Function.Injective f := by
    intro i j hij
    have hb := hf i
    rw [hij] at hb
    have hsame := RefTable.Built.unique h.refs hb (hf j)
    injection hsame with hc
    injection hc with hi
    exact Fin.ext hi
  simpa using Fintype.card_le_of_injective f hinj

/-- Mentions change nothing but the table of references. -/
theorem Sound.mention (h : s.Sound g) (hs' : (mentionGrowth g).Good s')
    (hle : (mentionGrowth g).Le s s') : s'.Sound g := by
  obtain ⟨heq, happ⟩ := hle
  have hbuilt : ∀ {id x}, s'.refs.Built id x → s.refs.Built id x := happ.built_iff.mp
  have hholds : ∀ x, s'.Holds x ↔ s.Holds x := by
    intro x
    rw [heq]
    cases x <;> exact Iff.rfl
  refine ⟨hs', fun hb => (hholds _).mpr (h.holds (hbuilt hb)), fun hb => h.routed (hbuilt hb),
    fun hb hb' => h.injective (hbuilt hb) (hbuilt hb'), ?_, ?_⟩
  · intro x hx
    obtain ⟨id, hb⟩ := h.onto ((hholds x).mp hx)
    exact ⟨id, hb.mono happ.le⟩
  · rw [heq]
    intro p hp
    obtain ⟨hc, hr⟩ := h.pending p hp
    exact ⟨hc, fun r hmem => Nat.lt_of_lt_of_le (hr r hmem) happ.le.size_le⟩

/-- A symbol that was not built before is built as a record that was not there before. -/
theorem Sound.enter (h : s.Sound g) (s' : WalkState) {id : SymbolId} (hin : id.Within g.extent)
    (hnew : ∀ y, ¬ s.refs.Built id y) {x : RefTarget} (hrouted : g.RoutedTo id x)
    (hx : ¬ s.Holds x) (hholds : ∀ y, s'.Holds y ↔ s.Holds y ∨ y = x)
    (hsize : s.classes.size ≤ s'.classes.size) (hpending : s'.pendingExtends = s.pendingExtends)
    (hrefs : s'.refs = (s.refs.request id (g.symbolAt id).name (some x)).2) :
    s'.Sound g ∧ s.refs.Le s'.refs ∧ s'.refs.Built id x := by
  obtain ⟨hle, hsound, hbuilt⟩ := RefTable.request_some h.refs (symbol?_eq_some hin) hnew x
  rw [← hrefs] at hle hsound hbuilt
  have hself : s'.refs.Built id x := (hbuilt id x).mpr (.inr ⟨rfl, rfl⟩)
  refine ⟨⟨hsound, ?_, ?_, ?_, ?_, ?_⟩, hle, hself⟩
  · intro id' y hb
    rcases (hbuilt id' y).mp hb with hb | ⟨-, hy⟩
    · exact (hholds y).mpr (.inl (h.holds hb))
    · exact (hholds y).mpr (.inr hy)
  · intro id' y hb
    rcases (hbuilt id' y).mp hb with hb | ⟨rfl, rfl⟩
    · exact h.routed hb
    · exact hrouted
  · intro id₁ id₂ y hb₁ hb₂
    rcases (hbuilt id₁ y).mp hb₁ with hb₁ | ⟨rfl, rfl⟩ <;>
      rcases (hbuilt id₂ _).mp hb₂ with hb₂ | ⟨rfl, hy⟩
    · exact h.injective hb₁ hb₂
    · exact absurd (h.holds hb₁) (hy ▸ hx)
    · exact absurd (h.holds hb₂) hx
    · rfl
  · intro y hy
    rcases (hholds y).mp hy with hy | rfl
    · obtain ⟨id', hb⟩ := h.onto hy
      exact ⟨id', hb.mono hle⟩
    · exact ⟨id, hself⟩
  · intro p hp
    rw [hpending] at hp
    obtain ⟨hc, hr⟩ := h.pending p hp
    exact ⟨Nat.lt_of_lt_of_le hc hsize,
      fun r hmem => Nat.lt_of_lt_of_le (hr r hmem) hle.size_le⟩

/-- Changes inside of classes and enums that are there do not matter. -/
theorem Sound.of_same (h : s.Sound g) (hrefs : s'.refs = s.refs)
    (hpending : s'.pendingExtends = s.pendingExtends)
    (hclasses : s'.classes.size = s.classes.size) (henums : s'.enums.size = s.enums.size) :
    s'.Sound g := by
  have hholds : ∀ x, s'.Holds x ↔ s.Holds x := by
    intro x
    cases x <;> simp [Holds, hclasses, henums]
  refine ⟨?_, ?_, ?_, ?_, ?_, ?_⟩
  · rw [hrefs]; exact h.refs
  · rw [hrefs]; exact fun hb => (hholds _).mpr (h.holds hb)
  · rw [hrefs]; exact h.routed
  · rw [hrefs]; exact h.injective
  · rw [hrefs]; exact fun hx => h.onto ((hholds _).mp hx)
  · rw [hrefs, hpending, hclasses]; exact h.pending

theorem Sound.noted_eq_nil (h : s.Sound g) {c : ClassId} (hc : s.classes.size ≤ c.index) :
    s.noted c = [] := by
  have hnone : s.pendingExtends.filter (·.1 = c) = [] := by
    rw [List.filter_eq_nil_iff]
    intro p hp hpc
    have hlt := (h.pending p hp).1
    simp only [decide_eq_true_eq] at hpc
    rw [hpc] at hlt
    omega
  simp [noted, hnone]

/-! ## Growth -/

theorem Complete.of_grows {id : SymbolId} {c : ClassId} {d : ClassDoc}
    (h : Complete g limit s id c d) (hle : s.refs.Le s'.refs) (hn : s'.noted c = s.noted c) :
    Complete g limit s' id c d where
  record := h.record.mono hle
  unlinked := h.unlinked
  resolves := h.resolves
  heritage := by
    rw [hn]
    exact h.heritage.imp fun _ _ hr => hr.mono hle

theorem Grows.refl (s : WalkState) : Grows g limit A s s where
  refs := .refl _
  classes _ := rfl
  enums _ := rfl
  noted _ := rfl
  newClass hc hd := absurd (Array.getElem?_eq_some_iff.mp hd).1 (by omega)
  newEnum he hd := absurd (Array.getElem?_eq_some_iff.mp hd).1 (by omega)

theorem Grows.classes_le (h : Grows g limit A s s') : s.classes.size ≤ s'.classes.size := by
  by_contra hlt
  have hi : s'.classes.size < s.classes.size := by omega
  have hget := h.classes hi
  rw [Array.getElem?_eq_getElem hi] at hget
  exact absurd (Array.getElem?_eq_some_iff.mp hget).1 (by omega)

theorem Grows.enums_le (h : Grows g limit A s s') : s.enums.size ≤ s'.enums.size := by
  by_contra hlt
  have hi : s'.enums.size < s.enums.size := by omega
  have hget := h.enums hi
  rw [Array.getElem?_eq_getElem hi] at hget
  exact absurd (Array.getElem?_eq_some_iff.mp hget).1 (by omega)

theorem Grows.trans (h : Grows g limit A s s') (h' : Grows g limit A s' s'') :
    Grows g limit A s s'' where
  refs := h.refs.trans h'.refs
  classes hi := (h'.classes (Nat.lt_of_lt_of_le hi h.classes_le)).trans (h.classes hi)
  enums hi := (h'.enums (Nat.lt_of_lt_of_le hi h.enums_le)).trans (h.enums hi)
  noted hc := (h'.noted (Nat.lt_of_lt_of_le hc h.classes_le)).trans (h.noted hc)
  newClass {c d} hc hd := by
    -- A class that is new in the end is either new in the middle or left alone since.
    by_cases hmid : c.index < s'.classes.size
    · rw [h'.classes hmid] at hd
      obtain ⟨id, hA, hb, hcomplete⟩ := h.newClass hc hd
      exact ⟨id, hA, hb.mono h'.refs, hcomplete.of_grows h'.refs (h'.noted hmid)⟩
    · exact h'.newClass (by omega) hd
  newEnum {e d} he hd := by
    by_cases hmid : e.index < s'.enums.size
    · rw [h'.enums hmid] at hd
      obtain ⟨id, hA, hb, henum⟩ := h.newEnum he hd
      exact ⟨id, hA, hb.mono h'.refs, henum.mono h'.refs⟩
    · exact h'.newEnum (by omega) hd

/-- Nothing is built where only the table of references changes. -/
theorem Grows.mention (hle : (mentionGrowth g).Le s s') : Grows g limit A s s' := by
  obtain ⟨heq, happ⟩ := hle
  have hclasses : s'.classes = s.classes := by rw [heq]
  have henums : s'.enums = s.enums := by rw [heq]
  have hpending : s'.pendingExtends = s.pendingExtends := by rw [heq]
  have hnoted : s'.noted = s.noted := by
    funext c
    rw [WalkState.noted, WalkState.noted, hpending]
  refine ⟨happ.le, fun _ => by rw [hclasses], fun _ => by rw [henums], fun _ => by rw [hnoted], ?_, ?_⟩
  · intro c d hc hd
    rw [hclasses] at hd
    exact absurd (Array.getElem?_eq_some_iff.mp hd).1 (by omega)
  · intro e d he hd
    rw [henums] at hd
    exact absurd (Array.getElem?_eq_some_iff.mp hd).1 (by omega)

end WalkState

end ApiDocs
