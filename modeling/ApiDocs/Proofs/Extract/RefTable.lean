import ApiDocs.Proofs.Extract.Reading
import ApiDocs.Proofs.Extract.RefHistory

/-!
# Reference records and their symbols

In the table that a walk over a graph fills, each symbol has at most one record, under its own name.
Two relations say all that the rest of the theory needs of a table: which record a symbol has, and
what a symbol was built as. Describing types only appends records without a target; building a class
or enum gives the record of its symbol a target, which it did not have before.

## Main definitions

* `RefTable.Has`, `RefTable.Built`: the record of a symbol, and what it was built as.
* `RefTable.Sound`: one record for each symbol, under the name of the symbol.
* `RefTable.Appends`: growth by records without a target.
* `RefTable.Le`: growth that keeps records and targets.
-/

namespace ApiDocs.RefTable

variable {g : SymbolGraph} {t t' t'' : RefTable SymbolId} {id : SymbolId} {s : Symbol}

/-- The record at a position is that of the symbol. -/
def Has (t : RefTable SymbolId) (id : SymbolId) (r : RefId) : Prop :=
  ∃ d, t.records[r.index]? = some (id, d)

/-- The symbol has a record, and the record has the target. -/
def Built (t : RefTable SymbolId) (id : SymbolId) (target : RefTarget) : Prop :=
  ∃ (i : Nat) (d : RefDoc), t.records[i]? = some (id, d) ∧ d.target = some target

/-- Each symbol has at most one record, under its own name. -/
structure Sound (g : SymbolGraph) (t : RefTable SymbolId) : Prop where
  unique : ∀ {i j : Nat} {id : SymbolId} {d d' : RefDoc},
    t.records[i]? = some (id, d) → t.records[j]? = some (id, d') → i = j
  named : ∀ {i : Nat} {id : SymbolId} {d : RefDoc},
    t.records[i]? = some (id, d) → ∃ s, g.symbol? id = some s ∧ d.name = s.name

/-- Records without a target were appended. -/
structure Appends (t t' : RefTable SymbolId) : Prop where
  keep : ∀ {i : Nat} {x : SymbolId × RefDoc}, t.records[i]? = some x → t'.records[i]? = some x
  fresh : ∀ {i : Nat} {x : SymbolId × RefDoc},
    t'.records[i]? = some x → t.records[i]? = some x ∨ x.2.target = none

/-- Records keep their symbols and names, and targets are kept. -/
structure Le (t t' : RefTable SymbolId) : Prop where
  record : ∀ {i : Nat} {id : SymbolId} {d : RefDoc}, t.records[i]? = some (id, d) →
    ∃ d' : RefDoc, t'.records[i]? = some (id, d') ∧ d'.name = d.name ∧
      ∀ target, d.target = some target → d'.target = some target

/-! ## Growth -/

theorem Appends.refl (t : RefTable SymbolId) : t.Appends t := ⟨id, .inl⟩

theorem Appends.trans (h : t.Appends t') (h' : t'.Appends t'') : t.Appends t'' where
  keep hx := h'.keep (h.keep hx)
  fresh hx := by
    rcases h'.fresh hx with hx | hx
    · exact h.fresh hx
    · exact .inr hx

theorem Appends.le (h : t.Appends t') : t.Le t' where
  record hx := ⟨_, h.keep hx, rfl, fun _ => id⟩

theorem Le.refl (t : RefTable SymbolId) : t.Le t := (Appends.refl t).le

theorem Le.trans (h : t.Le t') (h' : t'.Le t'') : t.Le t'' := by
  constructor
  intro i id d hx
  obtain ⟨d', hx', hn', ht'⟩ := h.record hx
  obtain ⟨d'', hx'', hn'', ht''⟩ := h'.record hx'
  exact ⟨d'', hx'', hn''.trans hn', fun target h => ht'' target (ht' target h)⟩

theorem Le.size_le (h : t.Le t') : t.records.size ≤ t'.records.size := by
  by_contra hlt
  have hi : t'.records.size < t.records.size := by omega
  obtain ⟨d, hd, -⟩ := h.record (Array.getElem?_eq_getElem hi)
  exact absurd (Array.getElem?_eq_some_iff.mp hd).1 (by omega)

theorem Has.mono {r : RefId} (hr : t.Has id r) (h : t.Le t') : t'.Has id r := by
  obtain ⟨d, hd⟩ := hr
  obtain ⟨d', hd', -⟩ := h.record hd
  exact ⟨d', hd'⟩

theorem Built.mono {target : RefTarget} (hb : t.Built id target) (h : t.Le t') :
    t'.Built id target := by
  obtain ⟨i, d, hd, ht⟩ := hb
  obtain ⟨d', hd', -, ht'⟩ := h.record hd
  exact ⟨i, d', hd', ht' target ht⟩

theorem Appends.built_iff {target : RefTarget} (h : t.Appends t') :
    t'.Built id target ↔ t.Built id target := by
  refine ⟨?_, fun hb => hb.mono h.le⟩
  rintro ⟨i, d, hd, ht⟩
  rcases h.fresh hd with hd | hd
  · exact ⟨i, d, hd, ht⟩
  · cases hd.symm.trans ht

theorem Has.index_lt {r : RefId} (hr : t.Has id r) : r.index < t.records.size := by
  obtain ⟨d, hd⟩ := hr
  exact (Array.getElem?_eq_some_iff.mp hd).1

/-- What is appended is behind what was there. -/
theorem Appends.exists_fresh (h : t.Appends t') :
    ∃ fresh, t'.records = t.records ++ fresh ∧ ∀ x ∈ fresh, x.2.target = none := by
  have hsize := h.le.size_le
  refine ⟨t'.records.extract t.records.size, ?_, ?_⟩
  · apply Array.ext_getElem?
    intro i
    by_cases hi : i < t.records.size
    · rw [Array.getElem?_append_left hi, Array.getElem?_eq_getElem hi]
      exact h.keep (Array.getElem?_eq_getElem hi)
    · rw [Array.getElem?_append_right (by omega), Array.getElem?_extract]
      split
      · congr 1
        omega
      · rw [Array.getElem?_eq_none (by omega)]
  · intro x hx
    obtain ⟨i, hi⟩ := Array.mem_iff_getElem?.mp hx
    rw [Array.getElem?_extract] at hi
    split at hi
    · rcases h.fresh hi with hold | hnone
      · have hlt := (Array.getElem?_eq_some_iff.mp hold).1
        omega
      · exact hnone
    · cases hi

/-- What is found in a table is found there when records were appended. -/
theorem Appends.lookup_eq {name : String} {r : RefId} (h : t.Appends t') (hr : t.lookup id name = some r) :
    t'.lookup id name = some r := by
  obtain ⟨fresh, hrecords, -⟩ := h.exists_fresh
  obtain ⟨i, hi, rfl⟩ := Option.map_eq_some_iff.mp hr
  rw [lookup, hrecords, Array.findIdx?_append, hi]
  rfl

/-! ## One record for each symbol -/

theorem Has.unique {r r' : RefId} (h : t.Sound g) (hr : t.Has id r) (hr' : t.Has id r') :
    r = r' := by
  obtain ⟨d, hd⟩ := hr
  obtain ⟨d', hd'⟩ := hr'
  cases r
  cases r'
  cases h.unique hd hd'
  rfl

theorem Built.unique {x y : RefTarget} (h : t.Sound g) (hx : t.Built id x) (hy : t.Built id y) :
    x = y := by
  obtain ⟨i, d, hd, hx⟩ := hx
  obtain ⟨j, d', hd', hy⟩ := hy
  cases h.unique hd hd'
  have hdd : d = d' := by simpa using hd.symm.trans hd'
  subst hdd
  exact Option.some.inj (hx.symm.trans hy)

theorem Built.within {target : RefTarget} (h : t.Sound g) (hb : t.Built id target) :
    id.Within g.extent := by
  obtain ⟨i, d, hd, -⟩ := hb
  obtain ⟨s, hs, -⟩ := h.named hd
  exact SymbolGraph.within_of_symbol? hs

/-- Looking a symbol up under its name finds its record. -/
theorem lookup_eq_some_iff (h : t.Sound g) (hs : g.symbol? id = some s) {r : RefId} :
    t.lookup id s.name = some r ↔ t.Has id r := by
  unfold lookup
  simp only [Option.map_eq_some_iff, Array.findIdx?_eq_some_iff_getElem]
  constructor
  · rintro ⟨i, ⟨hi, hp, -⟩, rfl⟩
    simp only [Bool.and_eq_true, decide_eq_true_eq] at hp
    refine ⟨t.records[i].2, ?_⟩
    rw [Array.getElem?_eq_getElem hi, ← hp.1]
  · rintro ⟨d, hd⟩
    obtain ⟨hi, hget⟩ := Array.getElem?_eq_some_iff.mp hd
    obtain ⟨s', hs', hname⟩ := h.named hd
    have hss : s' = s := Option.some.inj (hs'.symm.trans hs)
    subst hss
    refine ⟨r.index, ⟨hi, by simp [hget, hname], ?_⟩, rfl⟩
    intro j hj hp
    simp only [Bool.and_eq_true, decide_eq_true_eq] at hp
    have hlt : j < t.records.size := Nat.lt_trans hj hi
    have hj' : t.records[j]? = some (id, t.records[j].2) := by
      rw [Array.getElem?_eq_getElem hlt, ← hp.1]
    exact absurd (h.unique hj' hd) (Nat.ne_of_lt hj)

theorem lookup_eq_none_iff (h : t.Sound g) (hs : g.symbol? id = some s) :
    t.lookup id s.name = none ↔ ∀ r, ¬ t.Has id r := by
  simp only [Option.eq_none_iff_forall_ne_some, ne_eq, lookup_eq_some_iff h hs]

/-! ## Requests -/

theorem getElem?_patch (t : RefTable SymbolId) (r : RefId) (target : RefTarget) (i : Nat) :
    (t.patch r (some target)).records[i]? =
      if r.index = i then (t.records[i]?).map fun x => (x.1, { x.2 with target := some target })
      else t.records[i]? := by
  simp [patch, Array.getElem?_modify]

/-- A record pushed for a symbol that has none. -/
theorem Sound.push (h : t.Sound g) (hs : g.symbol? id = some s) (hnew : ∀ r, ¬ t.Has id r)
    (target : Option RefTarget) :
    Sound g ⟨t.records.push (id, { name := s.name, target })⟩ := by
  have hold : ∀ {i : Nat} {d : RefDoc}, t.records[i]? = some (id, d) → False :=
    fun {i d} hd => hnew ⟨i⟩ ⟨d, hd⟩
  constructor
  · intro i j id' d d' hi hj
    simp only [Array.getElem?_push] at hi hj
    split at hi <;> split at hj
    · omega
    · simp only [Option.some.injEq, Prod.mk.injEq] at hi
      exact (hold (hi.1 ▸ hj)).elim
    · simp only [Option.some.injEq, Prod.mk.injEq] at hj
      exact (hold (hj.1 ▸ hi)).elim
    · exact h.unique hi hj
  · intro i id' d hi
    simp only [Array.getElem?_push] at hi
    split at hi
    · simp only [Option.some.injEq, Prod.mk.injEq] at hi
      obtain ⟨rfl, rfl⟩ := hi
      exact ⟨s, hs, rfl⟩
    · exact h.named hi

theorem Sound.patch (h : t.Sound g) (r : RefId) (target : RefTarget) :
    (t.patch r (some target)).Sound g := by
  -- The symbol and the name of each record are what they were.
  have hback : ∀ {i : Nat} {id : SymbolId} {d : RefDoc},
      (t.patch r (some target)).records[i]? = some (id, d) →
      ∃ d' : RefDoc, t.records[i]? = some (id, d') ∧ d'.name = d.name := by
    intro i id d hd
    rw [getElem?_patch] at hd
    split at hd
    · obtain ⟨x, hx, he⟩ := Option.map_eq_some_iff.mp hd
      cases he
      exact ⟨x.2, hx, rfl⟩
    · exact ⟨d, hd, rfl⟩
  constructor
  · intro i j id d d' hi hj
    obtain ⟨e, he, -⟩ := hback hi
    obtain ⟨e', he', -⟩ := hback hj
    exact h.unique he he'
  · intro i id d hi
    obtain ⟨e, he, hname⟩ := hback hi
    obtain ⟨s, hs, hn⟩ := h.named he
    exact ⟨s, hs, hname.symm.trans hn⟩

/-- A request without a target appends at most one record. -/
theorem appends_request (t : RefTable SymbolId) (id : SymbolId) (name : String) :
    t.Appends (t.request id name none).2 := by
  unfold request
  cases t.lookup id name with
  | some r => exact Appends.refl t
  | none =>
    constructor
    · intro i x hx
      have hi := (Array.getElem?_eq_some_iff.mp hx).1
      simpa [Array.getElem?_push, Nat.ne_of_lt hi] using hx
    · intro i x hx
      simp only [Array.getElem?_push] at hx
      split at hx
      · cases hx
        exact .inr rfl
      · exact .inl hx

/-- A request without a target gives the record of the symbol. -/
theorem request_none (h : t.Sound g) (hs : g.symbol? id = some s) :
    t.Appends (t.request id s.name none).2 ∧ (t.request id s.name none).2.Sound g ∧
      (t.request id s.name none).2.Has id (t.request id s.name none).1 := by
  refine ⟨t.appends_request id s.name, ?_⟩
  unfold request
  cases hl : t.lookup id s.name with
  | some r => exact ⟨h, (lookup_eq_some_iff h hs).mp hl⟩
  | none => exact ⟨h.push hs ((lookup_eq_none_iff h hs).mp hl) none, ⟨{ name := s.name }, by simp⟩⟩

/-- A request with a target, for a symbol that was not built before. -/
theorem request_some (h : t.Sound g) (hs : g.symbol? id = some s)
    (hnew : ∀ x, ¬ t.Built id x) (target : RefTarget) :
    t.Le (t.request id s.name (some target)).2 ∧
      (t.request id s.name (some target)).2.Sound g ∧
      ∀ id' x, (t.request id s.name (some target)).2.Built id' x ↔
        t.Built id' x ∨ id' = id ∧ x = target := by
  unfold request
  cases hl : t.lookup id s.name with
  | some r =>
    obtain ⟨d, hd⟩ := (lookup_eq_some_iff h hs).mp hl
    -- The record was without a target, so none is lost.
    have hnone : d.target = none := by
      cases ht : d.target with
      | none => rfl
      | some x => exact (hnew x ⟨r.index, d, hd, ht⟩).elim
    have hle : t.Le (t.patch r (some target)) := by
      constructor
      intro i id' d' hd'
      rw [getElem?_patch]
      split
      next hi =>
        subst hi
        cases hd.symm.trans hd'
        refine ⟨{ d with target := some target }, by rw [hd]; rfl, rfl, ?_⟩
        simp [hnone]
      next => exact ⟨d', hd', rfl, fun _ h => h⟩
    refine ⟨hle, h.patch r target, fun id' x => ⟨?_, ?_⟩⟩
    · rintro ⟨i, e, he, hx⟩
      rw [getElem?_patch] at he
      split at he
      next hi =>
        subst hi
        rw [hd] at he
        cases he
        exact .inr ⟨rfl, (Option.some.inj hx).symm⟩
      next => exact .inl ⟨i, e, he, hx⟩
    · rintro (hb | ⟨rfl, rfl⟩)
      · exact hb.mono hle
      · exact ⟨r.index, { d with target := some x }, by simp [getElem?_patch, hd], rfl⟩
  | none =>
    have hrec := (lookup_eq_none_iff h hs).mp hl
    have hle : t.Le ⟨t.records.push (id, { name := s.name, target := some target })⟩ := by
      constructor
      intro i id' d hd
      have hi := (Array.getElem?_eq_some_iff.mp hd).1
      exact ⟨d, by simpa [Array.getElem?_push, Nat.ne_of_lt hi] using hd, rfl, fun _ h => h⟩
    refine ⟨hle, h.push hs hrec _, fun id' x => ⟨?_, ?_⟩⟩
    · rintro ⟨i, e, he, hx⟩
      simp only [Array.getElem?_push] at he
      split at he
      · cases he
        exact .inr ⟨rfl, (Option.some.inj hx).symm⟩
      · exact .inl ⟨i, e, he, hx⟩
    · rintro (hb | ⟨rfl, rfl⟩)
      · exact hb.mono hle
      · exact ⟨t.records.size, { name := s.name, target := some x }, by simp, rfl⟩

end ApiDocs.RefTable
