import ApiDocs.Docs.Model

/-!
# Well-formed documentation

A documentation names classes, enums and references by their positions. It is well formed if every
position it names is there, if the lists of classes hold classes and those of interfaces interfaces,
and if every class and enum can be reached from its module records. Leaving out the records that hold
nothing keeps all this.

## Main definitions

* `TypeDoc.Mentions`, `ModuleDoc.Mentions`, `ClassDoc.Mentions`: the references in a record, at any
  depth.
* `Documentation.Reaches`: the module records that can be reached.
* `Documentation.WellFormed`: closed, of the right kinds, and without orphans.
-/

namespace ApiDocs

/-! ## References in records -/

/-- The reference occurs in the type, at any depth. -/
inductive TypeDoc.Mentions (r : RefId) : TypeDoc → Prop where
  | target {arguments : List TypeDoc} : Mentions r (.ref r arguments)
  | argument {target : RefId} {arguments : List TypeDoc} {a : TypeDoc} :
    a ∈ arguments → a.Mentions r → Mentions r (.ref target arguments)
  | element {a : TypeDoc} : a.Mentions r → Mentions r (.arrayOf a)
  | unionMember {members : List TypeDoc} {a : TypeDoc} :
    a ∈ members → a.Mentions r → Mentions r (.unionOf members)
  | intersectionMember {members : List TypeDoc} {a : TypeDoc} :
    a ∈ members → a.Mentions r → Mentions r (.intersectionOf members)

/-- The reference occurs in the type of the identifier. -/
def IdentifierDoc.Mentions (r : RefId) (d : IdentifierDoc) : Prop := ∃ t ∈ d.type, t.Mentions r

/-- The reference occurs in the return type or in a parameter. -/
def SignatureDoc.Mentions (r : RefId) (d : SignatureDoc) : Prop :=
  d.returnType.Mentions r ∨ ∃ p ∈ d.paramList, p.Mentions r

/-- The reference occurs in a signature. -/
def FunctionDoc.Mentions (r : RefId) (d : FunctionDoc) : Prop := ∃ s ∈ d.signatureList, s.Mentions r

/-- The reference occurs in one of the types of the index signature. -/
def IndexDoc.Mentions (r : RefId) (d : IndexDoc) : Prop :=
  (∃ t ∈ d.signature, t.Mentions r) ∨ ∃ t ∈ d.value, t.Mentions r

/-- The reference occurs in a member. -/
def EnumDoc.Mentions (r : RefId) (d : EnumDoc) : Prop := ∃ x ∈ d.memberList, x.Mentions r

/-- The reference occurs in a function or variable. -/
def ModuleDoc.Mentions (r : RefId) (m : ModuleDoc) : Prop :=
  (∃ f ∈ m.functionList, f.Mentions r) ∨ ∃ x ∈ m.variableList, x.Mentions r

/-- The reference occurs in a constructor, a member, an index signature or what is nested. -/
def ClassDoc.Mentions (r : RefId) (d : ClassDoc) : Prop :=
  (∃ f ∈ d.construct, f.Mentions r) ∨ (∃ f ∈ d.methodList, f.Mentions r) ∨
    (∃ x ∈ d.propertyList, x.Mentions r) ∨ (∃ x ∈ d.index, x.Mentions r) ∨ d.exports.Mentions r

/-- The class is listed as a class or as an interface. -/
def ModuleDoc.Lists (m : ModuleDoc) (c : ClassId) : Prop := c ∈ m.classList ∨ c ∈ m.interfaceList

theorem ModuleDoc.Lists.isEmpty_eq_false {m : ModuleDoc} {c : ClassId} (h : m.Lists c) :
    m.isEmpty = false := by
  rcases h with h | h
  · have hne : m.classList ≠ [] := List.ne_nil_of_mem h
    simp [isEmpty, hne]
  · have hne : m.interfaceList ≠ [] := List.ne_nil_of_mem h
    simp [isEmpty, hne]

theorem ModuleDoc.isEmpty_eq_false_of_mem_enumList {m : ModuleDoc} {e : EnumId}
    (h : e ∈ m.enumList) : m.isEmpty = false := by
  have hne : m.enumList ≠ [] := List.ne_nil_of_mem h
  simp [isEmpty, hne]

namespace Documentation

variable (d : Documentation)

/-- The module records at any level: those of exports, and the insides of classes. -/
def IsModule (m : ModuleDoc) : Prop := m ∈ d.modules ∨ ∃ c ∈ d.classes, c.exports = m

/-- The module records that can be reached from those of exports through the classes they list. -/
inductive Reaches : ModuleDoc → Prop where
  | exported {m : ModuleDoc} : m ∈ d.modules → Reaches m
  | nested {m : ModuleDoc} {c : ClassId} {x : ClassDoc} :
    Reaches m → m.Lists c → d.class? c = some x → Reaches x.exports

/-- Every position is there, classes and interfaces are listed as what they are, and there is no
class or enum that cannot be reached. -/
structure WellFormed : Prop where
  listed_class : ∀ {m c}, d.IsModule m → m.Lists c → c.index < d.classes.size
  base_class : ∀ {x c}, x ∈ d.classes → c ∈ x.extendList → c.index < d.classes.size
  target_class : ∀ {r : RefDoc} {c}, r ∈ d.refs → r.target = some (.toClass c) →
    c.index < d.classes.size
  listed_enum : ∀ {m e}, d.IsModule m → e ∈ m.enumList → e.index < d.enums.size
  target_enum : ∀ {r : RefDoc} {e}, r ∈ d.refs → r.target = some (.toEnum e) →
    e.index < d.enums.size
  module_ref : ∀ {m r}, d.IsModule m → m.Mentions r → r.index < d.refs.size
  class_ref : ∀ {x r}, x ∈ d.classes → x.Mentions r → r.index < d.refs.size
  enum_ref : ∀ {x r}, x ∈ d.enums → x.Mentions r → r.index < d.refs.size
  class_kind : ∀ {m c}, d.IsModule m → c ∈ m.classList →
    ∃ x, d.class? c = some x ∧ x.kind = .ofClass
  interface_kind : ∀ {m c}, d.IsModule m → c ∈ m.interfaceList →
    ∃ x, d.class? c = some x ∧ x.kind = .ofInterface
  class_reached : ∀ c : ClassId, c.index < d.classes.size → ∃ m, d.Reaches m ∧ m.Lists c
  enum_reached : ∀ e : EnumId, e.index < d.enums.size → ∃ m, d.Reaches m ∧ e ∈ m.enumList

variable {d}

/-! ## Leaving out empty records -/

theorem isModule_of_discardEmptyModules {m : ModuleDoc} (h : d.discardEmptyModules.IsModule m) :
    d.IsModule m :=
  h.imp_left fun hm => (List.mem_filter.mp hm).1

/-- A record that holds something can be reached without those that hold nothing. -/
theorem Reaches.discardEmptyModules {m : ModuleDoc} (h : d.Reaches m) (hm : m.isEmpty = false) :
    d.discardEmptyModules.Reaches m := by
  induction h with
  | exported hmem => exact .exported (List.mem_filter.mpr ⟨hmem, by simp [hm]⟩)
  -- The record that lists the class holds something too.
  | nested _ hc hx ih => exact .nested (ih hc.isEmpty_eq_false) hc hx

theorem WellFormed.discardEmptyModules (h : d.WellFormed) : d.discardEmptyModules.WellFormed where
  listed_class hm := h.listed_class (isModule_of_discardEmptyModules hm)
  base_class := h.base_class
  target_class := h.target_class
  listed_enum hm := h.listed_enum (isModule_of_discardEmptyModules hm)
  target_enum := h.target_enum
  module_ref hm := h.module_ref (isModule_of_discardEmptyModules hm)
  class_ref := h.class_ref
  enum_ref := h.enum_ref
  class_kind hm := h.class_kind (isModule_of_discardEmptyModules hm)
  interface_kind hm := h.interface_kind (isModule_of_discardEmptyModules hm)
  class_reached c hc := by
    obtain ⟨m, hm, hlists⟩ := h.class_reached c hc
    exact ⟨m, hm.discardEmptyModules hlists.isEmpty_eq_false, hlists⟩
  enum_reached e he := by
    obtain ⟨m, hm, hmem⟩ := h.enum_reached e he
    exact ⟨m, hm.discardEmptyModules (ModuleDoc.isEmpty_eq_false_of_mem_enumList hmem), hmem⟩

end Documentation

end ApiDocs
