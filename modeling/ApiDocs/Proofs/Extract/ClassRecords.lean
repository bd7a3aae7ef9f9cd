import ApiDocs.Proofs.Extract.Frames
import ApiDocs.Proofs.Extract.Identity

/-!
# Records of classes

A class may be met many times: as an export, through an alias, nested in another class, or in itself by
way of others. It is built at the first of these, bare at first, and whoever meets it while it is open gets
its position. In the end every class is the complete record of its symbol: each member that is not private
is in the list that its flags say, and each nested export in the list that its declaration leads to.

Two things make this so. Building other classes leaves a class alone, whether it is open or filled in; and
what a class extends is the only thing that is added after the walk.

## Main definitions

* `SymbolGraph.ClassRecord`: the complete record of a class.
* `SymbolGraph.ClassRecords`: every class that a walk built is documented by its complete record.

## Main results

* `SymbolGraph.extract_classRecords`: the classes of a documentation are complete.
-/

namespace ApiDocs

/-- Is the declaration that counts private? -/
def SymbolView.isPrivate (v : SymbolView) : Bool := v.declaration.any (·.isPrivate)

namespace SymbolView

variable {v : SymbolView}

theorem role_eq_method_iff :
    v.role = .method ↔ v.isPrivate = false ∧ v.flags.has SymbolFlags.methodBit = true := by
  by_cases hprivate : v.declaration.any (·.isPrivate) = true
  · simp [role, isPrivate, hprivate]
  by_cases hmethod : v.flags.has SymbolFlags.methodBit = true
  · simp [role, isPrivate, hprivate, hmethod]
  simp only [role, isPrivate, hprivate, hmethod]
  split_ifs <;> simp

theorem role_eq_property_iff :
    v.role = .property ↔ v.isPrivate = false ∧ v.flags.has SymbolFlags.methodBit = false ∧
      v.flags.meets (SymbolFlags.propertyBit ∪ SymbolFlags.accessorBit) = true := by
  by_cases hprivate : v.declaration.any (·.isPrivate) = true
  · simp [role, isPrivate, hprivate]
  by_cases hmethod : v.flags.has SymbolFlags.methodBit = true
  · simp [role, isPrivate, hprivate, hmethod]
  by_cases hproperty : v.flags.meets (SymbolFlags.propertyBit ∪ SymbolFlags.accessorBit) = true
  · simp [role, isPrivate, hprivate, hmethod, hproperty]
  simp only [role, isPrivate, hprivate, hmethod, hproperty]
  split_ifs <;> simp

end SymbolView

namespace SymbolGraph

/-! ## The record of a class -/

variable (g : SymbolGraph)

/-- The methods of a class, in the order of its members: those that are not private and are flagged as
methods. -/
def methodsOf (id : SymbolId) : List SymbolId :=
  (g.symbolAt id).members.values.filter fun m =>
    !(g.viewAt m).isPrivate && (g.viewAt m).flags.has SymbolFlags.methodBit

/-- The properties of a class, in the order of its members: those that are not private and no methods,
and are flagged as properties or accessors. -/
def propertiesOf (id : SymbolId) : List SymbolId :=
  (g.symbolAt id).members.values.filter fun m =>
    !(g.viewAt m).isPrivate && !(g.viewAt m).flags.has SymbolFlags.methodBit &&
      (g.viewAt m).flags.meets (SymbolFlags.propertyBit ∪ SymbolFlags.accessorBit)

/-- The record is the complete one of a class. The table says which symbol has which reference, and what
each symbol was built as. -/
structure ClassRecord (t : RefTable SymbolId) (id : SymbolId) (d : ClassDoc) : Prop where
  name : d.name = (g.symbolAt id).name
  kind : g.route? id = some (.toClass d.kind)
  methods : List.Forall₂ (fun m f => g.FunctionOf t (g.viewAt m) f) (g.methodsOf id) d.methodList
  properties : List.Forall₂
    (fun m x => g.IdentifierOf t (g.viewAt m) ((g.viewAt m).flags.has SymbolFlags.optionalBit) x)
    (g.propertiesOf id) d.propertyList
  /-- There is a constructor just if the type of the class has construct signatures. -/
  construct_none : d.construct = none ↔ g.constructsOf (g.viewAt id) = []
  construct_some : ∀ f, d.construct = some f → f.name = none ∧
    List.Forall₂ (g.SignatureOf t) (g.constructsOf (g.viewAt id)) f.signatureList
  /-- The index is that of the last member which is an index signature and not private. -/
  index : Option.Rel (g.IndexOf t) (g.lastIndex (g.symbolAt id).members.values) d.index
  /-- The exports that are no class members are listed, if the flags of the class say that it has any. -/
  exports : (g.symbolAt id).flags.meets SymbolFlags.hasExports = true →
    g.ModuleOf t ((g.symbolAt id).exports.values.filter
      fun n => !(g.symbolAt n).flags.meets SymbolFlags.classMember) d.exports
  no_exports : (g.symbolAt id).flags.meets SymbolFlags.hasExports = false → d.exports = {}

variable {g} {t : RefTable SymbolId} {id : SymbolId} {d : ClassDoc} {o : ExtractOptions}
  {doc : Documentation}

theorem membersAs_method : g.membersAs .method (g.symbolAt id).members.values = g.methodsOf id := by
  refine List.filter_congr fun m _ => ?_
  rw [Bool.eq_iff_iff, decide_eq_true_iff, SymbolView.role_eq_method_iff]
  simp

theorem membersAs_property :
    g.membersAs .property (g.symbolAt id).members.values = g.propertiesOf id := by
  refine List.filter_congr fun m _ => ?_
  rw [Bool.eq_iff_iff, decide_eq_true_iff, SymbolView.role_eq_property_iff]
  simp [and_assoc]

theorem ModuleOf.eq_empty {m : ModuleDoc} (h : g.ModuleOf t [] m) : m = {} := by
  obtain ⟨enums, classes, interfaces, functions, values⟩ := h
  cases m
  simp_all

/-- What a class is built as is its complete record. -/
theorem ClassOf.classRecord (h : g.ClassOf t id d) : g.ClassRecord t id d := by
  obtain ⟨signatures, hsignatures, hconstruct⟩ := h.construct
  refine ⟨h.name, h.kind, ?_, ?_, ?_, ?_, h.body.index, ?_, ?_⟩
  · rw [← membersAs_method]
    exact h.body.methods
  · rw [← membersAs_property]
    exact h.body.properties
  · rw [hconstruct, ← List.length_eq_zero_iff, hsignatures.length_eq]
    cases signatures <;> simp [constructorWith]
  · intro f hf
    rw [hconstruct] at hf
    cases signatures with
    | nil => cases hf
    | cons x xs =>
      cases hf
      exact ⟨rfl, hsignatures⟩
  · intro hflags
    have hexports := h.exports
    rwa [nestedIn, exportsIn, if_pos hflags] at hexports
  · intro hflags
    have hexports := h.exports
    rw [nestedIn, exportsIn, if_neg (by simp [hflags])] at hexports
    exact hexports.eq_empty

/-! ## All classes -/

/-- Every class that a walk with the end state `s` built is documented by its complete record. -/
structure ClassRecords (g : SymbolGraph) (o : ExtractOptions) (s : WalkState) (doc : Documentation) :
    Prop where
  /-- Linking is all that comes after the walk. -/
  finished : s.finish = .ok { doc with modules := [] }
  /-- The symbols with a class are those that the walk comes to and routes to one. -/
  class_iff : ∀ {id}, (∃ c, s.refs.Built id (.toClass c)) ↔
    g.Assembled o id ∧ ∃ kind, g.route? id = some (.toClass kind)
  owner : ∀ c : ClassId, c.index < doc.classes.size ↔ ∃ id, s.refs.Built id (.toClass c)
  owner_unique : ∀ {id id' c}, s.refs.Built id (.toClass c) → s.refs.Built id' (.toClass c) → id = id'
  class_unique : ∀ {id c c'}, s.refs.Built id (.toClass c) → s.refs.Built id (.toClass c') → c = c'
  /-- The record is complete; the walk left it as it is but for what it extends, which was nothing. -/
  record : ∀ {id c}, s.refs.Built id (.toClass c) → ∃ d, doc.class? c = some d ∧
    g.ClassRecord s.refs id d ∧ s.classes[c.index]? = some { d with extendList := [] }
  /-- While the record of any symbol is built, classes that are there stay as they are, open or not. -/
  framed : ∀ {depth v m s₁ m' s₂}, Walk.assemble g o.maxAliasDepth depth v m s₁ = .ok (m', s₂) →
    s₁.Framed s₂

/-- **Every class record is complete**, and leaks nothing private. -/
theorem extract_classRecords (hvalid : g.Valid) (hdoc : g.extract o = .ok doc) :
    ∃ mss s, (g.ownFiles.filter (g.accepts o)).mapM (g.documentFile o) {} = .ok (mss, s) ∧
      g.ClassRecords o s doc := by
  obtain ⟨mss, s, hrun, hwalked⟩ := exists_walked hvalid hdoc
  have h := hwalked.documents
  refine ⟨mss, s, hrun, {
    finished := hwalked.finished
    class_iff := h.exists_class_iff
    owner := fun c => h.holds_iff (.toClass c)
    owner_unique := h.injective
    class_unique := ?_
    record := ?_
    framed := ?_ }⟩
  · intro id c c' hb hb'
    injection hb.unique h.sound hb'
  · intro id c hb
    obtain ⟨d, hd, hclass, hleft⟩ := hwalked.classRecord hb
    exact ⟨d, hd, hclass.classRecord, hleft⟩
  · intro depth v m s₁ m' s₂ hbuild
    exact (Walk.assemble_frames g o.maxAliasDepth depth v m s₁).of_ok hbuild

/-! ## A class that comes back to itself -/

/-- The class `Account` has members of all kinds, one of them private, and nests an enum and a class that
exports `Account` again. -/
def account : SymbolGraph where
  files := [⟨"lib.d.ts", none⟩, ⟨"a.ts", some ⟨0⟩⟩]
  symbols := #[
    { name := "a", flags := SymbolFlags.moduleBit, exports := .ofList [("Alias", ⟨2⟩)] },
    { name := "Account", flags := SymbolFlags.classBit ∪ SymbolFlags.moduleBit, typeId := some ⟨1⟩,
      members := .ofList [("balance", ⟨3⟩), ("secret", ⟨4⟩), ("deposit", ⟨5⟩), ("total", ⟨6⟩)],
      exports := .ofList [("Kind", ⟨7⟩), ("create", ⟨5⟩), ("Audit", ⟨8⟩)],
      declarations := [{ kind := .classDecl, pos := default }] },
    { name := "Alias", flags := SymbolFlags.aliasBit, aliasOf := some ⟨1⟩ },
    { name := "balance", flags := SymbolFlags.propertyBit ∪ SymbolFlags.optionalBit, typeId := some ⟨0⟩,
      declarations := [{ kind := .property, pos := default }] },
    { name := "secret", flags := SymbolFlags.propertyBit, typeId := some ⟨0⟩,
      declarations := [{ kind := .property, pos := default, modifiers := ModifierFlags.privateBit }] },
    { name := "deposit", flags := SymbolFlags.methodBit, typeId := some ⟨2⟩,
      declarations := [{ kind := .method, pos := default }] },
    { name := "total", flags := SymbolFlags.accessorBit, typeId := some ⟨0⟩,
      declarations := [{ kind := .accessor, pos := default }] },
    { name := "Kind", flags := SymbolFlags.enumBit,
      declarations := [{ kind := .enumDecl, pos := default }] },
    { name := "Audit", flags := SymbolFlags.classBit, exports := .ofList [("Subject", ⟨1⟩)],
      declarations := [{ kind := .classDecl, pos := default }] }]
  types := #[
    { flags := TypeFlags.numberBit, display := "number" },
    { flags := TypeFlags.objectBit, objectFlags := ObjectFlags.classBit, symbol := some ⟨1⟩,
      display := "Account", constructSignatures := [⟨0⟩] },
    { flags := TypeFlags.objectBit, objectFlags := ObjectFlags.anonymousBit,
      display := "() => number", callSignatures := [⟨1⟩] }]
  signatures := #[{ parameters := [], returnType := ⟨1⟩ }, { parameters := [], returnType := ⟨0⟩ }]

theorem account_valid : account.Valid := by decide +kernel

/-- What the classes list: their methods, properties and nested classes. -/
def classListings (doc : Documentation) :
    List (List String × List (String × Bool) × List ClassId) :=
  doc.classes.toList.map fun d => (d.methodList.filterMap (·.name),
    d.propertyList.map fun x => (x.name, x.optional), d.exports.classList)

theorem extract_account : (account.extract {}).toOption.map classListings =
    some [(["deposit"], [("balance", true), ("total", false)], [⟨1⟩]), ([], [], [⟨0⟩])] := by
  have hfiles : account.ownFiles.filter (account.accepts {}) = [⟨"a.ts", some ⟨0⟩⟩] := rfl
  have hexports : (account.symbol? ⟨0⟩).map (·.exports.entries) = some [("Alias", ⟨2⟩)] := rfl
  rw [extract_of_sole hfiles hexports]
  decide +kernel

/-- The class is complete though it was met again while it was open, and its private member is hidden. -/
theorem account_classRecords : ∃ doc s, account.extract {} = .ok doc ∧ account.ClassRecords {} s doc ∧
    classListings doc =
      [(["deposit"], [("balance", true), ("total", false)], [⟨1⟩]), ([], [], [⟨0⟩])] := by
  have hlistings := extract_account
  cases hdoc : account.extract {} with
  | error e => simp [hdoc, Except.toOption] at hlistings
  | ok doc =>
    obtain ⟨-, s, -, hrecords⟩ := extract_classRecords account_valid hdoc
    exact ⟨doc, s, rfl, hrecords, by simpa [hdoc, Except.toOption] using hlistings⟩

end SymbolGraph

end ApiDocs
