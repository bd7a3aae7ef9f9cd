import ApiDocs.Graph.Basic

/-!
# The documentation model

What is documented of a program: one record per export, and lists of the classes, the enums and
the references that those records mention by position. A type in a record is a tree of its own; it
names a declared type by a position in the list of references, and a reference tells the class or
enum it stands for if that one is documented too.

## Main definitions

* `TypeDoc`: a described type.
* `IdentifierDoc`, `SignatureDoc`, `FunctionDoc`, `IndexDoc`, `EnumDoc`, `ClassDoc`: records.
* `ModuleDoc`: what one export, or the inside of a class, contributes.
* `Documentation`: the whole model, with look-up by position and by name.
-/

namespace ApiDocs

/-- The position of a class or interface in the documentation. -/
structure ClassId where
  index : Nat
  deriving DecidableEq, Repr, Inhabited

/-- The position of an enum in the documentation. -/
structure EnumId where
  index : Nat
  deriving DecidableEq, Repr, Inhabited

/-- The position of a reference in the documentation. -/
structure RefId where
  index : Nat
  deriving DecidableEq, Repr, Inhabited

/-- Why a type is given by its display only. -/
inductive UnsupportedKind where
  | tuple
  | other
  deriving DecidableEq, Repr, Inhabited

/-- A described type. -/
inductive TypeDoc where
  /-- A type that its name says all about. -/
  | name (text : String)
  /-- An enum member: the name of its primitive type and its value. -/
  | literal (primitive : String) (value : Literal)
  /-- A declared type with its type arguments. -/
  | ref (target : RefId) (arguments : List TypeDoc)
  | arrayOf (element : TypeDoc)
  | unionOf (members : List TypeDoc)
  | intersectionOf (members : List TypeDoc)
  | unsupported (kind : UnsupportedKind) (display : String)
  deriving Repr, Inhabited

namespace TypeDoc

/-- The reference of a declared type. -/
def refId? : TypeDoc → Option RefId
  | ref target _ => some target
  | _ => none

/-- Is the type a union or an intersection? -/
def isCompound : TypeDoc → Bool
  | unionOf _ | intersectionOf _ => true
  | _ => false

end TypeDoc

/-- A variable, property, parameter or enum member. -/
structure IdentifierDoc where
  name : String
  type : Option TypeDoc := none
  optional : Bool := false
  value : Option Literal := none
  pos : Option SourcePos := none
  doc : Option String := none
  deriving Repr, Inhabited

/-- One way to call a function. -/
structure SignatureDoc where
  pos : Option SourcePos := none
  paramList : List IdentifierDoc
  returnType : TypeDoc
  doc : Option String := none
  deriving Repr, Inhabited

/-- A function with its overloads; constructors have no name. -/
structure FunctionDoc where
  name : Option String
  signatureList : List SignatureDoc := []
  deriving Repr, Inhabited

/-- The types of an index signature. -/
structure IndexDoc where
  signature : Option TypeDoc
  value : Option TypeDoc
  deriving Repr, Inhabited

/-- An enum. -/
structure EnumDoc where
  name : String
  pos : Option SourcePos := none
  doc : Option String := none
  memberList : List IdentifierDoc := []
  deriving Repr, Inhabited

/-- What one export, or the inside of a class, contributes. -/
structure ModuleDoc where
  enumList : List EnumId := []
  classList : List ClassId := []
  interfaceList : List ClassId := []
  functionList : List FunctionDoc := []
  variableList : List IdentifierDoc := []
  deriving Repr, Inhabited

/-- Does the record hold nothing? -/
def ModuleDoc.isEmpty (m : ModuleDoc) : Bool :=
  m.enumList.isEmpty && m.classList.isEmpty && m.interfaceList.isEmpty &&
    m.functionList.isEmpty && m.variableList.isEmpty

/-- Classes and interfaces share one record. -/
inductive ClassKind where
  | ofClass
  | ofInterface
  deriving DecidableEq, Repr, Inhabited

/-- A class or interface. -/
structure ClassDoc where
  name : String
  kind : ClassKind
  pos : Option SourcePos := none
  doc : Option String := none
  construct : Option FunctionDoc := none
  methodList : List FunctionDoc := []
  propertyList : List IdentifierDoc := []
  index : Option IndexDoc := none
  extendList : List ClassId := []
  exports : ModuleDoc := {}
  deriving Repr, Inhabited

namespace ClassDoc

/-- Add a constructor; all constructors are overloads of one function without a name. -/
def addConstructor (c : ClassDoc) (s : SignatureDoc) : ClassDoc :=
  let f := c.construct.getD { name := none }
  { c with construct := some { f with signatureList := f.signatureList ++ [s] } }

/-- The first property of a name. -/
def property? (c : ClassDoc) (name : String) : Option IdentifierDoc :=
  c.propertyList.find? (·.name == name)

/-- The first method of a name. -/
def method? (c : ClassDoc) (name : String) : Option FunctionDoc :=
  c.methodList.find? (·.name == some name)

end ClassDoc

/-- What a reference leads to. -/
inductive RefTarget where
  | toClass (id : ClassId)
  | toEnum (id : EnumId)
  deriving DecidableEq, Repr, Inhabited

/-- A declared type that some record mentions. -/
structure RefDoc where
  name : String
  target : Option RefTarget := none
  deriving DecidableEq, Repr, Inhabited

/-- The documentation of a program. -/
structure Documentation where
  modules : List ModuleDoc := []
  classes : Array ClassDoc := #[]
  enums : Array EnumDoc := #[]
  refs : Array RefDoc := #[]
  deriving Repr, Inhabited

namespace Documentation

variable (d : Documentation)

/-! ## Look-up by position -/

def class? (id : ClassId) : Option ClassDoc := d.classes[id.index]?

def enum? (id : EnumId) : Option EnumDoc := d.enums[id.index]?

def ref? (id : RefId) : Option RefDoc := d.refs[id.index]?

/-- The outcome of a look-up that goes through positions of the model. -/
inductive Found (α : Type) where
  /-- A position leads nowhere. -/
  | dangling
  /-- There is no such record. -/
  | absent
  | found (a : α)
  deriving Repr

/-- Apply a function to a record that is there. -/
def Found.map (f : α → β) : Found α → Found β
  | dangling => .dangling
  | absent => .absent
  | found a => .found (f a)

/-- The class that a reference leads to. -/
def refClass (id : RefId) : Found ClassDoc :=
  match d.ref? id with
  | none => .dangling
  | some r =>
    match r.target with
    | some (.toClass c) =>
      match d.class? c with
      | some c => .found c
      | none => .dangling
    | _ => .absent

/-- The enum that a reference leads to. -/
def refEnum (id : RefId) : Found EnumDoc :=
  match d.ref? id with
  | none => .dangling
  | some r =>
    match r.target with
    | some (.toEnum e) =>
      match d.enum? e with
      | some e => .found e
      | none => .dangling
    | _ => .absent

/-! ## Look-up by name -/

/-- The first record with the property among those at the positions; the search ends at a position
that leads nowhere. -/
def firstAmong (get? : ι → Option α) (p : α → Bool) : List ι → Found α
  | [] => .absent
  | i :: is =>
    match get? i with
    | none => .dangling
    | some a => if p a then .found a else firstAmong get? p is

/-- The first exported class or interface of a name. -/
def findClass (name : String) : Found ClassDoc :=
  firstAmong d.class? (·.name == name) (d.modules.flatMap fun m => m.classList ++ m.interfaceList)

/-- The first exported enum of a name. -/
def findEnum (name : String) : Found EnumDoc :=
  firstAmong d.enum? (·.name == name) (d.modules.flatMap (·.enumList))

/-- The first exported function of a name. -/
def findFunction (name : String) : Option FunctionDoc :=
  (d.modules.flatMap (·.functionList)).find? (·.name == some name)

/-! ## Empty records -/

/-- The records that hold something. -/
def nonEmptyModules : List ModuleDoc := d.modules.filter (!·.isEmpty)

/-- The documentation without the records that hold nothing. -/
def discardEmptyModules : Documentation := { d with modules := d.nonEmptyModules }

end Documentation

end ApiDocs
