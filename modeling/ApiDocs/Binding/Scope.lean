import ApiDocs.Graph.Basic
import ApiDocs.TypeScript.Tree

/-!
# Scopes

Names are bound by where they stand: in a file, a block of a namespace, a class, an interface, a
type alias or a function. A use of a name goes to the nearest binding around it that the use admits;
bindings of another nature are passed over.

## Main definitions

* `ScopeFrame`: the names bound in one scope.
* `NameUse`: how a name is used, and which bindings that admits.
* `NameRef`: what a name was found to refer to.
* `Scoping`: which bindings the names of a file make and mean.
* `Scoping.lexical`: names mean the nearest bindings around them.
-/

namespace ApiDocs

open TypeScript (Bound BindingKind EntityName)

/-- The names bound in one scope of a file. -/
structure ScopeFrame where
  /-- The number of the scope in its file. -/
  id : Nat
  bound : List Bound
  deriving Repr, Inhabited

/-- A binding: a name in a scope of a file. A name bound twice in one scope is one binding. -/
structure LocalRef where
  file : Nat
  scope : Nat
  name : String
  deriving DecidableEq, Repr, Inhabited

/-- What a name refers to. -/
inductive NameRef where
  | bound (binding : LocalRef)
  /-- A name of what another name refers to. -/
  | within (left : NameRef) (name : String)
  /-- A name that is not bound in the file. -/
  | global (name : String)
  deriving DecidableEq, Repr, Inhabited

/-- How a name is used. -/
inductive NameUse where
  | asType
  | asValue
  | asEither
  deriving DecidableEq, Repr, Inhabited

namespace NameUse

/-- Does a use as a type admit the binding? -/
def admitsType : BindingKind → Bool
  | .variableLike | .functionLike => false
  | _ => true

/-- Does a use as a value admit the binding? -/
def admitsValue : BindingKind → Bool
  | .variableLike | .functionLike | .classLike | .enumLike => true
  | .namespaceLike hasValues => hasValues
  | .importLike typeOnly => !typeOnly
  | .interfaceLike | .typeAlias | .typeParameter => false

/-- Does the use admit the binding? -/
def admits : NameUse → BindingKind → Bool
  | asType, kind => admitsType kind
  | asValue, kind => admitsValue kind
  | asEither, kind => admitsType kind || admitsValue kind

end NameUse

/-- Which bindings the names of a file make and mean. A binding is known by a number and a name. -/
structure Scoping where
  /-- The binding that a name declared in the innermost frame makes, if it makes one. -/
  declared? : List ScopeFrame → String → Option (Nat × String)
  /-- The binding that a name used inside the frames means, if it means one of the file. -/
  used? : NameUse → List ScopeFrame → String → Option (Nat × String)

namespace Scoping

/-- **Names mean the nearest bindings around them.** Frames go from the inside out; the number of a
binding is that of its scope. -/
def lexical : Scoping where
  declared? frames name := some ((frames.head?.map (·.id)).getD 0, name)
  used? use frames name :=
    (frames.find? fun f => f.bound.any fun b => b.1 == name && use.admits b.2).map fun f => (f.id, name)

instance : Inhabited Scoping := ⟨lexical⟩

variable (scoping : Scoping)

/-- What a name refers to. -/
def refer (use : NameUse) (file : Nat) (frames : List ScopeFrame) (name : String) : NameRef :=
  match scoping.used? use frames name with
  | some (scope, name) => .bound ⟨file, scope, name⟩
  | none => .global name

/-- The reference of a name with dots: its first part is used, the others are looked up in it. -/
def referEntity (use : NameUse) (file : Nat) (frames : List ScopeFrame) : EntityName → NameRef
  | .name text => scoping.refer use file frames text
  | .member left right => .within (referEntity use file frames left) right

end Scoping

end ApiDocs
