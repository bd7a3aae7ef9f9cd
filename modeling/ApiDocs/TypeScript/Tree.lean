import ApiDocs.FlagSet
import ApiDocs.TypeScript.Token

/-!
# Source trees

What a source says, as far as its documentation needs it. Types and initializers keep the shapes
that are understood and the text of everything else; the bodies of functions keep only the names
they declare, since those names are in scope for the types of the function's parameters.

## Main definitions

* `TypeScript.TypeTree`: a written type.
* `TypeScript.Expr`: an initializer.
* `TypeScript.FunctionTree`, `TypeScript.ClassTree`, …: declarations.
* `TypeScript.Statement`: a statement of a file or namespace.
* `TypeScript.SourceTree`: a file with the comments that document its parts.
-/

namespace ApiDocs.TypeScript

/-! ## Types and expressions -/

/-- A name with dots. -/
inductive EntityName where
  | name (text : String)
  | member (left : EntityName) (right : String)
  deriving DecidableEq, Repr, Inhabited

/-- The types that are keywords. -/
inductive KeywordType where
  | any | unknown | string | number | boolean | bigint | symbol | void | undefined | null | never
  | object
  deriving DecidableEq, Repr, Inhabited

/-- The word of a keyword type. -/
def KeywordType.word : KeywordType → String
  | any => "any"
  | unknown => "unknown"
  | string => "string"
  | number => "number"
  | boolean => "boolean"
  | bigint => "bigint"
  | symbol => "symbol"
  | void => "void"
  | undefined => "undefined"
  | null => "null"
  | never => "never"
  | object => "object"

/-- The flags of a keyword type. -/
def KeywordType.flags : KeywordType → TypeFlags
  | any => TypeFlags.anyBit
  | unknown => TypeFlags.unknownBit
  | string => TypeFlags.stringBit
  | number => TypeFlags.numberBit
  | boolean => TypeFlags.booleanBit
  | bigint => TypeFlags.bigIntBit
  | symbol => TypeFlags.symbolBit
  | void => TypeFlags.voidBit
  | undefined => TypeFlags.undefinedBit
  | null => TypeFlags.nullBit
  | never => TypeFlags.neverBit
  | object => TypeFlags.nonPrimitiveBit

/-- All keyword types. -/
def KeywordType.all : List KeywordType :=
  [any, unknown, string, number, boolean, bigint, symbol, void, undefined, null, never, object]

/-- The keyword type of a word. -/
def KeywordType.ofWord? (w : String) : Option KeywordType := all.find? (·.word == w)

/-- A written type. Parentheses are not kept. -/
inductive TypeTree where
  | keyword (k : KeywordType)
  | text (value : String)
  | number (value : Binary64)
  | boolean (value : Bool)
  /-- A named type, with its name also as written. -/
  | reference (name : EntityName) (written : String) (arguments : List TypeTree)
  | array (element : TypeTree)
  | union (members : List TypeTree)
  | intersection (members : List TypeTree)
  /-- A tuple, its elements as written. -/
  | tuple (elements : List String)
  | this
  /-- Any other type, as written. -/
  | verbatim (written : String)
  deriving Repr, Inhabited

/-- An initializer. -/
inductive Expr where
  | text (value : String)
  | number (value : Binary64)
  /-- A number behind a minus sign. -/
  | negative (value : Binary64)
  | boolean (value : Bool)
  | null
  | template
  /-- An array with its elements; holes and spread elements are not among them. -/
  | array (elements : List Expr)
  /-- A new instance of what a name stands for. -/
  | instanceOf (name : String)
  /-- An arrow function: its parameters and its result type as written. -/
  | arrow (parameters : String) (result : Option String)
  | parens (inner : Expr)
  | cast (type : TypeTree)
  | name (text : String)
  | other
  deriving Repr, Inhabited

/-! ## Parts of declarations -/

/-- What kind of thing a name is declared as. -/
inductive BindingKind where
  | variableLike
  | functionLike
  | classLike
  | interfaceLike
  | typeAlias
  | typeParameter
  | enumLike
  /-- A namespace, which may or may not hold values. -/
  | namespaceLike (hasValues : Bool)
  | importLike (typeOnly : Bool)
  deriving DecidableEq, Repr, Inhabited

/-- A declared name. -/
abbrev Bound := String × BindingKind

structure TypeParameter where
  name : String
  span : Span
  deriving Repr, Inhabited

/-- How far a member can be seen. -/
inductive Access where
  | isPublic
  | isProtected
  | isPrivate
  deriving DecidableEq, Repr, Inhabited

/-- What a parameter or variable binds: a single name, or the names inside a pattern. -/
structure Pattern where
  single : Option String
  names : List String
  deriving Repr, Inhabited

structure Parameter where
  span : Span
  pattern : Pattern
  isOptional : Bool
  type : Option TypeTree
  default : Option Expr
  access : Option Access
  isReadonly : Bool
  deriving Repr, Inhabited

/-- The parameter that takes all further arguments. -/
structure RestParameter where
  span : Span
  pattern : Pattern
  type : Option TypeTree
  deriving Repr, Inhabited

structure Parameters where
  items : List Parameter
  rest : Option RestParameter
  deriving Repr, Inhabited

/-- A function, method or constructor. -/
structure FunctionTree where
  name : Option String
  typeParameters : List TypeParameter
  parameters : Parameters
  result : Option TypeTree
  /-- The names that the body declares, if there is a body. -/
  body : Option (List Bound)
  isAsync : Bool
  isDeclared : Bool
  deriving Repr, Inhabited

/-- The name of a member. -/
inductive MemberKey where
  | known (name : String)
  | privateName (name : String)
  /-- A name that is computed. -/
  | computed
  deriving DecidableEq, Repr, Inhabited

inductive MethodKind where
  | construct
  | method
  | getter
  | setter
  deriving DecidableEq, Repr, Inhabited

/-- A method of a class or interface. -/
structure MethodTree where
  span : Span
  kind : MethodKind
  key : MemberKey
  isStatic : Bool
  isOptional : Bool
  access : Option Access
  function : FunctionTree
  deriving Repr, Inhabited

/-- A property of a class or interface. -/
structure PropertyTree where
  span : Span
  key : MemberKey
  isStatic : Bool
  isOptional : Bool
  isReadonly : Bool
  access : Option Access
  type : Option TypeTree
  value : Option Expr
  deriving Repr, Inhabited

structure IndexTree where
  span : Span
  isStatic : Bool
  isReadonly : Bool
  key : Option TypeTree
  value : TypeTree
  deriving Repr, Inhabited

inductive ClassMember where
  | method (m : MethodTree)
  | property (p : PropertyTree)
  | index (i : IndexTree)
  | other
  deriving Repr, Inhabited

structure ClassTree where
  name : Option String
  typeParameters : List TypeParameter
  /-- What the class extends, if that is a name. -/
  base : Option EntityName
  implemented : List EntityName
  members : List ClassMember
  isAbstract : Bool
  isDeclared : Bool
  deriving Repr, Inhabited

inductive InterfaceMember where
  | method (m : MethodTree)
  | property (p : PropertyTree)
  | index (i : IndexTree)
  | construct (span : Span) (f : FunctionTree)
  | call
  deriving Repr, Inhabited

structure InterfaceTree where
  name : String
  typeParameters : List TypeParameter
  bases : List EntityName
  members : List InterfaceMember
  isDeclared : Bool
  deriving Repr, Inhabited

structure AliasTree where
  name : String
  typeParameters : List TypeParameter
  type : TypeTree
  deriving Repr, Inhabited

structure EnumMemberTree where
  span : Span
  /-- The name; none if it is computed. -/
  name : Option String
  value : Option Expr
  deriving Repr, Inhabited

structure EnumTree where
  name : String
  members : List EnumMemberTree
  isDeclared : Bool
  deriving Repr, Inhabited

structure VariableTree where
  span : Span
  pattern : Pattern
  type : Option TypeTree
  value : Option Expr
  deriving Repr, Inhabited

/-- The word that a declaration of variables starts with. -/
inductive VariableKind where
  | isVar
  | isLet
  | isConst
  deriving DecidableEq, Repr, Inhabited

structure VariablesTree where
  items : List VariableTree
  kind : VariableKind
  isDeclared : Bool
  deriving Repr, Inhabited

/-! ## Statements -/

/-- What an import takes from a module. -/
inductive ImportName where
  | named (name : String)
  | defaultExport
  | wholeModule
  deriving DecidableEq, Repr, Inhabited

structure ImportSpecifier where
  span : Span
  localName : String
  imported : ImportName
  typeOnly : Bool
  deriving Repr, Inhabited

structure ExportSpecifier where
  span : Span
  localName : String
  exported : String
  typeOnly : Bool
  deriving Repr, Inhabited

mutual

/-- A declaration. -/
inductive Declared where
  | variableGroup (tree : VariablesTree)
  | functionLike (tree : FunctionTree)
  | classLike (tree : ClassTree)
  | interfaceLike (tree : InterfaceTree)
  | typeAlias (tree : AliasTree)
  | enumLike (tree : EnumTree)
  /-- A namespace with its statements, if it has a body. -/
  | namespaceLike (name : String) (body : Option (List Statement))
  /-- Another name for a part of a namespace or a module. -/
  | importEquals (name : String)
  /-- A declaration without a name of its own: a module elsewhere, or the global scope. -/
  | nameless

/-- A statement of a file or namespace. -/
inductive Statement where
  | declared (span : Span) (d : Declared)
  | exported (span : Span) (d : Declared)
  | exportNames (specifiers : List ExportSpecifier) (source : Option String)
  | exportFunction (span : Span) (tree : FunctionTree)
  | exportClass (span : Span) (tree : ClassTree)
  | exportInterface (span : Span) (tree : InterfaceTree)
  | exportValue (span : Span) (value : Expr)
  | exportAll (span : Span) (name : Option String) (source : String)
  | imported (specifiers : List ImportSpecifier) (source : String)
  | exportAssignment
  /-- Any other statement, with the variables it declares for its surroundings. -/
  | other (names : List String)

end

deriving instance Repr for Declared
deriving instance Repr for Statement

instance : Inhabited Statement := ⟨.other []⟩
instance : Inhabited Declared := ⟨.nameless⟩

/-- Does the statement make its file a module? -/
def Statement.isModule : Statement → Bool
  | declared .. => false
  | other _ => false
  | _ => true

/-- A file: its statements, and the documentation comments by the offset of the token that they
document. -/
structure SourceTree where
  statements : List Statement
  docs : List (Nat × String)
  deriving Repr, Inhabited

/-- Is the file a module? -/
def SourceTree.isModule (t : SourceTree) : Bool := t.statements.any Statement.isModule

/-! ## Names that declarations bind -/

mutual

/-- Does a namespace hold a value? Interfaces, type aliases and namespaces of such are none. A
namespace without a body counts as holding one. -/
def Declared.hasValue : Declared → Bool
  | .interfaceLike _ => false
  | .typeAlias _ => false
  | .namespaceLike _ none => true
  | .namespaceLike _ (some body) => anyHasValue body
  | _ => true

/-- Does a statement of a namespace give it a value? -/
def Statement.hasValue : Statement → Bool
  | .declared _ d => d.hasValue
  | .exported _ d => d.hasValue
  | .imported .. => false
  | _ => true

/-- Does one of the statements give a value? -/
def anyHasValue : List Statement → Bool
  | [] => false
  | s :: rest => s.hasValue || anyHasValue rest

end

/-- The names that a declaration binds. -/
def Declared.bound (d : Declared) : List Bound :=
  match d with
  | .variableGroup t => t.items.flatMap fun v => v.pattern.names.map fun n => (n, .variableLike)
  | .functionLike t => t.name.toList.map fun n => (n, .functionLike)
  | .classLike t => t.name.toList.map fun n => (n, .classLike)
  | .interfaceLike t => [(t.name, .interfaceLike)]
  | .typeAlias t => [(t.name, .typeAlias)]
  | .enumLike t => [(t.name, .enumLike)]
  | .namespaceLike name _ => [(name, .namespaceLike d.hasValue)]
  | .importEquals name => [(name, .importLike false)]
  | .nameless => []

/-- The variables that a statement declares for all that surrounds it, and not only for its block. -/
def Statement.hoisted : Statement → List String
  | .declared _ (.variableGroup t) =>
    match t.kind with
    | .isVar => t.items.flatMap (·.pattern.names)
    | _ => []
  | .other names => names
  | _ => []

/-- The names that a statement binds in the scope it stands in. -/
def Statement.bound : Statement → List Bound
  | .declared _ d => d.bound
  | .exported _ d => d.bound
  | .exportFunction _ t => (Declared.functionLike t).bound
  | .exportClass _ t => (Declared.classLike t).bound
  | .exportInterface _ t => (Declared.interfaceLike t).bound
  | .imported specifiers _ => specifiers.map fun s => (s.localName, .importLike s.typeOnly)
  | .other names => names.map fun n => (n, .variableLike)
  | _ => []

end ApiDocs.TypeScript
