import ApiDocs.Graph.Basic

/-!
# Shapes of types

The facts recorded of a type overlap: an enum is also a union, an array is also an instantiation. A
shape is the one reading that the documentation takes, chosen by the first rule that applies:

1. enum literals, a union of which is the enum itself;
2. types that their display says all about: keywords, literals, `this` and anonymous objects;
3. instantiations of `Array`;
4. other instantiations, then classes, interfaces, enums and type parameters;
5. tuples;
6. unions;
7. intersections.

## Main definitions

* `TypeShape`: the readings of a type.
* `TypeNode.shape`: the choice.
-/

namespace ApiDocs

/-- The readings of a type. -/
inductive TypeShape where
  /-- The union of the members of an enum. -/
  | enumUnion (symbol : SymbolId)
  /-- One member of an enum. -/
  | enumLiteral (primitive : String) (value : Literal)
  /-- A type that its display says all about. -/
  | simple
  | array (element : TypeId)
  | reference (symbol : SymbolId) (arguments : List TypeId)
  | tuple
  | union (members : List TypeId)
  | intersection (members : List TypeId)
  | unsupported
  deriving DecidableEq, Repr

namespace TypeNode

/-- The name of the library interface whose instantiations are arrays. -/
def arrayTarget : String := "Array"

/-- Is the type an object type of one of the kinds? -/
def isObject (t : TypeNode) (kinds : ObjectFlags) : Bool :=
  t.flags.has TypeFlags.objectBit && t.objectFlags.meets kinds

/-- Does the display of the type say all about it? -/
def isSimple (t : TypeNode) : Bool :=
  t.flags.meets (TypeFlags.intrinsic ∪ TypeFlags.stringLiteralBit ∪ TypeFlags.numberLiteralBit) ||
    t.isThisType || t.isObject ObjectFlags.anonymousBit

/-- The shape of an enum or enum member type. -/
def enumShape (t : TypeNode) : TypeShape :=
  if t.flags.has TypeFlags.unionBit then
    match t.symbol with
    | some symbol => .enumUnion symbol
    | none => .unsupported
  else
    match t.literal with
    | some value =>
      .enumLiteral (if t.flags.has TypeFlags.numberLiteralBit then "number" else "string") value
    | none => .unsupported

/-- The reading as a reference to the declaring symbol. -/
def referenceShape (t : TypeNode) (arguments : List TypeId) : TypeShape :=
  match t.symbol with
  | some symbol => .reference symbol arguments
  | none => .unsupported

/-- The shape of an instantiation. -/
def instantiationShape (t : TypeNode) : TypeShape :=
  match t.typeArguments with
  | element :: _ =>
    if t.targetName == some arrayTarget then .array element else t.referenceShape t.typeArguments
  | [] => t.referenceShape []

/-- The shape of a type: the first rule that applies. -/
def shape (t : TypeNode) : TypeShape :=
  if t.flags.has TypeFlags.enumLiteralBit then t.enumShape
  else if t.isSimple then .simple
  else if t.isObject ObjectFlags.referenceBit && !t.isObject ObjectFlags.tupleBit then
    t.instantiationShape
  else if t.flags.meets (TypeFlags.enumBit ∪ TypeFlags.typeParameterBit) ||
      t.isObject ObjectFlags.classOrInterface then
    t.referenceShape []
  else if t.isObject ObjectFlags.tupleBit then .tuple
  else if t.flags.has TypeFlags.unionBit then .union t.constituents
  else if t.flags.has TypeFlags.intersectionBit then .intersection t.constituents
  else .unsupported

end TypeNode

end ApiDocs
