import ApiDocs.Text.Blank
import ApiDocs.Text.Quoted
import ApiDocs.Json.Reader

/-!
# Flag sets

A flag set is a 32-bit word whose bits have names. Four vocabularies name the bits of symbols,
types, object types and modifiers; the vocabulary is a parameter of the type, so that flags of one
kind are never taken for flags of another.

The text of a flag set joins the names of its bits by a bar, in the order of the vocabulary, and
ends in one hexadecimal number for the bits without a name. Reading takes names, also of groups of
bits, and hexadecimal numbers, with blanks around them.

## Main definitions

* `FlagSet`: a word with named bits.
* `FlagSet.has`, `FlagSet.meets`, `FlagSet.union`: containment, overlap and union.
* `FlagSet.text`, `FlagSet.ofText?`: writing and reading.
-/

namespace ApiDocs

open Number (twoTo)

/-- The names of bits and groups of bits, single bits first. -/
abbrev FlagNames := List (String × UInt32)

/-- A word whose bits are named by `names`. -/
structure FlagSet (names : FlagNames) where
  bits : UInt32
  deriving DecidableEq, Repr

namespace FlagSet

variable {names : FlagNames}

/-- No flags. -/
def none : FlagSet names := ⟨0⟩

instance : Inhabited (FlagSet names) := ⟨none⟩

/-- The flag with the bit `n`. -/
def bit (n : Nat) : FlagSet names := ⟨(twoTo n).toUInt32⟩

/-- All flags of both sets. -/
def union (a b : FlagSet names) : FlagSet names := ⟨a.bits ||| b.bits⟩

instance : Union (FlagSet names) := ⟨union⟩

/-- Does the set hold every flag of `b`? -/
def has (a b : FlagSet names) : Bool := a.bits &&& b.bits == b.bits

/-- Does the set hold some flag of `b`? -/
def meets (a b : FlagSet names) : Bool := a.bits &&& b.bits != 0

/-! ## Text -/

/-- The names that cover the bits of a word, and the bits left over. A name is taken when all its
bits are set and one of them is not covered yet. -/
def cover (word : UInt32) : FlagNames → UInt32 → List String × UInt32
  | [], left => ([], left)
  | (name, mask) :: rest, left =>
    if word &&& mask == mask && left &&& mask != 0 then
      let (covered, left) := cover word rest (left &&& ~~~mask)
      (name :: covered, left)
    else cover word rest left

/-- The text of a flag set. -/
def text (a : FlagSet names) : String :=
  let (covered, left) := cover a.bits names a.bits
  let parts :=
    if left == 0 then covered
    else covered ++ [String.ofList ('0' :: 'x' :: Text.hex left.toNat)]
  " | ".intercalate parts

/-- A hexadecimal number of at most 32 bits; a plus sign may stand before it. -/
def hexWord? (cs : List Char) : Option UInt32 :=
  let digits :=
    match cs with
    | '+' :: rest => rest
    | _ => cs
  if digits.isEmpty then .none
  else
    match Json.hexNumber? digits with
    | some n => if n < twoTo 32 then some n.toUInt32 else .none
    | .none => .none

/-- One part of a flag text: a name or a hexadecimal number. -/
def part? (names : FlagNames) (cs : List Char) : Option UInt32 :=
  match Text.trim cs with
  | [] => .none
  | '0' :: 'x' :: rest => hexWord? rest
  | name => (names.find? (·.1 == String.ofList name)).map Prod.snd

/-- Read a flag text. A blank text has no flags; else every part must be a name or a number. -/
def ofText? (s : String) : Option (FlagSet names) :=
  if (Text.trim s.toList).isEmpty then some none
  else
    (Text.splitOn '|' s.toList).foldlM (fun a cs => (part? names cs).map fun b => ⟨a.bits ||| b⟩)
      none

end FlagSet

/-! ## The vocabularies -/

/-- Names of the bits that classify a symbol. -/
def symbolFlagNames : FlagNames :=
  [("VARIABLE", 1), ("PROPERTY", 2), ("ENUM_MEMBER", 4), ("FUNCTION", 8), ("CLASS", 16),
    ("INTERFACE", 32), ("ENUM", 64), ("MODULE", 128), ("METHOD", 256), ("CONSTRUCTOR", 512),
    ("ACCESSOR", 1024), ("TYPE_PARAMETER", 2048), ("TYPE_ALIAS", 4096), ("ALIAS", 8192),
    ("OPTIONAL", 16384), ("INDEX_SIGNATURE", 32768),
    ("CLASS_MEMBER", 0x702), ("HAS_EXPORTS", 0xD1)]

/-- What a symbol is declared as. -/
abbrev SymbolFlags := FlagSet symbolFlagNames

namespace SymbolFlags

def variableBit : SymbolFlags := .bit 0
def propertyBit : SymbolFlags := .bit 1
def enumMemberBit : SymbolFlags := .bit 2
def functionBit : SymbolFlags := .bit 3
def classBit : SymbolFlags := .bit 4
def interfaceBit : SymbolFlags := .bit 5
def enumBit : SymbolFlags := .bit 6
def moduleBit : SymbolFlags := .bit 7
def methodBit : SymbolFlags := .bit 8
def constructorBit : SymbolFlags := .bit 9
def accessorBit : SymbolFlags := .bit 10
def typeParameterBit : SymbolFlags := .bit 11
def typeAliasBit : SymbolFlags := .bit 12
def aliasBit : SymbolFlags := .bit 13
def optionalBit : SymbolFlags := .bit 14
def indexSignatureBit : SymbolFlags := .bit 15

/-- The members of a class, in either of its tables. -/
def classMember : SymbolFlags := methodBit ∪ accessorBit ∪ propertyBit ∪ constructorBit

/-- The symbols whose table of exports is looked into. -/
def hasExports : SymbolFlags := classBit ∪ enumBit ∪ moduleBit ∪ variableBit

end SymbolFlags

/-- Names of the bits that tell the shape of a type. -/
def typeFlagNames : FlagNames :=
  [("ANY", 1), ("UNKNOWN", 2), ("STRING", 4), ("NUMBER", 8), ("BOOLEAN", 16), ("BIG_INT", 32),
    ("ES_SYMBOL", 64), ("VOID", 128), ("UNDEFINED", 256), ("NULL", 512), ("NEVER", 1024),
    ("NON_PRIMITIVE", 2048), ("STRING_LITERAL", 4096), ("NUMBER_LITERAL", 8192),
    ("BOOLEAN_LITERAL", 16384), ("ENUM_LITERAL", 32768), ("ENUM", 65536),
    ("TYPE_PARAMETER", 131072), ("OBJECT", 262144), ("UNION", 524288),
    ("INTERSECTION", 1048576), ("INTRINSIC", 0x4FFF)]

/-- The shape bits of a type. -/
abbrev TypeFlags := FlagSet typeFlagNames

namespace TypeFlags

def anyBit : TypeFlags := .bit 0
def unknownBit : TypeFlags := .bit 1
def stringBit : TypeFlags := .bit 2
def numberBit : TypeFlags := .bit 3
def booleanBit : TypeFlags := .bit 4
def bigIntBit : TypeFlags := .bit 5
def symbolBit : TypeFlags := .bit 6
def voidBit : TypeFlags := .bit 7
def undefinedBit : TypeFlags := .bit 8
def nullBit : TypeFlags := .bit 9
def neverBit : TypeFlags := .bit 10
def nonPrimitiveBit : TypeFlags := .bit 11
def stringLiteralBit : TypeFlags := .bit 12
def numberLiteralBit : TypeFlags := .bit 13
def booleanLiteralBit : TypeFlags := .bit 14
def enumLiteralBit : TypeFlags := .bit 15
def enumBit : TypeFlags := .bit 16
def typeParameterBit : TypeFlags := .bit 17
def objectBit : TypeFlags := .bit 18
def unionBit : TypeFlags := .bit 19
def intersectionBit : TypeFlags := .bit 20

/-- The keyword types and the two boolean literals. -/
def intrinsic : TypeFlags :=
  anyBit ∪ unknownBit ∪ stringBit ∪ numberBit ∪ booleanBit ∪ bigIntBit ∪ symbolBit ∪ voidBit ∪
    undefinedBit ∪ nullBit ∪ neverBit ∪ nonPrimitiveBit ∪ booleanLiteralBit

end TypeFlags

/-- Names of the further bits of object types. -/
def objectFlagNames : FlagNames :=
  [("CLASS", 1), ("INTERFACE", 2), ("REFERENCE", 4), ("TUPLE", 8), ("ANONYMOUS", 16),
    ("CLASS_OR_INTERFACE", 3)]

/-- The kind of an object type. -/
abbrev ObjectFlags := FlagSet objectFlagNames

namespace ObjectFlags

def classBit : ObjectFlags := .bit 0
def interfaceBit : ObjectFlags := .bit 1
def referenceBit : ObjectFlags := .bit 2
def tupleBit : ObjectFlags := .bit 3
def anonymousBit : ObjectFlags := .bit 4

/-- Declared object types. -/
def classOrInterface : ObjectFlags := classBit ∪ interfaceBit

end ObjectFlags

/-- Names of the bits of modifiers. -/
def modifierFlagNames : FlagNames :=
  [("EXPORT", 1), ("DEFAULT", 2), ("DECLARE", 4), ("PUBLIC", 8), ("PRIVATE", 16),
    ("PROTECTED", 32), ("STATIC", 64), ("READONLY", 128), ("ABSTRACT", 256), ("ASYNC", 512)]

/-- The modifiers written on a declaration. -/
abbrev ModifierFlags := FlagSet modifierFlagNames

namespace ModifierFlags

def exportBit : ModifierFlags := .bit 0
def defaultBit : ModifierFlags := .bit 1
def declareBit : ModifierFlags := .bit 2
def publicBit : ModifierFlags := .bit 3
def privateBit : ModifierFlags := .bit 4
def protectedBit : ModifierFlags := .bit 5
def staticBit : ModifierFlags := .bit 6
def readonlyBit : ModifierFlags := .bit 7
def abstractBit : ModifierFlags := .bit 8
def asyncBit : ModifierFlags := .bit 9

end ModifierFlags

end ApiDocs
