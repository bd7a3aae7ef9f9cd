import ApiDocs.Extract.Describe
import ApiDocs.Text.Blank

/-!
# The view of a symbol

A symbol may be declared several times. One declaration is taken as its own: the value declaration,
except that a symbol without one, or one whose value declaration is a namespace while its first is
an interface, is taken by its first declaration.

## Main definitions

* `Symbol.ownDeclaration`: the declaration that counts.
* `SymbolView`: a symbol with that declaration, its type, position and documentation.
* `Symbol.view`, `SymbolGraph.view`: the view of a symbol.
-/

namespace ApiDocs

namespace Symbol

/-- The declaration at the position of the value declaration. -/
def valueDeclaration? (s : Symbol) : Option Declaration :=
  s.valueDeclaration.bind fun i => s.declarations[i]?

/-- The declaration that counts. -/
def ownDeclaration (s : Symbol) : Option Declaration :=
  match s.valueDeclaration?, s.declarations.head? with
  | none, first => first
  | some value, some first =>
    if value.kind = .moduleDecl && first.kind = .interfaceDecl then some first else some value
  | some value, none => some value

end Symbol

/-- A symbol with the declaration that counts. -/
structure SymbolView where
  symbol : SymbolId
  name : String
  flags : SymbolFlags
  declaration : Option Declaration
  typeId : Option TypeId
  pos : Option SourcePos
  doc : Option String
  deriving DecidableEq, Repr

/-- The kind of the declaration that counts. -/
def SymbolView.kind (v : SymbolView) : Option DeclarationKind := v.declaration.map (·.kind)

/-- The view of a symbol at a position; its type counts only if it is declared. -/
def Symbol.view (s : Symbol) (id : SymbolId) : SymbolView where
  symbol := id
  name := s.name
  flags := s.flags
  declaration := s.ownDeclaration
  typeId := if s.ownDeclaration.isSome then s.typeId else none
  pos := s.ownDeclaration.map (·.pos)
  doc := Text.nonBlank? s.doc

/-- The view of the symbol at a position. -/
def SymbolGraph.view (g : SymbolGraph) (id : SymbolId) : Except ExtractError SymbolView :=
  return (← g.getSymbol id).view id

end ApiDocs
