import ApiDocs.Text.Blank

/-!
# Lines of a text

A line ends at a line feed, and a carriage return right before the line feed belongs to the
line end. The last line needs no line end, and a text that ends in one has no empty line after
it.

## Main definitions

* `Text.lines`: the lines of a text without their ends.
-/

namespace ApiDocs.Text

/-- Remove one carriage return at the back. -/
def dropReturn (line : List Char) : List Char :=
  match stripEnd? ['\x0d'] line with
  | some rest => rest
  | none => line

/-- The lines of a text, without their ends. Only the last piece has no line feed after it, so
it is the one that keeps a carriage return and that counts only when it is not empty. -/
def lines (cs : List Char) : List (List Char) :=
  let pieces := splitOn '\n' cs
  let last :=
    match pieces.getLast? with
    | some (c :: rest) => [c :: rest]
    | _ => []
  pieces.dropLast.map dropReturn ++ last

end ApiDocs.Text
