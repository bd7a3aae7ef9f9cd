import ApiDocs.Graph.Basic
import ApiDocs.TypeScript.Token

/-!
# Lines of sources

Offsets count bytes and lines count from one. A line starts at the start of the source and behind
every line feed. Offsets and lines are words, and the line of an offset is searched for among the
starts by halving.

## Main definitions

* `LineIndex.ofText`: where the lines of a source start.
* `LineIndex.search`: where an offset is among the starts, or would be.
* `LineIndex.line`: the line of an offset.
* `LineIndex.pos`: the lines of a stretch.
-/

namespace ApiDocs

/-- The offsets at which the lines of a source start, in order. -/
structure LineIndex where
  starts : Array UInt32
  deriving DecidableEq, Repr, Inhabited

namespace LineIndex

/-- The byte that ends a line. -/
def lineFeed : UInt8 := 10

/-- The starts with that of a further line, if the byte at an offset ends one. -/
def addByte (starts : Array UInt32) (byte : UInt8 × Nat) : Array UInt32 :=
  if byte.1 = lineFeed then starts.push (byte.2 + 1).toUInt32 else starts

/-- Where the lines of a source start. -/
def ofText (text : String) : LineIndex := ⟨text.toByteArray.data.toList.zipIdx.foldl addByte #[0]⟩

/-- Where something is in an array, or else where it would have to be put. -/
inductive Slot where
  | taken (index : Nat)
  | vacant (index : Nat)
  deriving DecidableEq, Repr

/-- The slot of an offset between two positions of an ordered array. -/
def searchBetween (starts : Array UInt32) (offset : UInt32) (low high : Nat) (h : high ≤ starts.size) : Slot :=
  if hlt : low < high then
    let middle := low + (high - low) / 2
    have hmiddle : middle < starts.size := by omega
    if starts[middle] = offset then .taken middle
    else if starts[middle] < offset then searchBetween starts offset (middle + 1) high h
    else searchBetween starts offset low middle (Nat.le_of_lt hmiddle)
  else .vacant low
termination_by high - low

/-- The slot of an offset among the starts of lines. -/
def search (index : LineIndex) (offset : UInt32) : Slot :=
  searchBetween index.starts offset 0 index.starts.size (Nat.le_refl _)

/-- The line of an offset: the one that starts there, or else the last one that starts before. -/
def line (index : LineIndex) (offset : UInt32) : UInt32 :=
  match index.search offset with
  | .taken i => i.toUInt32 + 1
  | .vacant i => (i - 1).toUInt32 + 1

/-- The lines of a stretch, from that of its first byte to that of its last. -/
def pos (index : LineIndex) (path : String) (span : TypeScript.Span) : SourcePos :=
  ⟨path, (index.line span.start.toUInt32).toNat,
    (index.line (max (span.stop - 1) span.start).toUInt32).toNat⟩

end LineIndex

end ApiDocs
