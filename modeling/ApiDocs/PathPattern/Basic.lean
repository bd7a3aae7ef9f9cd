import ApiDocs.PathPattern.CharSet

/-!
# Patterns of paths

A pattern is a regular expression. What it matches is said by the places where a match can end, for
given places where it may start; a pattern is found in a text if a match can start somewhere and end
somewhere. Since only whether there is a match is asked, no order among matches is kept.

## Main definitions

* `PathPattern`: a pattern.
* `PathPattern.Place`: a place in a text.
* `PathPattern.ends`: the places where a match can end.
* `PathPattern.isFound`: is there a match in the text?
-/

namespace ApiDocs

/-- A condition on a place in a text. -/
inductive PlaceTest where
  | textStart
  | textEnd
  | lineStart
  | lineEnd
  | wordEdge
  | noWordEdge
  | wordStart
  | wordEnd
  /-- No word character before. -/
  | wordStartHalf
  /-- No word character behind. -/
  | wordEndHalf
  deriving DecidableEq, Repr, Inhabited

/-- A pattern. -/
inductive PathPattern where
  | empty
  | char (set : CharSet)
  | place (test : PlaceTest)
  | seq (p q : PathPattern)
  | alt (p q : PathPattern)
  /-- At least `least` times, and at most `most` times if that is given. -/
  | repeated (p : PathPattern) (least : Nat) (most : Option Nat)
  deriving DecidableEq, Repr, Inhabited

namespace PathPattern

/-- A place in a text: the character before it and the text behind it. -/
structure Place where
  before : Option Char
  behind : List Char
  deriving DecidableEq, Repr, Inhabited

/-- All places from a place on. -/
def placesFrom (before : Option Char) : List Char → List Place
  | [] => [⟨before, []⟩]
  | c :: rest => ⟨before, c :: rest⟩ :: placesFrom (some c) rest

/-- All places of a text. -/
def placesOf (text : List Char) : List Place := placesFrom none text

/-- Is the character there, and one of a word? -/
def isWord (c : Option Char) : Bool := c.any CharSet.isWordChar

/-- Does the test hold at the place? -/
def holdsAt (p : Place) : PlaceTest → Bool
  | .textStart => p.before.isNone
  | .textEnd => p.behind.isEmpty
  | .lineStart => p.before.isNone || p.before == some '\n'
  | .lineEnd => p.behind.isEmpty || p.behind.head? == some '\n'
  | .wordEdge => isWord p.before != isWord p.behind.head?
  | .noWordEdge => isWord p.before == isWord p.behind.head?
  | .wordStart => !isWord p.before && isWord p.behind.head?
  | .wordEnd => isWord p.before && !isWord p.behind.head?
  | .wordStartHalf => !isWord p.before
  | .wordEndHalf => !isWord p.behind.head?

/-- The place behind the next character, if that is in the set. -/
def behindChar (set : CharSet) (p : Place) : Option Place :=
  match p.behind with
  | c :: rest => if set.has c then some ⟨some c, rest⟩ else none
  | [] => none

/-- Places in one list or the other, each once. -/
def merge (ps qs : List Place) : List Place :=
  ps ++ qs.filter fun q => !ps.any (·.behind.length == q.behind.length)

/-- Apply a function a number of times. -/
def times (f : α → α) : Nat → α → α
  | 0, a => a
  | n + 1, a => times f n (f a)

/-- How many further places there can be at most. -/
def reach (ps : List Place) : Nat := ps.foldl (fun n p => max n p.behind.length) 0

/-- **The places where a match can end**, for places where it may start. Repetitions without a bound
are repeated as long as new places can be found. -/
def ends : PathPattern → List Place → List Place
  | empty, ps => ps
  | char set, ps => ps.filterMap (behindChar set)
  | place test, ps => ps.filter (holdsAt · test)
  | seq p q, ps => q.ends (p.ends ps)
  | alt p q, ps => merge (p.ends ps) (q.ends ps)
  | repeated p least most, ps =>
    let start := times p.ends least ps
    let more := reach start + 1
    let rounds :=
      match most with
      | some n => min (n - least) more
      | none => more
    times (fun qs => merge qs (p.ends qs)) rounds start

/-- Is there a match in the text? -/
def isFound (p : PathPattern) (text : String) : Bool :=
  !(p.ends (placesOf text.toList)).isEmpty

/-- How large the pattern is with its repetitions written out. -/
def size : PathPattern → Nat
  | empty => 1
  | char _ => 1
  | place _ => 1
  | seq p q => p.size + q.size
  | alt p q => p.size + q.size + 1
  | repeated p least most => p.size * max 1 (max least (most.getD (least + 1)))

end PathPattern

end ApiDocs
