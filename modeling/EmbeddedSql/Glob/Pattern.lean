/-
# Glob patterns

A pattern is a sequence of pieces: a star stands for any run of code points, a question mark for any
one, a bracket set for one of its members, and everything else for itself.  A pattern matches a
whole subject.

`Pattern.parse` reads a pattern.  The members of a set are written between brackets, ranges with a
hyphen; a leading exclamation mark turns the set into its complement, and a closing bracket right at
the start is a member.  A bracket that is never closed stands for itself.  A range whose ends are in
the wrong order is removed together with its ends, *before* the set is read, so what follows it may
come to stand first and be taken for the exclamation mark.

`Pattern.fits` is computed piece by piece from the end of the pattern: for each piece the list that
says which ends of the subject the pieces from there on match.
-/
import EmbeddedSql.Text.CodePoint

namespace EmbeddedSql

/-- A member of a bracket set. -/
inductive SetItem where
  | single (p : CodePoint)
  | range (first last : CodePoint)
deriving DecidableEq, Repr

def SetItem.holds (p : CodePoint) : SetItem → Bool
  | single q => p == q
  | range first last => first.val ≤ p.val && p.val ≤ last.val

/-- One piece of a pattern. -/
inductive Piece where
  | anyRun
  | anyOne
  | exactly (p : CodePoint)
  | oneOf (complement : Bool) (items : List SetItem)
deriving DecidableEq, Repr

/-- A piece other than a star accepts one code point or not. -/
def Piece.accepts (p : CodePoint) : Piece → Bool
  | anyRun => false
  | anyOne => true
  | exactly q => p == q
  | oneOf complement items => complement != items.any (SetItem.holds p)

abbrev Pattern := List Piece

namespace Pattern

/-! ## Matching -/

/-- For each place, whether it or some later one holds. -/
def orLater : List Bool → List Bool
  | [] => []
  | b :: bs =>
    let later := orLater bs
    (b || later.headD false) :: later

/-- For every end of the subject, longest first, whether the pattern matches it. -/
def endsMatched (subject : Text) : Pattern → List Bool
  | [] => subject.map (fun _ => false) ++ [true]
  | .anyRun :: rest => orLater (endsMatched subject rest)
  | piece :: rest =>
    List.zipWith (fun p later => piece.accepts p && later) subject (endsMatched subject rest).tail
      ++ [false]

/-- Does the pattern match the whole subject? -/
def fits (pattern : Pattern) (subject : Text) : Bool :=
  (endsMatched subject pattern).headD false

/-! ## Sets -/

/-- An element of a set's text once hyphens are told apart: those that join the ends of a range,
and everything else. -/
inductive SetMark where
  | plain (p : CodePoint)
  | joint
deriving DecidableEq, Repr

/-- Cut a set's text at the hyphens that join ranges.  `skip` code points are passed over before the
next hyphen is looked for, so that an end of a range is never itself taken for a joint. -/
def cutAtJoints (skip : Nat) (piece : Text) : Text → List Text
  | [] => [piece]
  | p :: rest =>
    if skip = 0 ∧ p = .char '-' then piece :: cutAtJoints 2 [] rest
    else cutAtJoints (skip - 1) (piece ++ [p]) rest

/-- A hyphen at the very end joins nothing and belongs to the piece before it. -/
def mendEnd : List Text → List Text
  | [] => []
  | [piece] => [piece]
  | [piece, []] => [piece ++ [.char '-']]
  | piece :: rest => piece :: mendEnd rest

/-- Remove ranges whose ends are in the wrong order, from the last one to the first: the ends go and
the pieces on both sides become one. -/
def dropEmptyRanges : List Text → List Text
  | [] => []
  | piece :: rest =>
    match dropEmptyRanges rest with
    | [] => [piece]
    | next :: more =>
      match piece.getLast?, next.head? with
      | some last, some first =>
        if first.val < last.val then (piece.dropLast ++ next.tail) :: more
        else piece :: next :: more
      | _, _ => piece :: next :: more

/-- The pieces of a set's text, marked and joined again. -/
def joinPieces : List Text → List SetMark
  | [] => []
  | [piece] => piece.map .plain
  | piece :: rest => piece.map .plain ++ .joint :: joinPieces rest

/-- The marked text of a set.  The first hyphen that may join stands after the first code point, an
exclamation mark not counted. -/
def markSet (body : Text) : List SetMark :=
  let lead := if body.head? = some (.char '!') then 2 else 1
  joinPieces (dropEmptyRanges (mendEnd (cutAtJoints lead [] body)))

/-- A mark by itself: a joint that joins nothing is a hyphen. -/
def SetMark.codePoint : SetMark → CodePoint
  | plain p => p
  | joint => .char '-'

/-- Members, ranges taken wherever a joint has something on both sides. -/
def setItems : List SetMark → List SetItem
  | first :: .joint :: last :: rest => .range first.codePoint last.codePoint :: setItems rest
  | mark :: rest => .single mark.codePoint :: setItems rest
  | [] => []

/-- The piece for the text between brackets. -/
def readSet (body : Text) : Piece :=
  match markSet body with
  | .plain (.char '!') :: marks => .oneOf true (setItems marks)
  | marks => .oneOf false (setItems marks)

/-! ## Reading a pattern -/

/-- How many code points of `cs` stand between an opening bracket and the one that closes it: the
first closing bracket, not counting one that is the first member. -/
def setLength? (cs : Text) : Option Nat :=
  let lead := if cs.head? = some (.char '!') then 1 else 0
  let lead := if (cs.drop lead).head? = some (.char ']') then lead + 1 else lead
  ((cs.drop lead).findIdx? (· = .char ']')).map (lead + ·)

/-- Read a pattern.  Stars in a row mean the same as one. -/
def parse : Text → Pattern
  | [] => []
  | .char '*' :: rest => .anyRun :: parse rest
  | .char '?' :: rest => .anyOne :: parse rest
  | .char '[' :: rest =>
    match setLength? rest with
    | none => .exactly (.char '[') :: parse rest
    | some n => readSet (rest.take n) :: parse (rest.drop (n + 1))
  | p :: rest => .exactly p :: parse rest
termination_by cs => cs.length
decreasing_by all_goals simp only [List.length_drop, List.length_cons]; omega

end Pattern

/-- Does a pattern, given as text, match the whole subject? -/
def globMatches (pattern subject : Text) : Bool := (Pattern.parse pattern).fits subject

end EmbeddedSql
