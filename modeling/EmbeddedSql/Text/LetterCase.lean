/-
# Letter case

Lower and upper case of a text by the full Unicode mappings: a character may become several, and a
capital sigma at the end of a word becomes the final form of the small letter.  Lone surrogates have
no case.
-/
import EmbeddedSql.Text.CodePoint
import EmbeddedSql.Text.Ranges
import EmbeddedSql.Text.LetterCase.Tables

namespace EmbeddedSql

/-- Does the run move the character numbered `n`? -/
def CaseRun.covers (r : CaseRun) (n : Nat) : Bool :=
  r.first ≤ n && n ≤ r.last && (n - r.first) % r.step == 0

/-- The image of one character under a table of runs and expansions; a character of neither stays. -/
def caseImage (runs : List CaseRun) (expansions : List (Nat × List Nat)) (c : Char) : List Char :=
  match runs.find? (·.covers c.toNat) with
  | some r => [Char.ofNat ((c.toNat : Int) + r.shift).toNat]
  | none =>
    match expansions.find? (·.1 == c.toNat) with
    | some (_, image) => image.map Char.ofNat
    | none => [c]

def lowerImage (c : Char) : List Char :=
  if c.toNat < 0x80 then [c.toLower] else caseImage lowerRuns lowerExpansions c

def upperImage (c : Char) : List Char :=
  if c.toNat < 0x80 then [c.toUpper] else caseImage upperRuns upperExpansions c

def isCased (c : Char) : Bool := inRanges casedRanges c.toNat

def isCaseIgnorable (c : Char) : Bool := inRanges caseIgnorableRanges c.toNat

namespace Text

/-- Is the next code point that case detection does not skip a cased letter? -/
def meetsCased (t : Text) : Bool :=
  match t.dropWhile (·.satisfies isCaseIgnorable) with
  | [] => false
  | p :: _ => p.satisfies isCased

/-- The lower case of `t`, where `before` is what stands before it, nearest first.  A capital sigma
is final when a cased letter stands before it and none after it. -/
def lowerAfter (before : Text) : Text → Text
  | [] => []
  | p :: rest =>
    let image := match p with
      | .surrogate _ => [p]
      | .char c =>
        if c == 'Σ' then [.char (if meetsCased before && !meetsCased rest then 'ς' else 'σ')]
        else (lowerImage c).map .char
    image ++ lowerAfter (p :: before) rest

def lower (t : Text) : Text := lowerAfter [] t

def upper (t : Text) : Text :=
  t.flatMap fun p => match p with
    | .surrogate _ => [p]
    | .char c => (upperImage c).map .char

end Text

end EmbeddedSql
