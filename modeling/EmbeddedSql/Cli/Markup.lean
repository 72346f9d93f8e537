/-
# Console markup

The console reads words in square brackets as markup.  `escapeMarkup` makes a text safe: wherever a
bracket would begin markup, a backslash is put before it and the backslashes already there are
doubled, and a text does not end in a single backslash.  `plainMarkup` shows a text with markup
without it: of the backslashes before markup every second one is left, and an odd one makes it text.
-/
import EmbeddedSql.Text.CodePoint

namespace EmbeddedSql

namespace Markup

/-- Markup begins with a small letter, or with a sign that closes, colors or acts. -/
def beginsMarkup (c : Char) : Bool :=
  c.isLower || c == '#' || c == '/' || c == '@'

def isBracket (p : CodePoint) : Bool := p == .char '[' || p == .char ']'

/-- How long the markup is that a text begins with, brackets included. -/
def markupLength? : Text → Option Nat
  | .char '[' :: .char c :: rest =>
    if beginsMarkup c then
      let inside := rest.takeWhile fun p => !isBracket p
      if (rest.drop inside.length).head? = some (.char ']') then some (inside.length + 3) else none
    else none
  | _ => none

/-- Put backslashes before all markup; `slashes` counts those read last and not written yet. -/
def escapeFrom (slashes : Nat) (t : Text) : Text :=
  match t with
  | [] => List.replicate slashes (.char '\\')
  | p :: rest =>
    if p = .char '\\' then escapeFrom (slashes + 1) rest
    else
      match markupLength? (p :: rest) with
      | some n =>
        List.replicate (2 * slashes + 1) (.char '\\') ++ p :: rest.take (n - 1)
          ++ escapeFrom 0 (rest.drop (n - 1))
      | none => List.replicate slashes (.char '\\') ++ p :: escapeFrom 0 rest
termination_by t.length
decreasing_by all_goals simp only [List.length_drop, List.length_cons]; omega

/-- Leave out markup; `slashes` counts the backslashes read last and not written yet. -/
def plainFrom (slashes : Nat) (t : Text) : Text :=
  match t with
  | [] => List.replicate slashes (.char '\\')
  | p :: rest =>
    if p = .char '\\' then plainFrom (slashes + 1) rest
    else
      match markupLength? (p :: rest) with
      | some n =>
        let kept := if slashes % 2 = 1 then p :: rest.take (n - 1) else []
        List.replicate (slashes / 2) (.char '\\') ++ kept ++ plainFrom 0 (rest.drop (n - 1))
      | none => List.replicate slashes (.char '\\') ++ p :: plainFrom 0 rest
termination_by t.length
decreasing_by all_goals simp only [List.length_drop, List.length_cons]; omega

/-- Does a text end in exactly one backslash? -/
def endsInBackslash (t : Text) : Bool :=
  (t.reverse.takeWhile (· == .char '\\')).length == 1

end Markup

/-- A text that the console shows as it is. -/
def escapeMarkup (t : Text) : Text :=
  let t := Markup.escapeFrom 0 t
  if Markup.endsInBackslash t then t ++ [.char '\\'] else t

/-- A text with markup as it reads without it. -/
def plainMarkup (t : Text) : Text := Markup.plainFrom 0 t

end EmbeddedSql
