/-
# Statements of a script

A script is cut at those line ends where what came before, back to the last cut, is a complete
statement.  Whether it is one is decided by a small automaton over words: a statement ends with a
semicolon, and the definition of a trigger, which holds statements of its own, with a semicolon after
the word `end` that follows another semicolon.  Quoted text and comments count as wholes.
-/
import EmbeddedSql.Text.Blank

namespace EmbeddedSql

namespace Script

/-- How far a statement has come. -/
inductive Progress where
  | blank
  | complete
  | plain
  | explain
  | create
  | trigger
  | triggerStatement
  | triggerEnd
deriving DecidableEq, Repr

/-- The words that matter for the end of a statement. -/
inductive Word where
  | semicolon
  | space
  | other
  | explain
  | create
  | temporary
  | trigger
  | finish
deriving DecidableEq, Repr

/-- What a word does to the progress of a statement. -/
def Progress.after : Progress → Word → Progress
  | p, .space => p
  | .trigger, .semicolon | .triggerStatement, .semicolon => .triggerStatement
  | .triggerStatement, .finish => .triggerEnd
  | .triggerEnd, .semicolon => .complete
  | .trigger, _ | .triggerStatement, _ | .triggerEnd, _ => .trigger
  | _, .semicolon => .complete
  | .blank, .explain | .complete, .explain => .explain
  | .blank, .create | .complete, .create | .explain, .create => .create
  | .explain, .other => .explain
  | .create, .temporary => .create
  | .create, .trigger => .trigger
  | _, _ => .plain

/-- Characters of words: ASCII letters and digits, the underscore, the dollar sign, and everything
beyond ASCII. -/
def isScriptWordChar (c : Char) : Bool :=
  c.isAlphanum || c == '_' || c == '$' || 0x80 ≤ c.toNat

/-- The word that letters spell, in any case. -/
def wordOf (letters : List Char) : Word :=
  match String.ofList (letters.map Char.toLower) with
  | "explain" => .explain
  | "create" => .create
  | "temp" | "temporary" => .temporary
  | "trigger" => .trigger
  | "end" => .finish
  | _ => .other

/-- What remains after the end of a comment in slashes and stars. -/
def skipComment : List Char → Option (List Char)
  | [] => none
  | '*' :: '/' :: rest => some rest
  | _ :: rest => skipComment rest

/-- What remains after the next occurrence of a character. -/
def skipPast (c : Char) : List Char → Option (List Char)
  | [] => none
  | d :: rest => if d = c then some rest else skipPast c rest

theorem length_skipComment {cs rest : List Char} (h : skipComment cs = some rest) :
    rest.length ≤ cs.length := by
  fun_induction skipComment cs with
  | case1 => simp at h
  | case2 tail => simp at h; subst h; simp only [List.length_cons]; omega
  | case3 c tail _ ih => have := ih h; simp only [List.length_cons]; omega

theorem length_skipPast {c : Char} {cs rest : List Char} (h : skipPast c cs = some rest) :
    rest.length ≤ cs.length := by
  induction cs with
  | nil => simp [skipPast] at h
  | cons d tail ih =>
    unfold skipPast at h
    split at h
    · simp at h; subst h; simp
    · have := ih h; simp only [List.length_cons]; omega

/-- The character that ends a quotation. -/
def closing? (c : Char) : Option Char :=
  if c == '\'' || c == '"' || c == '\x60' then some c else if c == '[' then some ']' else none

/-- The first word of a text and what remains after it.  Nothing is given for a quotation or a
comment that is not closed. -/
def nextWord (c : Char) (rest : List Char) : Option (Word × List Char) :=
  match closing? c with
  | some close => (skipPast close rest).map (.other, ·)
  | none =>
    if c == ';' then some (.semicolon, rest)
    else if c == ' ' || c == '\r' || c == '\t' || c == '\n' || c == '\x0c' then some (.space, rest)
    else if c == '/' && rest.head? == some '*' then
      (skipComment rest.tail).map (.space, ·)
    else if isScriptWordChar c then
      some (wordOf (c :: rest.takeWhile isScriptWordChar), rest.dropWhile isScriptWordChar)
    else some (.other, rest)

theorem length_nextWord {c : Char} {rest : List Char} {w : Word} {more : List Char}
    (h : nextWord c rest = some (w, more)) : more.length ≤ rest.length := by
  unfold nextWord at h
  split at h
  · obtain ⟨t, ht, he⟩ := Option.map_eq_some_iff.1 h
    cases he
    exact length_skipPast ht
  · split at h
    · cases h; exact Nat.le_refl _
    · split at h
      · cases h; exact Nat.le_refl _
      · split at h
        · obtain ⟨t, ht, he⟩ := Option.map_eq_some_iff.1 h
          cases he
          have h₁ := length_skipComment ht
          have h₂ : rest.tail.length ≤ rest.length := by simp
          omega
        · split at h
          · cases h; exact (List.dropWhile_suffix _).length_le
          · cases h; exact Nat.le_refl _

/-- Does a text end with a complete statement?  A comment to the end of the line that is the last one
changes nothing. -/
def endsComplete (progress : Progress) : List Char → Bool
  | [] => progress == .complete
  | c :: rest =>
    if c == '-' && rest.head? == some '-' then
      match h : skipPast '\n' rest with
      | none => progress == .complete
      | some more =>
        have := length_skipPast h
        endsComplete (progress.after .space) more
    else
      match h : nextWord c rest with
      | none => false
      | some (word, more) =>
        have := length_nextWord h
        endsComplete (progress.after word) more
termination_by cs => cs.length
decreasing_by all_goals simp only [List.length_cons]; omega

/-- Is a text a complete statement? -/
def isComplete (cs : List Char) : Bool := endsComplete .blank cs

/-! ## Lines -/

/-- Characters that end a line; a carriage return with a newline ends it together. -/
def isLineEnd (c : Char) : Bool :=
  let n := c.toNat
  (0x0A ≤ n && n ≤ 0x0D) || (0x1C ≤ n && n ≤ 0x1E) || n == 0x85 || n == 0x2028 || n == 0x2029

/-- The lines of a script with their ends; `line` is what the current one holds so far. -/
def linesFrom (line : List Char) : List Char → List (List Char)
  | [] => if line.isEmpty then [] else [line]
  | '\r' :: '\n' :: rest => (line ++ ['\r', '\n']) :: linesFrom [] rest
  | c :: rest =>
    if isLineEnd c then (line ++ [c]) :: linesFrom [] rest else linesFrom (line ++ [c]) rest

/-! ## Statements -/

/-- The statements in lines, where `buffer` holds what came since the last cut.  What is left at the
end counts too, unless it is blank. -/
def cutLines (buffer : List Char) : List (List Char) → List (List Char)
  | [] => if (trim isBlank buffer).isEmpty then [] else [trim isBlank buffer]
  | line :: lines =>
    let buffer := buffer ++ line
    if isComplete buffer then trim isBlank buffer :: cutLines [] lines else cutLines buffer lines

end Script

/-- What keeps a script from being cut. -/
inductive ScriptError where
  | nullCharacter
deriving DecidableEq, Repr

def ScriptError.message : ScriptError → String
  | nullCharacter => "embedded null character"

/-- The statements of a script. -/
def statementsOf (script : String) : Except ScriptError (List String) :=
  let cs := script.toList
  if cs.contains '\x00' then .error .nullCharacter
  else .ok ((Script.cutLines [] (Script.linesFrom [] cs)).map String.ofList)

end EmbeddedSql
