/-
# Rule files

`loadRules` reads a rule set from a JSON file.  Without a file the standard rules apply.  A file is
refused with a reason if it cannot be read, holds no JSON, holds JSON that is no object, or an object
with flaws.  Bytes that are no text and numbers beyond all measure are not looked into at all, and a
path that is too long is not looked up.
-/
import EmbeddedSql.Files.Source
import EmbeddedSql.Json.Parser
import EmbeddedSql.Json.Printer
import EmbeddedSql.Rules.Validation

namespace EmbeddedSql

/-- Why a file is refused. -/
inductive RefusedRules where
  | unreadable (reason : ReadError)
  | notJson (text : List Char) (failure : Json.Failure)
  | notAnObject
  | flawed (flaws : List Flaw)

/-- Why a file gives no rules. -/
inductive RuleFileError where
  | refused (reason : RefusedRules)
  | notText (failure : Utf8.Failure)
  | hugeNumber (failure : Json.Failure)
  | tooLong (e : PathTooLong)

/-- A place in a JSON value, its steps joined by dots. -/
def placeText (place : List PlaceStep) : String :=
  ".".intercalate (place.map fun step => match step with
    | .field name => name
    | .item i => toString i)

/-- A flaw in a few words. -/
def Flaw.text (flaw : Flaw) : String := placeText flaw.place ++ " (" ++ flaw.kind.name ++ ")"

/-- The message of a refusal. -/
def RefusedRules.message (path : Path) : RefusedRules → String
  | unreadable reason => "Cannot read rules file " ++ path.toText ++ ": " ++ reason.message path
  | notJson text failure =>
    "Cannot read rules file " ++ path.toText ++ ": " ++ failure.message text
  | notAnObject => "Rules file " ++ path.toText ++ " must contain a JSON object"
  | flawed flaws =>
    "Invalid rules file " ++ path.toText ++ ": " ++ ", ".intercalate (flaws.map Flaw.text)

namespace Utf8

/-- The message of a failure to decode: the bytes, or the first and last place, and the fault. -/
def Failure.message (f : Failure) : String :=
  let place :=
    match f.bytes with
    | [b] => "byte 0x" ++ String.ofList (Quoted.hex 2 b.toNat) ++ " in position " ++
      toString f.position
    | _ => "bytes in position " ++ toString f.position ++ "-" ++
      toString (f.position + f.bytes.length - 1)
  "'utf-8' codec can't decode " ++ place ++ ": " ++ f.fault.reason

end Utf8

def RuleFileError.message (path : Path) : RuleFileError → String
  | refused reason => reason.message path
  | notText failure => failure.message
  | hugeNumber failure => failure.message []
  | tooLong e => e.message

/-- The rule set that the text of a file describes. -/
def readRules (text : List Char) : Except RuleFileError RuleSet :=
  match Json.read text with
  | .error (.tooManyDigits n) => .error (.hugeNumber (.tooManyDigits n))
  | .error failure => .error (.refused (.notJson text failure))
  | .ok (.obj members) =>
    match RuleSet.ofMembers members with
    | .ok rules => .ok rules
    | .error flaws => .error (.refused (.flawed flaws))
  | .ok _ => .error (.refused .notAnObject)

variable {σ : Type}

/-- The rule set of the file at a path. -/
def loadRules (tree : Node σ) (path : Path) : Except RuleFileError RuleSet :=
  match tree.holds path with
  | .error e => .error (.tooLong e)
  | .ok false => .ok .standard
  | .ok true =>
    match tree.readBytes path with
    | .error reason => .error (.refused (.unreadable reason))
    | .ok bytes =>
      match Utf8.decode bytes with
      | .error failure => .error (.notText failure)
      | .ok text => readRules (unifyLineEnds text)

/-- A rule set as the text of a rule file. -/
def RuleSet.dump (rules : RuleSet) : String := rules.toJson.toPage

end EmbeddedSql
