/-
# Rule sets as JSON

`RuleSet.toJson` writes a rule set as a JSON object and `RuleSet.ofJson` reads one.  Reading collects
everything that is wrong, field by field, each entry with its place.  A field that is missing keeps
its standard value; fields of other names are passed over; nothing is coerced.  Keywords are trimmed
and upper-cased, type names trimmed and dropped when blank.
-/
import EmbeddedSql.Json.Basic
import EmbeddedSql.Rules.Basic
import EmbeddedSql.Text.Blank
import EmbeddedSql.Text.LetterCase

namespace EmbeddedSql

/-- A step from a JSON value to a part of it. -/
inductive PlaceStep where
  | field (name : String)
  | item (index : Nat)
deriving DecidableEq, Repr

/-- What is wrong at a place. -/
inductive FlawKind where
  | notAnArray
  | notAString
  | notAnObject
  | missing
  | unknownClass
  | loneSurrogate
  | noKeywords
deriving DecidableEq, Repr

/-- The short name of a kind of flaw. -/
def FlawKind.name : FlawKind → String
  | notAnArray => "tuple_type"
  | notAString => "string_type"
  | notAnObject => "model_type"
  | missing => "missing"
  | unknownClass => "enum"
  | loneSurrogate => "string_unicode"
  | noKeywords => "value_error"

structure Flaw where
  place : List PlaceStep
  kind : FlawKind
deriving DecidableEq, Repr

/-- A value, or all flaws that were found. -/
abbrev Validated (α : Type) := Except (List Flaw) α

namespace Validated

/-- Both values, or the flaws of both, the first one's first. -/
def both {α β : Type} : Validated α → Validated β → Validated (α × β)
  | .ok a, .ok b => .ok (a, b)
  | .ok _, .error fs => .error fs
  | .error fs, .ok _ => .error fs
  | .error fs, .error gs => .error (fs ++ gs)

/-- All values, or the flaws of all. -/
def all {α : Type} : List (Validated α) → Validated (List α)
  | [] => .ok []
  | v :: vs => (both v (all vs)).map fun (a, as) => a :: as

end Validated

namespace RuleSet

def flaw {α : Type} (place : List PlaceStep) (kind : FlawKind) : Validated α :=
  .error [⟨place, kind⟩]

def readText (place : List PlaceStep) : Json → Validated Text
  | .str t => .ok t
  | _ => flaw place .notAString

/-- The items of an array, each read at its own place. -/
def readArray {α : Type} (readItem : List PlaceStep → Json → Validated α) (place : List PlaceStep) :
    Json → Validated (List α)
  | .arr items =>
    Validated.all (items.mapIdx fun i item => readItem (place ++ [.item i]) item)
  | _ => flaw place .notAnArray

/-- Keywords: at least one, trimmed and upper-cased. -/
def readKeywords (place : List PlaceStep) (v : Json) : Validated (List Text) :=
  match readArray readText place v with
  | .ok [] => flaw place .noKeywords
  | .ok keywords => .ok (keywords.map fun k => Text.upper (trim CodePoint.isBlank k))
  | .error flaws => .error flaws

/-- Type names: trimmed, the blank ones dropped. -/
def readTypes (place : List PlaceStep) (v : Json) : Validated (List Text) :=
  (readArray readText place v).map fun names =>
    (names.map (trim CodePoint.isBlank)).filter (· ≠ [])

/-- The class that a name stands for.  A name has to be a text that can be encoded. -/
def readClass (place : List PlaceStep) : Json → Validated CallClass
  | .str t =>
    match CallClass.ofName? t with
    | some c => .ok c
    | none => flaw place (if t.toString?.isSome then .unknownClass else .loneSurrogate)
  | _ => flaw place .unknownClass

/-- A field of an object, with the value it has when it is missing. -/
def readField {α : Type} (place : List PlaceStep) (members : List (Text × Json)) (name : String)
    (read : List PlaceStep → Json → Validated α) (missing : Validated α) : Validated α :=
  match Json.member? (Text.ofString name) members with
  | some v => read (place ++ [.field name]) v
  | none => missing

def readSinkRule (place : List PlaceStep) : Json → Validated SinkRule
  | .obj members =>
    let required (name : String) {α : Type} : Validated α := flaw (place ++ [.field name]) .missing
    let receiver := readField place members "receiver" readText (.ok (Text.ofString "*"))
    let method := readField place members "method" readText (required "method")
    let disposition := readField place members "disposition" readClass (required "disposition")
    (Validated.both receiver (Validated.both method disposition)).map fun (r, m, d) => ⟨r, m, d⟩
  | _ => flaw place .notAnObject

/-- The rule set that an object's members describe. -/
def ofMembers (members : List (Text × Json)) : Validated RuleSet :=
  let keywords := readField [] members "sql_keywords" readKeywords (.ok defaultKeywords)
  let plain := readField [] members "plain_types" readTypes (.ok defaultPlainTypes)
  let builders := readField [] members "builder_types" readTypes (.ok defaultBuilderTypes)
  let sinks := readField [] members "sink_rules" (readArray readSinkRule) (.ok defaultSinkRules)
  (Validated.both keywords (Validated.both plain (Validated.both builders sinks))).map
    fun (k, p, b, s) => ⟨k, p, b, s⟩

/-- The rule set that a JSON value describes. -/
def ofJson : Json → Validated RuleSet
  | .obj members => ofMembers members
  | _ => flaw [] .notAnObject

def sinkRuleToJson (rule : SinkRule) : Json :=
  .obj [("receiver", .str rule.receiver), ("method", .str rule.method),
    ("disposition", .ofString rule.disposition.name)]

/-- A rule set as a JSON object that names every field. -/
def toJson (rules : RuleSet) : Json :=
  .obj [("sql_keywords", .arr (rules.sqlKeywords.map .str)),
    ("plain_types", .arr (rules.plainTypes.map .str)),
    ("builder_types", .arr (rules.builderTypes.map .str)),
    ("sink_rules", .arr (rules.sinkRules.map sinkRuleToJson))]

end RuleSet

end EmbeddedSql
