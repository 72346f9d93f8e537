/-
# Classing calls

`Classifier` is a sink table made ready for use: the globs are lower-cased and read once.  A call's
receiver and method are lower-cased in the same way, so spelling does not matter, and the answer
depends on nothing but the table and the call.  So answers can be kept, which `CallMemo` does.
-/
import EmbeddedSql.Glob.Pattern
import EmbeddedSql.Rules.Basic
import EmbeddedSql.Text.LetterCase

namespace EmbeddedSql

/-- A row of the sink table with its globs read. -/
structure ClassifierRow where
  receiver : Pattern
  method : Pattern
  disposition : CallClass

/-- A sink table ready for use. -/
abbrev Classifier := List ClassifierRow

/-- The globs of a row are matched against lower-cased names, so they are lower-cased too. -/
def ClassifierRow.ofRule (rule : SinkRule) : ClassifierRow :=
  ⟨.parse rule.receiver.lower, .parse rule.method.lower, rule.disposition⟩

def RuleSet.classifier (rules : RuleSet) : Classifier := rules.sinkRules.map .ofRule

namespace Classifier

/-- The class of a call: that of the first row whose two globs match. -/
def classify (rows : Classifier) (receiver method : Text) : CallClass :=
  let receiver := receiver.lower
  let method := method.lower
  match rows.find? fun row => row.method.fits method && row.receiver.fits receiver with
  | some row => row.disposition
  | none => .unclassified

end Classifier

/-- A sink table that remembers the classes of the calls it has been asked for, under the spelling they had. -/
structure CallMemo where
  rows : Classifier
  known : List ((Text × Text) × CallClass)

namespace CallMemo

/-- A table that has not been asked for anything yet. -/
def ofRules (rules : RuleSet) : CallMemo := ⟨rules.classifier, []⟩

/-- The class of a call is remembered from the first time on. -/
def classify (memo : CallMemo) (call : Text × Text) : CallClass × CallMemo :=
  match memo.known.lookup call with
  | some c => (c, memo)
  | none =>
    let c := memo.rows.classify call.1 call.2
    (c, { memo with known := (call, c) :: memo.known })

/-- The classes of calls that are asked for one after the other. -/
def classifyAll (memo : CallMemo) : List (Text × Text) → List CallClass
  | [] => []
  | call :: calls => (memo.classify call).1 :: (memo.classify call).2.classifyAll calls

end CallMemo

end EmbeddedSql
