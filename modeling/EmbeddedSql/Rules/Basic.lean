/-
# Rule sets

What counts as SQL, which types hold strings and which build them, and how calls are classed is data:
a `RuleSet`.  A call is classed by the first row of the sink table whose receiver and method globs
both match; calls that no row matches are unclassified.
-/
import EmbeddedSql.Text.CodePoint

namespace EmbeddedSql

/-- What a call does with the text it is given. -/
inductive CallClass where
  | ignoredOutput
  | ignoredInput
  | executionSink
  | unclassified
deriving DecidableEq, Repr

namespace CallClass

/-- The name of a class in rule files. -/
def name : CallClass → String
  | ignoredOutput => "ignored_output"
  | ignoredInput => "ignored_input"
  | executionSink => "execution_sink"
  | unclassified => "unclassified"

def all : List CallClass := [ignoredOutput, ignoredInput, executionSink, unclassified]

def ofName? (t : Text) : Option CallClass := all.find? fun c => Text.ofString c.name = t

theorem ofName?_name (c : CallClass) : ofName? (Text.ofString c.name) = some c := by
  cases c <;> decide

/-- Console output, logging and interactive input: their literals are no statements. -/
def isIgnored : CallClass → Bool
  | ignoredOutput | ignoredInput => true
  | executionSink | unclassified => false

end CallClass

/-- A row of the sink table: globs for the receiver path and the method name, and the class of the
calls they match. -/
structure SinkRule where
  receiver : Text
  method : Text
  disposition : CallClass
deriving DecidableEq, Repr

/-- The configuration that all analyses share. -/
structure RuleSet where
  sqlKeywords : List Text
  plainTypes : List Text
  builderTypes : List Text
  sinkRules : List SinkRule
deriving DecidableEq, Repr

namespace RuleSet

def defaultKeywords : List Text :=
  ["SELECT", "INSERT", "UPDATE", "DELETE", "CREATE", "ALTER", "DROP", "TRUNCATE", "MERGE", "WITH",
    "CALL", "EXEC"].map Text.ofString

def defaultPlainTypes : List Text := ["String", "CharSequence"].map Text.ofString

def defaultBuilderTypes : List Text := ["StringBuilder", "StringBuffer"].map Text.ofString

/-- One receiver with several methods of one class. -/
def sinkRows (disposition : CallClass) (receiver : String) (methods : List String) : List SinkRule :=
  methods.map fun (method : String) => ⟨receiver, method, disposition⟩

/-- The standard sink table.  The first row that matches counts, so console output, logging and
interactive input come before the rows for execution. -/
def defaultSinkRules : List SinkRule :=
  sinkRows .ignoredOutput "System.out" ["print*", "format", "write", "append"]
    ++ sinkRows .ignoredOutput "System.err" ["print*", "format", "write", "append"]
    ++ sinkRows .ignoredOutput "*" ["printStackTrace"]
    ++ sinkRows .ignoredOutput "log" ["trace", "debug", "info", "warn*", "error", "fatal"]
    ++ sinkRows .ignoredOutput "*logger"
      ["trace", "debug", "info", "warn*", "error", "fatal", "log"]
    ++ sinkRows .ignoredInput "System.in" ["*"]
    ++ sinkRows .ignoredInput "System.console()" ["*"]
    ++ sinkRows .ignoredInput "*" ["readLine", "readPassword"]
    ++ sinkRows .ignoredInput "*scanner" ["next*"]
    ++ sinkRows .ignoredInput "*" ["showInputDialog"]
    ++ sinkRows .executionSink "*"
      ["execute*", "*query*", "*update*", "prepare*", "addBatch", "nativeSql", "sql"]

/-- The standard rule set. -/
def standard : RuleSet := ⟨defaultKeywords, defaultPlainTypes, defaultBuilderTypes, defaultSinkRules⟩

/-- Is the name one of a plain string type? -/
def isPlainType (rules : RuleSet) (name : String) : Bool :=
  rules.plainTypes.contains (Text.ofString name)

/-- Is the name one of a builder type? -/
def isBuilderType (rules : RuleSet) (name : String) : Bool :=
  rules.builderTypes.contains (Text.ofString name)

end RuleSet

instance : Inhabited RuleSet := ⟨.standard⟩

end EmbeddedSql
