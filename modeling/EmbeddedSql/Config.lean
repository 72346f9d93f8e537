/-
# Configuration

Where a scan keeps what it writes and where it looks for rules: everything lies in one base
directory.  The rest says which files are looked for, whether stored results are used, and how
statements are shown.
-/
import EmbeddedSql.Files.Path
import EmbeddedSql.Scan.Result

namespace EmbeddedSql

structure Config where
  baseDir : Path
  fileGlob : String
  useCache : Bool
  workers : Int
  separator : Text
  placeholder : String

namespace Config

/-- The standard configuration with a base directory. -/
def ofBase (baseDir : Path) : Config where
  baseDir
  fileGlob := "**/*.java"
  useCache := true
  workers := 1
  separator := standardSeparator
  placeholder := standardPlaceholder

/-- The file of the store. -/
def storePath (c : Config) : Path := c.baseDir.child "sql-extract.db"

def rulesPath (c : Config) : Path := c.baseDir.child "rules.json"

/-- The directory of the journal. -/
def logDir (c : Config) : Path := c.baseDir.child "logs"

/-- The journal of a day. -/
def journalPath (c : Config) (day : String) : Path := c.logDir.child ("sql-extract-" ++ day ++ ".jsonl")

/-- The settings of a scan with these rules. -/
def settings (c : Config) (rules : RuleSet) : Settings where
  rules
  separator := c.separator
  placeholder := c.placeholder

end Config

end EmbeddedSql
