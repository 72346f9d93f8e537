/-
# Scanning a source

A source is cut into tokens and scopes, every scope is followed on its own, and the candidates of all
scopes are merged and get their source lines.  A source that cannot be cut into tokens has a result
that says so.
-/
import EmbeddedSql.Digest.Md5
import EmbeddedSql.Flow.Run
import EmbeddedSql.Scan.Result
import EmbeddedSql.Scope.Split
import EmbeddedSql.Text.Lines
import EmbeddedSql.Token.Lexer

namespace EmbeddedSql

/-- The candidates of scopes, in the order in which they are found. -/
def scopeCandidates (settings : Settings) (classifier : Classifier) :
    List (List Token) → Except FlowError (List Candidate)
  | [] => .ok []
  | scope :: rest => do
    let s ← (FlowContext.ofTokens settings.rules classifier settings.template scope).run
    let others ← scopeCandidates settings classifier rest
    return s.candidates ++ others

/-- The candidates of a list of tokens, merged. -/
def tokenCandidates (settings : Settings) (tokens : List Token) :
    Except FlowError (List Candidate) := do
  let scopes := splitScopes (significant tokens)
  let found ← scopeCandidates settings settings.rules.classifier scopes
  return mergeCandidates settings.separator found

/-- A candidate with the source lines it covers. -/
def Candidate.attach (lines : List (List Char)) (c : Candidate) : Candidate :=
  { c with content := excerpt lines c.startLine c.endLine }

/-- Scan a source. -/
def scanSource (settings : Settings) (filePath source : String) : Except FlowError ScanResult :=
  let digest := contentHash source
  match tokenize source with
  | .error e => .ok ⟨filePath, [], some digest, some e.message⟩
  | .ok tokens => do
    let found ← tokenCandidates settings tokens
    let lines := sourceLines source
    return ⟨filePath, found.map (Candidate.attach lines), some digest, none⟩

end EmbeddedSql
