/-
# Saving, statement by statement

A result is saved by statements that are carried out one after the other.  What is stored of the same path
and content goes, the file gets its row, and its candidates are added, numbered in order.

| statement | is refused |
| :-- | :-- |
| any | if it is given a text with half of a surrogate pair, or a number beyond 64 bits |
| that puts a file or a finding | if its run is not there |
| that adds a finding | if that ends before it starts |

A statement that is refused changes nothing, but those before it have been carried out.
-/
import EmbeddedSql.Store.Basic

namespace EmbeddedSql

/-! ## What can be given

A caller may give any texts, also such as no database takes. -/

@[ext]
structure GivenCandidate where
  text : Text
  startLine : Int
  endLine : Int
  origin : Origin
  disposition : Disposition
  statements : List Text
  content : Text
  statements_ne_nil : statements ≠ []

instance : DecidableEq GivenCandidate := fun c d =>
  decidable_of_iff _ (GivenCandidate.ext_iff (x := c) (y := d)).symm

structure GivenResult where
  filePath : Text
  candidates : List GivenCandidate
  contentHash : Option Text
  error : Option Text
deriving DecidableEq

def Candidate.given (c : Candidate) : GivenCandidate where
  text := c.text
  startLine := c.startLine
  endLine := c.endLine
  origin := c.origin
  disposition := c.disposition
  statements := c.statements
  content := Text.ofString c.content
  statements_ne_nil := c.statements_ne_nil

def ScanResult.given (r : ScanResult) : GivenResult where
  filePath := Text.ofString r.filePath
  candidates := r.candidates.map Candidate.given
  contentHash := r.contentHash.map Text.ofString
  error := r.error.map Text.ofString

/-! ## What can be held -/

/-- A text as the database holds it. -/
def bindText (t : Text) : Except StoreError String :=
  match t.toString? with
  | some s => .ok s
  | none => .error (.loneSurrogate t)

def bindText? : Option Text → Except StoreError (Option String)
  | none => .ok none
  | some t => (bindText t).map some

def bindNumber (n : Int) : Except StoreError Int := if isWord64 n then .ok n else .error .hugeNumber

/-- The run of a row, which has to be there. -/
def Store.referTo (s : Store) : Option String → Except StoreError String
  | none => .error .runMissing
  | some id => if (s.run? id).isSome then .ok id else .error .unknownRun

/-- A candidate as a finding. -/
def GivenCandidate.finding (c : GivenCandidate) (runId filePath contentHash : String)
    (ordinal : Nat) : Except StoreError Finding := do
  let startLine ← bindNumber c.startLine
  let endLine ← bindNumber c.endLine
  let text ← bindText c.text
  let content ← bindText c.content
  if endLine < startLine then .error .endBeforeStart
  else
    return { runId, filePath, contentHash, ordinal, startLine, endLine, text, content
             origin := c.origin
             disposition := c.disposition
             statements := encodeStatements c.statements }

/-! ## Statements -/

inductive Statement where
  | deleteFindings (filePath contentHash : Text)
  | putFile (filePath contentHash : Text) (runId error : Option Text)
  | addFinding (runId filePath contentHash : Text) (ordinal : Nat) (c : GivenCandidate)

/-- Is this another path or another content than the one of the key? -/
def Store.isOther (filePath contentHash p h : String) : Bool := !(p == filePath && h == contentHash)

/-- The store after a statement. -/
def Statement.run (s : Store) : Statement → Except StoreError Store
  | deleteFindings filePath contentHash => do
    let filePath ← bindText filePath
    let hash ← bindText contentHash
    return { s with
      findings := s.findings.filter fun f => Store.isOther filePath hash f.filePath f.contentHash }
  | putFile filePath contentHash runId error => do
    let filePath ← bindText filePath
    let hash ← bindText contentHash
    let runId ← bindText? runId
    let error ← bindText? error
    let runId ← s.referTo runId
    return { s with
      files := s.files.filter (fun f => Store.isOther filePath hash f.filePath f.contentHash)
        ++ [⟨filePath, hash, runId, error⟩] }
  | addFinding runId filePath contentHash ordinal c => do
    let runId ← bindText runId
    let filePath ← bindText filePath
    let hash ← bindText contentHash
    let f ← c.finding runId filePath hash ordinal
    let _ ← s.referTo (some runId)
    return { s with findings := s.findings ++ [f] }

/-- Add candidates, numbered from `ordinal` on. -/
def addFindings (runId filePath contentHash : Text) (ordinal : Nat) :
    List GivenCandidate → List Statement
  | [] => []
  | c :: rest =>
    .addFinding runId filePath contentHash ordinal c ::
      addFindings runId filePath contentHash (ordinal + 1) rest

/-- What it takes to save a result that has a digest.  A file without a run is refused, so every finding
has one. -/
def saveStatements (runId : Option Text) (r : GivenResult) (contentHash : Text) : List Statement :=
  .deleteFindings r.filePath contentHash :: .putFile r.filePath contentHash runId r.error ::
    runId.elim [] fun id => addFindings id r.filePath contentHash 0 r.candidates

end EmbeddedSql
