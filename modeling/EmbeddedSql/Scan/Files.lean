/-
# Scanning files

Many files are scanned in one go, and the results come in the order of the paths.  All files are read
before the first is scanned.  A file that cannot be read has a result that says so, and one whose
result is kept from an earlier scan is not scanned again; the others are *pending*.  What is no path at
all ends the whole.

With one worker, or one pending file, the pending files are scanned in turn, and a scan that fails ends
the whole.  Otherwise workers share them.  They work apart from each other and are done in any order:
what fails in one of them is the result of its file, and no other file notices.  Only so many workers
can share the files; with more of them nothing is scanned.
-/
import EmbeddedSql.Files.Source
import EmbeddedSql.Scan.Source

namespace EmbeddedSql

/-! ## Values by path -/

/-- Values by file path, in the order in which the paths came first. -/
abbrev ByPath (α : Type) := List (String × α)

namespace ByPath

variable {α : Type}

def get? (m : ByPath α) (path : String) : Option α := m.lookup path

/-- Put a value under a path, in the place of the one that is there. -/
def set (m : ByPath α) (path : String) (a : α) : ByPath α :=
  match m with
  | [] => [(path, a)]
  | (p, b) :: rest => if p == path then (p, a) :: rest else (p, b) :: set rest path a

theorem get?_cons (path : String) (a : α) (m : ByPath α) (p : String) :
    ByPath.get? ((path, a) :: m) p = if p = path then some a else ByPath.get? m p := by
  unfold get?
  rw [List.lookup_cons]
  by_cases h : p = path
  · simp [h]
  · simp [h, beq_false_of_ne h]

theorem get?_set (m : ByPath α) (path : String) (a : α) (p : String) :
    (m.set path a).get? p = if p = path then some a else m.get? p := by
  induction m with
  | nil => exact get?_cons path a [] p
  | cons e rest ih =>
    obtain ⟨k, b⟩ := e
    by_cases hk : k = path
    · by_cases h : p = path <;> simp [set, get?_cons, hk, h]
    · by_cases h : p = k
      · simp [set, get?_cons, hk, h]
      · simp [set, get?_cons, hk, h, ih]

end ByPath

/-! ## Workers -/

/-- How many workers there are, and what keeps them from working at all. -/
structure Workers where
  count : Int
  fault : Option String

/-- One worker, which never fails. -/
def Workers.single : Workers := ⟨1, none⟩

/-- The most workers that can share files: all of them and one more are counted in a signed word of 32
bits. -/
def maxWorkers : Int := 2147483646

/-- How the work of workers turns out: the order in which files are done, and for each file what was
wrong with its worker if that was lost. -/
structure Turnout where
  order : ByPath String → ByPath String
  order_perm : ∀ files, (order files).Perm files
  lost : String → Option String

/-- Files are done in the order in which they came. -/
def Workers.turnout (workers : Workers) : Turnout := ⟨id, fun _ => .refl _, fun _ => workers.fault⟩

/-- What ends a scan of files. -/
inductive ScanError where
  | nulInPath
  | tooManyWorkers
  | flow (e : FlowError)
deriving DecidableEq, Repr

def ScanError.message : ScanError → String
  | nulInPath => ReadError.holdsNul.reason
  | tooManyWorkers => "Python int too large to convert to C int"
  | flow e => e.message

/-! ## Reading -/

/-- What is known of a file before it is scanned. -/
inductive Intake where
  | unreadable (reason : String)
  | known (result : ScanResult)
  | fresh (source : String)

variable {σ : Type}

/-- Read a file and look for a result that is kept for it. -/
def intakeOf (cache : Option ResultCache) (tree : Node σ) (filePath : String) :
    Except ScanError Intake :=
  let path := Path.parse filePath
  match tree.readSource path with
  | .error .holdsNul => .error .nulInPath
  | .error e => .ok (.unreadable (e.message path))
  | .ok source =>
    match cache.bind fun c => c.get? filePath (contentHash source) with
    | some r => .ok (.known r)
    | none => .ok (.fresh source)

/-- Files that have been read: the results of those that are not scanned, and the sources of the
others. -/
structure Reading where
  results : ByPath ScanResult
  pending : ByPath String

namespace Reading

def start : Reading := ⟨[], []⟩

/-- One more file has been read. -/
def add (read : Reading) (filePath : String) : Intake → Reading
  | .unreadable reason => { read with results := read.results.set filePath (.failed filePath reason) }
  | .known r => { read with results := read.results.set filePath r }
  | .fresh source => { read with pending := read.pending.set filePath source }

end Reading

/-- Read files one after the other. -/
def readFiles (cache : Option ResultCache) (tree : Node σ) (read : Reading) :
    List String → Except ScanError Reading
  | [] => .ok read
  | filePath :: rest => do
    let intake ← intakeOf cache tree filePath
    readFiles cache tree (read.add filePath intake) rest

/-! ## Scanning -/

/-- Scan pending files in turn. -/
def scanInTurn (settings : Settings) (results : ByPath ScanResult) :
    ByPath String → Except FlowError (ByPath ScanResult)
  | [] => .ok results
  | (filePath, source) :: rest => do
    let r ← scanSource settings filePath source
    scanInTurn settings (results.set filePath r) rest

/-- The result of a file on its own: what fails in its scan is its error. -/
def scanApart (settings : Settings) (lost : Option String) (filePath source : String) :
    ScanResult :=
  match lost with
  | some reason => .failed filePath reason
  | none =>
    match scanSource settings filePath source with
    | .ok r => r
    | .error e => .failed filePath e.message

/-- Collect the results of pending files that workers share, in the order in which they are done. -/
def scanShared (settings : Settings) (lost : String → Option String)
    (results : ByPath ScanResult) : ByPath String → ByPath ScanResult
  | [] => results
  | (filePath, source) :: rest =>
    scanShared settings lost
      (results.set filePath (scanApart settings (lost filePath) filePath source)) rest

/-- Do this many workers share this many pending files? -/
def sharesWork (count : Int) (pending : Nat) : Bool := 1 < count && 1 < pending

/-- The results of all files that have been read. -/
def scanPending (settings : Settings) (count : Int) (turnout : Turnout) (read : Reading) :
    Except ScanError (ByPath ScanResult) :=
  if sharesWork count read.pending.length then
    if maxWorkers < count then .error .tooManyWorkers
    else .ok (scanShared settings turnout.lost read.results (turnout.order read.pending))
  else (scanInTurn settings read.results read.pending).mapError .flow

/-- Keep the results of the files that were scanned. -/
def keepScanned (cache : ResultCache) (results : ByPath ScanResult) (pending : ByPath String) :
    ResultCache :=
  (pending.filterMap fun (filePath, _) => results.get? filePath).foldl ResultCache.put cache

/-- The results of many files, and the cache with what was scanned. -/
def scanFilesBy (settings : Settings) (count : Int) (turnout : Turnout)
    (cache : Option ResultCache) (tree : Node σ) (filePaths : List String) :
    Except ScanError (List ScanResult × Option ResultCache) := do
  let read ← readFiles cache tree .start filePaths
  let results ← scanPending settings count turnout read
  return (filePaths.filterMap results.get?, cache.map (keepScanned · results read.pending))

/-- Scan files with workers that are done in the order in which the files came. -/
def scanFiles (settings : Settings) (workers : Workers) (cache : Option ResultCache)
    (tree : Node σ) (filePaths : List String) :
    Except ScanError (List ScanResult × Option ResultCache) :=
  scanFilesBy settings workers.count workers.turnout cache tree filePaths

/-- The result of one file. -/
def scanFile (settings : Settings) (tree : Node σ) (filePath : String) :
    Except ScanError ScanResult := do
  match ← intakeOf none tree filePath with
  | .unreadable reason => return .failed filePath reason
  | .known r => return r
  | .fresh source => (scanSource settings filePath source).mapError .flow

end EmbeddedSql
