/-
# Finding files

`findFiles` gives the files below a directory whose paths match a pattern, in the order of their
paths.  A pattern is a path whose names are globs; a name of two stars stands for any number of
directories.  Where the root is a file it is the answer, whatever the pattern.

A search finds paths one after the other, and each is looked at as soon as it is found.  It stops at the
first path that is too long: for a plain name to be looked up, for a directory to be read, or for something
found to be asked whether it is a file.  On its way down through any number of directories a search calls
itself for each, and stops too where no more calls can be nested.
-/
import EmbeddedSql.Files.Source
import EmbeddedSql.Glob.Pattern

namespace EmbeddedSql

/-- What is wrong with a file pattern, by itself or where it leads. -/
inductive FilePatternError where
  | empty
  | absolute
  | mixedStars
  | noNames
  | onlySlash
  | tooDeep
deriving DecidableEq, Repr

def FilePatternError.message : FilePatternError → String
  | empty => "Unacceptable pattern: " ++ quoted ""
  | absolute => "Non-relative patterns are unsupported"
  | mixedStars => "Invalid pattern: " ++ quoted "**" ++ " can only be an entire path component"
  | noNames => "tuple index out of range"
  | onlySlash => "'_TerminatingSelector' object has no attribute 'select_from'"
  | tooDeep => "maximum recursion depth exceeded"

/-- Why files cannot be found. -/
inductive FindError where
  | pattern (e : FilePatternError)
  | tooLong (e : PathTooLong)
deriving DecidableEq, Repr

def FindError.message : FindError → String
  | pattern e => e.message
  | tooLong e => e.message

/-- One name of a file pattern. -/
inductive FileStep where
  | named (name : String)
  | matching (pattern : Pattern)
  | anyDepth
  | here
deriving DecidableEq, Repr

namespace FileStep

/-- Does a list hold two stars in a row? -/
def hasTwoStars : List Char → Bool
  | '*' :: '*' :: _ => true
  | _ :: rest => hasTwoStars rest
  | [] => false

/-- Read one name of a pattern. -/
def ofName (name : String) : Except FilePatternError FileStep :=
  if name = "**" then .ok anyDepth
  else if hasTwoStars name.toList then .error .mixedStars
  else if name.toList.any ['*', '?', '['].contains then
    .ok (matching (.parse (Text.ofString name)))
  else .ok (named name)

/-- Read a file pattern.  One that ends in a slash asks for directories. -/
def parse (pattern : String) : Except FilePatternError (List FileStep) :=
  if pattern = "" then .error .empty
  else
    let path := Path.parse pattern
    if path.slashes ≠ 0 then .error .absolute
    else
      let forDirectories := pattern.toList.getLast? = some '/'
      if path.names = [] then .error (if forDirectories then .onlySlash else .noNames)
      else do
        let steps ← path.names.mapM ofName
        return if forDirectories then steps ++ [here] else steps

end FileStep

/-! ## Searching -/

/-- Why a search stops early. -/
inductive SearchStop where
  | tooLong (e : PathTooLong)
  | tooDeep
deriving DecidableEq, Repr

def FindError.ofStop : SearchStop → FindError
  | .tooLong e => tooLong e
  | .tooDeep => pattern .tooDeep

/-- What a search finds, one after the other, and why it stops then if that is not its end. -/
structure Search where
  found : List Path
  stop : Option SearchStop
deriving DecidableEq, Repr

namespace Search

def nothing : Search := ⟨[], none⟩

def one (path : Path) : Search := ⟨[path], none⟩

/-- One search, and then another one unless the first has stopped. -/
def andThen (s t : Search) : Search :=
  match s.stop with
  | some _ => s
  | none => ⟨s.found ++ t.found, t.stop⟩

/-- Searches from each of many starts, in the order of the starts. -/
def each {α : Type} (find : α → Search) : List α → Search
  | [] => nothing
  | start :: rest => (find start).andThen (each find rest)

/-- Search on from what a search finds, as soon as it is found. -/
def goOn (s : Search) (find : Path → Search) : Search := (each find s.found).andThen ⟨[], s.stop⟩

/-- Find every path once. -/
def once (s : Search) : Search := { s with found := s.found.eraseDups }

end Search

variable {σ : Type}

mutual
/-- All directories from a node down, each before those below it.  Each is read for those below, by a call
of its own, of which only so many can be nested if there is `room` for no more. -/
def Node.directoriesBelow (room : Option Nat) (path : Path) : Node σ → Search
  | .directory entries =>
    if room = some 0 then ⟨[], some .tooDeep⟩
    else if maxPathSize < path.size then ⟨[path], some (.tooLong ⟨path⟩)⟩
    else (Search.one path).andThen (entries.directoriesBelow (room.map (· - 1)) path)
  | _ => .nothing

/-- All directories among the entries that are listed, and below them. -/
def Entries.directoriesBelow (room : Option Nat) (path : Path) : Entries σ → Search
  | .nil => .nothing
  | .cons name node rest =>
    if name = Path.rootName then rest.directoriesBelow room path
    else (node.directoriesBelow room (path.child name)).andThen (rest.directoriesBelow room path)
end

namespace Node

/-- The paths below a directory that the steps of a pattern lead to.  All but the last step have to
lead to directories. -/
def select (tree : Node σ) (room : Option Nat) : List FileStep → Path → Search
  | [], path => .one path
  | .here :: _, path => .one path
  | .named name :: rest, path =>
    let next := path.child name
    match tree.ask next fun node => rest = [] || node.isDirectory with
    | .error e => ⟨[], some (.tooLong e)⟩
    | .ok true => tree.select room rest next
    | .ok false => .nothing
  | .matching pattern :: rest, path =>
    match tree.entriesAt path with
    | .error e => ⟨[], some (.tooLong e)⟩
    | .ok entries =>
      let fitting := entries.filter fun (name, node) =>
        (rest = [] || node.isDirectory) && pattern.fits (Text.ofString name)
      .each (fun (name, _) => tree.select room rest (path.child name)) fitting
  | .anyDepth :: rest, path =>
    match tree.locate path with
    | .ok node => ((node.directoriesBelow room path).goOn (tree.select room rest)).once
    | .error _ => .nothing

/-- Is there a file, of either kind, at the path? -/
def isFileAt (tree : Node σ) (path : Path) : Except PathTooLong Bool :=
  tree.ask path fun node => !node.isDirectory

/-- Those of some paths at which there is a file.  They are asked about one after the other. -/
def filesAmong (tree : Node σ) : List Path → Except PathTooLong (List Path)
  | [] => .ok []
  | path :: rest => do
    let isFile ← tree.isFileAt path
    let files ← tree.filesAmong rest
    return if isFile then path :: files else files

/-- The files that steps lead to from a root that is no file, in the order of their paths. -/
def filesBelow (tree : Node σ) (room : Option Nat) (root : Path) (steps : List FileStep) :
    Except SearchStop (List String) :=
  match tree.ask root Node.isDirectory with
  | .error e => .error (.tooLong e)
  | .ok false => .ok []
  | .ok true =>
    let search := tree.select room steps root
    match tree.filesAmong search.found, search.stop with
    | .error e, _ => .error (.tooLong e)
    | .ok _, some stop => .error stop
    | .ok files, none => .ok ((files.map Path.toText).mergeSort fun a b => a ≤ b)

/-- The files that a pattern matches below a root, in the order of their paths.  There is `room` for so many
nested calls, or for any number. -/
def findFiles (tree : Node σ) (root : Path) (pattern : String) (room : Option Nat := none) :
    Except FindError (List String) :=
  match tree.isFileAt root with
  | .error e => .error (.tooLong e)
  | .ok true => .ok [root.toText]
  | .ok false =>
    match FileStep.parse pattern with
    | .error e => .error (.pattern e)
    | .ok steps => (tree.filesBelow room root steps).mapError .ofStop

end Node

end EmbeddedSql
