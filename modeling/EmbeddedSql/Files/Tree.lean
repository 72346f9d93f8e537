/-
# File trees

What is on disk is a tree of named nodes: files, which hold bytes, directories, and stores, which are
files too but hold a value of their own kind.  `locate` finds the node at a path the way a file system
does, one name after the other, so that every name but the last has to be a directory's and going up
from a directory needs that directory to exist.  `ask` puts a question about the node at a path.
Where there is none the answer is no, but a path that is too long to be looked up gets no answer.
`alter` changes the node at a path and makes the directories on the way that are missing.

A tree is what is seen from the current directory.  The root of the file system stands in it under a name
of its own, which no directory lists.  What is below the root and what is below the current directory are
kept apart, also where the way from the root leads to the current directory.  Going up from there leads to
directories in which nothing is known to be.
-/
import EmbeddedSql.Files.Path
import EmbeddedSql.Text.Utf8

namespace EmbeddedSql

mutual
inductive Node (σ : Type) where
  | file (bytes : Bytes)
  | store (content : σ)
  | directory (entries : Entries σ)

/-- The entries of a directory, by name. -/
inductive Entries (σ : Type) where
  | nil
  | cons (name : String) (node : Node σ) (rest : Entries σ)
end

variable {σ : Type}

instance : Inhabited (Node σ) := ⟨.directory .nil⟩

namespace Entries

def find? (name : String) : Entries σ → Option (Node σ)
  | nil => none
  | cons n node rest => if n = name then some node else find? name rest

/-- Put a node under a name, in place of the one that is there. -/
def put (name : String) (node : Node σ) : Entries σ → Entries σ
  | nil => cons name node nil
  | cons n old rest => if n = name then cons n node rest else cons n old (put name node rest)

def erase (name : String) : Entries σ → Entries σ
  | nil => nil
  | cons n node rest => if n = name then erase name rest else cons n node (erase name rest)

/-- Set what stands under a name, nothing to remove it. -/
def set (name : String) (node? : Option (Node σ)) (entries : Entries σ) : Entries σ :=
  match node? with
  | some node => entries.put name node
  | none => entries.erase name

def toList : Entries σ → List (String × Node σ)
  | nil => []
  | cons n node rest => (n, node) :: toList rest

/-- The entries that a directory lists: all but the root. -/
def listed (entries : Entries σ) : List (String × Node σ) :=
  entries.toList.filter fun (name, _) => name != Path.rootName

@[simp]
theorem find?_put_self (name : String) (node : Node σ) (entries : Entries σ) :
    (entries.put name node).find? name = some node := by
  induction entries using Entries.rec (motive_1 := fun _ => True) with
  | nil => simp [put, find?]
  | cons n old rest _ ih => by_cases h : n = name <;> simp [put, find?, h, ih]
  | _ => trivial

end Entries

/-- Why there is no node at a path. -/
inductive LookupError where
  | missing
  | notADirectory
  | nameTooLong
  | holdsNul
deriving DecidableEq, Repr

/-- The most bytes that a name can have. -/
def maxNameSize : Nat := 255

/-- The most bytes that a path can have when it is looked up. -/
def maxPathSize : Nat := 4095

/-- A path that is too long to be looked up, as a whole or in one of its names. -/
structure PathTooLong where
  path : Path
deriving DecidableEq, Repr

namespace Node

def isDirectory : Node σ → Bool
  | directory _ => true
  | _ => false

/-- Go down the names of a path from a node; `above` holds the directories above it, nearest
first. -/
def walk (above : List (Node σ)) : Node σ → List String → Except LookupError (Node σ)
  | node, [] => .ok node
  | node@(.directory entries), name :: rest =>
    if name = ".." then
      match above with
      | parent :: more => walk more parent rest
      | [] => walk [] (.directory .nil) rest
    else
      match entries.find? name with
      | some next => walk (node :: above) next rest
      | none => .error (if maxNameSize < name.utf8ByteSize then .nameTooLong else .missing)
  | _, _ :: _ => .error .notADirectory

/-- The node at a path, where `tree` is the current directory. -/
def locate (tree : Node σ) (path : Path) : Except LookupError (Node σ) := walk [] tree path.route

/-- The node at a path that is handed over as a whole. -/
def lookUp (tree : Node σ) (path : Path) : Except LookupError (Node σ) :=
  if path.holdsNul then .error .holdsNul
  else if maxPathSize < path.size then .error .nameTooLong
  else tree.locate path

/-- Is there a node at a path, and is the answer to a question about it yes? -/
def ask (tree : Node σ) (path : Path) (question : Node σ → Bool) : Except PathTooLong Bool :=
  match tree.lookUp path with
  | .ok node => .ok (question node)
  | .error .nameTooLong => .error ⟨path⟩
  | .error _ => .ok false

/-- Is there anything at a path? -/
def holds (tree : Node σ) (path : Path) : Except PathTooLong Bool := tree.ask path fun _ => true

def isDirectoryAt (tree : Node σ) (path : Path) : Bool :=
  match tree.locate path with
  | .ok node => node.isDirectory
  | .error _ => false

def existsAt (tree : Node σ) (path : Path) : Bool :=
  match tree.locate path with
  | .ok _ => true
  | .error _ => false

/-- The entries of the directory at a path; none if there is no directory.  A directory whose path is too
long cannot be read. -/
def entriesAt (tree : Node σ) (path : Path) : Except PathTooLong (List (String × Node σ)) :=
  if maxPathSize < path.size then .error ⟨path⟩
  else
    match tree.locate path with
    | .ok (.directory entries) => .ok entries.listed
    | _ => .ok []

/-- Change the node at a path, or remove it, with the directories on the way made if they are
missing.  Below a file nothing can be changed. -/
def alter (change : Option (Node σ) → Option (Node σ)) : List String → Node σ → Node σ
  | [], node => node
  | [name], .directory entries => .directory (entries.set name (change (entries.find? name)))
  | name :: rest, .directory entries =>
    let next := (entries.find? name).getD (.directory .nil)
    .directory (entries.put name (alter change rest next))
  | _, node => node

/-- Put a node at a path. -/
def write (tree : Node σ) (path : Path) (node : Node σ) : Node σ :=
  alter (fun _ => some node) path.settled tree

/-- Make a directory and those above it, unless something is there already. -/
def makeDirectory (tree : Node σ) (path : Path) : Node σ :=
  alter (fun old => some (old.getD (.directory .nil))) path.settled tree

/-- Make the directories that a path leads through, also those from which it goes up again. -/
def makeParents (tree : Node σ) (path : Path) : Node σ := path.parents.foldl makeDirectory tree

/-- Remove what is at a path. -/
def remove (tree : Node σ) (path : Path) : Node σ :=
  if tree.existsAt path then alter (fun _ => none) path.settled tree else tree

end Node

end EmbeddedSql
