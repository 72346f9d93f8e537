/-
# File paths

A path is a list of names and the number of slashes before them: none, one, or two, where more than
two count as one.  Empty names and single dots have no meaning and are dropped when a path is read;
double dots stay.  The path without names and slashes is the current directory and is written as a
dot.

A path without slashes is followed from the current directory, and any other from the root of the file
system.  The root has a name that nothing else can have, so that the way from the current directory to a
path is a list of names in both cases (`route`).
-/
import EmbeddedSql.Text.Split

namespace EmbeddedSql

structure Path where
  slashes : Nat
  names : List String
deriving DecidableEq, Repr

namespace Path

/-- The current directory. -/
def here : Path := ⟨0, []⟩

/-- The names between the slashes of a path. -/
def namesOf (text : String) : List String :=
  ((splitAtEach '/' text.toList).map String.ofList).filter fun name => name != "" && name != "."

/-- How many of the slashes at the front of a path count. -/
def slashesOf (text : String) : Nat :=
  match (text.toList.takeWhile (· == '/')).length with
  | 0 => 0
  | 2 => 2
  | _ => 1

/-- Read a path. -/
def parse (text : String) : Path := ⟨slashesOf text, namesOf text⟩

/-- A path as it is written. -/
def toText (p : Path) : String :=
  if p = here then "."
  else String.ofList (List.replicate p.slashes '/') ++ "/".intercalate p.names

/-- Does a path hold the character that ends texts for the system?  Nothing can be at such a path. -/
def holdsNul (p : Path) : Bool := p.names.any (·.toList.contains '\x00')

/-- The bytes of a path as it is written. -/
def size (p : Path) : Nat := p.toText.utf8ByteSize

/-- The path one name further. -/
def child (p : Path) (name : String) : Path := { p with names := p.names ++ [name] }

/-- The paths of the directories that a path leads through, the outermost first. -/
def parents (p : Path) : List Path :=
  (List.range p.names.length).map fun n => { p with names := p.names.take n }

/-- The name of the root. -/
def rootName : String := "/"

/-- The names of a way from the root, without the ways up that do not leave the root. -/
def belowRoot (depth : Nat) : List String → List String
  | [] => []
  | name :: rest =>
    if name = ".." then
      match depth with
      | 0 => belowRoot 0 rest
      | depth + 1 => name :: belowRoot depth rest
    else name :: belowRoot (depth + 1) rest

/-- The way to a path from the current directory. -/
def route (p : Path) : List String :=
  if p.slashes = 0 then p.names else rootName :: belowRoot 0 p.names

/-- The way to a path with every way up taken back, where that is possible. -/
def settled (p : Path) : List String :=
  (p.route.foldl (fun above name => if name = ".." then above.tail else name :: above) []).reverse

end Path

end EmbeddedSql
