/-
# What a command reaches

Of all that lies below the current directory and the root a command needs little: what is at its paths and below
them, and the directories on the way there.  The content is read of source files, of the files that
are named by a path, and of everything in the base directory.

On disk a store is a file that holds its archive.  A file at the store's place that is no archive stays
a file.
-/
import EmbeddedSql.Cli.Arguments
import EmbeddedSql.Cli.Outcome
import EmbeddedSql.Store.Archive

namespace EmbeddedSql

/-- The paths that a command looks at. -/
def Command.paths (config : Config) : Command → List Path
  | help => [config.baseDir]
  | scan request => config.baseDir :: request.rulesPath.toList ++ request.paths
  | rules path => config.baseDir :: path.toList
  | history _ => [config.baseDir]

namespace Path

/-- Is the place, a list of names, on the way to the path, at it or below it?  A path that goes up may
lead past every place on its side, below the current directory or below the root. -/
def reaches (p : Path) (place : List String) : Bool :=
  let sameSide := (p.slashes != 0) == (place.head? == some rootName)
  sameSide && (p.route.contains ".." || p.route.isPrefixOf place || place.isPrefixOf p.route)

end Path

/-- Does the name of a place end like that of a source file? -/
def isSourcePlace (place : List String) : Bool :=
  place.getLast?.any (·.endsWith ".java")

/-- Is the content of the file at a place needed? -/
def isRead (config : Config) (paths : List Path) (place : List String) : Bool :=
  isSourcePlace place || config.baseDir.route.isPrefixOf place
    || paths.any fun p => p.route.contains ".." || p.route = place

/-- The store whose archive these bytes are. -/
def Store.ofBytes? (bytes : Bytes) : Option Store :=
  match Utf8.decode bytes with
  | .ok text => Store.ofArchive? text
  | .error _ => none

def Store.toBytes (s : Store) : Bytes := Utf8.encode s.archive.toList

/-- The file with these bytes at a place. -/
def fileAt (config : Config) (place : List String) (bytes : Bytes) : Node Store :=
  match (if place = config.storePath.route then Store.ofBytes? bytes else none) with
  | some s => .store s
  | none => .file bytes

end EmbeddedSql
