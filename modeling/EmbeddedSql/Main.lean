/-
# The program

Reads what the command reaches below the current directory and below the root, carries the command out,
prints what it prints, and writes the base directory back, which lies in the home directory.  Of what is
above the current directory only that is seen which is reached from the root.
-/
import EmbeddedSql.Cli.Reach
import EmbeddedSql.Cli.Run
import Std.Time.DateTime.PlainDateTime
import Std.Time.DateTime.Timestamp

namespace EmbeddedSql

/-- Read the entries at a place that the paths reach. -/
partial def readEntries (config : Config) (paths : List Path) (place : List String) :
    List IO.FS.DirEntry → IO (Entries Store)
  | [] => return .nil
  | entry :: rest => do
    let others ← readEntries config paths place rest
    let here := place ++ [entry.fileName]
    if !paths.any (·.reaches here) then return others
    if ← entry.path.isDir then
      let inside ← entry.path.readDir
      let entries ← readEntries config paths here inside.toList
      return .cons entry.fileName (.directory entries) others
    let content ← if isRead config paths here then IO.FS.readBinFile entry.path else pure .empty
    return .cons entry.fileName (fileAt config here content.toList) others

/-- Read what the paths reach below the current directory, and below the root if any path starts there. -/
def readDisk (config : Config) (paths : List Path) : IO Disk := do
  let here ← IO.currentDir
  let entries ← readEntries config paths [] (← here.readDir).toList
  if paths.all (·.slashes = 0) then return .directory entries
  let root ← readEntries config paths [Path.rootName] (← (here / Path.rootName).readDir).toList
  return .directory (.cons Path.rootName (.directory root) entries)

mutual
/-- Write a file, or a directory with all that is in it. -/
def writeNode (path : String) : Node Store → IO Unit
  | .file bytes => IO.FS.writeBinFile path ⟨bytes.toArray⟩
  | .store s => IO.FS.writeBinFile path ⟨s.toBytes.toArray⟩
  | .directory entries => do
    IO.FS.createDirAll path
    writeEntries path entries

def writeEntries (path : String) : Entries Store → IO Unit
  | .nil => return
  | .cons name node rest => do
    writeNode (path ++ "/" ++ name) node
    writeEntries path rest
end

/-- The present moment, in universal time. -/
def currentMoment : IO Moment := do
  let seconds := (← Std.Time.Timestamp.now).toSecondsSinceUnixEpoch
  let t := Std.Time.PlainDateTime.ofWallTime (.ofSeconds seconds)
  return {
    year := t.date.year.toInt.toNat
    month := t.date.month.toNat
    day := t.date.day.toNat
    hour := t.time.hour.toNat
    minute := t.time.minute.toNat
    second := t.time.second.toNat }

/-- Carry out a command and give its exit code. -/
def carryOut (config : Config) (command : Command) : IO UInt32 := do
  let disk ← readDisk config (command.paths config)
  let occasion := Occasion.of (← currentMoment) (← IO.getRandomBytes 16).toList
  let outcome := runCommand config none occasion disk command
  for printed in outcome.printed do
    IO.println printed.toText
  if let .ok node := outcome.disk.locate config.baseDir then
    writeNode config.baseDir.toText node
  if let some fault := outcome.fault then
    IO.eprintln fault.message
  return outcome.exitCode.toUInt32

end EmbeddedSql

def main (arguments : List String) : IO UInt32 := do
  match EmbeddedSql.Command.parse arguments with
  | .error e =>
    IO.eprintln e.message
    return 2
  | .ok .help =>
    IO.println EmbeddedSql.Command.usage
    return 0
  | .ok command =>
    let home := (← IO.getEnv "HOME").getD "/"
    EmbeddedSql.carryOut (.ofBase ((EmbeddedSql.Path.parse home).child ".sql-extract")) command
