/-
# The command

The command runs the program on the folder it is started in. What the program may look at is
taken up before it starts: the files below that folder, the variables of its settings and the
time.
-/

import ClassIndex.CommandLine.Program
import Std.Time.Format

namespace ClassIndex
namespace CommandLine

/-- The name of the command where the system tells none. -/
def commandName : String := "classindex"

/-- The variables that settings and search paths are read from. -/
def settingNames : List String := [
  "G_SCANNER_WARN_UNRECOGNIZED",
  "G_SCANNER_LOG_SOURCES",
  "G_IMPORT_PATH",
  "G_IMPORT_USE_INCLUDE",
  "G_INCLUDE",
  "G_LOGGING_USE_STRUCTURED",
  "G_LOGGING_MIN_LEVEL",
  "G_LOGGING_CARGO_STYLE",
  "G_VERBOSE",
  "G_CONFIG_FILE"]

/-- Those of the variables that are set. -/
def environment : IO Environment :=
  settingNames.filterMapM fun name => do return (← IO.getEnv name).map (name, ·)

/-- Adds what lies below a folder, so many levels deep, to a tree. A link counts as the file it
leads to. What cannot be read, a link to a folder among it, is left out. -/
def gather : Nat → String → FileTree → IO FileTree
  | 0, _, t => return t
  | levels + 1, folder, t => do
    let mut t := t
    for entry in ← IO.FS.DirEntry.path ⟨folder, "."⟩ |>.readDir do
      let path := folder ++ "/" ++ entry.fileName
      try
        match (← entry.path.symlinkMetadata).type with
        | .dir => t ← gather levels path (t.addFolder path)
        | .file | .symlink => t := t.addFile path (← IO.FS.readBinFile entry.path).toList
        | .other => pure ()
      catch _ => pure ()
    return t

/-- No path has more levels than this. -/
def depthLimit : Nat := 2048

/-- The time as it stands in structured lines. -/
def timestamp : IO String := do
  let now := Std.Time.DateTime.ofTimestamp (← Std.Time.Timestamp.now) .UTC
  return now.format "uuuu-MM-dd'T'HH:mm:ss.SSSSSSSSSxxx"

end CommandLine
end ClassIndex

open ClassIndex.CommandLine in
/-- Runs the program on the folder it is started in. -/
def main (args : List String) : IO UInt32 := do
  let name := (← IO.appPath).fileName.getD commandName
  let outcome := run name args (← environment) (← gather depthLimit "." .empty) (← timestamp)
  (← IO.getStdout).putStr outcome.streams.out
  (← IO.getStderr).putStr outcome.streams.err
  return outcome.status.toUInt32
