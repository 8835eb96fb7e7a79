import Lox.Command
import Std.Time.DateTime.Timestamp

/-!
The program: it looks at the files and the input that a command can need, runs the command and
writes what the command wrote.
-/

namespace Lox.Program

/-- What lies at a path. -/
def find (path : Path) : IO (Option Entry) := do
  let target := (← IO.currentDir) / path
  if ← target.isDir then return some .directory
  if ← target.pathExists then
    return some (.file (← IO.FS.readBinFile target).data.toList)
  return none

/-- Adds what lies at a path; what cannot be read is left out. -/
def addPath (disk : Disk) (path : Path) : IO Disk := do
  try
    match ← find path with
    | some entry => return disk.insert path entry
    | none => return disk
  catch _ => return disk

/-- Adds a file with the directories that its path goes through. -/
def addFile (disk : Disk) (path : Path) : IO Disk :=
  (List.range path.split.length).foldlM
    (fun disk count => addPath disk (String.intercalate "/" (path.split.take (count + 1)))) disk

/-- Adds what lies in a directory and, up to a depth, in those below it. -/
def addTree (disk : Disk) (directory : Path) : (depth : Nat) → IO Disk
  | 0 => return disk
  | depth + 1 => do
    let mut disk := disk
    for entry in ← ((← IO.currentDir) / directory).readDir do
      let path := directory ++ "/" ++ entry.fileName
      disk ← addPath disk path
      if let some .directory := disk.entry? (.ofPath path) then
        disk ← addTree disk path depth
    return disk

def treeDepth : Nat := 16

/-- Everything that is left of the standard input. -/
partial def readInput (input : IO.FS.Stream) (read : ByteArray) : IO ByteArray := do
  let chunk ← input.read 65536
  if chunk.isEmpty then return read else readInput input (read ++ chunk)

def now : IO Nat := do
  return (← Std.Time.Timestamp.now).toMillisecondsSinceUnixEpoch.toInt.toNat

/-- The world of a command on a file. Other files and the input are looked at only if the source
can ask for them. -/
def worldOf (file : Path) : IO World := do
  let disk ← addFile {} file
  let source := (disk.readText file).toOption.getD ""
  let loads := mentions source Native.loadFile.name
  let disk ← if loads then addTree disk "." treeDepth else pure disk
  let input ← if loads || mentions source Native.readLine.name
    then readInput (← IO.getStdin) .empty else pure .empty
  return { disk, input := input.data.toList, time := ← now }

def fileOf : Command → Path
  | .tokenize file _ | .evaluate file | .run file => file
  | .version | .repl => ""

/-- Writes what a run has left in its sinks. -/
def emit (world : World) : IO Unit := do
  let out ← IO.getStdout
  out.write world.out.bytes
  out.flush
  let err ← IO.getStderr
  err.write world.err.bytes
  err.flush

def dropNewline (line : String) : String :=
  let cs := line.toList
  if cs.getLast? = some '\n' then String.ofList cs.dropLast else line

/-- The dialogue with a user, line by line. -/
partial def converse (m : Machine) : IO UInt32 := do
  let out ← IO.getStdout
  out.putStr Command.prompt
  out.flush
  let line ← try (← IO.getStdin).getLine catch _ => do
    (← IO.getStderr).putStrLn ("Error: " ++ ReadFault.notText.message)
    return 1
  if line.isEmpty then
    out.putStrLn ""
    return 0
  let disk ← if mentions line Native.loadFile.name || mentions line Native.reload.name
    then addTree {} "." treeDepth else pure m.world.disk
  let world := { m.world with out := {}, err := {}, disk, time := ← now }
  let (_, m) := { m with world }.perform
    (Command.answerLine (Command.dropReturn (dropNewline line)))
  emit m.world
  converse m

end Lox.Program

open Lox Lox.Program

def main (arguments : List String) : IO UInt32 := do
  match Invocation.parse arguments with
  | some ⟨.repl, log⟩ =>
    if log then IO.FS.writeFile Invocation.logFile ""
    converse (.fresh {})
  | some invocation =>
    if invocation.log then IO.FS.writeFile Invocation.logFile ""
    let (status, world) := invocation.run (← worldOf (fileOf invocation.command))
    emit world
    return status.toUInt32
  | none =>
    let (status, world) := runCommandLine arguments {}
    emit world
    return status.toUInt32
