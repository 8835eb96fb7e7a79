import Lox.Session
import Lox.Text.Blank
import Lox.Text.Quoted

/-!
The command line: which commands there are, and what each writes and returns as its status. The
run of a command is a function of its arguments and of the world it starts in.
-/

namespace Lox

inductive Command where
  | version
  | tokenize (file : Path) (asRecords : Bool)
  | evaluate (file : Path)
  | run (file : Path)
  | repl
deriving DecidableEq

/-- A command, and whether a log file is asked for. -/
structure Invocation where
  command : Command
  log : Bool
deriving DecidableEq

namespace Invocation

/-- Takes an option out of the words of one level, where it may stand anywhere, but only once. -/
def takeOption (name : String) (words : List String) : Option (Bool × List String) :=
  match words.count name with
  | 0 => some (false, words)
  | 1 => some (true, words.erase name)
  | _ => none

def isOption (word : String) : Bool :=
  match word.toList with
  | '-' :: _ :: _ => true
  | _ => false

/-- A command by its name and its operands, which are not empty. -/
def command? (name : String) (asRecords : Bool) (operands : List String) : Option Command := do
  guard (!operands.contains "")
  match name, asRecords, operands with
  | "tokenize", _, [file] => some (.tokenize file asRecords)
  | "evaluate", false, [file] => some (.evaluate file)
  | "run", false, [file] => some (.run file)
  | "repl", false, [] => some .repl
  | _, _, _ => none

/-- Reads the words before and after a lone double dash; only those before it can be options. The
options before the name of the command and those after it are two levels. -/
def ofWords (before after : List String) : Option Invocation := do
  let (outerLog, unknown) ← takeOption "--log" (before.takeWhile isOption)
  guard unknown.isEmpty
  match before.dropWhile isOption with
  | [] => none
  | name :: words =>
    let (innerLog, words) ← takeOption "--log" words
    let (asRecords, words) ← takeOption "--json" words
    guard (!words.any isOption)
    let command ← command? name asRecords (words ++ after)
    some ⟨command, outerLog || innerLog⟩

/-- The version is asked for by the first option. -/
def parse (arguments : List String) : Option Invocation :=
  match arguments with
  | "--version" :: _ | "-V" :: _ | "--log" :: "--version" :: _ | "--log" :: "-V" :: _ =>
    some ⟨.version, false⟩
  | _ => ofWords (arguments.takeWhile (· ≠ "--")) ((arguments.dropWhile (· ≠ "--")).drop 1)

end Invocation

namespace Command

def versionText : String := "rlox 0.1.0"

def usage : String :=
  "Usage: rlox [--log] (tokenize [--json] FILE | evaluate FILE | run FILE | repl)"

abbrev Status := Nat

/-- Writes to the standard output. -/
def say (text : String) : Eval Unit :=
  modify fun m => { m with world := { m.world with out := m.world.out.write text } }

/-- A failure of the command itself, with what caused it. -/
def complain (what cause : String) : Eval Status := do
  Eval.report ("Error: " ++ what ++ "\n\nCaused by:\n    " ++ cause)
  return 1

def failed (failure : Failure) : Eval Status := do
  Eval.report failure.message
  return failure.exitCode

/-- Hands the text of a file on, or complains. -/
def withSource (file : Path) (body : String → Eval Status) : Eval Status := do
  let disk := (← get).world.disk
  match disk.locate file with
  | .error fault => complain ("Cannot open " ++ Text.path file) fault.message
  | .ok place =>
    match disk.content place with
    | .error fault => complain ("Cannot read " ++ Text.path file) fault.message
    | .ok bytes =>
      match Text.Utf8.fault? bytes with
      | some fault => complain (Text.path file ++ " is not valid UTF-8") fault.message
      | none => body (Text.Utf8.decodeLossy bytes)

/-- Lists tokens; lexical errors go to the standard error and the listing goes on. -/
def listItems (asRecords : Bool) : List (Except LexError Token) → Eval Unit
  | [] => pure ()
  | .ok token :: rest => do
    say ((if asRecords then token.record else token.display) ++ "\n")
    listItems asRecords rest
  | .error e :: rest => do
    Eval.report e.message
    listItems asRecords rest

def tokenizeSource (asRecords : Bool) (source : String) : Eval Status := do
  listItems asRecords (scanItems source)
  match scan source with
  | .ok _ => return 0
  | .error e => return (Failure.lex e).exitCode

def evaluateSource (source : String) : Eval Status := do
  match ← Eval.evaluateSource source with
  | .ok value =>
    say ((← Eval.display value) ++ "\n")
    return 0
  | .error failure => failed failure

def runFile (file : Path) : Eval Status := do
  match ← Eval.runFile file with
  | .ok _ => return 0
  | .error failure => failed failure

def prompt : String := "> "

/-- Whether a line is run as a program and not evaluated as an expression. -/
def isProgram (trimmed : List Char) : Bool :=
  trimmed.getLast? == some ';' || trimmed.getLast? == some '\x7d'

/-- Answers one line; a blank line has no answer. -/
def answerLine (line : String) : Eval Unit := do
  let trimmed := Text.trim line.toList
  if trimmed.isEmpty then return ()
  else if isProgram trimmed then
    let _ ← Eval.runReporting line
  else
    match ← Eval.evaluateSource line with
    | .ok value => say ((← Eval.display value) ++ "\n")
    | .error failure => Eval.report failure.message

/-- A line may end in a carriage return, which does not belong to it. -/
def dropReturn (line : String) : String :=
  let cs := line.toList
  if cs.getLast? = some '\r' then String.ofList cs.dropLast else line

/-- The dialogue over the lines of the input, until they end or one of them is not text. -/
def dialogue : List (List UInt8) → Eval Status
  | [] => do
    say (prompt ++ "\n")
    return 0
  | bytes :: rest => do
    say prompt
    match Text.Utf8.decode? bytes with
    | none =>
      Eval.report ("Error: " ++ ReadFault.notText.message)
      return 1
    | some line =>
      answerLine (dropReturn line)
      dialogue rest

def converse : Eval Status := do
  let input := (← get).world.input
  modify fun m => { m with world := { m.world with input := [] } }
  dialogue (World.lines input)

def perform : Command → Eval Status
  | .version => do
    say (versionText ++ "\n")
    return 0
  | .tokenize file asRecords => withSource file (tokenizeSource asRecords)
  | .evaluate file => withSource file evaluateSource
  | .run file => runFile file
  | .repl => converse

end Command

namespace Invocation

def logFile : Path := "app.log"

/-- Makes an empty log file, which fails if a directory has its name. -/
def perform (i : Invocation) : Eval Command.Status := do
  if i.log then
    let disk := (← get).world.disk
    if let some .directory := disk.entry? (.ofPath logFile) then
      return ← Command.complain ("Cannot create " ++ logFile) ReadFault.isDirectory.message
    modify fun m => { m with world := { m.world with disk := disk.insert logFile (.file []) } }
  i.command.perform

/-- The status of a run, and the world that it leaves. -/
def run (i : Invocation) (world : World) : Command.Status × World :=
  match (Machine.fresh world).perform i.perform with
  | (.ok status, m) => (status, m.world)
  | (.error (.error e), m) => ((Failure.runtime e).exitCode, m.world)
  | (.error _, m) => (101, m.world)

end Invocation

/-- Runs a command line. One that cannot be understood only shows how it is used. -/
def runCommandLine (arguments : List String) (world : World) : Command.Status × World :=
  match Invocation.parse arguments with
  | some invocation => invocation.run world
  | none => (2, { world with err := world.err.write (Command.usage ++ "\n") })

end Lox
