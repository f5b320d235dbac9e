import DepAudit.FileTree.Append

/-! The log of a run: messages of named components, written to the console and to a file. -/
namespace DepAudit

inductive LogLevel where
  | debug
  | info
  | warning
  | error
  | critical
  deriving DecidableEq, Repr

namespace LogLevel

def word : LogLevel → String
  | debug => "DEBUG"
  | info => "INFO"
  | warning => "WARNING"
  | error => "ERROR"
  | critical => "CRITICAL"

def rank : LogLevel → Nat
  | debug => 10
  | info => 20
  | warning => 30
  | error => 40
  | critical => 50

def passes (level threshold : LogLevel) : Bool := threshold.rank ≤ level.rank

end LogLevel

structure LogSinks where
  level : LogLevel
  console : LogLevel
  file : Option String
  deriving DecidableEq, Repr

def LogSinks.thresholds (s : LogSinks) : List LogLevel :=
  s.console :: (s.file.map fun _ => s.level).toList

structure RunLog where
  sinks : Option LogSinks
  files : List String
  deriving DecidableEq, Repr

structure LogOutput where
  console : String
  file : Option (String × String)
  deriving DecidableEq, Repr

namespace RunLog

def name : String := "depscope"

def unset : RunLog := ⟨none,[]⟩

/-- Sets the log up anew: all messages or those from information on; a quiet console takes warnings
only. The file is opened in a file system. -/
def configure (log : RunLog) (disk : FileSystem) (verbose quiet : Bool) (file : Option String) :
    Except OpenFault (RunLog × FileSystem) := do
  let level := if verbose then LogLevel.debug else .info
  let disk ← match file with
    | some path => disk.openToAppend path
    | none => pure disk
  return ({
    sinks := some ⟨level,if quiet then .warning else level,file⟩
    files := log.files ++ file.toList.filter (!log.files.contains ·) },disk)

def fullName (component : Option String) : String :=
  match component with
  | none => name
  | some c => if c.isEmpty then name else name ++ "." ++ c

def shownName (component : Option String) : String :=
  match component with
  | none => "core"
  | some c => if c.isEmpty then "core" else c

def consoleLine (component : Option String) (level : LogLevel) (message : String) : String :=
  "[" ++ name ++ ":" ++ shownName component ++ "] " ++ level.word ++ " " ++ message ++ "\n"

def fileLine (component : Option String) (level : LogLevel) (message : String) : String :=
  level.word ++ " " ++ fullName component ++ ": " ++ message ++ "\n"

def write (log : RunLog) (component : Option String) (level : LogLevel) (message : String) :
    LogOutput :=
  match log.sinks with
  | none => ⟨"",none⟩
  | some s =>
    if level.passes s.level then
      ⟨if level.passes s.console then consoleLine component level message else "",
        s.file.map fun f => (f,fileLine component level message)⟩
    else ⟨"",none⟩

/-- What an output adds to each of the files that the log was set up with; several of these paths may
lead to the same file. -/
def added (log : RunLog) (out : LogOutput) : List (String × String) :=
  log.files.map fun f => (f,match out.file with
    | some (g,line) => if FilePath.normalize f = FilePath.normalize g then line else ""
    | none => "")

end RunLog

end DepAudit
