import DepAudit.Failure
import DepAudit.FilePath
import DepAudit.Settings.Basic
import DepAudit.ValueText
import DepAudit.Yaml.Document

/-! Settings from a file. The file is named, or looked for in a project; what is not set keeps its
default, and the root of the analysis is seen from the directory that the file speaks of. -/
namespace DepAudit.Settings

def directoryName : String := ".depscope"

def candidates (project : String) : List String :=
  [FilePath.join project "depscope.yaml",
   FilePath.join (FilePath.join project directoryName) "config.yaml"]

/-- The settings file to be read, if there is any. Only a file that is named has to be there. -/
def file? (content? : String → Option ByteArray) (path : Option String) (project : String) :
    Except Failure (Option String) :=
  match path with
  | none => .ok ((candidates project).find? fun p => (content? p).isSome)
  | some p =>
    if (content? p).isSome then .ok (some p) else .error (.settingsFile ⟨.notFound,p⟩)

/-- Inside itself, a collection is shown once, and unfolded so often that no setting looks deeper. -/
def shownRounds : Nat := 1

def readRounds : Nat := 4

def rootText : Value → Except SettingError String
  | .text s => .ok s
  | .halves codes => .ok codes.shown
  | _ => .error .wrongType

def ofDocument (d : Yaml.Document) : Except Failure Settings := do
  let s : Settings := {}
  let version ← match d.find? "version" with
    | some id => (d.value shownRounds id).shown?.mapError .record
    | none => pure s.version
  let given := sectionNames.filterMap fun name =>
    (d.find? name).map fun id => (Value.text name,d.value readRounds id)
  let s ← (overlaySections { s with version } given).mapError .setting
  match d.find? "root" with
  | some id => return { s with root := ← (rootText (d.value shownRounds id)).mapError .setting }
  | none => return s

def documentFailure (path : String) : Yaml.Error → Failure
  | .invalid fault => .settingsFile ⟨.invalid fault,path⟩
  | .scalar fault => .scalar fault
  | .tooDeep => .tooDeep
  | .brokenOff => .notUtf8

def ofBytes (path : String) (content : ByteArray) : Except Failure Settings := do
  let d ← (Yaml.read content).mapError (documentFailure path)
  if d.isMap then ofDocument d
  else if (d.value shownRounds d.root).isOn then .error (.settingsFile ⟨.notMap,path⟩)
  else return {}

/-- The directory that a settings file speaks of: its own one, or the parent of a directory for
settings. -/
def subject (here path : String) : String :=
  let directory := FilePath.directoryOf (FilePath.absolute here path)
  if FilePath.nameOf directory = directoryName then FilePath.directoryOf directory else directory

def settle (base : String) (s : Settings) : Settings :=
  if FilePath.isAbsolute s.root then s
  else { s with root := FilePath.normalize (FilePath.join base s.root) }

/-- The settings of a project, which is the directory `here` unless it is named. `content?` gives the
bytes of the files that are there. -/
def load (content? : String → Option ByteArray) (here : String) (path project : Option String) :
    Except Failure Settings := do
  let project := project.getD here
  match ← file? content? path project with
  | none => return settle (FilePath.join here project) {}
  | some p =>
    let s ← ofBytes p ((content? p).getD .empty)
    return settle (subject here p) s

end DepAudit.Settings
