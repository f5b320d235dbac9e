import DepAudit.Settings.Basic

/-! Finding the parts of a project in a file system: what kind of project it is, its lock files, its
project files and its package manifest. -/
namespace DepAudit

inductive ProjectType where
  | package
  | workspace
  | project
  | unknown
  deriving DecidableEq, Repr

def ProjectType.word : ProjectType → String
  | package => "spm"
  | workspace => "xcode-workspace"
  | project => "xcode-project"
  | unknown => "unknown"

namespace Discovery

/-- Whether one of the names has the suffix, which has to be a text as soon as there is a name. -/
def anyEndsWith (names : List String) (suffix : Value) : Except SettingError Bool :=
  match names,suffix with
  | [],_ => .ok false
  | names,.text s => .ok (names.any (·.endsWith s))
  | _,.halves _ => .ok false
  | _ :: _,_ => .error .wrongType

def isAmong (names : List String) : Value → Bool
  | .text s => names.contains s
  | _ => false

/-- The kind of the project by what lies at its top: a manifest comes before a workspace, a workspace
before a project. -/
def projectType (disk : FileSystem) (root : String) (d : DiscoverySettings) :
    Except SettingError ProjectType := do
  Imports.checkRoot root
  match disk.list? root with
  | none => return .unknown
  | some entries =>
    let names := entries.map Prod.fst
    if isAmong names d.manifestName then return .package
    if ← anyEndsWith names d.workspaceSuffix then return .workspace
    if ← anyEndsWith names d.projectSuffix then return .project
    return .unknown

def excludes (d : DiscoverySettings) (path : String) : Except SettingError Bool := do
  Imports.isExcluded (← d.excluded.elements) path

def walk (disk : FileSystem) (root : String) (d : DiscoverySettings) :
    Except SettingError (List Visit) := do
  Imports.checkRoot root
  disk.walk (excludes d) root

/-- Whether a value can be a member of a set: no collection, and no pair with one in it. -/
def isMember : Value → Bool
  | .seq _ | .map _ | .set _ | .enclosing _ => false
  | .pair key value => isMember key && isMember value
  | _ => true

def nameSet (names : Value) : Except SettingError (List String) := do
  let values ← names.elements
  if values.all isMember then
    return values.filterMap fun v => match v with
      | .text s => some s
      | _ => none
  else .error .wrongType

/-- The lock files of a project, sorted; those inside project and workspace bundles are among them. -/
def lockFiles (disk : FileSystem) (root : String) (d : DiscoverySettings) :
    Except SettingError (List String) := do
  let names ← nameSet d.lockFileNames
  Entry.wantedFiles (← walk disk root d) fun _ name => .ok (names.contains name)

def projectFileName : String := "project.pbxproj"

def isBundle (d : DiscoverySettings) (path : String) : Except SettingError Bool :=
  match d.projectSuffix with
  | .text s => .ok (path.endsWith s)
  | .halves _ => .ok false
  | _ => .error .wrongType

/-- The project files in project bundles, sorted. The suffix is asked for at every directory. -/
def projectFiles (disk : FileSystem) (root : String) (d : DiscoverySettings) :
    Except SettingError (List String) := do
  let visits ← walk disk root d
  let bundles ← visits.filterM fun v => isBundle d v.path
  Entry.wantedFiles bundles fun _ name => .ok (name = projectFileName)

def manifest? (disk : FileSystem) (root : String) (d : DiscoverySettings) :
    Except SettingError (Option String) :=
  match d.manifestName with
  | .text name =>
    let path := FilePath.join root name
    .ok (if disk.isFile path then some path else none)
  | .halves _ => .ok none
  | _ => .error .wrongType

end Discovery

end DepAudit
