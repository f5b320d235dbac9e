import DepAudit.Json.Basic
import DepAudit.Table

/-! One declaration of a dependency, as found in a manifest. -/
namespace DepAudit

inductive SourceKind where
  | sourceControl
  | binary
  | registry
  | localPath
  | target
  deriving DecidableEq, Repr

namespace SourceKind

def word : SourceKind → String
  | sourceControl => "source-control"
  | binary => "binary"
  | registry => "registry"
  | localPath => "local"
  | target => "target"

def all : List SourceKind := [sourceControl,binary,registry,localPath,target]

def ofWord? (w : String) : Option SourceKind := all.find? (·.word = w)

def ofLocation (location : String) : SourceKind :=
  if location.startsWith "http" then sourceControl
  else if location.startsWith "binary" then binary
  else registry

end SourceKind

structure Fact where
  name : String
  version : String
  location : Option String
  kind : SourceKind
  metadata : Table String String
  importCount : Option Int
  deriving DecidableEq, Repr

def Table.toJson (t : Table String String) : Json := .obj (t.map fun p => (p.1,.str p.2))

def Json.record (members : List (String × Option Json)) : Json :=
  .obj (members.filterMap fun m => m.2.map (m.1,·))

def Table.toJson? (t : Table String String) : Option Json :=
  if t.isEmpty then none else some t.toJson

def Fact.toJson (f : Fact) : Json :=
  .record [("name",some (.str f.name)),("version",some (.str f.version)),
    ("source_location",f.location.map .str),("kind",some (.str f.kind.word)),
    ("metadata",f.metadata.toJson?),("import_count",f.importCount.map .int)]

end DepAudit
