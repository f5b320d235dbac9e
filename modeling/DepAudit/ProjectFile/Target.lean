import DepAudit.Fact
import DepAudit.Text.Slices

/-! Build targets of a project. -/
namespace DepAudit

inductive TargetType where
  | application
  | framework
  | library
  | test
  | bundle
  | unknown
  /-- A type of another wording. -/
  | other (word : String)
  deriving DecidableEq, Repr

namespace TargetType

def word : TargetType → String
  | application => "application"
  | framework => "framework"
  | library => "library"
  | test => "test"
  | bundle => "bundle"
  | unknown => "unknown"
  | other w => w

/-- The types that a product type can name, in the order in which they are looked for. -/
def named : List TargetType := [application,framework,library,test,bundle]

def ofWord (w : String) : TargetType := ((named ++ [unknown]).find? (·.word = w)).getD (other w)

def ofProductName (name : String) : TargetType :=
  if name.endsWith ".app" then application
  else if name.endsWith ".framework" then framework
  else if name.endsWith ".a" || name.endsWith ".dylib" then library
  else unknown

def classify (productType productName : Option String) : TargetType :=
  let byType := productType.bind fun t =>
    named.find? fun type => Text.occurs type.word.toList t.toList
  match byType,productName with
  | some type,_ => type
  | none,some name => ofProductName name
  | none,none => unknown

end TargetType

structure Target where
  id : String
  name : String
  type : TargetType
  productName : Option String
  productType : Option String
  dependencies : List String
  buildPhases : List String
  deriving DecidableEq, Repr

namespace Target

def filled (text : Option String) : Option Json :=
  text.bind fun t => if t.isEmpty then none else some (.str t)

def toJson (t : Target) : Json :=
  .record [("id",some (.str t.id)),("name",some (.str t.name)),
    ("target_type",some (.str t.type.word)),
    ("dependencies",some (Json.strings t.dependencies)),
    ("build_phases",some (Json.strings t.buildPhases)),
    ("product_name",filled t.productName),("product_type",filled t.productType)]

def byId (targets : List Target) : Table String Target :=
  Table.ofPairs (targets.map fun t => (t.id,t))

def facts (t : Target) (targets : Table String Target) : List Fact :=
  t.dependencies.map fun id => {
    name := ((targets.get? id).map Target.name).getD id
    version := ""
    location := some id
    kind := .target
    metadata := [("declared_by",t.name)]
    importCount := none }

end Target

end DepAudit
