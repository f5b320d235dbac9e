import DepAudit.Graph.Basic
import DepAudit.ProjectFile.Target
import DepAudit.Scalar

/-! Graphs of what manifests declare: pinned dependencies without edges, and targets with an edge for
each dependency. -/
namespace DepAudit

namespace SourceKind

def nodeKind : SourceKind → NodeKind
  | sourceControl | registry | localPath => .package
  | binary => .binary
  | target => .target

end SourceKind

namespace TargetType

def nodeKind : TargetType → NodeKind
  | application | bundle => .product
  | framework => .framework
  | library => .library
  | test | unknown | other _ => .target

end TargetType

def nonEmpty? (text : String) : Option String := if text.isEmpty then none else some text

def Table.ofFilled (pairs : List (String × Option String)) : Table String String :=
  pairs.filterMap fun p => (p.2 >>= nonEmpty?).map (p.1,·)

def Fact.node (f : Fact) : Node where
  id := f.name
  name := f.name
  version := nonEmpty? f.version
  path := none
  kind := f.kind.nodeKind
  metadata := (Table.ofFilled [("source",some f.kind.word),("location",f.location)]).setAll f.metadata

namespace Target

def node (t : Target) : Node where
  id := t.id
  name := t.name
  version := none
  path := none
  kind := t.type.nodeKind
  metadata := ("target_type",t.type.word) ::
    Table.ofFilled [("product_type",t.productType),("product_name",t.productName)]

def edges (t : Target) : List Edge :=
  t.dependencies.map fun id => ⟨t.id,id,.target,Scalar.one,[]⟩

end Target

namespace Graph

def ofFacts (facts : List Fact) (metadata : Table String String) : Graph :=
  build (facts.map Fact.node) [] (metadata.set "graph_type" "pinned")

def ofTargets (targets : List Target) (metadata : Table String String) : Graph :=
  build (targets.map Target.node) (targets.flatMap Target.edges)
    (metadata.set "graph_type" "targets")

end Graph

end DepAudit
