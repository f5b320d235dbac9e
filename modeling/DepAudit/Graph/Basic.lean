import DepAudit.Fact

/-! Dependency graphs: nodes with distinct ids, and edges from a dependent to what it depends on. An
edge may name ids that no node has. All else is computed from the nodes and edges. -/
namespace DepAudit

inductive NodeKind where
  | package
  | target
  | module
  | framework
  | library
  | binary
  | product
  | unknown
  deriving DecidableEq, Repr

namespace NodeKind

def word : NodeKind → String
  | package => "package"
  | target => "target"
  | module => "module"
  | framework => "framework"
  | library => "library"
  | binary => "binary"
  | product => "product"
  | unknown => "unknown"

def all : List NodeKind :=
  [package,target,module,framework,library,binary,product,unknown]

def ofWord? (w : String) : Option NodeKind := all.find? (·.word = w)

end NodeKind

inductive EdgeType where
  | direct
  | indirect
  | weak
  | runtime
  | buildTime
  | test
  | dynamicLink
  | staticLink
  | moduleImport
  | package
  | target
  | unknown
  deriving DecidableEq, Repr

namespace EdgeType

def word : EdgeType → String
  | direct => "direct"
  | indirect => "indirect"
  | weak => "weak"
  | runtime => "runtime"
  | buildTime => "build-time"
  | test => "test"
  | dynamicLink => "dynamic-link"
  | staticLink => "static-link"
  | moduleImport => "module-import"
  | package => "package"
  | target => "target"
  | unknown => "unknown"

def all : List EdgeType :=
  [direct,indirect,weak,runtime,buildTime,test,dynamicLink,staticLink,moduleImport,
   package,target,unknown]

def ofWord? (w : String) : Option EdgeType := all.find? (·.word = w)

def category : EdgeType → String
  | direct | indirect => "structural"
  | weak | runtime => "runtime"
  | buildTime | test => "build_time"
  | dynamicLink | staticLink => "linking"
  | moduleImport | package | target => "modular"
  | unknown => "unspecified"

end EdgeType

structure Node where
  id : String
  name : String
  version : Option String
  path : Option String
  kind : NodeKind
  metadata : Table String String
  deriving DecidableEq, Repr

structure Edge where
  source : String
  target : String
  type : EdgeType
  weight : Float
  metadata : Table String String

namespace Node

def toJson (n : Node) : Json :=
  .record [("id",some (.str n.id)),("name",some (.str n.name)),
    ("version",n.version.map .str),("path",n.path.map .str),
    ("kind",some (.str n.kind.word)),("metadata",n.metadata.toJson?)]

def put (n : Node) : List Node → List Node
  | [] => [n]
  | m :: ms => if m.id = n.id then n :: ms else m :: put n ms

/-- The nodes with one node for each id: the last of that id, where the first one stood. -/
def distinct (nodes : List Node) : List Node := nodes.foldl (fun ns n => put n ns) []

theorem ids_put (n : Node) (ms : List Node) :
    (put n ms).map id =
      if n.id ∈ ms.map id then ms.map id else ms.map id ++ [n.id] := by
  induction ms with
  | nil => simp [put]
  | cons m ms ih =>
    by_cases h : m.id = n.id
    · simp [put,h]
    · have h' : ¬n.id = m.id := fun e => h e.symm
      simp only [put,h,↓reduceIte,List.map_cons,ih,List.mem_cons,h',false_or]
      split <;> simp

theorem nodup_ids_put (n : Node) {ms : List Node} (h : (ms.map id).Nodup) :
    ((put n ms).map id).Nodup := by
  rw [ids_put]
  split
  · exact h
  · rename_i new
    exact List.nodup_append.2 ⟨h,by simp,fun a ha b hb => by
      rw [List.mem_singleton.1 hb]; exact fun e => new (e ▸ ha)⟩

theorem nodup_ids_foldl (nodes : List Node) {ms : List Node} (h : (ms.map id).Nodup) :
    ((nodes.foldl (fun ns n => put n ns) ms).map id).Nodup := by
  induction nodes generalizing ms with
  | nil => exact h
  | cons n nodes ih => exact ih (nodup_ids_put n h)

theorem nodup_ids_distinct (nodes : List Node) : ((distinct nodes).map id).Nodup :=
  nodup_ids_foldl nodes List.nodup_nil

end Node

def Edge.toJson (e : Edge) : Json :=
  .record [("from_node",some (.str e.source)),("to_node",some (.str e.target)),
    ("edge_type",some (.str e.type.word)),("weight",some (.float e.weight)),
    ("metadata",e.metadata.toJson?)]

structure Graph where
  nodes : List Node
  edges : List Edge
  metadata : Table String String
  nodup_ids : (nodes.map Node.id).Nodup

namespace Graph

def build (nodes : List Node) (edges : List Edge) (metadata : Table String String) : Graph :=
  ⟨Node.distinct nodes,edges,metadata,Node.nodup_ids_distinct nodes⟩

def toJson (g : Graph) : Json :=
  .obj [("nodes",.arr (g.nodes.map Node.toJson)),("edges",.arr (g.edges.map Edge.toJson)),
    ("metadata",g.metadata.toJson)]

def ids (g : Graph) : List String := g.nodes.map Node.id

def node? (g : Graph) (id : String) : Option Node := g.nodes.find? (·.id = id)

def named? (g : Graph) (name : String) : Option Node := g.nodes.find? (·.name = name)

def ofKind (g : Graph) (kind : NodeKind) : List Node := g.nodes.filter (·.kind = kind)

def ofType (g : Graph) (type : EdgeType) : List Edge := g.edges.filter (·.type = type)

def outgoing (g : Graph) (id : String) : List Edge := g.edges.filter (·.source = id)

def incoming (g : Graph) (id : String) : List Edge := g.edges.filter (·.target = id)

def targets (g : Graph) (id : String) : List String := (g.outgoing id).map Edge.target

def sources (g : Graph) (id : String) : List String := (g.incoming id).map Edge.source

def dependencies (g : Graph) (id : String) : List Node :=
  let targets := g.targets id
  g.nodes.filter (targets.contains ·.id)

def dependents (g : Graph) (id : String) : List Node :=
  let sources := g.sources id
  g.nodes.filter (sources.contains ·.id)

def outgoingIndex (g : Graph) : Table String (List String) :=
  g.edges.foldl (fun t e => t.update e.source [] (· ++ [e.target])) []

def incomingIndex (g : Graph) : Table String (List String) :=
  g.edges.foldl (fun t e => t.update e.target [] (· ++ [e.source])) []

def incomingCounts (g : Graph) : Table String Nat :=
  g.edges.foldl (fun t e => t.adjust e.target (· + 1)) (g.ids.map (·,0))

def roots (g : Graph) : List String :=
  let reached := g.edges.map Edge.target
  g.ids.filter (!reached.contains ·)

def leaves (g : Graph) : List String :=
  let starting := g.edges.map Edge.source
  g.ids.filter (!starting.contains ·)

end Graph

end DepAudit
