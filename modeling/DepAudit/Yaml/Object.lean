import DepAudit.NumberSet
import DepAudit.Scalar
import DepAudit.Yaml.Node
import DepAudit.Yaml.ScalarValue

/-! What the nodes of a document stand for. Scalars are read when they are met, collections are put off
and filled round by round; which fault of a document is found depends on this order. Merged maps are
laid under the map that names them, and of pairs with the same key the last one counts. -/
namespace DepAudit.Yaml

inductive Object where
  | leaf (value : Value)
  | seq (items : List NodeId)
  /-- A sequence of pairs. -/
  | pairs (items : List (NodeId × NodeId))
  | map (pairs : List (NodeId × NodeId))
  | set (members : List NodeId)

/-- The nodes of a document, the objects of those that were started, and the collections to be filled in
the next round, the last one first. -/
structure Builder where
  nodes : Array Node
  objects : Array (Option Object)
  waiting : List NodeId := []

abbrev Building := StateT Builder (Except Error)

namespace Builder

def refuse {α : Type} (fault : Fault) : Building α := throw (.invalid fault)

def node (b : Builder) (id : NodeId) : Node := b.nodes.getD id .empty

def tag (b : Builder) (id : NodeId) : Tag := (b.node id).tag

def object? (b : Builder) (id : NodeId) : Option Object := b.objects[id]?.join

def setObject (id : NodeId) (object : Object) : Building Unit :=
  modify fun b => { b with objects := b.objects.setIfInBounds id (some object) }

def setNode (id : NodeId) (node : Node) : Building Unit :=
  modify fun b => { b with nodes := b.nodes.setIfInBounds id node }

def maxChain : Nat := 960

def text : Nat → NodeId → Building Text.Codes
  | 0,_ => throw .tooDeep
  | n + 1,id => do
    let b ← get
    match b.node id with
    | .scalar _ codes => return codes
    | .seq .. => refuse .wrongKind
    | .map _ pairs =>
      match pairs.find? fun p => b.tag p.1 = .value with
      | some p => text n p.2
      | none => refuse .wrongKind

def emptyObject? : Tag → Option Object
  | .seq => some (.seq [])
  | .ordered | .pairs => some (.pairs [])
  | .map => some (.map [])
  | .set => some (.set [])
  | _ => none

/-- The value of a node whose tag asks for a scalar. Of a timestamp, the node itself is looked at. -/
def leaf (id : NodeId) : Building Value := do
  match (← get).node id with
  | .scalar tag codes => liftM (scalarValue tag codes)
  | node =>
    match node.tag with
    | .merge | .value | .other _ => refuse .unknownTag
    | tag =>
      let codes ← text maxChain id
      if tag = .timestamp then throw (.scalar .noText)
      liftM (scalarValue tag codes)

/-- Reads a scalar, or puts a collection off; what was met before stays as it is. -/
def start (id : NodeId) : Building Unit := do
  let b ← get
  if (b.object? id).isNone then
    match emptyObject? (b.tag id) with
    | some object =>
      setObject id object
      modify fun b => { b with waiting := id :: b.waiting }
    | none => setObject id (.leaf (← leaf id))

def takeMerge (id : NodeId) : Building (Option NodeId) := do
  let b ← get
  match b.node id with
  | .map tag pairs =>
    let own := pairs.takeWhile fun p => b.tag p.1 ≠ .merge
    match pairs.drop own.length with
    | [] => return none
    | merge :: rest =>
      setNode id (.map tag (own ++ rest))
      return some merge.2
  | _ => return none

/-- Puts pairs before those of a map, whose keys for its own value become texts. -/
def putMerged (id : NodeId) (merged : List (NodeId × NodeId)) : Building Unit := do
  match (← get).node id with
  | .map tag pairs =>
    setNode id (.map tag (merged ++ pairs))
    for (key,_) in pairs do
      match (← get).node key with
      | .scalar .value codes => setNode key (.scalar .text codes)
      | .seq .value items => setNode key (.seq .text items)
      | .map .value pairs => setNode key (.map .text pairs)
      | _ => pure ()
  | _ => return ()

def mergedPairs (flatten : NodeId → Building Unit) (id : NodeId) :
    Building (List (NodeId × NodeId)) := do
  match (← get).node id with
  | .map .. =>
    flatten id
    match (← get).node id with
    | .map _ pairs => return pairs
    | _ => return []
  | _ => refuse .badMerge

/-- The pairs that are merged in from a map, or from maps in a sequence, of which earlier ones override
later ones. -/
def mergedFrom (flatten : NodeId → Building Unit) (id : NodeId) :
    Building (List (NodeId × NodeId)) := do
  match (← get).node id with
  | .seq _ items =>
    let taken ← items.mapM (mergedPairs flatten)
    return taken.reverse.flatten
  | _ => mergedPairs flatten id

def takeMerges (flatten : NodeId → Building Unit) (id : NodeId) :
    Nat → Building (List (NodeId × NodeId))
  | 0 => return []
  | n + 1 => do
    match ← takeMerge id with
    | none => return []
    | some source =>
      let taken ← mergedFrom flatten source
      return taken ++ (← takeMerges flatten id n)

def flatten : Nat → NodeId → Building Unit
  | 0,_ => throw .tooDeep
  | n + 1,id => do
    match (← get).node id with
    | .map _ pairs => putMerged id (← takeMerges (flatten n) id pairs.length)
    | _ => return ()

def sameNumber : Number → Number → Bool
  | .int m,.int n => m = n
  | .float x,.float y => x == y
  | .int n,.float x => Binary64.toRat? x = some (n : Rat)
  | .float x,.int n => Binary64.toRat? x = some (n : Rat)

def dayNumber (year month day : Nat) : Nat :=
  let before := year - 1
  let months := (List.range (month - 1)).foldl (fun n m => n + daysOfMonth year (m + 1)) 0
  365 * before + before / 4 - before / 100 + before / 400 + months + day

def instant (t : Timestamp) (c : Clock) (zone : Int) : Int :=
  let minutes := (dayNumber t.year t.month t.day * 24 + c.hour) * 60 + c.minute
  ((minutes * 60 + c.second : Nat) - zone) * 1000000 + c.microsecond

/-- Whether two times are the same. With zones, the same instant is the same time. -/
def sameTime (t u : Timestamp) : Bool :=
  match t.clock,u.clock with
  | some ⟨h,m,s,f,some z⟩,some ⟨h',m',s',f',some z'⟩ =>
    instant t ⟨h,m,s,f,none⟩ z = instant u ⟨h',m',s',f',none⟩ z'
  | _,_ => t = u

/-- Whether two values are the same key. Truth values are the same as one and zero. -/
def sameValue (a b : Value) : Bool :=
  match a,b with
  | .null,.null => true
  | .text s,.text t => s = t
  | .halves s,.halves t => s = t
  | .bytes s,.bytes t => s = t
  | .timestamp t,.timestamp u => sameTime t u
  | _,_ =>
    match a.number?,b.number? with
    | some m,some n => sameNumber m n
    | _,_ => false

/-- Whether a node is the word for no number, which always stands for the same key. Any other way to
write no number makes a key that is only the same as itself. -/
def isNoNumber : Node → Bool
  | .scalar .float codes =>
    (codes.text?.map fun s => Text.lower (s.toList.filter (· ≠ '_'))) = some ".nan".toList
  | _ => false

def sameKey (b : Builder) (j k : NodeId) : Bool :=
  j = k || isNoNumber (b.node j) && isNoNumber (b.node k) ||
    match b.object? j,b.object? k with
    | some (.leaf v),some (.leaf w) => sameValue v w
    | _,_ => false

def setPair (b : Builder) (key value : NodeId) :
    List (NodeId × NodeId) → List (NodeId × NodeId)
  | [] => [(key,value)]
  | (k,v) :: rest =>
    if b.sameKey k key then (k,value) :: rest else (k,v) :: setPair b key value rest

def startPair (pair : NodeId × NodeId) : Building Unit := do
  start pair.1
  match (← get).object? pair.1 with
  | some (.leaf _) => start pair.2
  | _ => refuse .badKey

def pairsOf (id : NodeId) : Building (List (NodeId × NodeId)) := do
  flatten maxChain id
  match (← get).node id with
  | .map _ pairs =>
    pairs.forM startPair
    let b ← get
    return pairs.foldl (fun m p => b.setPair p.1 p.2 m) []
  | _ => refuse .wrongKind

def entry (id : NodeId) : Building (NodeId × NodeId) := do
  match (← get).node id with
  | .map _ [(key,value)] =>
    start key
    start value
    return (key,value)
  | _ => refuse .badPair

def number? (b : Builder) (id : NodeId) : Option Number :=
  match b.object? id with
  | some (.leaf v) => v.number?
  | _ => none

def fill (id : NodeId) : Building Unit := do
  match (← get).node id with
  | .map .map _ => setObject id (.map (← pairsOf id))
  | .map .set _ =>
    let members := (← pairsOf id).map Prod.fst
    setObject id (.set (NumberSet.order (← get).number? members))
  | .seq .seq items =>
    items.forM start
    setObject id (.seq items)
  | .seq .ordered items | .seq .pairs items => setObject id (.pairs (← items.mapM entry))
  | _ => refuse .wrongKind

/-- Fills collections round by round, each time those that were put off in the round before. The number
bounds the rounds. -/
def fillAll : Nat → Building Unit
  | 0 => return ()
  | n + 1 => do
    let waiting := (← get).waiting.reverse
    unless waiting.isEmpty do
      modify fun b => { b with waiting := [] }
      waiting.forM fill
      fillAll n

end Builder

def Object.ofNodes (root : NodeId) (nodes : Array Node) : Except Error (Array (Option Object)) := do
  let build : Building Unit := do
    Builder.start root
    Builder.fillAll (nodes.size + 1)
  let (_,b) ← build.run ⟨nodes,Array.replicate nodes.size none,[]⟩
  return b.objects

end DepAudit.Yaml
