import DepAudit.Yaml.Tag
import DepAudit.Yaml.Tokens

/-! The nodes of a document: the graph that its tokens spell. Nodes stand in a table and are named by
their places in it, so that an alias is the same node again, even inside of what it stands for. -/
namespace DepAudit.Yaml

abbrev NodeId := Nat

inductive Node where
  | scalar (tag : Tag) (text : Text.Codes)
  | seq (tag : Tag) (items : List NodeId)
  | map (tag : Tag) (pairs : List (NodeId × NodeId))

namespace Node

def empty : Node := scalar .null []

def tag : Node → Tag
  | scalar t _ => t
  | seq t _ => t
  | map t _ => t

end Node

structure Source where
  tokens : List Token
  stop : Option Error
  nodes : Array Node := #[]
  anchors : List (String × NodeId) := []
  handles : List (String × String) := []

abbrev Reader := StateT Source (Except Error)

namespace Reader

def refuse {α : Type} (fault : Fault) : Reader α := throw (.invalid fault)

def peek : Reader (Option Token) := do
  match (← get).tokens,(← get).stop with
  | t :: _,_ => return some t
  | [],none => return none
  | [],some e => throw e

def drop : Reader Unit := modify fun s => { s with tokens := s.tokens.drop 1 }

def expect (t : Token) : Reader Unit := do
  if (← peek) = some t then drop else refuse .unexpected

def accept (t : Token) : Reader Bool := do
  if (← peek) = some t then
    drop
    return true
  else return false

def add (anchor : Option String) (node : Node) : Reader NodeId :=
  modifyGet fun s =>
    let id := s.nodes.size
    (id,{ s with
      nodes := s.nodes.push node
      anchors := (anchor.map (·,id)).toList ++ s.anchors })

def collection (anchor : Option String) (empty : Node) (parts : Reader Node) : Reader NodeId := do
  let id ← add anchor empty
  let node ← parts
  modify fun s => { s with nodes := s.nodes.setIfInBounds id node }
  return id

def omitted : Reader NodeId := add none .empty

def nodeUnless (ends : List Token) (node : Reader NodeId) : Reader NodeId := do
  match ← peek with
  | some t => if ends.contains t then omitted else node
  | none => node

def valueUnless (ends : List Token) (node : Reader NodeId) : Reader NodeId := do
  if ← accept .value then nodeUnless ends node else omitted

/-- The entries of a block sequence. In all of these lists the number bounds the entries. -/
def blockItems (node : Reader NodeId) : Nat → Reader (List NodeId)
  | 0 => refuse .unexpected
  | n + 1 => do
    if ← accept .blockEntry then
      let item ← nodeUnless [.blockEntry,.blockEnd] node
      return item :: (← blockItems node n)
    else
      expect .blockEnd
      return []

def plainItems (node : Reader NodeId) : Nat → Reader (List NodeId)
  | 0 => refuse .unexpected
  | n + 1 => do
    if ← accept .blockEntry then
      let item ← nodeUnless [.blockEntry,.key,.value,.blockEnd] node
      return item :: (← plainItems node n)
    else return []

def blockPairs (node : Reader NodeId) : Nat → Reader (List (NodeId × NodeId))
  | 0 => refuse .unexpected
  | n + 1 => do
    if ← accept .key then
      let ends := [.key,.value,.blockEnd]
      let key ← nodeUnless ends node
      let value ← valueUnless ends node
      return (key,value) :: (← blockPairs node n)
    else
      expect .blockEnd
      return []

def flowItem (node : Reader NodeId) : Reader NodeId := do
  if ← accept .key then
    let key ← nodeUnless [.value,.flowEntry,.flowSequenceEnd] node
    let value ← valueUnless [.flowEntry,.flowSequenceEnd] node
    add none (.map .map [(key,value)])
  else node

def flowItems (node : Reader NodeId) (first : Bool) : Nat → Reader (List NodeId)
  | 0 => refuse .unexpected
  | n + 1 => do
    if ← accept .flowSequenceEnd then return []
    unless first do expect .flowEntry
    if ← accept .flowSequenceEnd then return []
    let item ← flowItem node
    return item :: (← flowItems node false n)

def flowPairs (node : Reader NodeId) (first : Bool) : Nat → Reader (List (NodeId × NodeId))
  | 0 => refuse .unexpected
  | n + 1 => do
    if ← accept .flowMapEnd then return []
    unless first do expect .flowEntry
    if ← accept .flowMapEnd then return []
    let pair ← if ← accept .key then do
        let key ← nodeUnless [.value,.flowEntry,.flowMapEnd] node
        pure (key,← valueUnless [.flowEntry,.flowMapEnd] node)
      else pure (← node,← omitted)
    return pair :: (← flowPairs node false n)

/-- The name of a tag in full; an exclamation mark alone asks for the tag of the text's shape. -/
def tagName (handle : Option String) (suffix : String) : Reader String := do
  match handle with
  | none => return suffix
  | some h =>
    match (← get).handles.lookup h with
    | some full => return full ++ suffix
    | none => refuse .unknownTag

def properties : Reader (Option String × Option String) := do
  match ← peek with
  | some (.anchor name) =>
    drop
    match ← peek with
    | some (.tag handle suffix) =>
      drop
      return (some name,← tagName handle suffix)
    | _ => return (some name,none)
  | some (.tag handle suffix) =>
    drop
    let next ← peek
    let anchor ← match next with
      | some (.anchor name) => do
        drop
        pure (some name)
      | _ => pure none
    return (anchor,← tagName handle suffix)
  | _ => return (none,none)

def anchored (name : String) : Reader NodeId := do
  match (← get).anchors.lookup name with
  | some id => return id
  | none => refuse .unknownAnchor

inductive Setting where
  | flow
  | block
  /-- A block collection, or a sequence that is not indented. -/
  | underKey
  deriving DecidableEq

def scalarTag (tag : Option String) (plain : Bool) (text : Text.Codes) : Tag :=
  match tag with
  | none => if plain then .ofShape text else .text
  | some "!" => .ofShape text
  | some name => .ofName name

def collectionTag (tag : Option String) (default : Tag) : Tag :=
  match tag with
  | none | some "!" => default
  | some name => .ofName name

def content (bound : Nat) (inner : Setting → Reader NodeId) (setting : Setting)
    (anchor tag : Option String) : Reader NodeId := do
  let seq (items : Reader (List NodeId)) :=
    let tag := collectionTag tag .seq
    collection anchor (.seq tag []) (items.map (.seq tag))
  let map (pairs : Reader (List (NodeId × NodeId))) :=
    let tag := collectionTag tag .map
    collection anchor (.map tag []) (pairs.map (.map tag))
  let omittedHere :=
    if anchor.isSome || tag.isSome then add anchor (.scalar (scalarTag tag true []) [])
    else refuse .unexpected
  match ← peek with
  | some (.scalar plain text) =>
    drop
    add anchor (.scalar (scalarTag tag plain text) text)
  | some .flowSequence =>
    drop
    seq (flowItems (inner .flow) true bound)
  | some .flowMap =>
    drop
    map (flowPairs (inner .flow) true bound)
  | some t =>
    if t = .blockEntry && setting = .underKey then seq (plainItems (inner .block) bound)
    else if t = .blockSequence && setting ≠ .flow then
      drop
      seq (blockItems (inner .block) bound)
    else if t = .blockMap && setting ≠ .flow then
      drop
      map (blockPairs (inner .underKey) bound)
    else omittedHere
  | none => omittedHere

/-- A node whose parts are nested at most `depth` deep. What follows the properties is looked at before
the anchor is. -/
def node (bound : Nat) : (depth : Nat) → Setting → Reader NodeId
  | 0,_ => throw .tooDeep
  | depth + 1,setting => do
    match ← peek with
    | some (.alias_ name) =>
      drop
      anchored name
    | _ =>
      let (anchor,tag) ← properties
      let _ ← peek
      let known := (← get).anchors
      if anchor.any fun name => (known.lookup name).isSome then refuse .repeatedAnchor
      content bound (node bound depth) setting anchor tag

def maxDepth : Nat := 485

/-- Reads the directives before a document, of which each may be given once. The number bounds them. -/
def directives : (versioned : Bool) → Nat → Reader Unit
  | _,0 => refuse .unexpected
  | versioned,n + 1 => do
    match ← peek with
    | some (.directive d) =>
      drop
      match d with
      | .version major _ =>
        if versioned || major ≠ 1 then refuse .badDirective
        directives true n
      | .handle short full =>
        if ((← get).handles.lookup short).isSome then refuse .badDirective
        modify fun s => { s with handles := (short,full) :: s.handles }
        directives versioned n
      | .reserved _ => directives versioned n
    | _ => return ()

def standardHandles : List (String × String) := [("!","!"),("!!",Tag.standard)]

def opening (bound : Nat) : Reader Unit := do
  modify fun s => { s with handles := [] }
  directives false bound
  modify fun s => { s with handles := s.handles ++ standardHandles }
  expect .documentStart

def skipEnds : Nat → Reader Unit
  | 0 => return ()
  | n + 1 => do if ← accept .documentEnd then skipEnds n

def ending (bound : Nat) : Reader Unit := do
  skipEnds bound
  if (← peek).isSome then
    opening bound
    refuse .unexpected

def isBefore : Token → Bool
  | .directive _ | .documentStart => true
  | _ => false

def isOutside (t : Token) : Bool := isBefore t || t = .documentEnd

/-- The one document of a text, which may be left out. No collection has more nodes than there are
tokens. -/
def document : Reader NodeId := do
  let bound := (← get).tokens.length + 1
  let top := node bound maxDepth .block
  match ← peek with
  | none => omitted
  | some first =>
    if isBefore first then opening bound
    let next ← peek
    let root ← if isBefore first && next.all isOutside then omitted else top
    ending bound
    return root

end Reader

def Node.ofTokens (run : TokenRun) : Except Error (NodeId × Array Node) :=
  let source : Source := { tokens := run.tokens, stop := run.stop, handles := Reader.standardHandles }
  (Reader.document.run source).map fun r => (r.1,r.2.nodes)

end DepAudit.Yaml
