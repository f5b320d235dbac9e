import DepAudit.Yaml.Token

/-! The layout of a document: tokens that only the indentation shows, and keys, which are known as such
when the value indicator behind them is met. -/
namespace DepAudit.Yaml

structure KeyPlace where
  /-- The number of tokens before it. -/
  position : Nat
  /-- Nothing but a key may start here. -/
  required : Bool
  place : Place

def maxKeyLength : Nat := 1024

def KeyPlace.isPast (k : KeyPlace) (p : Place) : Bool :=
  k.place.line ≠ p.line || p.index - k.place.index > maxKeyLength

structure Layout where
  /-- The tokens so far, the last one first, and their number. -/
  tokens : List Token := []
  count : Nat := 0
  /-- The columns of the open block collections, the innermost first. -/
  columns : List Nat := []
  /-- Where a key may have started in the innermost flow collection, and in those around it. -/
  key : Option KeyPlace := none
  outerKeys : List (Option KeyPlace) := []
  /-- Whether a key may start here. -/
  keyAllowed : Bool := true

namespace Layout

def inFlow (s : Layout) : Bool := !s.outerKeys.isEmpty

def add (s : Layout) (t : Token) : Layout :=
  { s with tokens := t :: s.tokens, count := s.count + 1 }

def insert (s : Layout) (position : Nat) (t : Token) : Layout :=
  { s with tokens := s.tokens.insertIdx (s.count - position) t, count := s.count + 1 }

def allowKey (s : Layout) (allowed : Bool) : Layout := { s with keyAllowed := allowed }

def innerColumn (s : Layout) : Nat := (s.columns.head?.map (· + 1)).getD 0

def dropKey (s : Layout) : Except Error Layout :=
  if s.key.any (·.required) then refuse .lostKey else .ok { s with key := none }

def markKey (s : Layout) (p : Place) : Except Error Layout :=
  if s.keyAllowed then do
    let s ← s.dropKey
    let required := !s.inFlow && s.columns.head? = some p.column
    return { s with key := some ⟨s.count,required,p⟩ }
  else .ok s

def dropPastKeys (s : Layout) (p : Place) : Except Error Layout :=
  let keep (k : Option KeyPlace) := k.filter fun k => !k.isPast p
  if (s.key :: s.outerKeys).any (·.any fun k => k.isPast p && k.required) then refuse .lostKey
  else .ok { s with key := keep s.key, outerKeys := s.outerKeys.map keep }

def closeWhile (s : Layout) (p : Nat → Bool) : Layout :=
  if s.inFlow then s
  else
    let closed := s.columns.takeWhile p
    closed.foldl (fun s _ => s.add .blockEnd)
      { s with columns := s.columns.drop closed.length }

def closeTo (s : Layout) (column : Nat) : Layout := s.closeWhile (column < ·)

def closeAll (s : Layout) : Layout := s.closeWhile fun _ => true

/-- Opens a block collection, with its token put in at a position, unless one is open at this column. -/
def openBlock (s : Layout) (column position : Nat) (t : Token) : Layout :=
  if s.innerColumn ≤ column then
    { s with columns := column :: s.columns }.insert position t
  else s

def boundary (s : Layout) (t : Token) : Except Error Layout := do
  return ((← s.closeAll.dropKey).allowKey false).add t

def leaf (s : Layout) (p : Place) : Except Error Layout := do
  return (← s.markKey p).allowKey false

def openFlow (s : Layout) (p : Place) (t : Token) : Except Error Layout := do
  let s ← s.markKey p
  return { s with key := none, outerKeys := s.key :: s.outerKeys, keyAllowed := true }.add t

def closeFlow (s : Layout) (t : Token) : Except Error Layout :=
  match s.outerKeys with
  | [] => refuse .unexpected
  | key :: outer => .ok <| { s with key, outerKeys := outer, keyAllowed := false }.add t

def flowEntry (s : Layout) : Except Error Layout := do
  return ((← s.dropKey).allowKey true).add .flowEntry

def opening (s : Layout) (p : Place) (collection t : Token) (keyAllowed : Bool) :
    Except Error Layout :=
  if s.inFlow then return ((← s.dropKey).allowKey keyAllowed).add t
  else if s.keyAllowed then
    return ((← (s.openBlock p.column s.count collection).dropKey).allowKey keyAllowed).add t
  else refuse .misplaced

def blockEntry (s : Layout) (p : Place) : Except Error Layout :=
  s.opening p .blockSequence .blockEntry true

def markedKey (s : Layout) (p : Place) : Except Error Layout :=
  s.opening p .blockMap .key (!s.inFlow)

def value (s : Layout) (p : Place) : Except Error Layout :=
  match s.key with
  | none => s.opening p .blockMap .value (!s.inFlow)
  | some k =>
    let s := { s with key := none, keyAllowed := false }.insert k.position .key
    let s := if s.inFlow then s else s.openBlock k.place.column k.position .blockMap
    .ok (s.add .value)

end Layout

end DepAudit.Yaml
