import DepAudit.Yaml.Excerpt
import DepAudit.Yaml.Object

/-! Documents: what the nodes of a text stand for, and the values that one takes out of it. A collection
may be part of itself, and is then only unfolded some times. -/
namespace DepAudit.Yaml

structure Document where
  objects : Array (Option Object)
  root : NodeId

namespace Document

def object (d : Document) (id : NodeId) : Object := d.objects[id]?.join.getD (.leaf .null)

def kind? : Object → Option CollectionKind
  | .leaf _ => none
  | .seq _ | .pairs _ => some .seq
  | .map _ => some .map
  | .set _ => some .set

abbrev Unfolded := Array (Option Value)

/-- Unfolds a collection by its parts; also tells whether it is whole, so that no part of it was met
again inside itself. -/
def parts {m : Type → Type} [Monad m] (part : NodeId → m (Value × Bool)) :
    Object → m (Value × Bool)
  | .leaf v => return (v,true)
  | .seq items => do
    let vs ← items.mapM part
    return (.seq (vs.map Prod.fst),vs.all Prod.snd)
  | .pairs items => do
    let vs ← items.mapM fun p => return (← part p.1,← part p.2)
    return (.seq (vs.map fun p => .pair p.1.1 p.2.1),vs.all fun p => p.1.2 && p.2.2)
  | .map pairs => do
    let vs ← pairs.mapM fun p => return (← part p.1,← part p.2)
    return (.map (vs.map fun p => (p.1.1,p.2.1)),vs.all fun p => p.1.2 && p.2.2)
  | .set members => do
    let vs ← members.mapM part
    return (.set (vs.map Prod.fst),vs.all Prod.snd)

/-- Unfolds a node that lies inside the nodes `around`. No collection is unfolded more than `rounds`
times inside itself. The number bounds the nesting. -/
def unfold (d : Document) (rounds : Nat) :
    Nat → (around : List NodeId) → NodeId → StateM Unfolded (Value × Bool)
  | 0,_,_ => return (.null,false)
  | n + 1,around,id => do
    if let some v := (← get)[id]?.join then return (v,true)
    match kind? (d.object id) with
    | some kind => if rounds ≤ around.count id then return (.enclosing kind,false)
    | none => pure ()
    let (v,isWhole) ← parts (d.unfold rounds n (id :: around)) (d.object id)
    if isWhole then modify fun found => found.setIfInBounds id (some v)
    return (v,isWhole)

def value (d : Document) (rounds : Nat) (id : NodeId) : Value :=
  let empty : Unfolded := Array.replicate d.objects.size none
  ((d.unfold rounds (rounds * d.objects.size + 2) [] id).run empty).1.1

def find? (d : Document) (name : String) : Option NodeId :=
  match d.object d.root with
  | .map pairs => (pairs.find? fun p =>
      match d.object p.1 with
      | .leaf (.text s) => s = name
      | _ => false).map Prod.snd
  | _ => none

def isMap (d : Document) : Bool :=
  match d.object d.root with
  | .map _ => true
  | _ => false

end Document

def read (content : ByteArray) : Except Error Document := do
  let (root,nodes) ← Node.ofTokens (← tokens content)
  return ⟨← Object.ofNodes root nodes,root⟩

end DepAudit.Yaml
