/-! Maps that keep the order in which their keys were first set, as lists of pairs. -/
namespace DepAudit

abbrev Table (α : Type) (β : Type) := List (α × β)

namespace Table

variable {α β : Type} [DecidableEq α]

def get? (t : Table α β) (key : α) : Option β :=
  match t with
  | [] => none
  | (k,v) :: rest => if k = key then some v else get? rest key

def set (t : Table α β) (key : α) (value : β) : Table α β :=
  match t with
  | [] => [(key,value)]
  | (k,v) :: rest => if k = key then (k,value) :: rest else (k,v) :: set rest key value

def update (t : Table α β) (key : α) (default : β) (f : β → β) : Table α β :=
  t.set key (f ((t.get? key).getD default))

def adjust (t : Table α β) (key : α) (f : β → β) : Table α β :=
  t.map fun p => if p.1 = key then (p.1,f p.2) else p

def ofPairs (pairs : List (α × β)) : Table α β := pairs.foldl (fun t p => t.set p.1 p.2) []

def keys (t : Table α β) : List α := t.map Prod.fst

def setAll (t : Table α β) (others : List (α × β)) : Table α β :=
  others.foldl (fun t p => t.set p.1 p.2) t

def group (pairs : List (α × β)) : Table α (List β) :=
  pairs.foldl (fun t p => t.update p.1 [] (· ++ [p.2])) []

end Table

end DepAudit
