import DepAudit.Value

/-! The order in which a set of numbers gives its members: each has a place in a table by its residue,
and goes on to a later place where that one is taken. Numbers that are equal have the same residue. -/
namespace DepAudit.NumberSet

/-- Residues are taken to this modulus, so that doubling sixty-one times changes nothing. -/
def modulus : Nat := Nat.pow 2 61 - 1

def residue? : Number → Option Int
  | .int n => some (n.sign * (n.natAbs % modulus : Nat))
  | .float x =>
    if x.isNaN then none
    else if !Binary64.isFinite x then some (if x < 0 then -314159 else 314159)
    else
      let p := Binary64.parts x
      let n := p.significand * Nat.pow 2 (p.exponent % 61).toNat % modulus
      some (if p.negative then -(n : Int) else n)

/-- The residue as a word of sixty-four bits. The word for minus one is not used. -/
def word (residue : Int) : Nat :=
  let r := if residue = -1 then -2 else residue
  (r % (Nat.pow 2 64 : Nat)).toNat

/-- The number of places in the table of a set: a power of two, and more than twice the members unless
there are few. -/
def tableSize (members : Nat) : Nat :=
  if members ≤ 4 then 8 else Nat.pow 2 (Nat.log2 (2 * members) + 1)

/-- Places that follow each other are tried this many times, where they lie within the table. -/
def steps : Nat := 9

def place? (taken : Nat → Bool) (size : Nat) : Nat → (start rest : Nat) → Option Nat
  | 0,_,_ => none
  | n + 1,start,rest =>
    let near := if start + steps < size then List.range (steps + 1) else [0]
    match near.find? fun d => !taken (start + d) with
    | some d => some (start + d)
    | none => place? taken size n ((start * 5 + 1 + rest / 32) % size) (rest / 32)

def fill {α : Type} (size : Nat) (members : List (Nat × α)) : List (Nat × α) :=
  members.foldl (fun table m =>
    match place? (fun i => table.any (·.1 = i)) size (size + 64) (m.1 % size) m.1 with
    | some i => (i,m.2) :: table
    | none => table) []

/-- The members in the order of their places. A set with other members than numbers keeps the order in
which they came. -/
def order {α : Type} (number? : α → Option Number) (members : List α) : List α :=
  match members.mapM fun m => (number? m).bind fun n => (residue? n).map fun r => (word r,m) with
  | some words =>
    ((fill (tableSize members.length) words).mergeSort fun a b => decide (a.1 ≤ b.1)).map Prod.snd
  | none => members

end DepAudit.NumberSet
