import DepAudit.Decimal
import DepAudit.Json.Basic
import DepAudit.Scalar
import DepAudit.Text.Codes

/-! Values of a settings file. Settings are kept as they are given; whether a value suits is decided
where it is used. -/
namespace DepAudit

structure Clock where
  hour : Nat
  minute : Nat
  second : Nat
  microsecond : Nat
  zone : Option Int
  deriving DecidableEq, Repr

structure Timestamp where
  year : Nat
  month : Nat
  day : Nat
  clock : Option Clock
  deriving DecidableEq, Repr

inductive CollectionKind where
  | seq
  | map
  | set
  deriving DecidableEq, Repr

inductive Value where
  | null
  | bool (b : Bool)
  | int (n : Int)
  | float (x : Float)
  | text (s : String)
  /-- A text in which halves of pairs stand. -/
  | halves (codes : Text.Codes)
  | bytes (bs : List UInt8)
  | timestamp (t : Timestamp)
  | seq (items : List Value)
  | map (pairs : List (Value × Value))
  | set (members : List Value)
  /-- A key with its value, where they are kept in a sequence. -/
  | pair (key value : Value)
  /-- A collection that encloses this place is met again. -/
  | enclosing (kind : CollectionKind)
  deriving Inhabited

inductive SettingError where
  /-- A value of another type is needed. -/
  | wrongType
  /-- A section of settings is needed. -/
  | noSection
  /-- A number is greater than what one calculates with. -/
  | tooGreat
  /-- A path is needed, and the text is none. -/
  | noPath
  deriving DecidableEq, Repr

inductive Number where
  | int (n : Int)
  | float (x : Float)

namespace Number

def isBelow (bound : Number) (n : Int) : Bool :=
  match bound with
  | int m => decide (m < n)
  | float x => Binary64.intExceeds n x

def toFloat? : Number → Option Float
  | int n => if Binary64.isFinite (Binary64.ofInt n) then some (Binary64.ofInt n) else none
  | float x => some x

end Number

namespace Value

mutual

def ofJson : Json → Value
  | .null => null
  | .bool b => bool b
  | .int n => int n
  | .float x => float x
  | .str s => text s
  | .arr items => seq (ofItems items)
  | .obj members => map (ofMembers members)

def ofItems : List Json → List Value
  | [] => []
  | v :: vs => ofJson v :: ofItems vs

def ofMembers : List (String × Json) → List (Value × Value)
  | [] => []
  | (name,v) :: ms => (text name,ofJson v) :: ofMembers ms

end

def ofCodes (codes : Text.Codes) : Value :=
  match codes.text? with
  | some s => text s
  | none => halves codes

def number? : Value → Option Number
  | bool b => some (.int (if b then 1 else 0))
  | int n => some (.int n)
  | float x => some (.float x)
  | _ => none

def number (v : Value) : Except SettingError Number :=
  match v.number? with
  | some n => .ok n
  | none => .error .wrongType

def amount (v : Value) : Except SettingError Float := do
  match (← v.number).toFloat? with
  | some x => return x
  | none => throw .tooGreat

/-- What a value is made of, one by one: the items of a sequence, the keys of a map, the members of a
set, the bytes and the characters of a text. -/
def elements : Value → Except SettingError (List Value)
  | seq items => .ok items
  | map pairs => .ok (pairs.map Prod.fst)
  | set members => .ok members
  | pair key value => .ok [key,value]
  | text s => .ok (s.toList.map fun c => text (String.singleton c))
  | halves codes => .ok (codes.map fun n => ofCodes [n])
  | bytes bs => .ok (bs.map fun b => int b.toNat)
  | _ => .error .wrongType

/-- Whether a value switches something on: all but nothing, false, zero and what is empty. -/
def isOn : Value → Bool
  | null => false
  | bool b => b
  | int n => n != 0
  | float x => !(x == 0.0)
  | text s => !s.isEmpty
  | halves codes => !codes.isEmpty
  | bytes bs => !bs.isEmpty
  | timestamp _ | pair .. | enclosing _ => true
  | seq items | set items => !items.isEmpty
  | map pairs => !pairs.isEmpty

end Value

end DepAudit
