import DepAudit.Numeral
import DepAudit.Value

/-! Values as JSON, and which ones have no such form. -/
namespace DepAudit

inductive RecordFault where
  /-- A date, a sequence of bytes or a set. -/
  | noForm
  /-- Keys that have no order among them. -/
  | mixedKeys
  /-- An integer with more digits than are written. -/
  | longNumeral
  /-- A value that holds itself. -/
  | endless
  deriving DecidableEq, Repr

namespace Value

def isShort (n : Int) : Bool := n.natAbs < Nat.pow 10 Numeral.maxDigits

def floatKey (x : Float) : String :=
  if Binary64.isFinite x then Decimal.render Decimal.plain x
  else if x.isNaN then "NaN"
  else if x < 0 then "-Infinity"
  else "Infinity"

def keyText : Value → Except RecordFault String
  | text s => .ok s
  | halves codes => .ok codes.shown
  | null => .ok "null"
  | bool b => .ok (if b then "true" else "false")
  | int n => if isShort n then .ok (toString n) else .error .longNumeral
  | float x => .ok (floatKey x)
  | _ => .error .noForm

def isTextKey : Value → Bool
  | text _ | halves _ => true
  | _ => false

def keysOrdered (keys : List Value) : Bool :=
  keys.length ≤ 1 || keys.all isTextKey || keys.all (·.number?.isSome)

mutual

def toJson : Value → Except RecordFault Json
  | null => .ok .null
  | bool b => .ok (.bool b)
  | int n => if isShort n then .ok (.int n) else .error .longNumeral
  | float x => .ok (.float x)
  | text s => .ok (.str s)
  | halves codes => .ok (.str codes.shown)
  | bytes _ | timestamp _ | set _ => .error .noForm
  | seq items => (toItems items).map .arr
  | map pairs => do
    let members ← toMembers pairs
    if keysOrdered (pairs.map Prod.fst) then return .obj members else throw .mixedKeys
  | pair key value => do return .arr [← toJson key,← toJson value]
  | enclosing _ => .error .endless

def toItems : List Value → Except RecordFault (List Json)
  | [] => .ok []
  | v :: vs => do return (← toJson v) :: (← toItems vs)

def toMembers : List (Value × Value) → Except RecordFault (List (String × Json))
  | [] => .ok []
  | (k,v) :: ps => do return (← keyText k,← toJson v) :: (← toMembers ps)

end

end Value

end DepAudit
