import DepAudit.Text.Base64
import DepAudit.Text.Figures
import DepAudit.Text.LowerCase
import DepAudit.Value
import DepAudit.Yaml.Error
import DepAudit.Yaml.Tag

/-! The values of scalars. A tag may be given to any text, so that the text need not have the shape of
a value of that tag. -/
namespace DepAudit.Yaml
open Text (Codes Figures.int? Figures.double?)

def noValue {α : Type} (fault : ScalarFault) : Except Error α := .error (.scalar fault)

def signed (negative : Bool) (n : Int) : Int := if negative then -n else n

def magnitude (text : Codes) : Except Error (Bool × List Char) :=
  match text.text?.map fun s => s.toList.filter (· ≠ '_') with
  | none => noValue .notNumber
  | some [] => noValue .blank
  | some (c :: cs) => .ok (c = '-',unsigned (c :: cs))

def whole (base : Nat) (cs : List Char) : Except Error Int :=
  match Figures.int? base cs with
  | some n => .ok n
  | none => noValue .notNumber

def int (text : Codes) : Except Error Int := do
  let (negative,cs) ← magnitude text
  (signed negative ·) <$> match cs with
    | [] => noValue .blank
    | '0' :: 'b' :: cs => whole 2 cs
    | '0' :: 'x' :: cs => whole 16 cs
    | '0' :: cs => whole 8 ('0' :: cs)
    | cs =>
      if cs.contains ':' then do
        let parts ← (cs.splitOn ':').mapM (whole 10)
        return parts.foldl (fun n part => 60 * n + part) 0
      else whole 10 cs

def decimal (cs : List Char) : Except Error Float :=
  match Figures.double? cs with
  | some x => .ok x
  | none => noValue .notNumber

/-- A sum of parts, each times its power of sixty, the last part first. The powers have to be doubles. -/
def sexagesimal (parts : List Float) : Except Error Float := do
  let (sum,_) ← parts.reverse.foldlM (fun (s : Float × Nat) part =>
    let power := Binary64.ofInt s.2
    if Binary64.isFinite power then .ok (s.1 + part * power,60 * s.2) else noValue .tooGreat)
    (0.0,1)
  return sum

def float (text : Codes) : Except Error Float := do
  let (negative,cs) ← magnitude text
  let cs := Text.lower cs
  Binary64.withSign negative <$>
    if cs = ".inf".toList then return 1.0 / 0.0
    else if cs = ".nan".toList then return 0.0 / 0.0
    else if cs.contains ':' then (cs.splitOn ':').mapM decimal >>= sexagesimal
    else decimal cs

def isLeapYear (year : Nat) : Bool := year % 4 = 0 && (year % 100 ≠ 0 || year % 400 = 0)

def daysOfMonth (year : Nat) : Nat → Nat
  | 2 => if isLeapYear year then 29 else 28
  | 4 | 6 | 9 | 11 => 30
  | _ => 31

def zoneBound : Nat := 86400

def isValid (t : Timestamp) : Bool :=
  1 ≤ t.year && 1 ≤ t.month && t.month ≤ 12 && 1 ≤ t.day && t.day ≤ daysOfMonth t.year t.month &&
    t.clock.all fun c => c.hour < 24 && c.minute < 60 && c.second < 60 &&
      c.zone.all fun z => z.natAbs < zoneBound

def number (digits : List Char) : Nat := Nat.ofDigitChars 10 digits 0

def TimestampText.offset (t : TimestampText) : Option Int :=
  t.zone.map fun
    | none => 0
    | some (sign,hour,minute) =>
      signed (sign = '-') (number hour * 3600 + number minute * 60 : Nat)

def microseconds (fraction : List Char) : Nat :=
  number (fraction.take 6) * Nat.pow 10 (6 - (fraction.take 6).length)

def TimestampText.toTimestamp (t : TimestampText) : Timestamp where
  year := number t.year
  month := number t.month
  day := number t.day
  clock := t.clock.map fun (hour,minute,second) =>
    ⟨number hour,number minute,number second,microseconds t.fraction,t.offset⟩

def timestamp (text : Codes) : Except Error Timestamp :=
  match text.text?.bind fun s => timestampText? (withoutLineEnd s.toList) with
  | none => noValue .notTimestamp
  | some t => if isValid t.toTimestamp then .ok t.toTimestamp else noValue .notNumber

def bool (text : Codes) : Except Error Bool :=
  match text.text?.bind fun s => truthWords.lookup (String.ofList (Text.lower s.toList)) with
  | some b => .ok b
  | none => noValue .notWord

def binary (text : Codes) : Except Error (List UInt8) :=
  match text.text?.bind fun s => Text.Base64.decode? s.toList with
  | some bytes => .ok bytes
  | none => refuse .badBytes

def scalarValue (tag : Tag) (text : Codes) : Except Error Value :=
  match tag with
  | .null => .ok .null
  | .bool => (bool text).map .bool
  | .int => (int text).map .int
  | .float => (float text).map .float
  | .timestamp => (timestamp text).map .timestamp
  | .text => .ok (.ofCodes text)
  | .binary => (binary text).map .bytes
  | .seq | .map | .set | .ordered | .pairs => refuse .wrongKind
  | .merge | .value | .other _ => refuse .unknownTag

end DepAudit.Yaml
