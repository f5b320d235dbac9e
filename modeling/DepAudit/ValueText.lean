import DepAudit.Decimal
import DepAudit.Text.Quoted
import DepAudit.ValueRecord

/-! The text of a value: as it is shown on its own, and as it is written inside another value. -/
namespace DepAudit

def pad (width n : Nat) : String := Decimal.pad width (toString n)

def zoneText (offset : Int) : String :=
  let n := offset.natAbs
  (if offset < 0 then "-" else "+") ++ pad 2 (n / 3600) ++ ":" ++ pad 2 (n / 60 % 60) ++
    (if n % 60 = 0 then "" else ":" ++ pad 2 (n % 60))

def Clock.shown (c : Clock) : String :=
  pad 2 c.hour ++ ":" ++ pad 2 c.minute ++ ":" ++ pad 2 c.second ++
    (if c.microsecond = 0 then "" else "." ++ pad 6 c.microsecond) ++
    (c.zone.map zoneText).getD ""

def deltaText (offset : Int) : String :=
  let days := Int.fdiv offset 86400
  let seconds := Int.fmod offset 86400
  let parts := (if days = 0 then [] else ["days=" ++ toString days]) ++
    (if seconds = 0 then [] else ["seconds=" ++ toString seconds])
  "datetime.timedelta(" ++ ", ".intercalate parts ++ ")"

def zoneWritten (offset : Int) : String :=
  if offset = 0 then "datetime.timezone.utc"
  else "datetime.timezone(" ++ deltaText offset ++ ")"

/-- The parts of a time of day; zeros at the end are left out from the seconds on. -/
def Clock.parts (c : Clock) : List Nat :=
  if c.microsecond ≠ 0 then [c.hour,c.minute,c.second,c.microsecond]
  else if c.second ≠ 0 then [c.hour,c.minute,c.second]
  else [c.hour,c.minute]

namespace Timestamp

def shown (t : Timestamp) : String :=
  pad 4 t.year ++ "-" ++ pad 2 t.month ++ "-" ++ pad 2 t.day ++
    (t.clock.map fun c => " " ++ c.shown).getD ""

def written (t : Timestamp) : String :=
  let date := [t.year,t.month,t.day]
  match t.clock with
  | none => "datetime.date(" ++ ", ".intercalate (date.map toString) ++ ")"
  | some c =>
    "datetime.datetime(" ++ ", ".intercalate ((date ++ c.parts).map toString ++
      (c.zone.map fun z => "tzinfo=" ++ zoneWritten z).toList) ++ ")"

end Timestamp

namespace Value

mutual

def written : Value → String
  | null => "None"
  | bool b => if b then "True" else "False"
  | int n => toString n
  | float x => Decimal.render Decimal.plain x
  | text s => Text.quoted s
  | halves codes => Text.quotedCodes codes
  | bytes bs => Text.quotedBytes bs
  | timestamp t => t.written
  | seq items => "[" ++ ", ".intercalate (writtenItems items) ++ "]"
  | map pairs => "\x7b" ++ ", ".intercalate (writtenPairs pairs) ++ "\x7d"
  | set members =>
    if members.isEmpty then "set()"
    else "\x7b" ++ ", ".intercalate (writtenItems members) ++ "\x7d"
  | pair key value => "(" ++ written key ++ ", " ++ written value ++ ")"
  | enclosing .seq => "[...]"
  | enclosing .map => "\x7b...\x7d"
  | enclosing .set => "set(...)"

def writtenItems : List Value → List String
  | [] => []
  | v :: vs => written v :: writtenItems vs

def writtenPairs : List (Value × Value) → List String
  | [] => []
  | (k,v) :: ps => (written k ++ ": " ++ written v) :: writtenPairs ps

end

def shown : Value → String
  | text s => s
  | halves codes => codes.shown
  | timestamp t => t.shown
  | v => v.written

mutual

def isWritable : Value → Bool
  | int n => isShort n
  | seq items | set items => areWritable items
  | map pairs => arePairsWritable pairs
  | pair key value => isWritable key && isWritable value
  | _ => true

def areWritable : List Value → Bool
  | [] => true
  | v :: vs => isWritable v && areWritable vs

def arePairsWritable : List (Value × Value) → Bool
  | [] => true
  | (k,v) :: ps => isWritable k && isWritable v && arePairsWritable ps

end

mutual

def depth : Value → Nat
  | seq items | set items => depthOf items + 1
  | map pairs => depthOfPairs pairs + 1
  | pair key value => max (depth key) (depth value) + 1
  | _ => 0

def depthOf : List Value → Nat
  | [] => 0
  | v :: vs => max (depth v) (depthOf vs)

def depthOfPairs : List (Value × Value) → Nat
  | [] => 0
  | (k,v) :: ps => max (max (depth k) (depth v)) (depthOfPairs ps)

end

def maxDepth : Nat := 985

def shown? (v : Value) : Except RecordFault String :=
  if maxDepth < v.depth then .error .endless
  else if v.isWritable then .ok v.shown
  else .error .longNumeral

end Value

end DepAudit
