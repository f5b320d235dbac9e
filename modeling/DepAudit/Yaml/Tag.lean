import DepAudit.Text.Codes

/-! Tags, and the tags of plain scalars by the shape of their text. -/
namespace DepAudit.Yaml

inductive Tag where
  | null
  | bool
  | int
  | float
  | timestamp
  | text
  /-- Bytes. -/
  | binary
  | seq
  | map
  | set
  /-- A sequence of pairs whose keys have an order. -/
  | ordered
  /-- A sequence of pairs. -/
  | pairs
  /-- A key whose value is merged into its map. -/
  | merge
  /-- A key for the value that stands for the whole map. -/
  | value
  | other (name : String)
  deriving DecidableEq, Repr

namespace Tag

def standard : String := "tag:yaml.org,2002:"

def names : List (String × Tag) :=
  [("null",null),("bool",bool),("int",int),("float",float),("timestamp",timestamp),
   ("str",text),("binary",binary),("seq",seq),("map",map),("set",set),
   ("omap",ordered),("pairs",pairs),("merge",merge),("value",value)]

def ofName (name : String) : Tag :=
  ((names.find? fun n => standard ++ n.1 = name).map Prod.snd).getD (other name)

end Tag

def truthWords : List (String × Bool) :=
  [("yes",true),("no",false),("true",true),("false",false),("on",true),("off",false)]

def spellings (word : String) : List String := [word,word.capitalize,word.toUpper]

def isSpacedDigit (c : Char) : Bool := c.isDigit || c = '_'

def unsigned : List Char → List Char
  | '-' :: cs => cs
  | '+' :: cs => cs
  | cs => cs

def allOf (p : Char → Bool) (cs : List Char) : Bool := !cs.isEmpty && cs.all p

def isDigitRun : List Char → Bool
  | [] => false
  | c :: cs => c.isDigit && cs.all isSpacedDigit

def isSixtieth : List Char → Bool
  | [c] => c.isDigit
  | [c,d] => '0' ≤ c && c ≤ '5' && d.isDigit
  | _ => false

def isSexagesimal (cs : List Char) : Bool :=
  match cs.splitOn ':' with
  | first :: part :: parts => isDigitRun first && (part :: parts).all isSixtieth
  | _ => false

def isInt (cs : List Char) : Bool :=
  match unsigned cs with
  | '0' :: 'b' :: bits => allOf (fun c => c = '0' || c = '1' || c = '_') bits
  | '0' :: 'x' :: digits =>
    allOf (fun c => isSpacedDigit c || 'a' ≤ c && c ≤ 'f' || 'A' ≤ c && c ≤ 'F') digits
  | '0' :: digits => digits.all fun c => '0' ≤ c && c ≤ '7' || c = '_'
  | c :: digits => c.isDigit && (digits.all isSpacedDigit || isSexagesimal (c :: digits))
  | [] => false

def isFraction (cs : List Char) : Bool :=
  match cs.dropWhile isSpacedDigit with
  | [] => true
  | e :: sign :: digits =>
    (e = 'e' || e = 'E') && (sign = '+' || sign = '-') && allOf Char.isDigit digits
  | _ => false

def isFloat (cs : List Char) : Bool :=
  let whole := cs.takeWhile (· ≠ '.')
  match cs.dropWhile (· ≠ '.') with
  | [] => false
  | _ :: fraction =>
    isDigitRun (unsigned whole) && isFraction fraction ||
      whole.isEmpty && (fraction.head?.any Char.isDigit) && isFraction fraction ||
      isSexagesimal (unsigned whole) && fraction.all isSpacedDigit ||
      (unsigned whole).isEmpty && whole.length ≤ 1 &&
        ["inf","Inf","INF"].contains (String.ofList fraction) ||
      whole.isEmpty && ["nan","NaN","NAN"].contains (String.ofList fraction)

structure TimestampText where
  year : List Char
  month : List Char
  day : List Char
  clock : Option (List Char × List Char × List Char) := none
  fraction : List Char := []
  /-- An offset of the zone, with its sign; a zone without one is universal time. -/
  zone : Option (Option (Char × List Char × List Char)) := none

def someDigits? (least most : Nat) (cs : List Char) : Option (List Char × List Char) :=
  let found := (cs.take most).takeWhile Char.isDigit
  if least ≤ found.length then some (found,cs.drop found.length) else none

def after? (c : Char) : List Char → Option (List Char)
  | [] => none
  | d :: cs => if d = c then some cs else none

def zoneText? (cs : List Char) :
    Option (Option (Option (Char × List Char × List Char))) :=
  match cs,cs.dropWhile fun c => c = ' ' || c = '\t' with
  | [],_ => some none
  | _,['Z'] => some (some none)
  | _,sign :: rest =>
    if sign = '+' || sign = '-' then do
      let (hour,rest) ← someDigits? 1 2 rest
      match rest with
      | [] => some (some (some (sign,hour,[])))
      | _ =>
        let (minute,rest) ← someDigits? 2 2 (← after? ':' rest)
        if rest.isEmpty then some (some (some (sign,hour,minute))) else none
    else none
  | _,[] => none

def afterDate? : List Char → Option (List Char)
  | 'T' :: cs => some cs
  | 't' :: cs => some cs
  | c :: cs => if c = ' ' || c = '\t' then some (cs.dropWhile fun c => c = ' ' || c = '\t') else none
  | [] => none

/-- A text without the line feed at its end, which shapes pass over; a line feed alone stays. -/
def withoutLineEnd (cs : List Char) : List Char :=
  if cs.length > 1 && cs.getLast? = some '\n' then cs.dropLast else cs

def timestampText? (cs : List Char) : Option TimestampText := do
  let (year,rest) ← someDigits? 4 4 cs
  let (month,rest) ← someDigits? 1 2 (← after? '-' rest)
  let (day,rest) ← someDigits? 1 2 (← after? '-' rest)
  if rest.isEmpty then return { year, month, day }
  let (hour,rest) ← someDigits? 1 2 (← afterDate? rest)
  let (minute,rest) ← someDigits? 2 2 (← after? ':' rest)
  let (second,rest) ← someDigits? 2 2 (← after? ':' rest)
  let (fraction,rest) := match rest with
    | '.' :: rest => (rest.takeWhile Char.isDigit,rest.dropWhile Char.isDigit)
    | rest => ([],rest)
  return { year, month, day, clock := some (hour,minute,second), fraction, zone := ← zoneText? rest }

def isTimestamp (cs : List Char) : Bool :=
  (timestampText? cs).any fun t =>
    t.clock.isSome || t.month.length = 2 && t.day.length = 2

/-- The tag of a plain scalar. The signs of the format itself have one that no value has. -/
def Tag.ofPlain (text : String) : Tag :=
  let cs := text.toList
  if (truthWords.flatMap (spellings ·.1)).contains text then bool
  else if isFloat cs then float
  else if isInt cs then int
  else if text = "<<" then merge
  else if text = "" || text = "~" || (spellings "null").contains text then null
  else if isTimestamp cs then timestamp
  else if text = "=" then value
  else if ["!","&","*"].contains text then other (standard ++ "yaml")
  else .text

/-- The tag by the shape of a text, which may come from quotes and end in a line feed. -/
def Tag.ofShape (codes : Text.Codes) : Tag :=
  match codes.text? with
  | some s => ofPlain (String.ofList (withoutLineEnd s.toList))
  | none => .text

end DepAudit.Yaml
