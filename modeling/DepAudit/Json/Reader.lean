import DepAudit.Binary64
import DepAudit.Json.Basic
import DepAudit.Numeral
import DepAudit.Table
import DepAudit.Text.Hexadecimal

/-! Reading JSON text. A fault is placed by the number of characters that were left when it was seen,
so that the reader needs no positions. Blanks are the four of JSON; numbers may also be `NaN` and the
infinities; of members of one name the last counts. -/
namespace DepAudit.Json
open Text (hexNumber? isHighHalf isLowHalf joinHalves codeChar)

inductive Reason where
  | value
  | memberName
  | colon
  | comma
  | extra
  | unterminated
  | control
  | escape
  | unicodeEscape
  | byteOrderMark
  deriving DecidableEq, Repr

/-- Why a text is not read, with the number of characters left at the place of the fault. -/
inductive Stop where
  | fault (reason : Reason) (left : Nat)
  | longNumeral (digits : Nat)
  | tooDeep
  deriving DecidableEq, Repr

abbrev Step (α : Type) := Except Stop (α × List Char)

def isBlank (c : Char) : Bool := c = ' ' || c = '\t' || c = '\n' || c = '\r'

def skipBlanks (cs : List Char) : List Char := cs.dropWhile isBlank

def faultAt {α : Type} (reason : Reason) (rest : List Char) : Except Stop α :=
  .error (.fault reason rest.length)

def simpleEscape? : Char → Option Char
  | '"' => some '"'
  | '\\' => some '\\'
  | '/' => some '/'
  | 'b' => some '\x08'
  | 'f' => some '\x0c'
  | 'n' => some '\n'
  | 'r' => some '\r'
  | 't' => some '\t'
  | _ => none

/-- The second half of a pair and the rest behind it: `\u`, four digits and at least one character. -/
def secondHalf? : List Char → Option (Char × Char × Char × Char × List Char)
  | '\\' :: 'u' :: a :: b :: c :: d :: e :: rest => some (a,b,c,d,e :: rest)
  | _ => none

/-- The characters of a string up to its closing quote, and the rest. `opening` is the text from the
opening quote on; `skip` counts characters of an escape that were already read. -/
def stringFrom (opening : List Char) : Nat → List Char → Step (List Char)
  | _,[] => faultAt .unterminated opening
  | skip + 1,_ :: cs => stringFrom opening skip cs
  | 0,'"' :: cs => .ok ([],cs)
  | 0,'\\' :: cs =>
    match cs with
    | [] => faultAt .unterminated opening
    | 'u' :: a :: b :: c :: d :: e :: rest =>
      match hexNumber? [a,b,c,d] with
      | none => faultAt .unicodeEscape cs
      | some n =>
        match if isHighHalf n then secondHalf? (e :: rest) else none with
        | none => (stringFrom opening 5 cs).map fun r => (codeChar n :: r.1,r.2)
        | some (a,b,c,d,_) =>
          match hexNumber? [a,b,c,d] with
          | none => faultAt .unicodeEscape rest
          | some m =>
            if isLowHalf m then
              (stringFrom opening 11 cs).map fun r => (joinHalves n m :: r.1,r.2)
            else (stringFrom opening 5 cs).map fun r => (codeChar n :: r.1,r.2)
    | 'u' :: _ => faultAt .unicodeEscape cs
    | e :: _ =>
      match simpleEscape? e with
      | some c => (stringFrom opening 1 cs).map fun r => (c :: r.1,r.2)
      | none => faultAt .escape ('\\' :: cs)
  | 0,c :: cs =>
    if c.toNat < 0x20 then faultAt .control (c :: cs)
    else (stringFrom opening 0 cs).map fun r => (c :: r.1,r.2)

def stringBody (cs : List Char) : Step String :=
  (stringFrom ('"' :: cs) 0 cs).map fun r => (String.ofList r.1,r.2)

def fractionDigits : List Char → List Char × List Char
  | '.' :: cs =>
    match cs.takeWhile Char.isDigit with
    | [] => ([],'.' :: cs)
    | run => (run,cs.dropWhile Char.isDigit)
  | cs => ([],cs)

def exponentPart : List Char → Option Int × List Char
  | [] => (none,[])
  | e :: cs =>
    let (negative,digits) := match cs with
      | '-' :: ds => (true,ds)
      | '+' :: ds => (false,ds)
      | ds => (false,ds)
    match (e = 'e' || e = 'E' : Bool),digits.takeWhile Char.isDigit with
    | true,d :: ds =>
      let value := Nat.ofDigitChars 10 (d :: ds) 0
      (some (if negative then -value else value),digits.dropWhile Char.isDigit)
    | _,_ => (none,e :: cs)

def wholeDigits : List Char → List Char × List Char
  | '0' :: cs => (['0'],cs)
  | cs => (cs.takeWhile Char.isDigit,cs.dropWhile Char.isDigit)

def unsigned (negative : Bool) (start cs : List Char) : Step Json :=
  match wholeDigits cs with
  | ([],_) => faultAt .value start
  | (whole,cs) =>
    let (fraction,cs) := fractionDigits cs
    let (exponent,cs) := exponentPart cs
    if fraction.isEmpty && exponent.isNone then
      if whole.length > Numeral.maxDigits then .error (.longNumeral whole.length)
      else
        let n : Int := Nat.ofDigitChars 10 whole 0
        .ok (int (if negative then -n else n),cs)
    else
      let x := Binary64.ofDecimal negative (Nat.ofDigitChars 10 (whole ++ fraction) 0)
        (exponent.getD 0 - fraction.length)
      .ok (float x,cs)

def words : List (List Char × Json) :=
  [("null".toList,null),("true".toList,bool true),("false".toList,bool false),
   ("NaN".toList,float (0.0 / 0.0)),("Infinity".toList,float (1.0 / 0.0)),
   ("-Infinity".toList,float (-1.0 / 0.0))]

def word? (cs : List Char) : Option (Json × List Char) :=
  words.findSome? fun w => if w.1.isPrefixOf cs then some (w.2,cs.drop w.1.length) else none

def scalar (cs : List Char) : Step Json :=
  match word? cs,cs with
  | some r,_ => .ok r
  | none,'-' :: rest => unsigned true cs rest
  | none,_ => unsigned false cs cs

def itemsFrom (item : List Char → Step Json) :
    Nat → List Char → Except Stop (List Json × List Char)
  | 0,cs => faultAt .value cs
  | n + 1,cs => do
    let (v,cs) ← item cs
    match skipBlanks cs with
    | ']' :: cs => return ([v],cs)
    | ',' :: cs =>
      let (vs,cs) ← itemsFrom item n (skipBlanks cs)
      return (v :: vs,cs)
    | cs => faultAt .comma cs

def member (item : List Char → Step Json) :
    List Char → Except Stop ((String × Json) × List Char)
  | '"' :: cs => do
    let (name,cs) ← stringBody cs
    match skipBlanks cs with
    | ':' :: cs =>
      let (v,cs) ← item (skipBlanks cs)
      return ((name,v),cs)
    | cs => faultAt .colon cs
  | cs => faultAt .memberName cs

def membersFrom (item : List Char → Step Json) :
    Nat → List Char → Except Stop (List (String × Json) × List Char)
  | 0,cs => faultAt .memberName cs
  | n + 1,cs => do
    let (m,cs) ← member item cs
    match skipBlanks cs with
    | '}' :: cs => return ([m],cs)
    | ',' :: cs =>
      let (ms,cs) ← membersFrom item n (skipBlanks cs)
      return (m :: ms,cs)
    | cs => faultAt .comma cs

/-- A value whose arrays and objects are nested at most `depth` deep and have fewer entries than
`bound`. -/
def valueFrom (bound : Nat) : (depth : Nat) → List Char → Step Json
  | _,'"' :: cs => (stringBody cs).map fun r => (str r.1,r.2)
  | 0,'[' :: _ => .error .tooDeep
  | 0,'{' :: _ => .error .tooDeep
  | depth + 1,'[' :: cs =>
    match skipBlanks cs with
    | ']' :: cs => .ok (arr [],cs)
    | cs => (itemsFrom (valueFrom bound depth) bound cs).map fun r => (arr r.1,r.2)
  | depth + 1,'{' :: cs =>
    match skipBlanks cs with
    | '}' :: cs => .ok (obj [],cs)
    | cs => (membersFrom (valueFrom bound depth) bound cs).map fun r =>
      (obj (Table.ofPairs r.1),r.2)
  | _,cs => scalar cs

def maxDepth : Nat := 990

/-- The one value of a text. No array or object has more entries than the text has characters. -/
def document (cs : List Char) : Except Stop Json :=
  match cs with
  | '\uFEFF' :: _ => faultAt .byteOrderMark cs
  | _ => do
    let (v,rest) ← valueFrom (cs.length + 1) maxDepth (skipBlanks cs)
    match skipBlanks rest with
    | [] => return v
    | rest => faultAt .extra rest

structure Place where
  line : Nat
  column : Nat
  offset : Nat
  deriving DecidableEq, Repr

def Place.behind (passed : List Char) : Place :=
  { line := passed.count '\n' + 1
    column := (passed.reverse.takeWhile (· ≠ '\n')).length + 1
    offset := passed.length }

inductive ReadError where
  | fault (reason : Reason) (place : Place)
  | longNumeral (digits : Nat)
  | tooDeep
  deriving DecidableEq, Repr

def read (text : String) : Except ReadError Json :=
  let cs := text.toList
  (document cs).mapError fun
    | .fault reason left => .fault reason (Place.behind (cs.take (cs.length - left)))
    | .longNumeral digits => .longNumeral digits
    | .tooDeep => .tooDeep

def Reason.message : Reason → String
  | .value => "Expecting value"
  | .memberName => "Expecting property name enclosed in double quotes"
  | .colon => "Expecting ':' delimiter"
  | .comma => "Expecting ',' delimiter"
  | .extra => "Extra data"
  | .unterminated => "Unterminated string starting at"
  | .control => "Invalid control character at"
  | .escape => "Invalid \\escape"
  | .unicodeEscape => "Invalid \\uXXXX escape"
  | .byteOrderMark => "Unexpected UTF-8 BOM (decode using utf-8-sig)"

def ReadError.message : ReadError → String
  | .fault reason place =>
    reason.message ++ ": line " ++ toString place.line ++ " column " ++ toString place.column ++
      " (char " ++ toString place.offset ++ ")"
  | .longNumeral digits =>
    "Exceeds the limit (4300 digits) for integer string conversion: value has " ++
      toString digits ++
      " digits; use sys.set_int_max_str_digits() to increase the limit"
  | .tooDeep => "nested too deep"

end DepAudit.Json
