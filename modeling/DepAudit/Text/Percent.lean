import DepAudit.Decimal.Places
import DepAudit.ValueText

/-! Filling values into a text at its percent signs. A place names its value or takes the next one, and
says how the value is written. -/
namespace DepAudit.Text.Percent

/-- The values to be filled in: those with names, if there are any, and those to be taken in turn. -/
structure Supply where
  named : Option (List (Value × Value))
  queue : List Value

namespace Supply

def ofValues : List Value → Supply
  | [.map (p :: ps)] => ⟨some (p :: ps),[.map (p :: ps)]⟩
  | values => ⟨none,values⟩

def take? (s : Supply) : Option (Value × Supply) :=
  match s.queue with
  | v :: rest => some (v,{ s with queue := rest })
  | [] => none

def choose? (s : Supply) (name : String) : Option Supply := do
  let (_,v) ← (← s.named).find? fun p =>
    match p.1 with
    | .text t => t = name
    | _ => false
  return { s with queue := [v] }

def isUsedUp (s : Supply) : Bool := s.named.isSome || s.queue.isEmpty

end Supply

structure Spec where
  left : Bool
  zero : Bool
  plus : Bool
  space : Bool
  alternate : Bool
  width : Nat
  precision : Option Nat
  kind : Char

def bracketed? : (depth : Nat) → List Char → Option (List Char × List Char)
  | _,[] => none
  | 0,')' :: cs => some ([],cs)
  | depth + 1,')' :: cs => (bracketed? depth cs).map fun r => (')' :: r.1,r.2)
  | depth,c :: cs =>
    (bracketed? (if c = '(' then depth + 1 else depth) cs).map fun r => (c :: r.1,r.2)

def named? (s : Supply) : List Char → Option (Supply × List Char)
  | '(' :: cs => do
    let (name,rest) ← bracketed? 0 cs
    return (← s.choose? (String.ofList name),rest)
  | cs => some (s,cs)

def isFlag (c : Char) : Bool := c = '-' || c = '0' || c = '+' || c = ' ' || c = '#'

def maxSize : Nat := 2147483647

def size? (s : Supply) : List Char → Option (Option Int × Supply × List Char)
  | '*' :: cs => do
    let (v,s) ← s.take?
    match v.number? with
    | some (.int n) => if n.natAbs ≤ maxSize then some (some n,s,cs) else none
    | _ => none
  | cs =>
    let digits := cs.takeWhile Char.isDigit
    let n := Nat.ofDigitChars 10 digits 0
    if digits.isEmpty then some (none,s,cs)
    else if n ≤ maxSize then some (some n,s,cs.drop digits.length)
    else none

def spec? (s : Supply) (cs : List Char) : Option (Spec × Supply × List Char) := do
  let (s,cs) ← named? s cs
  let flags := cs.takeWhile isFlag
  let (width,s,cs) ← size? s (cs.drop flags.length)
  let (precision,s,cs) ← match cs with
    | '.' :: cs => (size? s cs).map fun (n,s,cs) => (some (n.getD 0).toNat,s,cs)
    | cs => some (none,s,cs)
  let cs := if cs.head?.any ['h','l','L'].contains then cs.drop 1 else cs
  match cs with
  | kind :: rest =>
    return ({
      left := flags.contains '-' || width.any (· < 0)
      zero := flags.contains '0'
      plus := flags.contains '+'
      space := flags.contains ' '
      alternate := flags.contains '#'
      width := (width.getD 0).natAbs
      precision
      kind },s,rest)
  | [] => none

namespace Spec

def fill (s : Spec) (sign body : List Char) (number : Bool) : List Char :=
  let missing := s.width - (sign.length + body.length)
  if s.left then sign ++ body ++ List.replicate missing ' '
  else if s.zero && number then sign ++ List.replicate missing '0' ++ body
  else List.replicate missing ' ' ++ sign ++ body

def sign (s : Spec) (negative : Bool) : List Char :=
  if negative then ['-'] else if s.plus then ['+'] else if s.space then [' '] else []

def text (s : Spec) (text : String) : List Char :=
  let cs := text.toList
  s.fill [] ((s.precision.map cs.take).getD cs) false

def integer (s : Spec) (n : Int) (base : Nat) (mark : List Char) : List Char :=
  let digits := Nat.toDigits base n.natAbs
  let digits := List.replicate (s.precision.getD 0 - digits.length) '0' ++ digits
  s.fill (s.sign (n < 0) ++ if s.alternate then mark else []) digits true

def double (s : Spec) (x : Float) (capitals : Bool)
    (digits : Decimal.PlaceStyle → Nat → Binary64.Parts → List Char) : List Char :=
  if Binary64.isFinite x then
    let p := Binary64.parts x
    s.fill (s.sign p.negative) (digits ⟨s.alternate,capitals⟩ (s.precision.getD 6) p) true
  else
    let word := if x.isNaN then "nan" else "inf"
    s.fill (s.sign (x < 0)) (if capitals then word.toUpper else word).toList true

end Spec

def integer? (v : Value) : Option Int :=
  match v.number? with
  | some (.int n) => some n
  | _ => none

def whole? (v : Value) : Option Int :=
  match v.number? with
  | some (.int n) => some n
  | some (.float x) => (Binary64.toRat? x).map fun r => Int.tdiv r.num r.den
  | none => none

def char? : Value → Option Char
  | .text s =>
    match s.toList with
    | [c] => some c
    | _ => none
  | v => (integer? v).bind fun n =>
    if 0 ≤ n && n < 0x110000 then some (codeChar n.toNat) else none

def Spec.apply? (s : Spec) (v : Value) : Option (List Char) :=
  let double (capitals : Bool) (digits : Decimal.PlaceStyle → Nat → Binary64.Parts → List Char) :=
    (v.number?.bind Number.toFloat?).map fun x => s.double x capitals digits
  match s.kind with
  | 's' => v.shown?.toOption.map s.text
  | 'r' => if v.isWritable then some (s.text v.written) else none
  | 'a' => if v.isWritable then some (s.text (asciiOnly v.written)) else none
  | 'c' => (char? v).map fun c => s.fill [] [c] false
  | 'd' | 'i' | 'u' => ((whole? v).filter Value.isShort).map fun n => s.integer n 10 []
  | 'x' => (integer? v).map fun n => s.integer n 16 ['0','x']
  | 'X' => (integer? v).map fun n => (s.integer n 16 ['0','x']).map Char.toUpper
  | 'o' => (integer? v).map fun n => s.integer n 8 ['0','o']
  | 'e' => double false Decimal.exponential
  | 'E' => double true Decimal.exponential
  | 'f' => double false Decimal.fixed
  | 'F' => double true Decimal.fixed
  | 'g' => double false Decimal.general
  | 'G' => double true Decimal.general
  | _ => none

def fillFrom : (skip : Nat) → Supply → List Char → Option (List Char)
  | _,s,[] => if s.isUsedUp then some [] else none
  | skip + 1,s,_ :: cs => fillFrom skip s cs
  | 0,s,'%' :: '%' :: cs => (fillFrom 0 s cs).map ('%' :: ·)
  | 0,s,'%' :: cs => do
    let (spec,s,rest) ← spec? s cs
    let (v,s) ← s.take?
    return (← spec.apply? v) ++ (← fillFrom (cs.length - rest.length) s cs)
  | 0,s,c :: cs => (fillFrom 0 s cs).map (c :: ·)

def format? (text : String) (values : List Value) : Option String :=
  if values.isEmpty then some text
  else (fillFrom 0 (.ofValues values) text.toList).map String.ofList

end DepAudit.Text.Percent
