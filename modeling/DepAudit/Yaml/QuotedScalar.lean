import DepAudit.Text.Codes
import DepAudit.Yaml.Gap

/-! Scalars in single quotes, where a quote is written twice, and in double quotes, where a backslash
starts an escape. -/
namespace DepAudit.Yaml
open Text (hexNumber?)

def plainEscapes : List (Char × Char) :=
  [('0','\x00'),('a','\x07'),('b','\x08'),('t','\t'),('\t','\t'),('n','\n'),
   ('v','\x0b'),('f','\x0c'),('r','\r'),('e','\x1b'),(' ',' '),('"','"'),
   ('\\','\\'),('/','/'),('N','\x85'),('_','\xa0'),('L','\u2028'),('P','\u2029')]

def escapeWidth? : Char → Option Nat
  | 'x' => some 2
  | 'u' => some 4
  | 'U' => some 8
  | _ => none

def escaped : List Char → Except Error (Nat × Nat)
  | [] => refuse .badScalar
  | e :: cs =>
    match plainEscapes.lookup e,escapeWidth? e with
    | some c,_ => .ok (c.toNat,1)
    | none,none => refuse .badScalar
    | none,some width =>
      let digits := cs.take width
      match if digits.length = width then hexNumber? digits else none with
      | none => refuse .badScalar
      | some n =>
        if 0x110000 ≤ n then .error (.scalar (.notCodePoint n)) else .ok (n,width + 1)

/-- What stands between the quotes, and the rest behind the closing one. `skip` counts characters of an
escape that were already read. -/
def quotedFrom (double : Bool) :
    (skip : Nat) → Gap → List Glyph → Except Stop (Text.Codes × List Glyph)
  | _,_,[] => stopAt .badScalar []
  | skip + 1,gap,_ :: rest => quotedFrom double skip gap rest
  | 0,gap,(c,_) :: rest =>
    let filling := Text.Codes.ofChars gap.text
    let word (code skip : Nat) := (quotedFrom double skip .none rest).map fun r =>
      (filling ++ code :: r.1,r.2)
    if isSpace c then quotedFrom double 0 (gap.addSpace c) rest
    else if isBreak c then
      if startsDocumentMark rest then stopAt .badScalar rest
      else quotedFrom double 0 (gap.addBreak c) rest
    else if c = '\'' && !double then
      if chars (rest.take 1) = ['\''] then word c.toNat 1 else .ok (filling,rest)
    else if c = '"' && double then .ok (filling,rest)
    else if c = '\\' && double then
      match rest with
      | [] => stopAt .badScalar []
      | (e,_) :: after =>
        if isBreak e then
          if startsDocumentMark after then stopAt .badScalar after
          else (quotedFrom double 1 (.joined []) rest).map fun r => (filling ++ r.1,r.2)
        else do
          let (code,skip) ← Stop.lift rest (escaped (chars (rest.take 9)))
          word code skip
    else word c.toNat 0

end DepAudit.Yaml
