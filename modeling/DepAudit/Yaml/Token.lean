import DepAudit.Numeral
import DepAudit.Text.Codes
import DepAudit.Yaml.Glyph

/-! The tokens of a document, and those of them that are names: anchors, tags and directives. -/
namespace DepAudit.Yaml

inductive Directive where
  /-- The version of the format. -/
  | version (major minor : Nat)
  /-- A short form for the start of tags. -/
  | handle (short full : String)
  | reserved (name : String)
  deriving DecidableEq, Repr

inductive Token where
  | directive (d : Directive)
  | documentStart
  | documentEnd
  | blockSequence
  | blockMap
  | blockEnd
  | blockEntry
  | flowSequence
  | flowSequenceEnd
  | flowMap
  | flowMapEnd
  | flowEntry
  | key
  | value
  | alias_ (name : String)
  | anchor (name : String)
  /-- A tag; without a handle it is given in full. -/
  | tag (handle : Option String) (suffix : String)
  | scalar (plain : Bool) (text : Text.Codes)
  deriving DecidableEq, Repr

abbrev Cut (α : Type) := α × List Glyph

def run (p : Char → Bool) (fault : Fault) (gs : List Glyph) : Except Stop (Cut (List Char)) :=
  match gs.takeWhile (p ·.1) with
  | [] => stopAt fault gs
  | found => .ok (chars found,gs.drop found.length)

def expect (c : Char) (fault : Fault) : List Glyph → Except Stop (List Glyph)
  | [] => stopAt fault []
  | (d,p) :: rest => if c = d then .ok rest else stopAt fault ((d,p) :: rest)

def anchorName (gs : List Glyph) : Except Stop (Cut String) := do
  let (name,rest) ← run isName .badName gs
  if endsOr (fun c => isGap c || "?:,]\x7d%@`".toList.contains c) rest then
    return (String.ofList name,rest)
  else stopAt .badName rest

def isTagChar (c : Char) : Bool := c.isAlphanum || "-;/?:@&=+$,_.!~*'()[]%".toList.contains c

def escapedBytes? : (skip : Nat) → List Char → Option (List UInt8)
  | _,[] => some []
  | skip + 1,_ :: cs => escapedBytes? skip cs
  | 0,'%' :: cs =>
    match cs.take 2 with
    | [a,b] => do return (← Text.hexNumber? [a,b]).toUInt8 :: (← escapedBytes? 2 cs)
    | _ => none
  | 0,c :: cs => (escapedBytes? 0 cs).map ((String.singleton c).toUTF8.toList ++ ·)

def tagText (fault : Fault) (gs : List Glyph) : Except Stop (Cut String) := do
  let (text,rest) ← run isTagChar fault gs
  match (escapedBytes? 0 text).bind fun bytes => String.fromUTF8? bytes.toByteArray with
  | some text => return (text,rest)
  | none => stopAt fault rest

def tagHandle (fault : Fault) (gs : List Glyph) : Except Stop (Cut String) := do
  let rest ← expect '!' fault gs
  if chars (rest.take 1) = [' '] then return ("!",rest)
  let name := rest.takeWhile (isName ·.1)
  let rest ← expect '!' fault (rest.drop name.length)
  return (String.ofList ('!' :: chars name ++ ['!']),rest)

def tagToken (gs : List Glyph) : Except Stop (Cut Token) := do
  let (token,rest) ← match chars (gs.take 2) with
    | ['!','<'] => do
      let (text,rest) ← tagText .badName (gs.drop 2)
      pure (Token.tag none text,← expect '>' .badName rest)
    | _ =>
      let rest := gs.drop 1
      if startsGap rest then pure (.tag none "!",rest)
      else do
        let marked := (rest.takeWhile fun g => !(g.1 = ' ' || isBreak g.1)).any (·.1 = '!')
        let (handle,rest) ← if marked then tagHandle .badName gs else pure ("!",rest)
        let (suffix,rest) ← tagText .badName rest
        pure (.tag (some handle) suffix,rest)
  if startsBlank rest then return (token,rest) else stopAt .badName rest

def versionNumber (gs : List Glyph) : Except Stop (Cut Nat) := do
  let (digits,rest) ← run Char.isDigit .badDirective gs
  if digits.length > Numeral.maxDigits then .error ⟨.scalar .notNumber,rest.length⟩
  else return (Nat.ofDigitChars 10 digits 0,rest)

def directiveBody (name : String) (gs : List Glyph) : Except Stop (Cut Directive) :=
  match name with
  | "YAML" => do
    let (major,rest) ← versionNumber (skipSpaces gs)
    let (minor,rest) ← versionNumber (← expect '.' .badDirective rest)
    if startsBlank rest then return (.version major minor,rest) else stopAt .badDirective rest
  | "TAG" => do
    let (short,rest) ← tagHandle .badDirective (skipSpaces gs)
    if chars (rest.take 1) ≠ [' '] then stopAt .badDirective rest
    let (full,rest) ← tagText .badDirective (skipSpaces rest)
    if startsBlank rest then return (.handle short full,rest) else stopAt .badDirective rest
  | name => return (.reserved name,gs.dropWhile (!isBreak ·.1))

def directive (gs : List Glyph) : Except Stop (Cut Token) := do
  let (name,rest) ← run isName .badDirective gs
  if !startsBlank rest then stopAt .badDirective rest
  let (d,rest) ← directiveBody (String.ofList name) rest
  match restOfLine? rest with
  | some rest => return (.directive d,rest)
  | none => stopAt .badDirective rest

end DepAudit.Yaml
