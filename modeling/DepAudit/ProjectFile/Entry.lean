import DepAudit.ProjectFile.Section

/-! Entries of a section body: values by key, and lists of ids. -/
namespace DepAudit.ProjectFile

def keyed? (key : List Char) (before : Option Char) (cs : List Char) : Option (List Char) := do
  guard (Text.startsIdentifier before)
  let cs ← Text.after? ['='] (Text.skipBlanks (← Text.after? key cs))
  return Text.skipBlanks cs

def endsEntry (cs : List Char) : Bool := (skipGap cs).head? = some ';'

def quotedFrom (escaped : Bool) : List Char → Option (List Char × List Char)
  | [] => none
  | c :: cs =>
    if escaped then (quotedFrom false cs).map fun r => (c :: r.1,r.2)
    else if c = '"' then some ([],cs)
    else (quotedFrom (c = '\\') cs).map fun r => (c :: r.1,r.2)

def isBare (c : Char) : Bool := !(c = ';' || c = '"' || c = '{' || c = '(' || Text.isBlank c)

def bareWord? : List Char → Option (List Char)
  | [] => none
  | c :: cs =>
    if isBare c then
      match bareWord? cs with
      | some word => some (c :: word)
      | none => if endsEntry cs then some [c] else none
    else none

def entryValue? (cs : List Char) : Option (List Char) :=
  match cs with
  | '"' :: cs =>
    match quotedFrom false cs with
    | some (value,rest) => if endsEntry rest then some value else none
    | none => none
  | cs => bareWord? cs

def keyedValue? (key : List Char) : Text.Pattern (List Char) := fun before cs => do
  let cs ← keyed? key before cs
  return (← entryValue? cs,cs)

def value? (body : String) (key : String) : Option String :=
  match Text.first? (keyedValue? key.toList) body.toList with
  | some (c :: cs,_) => some (String.ofList (c :: cs))
  | _ => none

def comment? : Text.Pattern Unit := fun _ cs => (afterComment? cs).map fun rest => ((),rest)

def listStart? (key : List Char) : Text.Pattern Unit := fun before cs => do
  return ((),← Text.after? ['('] (← keyed? key before cs))

def word? : Text.Pattern (List Char) := fun before cs =>
  match Text.startsWord before,cs.takeWhile Text.isWord with
  | true,c :: word => some (c :: word,cs.dropWhile Text.isWord)
  | _,_ => none

def isIdChar (c : Char) : Bool := c.isDigit || ('A' ≤ c && c ≤ 'F')

def idsIn (cs : List Char) : List String :=
  ((Text.all word? cs).filter (·.all isIdChar)).map String.ofList

def ids (body : String) (key : String) : List String :=
  match Text.first? (listStart? key.toList) body.toList with
  | none => []
  | some (_,rest) =>
    let cs := Text.replace comment? [' '] rest
    if cs.contains ')' then idsIn (cs.takeWhile (· ≠ ')')) else []

end DepAudit.ProjectFile
