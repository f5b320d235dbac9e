/-! The brace that closes a group: braces inside quoted strings do not count, and a backslash in a
string takes the meaning from the character behind it. -/
namespace DepAudit.ProjectFile

inductive BraceMode where
  | plain
  | quoted
  | escaped
  deriving DecidableEq, Repr

def closingOffset (depth : Int) : BraceMode → List Char → Option Nat
  | _,[] => none
  | .escaped,_ :: cs => (closingOffset depth .quoted cs).map (· + 1)
  | .quoted,c :: cs =>
    let mode := if c = '\\' then .escaped else if c = '"' then .plain else .quoted
    (closingOffset depth mode cs).map (· + 1)
  | .plain,c :: cs =>
    if c = '"' then (closingOffset depth .quoted cs).map (· + 1)
    else if c = '{' then (closingOffset (depth + 1) .plain cs).map (· + 1)
    else if c = '}' then
      if depth = 1 then some 0 else (closingOffset (depth - 1) .plain cs).map (· + 1)
    else (closingOffset depth .plain cs).map (· + 1)

def matchingBrace? (text : List Char) (start : Nat) : Option Nat :=
  (closingOffset 0 .plain (text.drop start)).map (· + start)

def groupBody? (text : List Char) : Option (List Char) :=
  (matchingBrace? text 0).map fun close => (text.take close).drop 1

end DepAudit.ProjectFile
