import DepAudit.Yaml.Glyph

/-! Folding of the gaps inside a scalar: spaces within a line stay, a single line break becomes a space,
and of several the first is left out. -/
namespace DepAudit.Yaml

inductive Gap where
  | none
  | spaces (text : List Char)
  | breaks (first : Char) (more : List Char)
  /-- An escaped line break and the breaks behind it. -/
  | joined (more : List Char)

namespace Gap

def addSpace : Gap → Char → Gap
  | none,c => spaces [c]
  | spaces text,c => spaces (text ++ [c])
  | gap,_ => gap

def addBreak (gap : Gap) (c : Char) : Gap :=
  match gap with
  | breaks first more => breaks first (more ++ [keptBreak c])
  | joined more => joined (more ++ [keptBreak c])
  | _ => breaks (keptBreak c) []

def isNone : Gap → Bool
  | none => true
  | _ => false

def hasBreak : Gap → Bool
  | breaks .. => true
  | joined _ => true
  | _ => false

def text : Gap → List Char
  | none => []
  | spaces text => text
  | breaks first more =>
    if first ≠ '\n' then first :: more else if more.isEmpty then [' '] else more
  | joined more => more

end Gap

end DepAudit.Yaml
