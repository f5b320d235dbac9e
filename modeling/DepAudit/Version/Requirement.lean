import DepAudit.Version.Loose

/-! Requirements on versions: an exact version, a minimum or a closed range. Every other text is
taken as met. -/
namespace DepAudit.Requirement

def rangeMarks : List String := [">=","<=",">","<","...","..<","~>","^","~"]

def isRange (text : String) : Bool := rangeMarks.any fun mark => Text.occurs mark.toList text.toList

def afterNumerals? (cs : List Char) : Option (List Char) := do
  let (_,cs) ← Version.takePointed? cs
  let (_,cs) ← Version.takePointed? cs
  let (_,rest) ← Version.takeRun? Text.isDecimalDigit cs
  return rest

def isExact (text : String) : Bool :=
  (afterNumerals? (Text.trim text.toList)).any List.isEmpty

def rangeEnds? (text : List Char) : Option (String × String) :=
  match Text.pieces "...".toList text with
  | [low,high] => some (String.ofList (Text.trim low),String.ofList (Text.trim high))
  | _ => none

def compares (version bound : String) (ok : Ordering → Bool) : Except NumeralError Bool :=
  (Version.compareLoose version bound).map ok

def isMet (version : String) : Option String → Except NumeralError Bool
  | none => .ok true
  | some requirement =>
    let text := Text.trim requirement.toList
    if isExact requirement then .ok (version == String.ofList text)
    else match Text.after? ">=".toList text with
    | some bound => compares version (String.ofList (Text.trim bound)) Ordering.isGE
    | none =>
      match rangeEnds? text with
      | some (low,high) => do
        if ← compares version low Ordering.isGE then compares version high Ordering.isLE
        else return false
      | none => .ok true

end DepAudit.Requirement
