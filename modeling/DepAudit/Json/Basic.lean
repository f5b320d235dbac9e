/-! JSON values. The members of an object keep their order and have distinct names. -/
namespace DepAudit

inductive Json where
  | null
  | bool (b : Bool)
  | int (n : Int)
  | float (x : Float)
  | str (s : String)
  | arr (items : List Json)
  | obj (members : List (String × Json))
  deriving Inhabited

namespace Json

def get? (name : String) : Json → Option Json
  | obj members => members.lookup name
  | _ => none

def str? : Json → Option String
  | str s => some s
  | _ => none

def arr? : Json → Option (List Json)
  | arr items => some items
  | _ => none

def isObj : Json → Bool
  | obj _ => true
  | _ => false

def ofText? : Option String → Json
  | some s => str s
  | none => null

def strings (texts : List String) : Json := arr (texts.map str)

end Json

end DepAudit
