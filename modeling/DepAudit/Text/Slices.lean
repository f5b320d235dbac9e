/-! Cutting texts: cut marks that are themselves texts, and ends that may be taken off. -/
namespace DepAudit.Text

def after? : (mark text : List Char) → Option (List Char)
  | [],cs => some cs
  | _ :: _,[] => none
  | m :: ms,c :: cs => if m = c then after? ms cs else none

def startsWith (mark text : List Char) : Bool := (after? mark text).isSome

def endsWith (mark text : List Char) : Bool := startsWith mark.reverse text.reverse

def occurs (mark : List Char) : List Char → Bool
  | [] => mark.isEmpty
  | c :: cs => startsWith mark (c :: cs) || occurs mark cs

def afterFirst? (mark : List Char) : List Char → Option (List Char)
  | [] => after? mark []
  | c :: cs =>
    match after? mark (c :: cs) with
    | some rest => some rest
    | none => afterFirst? mark cs

def dropStart (mark text : List Char) : List Char := (after? mark text).getD text

def dropEnd (mark text : List Char) : List Char :=
  (dropStart mark.reverse text.reverse).reverse

def dropEndWhile (p : Char → Bool) (text : List Char) : List Char :=
  (text.reverse.dropWhile p).reverse

private def consToFirst (c : Char) : List (List Char) → List (List Char)
  | [] => [[c]]
  | piece :: pieces => (c :: piece) :: pieces

/-- The pieces between the occurrences of `mark`, found from the left; the number counts the
characters of an occurrence that are still to be passed over. -/
def piecesFrom (mark : List Char) : Nat → List Char → List (List Char)
  | _,[] => [[]]
  | n + 1,_ :: cs => piecesFrom mark n cs
  | 0,c :: cs =>
    if startsWith mark (c :: cs) then [] :: piecesFrom mark (mark.length - 1) cs
    else consToFirst c (piecesFrom mark 0 cs)

def pieces (mark text : List Char) : List (List Char) := piecesFrom mark 0 text

def without (mark text : List Char) : List Char := (pieces mark text).flatten

def afterLast (sep : Char) (text : List Char) : List Char :=
  (text.reverse.takeWhile (· ≠ sep)).reverse

end DepAudit.Text
