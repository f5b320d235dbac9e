import DepAudit.Text.Slices

/-! Glob patterns over whole texts: stars, question marks and character sets. None of them treats
slashes or dots in a special way. -/
namespace DepAudit.Glob

inductive Token where
  | star
  | anyChar
  | literal (c : Char)
  /-- The characters in one of the ranges, or those in none of them. -/
  | set (negated : Bool) (ranges : List (Char × Char))
  deriving DecidableEq, Repr

def Token.fits (c : Char) : Token → Bool
  | star => false
  | anyChar => true
  | literal d => c = d
  | set negated ranges => (ranges.any fun r => r.1 ≤ c && c ≤ r.2) != negated

/-- The pieces of a set between its range hyphens. `hold` counts the characters that are passed before
a hyphen can make a range; `piece` is the current piece in reverse. -/
def piecesFrom (piece : List Char) : (hold : Nat) → List Char → List (List Char)
  | _,[] => [piece.reverse]
  | hold + 1,c :: cs => piecesFrom (c :: piece) hold cs
  | 0,c :: cs =>
    if c = '-' then piece.reverse :: piecesFrom [] 2 cs else piecesFrom (c :: piece) 0 cs

def closePieces : List (List Char) → List (List Char)
  | [] => []
  | [piece,[]] => [piece ++ ['-']]
  | piece :: pieces => piece :: closePieces pieces

/-- Joins a piece to the ones behind it: a range that runs backwards falls out with both its ends. -/
def joinPiece (piece : List Char) (pieces : List (List Char)) : List (List Char) :=
  match piece.getLast?,pieces with
  | some low,(high :: rest) :: others =>
    if high < low then (piece.dropLast ++ rest) :: others else piece :: pieces
  | _,_ => piece :: pieces

def rangesOf : List Char → List (List Char) → List (Char × Char)
  | piece,[] => piece.map fun c => (c,c)
  | piece,next :: pieces =>
    match piece.getLast?,next with
    | some low,high :: rest =>
      piece.dropLast.map (fun c => (c,c)) ++ (low,high) :: rangesOf rest pieces
    | _,_ => piece.map (fun c => (c,c)) ++ ('-','-') :: rangesOf next pieces

def setOf (inside : List Char) : Token :=
  let hold := if inside.head? = some '!' then 2 else 1
  match (closePieces (piecesFrom [] hold inside)).foldr joinPiece [] with
  | ('!' :: piece) :: pieces => .set true (rangesOf piece pieces)
  | piece :: pieces => .set false (rangesOf piece pieces)
  | [] => .set false []

/-- The text before a closing bracket, which is no member at the start of a set. -/
def bracketed? (cs : List Char) : Option (List Char) :=
  let (sign,rest) := match cs with
    | '!' :: rest => (['!'],rest)
    | rest => ([],rest)
  let (first,rest) := match rest with
    | ']' :: rest => ([']'],rest)
    | rest => ([],rest)
  if rest.contains ']' then some (sign ++ first ++ rest.takeWhile (· ≠ ']')) else none

/-- The parts of a pattern; the number counts characters of a set that were already read. -/
def tokensFrom : Nat → List Char → List Token
  | _,[] => []
  | skip + 1,_ :: cs => tokensFrom skip cs
  | 0,'*' :: cs => .star :: tokensFrom 0 cs
  | 0,'?' :: cs => .anyChar :: tokensFrom 0 cs
  | 0,'[' :: cs =>
    match bracketed? cs with
    | some inside => setOf inside :: tokensFrom (inside.length + 1) cs
    | none => .literal '[' :: tokensFrom 0 cs
  | 0,c :: cs => .literal c :: tokensFrom 0 cs

def tokens (pattern : String) : List Token := tokensFrom 0 pattern.toList

def starRow (next : List Bool) : List Bool := next.foldr (fun b row => (b || row.headD false) :: row) []

def charRow (t : Token) (cs : List Char) (next : List Bool) : List Bool :=
  List.zipWith (fun c b => t.fits c && b) cs (next.drop 1) ++ [false]

def row : List Token → List Char → List Bool
  | [],cs => cs.map (fun _ => false) ++ [true]
  | .star :: ts,cs => starRow (row ts cs)
  | t :: ts,cs => charRow t cs (row ts cs)

def fitsAll (ts : List Token) (cs : List Char) : Bool := (row ts cs).headD false

def fits (pattern text : String) : Bool := fitsAll (tokens pattern) text.toList

def fitsPath (pattern path : String) : Bool :=
  fits pattern path ||
    (path.toList.splitOn '/').any fun part => fitsAll (tokens pattern) part

end DepAudit.Glob
