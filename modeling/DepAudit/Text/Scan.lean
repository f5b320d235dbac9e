import DepAudit.Text.Blank
import DepAudit.Text.Slices
import DepAudit.Text.Word

/-! Searching a text from the left for what a pattern reads, without overlaps. -/
namespace DepAudit.Text

/-- Reads something at the start of a text, given the character before it; gives the rest as well. -/
abbrev Pattern (α : Type) := Option Char → List Char → Option (α × List Char)

def firstFrom? {α : Type} (p : Pattern α) : Option Char → List Char → Option (α × List Char)
  | _,[] => none
  | before,c :: cs =>
    match p before (c :: cs) with
    | some r => some r
    | none => firstFrom? p (some c) cs

def first? {α : Type} (p : Pattern α) (cs : List Char) : Option (α × List Char) :=
  firstFrom? p none cs

/-- All that the pattern reads, each reading starting behind the one before; the number counts the
characters of a reading that are still to be passed over. -/
def allFrom {α : Type} (p : Pattern α) : Option Char → Nat → List Char → List α
  | _,_,[] => []
  | _,skip + 1,c :: cs => allFrom p (some c) skip cs
  | before,0,c :: cs =>
    match p before (c :: cs) with
    | some (a,rest) => a :: allFrom p (some c) (cs.length - rest.length) cs
    | none => allFrom p (some c) 0 cs

def all {α : Type} (p : Pattern α) (cs : List Char) : List α := allFrom p none 0 cs

def replaceFrom {α : Type} (p : Pattern α) (by_ : List Char) :
    Option Char → Nat → List Char → List Char
  | _,_,[] => []
  | _,skip + 1,c :: cs => replaceFrom p by_ (some c) skip cs
  | before,0,c :: cs =>
    match p before (c :: cs) with
    | some (_,rest) => by_ ++ replaceFrom p by_ (some c) (cs.length - rest.length) cs
    | none => c :: replaceFrom p by_ (some c) 0 cs

def replace {α : Type} (p : Pattern α) (by_ cs : List Char) : List Char :=
  replaceFrom p by_ none 0 cs

def startsWord (before : Option Char) : Bool := !before.any isWord

def isIdentifier (c : Char) : Bool := c.isAlphanum || c == '_'

def startsIdentifier (before : Option Char) : Bool := !before.any isIdentifier

/-- What `p` reads behind leading blanks; it may also read some of them itself, as few as possible. -/
def afterBlanks? {α : Type} (p : List Char → Option α) : List Char → Option α
  | [] => p []
  | c :: cs => if isBlank c then afterBlanks? p cs <|> p (c :: cs) else p (c :: cs)

end DepAudit.Text
