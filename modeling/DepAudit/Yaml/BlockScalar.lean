import DepAudit.Yaml.Glyph

/-! Block scalars: indented lines under a header, kept as they are or folded. -/
namespace DepAudit.Yaml

inductive Chomping where
  | strip
  | clip
  | keep

structure BlockHeader where
  chomping : Chomping := .clip
  increment : Option Nat := none

def chomping? : Char → Option Chomping
  | '-' => some .strip
  | '+' => some .keep
  | _ => none

def increment? (c : Char) : Option Nat :=
  if c.isDigit && c ≠ '0' then some (c.toNat - 0x30) else none

def blockHeader? : List Char → Option BlockHeader
  | [] => some {}
  | [c] =>
    match chomping? c,increment? c with
    | some k,_ => some { chomping := k }
    | none,some n => some { increment := n }
    | none,none => none
  | [c,d] =>
    match chomping? c,increment? d,chomping? d,increment? c with
    | some k,some n,_,_ => some ⟨k,n⟩
    | _,_,some k,some n => some ⟨k,n⟩
    | _,_,_,_ => none
  | _ => none

structure PassedLine where
  spaced : Bool
  lineBreak : Char

/-- What stands for the breaks between two lines. Between lines that start with no space a single break
is folded into a space, and of several the first is left out. -/
def joint (folded : Bool) (before : Option PassedLine) (breaks : List Char) (next : Char) :
    List Char :=
  match before with
  | none => breaks
  | some line =>
    if folded && line.lineBreak = '\n' && !line.spaced && !isSpace next then
      if breaks.isEmpty then [' '] else breaks
    else line.lineBreak :: breaks

def Chomping.tail (k : Chomping) (last : Option PassedLine) (breaks : List Char) : List Char :=
  let ending := (last.map (·.lineBreak)).toList
  match k with
  | .strip => []
  | .clip => ending
  | .keep => ending ++ breaks

inductive BlockState where
  /-- In the indentation of a line, behind blank lines. -/
  | margin (before : Option PassedLine) (breaks : List Char)
  /-- In the text of a line. -/
  | line (spaced : Bool)

def blockFrom (folded : Bool) (k : Chomping) (indent : Nat) :
    BlockState → List Glyph → List Char × List Glyph
  | .margin before breaks,[] => (k.tail before breaks,[])
  | .line _,[] => ([],[])
  | .margin before breaks,(c,p) :: rest =>
    if c = ' ' && p.column < indent then
      blockFrom folded k indent (.margin before breaks) rest
    else if isBreak c then
      blockFrom folded k indent (.margin before (breaks ++ [keptBreak c])) rest
    else if p.column = indent then
      let r := blockFrom folded k indent (.line (isSpace c)) rest
      (joint folded before breaks c ++ c :: r.1,r.2)
    else (k.tail before breaks,(c,p) :: rest)
  | .line spaced,(c,_) :: rest =>
    if isBreak c then
      blockFrom folded k indent (.margin (some ⟨spaced,keptBreak c⟩) []) rest
    else
      let r := blockFrom folded k indent (.line spaced) rest
      (c :: r.1,r.2)

def leadingLines : List Glyph → List Char × Nat × List Glyph
  | [] => ([],0,[])
  | (c,p) :: rest =>
    if c = ' ' then
      let (breaks,column,rest) := leadingLines rest
      (breaks,max column (p.column + 1),rest)
    else if isBreak c then
      let (breaks,column,rest) := leadingLines rest
      (keptBreak c :: breaks,column,rest)
    else ([],0,(c,p) :: rest)

def blockScalar (folded : Bool) (least : Nat) (gs : List Glyph) :
    Except Stop (List Char × List Glyph) :=
  let marks := gs.takeWhile fun g => g.1 = '+' || g.1 = '-' || g.1.isDigit
  let rest := gs.drop marks.length
  match blockHeader? (chars marks),if startsBlank rest then restOfLine? rest else none with
  | some header,some rest =>
    match header.increment with
    | some n =>
      .ok (blockFrom folded header.chomping (least + n - 1) (.margin none []) rest)
    | none =>
      let (breaks,column,rest) := leadingLines rest
      .ok (blockFrom folded header.chomping (max least column) (.margin none breaks) rest)
  | _,_ => stopAt .badScalar rest

end DepAudit.Yaml
