import DepAudit.Yaml.BlockScalar
import DepAudit.Yaml.Layout
import DepAudit.Yaml.PlainScalar
import DepAudit.Yaml.QuotedScalar

/-! The tokens of a text. -/
namespace DepAudit.Yaml

/-- Passes over spaces, comments and line breaks; also tells whether a line break was among them. -/
def skipToToken : (inComment : Bool) → List Glyph → Bool × List Glyph
  | _,[] => (false,[])
  | inComment,(c,p) :: rest =>
    if isBreak c then (true,(skipToToken false rest).2)
    else if inComment || c = ' ' then skipToToken inComment rest
    else if c = '#' then skipToToken true rest
    else (false,(c,p) :: rest)

namespace Layout

def quoted (s : Layout) (double : Bool) (p : Place) (rest : List Glyph) :
    Except Stop (Cut Layout) := do
  let s ← Stop.lift rest (s.leaf p)
  let (text,rest) ← quotedFrom double 0 .none rest
  return (s.add (.scalar false text),rest)

def block (s : Layout) (folded : Bool) (rest : List Glyph) : Except Stop (Cut Layout) := do
  let s ← Stop.lift rest s.dropKey
  let (text,rest) ← blockScalar folded (max s.innerColumn 1) rest
  return ((s.allowKey true).add (.scalar false (.ofChars text)),rest)

/-- A plain scalar. A key may start behind it when it was read over the end of its line. -/
def plain (s : Layout) (p : Place) (here : List Glyph) : Except Stop (Cut Layout) := do
  let s ← Stop.lift here (s.leaf p)
  let (text,passed,rest) := plainFrom s.inFlow s.innerColumn .none here
  return ((s.allowKey passed).add (.scalar true (.ofChars text)),rest)

def named (s : Layout) (p : Place) (rest : List Glyph) (read : Except Stop (Cut Token)) :
    Except Stop (Cut Layout) := do
  let s ← Stop.lift rest (s.leaf p)
  let (t,rest) ← read
  return (s.add t,rest)

def token (s : Layout) (c : Char) (p : Place) (rest : List Glyph) : Except Stop (Cut Layout) :=
  let here := (c,p) :: rest
  let spaced := startsGap rest
  let mark (r : Except Error Layout) (rest : List Glyph) : Except Stop (Cut Layout) :=
    (Stop.lift here r).map (·,rest)
  if p.column = 0 && c = '%' then do
    let (t,rest) ← directive rest
    mark (s.boundary t) rest
  else if p.column = 0 && startsTriple '-' here then mark (s.boundary .documentStart) (here.drop 3)
  else if p.column = 0 && startsTriple '.' here then mark (s.boundary .documentEnd) (here.drop 3)
  else if c = '[' then mark (s.openFlow p .flowSequence) rest
  else if c = '\x7b' then mark (s.openFlow p .flowMap) rest
  else if c = ']' then mark (s.closeFlow .flowSequenceEnd) rest
  else if c = '\x7d' then mark (s.closeFlow .flowMapEnd) rest
  else if c = ',' then mark s.flowEntry rest
  else if c = '-' && spaced then mark (s.blockEntry p) rest
  else if c = '?' && (s.inFlow || spaced) then mark (s.markedKey p) rest
  else if c = ':' && (s.inFlow || spaced) then mark (s.value p) rest
  else if c = '*' then s.named p rest ((anchorName rest).map fun r => (.alias_ r.1,r.2))
  else if c = '&' then s.named p rest ((anchorName rest).map fun r => (.anchor r.1,r.2))
  else if c = '!' then s.named p rest (tagToken here)
  else if (c = '|' || c = '>') && !s.inFlow then s.block (c = '>') rest
  else if c = '\'' || c = '"' then s.quoted (c = '"') p rest
  else if startsPlain s.inFlow here then s.plain p here
  else stopAt .noToken here

/-- The tokens that are known to be complete before `p`: those that no key can still be put before. -/
def settled (s : Layout) (p : Place) : List Token :=
  let open_ := (s.key :: s.outerKeys).filterMap (·.filter fun k => !k.isPast p)
  s.tokens.reverse.take (open_.foldl (fun n k => min n k.position) s.count)

end Layout

structure TokenRun where
  tokens : List Token
  stop : Option Error := none

def lookahead : Nat := 4

namespace TokenRun

/-- What is read up to a failure. Where the text itself breaks off and the failure lies close to its
end, the break is what counts. -/
def stopped (s : Layout) (p : Place) (cut : Option Error) (stop : Stop) : TokenRun :=
  ⟨s.settled p,some (if stop.left < lookahead then cut.getD stop.error else stop.error)⟩

/-- The tokens from a place on. `p` lies behind the last token; each token takes at least one character,
and the number bounds them. -/
def readFrom (cut : Option Error) : Nat → Layout → Place → List Glyph → TokenRun
  | 0,s,p,_ => ⟨s.settled p,some (.invalid .noToken)⟩
  | n + 1,s,p,gs =>
    let (passed,ahead) := skipToToken false gs
    let next := if passed && !s.inFlow then s.allowKey true else s
    if cut.isSome && (ahead.drop (lookahead - 1)).isEmpty then ⟨s.settled p,cut⟩
    else match ahead with
      | [] =>
        match next.closeAll.dropKey with
        | .ok s => ⟨s.tokens.reverse,none⟩
        | .error e => ⟨s.settled p,some e⟩
      | (c,q) :: rest =>
        let step := do
          let next ← Stop.lift ahead (next.dropPastKeys q)
          (next.closeTo q.column).token c q rest
        match step with
        | .error stop => stopped s p cut stop
        | .ok (after,rest) =>
          if cut.isSome && (rest.drop (lookahead - 1)).isEmpty then ⟨s.settled p,cut⟩
          else readFrom cut n after ((rest.head?.map Prod.snd).getD q) rest

def ofChars (cs : List Char) (cut : Option Error) : TokenRun :=
  let gs := glyphs cs
  readFrom cut (gs.length + 1) {} {} gs

end TokenRun

end DepAudit.Yaml
