import DepAudit.Yaml.Gap

/-! Scalars without quotes. They end where a comment, an indicator or a less indented line begins. -/
namespace DepAudit.Yaml

def isIndicator (c : Char) : Bool := "-?:,[]\x7b\x7d#&*!|>'\"%@`".toList.contains c

def startsPlain (inFlow : Bool) : List Glyph → Bool
  | [] => false
  | (c,_) :: rest =>
    !isGap c && !isIndicator c ||
      !startsGap rest && (c = '-' || !inFlow && (c = '?' || c = ':'))

def endsWord (inFlow : Bool) : List Glyph → Bool
  | [] => true
  | (c,_) :: rest =>
    isGap c || c = ':' && (startsGap rest || inFlow && endsOr (",[]\x7b\x7d".toList.contains ·) rest) ||
      inFlow && ",?[]\x7b\x7d".toList.contains c

/-- A plain scalar, whether a line break was passed behind its last word, and the rest. Lines that go
on with it have to start at least at the column `indent`, except in flow collections. -/
def plainFrom (inFlow : Bool) (indent : Nat) : Gap → List Glyph → List Char × Bool × List Glyph
  | gap,[] => ([],gap.hasBreak,[])
  | gap,(c,p) :: rest =>
    if c = ' ' then plainFrom inFlow indent (gap.addSpace c) rest
    else if isBreak c then
      if startsDocumentMark rest then ([],true,rest)
      else plainFrom inFlow indent (gap.addBreak c) rest
    else if endsWord inFlow ((c,p) :: rest) || !gap.isNone && c = '#' ||
        gap.hasBreak && !inFlow && p.column < indent then
      ([],gap.hasBreak,(c,p) :: rest)
    else
      let (text,passed,rest) := plainFrom inFlow indent .none rest
      (gap.text ++ c :: text,passed,rest)

end DepAudit.Yaml
