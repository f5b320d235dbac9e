import DepAudit.Text.Ranges
import DepAudit.Text.Slices

/-! Addresses of repositories: the path of an address, and when an address is refused. -/
namespace DepAudit

inductive AddressError where
  /-- One kind of bracket without the other in the host. -/
  | unbalancedBrackets
  /-- Brackets that do not hold a host address on their own. -/
  | bracketedHost
  /-- A character of the host that stands for one with a meaning in addresses. -/
  | compatibilityCharacter
  deriving DecidableEq, Repr

namespace Address

def parameterSchemes : List String :=
  ["","ftp","hdl","prospero","http","imap","https","shttp","rtsp","rtspu","sip","sips",
   "mms","sftp","tel"]

def isSchemeChar (c : Char) : Bool := c.isAlphanum || c == '+' || c == '-' || c == '.'

def splitScheme (cs : List Char) : String × List Char :=
  match cs.takeWhile isSchemeChar,cs.dropWhile isSchemeChar with
  | c :: scheme,':' :: rest =>
    if c.isAlpha then (String.ofList ((c :: scheme).map Char.toLower),rest) else ("",cs)
  | _,_ => ("",cs)

def endsHost (c : Char) : Bool := c = '/' || c = '?' || c = '#'

def splitHost : List Char → List Char × List Char
  | '/' :: '/' :: cs => (cs.takeWhile (!endsHost ·),cs.dropWhile (!endsHost ·))
  | cs => ([],cs)

def isHexDigit (c : Char) : Bool := c.isDigit || ('a' ≤ c && c ≤ 'f') || ('A' ≤ c && c ≤ 'F')

def isOctet (cs : List Char) : Bool :=
  cs.all Char.isDigit && 1 ≤ cs.length && cs.length ≤ 3 && (cs = ['0'] || cs.head? != some '0') &&
    Nat.ofDigitChars 10 cs 0 ≤ 255

def isDotted (cs : List Char) : Bool :=
  let octets := cs.splitOn '.'
  octets.length = 4 && octets.all isOctet

def isGroup (cs : List Char) : Bool := cs.all isHexDigit && 1 ≤ cs.length && cs.length ≤ 4

def expandDotted (parts : List (List Char)) : Option (List (List Char)) :=
  match parts.getLast? with
  | some last =>
    if last.contains '.' then
      if isDotted last then some (parts.dropLast ++ [['0'],['0']]) else none
    else some parts
  | none => none

/-- The groups on one side of a double colon; at an end of the address the side may be empty. -/
def isSide (parts : List (List Char)) : Bool := parts = [[]] || parts.all isGroup

def isGroups (parts : List (List Char)) : Bool :=
  let inner := parts.dropLast.drop 1
  match inner.count [] with
  | 0 => parts.length = 8 && parts.all isGroup
  | 1 =>
    let skip := 1 + inner.idxOf []
    let high := parts.take skip
    let low := parts.drop (skip + 1)
    isSide high && isSide low && (high ++ low).countP (!·.isEmpty) ≤ 7
  | _ => false

def zoneOk (zone : List Char) : Bool :=
  match zone with
  | [] => true
  | _ :: name => !name.isEmpty && !name.contains '%'

def isGroupAddress (cs : List Char) : Bool :=
  let body := cs.takeWhile (· ≠ '%')
  let parts := body.splitOn ':'
  !cs.contains '/' && zoneOk (cs.dropWhile (· ≠ '%')) && 3 ≤ parts.length &&
    match expandDotted parts with
    | some parts => parts.length ≤ 9 && isGroups parts
    | none => false

def isVersionedAddress : List Char → Bool
  | 'v' :: cs =>
    !(cs.takeWhile isHexDigit).isEmpty &&
      match cs.dropWhile isHexDigit with
      | '.' :: _ :: _ => true
      | _ => false
  | _ => false

def isHostAddress (cs : List Char) : Bool :=
  if cs.head? = some 'v' then isVersionedAddress cs else isGroupAddress cs

/-- Brackets stand around the whole host address: nothing but user information before them, nothing
but a port behind them. The text around brackets is looked at from release 3.11.12 of the runtime library
on. -/
def bracketsOk (host : List Char) : Bool :=
  let place := Text.afterLast '@' host
  match place.takeWhile (· ≠ '['),place.dropWhile (· ≠ '[') with
  | [],_ :: bracketed =>
    let port := (bracketed.dropWhile (· ≠ ']')).drop 1
    (port.isEmpty || port.head? = some ':') && isHostAddress (bracketed.takeWhile (· ≠ ']'))
  | _,_ :: _ => false
  | name,[] => isHostAddress (name.takeWhile (· ≠ ':'))

def compatibilitySeparators : Text.Ranges :=
  [(0x2047,0x2049),(0x2100,0x2101),(0x2105,0x2106),(0x2A74,0x2A74),(0xFE13,0xFE13),
   (0xFE16,0xFE16),(0xFE55,0xFE56),(0xFE5F,0xFE5F),(0xFE6B,0xFE6B),(0xFF03,0xFF03),
   (0xFF0F,0xFF0F),(0xFF1A,0xFF1A),(0xFF1F,0xFF20)]

def checkHost (host : List Char) : Except AddressError Unit :=
  if host.contains '[' != host.contains ']' then .error .unbalancedBrackets
  else if host.contains '[' && !bracketsOk host then .error .bracketedHost
  else if host.any compatibilitySeparators.contains then .error .compatibilityCharacter
  else .ok ()

def dropParameters (path : List Char) : List Char :=
  let last := Text.afterLast '/' path
  path.take (path.length - last.length) ++ last.takeWhile (· ≠ ';')

/-- Leading blanks and controls do not count, nor do tabs and line ends anywhere. -/
def clean (cs : List Char) : List Char :=
  (cs.dropWhile (·.toNat ≤ 0x20)).filter fun c => c ≠ '\t' && c ≠ '\r' && c ≠ '\n'

def path (address : List Char) : Except AddressError (List Char) := do
  let (scheme,cs) := splitScheme (clean address)
  let (host,cs) := splitHost cs
  checkHost host
  let cs := (cs.takeWhile (· ≠ '#')).takeWhile (· ≠ '?')
  return if parameterSchemes.contains scheme then dropParameters cs else cs

end Address

end DepAudit
