import DepAudit.Decimal
import DepAudit.Json.Basic
import DepAudit.Text.Hexadecimal

/-! JSON text of a value, on one line, in ASCII and without blanks. Doubles that are no numbers are shown as
texts. -/
namespace DepAudit.Json

def hexDigit (n : Nat) : Char := (Nat.toDigits 16 (n % 16)).headD '0'

def escapeUnit (n : Nat) : List Char :=
  ['\\','u',hexDigit (n / 4096),hexDigit (n / 256),hexDigit (n / 16),hexDigit n]

def escapeChar (c : Char) : List Char :=
  let n := Text.codeOf c
  if c = '"' then ['\\','"']
  else if c = '\\' then ['\\','\\']
  else if 0x20 ≤ n && n < 0x7F then [c]
  else if n < 0x10000 then escapeUnit n
  else escapeUnit (0xD800 + (n - 0x10000) / 0x400) ++ escapeUnit (0xDC00 + (n - 0x10000) % 0x400)

def quote (s : String) : String := "\"" ++ String.ofList (s.toList.flatMap escapeChar) ++ "\""

def floatText (x : Float) : String :=
  let text := Decimal.render Decimal.plain x
  if Binary64.isFinite x then text else quote text

mutual

def render : Json → String
  | null => "null"
  | bool b => if b then "true" else "false"
  | int n => toString n
  | float x => floatText x
  | str s => quote s
  | arr items => "[" ++ ",".intercalate (renderItems items) ++ "]"
  | obj members => "\x7b" ++ ",".intercalate (renderMembers members) ++ "\x7d"

def renderItems : List Json → List String
  | [] => []
  | v :: vs => render v :: renderItems vs

def renderMembers : List (String × Json) → List String
  | [] => []
  | (name,v) :: ms => (quote name ++ ":" ++ render v) :: renderMembers ms

end

end DepAudit.Json
