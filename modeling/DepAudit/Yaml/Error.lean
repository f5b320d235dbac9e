/-! Why a text is not read as one document. -/
namespace DepAudit.Yaml

inductive Fault where
  /-- A character that no document holds. -/
  | character
  /-- No token starts here. -/
  | noToken
  /-- A quoted or block scalar that is not written as it should be. -/
  | badScalar
  /-- An anchor, alias or tag without a proper name. -/
  | badName
  | badDirective
  /-- An entry, a key or a value where none may stand. -/
  | misplaced
  /-- A key that its value does not follow. -/
  | lostKey
  /-- A token where another one is needed. -/
  | unexpected
  | unknownAnchor
  | repeatedAnchor
  | unknownTag
  /-- A node of another kind than its tag asks for. -/
  | wrongKind
  /-- A sequence or a map in the place of a key. -/
  | badKey
  /-- Something else than maps is to be merged. -/
  | badMerge
  /-- Bytes that are not written as they should be. -/
  | badBytes
  /-- A sequence of pairs with something else in it. -/
  | badPair
  deriving DecidableEq, Repr

inductive ScalarFault where
  /-- No number, or no day of the calendar. -/
  | notNumber
  /-- A number without any character. -/
  | blank
  /-- No word for a truth value. -/
  | notWord
  | notTimestamp
  /-- A collection where the text of a timestamp is needed. -/
  | noText
  /-- A number to the base of sixty with too many parts. -/
  | tooGreat
  /-- An escape for a code point that is none. -/
  | notCodePoint (code : Nat)
  deriving DecidableEq, Repr

inductive Error where
  | invalid (fault : Fault)
  | scalar (fault : ScalarFault)
  /-- Nodes are nested deeper than the reader goes. -/
  | tooDeep
  /-- The text breaks off in bytes that are no characters. -/
  | brokenOff
  deriving DecidableEq, Repr

def refuse {α : Type} (fault : Fault) : Except Error α := .error (.invalid fault)

end DepAudit.Yaml
