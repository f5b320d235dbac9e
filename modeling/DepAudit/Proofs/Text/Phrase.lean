import DepAudit.Proofs.Text.Search

/-! Phrases: texts of one or more characters of a class, so that a layout which puts them together
cannot hold a character that would end one too early. -/
namespace DepAudit.Text

/-- A text of one or more characters of a class. -/
structure Phrase (allowed : Char → Bool) where
  text : String
  filled : text.toList ≠ []
  sound : ∀ c ∈ text.toList, allowed c = true

namespace Phrase

variable {allowed wider : Char → Bool}

def chars (phrase : Phrase allowed) : List Char := phrase.text.toList

def widen (more : ∀ c, allowed c = true → wider c = true) (phrase : Phrase allowed) : Phrase wider :=
  ⟨phrase.text,phrase.filled,fun c member => more c (phrase.sound c member)⟩

theorem exists_cons (phrase : Phrase allowed) : ∃ c cs, phrase.chars = c :: cs ∧ allowed c = true := by
  cases spelled : phrase.chars with
  | nil => exact absurd spelled phrase.filled
  | cons c cs =>
    have member : c ∈ phrase.text.toList := by
      rw [show phrase.text.toList = c :: cs from spelled]
      exact List.mem_cons_self ..
    exact ⟨c,cs,rfl,phrase.sound c member⟩

theorem exists_of_chars {cs : List Char} (filled : cs ≠ []) (sound : ∀ c ∈ cs, allowed c = true) :
    ∃ phrase : Phrase allowed, phrase.chars = cs :=
  ⟨⟨String.ofList cs,by simpa using filled,by simpa using sound⟩,String.toList_ofList⟩

theorem ofList_chars (phrase : Phrase allowed) : String.ofList phrase.chars = phrase.text :=
  String.ofList_toList

end Phrase

/-! Characters of names and versions, none of which is a blank or a mark. -/

def isPlain (c : Char) : Bool := isIdentifier c || c == '.' || c == '-'

theorem isPlain_of_identifier (c : Char) (identifier : isIdentifier c = true) : isPlain c = true := by
  rw [isPlain,identifier]
  rfl

theorem isBlank_of_plain {c : Char} (plain : isPlain c = true) : isBlank c = false := by
  simp only [isPlain,Bool.or_eq_true] at plain
  rcases plain with (identifier | dot) | dash
  · exact isBlank_of_word (isWord_of_identifier identifier)
  · rw [eq_of_beq dot]
    decide
  · rw [eq_of_beq dash]
    decide

end DepAudit.Text
