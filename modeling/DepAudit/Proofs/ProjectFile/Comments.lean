import DepAudit.Proofs.ProjectFile.Gaps
import DepAudit.Proofs.Text.Runs

/-! Comments of any text. A comment ends at the first signs that can end it, whatever its text says. -/
namespace DepAudit.ProjectFile
open Text

structure Gloss where
  text : List Char
  closed : ¬['*','/'] <:+: text

namespace Gloss

def chars (g : Gloss) : List Char := '/' :: '*' :: (g.text ++ ['*','/'])

theorem chars_ne_nil (g : Gloss) : g.chars ≠ [] := List.cons_ne_nil _ _

theorem afterComment?_chars (g : Gloss) (back : List Char) :
    afterComment? (g.chars ++ back) = some back := by
  have opened : after? "/*".toList (g.chars ++ back) = some (g.text ++ '*' :: '/' :: back) := by
    rw [after?_eq_some,chars]
    simp
  rw [afterComment?,opened]
  exact Layout.Comment.afterFirst?_close g.closed back

end Gloss

theorem exists_front {mark cs rest : List Char} (filled : mark ≠ [])
    (found : afterFirst? mark cs = some rest) : ∃ front, ¬mark <:+: front ∧ cs = front ++ (mark ++ rest) := by
  have absent : ¬mark <:+: [] := fun inside => filled (List.infix_nil.mp inside)
  induction cs with
  | nil =>
    have marked : [] = mark ++ rest := after?_eq_some.mp found
    exact ⟨[],absent,marked⟩
  | cons c cs ih =>
    rw [afterFirst?] at found
    split at found
    · rename_i here
      have marked := after?_eq_some.mp (here.trans found)
      exact ⟨[],absent,marked⟩
    · rename_i unmarked
      obtain ⟨front,unsaid,rfl⟩ := ih found
      refine ⟨c :: front,fun inside => ?_,rfl⟩
      rcases List.infix_cons_iff.mp inside with ⟨behind,start⟩ | later
      · have marked : after? mark (c :: (front ++ (mark ++ rest))) = some (behind ++ (mark ++ rest)) := by
          rw [after?_eq_some,← List.cons_append,← start,List.append_assoc]
        rw [marked] at unmarked
        cases unmarked
      · exact unsaid later

theorem afterComment?_eq_some {cs rest : List Char} :
    afterComment? cs = some rest ↔ ∃ g : Gloss, cs = g.chars ++ rest := by
  constructor
  · intro found
    obtain ⟨inside,opened,closed⟩ := Option.bind_eq_some_iff.mp found
    obtain ⟨text,unsaid,rfl⟩ := exists_front (by decide) closed
    refine ⟨⟨text,unsaid⟩,?_⟩
    rw [after?_eq_some.mp opened,Gloss.chars]
    simp
  · rintro ⟨g,rfl⟩
    exact g.afterComment?_chars rest

end DepAudit.ProjectFile
