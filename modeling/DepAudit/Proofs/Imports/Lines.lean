import DepAudit.Proofs.Imports.Counting
import DepAudit.Proofs.Text.Phrase
import DepAudit.Proofs.Text.Runs

/-! Imports counted line by line. A line has one import, or it does not have the word; then no reading
runs over the end of its line, and what is counted are lines. The name of a module may be the word itself
or have it inside, since the search goes on behind the name. -/
namespace DepAudit.Imports
open Text

def keyword : List Char := "import".toList

structure Statement where
  front : List Char
  gap : Phrase isBlank
  name : Phrase isIdentifier
  back : List Char
  unsaid : ¬keyword <:+: front
  apart : ∀ c ∈ front.getLast?, isWord c = false
  ended : Stops isIdentifier back
  unrepeated : ¬keyword <:+: back

inductive Line where
  | statement (statement : Statement)
  | other (text : List Char) (unsaid : ¬keyword <:+: text)

namespace Line

def chars : Line → List Char
  | statement s => s.front ++ (keyword ++ (s.gap.chars ++ (s.name.chars ++ s.back)))
  | other text _ => text

def name? : Line → Option String
  | statement s => some s.name.text
  | other _ _ => none

end Line

def document (lines : List Line) : String :=
  String.ofList (['\n'].intercalate (lines.map Line.chars))

def times (lines : List Line) (name : String) : Nat := lines.countP fun line => line.name? = some name

/-! One line. -/

def EndsLine (cs : List Char) : Prop := ∀ c ∈ cs.head?, c = '\n'

theorem EndsLine.stops {p : Char → Bool} (outside : p '\n' = false) {cs : List Char}
    (ends : EndsLine cs) : Stops p cs := fun c head => ends c head ▸ outside

theorem EndsLine.apart {cs : List Char} (ends : EndsLine cs) : Apart keyword cs := by
  cases cs with
  | nil => exact fun tail _ start => .inl (List.prefix_nil.mp start)
  | cons c cs =>
    obtain rfl : c = '\n' := ends c rfl
    exact apart_of_foreign (by decide) cs

theorem statement?_eq (before : Option Char) (cs : List Char) : statement? before cs =
    if startsWord before then (after? keyword cs).bind fun rest =>
      if rest.head?.any isBlank ∧ (skipBlanks rest).takeWhile isIdentifier ≠ [] then
        some ((skipBlanks rest).takeWhile isIdentifier,(skipBlanks rest).dropWhile isIdentifier)
      else none
    else none := by
  rw [statement?,show "import".toList = keyword from rfl]
  cases startsWord before with
  | false => rfl
  | true =>
    cases after? keyword cs with
    | none => rfl
    | some rest =>
      simp only [Option.bind_eq_bind,Option.bind_some]
      generalize (skipBlanks rest).takeWhile isIdentifier = name
      cases blank : rest.head?.any isBlank <;> cases name <;> simp [guard]

theorem statement?_none_of_unsaid (before : Option Char) (cs : List Char)
    (unsaid : after? keyword cs = none) : statement? before cs = none := by
  rw [statement?_eq,unsaid,Option.bind_none,ite_self]

theorem misses_unsaid {cs back : List Char} (unsaid : ¬keyword <:+: cs) (apart : Apart keyword back)
    (before : Option Char) : Misses statement? before cs back :=
  (misses_of_absent unsaid apart before).mono statement?_none_of_unsaid

variable {before : Option Char} {tail : List Char}

namespace Statement

/-- Behind the word, blanks and a name the reading stops. -/
theorem reads (s : Statement) (starts : startsWord before = true) (ends : EndsLine tail) :
    statement? before (keyword ++ (s.gap.chars ++ (s.name.chars ++ (s.back ++ tail)))) =
      some (s.name.chars,s.back ++ tail) := by
  obtain ⟨blank,blanks,gap,here⟩ := s.gap.exists_cons
  obtain ⟨letter,letters,name,first⟩ := s.name.exists_cons
  have visible : Stops isBlank (s.name.chars ++ (s.back ++ tail)) := by
    rw [name]
    exact stops_cons (isBlank_of_word (isWord_of_identifier first)) _
  have skipped : skipBlanks (s.gap.chars ++ (s.name.chars ++ (s.back ++ tail))) =
      s.name.chars ++ (s.back ++ tail) := dropWhile_run s.gap.sound visible
  have stops : Stops isIdentifier (s.back ++ tail) := s.ended.append (ends.stops (by decide))
  have taken : (s.name.chars ++ (s.back ++ tail)).takeWhile isIdentifier = s.name.chars :=
    takeWhile_run s.name.sound stops
  have left : (s.name.chars ++ (s.back ++ tail)).dropWhile isIdentifier = s.back ++ tail :=
    dropWhile_run s.name.sound stops
  rw [statement?_eq,if_pos starts,after?_append,Option.bind_some,skipped,taken,left]
  simp [gap,name,here]

end Statement

/-- The search takes the module of a line, and goes on at its end. -/
theorem Line.allFrom_chars (line : Line) (starts : startsWord before = true) (ends : EndsLine tail) :
    allFrom statement? before 0 (line.chars ++ tail) =
      (line.name?.map String.toList).toList ++ allFrom statement? (behind before line.chars) 0 tail := by
  cases line with
  | other text unsaid => exact allFrom_of_misses (misses_unsaid unsaid ends.apart before)
  | statement s =>
    have apart : Apart keyword keyword := by decide
    have front := misses_unsaid s.unsaid
      (apart.append (s.gap.chars ++ (s.name.chars ++ (s.back ++ tail)))) before
    have wordless : before.any isWord = false := by simpa [startsWord] using starts
    have word : startsWord (behind before s.front) = true := by
      rw [startsWord,any_behind wordless s.apart]
      rfl
    have reads := s.reads word ends
    have piece : keyword ++ (s.gap.chars ++ (s.name.chars ++ (s.back ++ tail))) =
        (keyword ++ (s.gap.chars ++ s.name.chars)) ++ (s.back ++ tail) := by
      simp only [List.append_assoc]
    have filled : keyword ++ (s.gap.chars ++ s.name.chars) ≠ [] := List.cons_ne_nil _ _
    have back := misses_unsaid s.unrepeated ends.apart
      (behind (behind before s.front) (keyword ++ (s.gap.chars ++ s.name.chars)))
    have whole : (statement s).chars = s.front ++ ((keyword ++ (s.gap.chars ++ s.name.chars)) ++ s.back) := by
      simp [chars]
    rw [piece] at reads
    rw [whole,List.append_assoc,List.append_assoc,allFrom_of_misses (piece ▸ front),
      allFrom_of_piece filled reads,allFrom_of_misses back,← behind_append,← behind_append]
    rfl

/-! All lines. -/

theorem allFrom_lines (lines : List Line) (starts : startsWord before = true) :
    allFrom statement? before 0 (['\n'].intercalate (lines.map Line.chars)) =
      (lines.filterMap Line.name?).map String.toList := by
  induction lines generalizing before with
  | nil => rfl
  | cons line lines ih =>
    have names : ((line :: lines).filterMap Line.name?).map String.toList =
        (line.name?.map String.toList).toList ++ (lines.filterMap Line.name?).map String.toList := by
      cases shape : line.name? <;> simp [shape]
    cases lines with
    | nil =>
      have last : EndsLine [] := nofun
      have only := line.allFrom_chars starts last
      rw [List.append_nil] at only
      rw [names,List.map_singleton,List.intercalate_singleton,only]
      rfl
    | cons next lines =>
      have break_ (before : Option Char) (cs : List Char) : statement? before ('\n' :: cs) = none :=
        statement?_none_of_unsaid _ _ (after?_of_ne (by decide) _ _)
      have ends (cs : List Char) : EndsLine ('\n' :: cs) := by simp [EndsLine]
      rw [names,List.map_cons,List.map_cons,List.intercalate_cons_cons,List.append_assoc,
        List.singleton_append,line.allFrom_chars starts (ends _),allFrom,break_]
      exact congrArg _ (ih (by decide))

theorem modules_document (lines : List Line) : modules (document lines) = lines.filterMap Line.name? := by
  have atStart : startsWord none = true := rfl
  have found := allFrom_lines lines atStart
  rw [modules,document,String.toList_ofList,all,found,List.map_map]
  exact (List.map_congr_left fun _ _ => String.ofList_toList).trans (List.map_id _)

theorem count_modules_document (lines : List Line) (name : String) :
    (modules (document lines)).count name = times lines name := by
  rw [modules_document,times,List.count_eq_countP,List.countP_filterMap]
  apply List.countP_congr
  intro line _
  cases line.name? <;> simp

/-- Of the names that are asked for, those have a count that some line imports, and the count is the number of
these lines, whatever other names are asked for. -/
theorem imports_are_lines (lines : List Line) (names : List String) :
    (count (document lines) names).keys.Nodup ∧
    (∀ name n, (count (document lines) names).get? name = some n ↔
      name ∈ names ∧ 0 < times lines name ∧ n = times lines name) ∧
    ∀ name ∈ names, ∀ others, name ∈ others →
      (count (document lines) names).get? name = (count (document lines) others).get? name := by
  refine ⟨nodup_keys_count _ _,fun name n => ?_,fun name asked others also => get?_count_congr asked also⟩
  have said : name ∈ modules (document lines) ↔ 0 < times lines name := by
    rw [← count_modules_document,List.count_pos_iff]
  rw [get?_count,count_modules_document]
  simp only [said,Option.ite_none_right_eq_some,Option.some.injEq,and_assoc]
  rw [eq_comm (a := n)]

def wordyLines : List Line := [
  .statement ⟨"@testable ".toList,⟨" ",by decide,by decide⟩,⟨"import",by decide,by decide⟩,[],
    by decide,by decide,by decide,by decide⟩,
  .other "import".toList.dropLast (by decide),
  .other "t Foo".toList (by decide),
  .statement ⟨[],⟨"   ",by decide,by decide⟩,⟨"Foo",by decide,by decide⟩,".Bar // imp".toList,
    by decide,by decide,by decide,by decide⟩,
  .statement ⟨"x;".toList,⟨" ",by decide,by decide⟩,⟨"importFoo",by decide,by decide⟩,"é".toList,
    by decide,by decide,by decide,by decide⟩,
  .statement ⟨[],⟨" ",by decide,by decide⟩,⟨"Foo",by decide,by decide⟩,[],
    by decide,by decide,by decide,by decide⟩]

example : document wordyLines = String.intercalate "\n" ["@testable import import","impor","t Foo",
    "import   Foo.Bar // imp","x;import importFooé","import Foo"] := by decide

theorem wordy_lines_are_counted :
    "Foo" ∈ ["Foo","import","Bar"] ∧ "Foo" ∈ ["Foo"] ∧
    (count (document wordyLines) ["Foo","import","Bar"]).keys.Nodup ∧
    (count (document wordyLines) ["Foo","import","Bar"]).get? "Foo" = some 2 ∧
    (count (document wordyLines) ["Foo","import","Bar"]).get? "import" = some 1 ∧
    (count (document wordyLines) ["Foo","import","Bar"]).get? "Bar" = none ∧
    (count (document wordyLines) ["Foo","import","Bar"]).get? "Foo" =
      (count (document wordyLines) ["Foo"]).get? "Foo" := by
  obtain ⟨once,counted,same⟩ := imports_are_lines wordyLines ["Foo","import","Bar"]
  have unused : (count (document wordyLines) ["Foo","import","Bar"]).get? "Bar" = none := by
    apply Option.eq_none_iff_forall_ne_some.mpr
    intro n found
    exact absurd ((counted "Bar" n).mp found).2.1 (by decide)
  exact ⟨by decide,by decide,once,(counted "Foo" 2).mpr (by decide),(counted "import" 1).mpr (by decide),
    unused,same "Foo" (by decide) ["Foo"] (by decide)⟩

end DepAudit.Imports
