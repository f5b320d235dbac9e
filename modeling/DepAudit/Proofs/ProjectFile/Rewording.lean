import DepAudit.Proofs.ProjectFile.AlikeSections

/-! Other comments in a written project file. Whatever its comments are made to say, the same targets are
read, as long as they hold none of the signs that scanners of raw text look for; a single brace is
enough to lose a target. -/
namespace DepAudit.ProjectFile
open Text Layout

/-- A text in which the comments, counted from a number on, say something else; the second number
counts the characters of a comment that are still to be passed over. -/
def rewordFrom (saying : Nat → List Char) : Nat → Nat → List Char → List Char
  | _,_,[] => []
  | n,skip + 1,_ :: cs => rewordFrom saying n skip cs
  | n,0,c :: cs =>
    match afterComment? (c :: cs) with
    | some rest =>
      '/' :: '*' :: (saying n ++ '*' :: '/' :: rewordFrom saying (n + 1) (cs.length - rest.length) cs)
    | none => c :: rewordFrom saying n 0 cs

def reword (saying : Nat → String) (text : String) : String :=
  String.ofList (rewordFrom (fun n => (saying n).toList) 0 0 text.toList)

section reword

variable {saying : Nat → List Char} {place : Place} {xs ys : List Char}

theorem rewordFrom_skip (n : Nat) (cs back : List Char) :
    rewordFrom saying n cs.length (cs ++ back) = rewordFrom saying n 0 back := by
  induction cs with
  | nil => cases back <;> rfl
  | cons c cs ih => exact ih

theorem rewordFrom_slashless {cs : List Char} (slashless : ∀ c ∈ cs, c ≠ '/') (n : Nat)
    (back : List Char) : rewordFrom saying n 0 (cs ++ back) = cs ++ rewordFrom saying n 0 back := by
  induction cs with
  | nil => rfl
  | cons c cs ih =>
    obtain ⟨here,later⟩ := List.forall_mem_cons.mp slashless
    rw [List.cons_append,rewordFrom,afterComment?_of_ne here]
    exact congrArg (c :: ·) (ih later)

theorem rewordFrom_comment (c : Comment) (n : Nat) (back : List Char) :
    rewordFrom saying n 0 (c.chars ++ back) =
      '/' :: '*' :: (saying n ++ '*' :: '/' :: rewordFrom saying (n + 1) 0 back) := by
  obtain ⟨inside,opened⟩ : ∃ cs, c.chars = '/' :: cs := ⟨_,rfl⟩
  have behindIt := c.afterComment?_chars back
  rw [opened,List.cons_append] at behindIt ⊢
  rw [rewordFrom,behindIt]
  dsimp only
  rw [length_append_sub,rewordFrom_skip]

/-- A text with other comments is alike. -/
theorem AlikeFrom.reworded (same : AlikeFrom place xs ys) (comments : Nat → Comment) (n : Nat) :
    AlikeFrom place xs (rewordFrom (fun n => (comments n).text.toList) n 0 xs) := by
  induction same generalizing n with
  | nil place => exact .nil place
  | @char place c xs ys quoteless slashless rest ih =>
    rw [rewordFrom,afterComment?_of_ne slashless]
    exact .char quoteless slashless (ih n)
  | quoted word rest ih =>
    rw [rewordFrom_slashless (slashless_quoted word)]
    exact .quoted word (ih n)
  | @comment xs ys one other rest ih =>
    have said : rewordFrom (fun n => (comments n).text.toList) n 0 (one.chars ++ xs) =
        (comments n).chars ++ rewordFrom (fun n => (comments n).text.toList) (n + 1) 0 xs := by
      rw [rewordFrom_comment,Comment.chars]
      simp
    rw [said]
    exact .comment one (comments n) (ih (n + 1))

end reword

/-! The usual layout. -/

structure Leads (start finish : Place) (cs : List Char) : Prop where
  alike : ∀ {xs ys}, AlikeFrom finish xs ys → AlikeFrom start (cs ++ xs) (cs ++ ys)

namespace Leads

variable {start middle finish place : Place} {cs ds : List Char}

theorem append (first : Leads start middle cs) (second : Leads middle finish ds) :
    Leads start finish (cs ++ ds) where
  alike rest := by
    rw [List.append_assoc,List.append_assoc]
    exact first.alike (second.alike rest)

theorem flatMap {α : Type} {items : List α} {piece : α → List Char}
    (each : ∀ item, Leads place place (piece item)) : Leads place place (items.flatMap piece) := by
  induction items with
  | nil => exact ⟨id⟩
  | cons item items ih => exact (each item).append ih

theorem marks (plain : ∀ c ∈ cs, c ≠ '"' ∧ c ≠ '/') (ends : cs.foldl Place.next start = finish) :
    Leads start finish cs := by
  induction cs generalizing start with
  | nil =>
    obtain rfl : start = finish := ends
    exact ⟨id⟩
  | cons c cs ih =>
    obtain ⟨here,later⟩ := List.forall_mem_cons.mp plain
    exact ⟨fun rest => .char here.1 here.2 ((ih later ends).alike rest)⟩

/-- Behind a word no comment may stand at once. -/
theorem word {allowed : Char → Bool} (phrase : Phrase allowed)
    (plain : ∀ c, allowed c = true → isPlain c = true) : Leads start .tight phrase.chars := by
  have all : ∀ c ∈ phrase.chars, isPlain c = true := fun c member => plain c (phrase.sound c member)
  obtain ⟨c,cs,spelled,_⟩ := phrase.exists_cons
  rw [spelled] at all ⊢
  have tight : ∀ d ∈ c :: cs, ∀ place : Place, place.next d = .tight := fun d member place =>
    Place.next_visible (isBlank_of_plain (all d member)) (ne_of_class (all d member) (by decide)) place
  obtain ⟨first,others⟩ := List.forall_mem_cons.mp tight
  refine marks (fun d member => ?_) ?_
  · exact ⟨ne_of_class (all d member) (by decide),ne_of_class (all d member) (by decide)⟩
  · rw [List.foldl_cons,first]
    exact Place.foldl_next fun d member => others d member _

end Leads

namespace Layout

theorem leads_remark (phrase : Phrase isSpoken) : Leads .loose .tight (remark phrase) := by
  rw [remark_eq]
  exact ⟨.comment _ _⟩

theorem leads_note (phrase : Phrase isSpoken) : Leads .tight .tight (note phrase) :=
  have blank : Leads .tight .loose [' '] := .marks (by decide) (by decide)
  blank.append (leads_remark phrase)

theorem leads_item (comment : Phrase isSpoken) (id : Phrase isIdChar) :
    Leads .loose .loose (item comment id) :=
  have tabs : Leads .loose .loose "\t\t\t\t".toList := .marks (by decide) (by decide)
  have comma : Leads .tight .loose ",\n".toList := .marks (by decide) (by decide)
  tabs.append ((Leads.word id isPlain_of_id).append ((leads_note comment).append comma))

theorem Value.leads (value : Value) : Leads .valued .tight value.chars := by
  cases value with
  | word w => exact Leads.word w fun _ => id
  | noted w comment => exact (Leads.word w fun _ => id).append (leads_note comment)
  | quoted w => exact ⟨.quoted w⟩
  | list comment ids =>
    have opening : Leads .valued .loose "(\n".toList := .marks (by decide) (by decide)
    have closing : Leads .loose .tight "\t\t\t)".toList := .marks (by decide) (by decide)
    exact opening.append ((Leads.flatMap (leads_item comment)).append closing)

theorem Entry.leads (e : Entry) {indent : List Char} (tabs : Leads .loose .loose indent) :
    Leads .loose .loose (e.chars indent) :=
  have sign : Leads .tight .valued " = ".toList := .marks (by decide) (by decide)
  have close : Leads .tight .loose ";\n".toList := .marks (by decide) (by decide)
  tabs.append ((Leads.word e.key isPlain_of_identifier).append
    (sign.append (e.value.leads.append close)))

theorem Section.leads (s : Section) : Leads .loose .loose s.chars := by
  have tabs : Leads .loose .loose "\t\t".toList := .marks (by decide) (by decide)
  have indent : Leads .loose .loose ['\t','\t','\t'] := .marks (by decide) (by decide)
  have brace : Leads .tight .tight " = \x7b".toList := .marks (by decide) (by decide)
  have line : Leads .tight .loose "\n".toList := .marks (by decide) (by decide)
  have close : Leads .loose .loose "\x7d;\n".toList := .marks (by decide) (by decide)
  have body : Leads .tight .loose s.body := line.append ((Leads.flatMap fun e : Entry => e.leads indent).append tabs)
  exact tabs.append ((Leads.word s.id isPlain_of_id).append ((leads_note s.comment).append
    (brace.append (body.append close))))

/-- Behind its first two lines, a written project file is alike to itself. -/
theorem alike_project (front back : List Section) :
    ∃ rest, project front back = "// !$*UTF8*$!\n\x7b\n".toList ++ rest ∧
      AlikeFrom .loose rest rest := by
  have tab : Leads .loose .loose ['\t'] := .marks (by decide) (by decide)
  have line : Leads .tight .loose "\n".toList := .marks (by decide) (by decide)
  have empty : Leads .loose .loose "\n".toList := .marks (by decide) (by decide)
  have lines : Leads .tight .loose "\n\n".toList := .marks (by decide) (by decide)
  have objects : Leads .loose .loose "\tobjects = \x7b\n\n".toList := .marks (by decide) (by decide)
  have shut : Leads .tight .loose "\n\t\x7d;\n".toList := .marks (by decide) (by decide)
  have last : Leads .loose .loose "\x7d\n".toList := .marks (by decide) (by decide)
  obtain ⟨head,spelled,opening⟩ : ∃ head, prologue = "// !$*UTF8*$!\n\x7b\n".toList ++ head ∧
      Leads .loose .loose head :=
    ⟨_,rfl,(Entry.leads _ tab).append ((Entry.leads _ tab).append
      (objects.append ((leads_remark _).append line)))⟩
  have between : Leads .loose .loose middle :=
    empty.append ((leads_remark _).append (lines.append ((leads_remark _).append line)))
  have closing : Leads .loose .loose epilogue :=
    empty.append ((leads_remark _).append (shut.append ((Entry.leads _ tab).append last)))
  have whole : Leads .loose .loose (head ++ (front.flatMap Section.chars ++ (middle ++
      (back.flatMap Section.chars ++ epilogue)))) :=
    opening.append ((Leads.flatMap Section.leads).append (between.append
      ((Leads.flatMap Section.leads).append closing)))
  have same := whole.alike (.nil .loose)
  rw [List.append_nil] at same
  rw [project,spelled,List.append_assoc]
  exact ⟨_,rfl,same⟩

theorem rewordFrom_banner (saying : Nat → List Char) (rest : List Char) :
    rewordFrom saying 0 0 ("// !$*UTF8*$!\n\x7b\n".toList ++ rest) =
      "// !$*UTF8*$!\n\x7b\n".toList ++ rewordFrom saying 0 0 rest := by
  have parts : "// !$*UTF8*$!\n\x7b\n".toList = '/' :: '/' :: " !$*UTF8*$!\n\x7b\n".toList := by decide
  have first : ∀ cs, afterComment? ('/' :: '/' :: cs) = none := fun _ => rfl
  have second : ∀ cs, afterComment? ('/' :: (" !$*UTF8*$!\n\x7b\n".toList ++ cs)) = none := fun _ => rfl
  rw [parts,List.cons_append,List.cons_append,rewordFrom,first]
  dsimp only
  rw [rewordFrom,second]
  exact congrArg ('/' :: '/' :: ·) (rewordFrom_slashless (by decide) 0 rest)

end Layout

/-- A written project file is read as the same targets whatever its comments say, as long as they hold no
signs and no marks of further comments. -/
theorem read_reword (front back : List Member) (comments : Nat → Comment) :
    read (reword (fun n => (comments n).text) (document front back)) targetKind =
      read (document front back) targetKind := by
  obtain ⟨rest,parts,same⟩ := alike_project (front.map Member.written) (back.map Member.written)
  rw [reword,document,String.toList_ofList,parts,rewordFrom_banner]
  exact (AlikeFrom.read_eq silent_banner (same.reworded comments 0)
    ⟨targetKind,by decide,by decide⟩).symm

def lone : Member := .target ⟨⟨"A1",by decide,by decide⟩,⟨"App",by decide,by decide⟩,
  ⟨"com.apple.product-type.framework",by decide,by decide⟩,[]⟩

def quoting (n : Nat) : String :=
  [" Begin PBXNativeTarget section "," App "," Build configuration list "," Sources \" ",
    " End PBXNativeTarget section "," Begin PBXTargetDependency section ",
    " End PBXTargetDependency section "," Project object "].getD n ""

/-- Signs are not harmless: behind a single quote in a comment no brace counts any more, and the section
is lost. -/
theorem quote_in_comment_loses_section :
    (read (document [lone] []) targetKind).sectionsFound = 1 ∧
      read (reword quoting (document [lone] [])) targetKind =
        { targets := [], sectionsFound := 0, skipped := 0 } := by
  have counted : ∀ text, (read text targetKind).sectionsFound = (sections text targetKind).length :=
    fun _ => rfl
  have lost : sections (reword quoting (document [lone] [])) targetKind = [] := by
    rw [sections,reword,document,String.toList_ofList,String.toList_ofList]
    decide +kernel
  constructor
  · rw [counted,sections,document,String.toList_ofList]
    decide +kernel
  · rw [read,lost]
    rfl

end DepAudit.ProjectFile
