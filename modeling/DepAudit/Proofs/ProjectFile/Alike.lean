import DepAudit.Proofs.ProjectFile.Sections
import Mathlib.Data.List.Forall2

/-! Texts that differ only in what their comments say. Walked through side by side, two such texts show
a scanner the same signs at the same places, so that it stops in both or in neither, and what it leaves
of them is alike again. -/
namespace DepAudit.ProjectFile
open Text Layout

/-! Walking through two texts. -/

/-- What stands before a place in a text: a comment may stand behind a blank, except where a value is
due. -/
inductive Place where
  | tight
  | loose
  | valued
  deriving DecidableEq

namespace Place

def wait : Place → Place
  | valued => valued
  | _ => loose

def next (place : Place) (c : Char) : Place :=
  if c = '=' then valued else if isBlank c then place.wait else tight

theorem next_blank {c : Char} (blank : isBlank c = true) (place : Place) :
    place.next c = place.wait := by
  have unequal : c ≠ '=' := ne_of_class blank (by decide)
  rw [next,if_neg unequal,if_pos blank]

theorem next_visible {c : Char} (visible : isBlank c = false) (unequal : c ≠ '=') (place : Place) :
    place.next c = tight := by
  rw [next,if_neg unequal,if_neg (ne_true_of_eq_false visible)]

theorem next_ne_loose {c : Char} (visible : isBlank c = false) (place : Place) :
    place.next c ≠ loose := by
  by_cases equal : c = '='
  · rw [next,if_pos equal]
    decide
  · rw [next_visible visible equal]
    decide

theorem foldl_next {place : Place} {cs : List Char} (stays : ∀ c ∈ cs, place.next c = place) :
    cs.foldl next place = place := by
  induction cs with
  | nil => rfl
  | cons c cs ih =>
    obtain ⟨here,later⟩ := List.forall_mem_cons.mp stays
    rw [List.foldl_cons,here]
    exact ih later

end Place

/-- Two texts are alike from a place on: they differ in what their comments say, and in nothing
else. -/
inductive AlikeFrom : Place → List Char → List Char → Prop
  | nil (place : Place) : AlikeFrom place [] []
  | char {place : Place} {c : Char} {xs ys : List Char} (quoteless : c ≠ '"') (slashless : c ≠ '/')
      (rest : AlikeFrom (place.next c) xs ys) : AlikeFrom place (c :: xs) (c :: ys)
  | quoted {place : Place} {xs ys : List Char} (word : Phrase isPlain)
      (rest : AlikeFrom .tight xs ys) :
      AlikeFrom place ((Value.quoted word).chars ++ xs) ((Value.quoted word).chars ++ ys)
  | comment {xs ys : List Char} (one other : Comment) (rest : AlikeFrom .tight xs ys) :
      AlikeFrom .loose (one.chars ++ xs) (other.chars ++ ys)

def Alike (xs ys : List Char) : Prop := ∃ place, AlikeFrom place xs ys

section relations

variable {α β γ δ : Type} {R R' : α → β → Prop} {S : γ → δ → Prop} {a : Option α} {b : Option β}

theorem rel_imp (weaker : ∀ {x y}, R x y → R' x y) (related : Option.Rel R a b) :
    Option.Rel R' a b := by
  cases related with
  | none => exact .none
  | some related => exact .some (weaker related)

theorem rel_bind {f : α → Option γ} {g : β → Option δ} (related : Option.Rel R a b)
    (next : ∀ {x y}, R x y → Option.Rel S (f x) (g y)) : Option.Rel S (a.bind f) (b.bind g) := by
  cases related with
  | none => exact .none
  | some related => exact next related

theorem rel_map {f : α → γ} {g : β → δ} (related : Option.Rel R a b)
    (next : ∀ {x y}, R x y → S (f x) (g y)) : Option.Rel S (a.map f) (b.map g) := by
  cases related with
  | none => exact .none
  | some related => exact .some (next related)

theorem rel_or {a' : Option α} {b' : Option β} (related : Option.Rel R a b)
    (otherwise : Option.Rel R a' b') : Option.Rel R (a <|> a') (b <|> b') := by
  cases related with
  | none => exact otherwise
  | some related => exact .some related

end relations

variable {place : Place} {xs ys : List Char} {key wanted : Phrase isIdentifier}

namespace AlikeFrom

theorem alike (same : AlikeFrom place xs ys) : Alike xs ys := ⟨place,same⟩

theorem head?_eq (same : AlikeFrom place xs ys) : xs.head? = ys.head? := by
  cases same <;> rfl

theorem rel_after? (same : AlikeFrom place xs ys) (mark : List Char)
    (plain : ∀ m ∈ mark, m ≠ '"' ∧ m ≠ '/') :
    Option.Rel (AlikeFrom (mark.foldl Place.next place)) (after? mark xs) (after? mark ys) := by
  induction mark generalizing place xs ys with
  | nil => exact .some same
  | cons m mark ih =>
    obtain ⟨here,later⟩ := List.forall_mem_cons.mp plain
    cases same with
    | nil => exact .none
    | @char _ c xs ys quoteless slashless rest =>
      by_cases equal : m = c
      · subst equal
        rw [Text.after?,Text.after?,if_pos rfl,if_pos rfl]
        exact ih rest later
      · rw [after?_of_ne equal,after?_of_ne equal]
        exact .none
    | quoted word rest =>
      have apart : ∀ back, Text.after? (m :: mark) ((Value.quoted word).chars ++ back) = none :=
        fun back => after?_of_ne here.1 mark _
      rw [apart,apart]
      exact .none
    | comment one other rest =>
      have apart : ∀ (c : Comment) back, Text.after? (m :: mark) (c.chars ++ back) = none :=
        fun c back => after?_of_ne here.2 mark _
      rw [apart,apart]
      exact .none

/-- Behind an equals sign a value is due. -/
theorem rel_sign (same : AlikeFrom place xs ys) :
    Option.Rel (AlikeFrom .valued) (after? ['='] xs) (after? ['='] ys) :=
  same.rel_after? ['='] (by decide)

theorem takeWhile_eq {p : Char → Bool} (quote : p '"' = false) (slash : p '/' = false)
    (same : AlikeFrom place xs ys) : xs.takeWhile p = ys.takeWhile p := by
  induction same with
  | nil => rfl
  | char quoteless slashless rest ih =>
    rw [List.takeWhile_cons,List.takeWhile_cons,ih]
  | quoted word rest ih =>
    exact (List.takeWhile_cons_of_neg (ne_true_of_eq_false quote)).trans
      (List.takeWhile_cons_of_neg (ne_true_of_eq_false quote)).symm
  | comment one other rest ih =>
    exact (List.takeWhile_cons_of_neg (ne_true_of_eq_false slash)).trans
      (List.takeWhile_cons_of_neg (ne_true_of_eq_false slash)).symm

theorem dropWhile {p : Char → Bool} (quote : p '"' = false) (slash : p '/' = false)
    (same : AlikeFrom place xs ys) :
    AlikeFrom ((xs.takeWhile p).foldl Place.next place) (xs.dropWhile p) (ys.dropWhile p) := by
  induction same with
  | nil place => exact .nil place
  | @char _ c xs ys quoteless slashless rest ih =>
    cases kept : p c with
    | true =>
      rw [List.takeWhile_cons_of_pos kept,List.dropWhile_cons_of_pos kept,
        List.dropWhile_cons_of_pos kept]
      exact ih
    | false =>
      have ends := ne_true_of_eq_false kept
      rw [List.takeWhile_cons_of_neg ends,List.dropWhile_cons_of_neg ends,
        List.dropWhile_cons_of_neg ends]
      exact .char quoteless slashless rest
  | quoted word rest ih =>
    have none : ∀ back, ((Value.quoted word).chars ++ back).takeWhile p = [] :=
      fun back => List.takeWhile_cons_of_neg (ne_true_of_eq_false quote)
    have all : ∀ back, ((Value.quoted word).chars ++ back).dropWhile p =
        (Value.quoted word).chars ++ back :=
      fun back => List.dropWhile_cons_of_neg (ne_true_of_eq_false quote)
    rw [none,all,all]
    exact .quoted word rest
  | comment one other rest ih =>
    have none : ∀ (c : Comment) back, (c.chars ++ back).takeWhile p = [] :=
      fun c back => List.takeWhile_cons_of_neg (ne_true_of_eq_false slash)
    have all : ∀ (c : Comment) back, (c.chars ++ back).dropWhile p = c.chars ++ back :=
      fun c back => List.dropWhile_cons_of_neg (ne_true_of_eq_false slash)
    rw [none,all,all]
    exact .comment one other rest

theorem skipBlanks (same : AlikeFrom place xs ys) :
    Alike (Text.skipBlanks xs) (Text.skipBlanks ys) :=
  (same.dropWhile (by decide) (by decide)).alike

theorem skipBlanks_valued (same : AlikeFrom .valued xs ys) :
    AlikeFrom .valued (Text.skipBlanks xs) (Text.skipBlanks ys) := by
  have stays : (xs.takeWhile isBlank).foldl Place.next .valued = .valued :=
    Place.foldl_next fun c member => Place.next_blank (List.mem_takeWhile_imp member) _
  have rest := same.dropWhile (p := isBlank) (by decide) (by decide)
  rwa [stays] at rest

end AlikeFrom

namespace Alike

theorem skipBlanks (same : Alike xs ys) : Alike (Text.skipBlanks xs) (Text.skipBlanks ys) := by
  obtain ⟨_,same⟩ := same
  exact same.skipBlanks

theorem skipComment (same : Alike xs ys) :
    Alike (ProjectFile.skipComment xs) (ProjectFile.skipComment ys) := by
  obtain ⟨place,same⟩ := same
  cases same with
  | nil => exact ⟨place,.nil place⟩
  | char quoteless slashless rest =>
    rw [ProjectFile.skipComment,ProjectFile.skipComment,afterComment?_of_ne slashless,
      afterComment?_of_ne slashless]
    exact ⟨place,.char quoteless slashless rest⟩
  | quoted word rest =>
    have none : ∀ back, afterComment? ((Value.quoted word).chars ++ back) = none :=
      fun back => afterComment?_of_ne (by decide) _
    rw [ProjectFile.skipComment,ProjectFile.skipComment,none,none]
    exact ⟨place,.quoted word rest⟩
  | comment one other rest =>
    rw [ProjectFile.skipComment,ProjectFile.skipComment,one.afterComment?_chars,
      other.afterComment?_chars]
    exact rest.alike

theorem skipGap (same : Alike xs ys) : Alike (ProjectFile.skipGap xs) (ProjectFile.skipGap ys) :=
  same.skipBlanks.skipComment.skipBlanks

end Alike

/-! Values. -/

theorem endsEntry_eq (same : Alike xs ys) : endsEntry xs = endsEntry ys := by
  obtain ⟨_,same⟩ := same.skipGap
  rw [endsEntry,endsEntry,same.head?_eq]

namespace AlikeFrom

theorem bareWord?_eq (same : AlikeFrom place xs ys) (due : place ≠ .loose) :
    bareWord? xs = bareWord? ys := by
  -- A comment is never met inside the word: it would need a blank before it, where the word ends.
  induction same with
  | nil => rfl
  | @char place c xs ys quoteless slashless rest ih =>
    rw [bareWord?,bareWord?]
    cases bare : isBare c with
    | true =>
      have visible : isBlank c = false := by
        cases blank : isBlank c with
        | false => rfl
        | true => simp [isBare,blank] at bare
      rw [ih (Place.next_ne_loose visible place),endsEntry_eq rest.alike]
    | false => rfl
  | quoted word rest ih => rfl
  | comment one other rest ih => exact absurd rfl due

theorem entryValue?_eq (same : AlikeFrom .valued xs ys) : entryValue? xs = entryValue? ys := by
  cases same with
  | nil => rfl
  | @char _ c xs ys quoteless slashless rest =>
    have bare : ∀ cs, entryValue? (c :: cs) = bareWord? (c :: cs) := by
      intro cs
      rw [entryValue?.eq_def]
      split
      · rename_i same
        exact absurd (List.cons.inj same).1 quoteless
      · rfl
    rw [bare,bare]
    exact bareWord?_eq (.char quoteless slashless rest) (by decide)
  | quoted word rest =>
    have value : ∀ back, entryValue? ((Value.quoted word).chars ++ back) =
        if endsEntry back then some word.chars else none := by
      intro back
      rw [Value.chars,List.cons_append,List.append_assoc,List.singleton_append,
        entryValue?_string (quotedText_phrase word)]
    rw [value,value,endsEntry_eq rest.alike]

end AlikeFrom

/-! Searches. -/

theorem plain_of_identifier (word : Phrase isIdentifier) :
    ∀ c ∈ word.chars, c ≠ '"' ∧ c ≠ '/' := fun c member =>
  have identifier := word.sound c member
  ⟨ne_of_class identifier (by decide),ne_of_class identifier (by decide)⟩

theorem Alike.rel_keyed? (same : Alike xs ys) (key : Phrase isIdentifier) (before : Option Char) :
    Option.Rel (AlikeFrom .valued) (keyed? key.chars before xs) (keyed? key.chars before ys) := by
  obtain ⟨_,same⟩ := same
  rw [keyed?_eq,keyed?_eq]
  split
  · refine rel_bind (same.rel_after? key.chars (plain_of_identifier key)) fun rest => ?_
    obtain ⟨_,rest⟩ := rest.skipBlanks
    exact rel_map rest.rel_sign AlikeFrom.skipBlanks_valued
  · exact .none

/-- A search for what needs a word with a value finds alike readings in alike texts, if what it reads
at alike places is alike. -/
theorem AlikeFrom.rel_firstFrom? {α : Type} {p : Pattern α}
    {R : α × List Char → α × List Char → Prop}
    (weaker : ∀ before cs, assigned? before cs = none → p before cs = none)
    (reads : ∀ {xs ys}, Alike xs ys → ∀ before, Option.Rel R (p before xs) (p before ys))
    (same : AlikeFrom place xs ys) (before : Option Char) :
    Option.Rel R (firstFrom? p before xs) (firstFrom? p before ys) := by
  -- Strings and comments are passed over as wholes, comments of any length on either side.
  induction same generalizing before with
  | nil => exact .none
  | @char place c xs ys quoteless slashless rest ih =>
    have here := reads ⟨place,.char quoteless slashless rest⟩ before
    rw [firstFrom?,firstFrom?]
    cases one : p before (c :: xs) <;> cases other : p before (c :: ys) <;>
      rw [one,other] at here
    · exact ih _
    · cases here
    · cases here
    · exact here
  | quoted word rest ih =>
    have silent := (silent_quoted word).mono weaker
    rw [firstFrom?_of_misses (silent _ _),firstFrom?_of_misses (silent _ _)]
    exact ih _
  | comment one other rest ih =>
    rw [firstFrom?_of_misses (one.silent.mono weaker _ _),
      firstFrom?_of_misses (other.silent.mono weaker _ _),one.behind_chars,other.behind_chars]
    exact ih _

/-- The value of a key does not depend on what comments say. -/
theorem value?_eq {body other : String} (same : Alike body.toList other.toList)
    (key : Phrase isIdentifier) : value? body key.text = value? other key.text := by
  obtain ⟨_,same⟩ := same
  have found : Option.Rel (fun r s => r.1 = s.1) (first? (keyedValue? key.chars) body.toList)
      (first? (keyedValue? key.chars) other.toList) := by
    refine same.rel_firstFrom? (fun before cs unassigned => ?_) (fun same before => ?_) none
    · exact keyedValue?_none _ _ _ (keyed?_none_of_unassigned key before cs unassigned)
    · refine rel_bind (same.rel_keyed? key before) fun rest => ?_
      rw [rest.entryValue?_eq]
      cases entryValue? _ with
      | none => exact .none
      | some value => exact .some rfl
  rw [value?,value?,show key.text.toList = key.chars from rfl]
  generalize first? (keyedValue? key.chars) body.toList = one at found ⊢
  generalize first? (keyedValue? key.chars) other.toList = two at found ⊢
  cases found with
  | none => rfl
  | @some reading reading' same =>
    obtain ⟨value,rest⟩ := reading
    obtain ⟨value',rest'⟩ := reading'
    obtain rfl : value = value' := same
    cases value <;> rfl

/-! Lists of ids. -/

theorem slashless_quoted (word : Phrase isPlain) : ∀ c ∈ (Value.quoted word).chars, c ≠ '/' := by
  intro c member
  rw [Value.chars,List.mem_cons,List.mem_append,List.mem_singleton] at member
  rcases member with rfl | inside | rfl
  · decide
  · exact ne_of_class (word.sound c inside) (by decide)
  · decide

/-- Once its comments are taken out, nothing tells a text from another that is alike. -/
theorem AlikeFrom.replace_eq (same : AlikeFrom place xs ys) (before before' : Option Char) :
    replaceFrom comment? [' '] before 0 xs = replaceFrom comment? [' '] before' 0 ys := by
  induction same generalizing before before' with
  | nil => rfl
  | @char place c xs ys quoteless slashless rest ih =>
    have none : ∀ before cs, comment? before (c :: cs) = none := fun before cs => by
      rw [comment?,afterComment?_of_ne slashless]
      rfl
    rw [replaceFrom,replaceFrom,none,none]
    exact congrArg (c :: ·) (ih _ _)
  | quoted word rest ih =>
    have silent := silent_comment (slashless_quoted word)
    rw [replaceFrom_of_misses (silent _ _),replaceFrom_of_misses (silent _ _),ih]
  | comment one other rest ih =>
    have blank : ∀ (c : Comment) back before, replaceFrom comment? [' '] before 0 (c.chars ++ back) =
        ' ' :: replaceFrom comment? [' '] (some '/') 0 back := by
      intro c back before
      have reads : comment? before (c.chars ++ back) = some ((),back) := by
        rw [comment?,c.afterComment?_chars]
        rfl
      have last := c.behind_chars none
      rw [Comment.chars,behind_cons] at last
      rw [Comment.chars,List.cons_append] at reads ⊢
      rw [replaceFrom_of_reads reads,last]
      rfl
    rw [blank,blank,ih]

theorem ids_eq {body other : String} (same : Alike body.toList other.toList)
    (key : Phrase isIdentifier) : ids body key.text = ids other key.text := by
  obtain ⟨_,same⟩ := same
  have found : Option.Rel (fun r s => Alike r.2 s.2) (first? (listStart? key.chars) body.toList)
      (first? (listStart? key.chars) other.toList) := by
    refine same.rel_firstFrom? (fun before cs unassigned => ?_) (fun same before => ?_) none
    · exact listStart?_none _ _ _ (keyed?_none_of_unassigned key before cs unassigned)
    · refine rel_bind (same.rel_keyed? key before) fun rest => ?_
      exact rel_bind (rest.rel_after? ['('] (by decide)) fun rest => .some rest.alike
  rw [ids,ids,show key.text.toList = key.chars from rfl]
  generalize first? (listStart? key.chars) body.toList = one at found ⊢
  generalize first? (listStart? key.chars) other.toList = two at found ⊢
  cases found with
  | none => rfl
  | some same =>
    obtain ⟨_,same⟩ := same
    dsimp only
    rw [replace,replace,same.replace_eq none none]

end DepAudit.ProjectFile
