import DepAudit.Proofs.ProjectFile.Layout

/-! What may stand between the parts of an entry: blanks, and comments in which nothing looks like a part
of their own. -/
namespace DepAudit.ProjectFile.Layout
open Text

theorem skipGap_blank {c : Char} (blank : isBlank c = true) (cs : List Char) :
    skipGap (c :: cs) = skipGap cs := by
  rw [skipGap,skipGap,skipBlanks_blank blank]

theorem afterComment?_of_ne {c : Char} (slashless : c ≠ '/') (cs : List Char) :
    afterComment? (c :: cs) = none := by
  rw [afterComment?,show "/*".toList = ['/','*'] from rfl,after?_of_ne slashless.symm]
  rfl

theorem skipGap_cons {c : Char} (visible : isBlank c = false) (plain : c ≠ '/') (cs : List Char) :
    skipGap (c :: cs) = c :: cs := by
  rw [skipGap,skipBlanks_cons visible,skipComment,afterComment?_of_ne plain,Option.getD_none,
    skipBlanks_cons visible]

/-! Comments in which a scanner finds nothing. -/

def isSign (c : Char) : Bool := c = '=' || c = '"' || c = '\x7b' || c = '\x7d'

/-- A comment without signs, in which no other comment begins or ends. -/
structure Comment where
  text : String
  signless : ∀ c ∈ text.toList, isSign c = false
  closed : ¬ ['*','/'] <:+: text.toList
  /-- A slash at the end would open one with the star behind it. -/
  unopened : ¬ ['/','*'] <:+: text.toList ++ ['*']

namespace Comment

def chars (c : Comment) : List Char := '/' :: '*' :: (c.text.toList ++ ['*','/'])

theorem afterFirst?_close {front : List Char} (closed : ¬ ['*','/'] <:+: front) (back : List Char) :
    afterFirst? ['*','/'] (front ++ '*' :: '/' :: back) = some back := by
  induction front with
  | nil =>
    have here : after? ['*','/'] ('*' :: '/' :: back) = some back := after?_append ['*','/'] back
    rw [List.nil_append,afterFirst?,here]
  | cons c front ih =>
    have later : ¬ ['*','/'] <:+: front := fun inside =>
      closed (inside.trans (List.suffix_cons c front).isInfix)
    cases found : after? ['*','/'] (c :: (front ++ '*' :: '/' :: back)) with
    | none => rw [List.cons_append,afterFirst?,found]; exact ih later
    | some rest =>
      obtain ⟨rfl,follows⟩ := List.cons.inj (after?_eq_some.mp found)
      cases front with
      | nil => exact absurd (List.cons.inj follows).1 (by decide)
      | cons d front =>
        obtain ⟨rfl,_⟩ := List.cons.inj follows
        exact absurd (List.prefix_append ['*','/'] front).isInfix closed

theorem afterComment?_chars (c : Comment) (back : List Char) :
    afterComment? (c.chars ++ back) = some back := by
  have opened : after? "/*".toList (c.chars ++ back) =
      some (c.text.toList ++ '*' :: '/' :: back) := by
    rw [after?_eq_some,chars]
    simp
  rw [afterComment?,opened]
  exact afterFirst?_close c.closed back

/-- No comment begins inside another, its last sign apart. -/
theorem afterComment?_inside {cs : List Char} (unopened : ¬ ['/','*'] <:+: cs ++ ['*'])
    (filled : cs ≠ []) (back : List Char) : afterComment? (cs ++ '*' :: '/' :: back) = none := by
  rw [afterComment?]
  cases found : after? "/*".toList (cs ++ '*' :: '/' :: back) with
  | none => rfl
  | some rest =>
    have whole : cs ++ '*' :: '/' :: back = (cs ++ ['*']) ++ '/' :: back := by simp
    have opening : ['/','*'] <+: (cs ++ ['*']) ++ '/' :: back :=
      ⟨rest,(after?_eq_some.mp found).symm.trans whole⟩
    have long : ['/','*'].length ≤ (cs ++ ['*']).length := by
      have := List.length_pos_iff.mpr filled
      rw [List.length_append]
      exact Nat.succ_le_succ this
    exact absurd (List.prefix_of_prefix_length_le opening (List.prefix_append ..) long).isInfix unopened

end Comment

theorem isSpoken_remarked (phrase : Phrase isSpoken) :
    ∀ c ∈ (" " ++ (phrase.text ++ " ")).toList, isSpoken c = true := by
  intro c member
  rw [String.toList_append,String.toList_append,List.mem_append,List.mem_append] at member
  rcases member with blank | inside | blank
  · exact (show ∀ c ∈ " ".toList, isSpoken c = true by decide) c blank
  · exact phrase.sound c inside
  · exact (show ∀ c ∈ " ".toList, isSpoken c = true by decide) c blank

def spoken (phrase : Phrase isSpoken) : Comment where
  text := " " ++ (phrase.text ++ " ")
  signless c member := by
    have here := isSpoken_remarked phrase c member
    have equal : c ≠ '=' := ne_of_class here (by decide)
    have quote : c ≠ '"' := ne_of_class here (by decide)
    have opening : c ≠ '\x7b' := ne_of_class here (by decide)
    have closing : c ≠ '\x7d' := ne_of_class here (by decide)
    simp [isSign,equal,quote,opening,closing]
  closed inside :=
    have star := isSpoken_remarked phrase '*' (inside.subset (List.mem_cons_self ..))
    absurd star (by decide)
  unopened inside := by
    rcases List.mem_append.mp (inside.subset (List.mem_cons_self ..)) with slash | slash
    · exact absurd (isSpoken_remarked phrase '/' slash) (by decide)
    · exact absurd slash (by decide)

theorem remark_eq (comment : Phrase isSpoken) : remark comment = (spoken comment).chars := by
  simp [remark,Comment.chars,spoken,Phrase.chars]

theorem afterComment?_remark (comment : Phrase isSpoken) (back : List Char) :
    afterComment? (remark comment ++ back) = some back := by
  rw [remark_eq]
  exact (spoken comment).afterComment?_chars back

theorem skipGap_remark (comment : Phrase isSpoken) (back : List Char) :
    skipGap (remark comment ++ back) = skipBlanks back := by
  have visible : skipBlanks (remark comment ++ back) = remark comment ++ back :=
    skipBlanks_cons (by decide) _
  rw [skipGap,visible,skipComment,afterComment?_remark]
  rfl

theorem skipGap_note (comment : Phrase isSpoken) (back : List Char) :
    skipGap (note comment ++ back) = skipBlanks back :=
  (skipGap_blank (by decide) _).trans (skipGap_remark comment back)

/-! Words with an equals sign behind them. -/

def assigned? (_ : Option Char) (cs : List Char) : Option (List Char) :=
  if cs.takeWhile isWord = [] then none else after? ['='] (skipGap (cs.dropWhile isWord))

structure Settles (back : List Char) : Prop where
  ends : back.dropWhile isWord = back
  unassigned : after? ['='] (skipGap back) = none

theorem settles_mark {c : Char} (wordless : isWord c = false) (visible : isBlank c = false)
    (unequal : c ≠ '=') (closed : c ≠ '/') (back : List Char) : Settles (c :: back) where
  ends := List.dropWhile_cons_of_neg (ne_true_of_eq_false wordless)
  unassigned := by
    rw [skipGap_cons visible closed]
    exact after?_of_ne unequal.symm [] back

theorem settles_note (comment : Phrase isSpoken) {c : Char} (visible : isBlank c = false)
    (unequal : c ≠ '=') (back : List Char) : Settles (note comment ++ c :: back) where
  ends := List.dropWhile_cons_of_neg (by decide)
  unassigned := by
    rw [skipGap_note,skipBlanks_cons visible]
    exact after?_of_ne unequal.symm [] back

theorem unassigned_spoken {cs back : List Char} (spoken : ∀ c ∈ cs, isSpoken c = true)
    (settled : after? ['='] (skipGap back) = none) : after? ['='] (skipGap (cs ++ back)) = none := by
  induction cs with
  | nil => exact settled
  | cons c cs ih =>
    obtain ⟨here,later⟩ := List.forall_mem_cons.mp spoken
    rw [List.cons_append]
    cases blank : isBlank c with
    | true =>
      rw [skipGap_blank blank]
      exact ih later
    | false =>
      rw [skipGap_cons blank (ne_of_class here (by decide))]
      exact after?_of_ne (ne_of_class here (by decide)).symm [] _

theorem unassigned_dropWhile {cs back : List Char} (spoken : ∀ c ∈ cs, isSpoken c = true)
    (settles : Settles back) : after? ['='] (skipGap ((cs ++ back).dropWhile isWord)) = none := by
  induction cs with
  | nil =>
    rw [List.nil_append,settles.ends]
    exact settles.unassigned
  | cons c cs ih =>
    rw [List.cons_append,List.dropWhile_cons]
    split
    · exact ih (List.forall_mem_cons.mp spoken).2
    · exact unassigned_spoken spoken settles.unassigned

theorem misses_spoken {cs back : List Char} (spoken : ∀ c ∈ cs, isSpoken c = true)
    (settles : Settles back) (before : Option Char) : Misses assigned? before cs back := by
  refine misses_of_suffixes fun before c rest suffix => ?_
  rw [assigned?]
  split
  · rfl
  · exact unassigned_dropWhile (fun d member => spoken d (suffix.subset member)) settles

theorem silent_marks {cs : List Char} (wordless : ∀ c ∈ cs, isWord c = false) :
    Silent assigned? cs := by
  refine silent_of_heads fun c member before rest => if_pos ?_
  exact List.takeWhile_cons_of_neg (ne_true_of_eq_false (wordless c member))

theorem misses_phrase {allowed : Char → Bool} (phrase : Phrase allowed)
    (spoken : ∀ c, allowed c = true → isSpoken c = true) {back : List Char} (settles : Settles back)
    (before : Option Char) : Misses assigned? before phrase.chars back :=
  misses_spoken (fun c member => spoken c (phrase.sound c member)) settles before

namespace Comment

theorem unassigned_inside {cs : List Char} (signless : ∀ c ∈ cs, isSign c = false)
    (unopened : ¬ ['/','*'] <:+: cs ++ ['*']) (back : List Char) :
    after? ['='] (skipGap (cs ++ '*' :: '/' :: back)) = none := by
  induction cs with
  | nil =>
    rw [List.nil_append,skipGap_cons (by decide) (by decide)]
    exact after?_of_ne (by decide) [] _
  | cons c cs ih =>
    obtain ⟨here,later⟩ := List.forall_mem_cons.mp signless
    cases blank : isBlank c with
    | true =>
      rw [List.cons_append,skipGap_blank blank]
      exact ih later fun inside => unopened (inside.trans (List.suffix_cons ..).isInfix)
    | false =>
      have whole := afterComment?_inside unopened (List.cons_ne_nil c cs) back
      rw [List.cons_append] at whole ⊢
      rw [skipGap,skipBlanks_cons blank,skipComment,whole,Option.getD_none,skipBlanks_cons blank]
      refine after?_of_ne ?_ [] _
      rintro rfl
      cases here

theorem silent (c : Comment) : Silent assigned? c.chars := by
  intro before back
  have opening : Silent assigned? ['/','*'] := silent_marks (by decide)
  have closing : Silent assigned? ['*','/'] := silent_marks (by decide)
  refine (opening _ _).append (.append ?_ (closing _ _))
  refine misses_of_suffixes fun before d rest suffix => ?_
  rw [assigned?]
  split
  · rfl
  -- The word ends in the comment, and what is left of the comment gives it no value.
  · have left : (d :: (rest ++ (['*','/'] ++ back))).dropWhile isWord =
        (d :: rest).dropWhile isWord ++ '*' :: '/' :: back := by
      have stop : ('*' :: '/' :: back).dropWhile isWord = '*' :: '/' :: back :=
        List.dropWhile_cons_of_neg (by decide)
      rw [← List.cons_append,List.dropWhile_append]
      split
      · rename_i empty
        rw [List.isEmpty_iff.mp empty]
        exact stop
      · rfl
    have tail : (d :: rest).dropWhile isWord <:+ c.text.toList :=
      (List.dropWhile_suffix _).trans suffix
    obtain ⟨front,whole⟩ := tail
    rw [left]
    refine unassigned_inside (fun e member => c.signless e (whole ▸ List.mem_append_right _ member))
      (fun inside => c.unopened ?_) back
    rw [← whole,List.append_assoc]
    exact inside.trans (List.suffix_append ..).isInfix

theorem behind_chars (c : Comment) (before : Option Char) : behind before c.chars = some '/' := by
  simp [chars,behind_append]

end Comment

theorem silent_remark (comment : Phrase isSpoken) : Silent assigned? (remark comment) :=
  remark_eq comment ▸ (spoken comment).silent

theorem silent_note (comment : Phrase isSpoken) : Silent assigned? (note comment) :=
  have blank : Silent assigned? [' '] := silent_marks (by decide)
  blank.append (silent_remark comment)

theorem silent_item (comment : Phrase isSpoken) (id : Phrase isIdChar) :
    Silent assigned? (item comment id) := by
  intro before back
  refine (silent_marks (by decide) _ _).append
    (.append ?_ ((silent_note comment).append (silent_marks (by decide)) _ _))
  refine misses_phrase id (fun c member => isSpoken_of_plain c (isPlain_of_id c member)) ?_ _
  rw [List.append_assoc]
  exact settles_note comment (by decide) (by decide) _

theorem silent_quoted (word : Phrase isPlain) : Silent assigned? (Value.quoted word).chars := by
  intro before back
  have quote : Silent assigned? ['"'] := silent_marks (by decide)
  refine (quote _ _).append (.append ?_ (quote _ _))
  exact misses_phrase word isSpoken_of_plain
    (settles_mark (by decide) (by decide) (by decide) (by decide) _) _

/-- A value holds no word that is given a value itself. -/
theorem Value.misses (value : Value) (before : Option Char) (back : List Char) :
    Misses assigned? before value.chars (";\n".toList ++ back) := by
  cases value with
  | word w =>
    exact misses_phrase w isSpoken_of_plain
      (settles_mark (by decide) (by decide) (by decide) (by decide) _) before
  | noted w comment =>
    refine .append (misses_phrase w isSpoken_of_plain ?_ before) (silent_note comment _ _)
    exact settles_note comment (by decide) (by decide) _
  | quoted w => exact silent_quoted w before _
  | list comment ids =>
    refine Silent.append (silent_marks (by decide)) (Silent.append ?_ (silent_marks (by decide))) _ _
    exact .flatMap fun id _ => silent_item comment id

end DepAudit.ProjectFile.Layout
