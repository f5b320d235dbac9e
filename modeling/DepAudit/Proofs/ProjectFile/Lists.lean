import DepAudit.Proofs.ProjectFile.Comments
import DepAudit.Proofs.ProjectFile.Keys

/-! Lists of ids, one a line, each with or without a comment of any text. Once comments are taken for
blanks, nothing is left in front of the closing parenthesis but the ids, blanks and commas. -/
namespace DepAudit.ProjectFile
open Text

structure Item where
  id : Phrase isIdChar
  gloss : Option Gloss

namespace Item

def chars (indent : List Char) (i : Item) : List Char :=
  indent ++ (i.id.chars ++ ((i.gloss.elim [] fun g => ' ' :: g.chars) ++ ",\n".toList))

def bare (indent : List Char) (i : Item) : List Char :=
  indent ++ (i.id.chars ++ ((i.gloss.elim [] fun _ => "  ".toList) ++ ",\n".toList))

end Item

structure IdList where
  key : Phrase isIdentifier
  indent : List Char
  items : List Item
  outdent : List Char
  blank : ∀ c ∈ indent ++ outdent, isBlank c = true

def IdList.lines (l : IdList) : List Char := l.items.flatMap (Item.chars l.indent) ++ l.outdent

def IdList.chars (l : IdList) : List Char :=
  l.key.chars ++ (" = (\n".toList ++ (l.lines ++ ");".toList))

/-! Comments taken for blanks. -/

theorem silent_comment {cs : List Char} (slashless : ∀ c ∈ cs, c ≠ '/') : Silent comment? cs := by
  refine silent_of_heads fun c member before rest => ?_
  rw [comment?,Layout.afterComment?_of_ne (slashless c member)]
  rfl

theorem slashless_of_class {allowed : Char → Bool} (outside : allowed '/' = false) {cs : List Char}
    (inside : ∀ c ∈ cs, allowed c = true) : ∀ c ∈ cs, c ≠ '/' :=
  fun c member => ne_of_class (inside c member) outside

variable {indent outdent : List Char}

theorem Item.replaceFrom_chars (i : Item) (blank : ∀ c ∈ indent, isBlank c = true) (before : Option Char)
    (back : List Char) : replaceFrom comment? [' '] before 0 (i.chars indent ++ back) =
      i.bare indent ++ replaceFrom comment? [' '] (some '\n') 0 back := by
  have front : Silent comment? (indent ++ i.id.chars) :=
    (silent_comment (slashless_of_class (by decide) blank)).append
      (silent_comment (slashless_of_class (by decide) i.id.sound))
  have gap : Silent comment? [' '] := silent_comment (by decide)
  have comma : Silent comment? ",\n".toList := silent_comment (by decide)
  cases noted : i.gloss with
  | none =>
    have parts : i.chars indent ++ back = (indent ++ i.id.chars) ++ (",\n".toList ++ back) := by
      simp [chars,noted]
    rw [parts,replaceFrom_of_misses (front _ _),replaceFrom_of_misses (comma _ _),bare,noted]
    simp
  | some g =>
    have parts : i.chars indent ++ back =
        (indent ++ i.id.chars) ++ ([' '] ++ (g.chars ++ (",\n".toList ++ back))) := by
      simp [chars,noted]
    have reads (before : Option Char) : comment? before (g.chars ++ (",\n".toList ++ back)) =
        some ((),",\n".toList ++ back) := by
      rw [comment?,g.afterComment?_chars]
      rfl
    rw [parts,replaceFrom_of_misses (front _ _),replaceFrom_of_misses (gap _ _),
      replaceFrom_of_piece g.chars_ne_nil (reads _),replaceFrom_of_misses (comma _ _),bare,noted]
    simp

/-- In a list every comment becomes a blank, also where its text holds a parenthesis. -/
theorem replaceFrom_items (items : List Item) (blank : ∀ c ∈ indent, isBlank c = true) (back : List Char) :
    replaceFrom comment? [' '] (some '\n') 0 (items.flatMap (Item.chars indent) ++ back) =
      items.flatMap (Item.bare indent) ++ replaceFrom comment? [' '] (some '\n') 0 back := by
  induction items with
  | nil => rfl
  | cons i items ih =>
    rw [List.flatMap_cons,List.append_assoc,i.replaceFrom_chars blank,ih,List.flatMap_cons,List.append_assoc]

/-! Ids among words. -/

theorem silent_word {cs : List Char} (wordless : ∀ c ∈ cs, isWord c = false) : Silent word? cs := by
  refine silent_of_heads fun c member before rest => ?_
  rw [word?,List.takeWhile_cons_of_neg (ne_true_of_eq_false (wordless c member))]
  split
  · rename_i empty
    cases empty
  · rfl

theorem word?_run {run back : List Char} {before : Option Char} (filled : run ≠ [])
    (words : ∀ c ∈ run, isWord c = true) (stops : Stops isWord back) (starts : startsWord before = true) :
    word? before (run ++ back) = some (run,back) := by
  obtain ⟨c,cs,rfl⟩ := List.exists_cons_of_ne_nil filled
  rw [word?,takeWhile_run words stops,dropWhile_run words stops,starts]

theorem Item.allFrom_bare (i : Item) (blank : ∀ c ∈ indent, isBlank c = true) (back : List Char) :
    allFrom word? (some '\n') 0 (i.bare indent ++ back) = i.id.chars :: allFrom word? (some '\n') 0 back := by
  have front : Silent word? indent := silent_word fun c member => isWord_of_blank (blank c member)
  have starts : startsWord (behind (some '\n') indent) = true := by
    have apart : ∀ c ∈ indent.getLast?, isWord c = false := fun c last =>
      isWord_of_blank (blank c (List.mem_of_getLast? last))
    rw [startsWord,any_behind (by decide) apart]
    rfl
  have words : ∀ c ∈ i.id.chars, isWord c = true := fun c member =>
    isWord_of_identifier (Layout.isIdentifier_of_id c (i.id.sound c member))
  obtain ⟨gap,left,wordless,filled,last⟩ : ∃ gap, i.bare indent = indent ++ (i.id.chars ++ gap) ∧
      (∀ c ∈ gap, isWord c = false) ∧ gap ≠ [] ∧ ∀ before, behind before gap = some '\n' := by
    cases noted : i.gloss with
    | none => exact ⟨",\n".toList,by simp [bare,noted],by decide,by decide,fun _ => rfl⟩
    | some g => exact ⟨"  ,\n".toList,by simp [bare,noted],by decide,by decide,fun _ => rfl⟩
  have stops : Stops isWord (gap ++ back) := by
    obtain ⟨c,cs,rfl⟩ := List.exists_cons_of_ne_nil filled
    exact stops_cons (wordless c (List.mem_cons_self ..)) _
  have some_ : i.id.chars ≠ [] := i.id.filled
  have reads := word?_run some_ words stops starts
  rw [left,List.append_assoc,List.append_assoc,allFrom_of_misses (front _ _),
    allFrom_of_piece some_ reads,allFrom_of_misses (silent_word wordless _ _),last]

theorem idsIn_items (items : List Item) (blank : ∀ c ∈ indent ++ outdent, isBlank c = true) :
    idsIn ('\n' :: (items.flatMap (Item.bare indent) ++ outdent)) = items.map (·.id.text) := by
  obtain ⟨indented,outdented⟩ := List.forall_mem_append.mp blank
  have words : all word? ('\n' :: (items.flatMap (Item.bare indent) ++ outdent)) =
      items.map (·.id.chars) := by
    have first : all word? ('\n' :: (items.flatMap (Item.bare indent) ++ outdent)) =
        allFrom word? (some '\n') 0 (items.flatMap (Item.bare indent) ++ outdent) := rfl
    rw [first]
    induction items with
    | nil =>
      have silent := silent_word (fun c member => isWord_of_blank (outdented c member)) (some '\n') []
      have none := allFrom_of_misses silent
      rwa [List.append_nil] at none
    | cons i items ih =>
      rw [List.flatMap_cons,List.append_assoc,i.allFrom_bare indented,ih rfl,List.map_cons]
  have kept : (items.map (·.id.chars)).filter (·.all isIdChar) = items.map (·.id.chars) := by
    apply List.filter_eq_self.mpr
    intro cs member
    obtain ⟨i,_,rfl⟩ := List.mem_map.mp member
    exact List.all_eq_true.mpr i.id.sound
  rw [idsIn,words,kept,List.map_map]
  exact List.map_congr_left fun i _ => i.id.ofList_chars

theorem unclosed_items (items : List Item) (blank : ∀ c ∈ indent ++ outdent, isBlank c = true) :
    ∀ c ∈ '\n' :: (items.flatMap (Item.bare indent) ++ outdent), decide (c ≠ ')') = true := by
  obtain ⟨indented,outdented⟩ := List.forall_mem_append.mp blank
  have gap : ∀ i : Item, ∀ c ∈ (i.gloss.elim [] fun _ => "  ".toList) ++ ",\n".toList, c ≠ ')' := by
    intro i
    cases i.gloss with
    | none => decide
    | some g => exact (by decide : ∀ c ∈ "  ".toList ++ ",\n".toList, c ≠ ')')
  intro c member
  rw [decide_eq_true_eq]
  simp only [List.mem_cons,List.mem_append,List.mem_flatMap,Item.bare] at member
  rcases member with rfl | ⟨i,_,tab | digit | mark⟩ | tab
  · decide
  · exact ne_of_class (indented c tab) (by decide)
  · exact ne_of_class (i.id.sound c digit) (by decide)
  · exact gap i c (List.mem_append.mpr mark)
  · exact ne_of_class (outdented c tab) (by decide)

/-- The ids of a key are those of the list whose opening is found first. -/
theorem ids_of_opening {body key : String} {items : List Item} {back : List Char}
    (blank : ∀ c ∈ indent ++ outdent, isBlank c = true)
    (opened : first? (listStart? key.toList) body.toList =
      some ((),'\n' :: (items.flatMap (Item.chars indent) ++ (outdent ++ ')' :: back)))) :
    ids body key = items.map (·.id.text) := by
  obtain ⟨indented,outdented⟩ := List.forall_mem_append.mp blank
  have mark : Silent comment? ['\n'] := silent_comment (by decide)
  have closing : Silent comment? (outdent ++ [')']) :=
    (silent_comment (slashless_of_class (by decide) outdented)).append (silent_comment (by decide))
  have replaced : replace comment? [' ']
      (['\n'] ++ (items.flatMap (Item.chars indent) ++ ((outdent ++ [')']) ++ back))) =
        ['\n'] ++ (items.flatMap (Item.bare indent) ++ ((outdent ++ [')']) ++
          replaceFrom comment? [' '] (behind (some '\n') (outdent ++ [')'])) 0 back)) := by
    rw [replace,replaceFrom_of_misses (mark _ _),behind_cons,behind_nil,replaceFrom_items items indented,
      replaceFrom_of_misses (closing _ _)]
  have parts (cs back : List Char) : ['\n'] ++ (cs ++ ((outdent ++ [')']) ++ back)) =
      '\n' :: (cs ++ outdent) ++ ')' :: back := by simp
  have whole : '\n' :: (items.flatMap (Item.chars indent) ++ (outdent ++ ')' :: back)) =
      ['\n'] ++ (items.flatMap (Item.chars indent) ++ ((outdent ++ [')']) ++ back)) := by simp
  rw [ids,opened]
  dsimp only
  rw [whole,replaced,parts,if_pos (by simp),List.takeWhile_append_of_pos (unclosed_items items blank),
    List.takeWhile_cons_of_neg (by decide),List.append_nil]
  exact idsIn_items items blank

/-! The opening of a list. -/

def Opens (key cs : List Char) : Prop :=
  ∃ gap gap', (∀ c ∈ gap ++ gap', isBlank c = true) ∧ key ++ (gap ++ '=' :: (gap' ++ ['('])) <:+: cs

theorem listStart?_eq_some {key cs rest : List Char} {before : Option Char} :
    listStart? key before cs = some ((),rest) ↔ startsIdentifier before = true ∧
      ∃ gap gap', (∀ c ∈ gap ++ gap', isBlank c = true) ∧
        cs = key ++ (gap ++ '=' :: (gap' ++ '(' :: rest)) := by
  constructor
  · intro found
    obtain ⟨value,keyed,found⟩ := Option.bind_eq_some_iff.mp found
    obtain ⟨_,opened,same⟩ := Option.bind_eq_some_iff.mp found
    obtain ⟨_,rfl⟩ := Prod.mk.inj (Option.some.inj same)
    obtain ⟨starts,_,gap,gap',blank,rfl⟩ := keyed?_eq_some.mp keyed
    rw [after?_eq_some.mp opened]
    exact ⟨starts,gap,gap',blank,rfl⟩
  · rintro ⟨starts,gap,gap',blank,rfl⟩
    have keyed : keyed? key before (key ++ (gap ++ '=' :: (gap' ++ '(' :: rest))) = some ('(' :: rest) :=
      keyed?_eq_some.mpr ⟨starts,stops_cons (by decide) rest,gap,gap',blank,rfl⟩
    rw [listStart?,keyed]
    rfl

/-- An opening in front of a letter lies in the text in front of it, if no letter stands there already. -/
theorem misses_unopened {key : Phrase isIdentifier} {front : List Char} (unopened : ¬Opens key.chars front)
    (unjoined : ∀ c ∈ front.getLast?, isIdentifier c = false) {letter : Char}
    (identifier : isIdentifier letter = true) (before : Option Char) (back : List Char) :
    Misses (listStart? key.chars) before front (letter :: back) := by
  apply misses_of_suffixes
  intro before c rest suffix
  cases found : listStart? key.chars before (c :: (rest ++ letter :: back)) with
  | none => rfl
  | some reading =>
    exfalso
    obtain ⟨_,left⟩ := reading
    obtain ⟨_,gap,gap',blank,whole⟩ := listStart?_eq_some.mp found
    have signs : ∀ d ∈ gap ++ '=' :: (gap' ++ ['(']), isIdentifier d = false := by
      intro d member
      simp only [List.mem_append,List.mem_cons,List.not_mem_nil,or_false] at member blank
      rcases member with here | rfl | later | rfl
      · exact isIdentifier_of_blank (blank d (.inl here))
      · decide
      · exact isIdentifier_of_blank (blank d (.inr later))
      · decide
    have inside (start : key.chars ++ (gap ++ '=' :: (gap' ++ ['('])) <+: c :: rest) : False :=
      unopened ⟨gap,gap',blank,start.isInfix.trans suffix.isInfix⟩
    have cut : (c :: rest) ++ letter :: back = (key.chars ++ (gap ++ '=' :: (gap' ++ ['(']))) ++ left := by
      rw [List.cons_append,whole]
      simp
    rcases List.append_eq_append_iff.mp cut with ⟨more,opening,behind⟩ | ⟨more,start,_⟩
    · cases more with
      | nil => exact inside ⟨[],by simpa using opening⟩
      | cons d more =>
        -- The letter would stand in the opening behind its key, where there are blanks and signs only.
        obtain rfl : letter = d := (List.cons.inj behind).1
        obtain ⟨last,ends⟩ : ∃ last, (c :: rest).getLast? = some last :=
          ⟨_,List.getLast?_eq_some_getLast (by simp)⟩
        have outside : isIdentifier last = false := by
          obtain ⟨earlier,rfl⟩ := suffix
          exact unjoined last (by simp [ends])
        have behindKey : (key.chars ++ (gap ++ '=' :: (gap' ++ ['(']))).dropWhile isIdentifier =
            gap ++ '=' :: (gap' ++ ['(']) := by
          refine dropWhile_run key.sound (Stops.append (fun d head => ?_) (stops_cons (by decide) _))
          exact signs d (by simp [List.mem_of_mem_head? head])
        rw [opening,dropWhile_append_of_outside (List.mem_of_getLast? ends) outside] at behindKey
        have member : letter ∈ gap ++ '=' :: (gap' ++ ['(']) := by simp [← behindKey]
        rw [signs letter member] at identifier
        cases identifier
    · exact inside ⟨more,start.symm⟩

/-- A written list is read back, if it is the first that its key opens: all ids in their order, whatever the
comments behind them say and whatever text follows. -/
theorem written_list_reads_back (l : IdList) (front back : List Char)
    (unjoined : ∀ c ∈ front.getLast?, isIdentifier c = false) (unopened : ¬Opens l.key.chars front) :
    ids (String.ofList (front ++ (l.chars ++ back))) l.key.text = l.items.map (·.id.text) := by
  obtain ⟨letter,letters,spelled,identifier⟩ := l.key.exists_cons
  have starts : startsIdentifier (behind none front) = true := by
    rw [startsIdentifier,any_behind rfl unjoined]
    rfl
  have opening : listStart? l.key.chars (behind none front) (l.chars ++ back) =
      some ((),'\n' :: (l.items.flatMap (Item.chars l.indent) ++ (l.outdent ++ ')' :: (";".toList ++ back)))) := by
    refine listStart?_eq_some.mpr ⟨starts,[' '],[' '],by decide,?_⟩
    simp [IdList.chars,IdList.lines]
  have whole : l.chars ++ back = letter :: (letters ++ ((" = (\n".toList ++ (l.lines ++ ");".toList)) ++ back)) := by
    simp [IdList.chars,spelled]
  have first : first? (listStart? l.key.chars) (String.ofList (front ++ (l.chars ++ back))).toList =
      some ((),'\n' :: (l.items.flatMap (Item.chars l.indent) ++ (l.outdent ++ ')' :: (";".toList ++ back)))) := by
    rw [whole] at opening ⊢
    rw [String.toList_ofList,first?,firstFrom?_of_misses (misses_unopened unopened unjoined identifier _ _)]
    exact firstFrom?_of_reads opening
  exact ids_of_opening l.blank first

theorem not_opens_of_not_mem {key cs : List Char} (shut : '(' ∉ cs) : ¬Opens key cs := by
  rintro ⟨gap,gap',_,inside⟩
  exact shut (inside.subset (by simp))

def glossedList : IdList where
  key := ⟨"files",by decide,by decide⟩
  indent := ['\t']
  items := [
    ⟨⟨"ABC123",by decide,by decide⟩,some ⟨" Foo (iOS) ".toList,by decide⟩⟩,
    ⟨⟨"DEF456",by decide,by decide⟩,none⟩,
    ⟨⟨"7",by decide,by decide⟩,some ⟨"/* \"FF, *".toList,by decide⟩⟩,
    ⟨⟨"ABC123",by decide,by decide⟩,some ⟨[],by decide⟩⟩]
  outdent := []
  blank := by decide

example : String.ofList glossedList.chars = "files = (\n\tABC123 /* Foo (iOS) */,\n\tDEF456,\n" ++
    "\t7 /*/* \"FF, **/,\n\tABC123 /**/,\n);" := by decide

theorem glossed_list_reads_back :
    (∀ c ∈ "files = A1; old-".toList.getLast?, isIdentifier c = false) ∧
    ¬Opens glossedList.key.chars "files = A1; old-".toList ∧
    ids (String.ofList ("files = A1; old-".toList ++
      (glossedList.chars ++ " files = (FF);".toList))) "files" =
        ["ABC123","DEF456","7","ABC123"] := by
  have unjoined : ∀ c ∈ "files = A1; old-".toList.getLast?, isIdentifier c = false := by decide
  have unopened : ¬Opens glossedList.key.chars "files = A1; old-".toList :=
    not_opens_of_not_mem (by decide)
  exact ⟨unjoined,unopened,written_list_reads_back glossedList _ _ unjoined unopened⟩

end DepAudit.ProjectFile
