import DepAudit.Proofs.ProjectFile.Lists

/-! Looking up keys among written entries. A key is only found where a word and an equals sign stand,
which no value, comment or line of a list contains; so a search passes over whole entries until it comes
to the one with its key, and reads the value that was written there. -/
namespace DepAudit.ProjectFile.Layout
open Text

/-! Keys. -/

/-- What follows a key up to its equals sign continues no word. -/
theorem stops_of_assigned {rest behindSign : List Char}
    (assigned : after? ['='] (skipBlanks rest) = some behindSign) :
    ∃ c others, rest = c :: others ∧ isWord c = false := by
  cases rest with
  | nil => cases assigned
  | cons c others =>
    refine ⟨c,others,rfl,?_⟩
    cases blank : isBlank c with
    | true => exact isWord_of_blank blank
    | false =>
      rw [skipBlanks_cons blank,after?_eq_some] at assigned
      obtain rfl : c = '=' := (List.cons.inj assigned).1
      decide

/-- Where two identifiers start the same text and nothing continues them, they are the same. -/
theorem same_text {word other : Phrase isIdentifier} {back rest : List Char} (stops : Stops isIdentifier back)
    (stops' : Stops isIdentifier rest) (same : word.chars ++ back = other.chars ++ rest) : word.text = other.text := by
  have chars := congrArg (List.takeWhile isIdentifier) same
  rw [Phrase.chars,Phrase.chars,takeWhile_run word.sound stops,takeWhile_run other.sound stops'] at chars
  exact String.toList_inj.mp chars

theorem stops_of_wordless {c : Char} (wordless : isWord c = false) (cs : List Char) :
    Stops isIdentifier (c :: cs) := by
  refine stops_cons (Bool.eq_false_iff.mpr fun identifier => ?_) cs
  rw [isWord_of_identifier identifier] at wordless
  cases wordless

section keys

variable {key : Phrase isIdentifier}

theorem keyed?_none_of_unassigned (key : Phrase isIdentifier) (before : Option Char) (cs : List Char)
    (unassigned : assigned? before cs = none) : keyed? key.chars before cs = none := by
  rw [keyed?_eq]
  split
  · refine Option.bind_eq_none_iff.mpr fun rest found => ?_
    rw [after?_eq_some] at found
    subst found
    cases assigned : after? ['='] (skipBlanks rest) with
    | none => rfl
    | some behindSign =>
      obtain ⟨c,others,rfl,wordless⟩ := stops_of_assigned assigned
      obtain ⟨k,ks,spelled,_⟩ := key.exists_cons
      have words : ∀ d ∈ key.chars, isWord d = true := fun d member =>
        isWord_of_identifier (key.sound d member)
      have stops : Stops isWord (c :: others) := stops_cons wordless others
      have sign : skipBlanks (c :: others) = '=' :: behindSign := after?_eq_some.mp assigned
      have gap : skipGap (c :: others) = '=' :: behindSign := by
        have unchanged := skipGap_cons (c := '=') (by decide) (by decide) behindSign
        rw [skipGap,skipBlanks_cons (by decide)] at unchanged
        rw [skipGap,sign,unchanged]
      -- The key is then a whole word with an equals sign behind it.
      rw [assigned?,takeWhile_run words stops,if_neg (spelled ▸ List.cons_ne_nil _ _),dropWhile_run words stops,
        gap] at unassigned
      cases unassigned
  · rfl

theorem silent_marks_keyed (key : Phrase isIdentifier) {cs : List Char}
    (wordless : ∀ c ∈ cs, isWord c = false) : Silent (keyed? key.chars) cs :=
  (silent_marks wordless).mono (keyed?_none_of_unassigned key)

theorem keyed?_none_inside {c : Char} (identifier : isIdentifier c = true) (key cs : List Char) :
    keyed? key (some c) cs = none := by
  rw [keyed?_eq,if_neg]
  rw [startsIdentifier,Option.any_some,identifier]
  decide

theorem misses_other {word : Phrase isIdentifier} (other : word.text ≠ key.text)
    (before : Option Char) (back : List Char) :
    Misses (keyed? key.chars) before word.chars (" = ".toList ++ back) := by
  obtain ⟨w,ws,spelled,identifier⟩ := word.exists_cons
  have letters : ∀ c ∈ w :: ws, isIdentifier c = true := spelled ▸ word.sound
  rw [spelled]
  refine ⟨?_,?_⟩
  · rw [keyed?_eq]
    split
    · refine Option.bind_eq_none_iff.mpr fun rest found => ?_
      rw [after?_eq_some,← List.cons_append,← spelled] at found
      cases assigned : after? ['='] (skipBlanks rest) with
      | none => rfl
      | some behindSign =>
        obtain ⟨c,others,rfl,wordless⟩ := stops_of_assigned assigned
        have blank : Stops isIdentifier (" = ".toList ++ back) :=
          stops_of_wordless (show isWord ' ' = false by decide) _
        exact absurd (same_text blank (stops_of_wordless wordless _) found) other
    · rfl
  · clear spelled
    induction ws generalizing w with
    | nil => exact trivial
    | cons d ws ih =>
      refine ⟨keyed?_none_inside (letters w (List.mem_cons_self ..)) _ _,?_⟩
      exact ih d (letters d (.tail _ (List.mem_cons_self ..))) fun c member => letters c (.tail _ member)

theorem Entry.silent_other {e : Entry} {indent : List Char} (other : e.key.text ≠ key.text)
    (wordless : ∀ c ∈ indent, isWord c = false) : Silent (keyed? key.chars) (e.chars indent) := by
  intro before back
  refine (silent_marks_keyed key wordless _ _).append (.append ?_ (.append
    (silent_marks_keyed key (by decide) _ _) (.append ?_ (silent_marks_keyed key (by decide) _ _))))
  · rw [List.append_assoc]
    exact misses_other other _ _
  · exact (e.value.misses _ back).mono (keyed?_none_of_unassigned key)

theorem Value.exists_cons (value : Value) :
    ∃ c cs, value.chars = c :: cs ∧ isBlank c = false ∧ c ≠ '\x7b' := by
  have head : ∀ w : Phrase isPlain, ∀ back, ∃ c cs,
      w.chars ++ back = c :: cs ∧ isBlank c = false ∧ c ≠ '\x7b' := by
    intro w back
    obtain ⟨c,cs,spelled,plain⟩ := w.exists_cons
    rw [spelled]
    exact ⟨c,cs ++ back,rfl,isBlank_of_plain plain,ne_of_class plain (by decide)⟩
  cases value with
  | word w =>
    have here := head w []
    rwa [List.append_nil] at here
  | noted w comment => exact head w (note comment)
  | quoted w => exact ⟨_,_,rfl,by decide,by decide⟩
  | list comment ids => exact ⟨_,_,rfl,by decide,by decide⟩

theorem Value.skipBlanks_chars (value : Value) (back : List Char) :
    skipBlanks (value.chars ++ back) = value.chars ++ back := by
  obtain ⟨c,cs,spelled,visible,_⟩ := value.exists_cons
  rw [spelled]
  exact skipBlanks_cons visible _

theorem keyed?_entry (e : Entry) (back : List Char) :
    keyed? e.key.chars (some '\t') (e.key.chars ++ (" = ".toList ++ (e.value.chars ++ back))) =
      some (e.value.chars ++ back) := by
  have sign : after? ['='] (skipBlanks (" = ".toList ++ (e.value.chars ++ back))) =
      some (' ' :: (e.value.chars ++ back)) := by
    rw [show " = ".toList = [' ','=',' '] from rfl,List.cons_append,skipBlanks_blank (by decide),
      List.cons_append,skipBlanks_cons (by decide)]
    rfl
  rw [keyed?_eq,if_pos (by decide),after?_append,Option.bind_some,sign,Option.map_some,
    skipBlanks_blank (by decide),e.value.skipBlanks_chars]

/-- The first reading in a section that needs a key stands at the first entry with that key. -/
theorem Section.first?_body {α : Type} {p : Pattern α} {s : Section} {e : Entry}
    (weaker : ∀ before cs, keyed? e.key.chars before cs = none → p before cs = none)
    (found : s.lines.find? (fun f => f.key.text = e.key.text) = some e) :
    ∃ back, first? p s.body = firstFrom? p (some '\t')
      (e.key.chars ++ (" = ".toList ++ (e.value.chars ++ (";\n".toList ++ back)))) := by
  obtain ⟨_,front,others,lines,earlier⟩ := List.find?_eq_some_iff_append.mp found
  have mark : Silent (keyed? e.key.chars) "\n".toList := silent_marks_keyed e.key (by decide)
  have indent : Silent (keyed? e.key.chars) ['\t','\t','\t'] := silent_marks_keyed e.key (by decide)
  have passedOthers : Silent (keyed? e.key.chars) (front.flatMap (Entry.chars ['\t','\t','\t'])) :=
    .flatMap fun f member => f.silent_other (by simpa using earlier f member) (by decide)
  have passed : Silent p ("\n".toList ++
      (front.flatMap (Entry.chars ['\t','\t','\t']) ++ ['\t','\t','\t'])) :=
    (mark.append (passedOthers.append indent)).mono weaker
  refine ⟨others.flatMap (Entry.chars ['\t','\t','\t']) ++ "\t\t".toList,?_⟩
  have parts : s.body = ("\n".toList ++ (front.flatMap (Entry.chars ['\t','\t','\t']) ++ ['\t','\t','\t'])) ++
      (e.key.chars ++ (" = ".toList ++ (e.value.chars ++ (";\n".toList ++
        (others.flatMap (Entry.chars ['\t','\t','\t']) ++ "\t\t".toList))))) := by
    rw [body,lines,List.flatMap_append,List.flatMap_cons,Entry.chars]
    simp only [List.append_assoc]
  rw [first?,parts,firstFrom?_of_misses (passed _ _),behind_append,behind_append]
  rfl

/-! Values that are one word. -/

def Value.spelling? : Value → Option (Phrase isPlain)
  | word w => some w
  | noted w _ => some w
  | quoted w => some w
  | list _ _ => none

theorem isBare_of_plain {c : Char} (plain : isPlain c = true) : isBare c = true := by
  have semicolon : c ≠ ';' := ne_of_class plain (by decide)
  have quote : c ≠ '"' := ne_of_class plain (by decide)
  have brace : c ≠ '\x7b' := ne_of_class plain (by decide)
  have bracket : c ≠ '(' := ne_of_class plain (by decide)
  simp [isBare,semicolon,quote,brace,bracket,isBlank_of_plain plain]

theorem quotedText_of_plain {cs : List Char} (plain : ∀ c ∈ cs, isPlain c = true) : QuotedText cs := by
  induction cs with
  | nil => exact .done
  | cons c cs ih =>
    obtain ⟨here,later⟩ := List.forall_mem_cons.mp plain
    exact .plain (ne_of_class here (by decide)) (ne_of_class here (by decide)) (ih later)

theorem quotedText_phrase (w : Phrase isPlain) : QuotedText w.chars := quotedText_of_plain w.sound

theorem endsEntry_semicolon (back : List Char) : endsEntry (";\n".toList ++ back) = true := by
  rw [show ";\n".toList = [';','\n'] from rfl,List.cons_append,endsEntry,
    skipGap_cons (by decide) (by decide)]
  rfl

theorem endsEntry_note (comment : Phrase isSpoken) (back : List Char) :
    endsEntry (note comment ++ (";\n".toList ++ back)) = true := by
  rw [endsEntry,skipGap_note,show ";\n".toList = [';','\n'] from rfl,List.cons_append,
    skipBlanks_cons (by decide)]
  rfl

theorem entryValue?_bare {w : Phrase isPlain} {d : Char} {back : List Char} (stop : isBare d = false)
    (ends : endsEntry (d :: back) = true) : entryValue? (w.chars ++ d :: back) = some w.chars :=
  entryValue?_word w.filled (fun c member => isBare_of_plain (w.sound c member)) stop ends

theorem Value.entryValue?_chars {value : Value} {w : Phrase isPlain} (spelled : value.spelling? = some w)
    (back : List Char) : entryValue? (value.chars ++ (";\n".toList ++ back)) = some w.chars := by
  cases value with
  | word v =>
    cases spelled
    exact entryValue?_bare (by decide) (endsEntry_semicolon back)
  | noted v comment =>
    cases spelled
    rw [chars,List.append_assoc]
    exact entryValue?_bare (by decide) (endsEntry_note comment back)
  | quoted v =>
    cases spelled
    rw [chars,List.cons_append,List.append_assoc,List.singleton_append,
      entryValue?_string (quotedText_phrase w),if_pos (endsEntry_semicolon back)]
  | list comment ids => cases spelled

/-- The value of a key is the word that its first entry spells. -/
theorem Section.value?_body {s : Section} {e : Entry} {w : Phrase isPlain}
    (found : s.lines.find? (fun f => f.key.text = e.key.text) = some e)
    (spelled : e.value.spelling? = some w) :
    value? (String.ofList s.body) e.key.text = some w.text := by
  obtain ⟨back,search⟩ := first?_body (keyedValue?_none e.key.chars) found
  obtain ⟨k,ks,key,_⟩ := e.key.exists_cons
  obtain ⟨c,cs,word,_⟩ := w.exists_cons
  have reads : keyedValue? e.key.chars (some '\t')
      (e.key.chars ++ (" = ".toList ++ (e.value.chars ++ (";\n".toList ++ back)))) =
        some (w.chars,e.value.chars ++ (";\n".toList ++ back)) := by
    rw [keyedValue?_eq,keyed?_entry,Option.bind_some,e.value.entryValue?_chars spelled,Option.map_some]
  have first : first? (keyedValue? e.key.chars) s.body =
      some (c :: cs,e.value.chars ++ (";\n".toList ++ back)) := by
    rw [search,← word,key]
    rw [key] at reads
    exact firstFrom?_of_reads reads
  rw [value?,String.toList_ofList,show e.key.text.toList = e.key.chars from rfl,first]
  dsimp only
  rw [← word,w.ofList_chars]

/-! Lists of ids. -/

theorem item_eq (comment : Phrase isSpoken) (id : Phrase isIdChar) : item comment id =
    Item.chars "\t\t\t\t".toList ⟨id,some ⟨(spoken comment).text.toList,(spoken comment).closed⟩⟩ := by
  rw [item,note,remark_eq]
  rfl

/-- The ids of a key are those in the list of its first entry. -/
theorem Section.ids_body {s : Section} {e : Entry} {comment : Phrase isSpoken}
    {listed : List (Phrase isIdChar)}
    (found : s.lines.find? (fun f => f.key.text = e.key.text) = some e)
    (list : e.value = .list comment listed) :
    ids (String.ofList s.body) e.key.text = listed.map Phrase.text := by
  obtain ⟨back,search⟩ := first?_body (listStart?_none e.key.chars) found
  obtain ⟨k,ks,key,_⟩ := e.key.exists_cons
  have lines : listed.flatMap (item comment) =
      (listed.map fun id => (⟨id,some ⟨(spoken comment).text.toList,(spoken comment).closed⟩⟩ : Item)).flatMap
        (Item.chars "\t\t\t\t".toList) := by
    rw [List.flatMap_map,funext (item_eq comment)]
  have shape : e.value.chars ++ (";\n".toList ++ back) = '(' :: ('\n' ::
      (listed.flatMap (item comment) ++ ("\t\t\t".toList ++ ')' :: (";\n".toList ++ back)))) := by
    rw [list,Value.chars]
    simp only [List.append_assoc]
    rfl
  have reads : listStart? e.key.chars (some '\t')
      (e.key.chars ++ (" = ".toList ++ (e.value.chars ++ (";\n".toList ++ back)))) =
        some ((),'\n' :: (listed.flatMap (item comment) ++
          ("\t\t\t".toList ++ ')' :: (";\n".toList ++ back)))) := by
    rw [listStart?,keyed?_entry,shape]
    rfl
  have first : first? (listStart? e.key.chars) (String.ofList s.body).toList = some ((),'\n' ::
      (listed.flatMap (item comment) ++ ("\t\t\t".toList ++ ')' :: (";\n".toList ++ back)))) := by
    rw [String.toList_ofList,search,key]
    rw [key] at reads
    exact firstFrom?_of_reads reads
  rw [lines] at first
  rw [ids_of_opening (by decide) first,List.map_map]
  rfl

end keys

end DepAudit.ProjectFile.Layout
