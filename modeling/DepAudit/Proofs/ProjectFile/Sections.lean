import DepAudit.Proofs.ProjectFile.Entries
import DepAudit.Proofs.Table

/-! Finding sections among written ones. A header is only read where a word stands before an equals
sign and a brace, which is at the sections themselves; one of another kind is passed over with all that
it holds, since its own kind stands first and no entry behind it names a kind again. -/
namespace DepAudit.ProjectFile.Layout
open Text

/-! Text without braces of its own. -/

structure Unbraced (cs : List Char) : Prop where
  braceless : ∀ c ∈ cs, c ≠ '\x7b' ∧ c ≠ '\x7d'
  closing : ∀ depth back, closingOffset depth .plain (cs ++ back) =
    (closingOffset depth .plain back).map (· + cs.length)

theorem Unbraced.append {cs ds : List Char} (first : Unbraced cs) (second : Unbraced ds) :
    Unbraced (cs ++ ds) where
  braceless c member := (List.mem_append.mp member).elim (first.braceless c) (second.braceless c)
  closing depth back := by
    rw [List.append_assoc,first.closing,second.closing,Option.map_map,List.length_append]
    refine congrArg (Option.map · _) (funext fun n => ?_)
    rw [Function.comp_apply]
    omega

theorem unbraced_of_marks {cs : List Char}
    (plain : ∀ c ∈ cs, c ≠ '"' ∧ c ≠ '\x7b' ∧ c ≠ '\x7d') : Unbraced cs where
  braceless c member := (plain c member).2
  closing depth back := by
    induction cs with
    | nil => exact Option.map_id'.symm
    | cons c cs ih =>
      obtain ⟨here,later⟩ := List.forall_mem_cons.mp plain
      rw [List.cons_append,closingOffset,if_neg here.1,if_neg here.2.1,if_neg here.2.2,ih later,
        Option.map_map]
      rfl

theorem unbraced_phrase {allowed : Char → Bool} (phrase : Phrase allowed)
    (spoken : ∀ c, allowed c = true → isSpoken c = true) : Unbraced phrase.chars :=
  unbraced_of_marks fun c member =>
    have here := spoken c (phrase.sound c member)
    ⟨ne_of_class here (by decide),ne_of_class here (by decide),ne_of_class here (by decide)⟩

theorem unbraced_flatMap {α : Type} {items : List α} {piece : α → List Char}
    (each : ∀ item, Unbraced (piece item)) : Unbraced (items.flatMap piece) := by
  induction items with
  | nil => exact unbraced_of_marks nofun
  | cons item items ih => exact (each item).append ih

theorem Comment.unbraced (c : Comment) : Unbraced c.chars := by
  have sign : ∀ d ∈ c.text.toList, d ≠ '"' ∧ d ≠ '\x7b' ∧ d ≠ '\x7d' := by
    intro d member
    have signless := c.signless d member
    refine ⟨?_,?_,?_⟩ <;> (rintro rfl; cases signless)
  have opening : Unbraced ['/','*'] := unbraced_of_marks (by decide)
  exact opening.append ((unbraced_of_marks sign).append (unbraced_of_marks (by decide)))

theorem unbraced_remark (comment : Phrase isSpoken) : Unbraced (remark comment) :=
  remark_eq comment ▸ (spoken comment).unbraced

theorem unbraced_note (comment : Phrase isSpoken) : Unbraced (note comment) :=
  have blank : Unbraced [' '] := unbraced_of_marks (by decide)
  blank.append (unbraced_remark comment)

theorem Value.unbraced (value : Value) : Unbraced value.chars := by
  cases value with
  | word w => exact unbraced_phrase w isSpoken_of_plain
  | noted w comment => exact (unbraced_phrase w isSpoken_of_plain).append (unbraced_note comment)
  | quoted w =>
    have inside := unbraced_phrase w isSpoken_of_plain
    refine ⟨fun c member => ?_,fun depth back => ?_⟩
    · rw [chars,List.mem_cons,List.mem_append,List.mem_singleton] at member
      rcases member with rfl | member | rfl
      · decide
      · exact inside.braceless c member
      · decide
    · rw [chars,List.cons_append,closingOffset,if_pos rfl,List.append_assoc,List.singleton_append,
        (quotedText_phrase w).closing,Option.map_map,List.length_cons,List.length_append]
      rfl
  | list comment ids =>
    refine (unbraced_of_marks (by decide)).append (.append (unbraced_flatMap fun id => ?_)
      (unbraced_of_marks (by decide)))
    refine (unbraced_of_marks (by decide)).append (.append ?_
      ((unbraced_note comment).append (unbraced_of_marks (by decide))))
    exact unbraced_phrase id fun c digit => isSpoken_of_plain c (isPlain_of_id c digit)

theorem Entry.unbraced (e : Entry) : Unbraced (e.chars ['\t','\t','\t']) :=
  have key := unbraced_phrase e.key fun c letter => isSpoken_of_plain c (isPlain_of_identifier c letter)
  (unbraced_of_marks (by decide)).append (key.append ((unbraced_of_marks (by decide)).append
    (e.value.unbraced.append (unbraced_of_marks (by decide)))))

theorem Section.unbraced_body (s : Section) : Unbraced s.body :=
  (unbraced_of_marks (by decide)).append
    ((unbraced_flatMap Entry.unbraced).append (unbraced_of_marks (by decide)))

theorem Section.groupBody?_body (s : Section) (back : List Char) :
    groupBody? ('\x7b' :: (s.body ++ '\x7d' :: back)) = some s.body := by
  rw [groupBody?_brace,s.unbraced_body.closing,closingOffset_closing,Option.map_some,Option.map_some,
    Nat.zero_add,List.take_left]

/-! The kind of a section. -/

theorem isaLine?_none_of_unkeyed (wanted : List Char) (before : Option Char) (cs : List Char)
    (unkeyed : keyed? isaKey.chars before cs = none) : isaLine? wanted before cs = none := by
  rw [isaLine?]
  cases starts : startsWord before with
  | false => rfl
  | true =>
    have identifier : startsIdentifier before = true := by
      cases before with
      | none => rfl
      | some c =>
        rw [startsWord,Option.any_some] at starts
        rw [startsIdentifier,Option.any_some]
        cases letter : isIdentifier c with
        | false => rfl
        | true => rw [isWord_of_identifier letter] at starts; cases starts
    rw [keyed?_eq,if_pos identifier] at unkeyed
    have key : isaKey.chars = "isa".toList := rfl
    rw [key] at unkeyed
    cases found : after? "isa".toList cs with
    | none => rfl
    | some rest =>
      rw [found,Option.bind_some,Option.map_eq_none_iff] at unkeyed
      change ((after? ['='] (skipBlanks rest)).bind fun cs => afterBlanks? (kindEnd? wanted) cs) = none
      rw [unkeyed]
      rfl

theorem isaAhead?_of_misses {wanted cs back : List Char} {before : Option Char}
    (misses : Misses (isaLine? wanted) before cs back)
    (braceless : ∀ c ∈ cs, c ≠ '\x7b' ∧ c ≠ '\x7d') :
    isaAhead? wanted before (cs ++ back) = isaAhead? wanted (behind before cs) back := by
  induction cs generalizing before with
  | nil => rfl
  | cons c cs ih =>
    obtain ⟨here,later⟩ := List.forall_mem_cons.mp braceless
    have open_ : ¬(decide (c = '\x7b') || decide (c = '\x7d')) = true := by simp [here]
    rw [List.cons_append,isaAhead?,misses.1]
    exact (if_neg open_).trans (ih misses.2 later)

theorem isaLine?_none_of_ne {c : Char} (different : c ≠ 'i') (wanted : List Char)
    (before : Option Char) (cs : List Char) : isaLine? wanted before (c :: cs) = none := by
  rw [isaLine?,show "isa".toList = ['i','s','a'] from rfl,after?_of_ne different.symm]
  cases startsWord before <;> rfl

theorem silent_unstarted (wanted : List Char) {cs : List Char} (absent : ∀ c ∈ cs, c ≠ 'i') :
    Silent (isaLine? wanted) cs :=
  silent_of_heads fun c member before rest => isaLine?_none_of_ne (absent c member) wanted before rest

theorem isaAhead?_brace {c : Char} (brace : c = '\x7b' ∨ c = '\x7d') (wanted : List Char)
    (before : Option Char) (cs : List Char) : isaAhead? wanted before (c :: cs) = none := by
  have different : c ≠ 'i' := by
    rintro rfl
    exact absurd brace (by decide)
  rw [isaAhead?,isaLine?_none_of_ne different]
  exact if_pos (by simpa using brace)

section kinds

variable {wanted : Phrase isIdentifier} {s : Section}

theorem kindEnd?_chars (kind : Phrase isIdentifier) (back : List Char) :
    kindEnd? wanted.chars (kind.chars ++ (";\n".toList ++ back)) =
      if kind.text = wanted.text then some ("\n".toList ++ back) else none := by
  split
  · rename_i same
    have chars : wanted.chars = kind.chars := congrArg String.toList same.symm
    rw [kindEnd?,chars,after?_append]
    change after? [';'] (skipBlanks (';' :: ("\n".toList ++ back))) = _
    rw [skipBlanks_cons (by decide)]
    exact after?_append [';'] _
  · rename_i other
    rw [kindEnd?]
    cases found : after? wanted.chars (kind.chars ++ (";\n".toList ++ back)) with
    | none => rfl
    | some rest =>
      change after? [';'] (skipBlanks rest) = none
      cases ended : after? [';'] (skipBlanks rest) with
      | none => rfl
      | some last =>
        rw [after?_eq_some] at found ended
        have wordless : ∃ c cs, rest = c :: cs ∧ isWord c = false := by
          cases rest with
          | nil => cases ended
          | cons c cs =>
            refine ⟨c,cs,rfl,?_⟩
            cases blank : isBlank c with
            | true => exact isWord_of_blank blank
            | false =>
              rw [skipBlanks_cons blank] at ended
              obtain rfl : c = ';' := (List.cons.inj ended).1
              decide
        obtain ⟨c,cs,rfl,wordless⟩ := wordless
        have semicolon : Stops isIdentifier (";\n".toList ++ back) :=
          stops_of_wordless (show isWord ';' = false by decide) _
        exact absurd (same_text semicolon (stops_of_wordless wordless cs) found) other

theorem isaLine?_chars (kind : Phrase isIdentifier) (back : List Char) :
    isaLine? wanted.chars (some '\t')
      (isaKey.chars ++ (" = ".toList ++ (kind.chars ++ (";\n".toList ++ back)))) =
        if kind.text = wanted.text then some ("\n".toList ++ back) else none := by
  obtain ⟨w,ws,wantedChars,letter⟩ := wanted.exists_cons
  obtain ⟨k,ks,kindChars,first⟩ := kind.exists_cons
  have early : kindEnd? wanted.chars (' ' :: (kind.chars ++ (";\n".toList ++ back))) = none := by
    rw [kindEnd?,wantedChars,after?_of_ne (ne_of_class letter (by decide))]
    rfl
  have visible : isBlank k = false := isBlank_of_plain (isPlain_of_identifier k first)
  have late : afterBlanks? (kindEnd? wanted.chars) (kind.chars ++ (";\n".toList ++ back)) =
      kindEnd? wanted.chars (kind.chars ++ (";\n".toList ++ back)) := by
    rw [kindChars,List.cons_append,afterBlanks?,visible]
    rfl
  have sign : after? ['='] (skipBlanks (" = ".toList ++ (kind.chars ++ (";\n".toList ++ back)))) =
      some (' ' :: (kind.chars ++ (";\n".toList ++ back))) := by
    rw [show " = ".toList = [' ','=',' '] from rfl,List.cons_append,skipBlanks_blank (by decide),
      List.cons_append,skipBlanks_cons (by decide)]
    rfl
  have ahead : isaLine? wanted.chars (some '\t')
      (isaKey.chars ++ (" = ".toList ++ (kind.chars ++ (";\n".toList ++ back)))) =
        (after? ['='] (skipBlanks (" = ".toList ++ (kind.chars ++ (";\n".toList ++ back))))).bind
          (afterBlanks? (kindEnd? wanted.chars)) := by
    rw [isaLine?,show isaKey.chars = "isa".toList from rfl,after?_append]
    rfl
  rw [ahead,sign,Option.bind_some,afterBlanks?,if_pos (by decide),late,early,kindEnd?_chars]
  split <;> rfl

theorem isaAhead?_of_silent {cs : List Char} (silent : Silent (keyed? isaKey.chars) cs)
    (braceless : ∀ c ∈ cs, c ≠ '\x7b' ∧ c ≠ '\x7d') (before : Option Char) (back : List Char) :
    isaAhead? wanted.chars before (cs ++ back) = isaAhead? wanted.chars (behind before cs) back :=
  isaAhead?_of_misses ((silent.mono (isaLine?_none_of_unkeyed _)) before back) braceless

def Section.rest (s : Section) : List Char :=
  "\n".toList ++ (s.entries.flatMap (Entry.chars ['\t','\t','\t']) ++ "\t\t".toList)

theorem Section.body_eq (s : Section) : s.body =
    "\n\t\t\t".toList ++ (isaKey.chars ++ (" = ".toList ++ (s.kind.chars ++ (';' :: s.rest)))) := by
  rw [body,lines,List.flatMap_cons,Entry.chars,rest]
  simp only [List.append_assoc]
  rfl

theorem Section.isaAhead?_rest (s : Section) (before : Option Char) (back : List Char) :
    isaAhead? wanted.chars before (s.rest ++ '\x7d' :: back) = none := by
  have marks : Silent (keyed? isaKey.chars) "\n".toList := silent_marks_keyed isaKey (by decide)
  have tabs : Silent (keyed? isaKey.chars) "\t\t".toList := silent_marks_keyed isaKey (by decide)
  have entries : Silent (keyed? isaKey.chars) (s.entries.flatMap (Entry.chars ['\t','\t','\t'])) :=
    .flatMap fun e member => e.silent_other (s.kindless e member) (by decide)
  have unbraced : Unbraced s.rest := (unbraced_of_marks (by decide)).append
    ((unbraced_flatMap Entry.unbraced).append (unbraced_of_marks (by decide)))
  have silent : Silent (keyed? isaKey.chars) s.rest := marks.append (entries.append tabs)
  rw [isaAhead?_of_silent silent unbraced.braceless]
  exact isaAhead?_brace (.inr rfl) _ _ _

/-- The search for a kind in a body ends with the kind that the section has. -/
theorem Section.isaAhead?_body (s : Section) (back : List Char) :
    isaAhead? wanted.chars (some '\x7b') (s.body ++ '\x7d' :: back) =
      if s.kind.text = wanted.text then some (s.rest ++ '\x7d' :: back) else none := by
  have marks : Silent (keyed? isaKey.chars) "\n\t\t\t".toList := silent_marks_keyed isaKey (by decide)
  have parts : s.body ++ '\x7d' :: back = "\n\t\t\t".toList ++ (isaKey.chars ++ (" = ".toList ++
      (s.kind.chars ++ (";".toList ++ (s.rest ++ '\x7d' :: back))))) := by
    rw [body_eq]
    simp only [List.append_assoc]
    rfl
  have kind : isaLine? wanted.chars (some '\t') (isaKey.chars ++ (" = ".toList ++
      (s.kind.chars ++ (";".toList ++ (s.rest ++ '\x7d' :: back))))) =
        if s.kind.text = wanted.text then some (s.rest ++ '\x7d' :: back) else none :=
    isaLine?_chars s.kind (s.rest.drop 1 ++ '\x7d' :: back)
  have first : ∀ cs, isaKey.chars ++ cs = 'i' :: ("sa".toList ++ cs) := fun _ => rfl
  rw [parts,isaAhead?_of_silent marks (by decide)]
  change isaAhead? wanted.chars (some '\t') _ = _
  by_cases same : s.kind.text = wanted.text
  · rw [if_pos same] at kind ⊢
    rw [first] at kind ⊢
    rw [isaAhead?,kind]
  · rw [if_neg same] at kind ⊢
    have key : Misses (isaLine? wanted.chars) (some '\t') isaKey.chars (" = ".toList ++
        (s.kind.chars ++ (";".toList ++ (s.rest ++ '\x7d' :: back)))) :=
      ⟨kind,isaLine?_none_of_ne (by decide) _ _ _,isaLine?_none_of_ne (by decide) _ _ _,trivial⟩
    have sign : Silent (keyed? isaKey.chars) " = ".toList := silent_marks_keyed isaKey (by decide)
    have end_ : Silent (keyed? isaKey.chars) ";".toList := silent_marks_keyed isaKey (by decide)
    have spoken : ∀ c, isIdentifier c = true → isSpoken c = true := fun c letter =>
      isSpoken_of_plain c (isPlain_of_identifier c letter)
    have settles : Settles (";".toList ++ (s.rest ++ '\x7d' :: back)) :=
      settles_mark (by decide) (by decide) (by decide) (by decide) _
    have word := ((misses_phrase s.kind spoken settles (some ' ')).mono
      (keyed?_none_of_unassigned isaKey)).mono (isaLine?_none_of_unkeyed wanted.chars)
    rw [isaAhead?_of_misses key (by decide),isaAhead?_of_silent sign (by decide)]
    change isaAhead? wanted.chars (some ' ') _ = _
    rw [isaAhead?_of_misses word (unbraced_phrase s.kind spoken).braceless,
      isaAhead?_of_silent end_ (by decide),s.isaAhead?_rest]

/-! Headers. -/

def opened? (kind cs : List Char) : Option (List Char × List Char) :=
  (after? ['='] (skipGap cs)).bind fun cs =>
    (after? ['\x7b'] (skipBlanks cs)).bind fun inside =>
      (isaAhead? kind (some '\x7b') inside).map fun rest => (skipBlanks cs,rest)

theorem header?_eq (kind : List Char) (before : Option Char) (cs : List Char) :
    header? kind before cs = if startsWord before && !(cs.takeWhile isWord).isEmpty then
      (opened? kind (cs.dropWhile isWord)).map fun r => (⟨cs.takeWhile isWord,r.1⟩,r.2) else none := by
  rw [header?,opened?]
  dsimp only
  cases startsWord before with
  | false => rfl
  | true =>
    cases (cs.takeWhile isWord).isEmpty with
    | true => rfl
    | false =>
      cases after? ['='] (skipGap (cs.dropWhile isWord)) with
      | none => rfl
      | some group =>
        cases opened : after? ['\x7b'] (skipBlanks group) with
        | none => simp [guard,opened]
        | some inside =>
          cases ahead : isaAhead? kind (some '\x7b') inside <;> simp [guard,opened,ahead]

theorem header?_none_of_unassigned (kind : List Char) (before : Option Char) (cs : List Char)
    (unassigned : assigned? before cs = none) : header? kind before cs = none := by
  rw [header?_eq]
  split
  · rename_i starts
    rw [Bool.and_eq_true,Bool.not_eq_true',List.isEmpty_eq_false_iff] at starts
    rw [assigned?,if_neg starts.2] at unassigned
    rw [opened?,unassigned]
    rfl
  · rfl

theorem silent_marks_header (kind : List Char) {cs : List Char}
    (wordless : ∀ c ∈ cs, isWord c = false) : Silent (header? kind) cs :=
  (silent_marks wordless).mono (header?_none_of_unassigned kind)

theorem misses_shut {kind cs back : List Char} (words : ∀ c ∈ cs, isWord c = true)
    (stops : Stops isWord back) (shut : opened? kind back = none) (before : Option Char) :
    Misses (header? kind) before cs back := by
  refine misses_of_suffixes fun before c rest suffix => ?_
  rw [header?_eq,← List.cons_append,dropWhile_run (fun d member => words d (suffix.subset member)) stops,shut]
  split <;> rfl

/-- An entry opens nothing, so the search for headers passes over it. -/
theorem Entry.silent_header (e : Entry) {indent : List Char}
    (wordless : ∀ c ∈ indent, isWord c = false) (kind : List Char) :
    Silent (header? kind) (e.chars indent) := by
  intro before back
  refine (silent_marks_header kind wordless _ _).append (.append ?_ (.append
    (silent_marks_header kind (by decide) _ _) (.append ?_ (silent_marks_header kind (by decide) _ _))))
  · have stops : Stops isWord (" = ".toList ++ (e.value.chars ++ (";\n".toList ++ back))) :=
      stops_cons (by decide) _
    rw [List.append_assoc,List.append_assoc]
    refine misses_shut (fun c member => isWord_of_identifier (e.key.sound c member)) stops ?_ _
    obtain ⟨c,cs,value,visible,closed⟩ := e.value.exists_cons
    have sign : skipGap (" = ".toList ++ (e.value.chars ++ (";\n".toList ++ back))) =
        '=' :: ' ' :: (e.value.chars ++ (";\n".toList ++ back)) := by
      rw [show " = ".toList = [' ','=',' '] from rfl,List.cons_append,skipGap_blank (by decide),
        List.cons_append,skipGap_cons (by decide) (by decide)]
      rfl
    have group : skipBlanks (' ' :: (e.value.chars ++ (";\n".toList ++ back))) =
        c :: (cs ++ (";\n".toList ++ back)) := by
      rw [skipBlanks_blank (by decide),e.value.skipBlanks_chars,value]
      rfl
    have equal : after? ['='] ('=' :: ' ' :: (e.value.chars ++ (";\n".toList ++ back))) =
        some (' ' :: (e.value.chars ++ (";\n".toList ++ back))) := after?_append ['='] _
    rw [opened?,sign,equal,Option.bind_some,group,after?_of_ne closed.symm]
    rfl
  · exact (e.value.misses _ back).mono (header?_none_of_unassigned kind)

theorem opened?_section (comment : Phrase isSpoken) (kind inside : List Char) :
    opened? kind (note comment ++ (" = \x7b".toList ++ inside)) =
      (isaAhead? kind (some '\x7b') inside).map fun rest => ('\x7b' :: inside,rest) := by
  have sign : skipGap (note comment ++ (" = \x7b".toList ++ inside)) =
      '=' :: (" \x7b".toList ++ inside) := by
    rw [skipGap_note,show " = \x7b".toList = [' ','=',' ','\x7b'] from rfl,List.cons_append,
      skipBlanks_blank (by decide),List.cons_append,skipBlanks_cons (by decide)]
    rfl
  have group : skipBlanks (" \x7b".toList ++ inside) = '\x7b' :: inside := by
    rw [show " \x7b".toList = [' ','\x7b'] from rfl,List.cons_append,skipBlanks_blank (by decide),
      List.cons_append,skipBlanks_cons (by decide)]
    rfl
  have equal : after? ['='] ('=' :: (" \x7b".toList ++ inside)) = some (" \x7b".toList ++ inside) :=
    after?_append ['='] _
  have brace : after? ['\x7b'] ('\x7b' :: inside) = some inside := after?_append ['\x7b'] _
  rw [opened?,sign,equal,Option.bind_some,group,brace,Option.bind_some]

theorem Section.words (s : Section) : ∀ c ∈ s.id.chars, isWord c = true := fun c member =>
  isWord_of_identifier (isIdentifier_of_id c (s.id.sound c member))

theorem silent_lines (kind : List Char) (entries : List Entry) :
    Silent (header? kind) (("\n".toList ++ (entries.flatMap (Entry.chars ['\t','\t','\t']) ++
      "\t\t".toList)) ++ "\x7d;\n".toList) := by
  have mark : Silent (header? kind) "\n".toList := silent_marks_header kind (by decide)
  have tabs : Silent (header? kind) "\t\t".toList := silent_marks_header kind (by decide)
  have close : Silent (header? kind) "\x7d;\n".toList := silent_marks_header kind (by decide)
  exact (mark.append (.append (.flatMap fun e _ => e.silent_header (by decide) kind) tabs)).append close

theorem Section.silent_other (other : s.kind.text ≠ wanted.text) :
    Silent (header? wanted.chars) s.chars := by
  have tabs : Silent (header? wanted.chars) "\t\t".toList := silent_marks_header _ (by decide)
  have sign : Silent (header? wanted.chars) " = \x7b".toList := silent_marks_header _ (by decide)
  have comment := (silent_note s.comment).mono (header?_none_of_unassigned wanted.chars)
  intro before back
  refine (tabs _ _).append (.append ?_ (comment.append (sign.append (silent_lines _ s.lines)) _ _))
  have shape : (note s.comment ++ (" = \x7b".toList ++ (s.body ++ "\x7d;\n".toList))) ++ back =
      note s.comment ++ (" = \x7b".toList ++ (s.body ++ '\x7d' :: (";\n".toList ++ back))) := by
    simp only [List.append_assoc]
    rfl
  have stops : Stops isWord (note s.comment ++ (" = \x7b".toList ++ (s.body ++ '\x7d' :: (";\n".toList ++ back)))) :=
    stops_cons (by decide) _
  -- Only the id stands before an equals sign and a brace, and behind those comes another kind.
  rw [shape]
  refine misses_shut s.words stops ?_ _
  rw [opened?_section,s.isaAhead?_body,if_neg other]
  rfl

def Section.heading (s : Section) (digits : List Char) : List Char :=
  digits ++ (note s.comment ++ (" = \x7b".toList ++ ("\n\t\t\t".toList ++ (isaKey.chars ++
    (" = ".toList ++ (s.kind.chars ++ ";".toList))))))

/-- The search for headers reads a section of its kind, and goes on behind it. -/
theorem Section.allFrom_own (same : s.kind.text = wanted.text) (before : Option Char)
    (back : List Char) : allFrom (header? wanted.chars) before 0 (s.chars ++ back) =
      ⟨s.id.chars,'\x7b' :: (s.body ++ '\x7d' :: (";\n".toList ++ back))⟩ ::
        allFrom (header? wanted.chars) (some '\n') 0 back := by
  obtain ⟨digit,digits,id,_⟩ := s.id.exists_cons
  have tabs : Silent (header? wanted.chars) "\t\t".toList := silent_marks_header _ (by decide)
  have parts : s.chars ++ back = "\t\t".toList ++ (s.id.chars ++ (note s.comment ++ (" = \x7b".toList ++
      (s.body ++ '\x7d' :: (";\n".toList ++ back))))) := by
    rw [chars]
    simp only [List.append_assoc]
    rfl
  have taken : s.id.chars ++ (note s.comment ++ (" = \x7b".toList ++
      (s.body ++ '\x7d' :: (";\n".toList ++ back)))) =
        digit :: (s.heading digits ++ ((s.rest ++ "\x7d;\n".toList) ++ back)) := by
    rw [id,body_eq,heading]
    simp only [List.append_assoc,List.cons_append]
    rfl
  have stops : Stops isWord (note s.comment ++ (" = \x7b".toList ++ (s.body ++ '\x7d' :: (";\n".toList ++ back)))) :=
    stops_cons (by decide) _
  have reads : header? wanted.chars (some '\t') (s.id.chars ++ (note s.comment ++ (" = \x7b".toList ++
      (s.body ++ '\x7d' :: (";\n".toList ++ back))))) =
        some (⟨s.id.chars,'\x7b' :: (s.body ++ '\x7d' :: (";\n".toList ++ back))⟩,
          (s.rest ++ "\x7d;\n".toList) ++ back) := by
    rw [header?_eq,takeWhile_run s.words stops,dropWhile_run s.words stops,opened?_section,s.isaAhead?_body,
      if_pos same,id,List.append_assoc]
    rfl
  rw [parts,allFrom_of_misses (tabs _ _)]
  change allFrom (header? wanted.chars) (some '\t') 0 _ = _
  rw [taken] at reads ⊢
  have passed : Misses (header? wanted.chars) (behind (some digit) (s.heading digits))
      (s.rest ++ "\x7d;\n".toList) back := silent_lines _ s.entries _ _
  rw [allFrom_of_reads reads,allFrom_of_misses passed,behind_append]
  rfl

def Section.pair (s : Section) : String × String := (s.id.text,String.ofList s.body)

/-- All sections of a kind among some, in their order. -/
theorem allFrom_sections (found : List Section) (before : Option Char) (back : List Char) :
    (allFrom (header? wanted.chars) before 0 (found.flatMap Section.chars ++ back)).filterMap
        Header.entry? = ((found.filter fun s => s.kind.text = wanted.text).map Section.pair) ++
      (allFrom (header? wanted.chars) (behind before (found.flatMap Section.chars)) 0 back).filterMap
        Header.entry? := by
  induction found generalizing before with
  | nil => rfl
  | cons s found ih =>
    rw [List.flatMap_cons,List.append_assoc,behind_append]
    by_cases same : s.kind.text = wanted.text
    · have last : behind before s.chars = some '\n' := by
        rw [Section.chars]
        simp only [behind_append]
        rfl
      have entry : Header.entry? ⟨s.id.chars,'\x7b' :: (s.body ++ '\x7d' :: (";\n".toList ++
          (found.flatMap Section.chars ++ back)))⟩ = some s.pair := by
        rw [ Header.entry?,s.groupBody?_body,Option.map_some,s.id.ofList_chars]
        rfl
      rw [s.allFrom_own same,List.filterMap_cons_some entry,ih,last,List.filter_cons,
        if_pos (decide_eq_true same)]
      rfl
    · rw [allFrom_of_misses (s.silent_other same _ _),ih,List.filter_cons,
        if_neg (by simpa using same)]

/-! The whole file. -/

/-- Sections open braces before they could name a kind. -/
theorem isaAhead?_sections (found : List Section) {back : List Char}
    (shut : ∀ before, isaAhead? wanted.chars before back = none) (before : Option Char) :
    isaAhead? wanted.chars before (found.flatMap Section.chars ++ back) = none := by
  cases found with
  | nil => exact shut before
  | cons s found =>
    have id : Silent (isaLine? wanted.chars) s.id.chars :=
      silent_unstarted _ fun c member => ne_of_class (s.id.sound c member) (by decide)
    have tabs : Silent (isaLine? wanted.chars) "\t\t".toList := silent_unstarted _ (by decide)
    have sign : Silent (isaLine? wanted.chars) " = ".toList := silent_unstarted _ (by decide)
    have comment : Silent (isaLine? wanted.chars) (note s.comment) :=
      ((silent_note s.comment).mono (keyed?_none_of_unassigned isaKey)).mono
        (isaLine?_none_of_unkeyed _)
    have unbraced : Unbraced ("\t\t".toList ++ (s.id.chars ++ (note s.comment ++ " = ".toList))) :=
      (unbraced_of_marks (by decide)).append ((unbraced_phrase s.id fun c digit =>
        isSpoken_of_plain c (isPlain_of_id c digit)).append ((unbraced_note s.comment).append
          (unbraced_of_marks (by decide))))
    have parts : (s :: found).flatMap Section.chars ++ back =
        ("\t\t".toList ++ (s.id.chars ++ (note s.comment ++ " = ".toList))) ++ '\x7b' ::
          (s.body ++ ("\x7d;\n".toList ++ (found.flatMap Section.chars ++ back))) := by
      rw [List.flatMap_cons,Section.chars]
      simp only [List.append_assoc]
      rfl
    rw [parts,isaAhead?_of_misses (tabs.append (id.append (comment.append sign)) _ _)
      unbraced.braceless]
    exact isaAhead?_brace (.inl rfl) _ _ _

theorem silent_banner : Silent assigned? "// !$*UTF8*$!\n\x7b\n".toList := by
  have parts : "// !$*UTF8*$!\n\x7b\n".toList =
      "// !$*".toList ++ ("UTF8".toList ++ "*$!\n\x7b\n".toList) := by decide
  rw [parts]
  intro before back
  refine (silent_marks (by decide) _ _).append (.append ?_ (silent_marks (by decide) _ _))
  exact misses_spoken (by decide)
    (settles_mark (by decide) (by decide) (by decide) (by decide) _) _

/-- The group of all objects is no section, whatever kind is looked for. -/
theorem misses_objects {inside : List Char}
    (shut : ∀ before, isaAhead? wanted.chars before inside = none) (before : Option Char) :
    Misses (header? wanted.chars) before "\tobjects = \x7b\n\n".toList inside := by
  have parts : "\tobjects = \x7b\n\n".toList =
      "\t".toList ++ ("objects".toList ++ " = \x7b\n\n".toList) := by decide
  have marks : Silent (isaLine? wanted.chars) "\n\n".toList := silent_unstarted _ (by decide)
  have stops : Stops isWord (" = \x7b\n\n".toList ++ inside) := stops_cons (by decide) _
  have opened : opened? wanted.chars (" = \x7b\n\n".toList ++ inside) = none := by
    have sign : skipGap (" = \x7b\n\n".toList ++ inside) = '=' :: (" \x7b\n\n".toList ++ inside) := by
      rw [show " = \x7b\n\n".toList = ' ' :: '=' :: " \x7b\n\n".toList from by decide,List.cons_append,
        skipGap_blank (by decide),List.cons_append,skipGap_cons (by decide) (by decide)]
    have group : skipBlanks (" \x7b\n\n".toList ++ inside) = '\x7b' :: ("\n\n".toList ++ inside) := by
      rw [show " \x7b\n\n".toList = ' ' :: '\x7b' :: "\n\n".toList from by decide,List.cons_append,
        skipBlanks_blank (by decide),List.cons_append,skipBlanks_cons (by decide)]
    have equal : after? ['='] ('=' :: (" \x7b\n\n".toList ++ inside)) =
        some (" \x7b\n\n".toList ++ inside) := after?_append ['='] _
    have brace : after? ['\x7b'] ('\x7b' :: ("\n\n".toList ++ inside)) = some ("\n\n".toList ++ inside) :=
      after?_append ['\x7b'] _
    rw [opened?,sign,equal,Option.bind_some,group,brace,Option.bind_some,
      isaAhead?_of_misses (marks _ _) (by decide),shut]
    rfl
  rw [parts]
  exact (silent_marks_header _ (by decide) _ _).append (.append
    (misses_shut (by decide) stops opened _) (silent_marks_header _ (by decide) _ _))

theorem isaAhead?_remark (comment : Phrase isSpoken) (before : Option Char) (back : List Char) :
    isaAhead? wanted.chars before (remark comment ++ back) =
      isaAhead? wanted.chars (behind before (remark comment)) back :=
  isaAhead?_of_silent ((silent_remark comment).mono (keyed?_none_of_unassigned isaKey))
    (unbraced_remark comment).braceless before back

theorem isaAhead?_marks {cs : List Char} (wordless : ∀ c ∈ cs, isWord c = false)
    (braceless : ∀ c ∈ cs, c ≠ '\x7b' ∧ c ≠ '\x7d') (before : Option Char) (back : List Char) :
    isaAhead? wanted.chars before (cs ++ back) = isaAhead? wanted.chars (behind before cs) back :=
  isaAhead?_of_silent (silent_marks_keyed isaKey wordless) braceless before back

theorem misses_prologue {inside : List Char}
    (shut : ∀ before, isaAhead? wanted.chars before inside = none) (before : Option Char) :
    Misses (header? wanted.chars) before prologue inside := by
  have weaker := header?_none_of_unassigned wanted.chars
  have mark : Silent assigned? "\n".toList := silent_marks (by decide)
  refine (silent_banner.mono weaker _ _).append (.append (Entry.silent_header _ (by decide) _ _ _)
    (.append (Entry.silent_header _ (by decide) _ _ _) (.append (misses_objects ?_ _)
      (((silent_remark _).append mark).mono weaker _ _))))
  intro before
  rw [List.append_assoc,isaAhead?_remark,isaAhead?_marks (by decide) (by decide)]
  exact shut _

theorem silent_middle : Silent assigned? middle :=
  have mark : Silent assigned? "\n".toList := silent_marks (by decide)
  have marks : Silent assigned? "\n\n".toList := silent_marks (by decide)
  mark.append ((silent_remark _).append (marks.append ((silent_remark _).append mark)))

theorem isaAhead?_middle (before : Option Char) (back : List Char) :
    isaAhead? wanted.chars before (middle ++ back) =
      isaAhead? wanted.chars (behind before middle) back := by
  have mark : Unbraced "\n".toList := unbraced_of_marks (by decide)
  have marks : Unbraced "\n\n".toList := unbraced_of_marks (by decide)
  have unbraced : Unbraced middle :=
    mark.append ((unbraced_remark _).append (marks.append ((unbraced_remark _).append mark)))
  exact isaAhead?_of_silent (silent_middle.mono (keyed?_none_of_unassigned isaKey))
    unbraced.braceless before back

theorem silent_epilogue (kind : List Char) : Silent (header? kind) epilogue := by
  have mark : Silent (header? kind) "\n".toList := silent_marks_header kind (by decide)
  have close : Silent (header? kind) "\n\t\x7d;\n".toList := silent_marks_header kind (by decide)
  have last : Silent (header? kind) "\x7d\n".toList := silent_marks_header kind (by decide)
  have remark := fun comment => (silent_remark comment).mono (header?_none_of_unassigned kind)
  exact mark.append ((remark _).append (close.append ((Entry.silent_header _ (by decide) _).append last)))

theorem isaAhead?_epilogue (before : Option Char) : isaAhead? wanted.chars before epilogue = none := by
  have parts : "\n\t\x7d;\n".toList = "\n\t".toList ++ '\x7d' :: ";\n".toList := by decide
  rw [epilogue,isaAhead?_marks (by decide) (by decide),isaAhead?_remark,parts,List.append_assoc,
    isaAhead?_marks (by decide) (by decide)]
  exact isaAhead?_brace (.inr rfl) _ _ _

/-- The sections of a kind in a written file are those that were written, in their order. -/
theorem sections_project (wanted : Phrase isIdentifier) (front back : List Section)
    (distinct : (((front ++ back).filter fun s => s.kind.text = wanted.text).map (·.id.text)).Nodup) :
    sections (String.ofList (project front back)) wanted.text =
      ((front ++ back).filter fun s => s.kind.text = wanted.text).map Section.pair := by
  have shut : ∀ before, isaAhead? wanted.chars before (front.flatMap Section.chars ++ (middle ++
      (back.flatMap Section.chars ++ epilogue))) = none := by
    refine isaAhead?_sections front fun before => ?_
    rw [isaAhead?_middle]
    exact isaAhead?_sections back isaAhead?_epilogue _
  have between : Silent (header? wanted.chars) middle :=
    silent_middle.mono (header?_none_of_unassigned _)
  have last : ∀ before, allFrom (header? wanted.chars) before 0 epilogue = [] := fun before => by
    have rest := allFrom_of_misses (silent_epilogue wanted.chars before [])
    rwa [List.append_nil] at rest
  have found : (all (header? wanted.chars) (project front back)).filterMap Header.entry? =
      ((front ++ back).filter fun s => s.kind.text = wanted.text).map Section.pair := by
    rw [all,project,allFrom_of_misses (misses_prologue shut none),allFrom_sections,
      allFrom_of_misses (between _ _),allFrom_sections,last,List.filterMap_nil,List.append_nil,
      List.filter_append,List.map_append]
  have keys : ((((front ++ back).filter fun s => s.kind.text = wanted.text).map Section.pair).map
      Prod.fst).Nodup := by
    rw [List.map_map]
    exact distinct
  rw [sections,String.toList_ofList,show wanted.text.toList = wanted.chars from rfl,found]
  exact Table.ofPairs_of_nodup keys

end kinds

end DepAudit.ProjectFile.Layout
