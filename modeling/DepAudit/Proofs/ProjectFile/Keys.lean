import DepAudit.Proofs.ProjectFile.Groups
import DepAudit.Proofs.ProjectFile.Layout
import DepAudit.Proofs.Text.Runs

/-! Keys: what has to stand at a place where a key is found, what keeps it from being found, and how the value behind it
is read. -/
namespace DepAudit.ProjectFile
open Text

theorem keyed?_eq (key : List Char) (before : Option Char) (cs : List Char) :
    keyed? key before cs = if startsIdentifier before then
      (after? key cs).bind fun rest => (after? ['='] (skipBlanks rest)).map skipBlanks else none := by
  rw [keyed?]
  cases startsIdentifier before with
  | false => rfl
  | true =>
    cases after? key cs with
    | none => rfl
    | some rest =>
      change ((after? ['='] (skipBlanks rest)).bind fun cs => some (skipBlanks cs)) =
        (after? ['='] (skipBlanks rest)).map skipBlanks
      cases after? ['='] (skipBlanks rest) <;> rfl

/-- A key that nothing continues to the left, an equals sign, and blanks around that. -/
theorem keyed?_eq_some {word cs rest : List Char} {before : Option Char} :
    keyed? word before cs = some rest ↔ startsIdentifier before = true ∧ Stops isBlank rest ∧
      ∃ gap gap', (∀ c ∈ gap ++ gap', isBlank c = true) ∧ cs = word ++ (gap ++ '=' :: (gap' ++ rest)) := by
  rw [keyed?_eq]
  constructor
  · intro found
    obtain ⟨starts,found⟩ := Option.ite_none_right_eq_some.mp found
    obtain ⟨behindKey,key,found⟩ := Option.bind_eq_some_iff.mp found
    obtain ⟨behindSign,sign,rfl⟩ := Option.map_eq_some_iff.mp found
    obtain ⟨gap,blanks,_,before⟩ := exists_run isBlank behindKey
    obtain ⟨gap',blanks',visible,after⟩ := exists_run isBlank behindSign
    refine ⟨starts,visible,gap,gap',List.forall_mem_append.mpr ⟨blanks,blanks'⟩,?_⟩
    have value : behindKey.dropWhile isBlank = '=' :: behindSign := after?_eq_some.mp sign
    rw [value] at before
    rw [after?_eq_some.mp key,before]
    exact congrArg (fun cs => word ++ (gap ++ '=' :: cs)) after
  · rintro ⟨starts,visible,gap,gap',blank,rfl⟩
    obtain ⟨blanks,blanks'⟩ := List.forall_mem_append.mp blank
    have sign : skipBlanks (gap ++ '=' :: (gap' ++ rest)) = '=' :: (gap' ++ rest) :=
      dropWhile_run blanks (stops_cons (by decide) _)
    have value : skipBlanks (gap' ++ rest) = rest := dropWhile_run blanks' visible
    have equal : after? ['='] ('=' :: (gap' ++ rest)) = some (gap' ++ rest) := after?_append ['='] _
    rw [if_pos starts,after?_append,Option.bind_some,sign,equal,Option.map_some,value]

variable {key : Phrase isIdentifier} {cs back : List Char} {before : Option Char}

/-- A key that is found in front of a sign which stands neither in a key nor in a gap has its own equals sign in
front of that. -/
theorem assigned_of_keyed? {c : Char} {rest : List Char} (letterless : isIdentifier c = false)
    (visible : isBlank c = false) (unequal : c ≠ '=')
    (found : keyed? key.chars before (cs ++ c :: back) = some rest) :
    ∃ gap behind, (∀ d ∈ gap, isBlank d = true) ∧ cs = key.chars ++ (gap ++ '=' :: behind) := by
  obtain ⟨_,_,gap,gap',blank,whole⟩ := keyed?_eq_some.mp found
  obtain ⟨blanks,_⟩ := List.forall_mem_append.mp blank
  have outside : c ∉ key.chars ++ gap := by
    intro inside
    rcases List.mem_append.mp inside with letter | blank
    · exact absurd (key.sound c letter) (ne_true_of_eq_false letterless)
    · exact absurd (blanks c blank) (ne_true_of_eq_false visible)
  rw [← List.append_assoc] at whole
  rcases List.append_eq_append_iff.mp whole with ⟨more,front,behind⟩ | ⟨more,front,behind⟩
  · cases more with
    | nil => exact absurd (List.cons.inj behind).1 unequal
    | cons d more =>
      obtain rfl : c = d := (List.cons.inj behind).1
      exact absurd (front ▸ by simp) outside
  · cases more with
    | nil => exact absurd (List.cons.inj behind).1.symm unequal
    | cons d more =>
      obtain rfl : '=' = d := (List.cons.inj behind).1
      exact ⟨gap,more,blanks,by simpa using front⟩

/-- No key is found among characters none of which is an equals sign. -/
theorem misses_unassigned {c : Char} (unassigned : ∀ d ∈ cs, d ≠ '=') (letterless : isIdentifier c = false)
    (visible : isBlank c = false) (unequal : c ≠ '=') : Misses (keyed? key.chars) before cs (c :: back) := by
  apply misses_of_suffixes
  intro before d rest suffix
  rw [← List.cons_append]
  cases found : keyed? key.chars before ((d :: rest) ++ c :: back) with
  | none => rfl
  | some _ =>
    obtain ⟨gap,behind,_,whole⟩ := assigned_of_keyed? letterless visible unequal found
    exact absurd rfl (unassigned '=' (suffix.subset (by simp [whole])))

/-- Where a word has an equals sign behind it, the key is that word. -/
theorem eq_of_keyed? {rest : List Char} (solid : ∀ d ∈ cs, isBlank d = false ∧ d ≠ '=')
    (ends : Stops (fun d => !isBlank d && d ≠ '=') back)
    (found : keyed? key.chars before (cs ++ back) = some rest) : cs = key.chars := by
  obtain ⟨_,_,gap,gap',blank,whole⟩ := keyed?_eq_some.mp found
  obtain ⟨blanks,_⟩ := List.forall_mem_append.mp blank
  have word : ∀ d ∈ cs, (!isBlank d && d ≠ '=') = true := by simpa using solid
  have letters : ∀ d ∈ key.chars, (!isBlank d && d ≠ '=') = true := fun d member => by
    have unequal : d ≠ '=' := ne_of_class (key.sound d member) (by decide)
    have visible := isBlank_of_word (isWord_of_identifier (key.sound d member))
    simp [unequal,visible]
  have stops : Stops (fun d => !isBlank d && d ≠ '=') (gap ++ '=' :: (gap' ++ rest)) := by
    refine Stops.append (fun d head => ?_) (stops_cons (by decide) _)
    simp [blanks d (List.mem_of_mem_head? head)]
  have heads := congrArg (List.takeWhile (fun d => !isBlank d && d ≠ '=')) whole
  rwa [takeWhile_run word ends,takeWhile_run letters stops] at heads

/-! Values. -/

theorem keyedValue?_eq (key : List Char) (before : Option Char) (cs : List Char) :
    keyedValue? key before cs =
      (keyed? key before cs).bind fun rest => (entryValue? rest).map fun value => (value,rest) := by
  rw [keyedValue?]
  cases keyed? key before cs with
  | none => rfl
  | some rest =>
    change (entryValue? rest >>= fun value => some (value,rest)) =
      (entryValue? rest).map fun value => (value,rest)
    cases entryValue? rest <;> rfl

theorem keyedValue?_none (key : List Char) (before : Option Char) (cs : List Char)
    (unkeyed : keyed? key before cs = none) : keyedValue? key before cs = none := by
  rw [keyedValue?_eq,unkeyed]
  rfl

theorem listStart?_none (key : List Char) (before : Option Char) (cs : List Char)
    (unkeyed : keyed? key before cs = none) : listStart? key before cs = none := by
  rw [listStart?,unkeyed]
  rfl

theorem bareWord?_run {c d : Char} {cs back : List Char} (bare : ∀ c' ∈ c :: cs, isBare c' = true)
    (stop : isBare d = false) (ends : endsEntry (d :: back) = true) :
    bareWord? (c :: cs ++ d :: back) = some (c :: cs) := by
  induction cs generalizing c with
  | nil =>
    have none : bareWord? (d :: back) = none := by rw [bareWord?,stop]; rfl
    rw [List.cons_append,List.nil_append,bareWord?,bare c (List.mem_cons_self ..),none,ends]
    rfl
  | cons c' cs ih =>
    rw [List.cons_append,bareWord?,bare c (List.mem_cons_self ..),ih (List.forall_mem_cons.mp bare).2]
    rfl

theorem entryValue?_word {word back : List Char} {d : Char} (filled : word ≠ [])
    (bare : ∀ c ∈ word, isBare c = true) (stop : isBare d = false) (ends : endsEntry (d :: back) = true) :
    entryValue? (word ++ d :: back) = some word := by
  obtain ⟨c,cs,rfl⟩ := List.exists_cons_of_ne_nil filled
  rw [entryValue?.eq_def]
  split
  · rename_i same
    exact absurd (List.cons.inj same).1 (ne_of_class (bare c (List.mem_cons_self ..)) (by decide))
  · exact bareWord?_run bare stop ends

theorem QuotedText.quotedFrom_append {text : List Char} (string : QuotedText text) (back : List Char) :
    quotedFrom false (text ++ '"' :: back) = some (text,back) := by
  induction string with
  | done => rfl
  | escaped tail ih =>
    rw [List.cons_append,List.cons_append,quotedFrom,if_neg Bool.false_ne_true,if_neg (by decide),
      decide_eq_true rfl,quotedFrom,if_pos rfl,ih]
    rfl
  | plain unquoted unescaped tail ih =>
    rw [List.cons_append,quotedFrom,if_neg Bool.false_ne_true,if_neg unquoted,decide_eq_false unescaped,ih]
    rfl

theorem entryValue?_string {text : List Char} (string : QuotedText text) (back : List Char) :
    entryValue? ('"' :: (text ++ '"' :: back)) = if endsEntry back then some text else none := by
  rw [entryValue?,string.quotedFrom_append]

end DepAudit.ProjectFile
