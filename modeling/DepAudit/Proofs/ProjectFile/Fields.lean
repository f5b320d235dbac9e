import DepAudit.Proofs.ProjectFile.Entries

/-! The value of a key among entries with keys, words and strings of any kind. A key is looked for as a text: it is also
found at the end of a longer key, and inside a string. -/
namespace DepAudit.ProjectFile
open Text

def isKeyChar (c : Char) : Bool := isIdentifier c || c == '.' || c == '$' || c == '/'

def isListed (c : Char) : Bool := isKeyChar c || c == ',' || isBlank c

inductive FieldValue where
  | word (word : Phrase isKeyChar)
  | string (text : List Char)
  | list (inside : List Char) (listed : ∀ c ∈ inside, isListed c = true)

structure Field where
  lead : List Char
  blank : ∀ c ∈ lead, isBlank c = true
  key : Phrase isKeyChar
  value : FieldValue

def escaped (text : List Char) : List Char :=
  text.flatMap fun c => if c = '"' ∨ c = '\\' then ['\\',c] else [c]

namespace FieldValue

def chars : FieldValue → List Char
  | word w => w.chars
  | string text => '"' :: (escaped text ++ ['"'])
  | list inside _ => '(' :: (inside ++ [')'])

def written? : FieldValue → Option (List Char)
  | word w => some w.chars
  | string text => some (escaped text)
  | list _ _ => none

def meant? : FieldValue → Option (List Char)
  | word w => some w.chars
  | string text => some text
  | list _ _ => none

end FieldValue

def Field.chars (f : Field) : List Char :=
  f.lead ++ (f.key.chars ++ (" = ".toList ++ (f.value.chars ++ [';'])))

/-- A text that ends in the key, where no letter, digit or underscore continues the key to the left. -/
def EndsIn (key cs : List Char) : Prop :=
  ∃ front, cs = front ++ key ∧ ∀ c ∈ front.getLast?, isIdentifier c = false

theorem endsIn_iff {key cs : List Char} :
    EndsIn key cs ↔ (after? key.reverse cs.reverse).any fun front => startsIdentifier front.head? := by
  rw [Option.any_eq_true]
  constructor
  · rintro ⟨front,rfl,apart⟩
    refine ⟨front.reverse,by rw [List.reverse_append,after?_append],?_⟩
    cases last : front.getLast? with
    | none => simp [startsIdentifier,last]
    | some c => simp [startsIdentifier,last,apart c last]
  · rintro ⟨front,found,apart⟩
    refine ⟨front.reverse,?_,fun c last => ?_⟩
    · rw [← List.reverse_reverse cs,after?_eq_some.mp found]
      simp
    · rw [List.getLast?_reverse] at last
      simpa [startsIdentifier,Option.mem_def.mp last] using apart

instance (key cs : List Char) : Decidable (EndsIn key cs) := decidable_of_iff _ endsIn_iff.symm

def Mentions (key cs : List Char) : Prop :=
  ∃ front gap back, EndsIn key front ∧ (∀ c ∈ gap, isBlank c = true) ∧ cs = front ++ (gap ++ '=' :: back)

def Field.Answers (key : Phrase isIdentifier) (f : Field) : Prop :=
  EndsIn key.chars f.key.chars ∧ f.value.written?.isSome

instance (key : Phrase isIdentifier) (f : Field) : Decidable (f.Answers key) :=
  inferInstanceAs (Decidable (_ ∧ _))

def Field.Mentions (key : Phrase isIdentifier) (f : Field) : Prop :=
  ∃ text, f.value = .string text ∧ ProjectFile.Mentions key.chars (escaped text)

def filled? : List Char → Option String
  | [] => none
  | cs => some (String.ofList cs)

def ownValue? (fields : List Field) (key : String) : Option String :=
  (fields.find? fun f => f.key.text = key ∧ f.value.meant?.isSome).bind fun f => f.value.meant?.bind filled?

/-! Characters. -/

theorem isBlank_of_keyChar {c : Char} (keyChar : isKeyChar c = true) : isBlank c = false := by
  simp only [isKeyChar,Bool.or_eq_true] at keyChar
  rcases keyChar with ((identifier | dot) | dollar) | slash
  · exact isBlank_of_word (isWord_of_identifier identifier)
  · rw [eq_of_beq dot]; decide
  · rw [eq_of_beq dollar]; decide
  · rw [eq_of_beq slash]; decide

theorem isBare_of_keyChar {c : Char} (keyChar : isKeyChar c = true) : isBare c = true := by
  have semicolon : c ≠ ';' := ne_of_class keyChar (by decide)
  have quote : c ≠ '"' := ne_of_class keyChar (by decide)
  have brace : c ≠ '\x7b' := ne_of_class keyChar (by decide)
  have bracket : c ≠ '(' := ne_of_class keyChar (by decide)
  simp [isBare,semicolon,quote,brace,bracket,isBlank_of_keyChar keyChar]

theorem quotedText_escaped (text : List Char) : QuotedText (escaped text) := by
  induction text with
  | nil => exact .done
  | cons c text ih =>
    rw [escaped,List.flatMap_cons,← escaped]
    split
    · exact .escaped ih
    · rename_i plain
      exact .plain (fun quote => plain (.inl quote)) (fun backslash => plain (.inr backslash)) ih

theorem escaped_eq_self_iff {text : List Char} :
    escaped text = text ↔ ∀ c ∈ text, c ≠ '"' ∧ c ≠ '\\' := by
  induction text with
  | nil => simp [escaped]
  | cons c text ih =>
    have longer : text.length ≤ (escaped text).length := by
      clear ih
      induction text with
      | nil => simp
      | cons d text ih =>
        rw [escaped,List.flatMap_cons,← escaped,List.length_append,List.length_cons]
        split <;> simp <;> omega
    rw [List.forall_mem_cons,← ih,escaped,List.flatMap_cons,← escaped]
    split
    · rename_i special
      constructor
      · intro same
        have size := congrArg List.length same
        simp at size
        omega
      · tauto
    · rename_i plain
      simp
      tauto

section search

variable {key : Phrase isIdentifier} {before : Option Char} {back : List Char}

/-! One entry. -/

theorem endsEntry_semicolon (back : List Char) : endsEntry (';' :: back) = true := by
  rw [endsEntry,Layout.skipGap_cons (by decide) (by decide)]
  rfl

namespace FieldValue

theorem entryValue?_chars (value : FieldValue) (back : List Char) :
    entryValue? (value.chars ++ ';' :: back) = value.written? := by
  cases value with
  | word w =>
    exact entryValue?_word w.filled (fun c member => isBare_of_keyChar (w.sound c member)) (by decide)
      (endsEntry_semicolon back)
  | string text =>
    rw [chars,List.cons_append,List.append_assoc,List.singleton_append,
      entryValue?_string (quotedText_escaped text),if_pos (endsEntry_semicolon back)]
    rfl
  | list inside listed => rfl

theorem stops_blank (value : FieldValue) (back : List Char) : Stops isBlank (value.chars ++ back) := by
  cases value with
  | word w =>
    obtain ⟨c,cs,spelled,keyChar⟩ := w.exists_cons
    rw [chars,spelled]
    exact stops_cons (isBlank_of_keyChar keyChar) _
  | string text => exact stops_cons (by decide) _
  | list inside listed => exact stops_cons (by decide) _

/-- A value in which the key is not mentioned holds no place where the key is found. -/
theorem misses (value : FieldValue)
    (unmentioned : ∀ text, value = .string text → ¬Mentions key.chars (escaped text)) :
    Misses (keyed? key.chars) before value.chars (';' :: back) := by
  have mark (c : Char) (wordless : isWord c = false) : Silent (keyed? key.chars) [c] :=
    Layout.silent_marks_keyed key (by simpa using wordless)
  cases value with
  | word w =>
    have unassigned : ∀ c ∈ w.chars, c ≠ '=' := fun c member => ne_of_class (w.sound c member) (by decide)
    exact misses_unassigned unassigned (by decide) (by decide) (by decide)
  | string text =>
    refine (mark '"' (by decide) _ _).append (.append ?_ (mark '"' (by decide) _ _))
    apply misses_of_places
    intro front c rest whole
    rw [← List.cons_append]
    cases found : keyed? key.chars (behind (behind before ['"']) front) ((c :: rest) ++ '"' :: (';' :: back)) with
    | none => exact found
    | some left =>
      obtain ⟨starts,_⟩ := keyed?_eq_some.mp found
      obtain ⟨gap,behindSign,blank,inside⟩ := assigned_of_keyed? (by decide) (by decide) (by decide) found
      have apart := apart_of_any_behind ((Bool.not_eq_true' _).mp starts)
      refine absurd ⟨front ++ key.chars,gap,behindSign,⟨front,rfl,apart⟩,blank,?_⟩ (unmentioned text rfl)
      rw [whole,inside,List.append_assoc]
  | list inside listed =>
    have unassigned : ∀ c ∈ inside, c ≠ '=' := fun c member => ne_of_class (listed c member) (by decide)
    refine (mark '(' (by decide) _ _).append (.append ?_ (mark ')' (by decide) _ _))
    exact misses_unassigned unassigned (by decide) (by decide) (by decide)

end FieldValue

namespace Field

def rest (f : Field) (back : List Char) : List Char := " = ".toList ++ (f.value.chars ++ ';' :: back)

theorem chars_append (f : Field) (back : List Char) :
    f.chars ++ back = f.lead ++ (f.key.chars ++ f.rest back) := by
  simp [chars,rest]

theorem keyed?_key (f : Field) (starts : startsIdentifier before = true) :
    keyed? key.chars before (key.chars ++ f.rest back) = some (f.value.chars ++ ';' :: back) :=
  keyed?_eq_some.mpr ⟨starts,f.value.stops_blank _,[' '],[' '],by decide,rfl⟩

theorem keyedValue?_key (f : Field) (starts : startsIdentifier before = true) :
    keyedValue? key.chars before (key.chars ++ f.rest back) =
      f.value.written?.map fun value => (value,f.value.chars ++ ';' :: back) := by
  rw [keyedValue?_eq,f.keyed?_key starts,Option.bind_some,f.value.entryValue?_chars]

/-- At a part of a longer key nothing is found but at its end. -/
theorem eq_of_keyed? (f : Field) {part left : List Char} (suffix : part <:+ f.key.chars)
    (found : keyed? key.chars before (part ++ f.rest back) = some left) : part = key.chars := by
  refine ProjectFile.eq_of_keyed? (fun d member => ?_) (stops_cons (by decide) _) found
  have keyChar := f.key.sound d (suffix.subset member)
  exact ⟨isBlank_of_keyChar keyChar,ne_of_class keyChar (by decide)⟩

theorem misses_key (f : Field) (unanswered : ¬f.Answers key) :
    Misses (keyedValue? key.chars) before f.key.chars (f.rest back) := by
  apply misses_of_places
  intro front c rest whole
  rw [← List.cons_append]
  cases found : keyed? key.chars (behind before front) ((c :: rest) ++ f.rest back) with
  | none => exact keyedValue?_none _ _ _ found
  | some left =>
    obtain ⟨starts,_⟩ := keyed?_eq_some.mp found
    have same := f.eq_of_keyed? ⟨front,whole.symm⟩ found
    have ends : EndsIn key.chars f.key.chars :=
      ⟨front,same ▸ whole,apart_of_any_behind ((Bool.not_eq_true' _).mp starts)⟩
    have unread : f.value.written? = none := by
      rw [← Option.not_isSome_iff_eq_none]
      exact fun read => unanswered ⟨ends,read⟩
    rw [same,f.keyedValue?_key starts,unread]
    rfl

theorem misses_front (f : Field) {front : List Char} (ends : f.key.chars = front ++ key.chars) :
    Misses (keyedValue? key.chars) before front (key.chars ++ f.rest back) := by
  apply misses_of_suffixes
  intro before c rest suffix
  rw [← List.append_assoc,← List.cons_append,← List.cons_append]
  cases found : keyed? key.chars before (((c :: rest) ++ key.chars) ++ f.rest back) with
  | none => exact keyedValue?_none _ _ _ found
  | some left =>
    have part : (c :: rest) ++ key.chars <:+ f.key.chars := by
      obtain ⟨earlier,whole⟩ := suffix
      exact ⟨earlier,by rw [← List.append_assoc,whole,ends]⟩
    have size := congrArg List.length (f.eq_of_keyed? part found)
    rw [List.length_append,List.length_cons] at size
    omega

theorem misses (f : Field) (unanswered : ¬f.Answers key) (unmentioned : ¬f.Mentions key) :
    Misses (keyedValue? key.chars) before f.chars back := by
  have weaker := keyedValue?_none key.chars
  have lead : Silent (keyed? key.chars) f.lead :=
    Layout.silent_marks_keyed key fun c member => isWord_of_blank (f.blank c member)
  have sign : Silent (keyed? key.chars) " = ".toList := Layout.silent_marks_keyed key (by decide)
  have ending : Silent (keyed? key.chars) [';'] := Layout.silent_marks_keyed key (by decide)
  have value : Misses (keyed? key.chars) (behind (behind (behind before f.lead) f.key.chars) " = ".toList)
      f.value.chars (';' :: back) :=
    f.value.misses fun text string mentions => unmentioned ⟨text,string,mentions⟩
  refine (lead.mono weaker _ _).append (.append ?_ (.append (sign.mono weaker _ _)
    (.append (value.mono weaker) (ending.mono weaker _ _))))
  have whole : (" = ".toList ++ (f.value.chars ++ [';'])) ++ back = f.rest back := by simp [rest]
  rw [whole]
  exact f.misses_key unanswered

/-- The search ends at an entry that answers. -/
theorem firstFrom?_answer (f : Field) (answers : f.Answers key) (starts : startsIdentifier before = true) :
    (firstFrom? (keyedValue? key.chars) before (f.chars ++ back)).map Prod.fst = f.value.written? := by
  obtain ⟨⟨front,ends,apart⟩,readable⟩ := answers
  obtain ⟨value,read⟩ := Option.isSome_iff_exists.mp readable
  have lead : Silent (keyedValue? key.chars) f.lead :=
    (Layout.silent_marks_keyed key fun c member => isWord_of_blank (f.blank c member)).mono
      (keyedValue?_none key.chars)
  have leads : startsIdentifier (behind (behind before f.lead) front) = true := by
    have visible : ∀ c ∈ f.lead.getLast?, isIdentifier c = false := fun c last =>
      isIdentifier_of_blank (f.blank c (List.mem_of_getLast? last))
    rw [startsIdentifier,any_behind (any_behind ((Bool.not_eq_true' _).mp starts) visible) apart]
    rfl
  have filled : key.chars ≠ [] := key.filled
  have reads : keyedValue? key.chars (behind (behind before f.lead) front) (key.chars ++ f.rest back) =
      some (value,f.value.chars ++ ';' :: back) := by
    rw [f.keyedValue?_key leads,read,Option.map_some]
  rw [f.chars_append,ends,List.append_assoc,firstFrom?_of_misses (lead _ _),
    firstFrom?_of_misses (f.misses_front ends),firstFrom?_of_piece filled reads,read]
  rfl

end Field

/-! All entries. -/

theorem firstFrom?_fields {fields : List Field} {tail : List Char} (blank : ∀ c ∈ tail, isBlank c = true)
    (unmentioned : ∀ f ∈ fields.takeWhile (fun f => ¬f.Answers key), ¬f.Mentions key)
    (starts : startsIdentifier before = true) :
    (firstFrom? (keyedValue? key.chars) before (fields.flatMap Field.chars ++ tail)).map Prod.fst =
      (fields.find? (·.Answers key)).bind (·.value.written?) := by
  induction fields generalizing before with
  | nil =>
    have silent : Silent (keyedValue? key.chars) tail :=
      (Layout.silent_marks_keyed key fun c member => isWord_of_blank (blank c member)).mono
        (keyedValue?_none key.chars)
    have missed := firstFrom?_of_misses (silent before [])
    rw [List.append_nil] at missed
    rw [List.flatMap_nil,List.nil_append,missed]
    rfl
  | cons f fields ih =>
    rw [List.flatMap_cons,List.append_assoc]
    by_cases answers : f.Answers key
    · rw [List.find?_cons_of_pos (by simpa using answers)]
      exact f.firstFrom?_answer answers starts
    · rw [List.takeWhile_cons_of_pos (by simpa using answers),List.forall_mem_cons] at unmentioned
      have last : behind before f.chars = some ';' := by
        simp [Field.chars,behind_append]
      rw [firstFrom?_of_misses (f.misses answers unmentioned.1),last,
        List.find?_cons_of_neg (by simpa using answers)]
      exact ih unmentioned.2 (by decide)

end search

theorem value?_first (body key : String) : value? body key =
    ((first? (keyedValue? key.toList) body.toList).map Prod.fst).bind filled? := by
  rw [value?]
  split
  · rename_i found
    rw [found]
    rfl
  · rename_i unfilled
    rcases found : first? (keyedValue? key.toList) body.toList with _ | ⟨_ | ⟨c,cs⟩,rest⟩
    · rfl
    · rfl
    · exact absurd found (unfilled c cs rest)

theorem filled?_inj {cs ds : List Char} : filled? cs = filled? ds ↔ cs = ds := by
  cases cs <;> cases ds <;> simp [filled?,String.ofList_inj]

theorem FieldValue.isSome_meant? (value : FieldValue) : value.meant?.isSome = value.written?.isSome := by
  cases value <;> rfl

theorem Field.answers_of_own {key : Phrase isIdentifier} {f : Field} (own : f.key.text = key.text)
    (readable : f.value.meant?.isSome = true) : f.Answers key :=
  ⟨⟨[],congrArg String.toList own,nofun⟩,f.value.isSome_meant? ▸ readable⟩

theorem ownValue?_eq {key : Phrase isIdentifier} {fields : List Field} {f : Field}
    (first : fields.find? (·.Answers key) = some f) (own : f.key.text = key.text) :
    ownValue? fields key.text = f.value.meant?.bind filled? := by
  obtain ⟨answers,front,back,rfl,earlier⟩ := List.find?_eq_some_iff_append.mp first
  have found : (front ++ f :: back).find? (fun g => g.key.text = key.text ∧ g.value.meant?.isSome) = some f := by
    rw [List.find?_eq_some_iff_append]
    refine ⟨?_,front,back,rfl,fun g member => ?_⟩
    · rw [decide_eq_true_eq] at answers ⊢
      exact ⟨own,f.value.isSome_meant? ▸ answers.2⟩
    · have unanswered : ¬g.Answers key := by simpa using earlier g member
      rw [Bool.not_eq_true',decide_eq_false_iff_not]
      exact fun both => unanswered (g.answers_of_own both.1 both.2)
  rw [ownValue?,found]
  rfl

/-- The first entry whose key ends in the key gives it its value, as that is written, if no string in front mentions the
key. Where it is an entry of the key's own, the value is the one that is meant if and only if no quote and no backslash
is part of it. -/
theorem first_answer_is_read (key : Phrase isIdentifier) (fields : List Field) {tail : List Char}
    (blank : ∀ c ∈ tail, isBlank c = true)
    (unmentioned : ∀ f ∈ fields.takeWhile (fun f => ¬f.Answers key), ¬f.Mentions key) :
    value? (String.ofList (fields.flatMap Field.chars ++ tail)) key.text =
      ((fields.find? (·.Answers key)).bind fun f => f.value.written?.bind filled?) ∧
    ∀ f, fields.find? (·.Answers key) = some f → f.key.text = key.text →
      (value? (String.ofList (fields.flatMap Field.chars ++ tail)) key.text = ownValue? fields key.text ↔
        ∀ text, f.value = .string text → ∀ c ∈ text, c ≠ '"' ∧ c ≠ '\\') := by
  have read : value? (String.ofList (fields.flatMap Field.chars ++ tail)) key.text =
      (fields.find? (·.Answers key)).bind fun f => f.value.written?.bind filled? := by
    rw [value?_first,String.toList_ofList,show key.text.toList = key.chars from rfl,first?,
      firstFrom?_fields blank unmentioned (by decide),Option.bind_assoc]
  refine ⟨read,fun f first own => ?_⟩
  rw [read,ownValue?_eq first own,first,Option.bind_some]
  cases f.value with
  | word w => simp [FieldValue.written?,FieldValue.meant?]
  | list inside listed => simp [FieldValue.written?,FieldValue.meant?]
  | string text =>
    have plain : filled? (escaped text) = filled? text ↔ ∀ c ∈ text, c ≠ '"' ∧ c ≠ '\\' :=
      filled?_inj.trans escaped_eq_self_iff
    refine plain.trans ⟨fun plain other same => ?_,fun plain => plain text rfl⟩
    cases same
    exact plain

theorem not_mentions_of_not_mem {key cs : List Char} {c : Char} (part : c ∈ key ++ ['=']) (absent : c ∉ cs) :
    ¬Mentions key cs := by
  rintro ⟨_,gap,back,⟨front,rfl,_⟩,_,rfl⟩
  apply absent
  simp only [List.mem_append,List.mem_cons,List.not_mem_nil,or_false] at part ⊢
  tauto

def titleKey : Phrase isIdentifier := ⟨"title",by decide,by decide⟩

def panelFields : List Field := [
  ⟨[],by decide,⟨"subtitle",by decide,by decide⟩,.word ⟨"a/title.$x",by decide,by decide⟩⟩,
  ⟨['\n'],by decide,⟨"title",by decide,by decide⟩,.list "title,\n".toList (by decide)⟩,
  ⟨['\n'],by decide,⟨"tit",by decide,by decide⟩,.string "l = \"x\";".toList⟩,
  ⟨['\n'],by decide,⟨"title",by decide,by decide⟩,.string "Panel; title = x;".toList⟩,
  ⟨['\n'],by decide,⟨"title",by decide,by decide⟩,.string "My \"Panel\"".toList⟩]

theorem panel_title_is_read :
    (∀ c ∈ ['\n'], isBlank c = true) ∧
    (∀ f ∈ panelFields.takeWhile (fun f => ¬f.Answers titleKey), ¬f.Mentions titleKey) ∧
    value? (String.ofList (panelFields.flatMap Field.chars ++ ['\n'])) "title" = some "Panel; title = x;" ∧
    value? (String.ofList (panelFields.flatMap Field.chars ++ ['\n'])) "title" = ownValue? panelFields "title" := by
  have blank : ∀ c ∈ ['\n'], isBlank c = true := by decide
  have passed : panelFields.takeWhile (fun f => ¬f.Answers titleKey) = panelFields.take 3 := rfl
  have unmentioned : ∀ f ∈ panelFields.takeWhile (fun f => ¬f.Answers titleKey), ¬f.Mentions titleKey := by
    rw [passed]
    rintro f member ⟨text,string,mentions⟩
    simp only [panelFields,List.take_succ_cons,List.take_zero,List.mem_cons,List.not_mem_nil,or_false] at member
    rcases member with rfl | rfl | rfl
    · cases string
    · cases string
    · cases string
      have letter : 't' ∈ titleKey.chars ++ ['='] := by decide
      exact not_mentions_of_not_mem letter (by decide) mentions
  obtain ⟨read,own⟩ := first_answer_is_read titleKey panelFields blank unmentioned
  have plain := own _ rfl rfl
  refine ⟨blank,unmentioned,read.trans (by decide),plain.mpr fun text string => ?_⟩
  cases string
  decide

def dottedFields : List Field := [
  ⟨[],by decide,⟨"old.title",by decide,by decide⟩,.word ⟨"Draft",by decide,by decide⟩⟩,
  ⟨[' '],by decide,⟨"title",by decide,by decide⟩,.word ⟨"Panel",by decide,by decide⟩⟩]

def remarkedFields : List Field := [
  ⟨[],by decide,⟨"remark",by decide,by decide⟩,.string "title = Draft;".toList⟩,
  ⟨[' '],by decide,⟨"title",by decide,by decide⟩,.word ⟨"Panel",by decide,by decide⟩⟩]

def quotedFields : List Field := [
  ⟨[],by decide,⟨"title",by decide,by decide⟩,.string "My \"Panel\"".toList⟩]

/-- A longer key and a mention in a string take the title, and a quote in a title keeps its backslash. -/
theorem look_alikes_take_the_title :
    value? (String.ofList (dottedFields.flatMap Field.chars)) "title" = some "Draft" ∧
    ownValue? dottedFields "title" = some "Panel" ∧
    value? (String.ofList (remarkedFields.flatMap Field.chars)) "title" = some "Draft" ∧
    ownValue? remarkedFields "title" = some "Panel" ∧
    value? (String.ofList (quotedFields.flatMap Field.chars)) "title" = some "My \\\"Panel\\\"" ∧
    ownValue? quotedFields "title" = some "My \"Panel\"" := by
  decide

end DepAudit.ProjectFile
