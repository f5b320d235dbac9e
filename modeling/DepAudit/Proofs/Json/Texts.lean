import DepAudit.Json.Reader
import DepAudit.Proofs.Outcome
import DepAudit.Proofs.Table
import DepAudit.Proofs.Text.Runs

/-! Which values a text can hold: arrays and objects nested no deeper than the reader goes, integers of no more
digits than it reads, doubles that a numeral or a word gives, and members with distinct names. For each of
these values there is a text that is read as it. -/
namespace DepAudit.Json
open Text (Stops takeWhile_run dropWhile_run hexNumber? isHighHalf codeChar)

inductive Spelled : Float → Prop
  | decimal (negative : Bool) (mantissa : Nat) (exponent : Int) :
      Spelled (Binary64.ofDecimal negative mantissa exponent)
  | notANumber : Spelled (0.0 / 0.0)
  | infinity : Spelled (1.0 / 0.0)
  | negativeInfinity : Spelled (-1.0 / 0.0)

/-- A value that is nested at most so deep, with numbers and names as a text can hold them. -/
def Within : Nat → Json → Prop
  | _,null => True
  | _,bool _ => True
  | _,str _ => True
  | _,int n => n.natAbs < 10 ^ Numeral.maxDigits
  | _,float x => Spelled x
  | 0,arr _ => False
  | 0,obj _ => False
  | depth + 1,arr items => ∀ v ∈ items, Within depth v
  | depth + 1,obj members => (Table.keys members).Nodup ∧ ∀ m ∈ members, Within depth m.2

theorem within_str (depth : Nat) (s : String) : Within depth (str s) := by
  rw [Within]
  trivial

/-! What is read first, and what stands behind. -/

def Opens (cs : List Char) : Prop :=
  ∃ c tail, cs = c :: tail ∧ isBlank c = false ∧ c ∉ [']','}','\uFEFF']

def Ends (rest : List Char) : Prop := ∀ c ∈ rest.head?, c ∈ [',',']','}']

structure Spells {α : Type} (entry : Nat → List Char → Step α) (cs : List Char) (v : α) : Prop where
  opens : Opens cs
  read : ∀ bound rest, cs.length < bound → Ends rest → entry bound (cs ++ rest) = .ok (v,rest)

theorem Opens.append {cs : List Char} (opens : Opens cs) (back : List Char) : Opens (cs ++ back) := by
  obtain ⟨c,tail,rfl,visible,inner⟩ := opens
  exact ⟨c,tail ++ back,rfl,visible,inner⟩

theorem Opens.skipBlanks_eq {cs : List Char} (opens : Opens cs) : skipBlanks cs = cs := by
  obtain ⟨c,tail,rfl,visible,_⟩ := opens
  exact List.dropWhile_cons_of_neg (ne_true_of_eq_false visible)

theorem ends_cons {c : Char} (closes : c ∈ [',',']','}']) (rest : List Char) : Ends (c :: rest) := by
  rintro d ⟨⟩
  exact closes

theorem Ends.stops {rest : List Char} (ends : Ends rest) {p : Char → Bool}
    (outside : ∀ c ∈ [',',']','}'], p c = false) : Stops p rest :=
  fun c head => outside c (ends c head)

variable {α : Type} {bound depth : Nat} {cs rest : List Char} {c : Char} {v : Json}

/-! Numerals. -/

theorem head_toDigits (n : Nat) : n = 0 ∨ ∃ d ds, Nat.toDigits 10 n = d :: ds ∧ d ≠ '0' := by
  induction n using Nat.strongRecOn with
  | ind n ih =>
    by_cases small : n < 10
    · rw [Nat.toDigits_of_lt_base small]
      by_cases zero : n = 0
      · exact .inl zero
      · refine .inr ⟨_,[],rfl,?_⟩
        interval_cases n <;> first | decide | exact absurd rfl zero
    · right
      rw [Nat.toDigits_of_base_le (by decide) (Nat.le_of_not_lt small)]
      rcases ih (n / 10) (by omega) with none | ⟨d,ds,split,other⟩
      · omega
      · exact ⟨d,_,by rw [split,List.cons_append],other⟩

theorem isDigit_of_mem_toDigits {n : Nat} : ∀ c ∈ Nat.toDigits 10 n, c.isDigit = true := fun _ member =>
  Nat.isDigit_of_mem_toDigits (by decide) (by decide) member

theorem wholeDigits_toDigits (n : Nat) (stops : Stops Char.isDigit rest) :
    wholeDigits (Nat.toDigits 10 n ++ rest) = (Nat.toDigits 10 n,rest) := by
  rcases head_toDigits n with rfl | ⟨d,ds,split,other⟩
  · rfl
  · have whole : ∀ c ∈ d :: ds, c.isDigit = true := split ▸ isDigit_of_mem_toDigits
    rw [split,List.cons_append,wholeDigits]
    · rw [← List.cons_append,takeWhile_run whole stops,dropWhile_run whole stops]
    · rintro tail same
      exact other (List.cons.inj same).1

theorem fractionDigits_none (stops : Stops (· = '.') rest) : fractionDigits rest = ([],rest) := by
  rw [fractionDigits]
  rintro tail rfl
  cases stops '.' rfl

theorem exponentPart_none (stops : Stops (fun c => c = 'e' || c = 'E') rest) :
    exponentPart rest = (none,rest) := by
  cases rest with
  | nil => rfl
  | cons c tail =>
    have other : (c = 'e' || c = 'E' : Bool) = false := stops c rfl
    simp only [exponentPart,other]

def exponentText (e : Int) : List Char :=
  'e' :: ((if e < 0 then ['-'] else ['+']) ++ Nat.toDigits 10 e.natAbs)

theorem exponentPart_exponentText (e : Int) (stops : Stops Char.isDigit rest) :
    exponentPart (exponentText e ++ rest) = (some e,rest) := by
  have run := takeWhile_run (isDigit_of_mem_toDigits (n := e.natAbs)) stops
  have back := dropWhile_run (isDigit_of_mem_toDigits (n := e.natAbs)) stops
  have value := Nat.ofDigitChars_ten_toDigits (n := e.natAbs)
  obtain ⟨d,ds,split⟩ := List.exists_cons_of_ne_nil (Nat.toDigits_ne_nil (b := 10) (n := e.natAbs))
  rw [split] at run back value
  rw [exponentText,split]
  by_cases negative : e < 0
  · simp only [negative,if_true,List.cons_append,List.nil_append] at run back ⊢
    simp only [exponentPart,run,back]
    change (some (-(Nat.ofDigitChars 10 (d :: ds) 0 : Int)),rest) = (some e,rest)
    rw [value,Int.ofNat_natAbs_of_nonpos (Int.le_of_lt negative),Int.neg_neg]
  · simp only [negative,if_false,List.cons_append,List.nil_append] at run back ⊢
    simp only [exponentPart,run,back]
    change (some (Nat.ofDigitChars 10 (d :: ds) 0 : Int),rest) = (some e,rest)
    rw [value,Int.natAbs_of_nonneg (Int.not_lt.mp negative)]

theorem unsigned_int {start : List Char} {n : Nat} (short : n < 10 ^ Numeral.maxDigits) (negative : Bool)
    (ends : Ends rest) : unsigned negative start (Nat.toDigits 10 n ++ rest) =
      .ok (int (if negative then -n else n),rest) := by
  have digits := wholeDigits_toDigits n (ends.stops (p := Char.isDigit) (by decide))
  have noFraction := fractionDigits_none (ends.stops (p := (· = '.')) (by decide))
  have noExponent := exponentPart_none (ends.stops (p := fun c => c = 'e' || c = 'E') (by decide))
  have fits : (Nat.toDigits 10 n).length ≤ Numeral.maxDigits :=
    (Nat.length_toDigits_le_iff (by decide) (by decide)).mpr short
  obtain ⟨d,ds,split⟩ := List.exists_cons_of_ne_nil (Nat.toDigits_ne_nil (b := 10) (n := n))
  have value := Nat.ofDigitChars_ten_toDigits (n := n)
  rw [split] at digits fits value ⊢
  simp only [unsigned,digits,noFraction,noExponent]
  rw [if_pos (by rfl),if_neg (Nat.not_lt.mpr fits),value]

theorem unsigned_float {start : List Char} (n : Nat) (e : Int) (negative : Bool) (ends : Ends rest) :
    unsigned negative start (Nat.toDigits 10 n ++ (exponentText e ++ rest)) =
      .ok (float (Binary64.ofDecimal negative n e),rest) := by
  have marked {p : Char → Bool} (outside : p 'e' = false) : Stops p (exponentText e ++ rest) :=
    Text.stops_cons outside _
  have digits := wholeDigits_toDigits n (marked (by decide))
  have noFraction := fractionDigits_none (marked (by decide))
  have exponent := exponentPart_exponentText e (ends.stops (p := Char.isDigit) (by decide))
  obtain ⟨d,ds,split⟩ := List.exists_cons_of_ne_nil (Nat.toDigits_ne_nil (b := 10) (n := n))
  have value := Nat.ofDigitChars_ten_toDigits (n := n)
  rw [split] at digits value ⊢
  simp only [unsigned,digits,noFraction,exponent]
  simp [value]

/-! Values that are no arrays, objects or strings. -/

def signText (negative : Bool) : List Char := if negative then ['-'] else []

theorem scalar_numeral {d : Char} (digit : d.isDigit = true) (negative : Bool) (ds : List Char) :
    scalar (signText negative ++ d :: ds) =
      unsigned negative (signText negative ++ d :: ds) (d :: ds) := by
  have apart : d ≠ 'n' ∧ d ≠ 't' ∧ d ≠ 'f' ∧ d ≠ 'N' ∧ d ≠ 'I' ∧ d ≠ '-' := by
    refine ⟨?_,?_,?_,?_,?_,?_⟩ <;>
    · rintro rfl
      exact absurd digit (by decide)
  have noWord : word? (signText negative ++ d :: ds) = none := by
    cases negative <;> simp [word?,words,signText,apart,Ne.symm]
  rw [scalar.eq_def,noWord]
  cases negative with
  | true => rfl
  | false =>
    split
    · rename_i same
      cases same
    · rename_i same
      exact absurd (List.cons.inj same).1 apart.2.2.2.2.2
    · rfl

theorem valueFrom_scalar (visible : c ∉ ['"','[','{']) (tail : List Char) :
    valueFrom bound depth (c :: tail) = scalar (c :: tail) := by
  simp only [List.mem_cons,List.not_mem_nil,or_false,not_or] at visible
  obtain ⟨noString,noArray,noObject⟩ := visible
  cases depth <;> simp [valueFrom,noString,noArray,noObject]

theorem valueFrom_numeral {d : Char} (digit : d.isDigit = true) (negative : Bool) (ds : List Char) :
    valueFrom bound depth (signText negative ++ d :: ds) =
      unsigned negative (signText negative ++ d :: ds) (d :: ds) := by
  rw [← scalar_numeral digit]
  cases negative with
  | true => exact valueFrom_scalar (by decide) _
  | false =>
    refine valueFrom_scalar (fun bracket => ?_) _
    have outside : ∀ c ∈ ['"','[','{'], c.isDigit = false := by decide
    exact ne_true_of_eq_false (outside d bracket) digit

theorem opens_of_digit {d : Char} (digit : d.isDigit = true) (tail : List Char) : Opens (d :: tail) := by
  refine ⟨d,tail,rfl,?_,fun bracket => ?_⟩
  · rw [← Bool.not_eq_true]
    intro blank
    simp only [isBlank,Bool.or_eq_true,decide_eq_true_eq] at blank
    rcases blank with ((rfl | rfl) | rfl) | rfl <;> exact absurd digit (by decide)
  · have outside : ∀ c ∈ [']','}','\uFEFF'], c.isDigit = false := by decide
    exact ne_true_of_eq_false (outside d bracket) digit

/-- A numeral with what follows it, as far as it is part of the number. -/
theorem spells_numeral {n : Nat} (negative : Bool) (tail : List Char) {v : Json}
    (read : ∀ start rest, Ends rest →
      unsigned negative start (Nat.toDigits 10 n ++ (tail ++ rest)) = .ok (v,rest)) :
    Spells (valueFrom · depth) (signText negative ++ (Nat.toDigits 10 n ++ tail)) v := by
  obtain ⟨d,ds,split⟩ := List.exists_cons_of_ne_nil (Nat.toDigits_ne_nil (b := 10) (n := n))
  have digit : d.isDigit = true := isDigit_of_mem_toDigits (n := n) d (split ▸ List.mem_cons_self ..)
  rw [split] at read ⊢
  constructor
  · cases negative with
    | true => exact ⟨'-',_,rfl,by decide,by decide⟩
    | false => exact opens_of_digit digit _
  · intro bound rest _ ends
    rw [List.append_assoc,List.append_assoc,List.cons_append,valueFrom_numeral digit,← List.cons_append]
    exact read _ _ ends

theorem exists_spells_int {n : Int} (short : n.natAbs < 10 ^ Numeral.maxDigits) :
    ∃ cs, Spells (valueFrom · depth) cs (int n) := by
  refine ⟨_,spells_numeral (n := n.natAbs) (decide (n < 0)) [] ?_⟩
  intro start rest ends
  rw [List.nil_append,unsigned_int short _ ends]
  by_cases negative : n < 0
  · rw [decide_eq_true negative,if_pos rfl,Int.ofNat_natAbs_of_nonpos (Int.le_of_lt negative),Int.neg_neg]
  · rw [decide_eq_false negative,if_neg Bool.false_ne_true,Int.natAbs_of_nonneg (Int.not_lt.mp negative)]

theorem spells_words : ∀ w ∈ words, Spells (valueFrom · depth) w.1 w.2 := by
  have read {word : List Char} {v : Json} {c : Char} {tail : List Char} (split : word = c :: tail)
      (visible : isBlank c = false ∧ c ∉ [']','}','\uFEFF'] ∧ c ∉ ['"','[','{'])
      (found : ∀ rest, word? (word ++ rest) = some (v,rest)) : Spells (valueFrom · depth) word v := by
    obtain ⟨shown,closes,opens⟩ := visible
    refine ⟨⟨c,tail,split,shown,closes⟩,fun bound rest _ _ => ?_⟩
    subst split
    rw [List.cons_append,valueFrom_scalar opens,← List.cons_append,scalar.eq_def,found]
  simp only [words,List.forall_mem_cons,List.not_mem_nil,false_implies,implies_true,and_true]
  exact ⟨read rfl (by decide) fun _ => rfl,read rfl (by decide) fun _ => rfl,
    read rfl (by decide) fun _ => rfl,read rfl (by decide) fun _ => rfl,
    read rfl (by decide) fun _ => rfl,read rfl (by decide) fun _ => rfl⟩

theorem exists_spells_float {x : Float} (spelled : Spelled x) :
    ∃ cs, Spells (valueFrom · depth) cs (float x) := by
  cases spelled with
  | decimal negative mantissa exponent =>
    refine ⟨_,spells_numeral (n := mantissa) negative (exponentText exponent) ?_⟩
    exact fun start rest ends => unsigned_float mantissa exponent negative ends
  | notANumber => exact ⟨_,spells_words ("NaN".toList,_) (by simp [words])⟩
  | infinity => exact ⟨_,spells_words ("Infinity".toList,_) (by simp [words])⟩
  | negativeInfinity => exact ⟨_,spells_words ("-Infinity".toList,_) (by simp [words])⟩

/-! Strings. -/

def spellChar (c : Char) : List Char :=
  if c = '"' ∨ c = '\\' then ['\\',c]
  else if c.toNat < 0x20 then
    ['\\','u','0','0',Nat.digitChar (c.toNat / 16),Nat.digitChar (c.toNat % 16)]
  else [c]

theorem escape_number : ∀ n < 0x20,
    hexNumber? ['0','0',Nat.digitChar (n / 16),Nat.digitChar (n % 16)] = some n ∧
      isHighHalf n = false ∧ codeChar n = Char.ofNat n := by decide

theorem stringFrom_spellChar {opening back : List Char} (c : Char) (some_ : back ≠ []) :
    stringFrom opening 0 (spellChar c ++ back) =
      (stringFrom opening 0 back).map fun r => (c :: r.1,r.2) := by
  obtain ⟨d,tail,rfl⟩ := List.exists_cons_of_ne_nil some_
  rw [spellChar]
  split
  · rename_i escaped
    rcases escaped with rfl | rfl <;> rfl
  · rename_i plain
    obtain ⟨notQuote,notEscape⟩ := not_or.mp plain
    split
    · rename_i control
      obtain ⟨number,single,code⟩ := escape_number c.toNat control
      simp only [List.cons_append,List.nil_append,stringFrom,number,single,code,Char.ofNat_toNat,
        Bool.false_eq_true,if_false]
    · rename_i visible
      rw [List.singleton_append,stringFrom]
      · rw [if_neg visible]
      · exact notQuote
      · exact notEscape

theorem stringFrom_text (opening text rest : List Char) :
    stringFrom opening 0 (text.flatMap spellChar ++ '"' :: rest) = .ok (text,rest) := by
  induction text with
  | nil => rfl
  | cons c text ih =>
    rw [List.flatMap_cons,List.append_assoc,stringFrom_spellChar c (by simp),ih]
    rfl

theorem stringBody_text (s : String) (rest : List Char) :
    stringBody (s.toList.flatMap spellChar ++ '"' :: rest) = .ok (s,rest) := by
  rw [stringBody,stringFrom_text,← String.ofList_toList (s := s)]
  simp [Except.map]

def stringTail (s : String) : List Char := s.toList.flatMap spellChar ++ ['"']

theorem stringBody_stringTail (s : String) (rest : List Char) :
    stringBody (stringTail s ++ rest) = .ok (s,rest) := by
  rw [stringTail,List.append_assoc]
  exact stringBody_text s rest

theorem spells_str (s : String) : Spells (valueFrom · depth) ('"' :: stringTail s) (str s) := by
  refine ⟨⟨'"',_,rfl,by decide,by decide⟩,fun bound rest _ _ => ?_⟩
  have read : valueFrom bound depth ('"' :: (stringTail s ++ rest)) =
      (stringBody (stringTail s ++ rest)).map fun r => (str r.1,r.2) := by
    cases depth <;> rfl
  rw [List.cons_append,read,stringBody_stringTail]
  rfl

/-! Entries of arrays and objects. -/

section

variable {entry : Nat → List Char → Step α} {close : Char}
  {loop : Nat → Nat → List Char → Except Stop (List α × List Char)}

structure Loops (entry : Nat → List Char → Step α) (close : Char)
    (loop : Nat → Nat → List Char → Except Stop (List α × List Char)) : Prop where
  closes : close ∈ [',',']','}']
  last : ∀ {bound n cs v rest}, entry bound cs = .ok (v,close :: rest) →
    loop bound (n + 1) cs = .ok ([v],rest)
  next : ∀ {bound n cs v vs rest last}, entry bound cs = .ok (v,',' :: rest) →
    loop bound n (skipBlanks rest) = .ok (vs,last) → loop bound (n + 1) cs = .ok (v :: vs,last)
  idle : ∀ {bound cs r}, loop bound 0 cs ≠ .ok r
  takes : ∀ {bound n cs r}, loop bound (n + 1) cs = .ok r → ∃ v rest, entry bound cs = .ok (v,rest) ∧
    (r.1 = [v] ∨ ∃ vs, r.1 = v :: vs ∧ ∃ later, loop bound n later = .ok (vs,r.2))

/-- Entries that can be spelled one by one can be spelled in a row. -/
theorem exists_row (loops : Loops entry close loop) {vs : List α}
    (each : ∀ v ∈ vs, ∃ cs, Spells entry cs v) (some_ : vs ≠ []) : ∃ row, Opens row ∧
      vs.length ≤ row.length ∧ ∀ bound n rest, row.length < bound → vs.length ≤ n →
        loop bound n (row ++ close :: rest) = .ok (vs,rest) := by
  induction vs with
  | nil => exact absurd rfl some_
  | cons v vs ih =>
    obtain ⟨⟨cs,spells⟩,others⟩ := List.forall_mem_cons.mp each
    have filled : 1 ≤ cs.length := by
      obtain ⟨c,tail,rfl,_⟩ := spells.opens
      exact Nat.le_add_left 1 _
    cases vs with
    | nil =>
      refine ⟨cs,spells.opens,filled,fun bound n rest short enough => ?_⟩
      obtain ⟨m,rfl⟩ := Nat.exists_eq_add_of_le' enough
      exact loops.last (spells.read bound _ short (ends_cons loops.closes rest))
    | cons w vs =>
      obtain ⟨row,opens,long,read⟩ := ih others (List.cons_ne_nil w vs)
      refine ⟨cs ++ ',' :: row,spells.opens.append _,?_,fun bound n rest short enough => ?_⟩
      · simp only [List.length_cons,List.length_append] at long ⊢
        omega
      · simp only [List.length_cons,List.length_append] at short enough
        obtain ⟨m,rfl⟩ : ∃ m, n = m + 1 := Nat.exists_eq_add_of_le' (by omega)
        rw [List.append_assoc,List.cons_append]
        refine loops.next (spells.read bound _ (by omega) (ends_cons (by decide) _)) ?_
        rw [(opens.append _).skipBlanks_eq]
        exact read bound m rest (by omega) (by simp only [List.length_cons]; omega)

theorem Loops.forall_mem (loops : Loops entry close loop) {P : α → Prop}
    (each : ∀ {cs v rest}, entry bound cs = .ok (v,rest) → P v) {n : Nat} {r : List α × List Char}
    (came : loop bound n cs = .ok r) : ∀ v ∈ r.1, P v := by
  induction n generalizing cs r with
  | zero => exact absurd came loops.idle
  | succ n ih =>
    obtain ⟨v,rest,first,only | ⟨vs,more,later,came⟩⟩ := loops.takes came
    · rw [only]
      exact List.forall_mem_singleton.mpr (each first)
    · rw [more]
      exact List.forall_mem_cons.mpr ⟨each first,ih came⟩

end

theorem loops_items (depth : Nat) :
    Loops (valueFrom · depth) ']' fun bound => itemsFrom (valueFrom bound depth) where
  closes := by decide
  last read := by
    rw [itemsFrom,read]
    rfl
  next read later := by
    rw [itemsFrom,read]
    change (itemsFrom _ _ _ >>= fun r => _) = _
    rw [later]
    rfl
  idle came := by cases came
  takes came := by
    obtain ⟨⟨v,back⟩,first,came⟩ := bind_eq_ok.mp came
    refine ⟨v,back,first,?_⟩
    dsimp only at came
    split at came
    · cases came
      exact .inl rfl
    · obtain ⟨⟨vs,_⟩,later,same⟩ := bind_eq_ok.mp came
      cases same
      exact .inr ⟨vs,rfl,_,later⟩
    · cases came

theorem loops_members (depth : Nat) :
    Loops (fun bound => member (valueFrom bound depth)) '}'
      fun bound => membersFrom (valueFrom bound depth) where
  closes := by decide
  last read := by
    rw [membersFrom,read]
    rfl
  next read later := by
    rw [membersFrom,read]
    change (membersFrom _ _ _ >>= fun r => _) = _
    rw [later]
    rfl
  idle came := by cases came
  takes came := by
    obtain ⟨⟨v,back⟩,first,came⟩ := bind_eq_ok.mp came
    refine ⟨v,back,first,?_⟩
    dsimp only at came
    split at came
    · cases came
      exact .inl rfl
    · obtain ⟨⟨vs,_⟩,later,same⟩ := bind_eq_ok.mp came
      cases same
      exact .inr ⟨vs,rfl,_,later⟩
    · cases came

theorem spells_member {v : Json} (spells : Spells (valueFrom · depth) cs v) (name : String) :
    Spells (fun bound => member (valueFrom bound depth)) ('"' :: (stringTail name ++ ':' :: cs)) (name,v) := by
  refine ⟨⟨'"',_,rfl,by decide,by decide⟩,fun bound rest short ends => ?_⟩
  have inner : cs.length < bound := by
    simp only [List.length_cons,List.length_append] at short
    omega
  have value := spells.read bound rest inner ends
  rw [← (spells.opens.append rest).skipBlanks_eq] at value
  rw [List.cons_append,List.append_assoc,List.cons_append,member]
  exact bind_eq_ok.mpr ⟨_,stringBody_stringTail name _,bind_eq_ok.mpr ⟨_,value,rfl⟩⟩

/-! Values. -/

theorem valueFrom_arr (opens : Opens cs) : valueFrom bound (depth + 1) ('[' :: cs) =
    (itemsFrom (valueFrom bound depth) bound cs).map fun r => (arr r.1,r.2) := by
  rw [valueFrom,opens.skipBlanks_eq]
  obtain ⟨c,tail,rfl,_,inner⟩ := opens
  split
  · rename_i same
    obtain ⟨rfl,_⟩ := List.cons.inj same
    exact absurd inner (by decide)
  · rfl

theorem valueFrom_obj (opens : Opens cs) : valueFrom bound (depth + 1) ('{' :: cs) =
    (membersFrom (valueFrom bound depth) bound cs).map fun r => (obj (Table.ofPairs r.1),r.2) := by
  rw [valueFrom,opens.skipBlanks_eq]
  obtain ⟨c,tail,rfl,_,inner⟩ := opens
  split
  · rename_i same
    obtain ⟨rfl,_⟩ := List.cons.inj same
    exact absurd inner (by decide)
  · rfl

theorem exists_spells_arr {items : List Json} (each : ∀ v ∈ items, ∃ cs, Spells (valueFrom · depth) cs v) :
    ∃ cs, Spells (valueFrom · (depth + 1)) cs (arr items) := by
  by_cases empty : items = []
  · subst empty
    exact ⟨['[',']'],⟨'[',_,rfl,by decide,by decide⟩,fun _ _ _ _ => rfl⟩
  · obtain ⟨row,opens,long,read⟩ := exists_row (loops_items depth) each empty
    refine ⟨'[' :: (row ++ [']']),⟨'[',_,rfl,by decide,by decide⟩,fun bound rest short _ => ?_⟩
    simp only [List.length_cons,List.length_append] at short
    have inside := read bound bound rest (by omega) (by omega)
    rw [List.cons_append,List.append_assoc,List.singleton_append,valueFrom_arr (opens.append _),inside]
    rfl

theorem exists_spells_obj {members : List (String × Json)} (distinct : (Table.keys members).Nodup)
    (each : ∀ m ∈ members, ∃ cs, Spells (valueFrom · depth) cs m.2) :
    ∃ cs, Spells (valueFrom · (depth + 1)) cs (obj members) := by
  by_cases empty : members = []
  · subst empty
    exact ⟨['{','}'],⟨'{',_,rfl,by decide,by decide⟩,fun _ _ _ _ => rfl⟩
  · have written : ∀ m ∈ members, ∃ cs, Spells (fun bound => Json.member (valueFrom bound depth)) cs m :=
      fun m listed => (each m listed).elim fun _ spells => ⟨_,spells_member spells m.1⟩
    obtain ⟨row,opens,long,read⟩ := exists_row (loops_members depth) written empty
    refine ⟨'{' :: (row ++ ['}']),⟨'{',_,rfl,by decide,by decide⟩,fun bound rest short _ => ?_⟩
    simp only [List.length_cons,List.length_append] at short
    have inside := read bound bound rest (by omega) (by omega)
    rw [List.cons_append,List.append_assoc,List.singleton_append,valueFrom_obj (opens.append _),inside,
      Except.map,Table.ofPairs_of_nodup distinct]

-- On the depth: what stands in an array or an object is nested one less deep.
theorem exists_spells : (depth : Nat) → (v : Json) → Within depth v →
    ∃ cs, Spells (valueFrom · depth) cs v
  | _,null,_ => ⟨_,spells_words ("null".toList,null) (by simp [words])⟩
  | _,bool true,_ => ⟨_,spells_words ("true".toList,bool true) (by simp [words])⟩
  | _,bool false,_ => ⟨_,spells_words ("false".toList,bool false) (by simp [words])⟩
  | _,str s,_ => ⟨_,spells_str s⟩
  | _,int _,within => exists_spells_int (by rwa [Within] at within)
  | _,float _,within => exists_spells_float (by rwa [Within] at within)
  | depth + 1,arr _,within => exists_spells_arr fun v listed => exists_spells depth v (within v listed)
  | depth + 1,obj _,⟨distinct,within⟩ =>
    exists_spells_obj distinct fun m listed => exists_spells depth m.2 (within m listed)

theorem exists_read_of_within {v : Json} (within : Within maxDepth v) : ∃ text, read text = .ok v := by
  obtain ⟨cs,opens,spells⟩ := exists_spells maxDepth v within
  have whole := spells (cs.length + 1) [] (Nat.lt_succ_self _) nofun
  rw [List.append_nil] at whole
  have found : document cs = .ok v := by
    have skipped := opens.skipBlanks_eq
    obtain ⟨c,tail,rfl,_,inner⟩ := opens
    have noMark : c ≠ '\uFEFF' := fun same => inner (by simp [same])
    rw [document,skipped]
    · exact bind_eq_ok.mpr ⟨_,whole,rfl⟩
    · rintro _ same
      exact noMark (List.cons.inj same).1
  refine ⟨String.ofList cs,?_⟩
  rw [read,String.toList_ofList,found]
  rfl

/-! What is read is within the limits. -/

theorem ofDigitChars_lt {digits : List Char} (all : ∀ c ∈ digits, c.isDigit = true) (start : Nat) :
    Nat.ofDigitChars 10 digits start < 10 ^ digits.length * (start + 1) := by
  induction digits generalizing start with
  | nil => simp
  | cons c digits ih =>
    obtain ⟨digit,later⟩ := List.forall_mem_cons.mp all
    have small : c.toNat - '0'.toNat < 10 := by
      have range : '0'.toNat ≤ c.toNat ∧ c.toNat ≤ '9'.toNat := by
        simpa [Char.isDigit,UInt32.le_iff_toNat_le] using digit
      have nine : '9'.toNat = '0'.toNat + 9 := rfl
      omega
    rw [Nat.ofDigitChars_cons,List.length_cons,Nat.pow_succ,Nat.mul_assoc]
    refine Nat.lt_of_lt_of_le (ih later _) (Nat.mul_le_mul_left _ ?_)
    omega

theorem isDigit_wholeDigits (cs : List Char) : ∀ c ∈ (wholeDigits cs).1, c.isDigit = true := by
  intro c member
  rw [wholeDigits.eq_def] at member
  split at member
  · rw [List.mem_singleton.mp member]
    rfl
  · exact List.mem_takeWhile_imp member

theorem within_unsigned {negative : Bool} {start cs rest : List Char}
    (came : unsigned negative start cs = .ok (v,rest)) : Within depth v := by
  have digits := isDigit_wholeDigits cs
  rw [unsigned] at came
  split at came
  · cases came
  · rename_i whole back _ read
    rw [read] at digits
    dsimp only at came digits
    split at came
    · split at came
      · cases came
      · rename_i fits
        obtain ⟨rfl,_⟩ := Prod.mk.inj (Except.ok.inj came)
        have bound := ofDigitChars_lt digits 0
        have limit := Nat.pow_le_pow_right (n := 10) (by decide) (Nat.le_of_not_gt fits)
        have abs : (if negative then -(Nat.ofDigitChars 10 whole 0 : Int)
            else Nat.ofDigitChars 10 whole 0).natAbs = Nat.ofDigitChars 10 whole 0 := by
          cases negative <;> simp
        rw [Within,abs]
        omega
    · obtain ⟨rfl,_⟩ := Prod.mk.inj (Except.ok.inj came)
      rw [Within]
      exact .decimal ..

theorem within_word {rest : List Char} (came : word? cs = some (v,rest)) : Within depth v := by
  have each : ∀ w ∈ words, Within depth w.2 := by
    simp only [words,List.forall_mem_cons,List.not_mem_nil,false_implies,implies_true,and_true,Within]
    exact ⟨trivial,trivial,trivial,.notANumber,.infinity,.negativeInfinity⟩
  obtain ⟨w,listed,found⟩ := List.exists_of_findSome?_eq_some came
  split at found
  · obtain ⟨rfl,_⟩ := Prod.mk.inj (Option.some.inj found)
    exact each w listed
  · cases found

theorem within_scalar {rest : List Char} (came : scalar cs = .ok (v,rest)) : Within depth v := by
  rw [scalar.eq_def] at came
  split at came
  · rename_i found
    exact within_word (found.trans (congrArg some (Except.ok.inj came)))
  · exact within_unsigned came
  · exact within_unsigned came

theorem value_of_member {item : List Char → Step Json} {m : String × Json}
    (came : member item cs = .ok (m,rest)) : ∃ cs' rest', item cs' = .ok (m.2,rest') := by
  rw [member.eq_def] at came
  split at came
  · obtain ⟨⟨name,back⟩,_,came⟩ := bind_eq_ok.mp came
    dsimp only at came
    split at came
    · obtain ⟨⟨v,_⟩,value,same⟩ := bind_eq_ok.mp came
      cases same
      exact ⟨_,_,value⟩
    · cases came
  · cases came

theorem within_valueFrom (came : valueFrom bound depth cs = .ok (v,rest)) : Within depth v := by
  induction depth using Nat.strongRecOn generalizing cs v rest with
  | ind depth ih =>
    rw [valueFrom.eq_def] at came
    split at came
    · obtain ⟨_,_,same⟩ := map_eq_ok.mp came
      obtain ⟨rfl,_⟩ := Prod.mk.inj same
      exact within_str ..
    · cases came
    · cases came
    · rename_i inner _
      split at came
      · obtain ⟨rfl,_⟩ := Prod.mk.inj (Except.ok.inj came)
        exact List.forall_mem_nil _
      · obtain ⟨_,items,same⟩ := map_eq_ok.mp came
        obtain ⟨rfl,_⟩ := Prod.mk.inj same
        exact (loops_items inner).forall_mem (ih inner (Nat.lt_succ_self inner)) items
    · rename_i inner _
      split at came
      · obtain ⟨rfl,_⟩ := Prod.mk.inj (Except.ok.inj came)
        exact ⟨List.nodup_nil,List.forall_mem_nil _⟩
      · obtain ⟨⟨pairs,_⟩,members,same⟩ := map_eq_ok.mp came
        obtain ⟨rfl,_⟩ := Prod.mk.inj same
        have each : ∀ m ∈ pairs, Within inner m.2 := (loops_members inner).forall_mem
          (fun read => (value_of_member read).elim fun _ ⟨_,value⟩ => ih inner (Nat.lt_succ_self inner) value)
          members
        exact ⟨Table.nodup_keys_ofPairs pairs,fun m listed => each m (Table.mem_of_mem_ofPairs listed)⟩
    · exact within_scalar came

/-- Texts hold the values within the limits of the reader, and no others. -/
theorem exists_read_iff {v : Json} : (∃ text, read text = .ok v) ↔ Within maxDepth v := by
  refine ⟨?_,exists_read_of_within⟩
  rintro ⟨text,came⟩
  have found := mapError_eq_ok.mp came
  rw [document.eq_def] at found
  split at found
  · cases found
  · obtain ⟨⟨_,back⟩,value,found⟩ := bind_eq_ok.mp found
    dsimp only at found
    split at found
    · obtain rfl := Except.ok.inj found
      exact within_valueFrom value
    · cases found

/-! What a text without doubles is read as can be computed. -/

mutual

def isSame : Json → Json → Bool
  | null,null => true
  | bool a,bool b => a = b
  | int m,int n => m = n
  | str s,str t => s = t
  | arr vs,arr ws => areSame vs ws
  | obj ms,obj ns => haveSame ms ns
  | _,_ => false

def areSame : List Json → List Json → Bool
  | [],[] => true
  | v :: vs,w :: ws => isSame v w && areSame vs ws
  | _,_ => false

def haveSame : List (String × Json) → List (String × Json) → Bool
  | [],[] => true
  | (name,v) :: ms,(other,w) :: ns => name = other && isSame v w && haveSame ms ns
  | _,_ => false

end

mutual

theorem eq_of_isSame : (v w : Json) → isSame v w = true → v = w
  | null,w,same => by cases w <;> first | rfl | cases same
  | bool _,w,same => by
    cases w with
    | bool b => exact congrArg bool (of_decide_eq_true same)
    | _ => cases same
  | int _,w,same => by
    cases w with
    | int n => exact congrArg int (of_decide_eq_true same)
    | _ => cases same
  | float _,w,same => by cases w <;> cases same
  | str _,w,same => by
    cases w with
    | str t => exact congrArg str (of_decide_eq_true same)
    | _ => cases same
  | arr vs,w,same => by
    cases w with
    | arr ws => exact congrArg arr (eq_of_areSame vs ws same)
    | _ => cases same
  | obj ms,w,same => by
    cases w with
    | obj ns => exact congrArg obj (eq_of_haveSame ms ns same)
    | _ => cases same

private theorem eq_of_areSame : (vs ws : List Json) → areSame vs ws = true → vs = ws
  | [],[],_ => rfl
  | [],_ :: _,same => nomatch same
  | _ :: _,[],same => nomatch same
  | v :: vs,w :: ws,same => by
    obtain ⟨first,later⟩ := (Bool.and_eq_true ..).mp same
    rw [eq_of_isSame v w first,eq_of_areSame vs ws later]

private theorem eq_of_haveSame : (ms ns : List (String × Json)) → haveSame ms ns = true → ms = ns
  | [],[],_ => rfl
  | [],_ :: _,same => nomatch same
  | _ :: _,[],same => nomatch same
  | (name,v) :: ms,(other,w) :: ns,same => by
    obtain ⟨first,later⟩ := (Bool.and_eq_true ..).mp same
    obtain ⟨named,value⟩ := (Bool.and_eq_true ..).mp first
    rw [of_decide_eq_true named,eq_of_isSame v w value,eq_of_haveSame ms ns later]

end

theorem read_eq_ok_of_isSame {text : String} {v : Json}
    (same : (read text).toOption.any (isSame · v) = true) : read text = .ok v := by
  obtain ⟨w,found,equal⟩ := (Option.any_eq_true ..).mp same
  exact eq_of_isSame w v equal ▸ toOption_eq_some.mp found

end DepAudit.Json
