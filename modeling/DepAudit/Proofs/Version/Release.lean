import DepAudit.Proofs.Text.Phrase
import DepAudit.Proofs.Version.Order
import DepAudit.Proofs.Version.Reading

/-! Releases as they are written, three numerals with points between them, and the labels of prereleases
behind them. Numerals that are short enough are read as the numbers they spell, whatever zeros they start
with, and the order of releases is the lexicographic order of these numbers. -/
namespace DepAudit

open Text (Phrase isPlain isBlank_of_plain)

/-! Numerals. -/

namespace Text

theorem digitValue?_of_isDigit {c : Char} (digit : c.isDigit = true) :
    digitValue? c = some (c.toNat - '0'.toNat) := by
  have identifier : isIdentifier c = true := by simp [isIdentifier,Char.isAlphanum,digit]
  rw [digitValue?,if_pos (identifier_ascii identifier),if_pos digit]
  rfl

end Text

namespace Numeral

def value (digits : Phrase Char.isDigit) : Nat := Nat.ofDigitChars 10 digits.chars 0

theorem digitsValue?_eq {cs : List Char} (digits : ∀ c ∈ cs, c.isDigit = true) (start : Nat) :
    digitsValue? cs start = .ok (Nat.ofDigitChars 10 cs start) := by
  induction cs generalizing start with
  | nil => rfl
  | cons c cs ih =>
    obtain ⟨here,later⟩ := List.forall_mem_cons.mp digits
    rw [digitsValue?,Text.digitValue?_of_isDigit here,Nat.ofDigitChars_cons]
    exact ih later _

theorem read_eq_ok_iff {digits : Phrase Char.isDigit} {n : Nat} :
    read digits.chars = .ok n ↔ digits.chars.length ≤ maxDigits ∧ value digits = n := by
  have spelled : digitsValue? digits.chars 0 = .ok (value digits) := digitsValue?_eq digits.sound 0
  rw [read,spelled]
  split
  · rename_i long
    exact ⟨nofun,fun short => absurd short.1 (Nat.not_le.mpr long)⟩
  · rename_i short
    rw [Except.ok.injEq]
    exact ⟨fun same => ⟨Nat.le_of_not_gt short,same⟩,And.right⟩

theorem toList_toString (n : Nat) : (toString n).toList = Nat.toDigits 10 n := by
  rw [Nat.toString_eq_ofList_toDigits,String.toList_ofList]

def ofNat (n : Nat) : Phrase Char.isDigit where
  text := toString n
  filled := toList_toString n ▸ Nat.toDigits_ne_nil
  sound := fun c member => by
    rw [toList_toString] at member
    exact Nat.isDigit_of_mem_toDigits (by decide) (by decide) member

theorem value_ofNat (n : Nat) : value (ofNat n) = n := by
  have digits : (ofNat n).chars = Nat.toDigits 10 n := toList_toString n
  rw [value,digits,Nat.ofDigitChars_ten_toDigits]

end Numeral

namespace Triple

def lex (t : Triple) : ℕ ×ₗ ℕ ×ₗ ℕ := toLex (t.major,toLex (t.minor,t.patch))

theorem compare_eq_lt_iff {s t : Triple} : compare s t = .lt ↔ s.lex < t.lex := by
  change ((compare s.major t.major).then (compare s.minor t.minor)).then (compare s.patch t.patch) = .lt ↔ _
  simp only [lex,Prod.Lex.toLex_lt_toLex,Ordering.then_eq_lt,Ordering.then_eq_eq,Nat.compare_eq_lt,
    Nat.compare_eq_eq]
  tauto

theorem compare_eq_gt_iff {s t : Triple} : compare s t = .gt ↔ t.lex < s.lex :=
  Std.OrientedCmp.gt_iff_lt.trans compare_eq_lt_iff

theorem isGE_compare_iff {s t : Triple} : (compare s t).isGE = true ↔ t.lex ≤ s.lex := by
  rw [← not_lt,← compare_eq_lt_iff]
  cases compare s t <;> decide

theorem isLE_compare_iff {s t : Triple} : (compare s t).isLE = true ↔ s.lex ≤ t.lex := by
  rw [← not_lt,← compare_eq_gt_iff]
  cases compare s t <;> decide

end Triple

namespace Version
open Text

theorem isPlain_of_digit (c : Char) (digit : c.isDigit = true) : isPlain c = true := by
  simp [isPlain,isIdentifier,Char.isAlphanum,digit]

theorem isPlain_of_label (c : Char) (label : isLabelChar c = true) : isPlain c = true := by
  rcases Bool.or_eq_true_iff.mp label with alphanum | dash
  · simp [isPlain,isIdentifier,alphanum]
  · simp [isPlain,dash]

structure Release where
  major : Phrase Char.isDigit
  minor : Phrase Char.isDigit
  patch : Phrase Char.isDigit

namespace Release

def text (r : Release) : String := r.major.text ++ "." ++ r.minor.text ++ "." ++ r.patch.text

def triple (r : Release) : Triple := ⟨Numeral.value r.major,Numeral.value r.minor,Numeral.value r.patch⟩

structure Short (r : Release) : Prop where
  major : r.major.chars.length ≤ Numeral.maxDigits
  minor : r.minor.chars.length ≤ Numeral.maxDigits
  patch : r.patch.chars.length ≤ Numeral.maxDigits

def ofTriple (t : Triple) : Release :=
  ⟨Numeral.ofNat t.major,Numeral.ofNat t.minor,Numeral.ofNat t.patch⟩

theorem triple_ofTriple (t : Triple) : (ofTriple t).triple = t := by
  simp [ofTriple,triple,Numeral.value_ofNat]

theorem text_ofTriple (t : Triple) : (ofTriple t).text = render ⟨t,none,none⟩ := by
  simp [ofTriple,text,Numeral.ofNat,render,labelText]

def parts (r : Release) (label : Option (Phrase isLabelChar)) : Parts :=
  ⟨r.major.chars,r.minor.chars,r.patch.chars,label.map Phrase.chars,none⟩

theorem parts_proper (r : Release) (label : Option (Phrase isLabelChar)) : (r.parts label).Proper := by
  have numeral : ∀ digits : Phrase Char.isDigit, IsNumeral digits.chars := fun digits =>
    ⟨digits.filled,fun c member => by
      rw [isDecimalDigit,digitValue?_of_isDigit (digits.sound c member)]
      rfl⟩
  refine ⟨⟨numeral r.major,numeral r.minor,numeral r.patch⟩,?_,nofun⟩
  cases label with
  | none => exact nofun
  | some label =>
    rintro text ⟨⟩
    exact ⟨label.filled,label.sound⟩

theorem triple_parts (r : Release) (label : Option (Phrase isLabelChar)) {t : Triple} :
    (r.parts label).triple = .ok t ↔ r.Short ∧ r.triple = t := by
  unfold Parts.triple parts
  simp only [bind_eq_ok,Numeral.read_eq_ok_iff]
  constructor
  · rintro ⟨_,⟨major,rfl⟩,_,⟨minor,rfl⟩,_,⟨patch,rfl⟩,same⟩
    exact ⟨⟨major,minor,patch⟩,Except.ok.inj same⟩
  · rintro ⟨⟨major,minor,patch⟩,rfl⟩
    exact ⟨_,⟨major,rfl⟩,_,⟨minor,rfl⟩,_,⟨patch,rfl⟩,rfl⟩

theorem chars_parts (r : Release) (label : Phrase isLabelChar) :
    (r.parts (some label)).chars = (r.parts none).core ++ '-' :: label.chars := by
  simp [parts,Parts.chars,Parts.core,Parts.labels,labelled]

theorem toList_text (r : Release) : r.text.toList = (r.parts none).chars := by
  simp [text,parts,Parts.chars,Parts.core,Parts.labels,labelled,Phrase.chars]

theorem toList_labelled (r : Release) (label : String) :
    (r.text ++ "-" ++ label).toList = (r.parts none).core ++ '-' :: label.toList := by
  simp [text,parts,Parts.core,Phrase.chars]

theorem plain_core (r : Release) : ∀ c ∈ (r.parts none).core, isPlain c = true := by
  have digits : ∀ numeral : Phrase Char.isDigit, ∀ c ∈ numeral.chars, isPlain c = true :=
    fun numeral c member => isPlain_of_digit c (numeral.sound c member)
  intro c member
  simp only [parts,Parts.core,List.mem_append,List.mem_cons] at member
  rcases member with inside | rfl | inside | rfl | inside
  · exact digits r.major c inside
  · rfl
  · exact digits r.minor c inside
  · rfl
  · exact digits r.patch c inside

theorem visible_text (r : Release) : ∀ c ∈ r.text.toList, isBlank c = false := by
  intro c member
  rw [toList_text,Parts.chars,show (r.parts none).labels = [] from rfl,List.append_nil] at member
  exact isBlank_of_plain (r.plain_core c member)

theorem trim_text (r : Release) : trim r.text.toList = (r.parts none).chars :=
  (trim_of_visible r.visible_text).trans r.toList_text

theorem trim_labelled (r : Release) {label : String} (plain : ∀ c ∈ label.toList, isPlain c = true) :
    trim (r.text ++ "-" ++ label).toList = (r.parts none).core ++ '-' :: label.toList := by
  rw [toList_labelled]
  refine trim_of_visible fun c member => isBlank_of_plain ?_
  rcases List.mem_append.mp member with inside | inside
  · exact r.plain_core c inside
  · rcases List.mem_cons.mp inside with rfl | inside
    · rfl
    · exact plain c inside

/-! What a comparison sees of a release and of its prereleases. -/

variable {r : Release}

theorem reads_of_parts {text : String} (label : Option (Phrase isLabelChar))
    (spelled : trim text.toList = (r.parts label).chars) (short : r.Short) :
    Reads text (.version ⟨r.triple,label.map Phrase.text,none⟩) := by
  have taken : Parts.ofText? (trim text.toList) = some (r.parts label) :=
    Parts.ofText?_eq_some_iff.mpr ⟨r.parts_proper label,spelled⟩
  have numbers := (r.triple_parts label).mpr ⟨short,rfl⟩
  have labels : (r.parts label).versionOf r.triple = ⟨r.triple,label.map Phrase.text,none⟩ := by
    cases label with
    | none => rfl
    | some label => simp [Parts.versionOf,parts,label.ofList_chars]
  refine ⟨?_,?_⟩
  · rw [parse?_of_parts taken,numbers,← labels]
    rfl
  · rw [looseTriple?_of_parts taken,numbers]
    rfl

theorem reads_text (short : r.Short) : Reads r.text (.version ⟨r.triple,none,none⟩) :=
  reads_of_parts none r.trim_text short

theorem reads_labelled (short : r.Short) (label : Phrase isLabelChar) :
    Reads (r.text ++ "-" ++ label.text) (.version ⟨r.triple,some label.text,none⟩) := by
  have plain := fun c member => isPlain_of_label c (label.sound c member)
  exact reads_of_parts (some label) ((r.trim_labelled plain).trans (r.chars_parts label).symm) short

/-- Behind a label with a point only the numbers are seen. -/
theorem reads_pointed (short : r.Short) {label : String} (plain : ∀ c ∈ label.toList, isPlain c = true)
    (pointed : '.' ∈ label.toList) : Reads (r.text ++ "-" ++ label) (.numbers r.triple) := by
  have numeric := (r.parts_proper none).toNumeric
  have spelled := r.trim_labelled plain
  have points : (trim (r.text ++ "-" ++ label).toList).count '.' ≠ 2 := by
    have more := List.count_pos_iff.mpr pointed
    rw [spelled,List.count_append,Parts.count_core numeric,List.count_cons_of_ne (by decide)]
    omega
  refine ⟨?_,?_⟩
  · rw [parse?,Parts.ofText?_eq_none points]
    rfl
  · rw [Parts.looseTriple?_core numeric spelled (by rintro c ⟨⟩; exact .inl rfl),
      (r.triple_parts none).mpr ⟨short,rfl⟩]
    rfl

theorem short_of_reads {ra : Reading} (read : Reads r.text ra) : r.Short := by
  have taken : Parts.ofText? (trim r.text.toList) = some (r.parts none) :=
    Parts.ofText?_eq_some_iff.mpr ⟨r.parts_proper none,r.trim_text⟩
  have numbers := read.numbers
  rw [looseTriple?_of_parts taken] at numbers
  obtain ⟨t,numbers,-⟩ := map_eq_ok.mp numbers
  exact ((r.triple_parts none).mp numbers).1

end Release

structure Prerelease where
  first : Phrase isLabelChar
  others : List (Phrase isLabelChar)

namespace Prerelease

def text (p : Prerelease) : String := ".".intercalate ((p.first :: p.others).map Phrase.text)

theorem text_single (first : Phrase isLabelChar) : text ⟨first,[]⟩ = first.text := String.intercalate_singleton

theorem toList_cons (first next : Phrase isLabelChar) (others : List (Phrase isLabelChar)) :
    (text ⟨first,next :: others⟩).toList = first.chars ++ '.' :: (text ⟨next,others⟩).toList := by
  simp [text,String.toList_intercalate,Phrase.chars]

theorem plain_text (p : Prerelease) : ∀ c ∈ p.text.toList, isPlain c = true := by
  obtain ⟨first,others⟩ := p
  induction others generalizing first with
  | nil =>
    rw [text_single]
    exact fun c member => isPlain_of_label c (first.sound c member)
  | cons next others ih =>
    intro c member
    rw [toList_cons] at member
    rcases List.mem_append.mp member with inside | inside
    · exact isPlain_of_label c (first.sound c inside)
    · rcases List.mem_cons.mp inside with rfl | inside
      · rfl
      · exact ih next c inside

theorem pointed_text {p : Prerelease} (dotted : p.others ≠ []) : '.' ∈ p.text.toList := by
  obtain ⟨first,others⟩ := p
  obtain ⟨next,others,rfl⟩ := List.exists_cons_of_ne_nil dotted
  rw [toList_cons]
  exact List.mem_append_right _ (List.mem_cons_self ..)

/-- One identifier puts a prerelease below its release; of more than one nothing is seen. -/
def rank (p : Prerelease) : Ordering := if p.others.isEmpty then .lt else .eq

end Prerelease

end Version

end DepAudit
