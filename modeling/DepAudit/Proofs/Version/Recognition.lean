import DepAudit.Proofs.Numeral
import DepAudit.Proofs.Version.Reading
import DepAudit.Version.Requirement

/-! The readers of version texts, each with a form of its own: exact versions, semantic versions, loose
triples, the marks of ranges and the requirements themselves. No two of them contradict each other. -/
namespace DepAudit
open Text

namespace Version.Parts

variable {p : Parts}

theorem major_isInfix (p : Parts) : p.major <:+: p.core := (List.prefix_append ..).isInfix

theorem minor_isInfix (p : Parts) : p.minor <:+: p.core :=
  ⟨p.major ++ ['.'],'.' :: p.patch,by simp [core]⟩

theorem patch_isInfix (p : Parts) : p.patch <:+: p.core :=
  ⟨p.major ++ '.' :: (p.minor ++ ['.']),[],by simp [core]⟩

theorem core_isInfix {text : String} (taken : ofText? (trim text.toList) = some p) :
    p.core <:+: text.toList := by
  have inside : p.core <:+: p.chars := (List.prefix_append ..).isInfix
  rw [← (spelled taken).2] at inside
  exact inside.trans (trim_isInfix _)

theorem exists_triple {text : String} (taken : ofText? (trim text.toList) = some p)
    (short : Numeral.ShortRuns text.toList) : ∃ t, p.triple = .ok t := by
  have numeric := (spelled taken).1.toNumeric
  have numerals := short.mono (core_isInfix taken)
  obtain ⟨major,first⟩ := (numerals.exists_read_iff p.major_isInfix).mpr numeric.major.2
  obtain ⟨minor,second⟩ := (numerals.exists_read_iff p.minor_isInfix).mpr numeric.minor.2
  obtain ⟨patch,third⟩ := (numerals.exists_read_iff p.patch_isInfix).mpr numeric.patch.2
  rw [triple,first,second,third]
  exact ⟨⟨major,minor,patch⟩,rfl⟩

end Version.Parts

namespace Requirement
open Version

/-! Exact versions. -/

section

variable {cs rest : List Char} {p : Parts} {text : String}

theorem afterNumerals?_eq_some (found : afterNumerals? cs = some rest) :
    ∃ p : Parts, p.Numeric ∧ cs = p.core ++ rest := by
  obtain ⟨⟨major,first⟩,taken₁,found₁⟩ := Option.bind_eq_some_iff.mp found
  obtain ⟨rfl,major_⟩ := takePointed?_eq_some taken₁
  obtain ⟨⟨minor,second⟩,taken₂,found₂⟩ := Option.bind_eq_some_iff.mp found₁
  obtain ⟨rfl,minor_⟩ := takePointed?_eq_some taken₂
  obtain ⟨⟨patch,last⟩,taken₃,same⟩ := Option.bind_eq_some_iff.mp found₂
  obtain ⟨rfl,patch_⟩ := takeRun?_eq_some taken₃
  obtain rfl := Option.some.inj same
  exact ⟨⟨major,minor,patch,none,none⟩,⟨major_,minor_,patch_⟩,by simp [Parts.core]⟩

theorem afterNumerals?_core (numeric : p.Numeric) : afterNumerals? p.core = some [] := by
  have ended : takeRun? isDecimalDigit (p.patch ++ []) = some (p.patch,[]) :=
    takeRun?_append numeric.patch.1 numeric.patch.2 nofun
  rw [List.append_nil] at ended
  rw [afterNumerals?,Parts.core,takePointed?_append numeric.major]
  dsimp only [Option.bind_eq_bind,Option.bind_some]
  rw [takePointed?_append numeric.minor]
  dsimp only [Option.bind_some]
  rw [ended]
  rfl

/-- An exact version is three numerals with points between them. -/
theorem isExact_iff : isExact text = true ↔ ∃ p : Parts, p.Numeric ∧ trim text.toList = p.core := by
  rw [isExact,Option.any_eq_true]
  constructor
  · rintro ⟨rest,found,ended⟩
    obtain ⟨p,numeric,spelled⟩ := afterNumerals?_eq_some found
    rw [List.isEmpty_iff.mp ended,List.append_nil] at spelled
    exact ⟨p,numeric,spelled⟩
  · rintro ⟨p,numeric,spelled⟩
    exact ⟨[],spelled ▸ afterNumerals?_core numeric,rfl⟩

/-- The form of exact versions is that of semantic versions without labels. -/
theorem isExact_eq (text : String) : isExact text =
    (Parts.ofText? (trim text.toList)).any fun p => p.prerelease.isNone && p.build.isNone := by
  rw [Bool.eq_iff_iff,isExact_iff,Option.any_eq_true]
  simp only [Bool.and_eq_true,Option.isNone_iff_eq_none,Parts.ofText?_eq_some_iff]
  constructor
  · rintro ⟨p,⟨major,minor,patch⟩,spelled⟩
    refine ⟨⟨p.major,p.minor,p.patch,none,none⟩,⟨⟨⟨major,minor,patch⟩,nofun,nofun⟩,?_⟩,rfl,rfl⟩
    exact spelled.trans (List.append_nil _).symm
  · rintro ⟨p,⟨proper,spelled⟩,prerelease,build⟩
    have unlabelled : p.labels = [] := by rw [Parts.labels,prerelease,build]; rfl
    rw [Parts.chars,unlabelled,List.append_nil] at spelled
    exact ⟨p,proper.toNumeric,spelled⟩

theorem isExact_iff_parse? (short : Numeral.ShortRuns text.toList) : isExact text = true ↔
    ∃ v, parse? text = .ok (some v) ∧ v.prerelease = none ∧ v.build = none := by
  rw [isExact_eq,Option.any_eq_true]
  simp only [Bool.and_eq_true,Option.isNone_iff_eq_none]
  constructor
  · rintro ⟨p,taken,prerelease,build⟩
    obtain ⟨t,numbers⟩ := Parts.exists_triple taken short
    refine ⟨p.versionOf t,?_,?_,?_⟩
    · rw [parse?_of_parts taken,numbers]
      rfl
    · rw [Parts.versionOf,prerelease]
      rfl
    · rw [Parts.versionOf,build]
      rfl
  · rintro ⟨_,read,prerelease,build⟩
    obtain ⟨p,t,taken,-,rfl⟩ := parts_of_parse? read
    exact ⟨p,taken,Option.map_eq_none_iff.mp prerelease,Option.map_eq_none_iff.mp build⟩

end

/-! Ranges. -/

section

variable {text version requirement : String}

theorem isRange_iff : isRange text = true ↔ ∃ mark ∈ rangeMarks, mark.toList <:+: text.toList := by
  rw [isRange,List.any_eq_true]
  exact exists_congr fun mark => and_congr_right fun _ => occurs_iff

def isForeign (c : Char) : Bool := !isBlank c && !isDecimalDigit c && c != '.'

/-- Every mark of a range has a foreign sign, or three points. -/
theorem rangeMarks_foreign : ∀ mark ∈ rangeMarks,
    mark.toList.count '.' = 3 ∨ mark.toList.any isForeign = true := by
  decide +kernel

section

variable (exact_ : isExact text = true)
include exact_

theorem exists_core_of_isExact : ∃ (p : Parts) (front back : List Char), p.Numeric ∧
    text.toList = front ++ (p.core ++ back) ∧ ∀ c ∈ front ++ back, isBlank c = true := by
  obtain ⟨p,numeric,spelled⟩ := isExact_iff.mp exact_
  obtain ⟨front,back,whole,blank⟩ := exists_trim text.toList
  exact ⟨p,front,back,numeric,spelled ▸ whole,blank⟩

theorem isForeign_of_isExact : ∀ c ∈ text.toList, isForeign c = false := by
  obtain ⟨p,front,back,numeric,whole,blank⟩ := exists_core_of_isExact exact_
  obtain ⟨ahead,behind⟩ := List.forall_mem_append.mp blank
  intro c member
  rw [whole,List.mem_append,List.mem_append] at member
  rcases member with inside | inside | inside
  · rw [isForeign,ahead c inside]
    rfl
  · rcases Parts.mem_core numeric inside with digit | rfl
    · rw [isForeign,digit,Bool.not_true,Bool.and_false,Bool.false_and]
    · exact Bool.and_false _
  · rw [isForeign,behind c inside]
    rfl

theorem count_of_isExact : text.toList.count '.' = 2 := by
  obtain ⟨p,front,back,numeric,whole,blank⟩ := exists_core_of_isExact exact_
  obtain ⟨ahead,behind⟩ := List.forall_mem_append.mp blank
  have visible : isBlank '.' = false := by decide +kernel
  have pointless : ∀ {cs : List Char}, (∀ c ∈ cs, isBlank c = true) → cs.count '.' = 0 :=
    fun blank => List.count_eq_zero.mpr fun inside => by
      rw [blank '.' inside] at visible
      cases visible
  rw [whole,List.count_append,List.count_append,pointless ahead,pointless behind,
    Parts.count_core numeric]

theorem isRange_of_isExact : isRange text = false := by
  rw [Bool.eq_false_iff,ne_eq,isRange_iff]
  rintro ⟨mark,listed,inside⟩
  rcases rangeMarks_foreign mark listed with points | foreign
  · have fewer := inside.count_le '.'
    rw [points,count_of_isExact exact_] at fewer
    omega
  · obtain ⟨c,member,foreign⟩ := List.any_eq_true.mp foreign
    rw [isForeign_of_isExact exact_ c (inside.subset member)] at foreign
    cases foreign

end

theorem rangeEnds?_eq_some {cs : List Char} {low high : String} (found : rangeEnds? cs = some (low,high)) :
    ∃ front back, cs = front ++ ("...".toList ++ back) ∧ low = String.ofList (trim front) ∧
      high = String.ofList (trim back) := by
  have whole := intercalate_pieces (by decide : "...".toList ≠ []) cs
  rw [rangeEnds?] at found
  split at found
  · rename_i front back cut
    obtain ⟨rfl,rfl⟩ := Prod.mk.inj (Option.some.inj found)
    rw [cut,List.intercalate_cons_cons,List.intercalate_singleton,List.append_assoc] at whole
    exact ⟨front,back,whole.symm,rfl,rfl⟩
  · cases found

/-- Only an exact version or a range turns a version away. -/
theorem exact_or_range_of_isMet (rejected : isMet version (some requirement) = .ok false) :
    isExact requirement = true ∨ isRange requirement = true := by
  rw [or_iff_not_imp_left,isRange_iff]
  intro inexact
  rw [isMet,if_neg inexact] at rejected
  split at rejected
  · rename_i bound found
    have starts : ">=".toList <+: trim requirement.toList := ⟨bound,(after?_eq_some.mp found).symm⟩
    exact ⟨">=",by decide,starts.isInfix.trans (trim_isInfix _)⟩
  · split at rejected
    · rename_i low high ends
      obtain ⟨front,back,whole,-⟩ := rangeEnds?_eq_some ends
      have inside : "...".toList <:+: trim requirement.toList :=
        ⟨front,back,(List.append_assoc ..).trans whole.symm⟩
      exact ⟨"...",by decide,inside.trans (trim_isInfix _)⟩
    · cases rejected

end

/-- The readers of a text agree. A semantic version has the same numbers when it is read loosely; an exact
version is a semantic version without labels, as long as its numerals can be read, and no range; what turns
a version away is an exact version or a range. -/
theorem recognisers_agree :
    (∀ {text : String} {v : Version}, parse? text = .ok (some v) →
      looseTriple? text = .ok (some v.triple)) ∧
    (∀ {text : String}, Numeral.ShortRuns text.toList → (isExact text = true ↔
      ∃ v, parse? text = .ok (some v) ∧ v.prerelease = none ∧ v.build = none)) ∧
    (∀ {text : String}, isExact text = true → isRange text = false) ∧
    ∀ {version requirement : String}, isMet version (some requirement) = .ok false →
      isExact requirement = true ∨ isRange requirement = true :=
  ⟨looseTriple?_of_parse?,isExact_iff_parse?,isRange_of_isExact,exact_or_range_of_isMet⟩

/-- Labels with marks inside leave the numbers as they are; digits of another script, zeros in front and blanks
around make an exact version no other; and a closed range turns away what stands above it. -/
theorem labels_scripts_and_ranges_are_recognised :
    (parse? "1.2.3--rc-+0-5" = .ok (some ⟨⟨1,2,3⟩,some "-rc-",some "0-5"⟩) ∧
      looseTriple? "1.2.3--rc-+0-5" = .ok (some ⟨1,2,3⟩)) ∧
    (Numeral.ShortRuns "\t٠١.2.3\n".toList ∧
      parse? "\t٠١.2.3\n" = .ok (some ⟨⟨1,2,3⟩,none,none⟩) ∧
      isExact "\t٠١.2.3\n" = true ∧ isRange "\t٠١.2.3\n" = false) ∧
    isMet "2.0.0" (some " 1.0.0 ... 1.9.9 ") = .ok false ∧ isRange " 1.0.0 ... 1.9.9 " = true := by
  obtain ⟨loosely,exactly,apart,only⟩ := recognisers_agree
  have labelled_ : parse? "1.2.3--rc-+0-5" = .ok (some ⟨⟨1,2,3⟩,some "-rc-",some "0-5"⟩) := by rfl
  have short : Numeral.ShortRuns "\t٠١.2.3\n".toList := .of_length (by decide +kernel)
  have release : parse? "\t٠١.2.3\n" = .ok (some ⟨⟨1,2,3⟩,none,none⟩) := by rfl
  have exact_ : isExact "\t٠١.2.3\n" = true := (exactly short).mpr ⟨_,release,rfl,rfl⟩
  have rejected : isMet "2.0.0" (some " 1.0.0 ... 1.9.9 ") = .ok false := by decide +kernel
  have inexact : ¬isExact " 1.0.0 ... 1.9.9 " = true := by decide +kernel
  exact ⟨⟨labelled_,loosely labelled_⟩,⟨short,release,exact_,apart exact_⟩,rejected,
    (only rejected).resolve_left inexact⟩

end Requirement

end DepAudit
