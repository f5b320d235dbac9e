import DepAudit.Proofs.Version.Comparator
import DepAudit.Proofs.Version.Minimum
import DepAudit.Proofs.Version.Recognition
import DepAudit.Proofs.Version.Release

/-! Bounds that are releases: a release meets them by its numbers, and a prerelease of a bound stands below
it as long as the whole label is one identifier. A label with a point in it is not seen, and such a
prerelease passes for its release. -/
namespace DepAudit.Requirement
open Text Version

/-! What a requirement asks. -/

/-- Blanks around a requirement are not read. -/
theorem isMet_congr_trim {first second : String} (same : trim first.toList = trim second.toList)
    (version : String) : isMet version (some first) = isMet version (some second) := by
  have exact_ : isExact first = isExact second := by rw [isExact,same,isExact]
  unfold isMet
  dsimp only
  rw [exact_,same]

theorem isMet_padded {front back : String} (blank : ∀ c ∈ front.toList ++ back.toList, isBlank c = true)
    (requirement version : String) :
    isMet version (some (front ++ requirement ++ back)) = isMet version (some requirement) := by
  obtain ⟨ahead,behind⟩ := List.forall_mem_append.mp blank
  apply isMet_congr_trim
  rw [String.toList_append,String.toList_append,trim_append behind,trim_prepend ahead]

theorem compares_of_reads {version bound : String} {a b : Reading} (first : Reads version a)
    (second : Reads bound b) (ok : Ordering → Bool) :
    compares version bound ok = .ok (ok (a.compare b (compare version bound))) := by
  rw [compares,compareLoose_of_reads first second]
  rfl

variable {r low high : Release} {version : String}

theorem ofList_trim_text (r : Release) : String.ofList (trim r.text.toList) = r.text := by
  rw [r.trim_text,← r.toList_text,String.ofList_toList]

theorem isMet_from (low : Release) (version : String) :
    isMet version (some (">=" ++ low.text)) = compares version low.text Ordering.isGE := by
  rw [isMet_minimum,ofList_trim_text]

/-- A range of releases is split at its mark and nowhere else. -/
theorem rangeEnds?_releases (low high : Release) :
    rangeEnds? (low.text.toList ++ ("...".toList ++ high.text.toList)) = some (low.text,high.text) := by
  have cut : pieces "...".toList (low.text.toList ++ ("...".toList ++ high.text.toList)) =
      [low.text.toList,high.text.toList] := by
    rw [low.toList_text,high.toList_text,
      pieces_append (by decide) ((Parts.silent_chars (low.parts_proper none)) none _),
      pieces_of_misses ((Parts.silent_chars (high.parts_proper none)) none _)]
  rw [rangeEnds?,cut]
  dsimp only
  rw [ofList_trim_text,ofList_trim_text]

theorem isMet_range (low high : Release) (version : String) :
    isMet version (some (low.text ++ "..." ++ high.text)) = (do
      if ← compares version low.text Ordering.isGE then compares version high.text Ordering.isLE
      else return false) := by
  have spelled : (low.text ++ "..." ++ high.text).toList =
      low.text.toList ++ ("...".toList ++ high.text.toList) := by
    rw [String.toList_append,String.toList_append,List.append_assoc]
  have visible : trim (low.text ++ "..." ++ high.text).toList =
      low.text.toList ++ ("...".toList ++ high.text.toList) := by
    have points_visible : ∀ c ∈ "...".toList, isBlank c = false := by decide
    rw [spelled]
    refine trim_of_visible fun c member => ?_
    rcases List.mem_append.mp member with inside | inside
    · exact low.visible_text c inside
    · rcases List.mem_append.mp inside with inside | inside
      · exact points_visible c inside
      · exact high.visible_text c inside
  have points : (low.text.toList ++ ("...".toList ++ high.text.toList)).count '.' ≠ 2 := by
    rw [low.toList_text,high.toList_text]
    simp [Parts.count_chars (low.parts_proper none),Parts.count_chars (high.parts_proper none)]
  have inexact : isExact (low.text ++ "..." ++ high.text) = false := by
    rw [isExact_eq,visible,Parts.ofText?_eq_none points,Option.any_none]
  have unmarked : after? ">=".toList (low.text.toList ++ ("...".toList ++ high.text.toList)) = none := by
    rw [low.toList_text,Parts.chars,List.append_assoc]
    exact Parts.after?_core (low.parts_proper none).toNumeric (by decide +kernel) ['='] _
  rw [isMet,if_neg (ne_true_of_eq_false inexact),visible,unmarked]
  dsimp only
  rw [rangeEnds?_releases]

/-! Releases and prereleases against bounds. -/

section

variable {ra : Reading} (read : Reads version ra)
include read

theorem isMet_from_reads (short : low.Short) : isMet version (some (">=" ++ low.text)) =
    .ok (ra.compare (.version ⟨low.triple,none,none⟩) (compare version low.text)).isGE := by
  rw [isMet_from,compares_of_reads read (Release.reads_text short)]

theorem isMet_range_reads (lowShort : low.Short) (highShort : high.Short) :
    isMet version (some (low.text ++ "..." ++ high.text)) =
      .ok ((ra.compare (.version ⟨low.triple,none,none⟩) (compare version low.text)).isGE &&
        (ra.compare (.version ⟨high.triple,none,none⟩) (compare version high.text)).isLE) := by
  rw [isMet_range,compares_of_reads read (Release.reads_text lowShort),
    compares_of_reads read (Release.reads_text highShort)]
  cases (ra.compare (.version ⟨low.triple,none,none⟩) (compare version low.text)).isGE <;> rfl

end

/-- The numbers decide between releases. -/
theorem compare_release (t bound : Triple) (texts : Ordering) :
    (Reading.version ⟨t,none,none⟩).compare (.version ⟨bound,none,none⟩) texts = compare t bound :=
  Ordering.then_eq

/-- A prerelease of the same numbers is lower. -/
theorem compare_prerelease (t bound : Triple) (label : String) (texts : Ordering) :
    (Reading.version ⟨t,some label,none⟩).compare (.version ⟨bound,none,none⟩) texts =
      (compare t bound).then .lt := rfl

/-- Releases are accepted by their numbers, and prereleases by the numbers above the bound. What is asked
for is that the numerals can be read; they may start with zeros, and blanks may stand around the
requirement. -/
theorem releases_meet_bounds_by_number (short : r.Short) (lowShort : low.Short) (highShort : high.Short)
    (label : Phrase isLabelChar) {front back : String}
    (blank : ∀ c ∈ front.toList ++ back.toList, isBlank c = true) :
    isMet r.text (some (front ++ (">=" ++ low.text) ++ back)) =
        .ok (decide (low.triple.lex ≤ r.triple.lex)) ∧
      isMet (r.text ++ "-" ++ label.text) (some (front ++ (">=" ++ low.text) ++ back)) =
        .ok (decide (low.triple.lex < r.triple.lex)) ∧
      isMet r.text (some (front ++ (low.text ++ "..." ++ high.text) ++ back)) =
        .ok (decide (low.triple.lex ≤ r.triple.lex ∧ r.triple.lex ≤ high.triple.lex)) := by
  have release := Release.reads_text short
  have prerelease := Release.reads_labelled short label
  refine ⟨?_,?_,?_⟩
  · rw [isMet_padded blank,isMet_from_reads release lowShort,compare_release]
    congr 1
    rw [Bool.eq_iff_iff,decide_eq_true_iff,Triple.isGE_compare_iff]
  · rw [isMet_padded blank,isMet_from_reads prerelease lowShort,compare_prerelease]
    congr 1
    rw [Bool.eq_iff_iff,decide_eq_true_iff,← Triple.compare_eq_gt_iff]
    cases compare r.triple low.triple <;> decide
  · rw [isMet_padded blank,isMet_range_reads release lowShort highShort,compare_release,compare_release]
    congr 1
    rw [Bool.eq_iff_iff,Bool.and_eq_true,decide_eq_true_iff,Triple.isGE_compare_iff,
      Triple.isLE_compare_iff]

/-- Texts would stand the other way round: the minimum has the greater second figure. -/
theorem two_figures_stand_above_one :
    (∀ c ∈ " ".toList ++ "\n".toList, isBlank c = true) ∧
      isMet "1.10.0" (some " >=1.09.0\n") = .ok true ∧
      isMet "1.10.0-rc1" (some " >=1.09.0\n") = .ok true ∧
      isMet "1.10.0" (some " 1.09.0...1.9.9\n") = .ok false := by
  have blank : ∀ c ∈ " ".toList ++ "\n".toList, isBlank c = true := by decide
  let r : Release := .ofTriple ⟨1,10,0⟩
  let low : Release := ⟨⟨"1",by decide,by decide⟩,⟨"09",by decide,by decide⟩,⟨"0",by decide,by decide⟩⟩
  let high : Release := .ofTriple ⟨1,9,9⟩
  have short : r.Short := ⟨by decide,by decide,by decide⟩
  have lowShort : low.Short := ⟨by decide,by decide,by decide⟩
  have highShort : high.Short := ⟨by decide,by decide,by decide⟩
  have text : r.text = "1.10.0" := (Release.text_ofTriple _).trans (by decide)
  have highText : high.text = "1.9.9" := (Release.text_ofTriple _).trans (by decide)
  have numbers : r.triple = ⟨1,10,0⟩ := Release.triple_ofTriple _
  have above : low.triple.lex < r.triple.lex := numbers ▸ by decide
  have beyond : ¬(low.triple.lex ≤ r.triple.lex ∧ r.triple.lex ≤ high.triple.lex) := by decide
  obtain ⟨minimum,label,range⟩ :=
    releases_meet_bounds_by_number short lowShort highShort ⟨"rc1",by decide,by decide⟩ blank
  rw [text,decide_eq_true (le_of_lt above)] at minimum
  rw [text,decide_eq_true above] at label
  rw [text,highText,decide_eq_false beyond] at range
  exact ⟨blank,minimum,label,range⟩

/-! Prereleases against their release. -/

/-- How a prerelease compares with its release: from both sides, and as to the release as a minimum. -/
structure Ranked (r : Release) (p : Prerelease) (order : Ordering) : Prop where
  ahead : compareLoose (r.text ++ "-" ++ p.text) r.text = .ok order
  behind : compareLoose r.text (r.text ++ "-" ++ p.text) = .ok order.swap
  minimum : isMet (r.text ++ "-" ++ p.text) (some (">=" ++ r.text)) = .ok order.isGE

theorem exists_reads_prerelease (short : r.Short) (p : Prerelease) :
    ∃ ra, Reads (r.text ++ "-" ++ p.text) ra ∧
      ∀ texts, ra.compare (.version ⟨r.triple,none,none⟩) texts = p.rank := by
  have level : compare r.triple r.triple = .eq := Std.ReflOrd.compare_self
  obtain ⟨first,others⟩ := p
  cases others with
  | nil =>
    rw [Prerelease.text_single]
    refine ⟨_,Release.reads_labelled short first,fun texts => ?_⟩
    rw [compare_prerelease,level]
    rfl
  | cons next others =>
    have pointed : '.' ∈ (Prerelease.text ⟨first,next :: others⟩).toList :=
      Prerelease.pointed_text (List.cons_ne_nil next others)
    exact ⟨_,Release.reads_pointed short (Prerelease.plain_text _) pointed,fun _ => level⟩

theorem ranked_of_short (short : r.Short) (p : Prerelease) : Ranked r p p.rank := by
  obtain ⟨ra,read,order⟩ := exists_reads_prerelease short p
  have ahead : compareLoose (r.text ++ "-" ++ p.text) r.text = .ok p.rank := by
    rw [compareLoose_of_reads read (Release.reads_text short),order]
  exact ⟨ahead,compareLoose_swap ahead,by rw [isMet_from_reads read short,order]⟩

/-- A prerelease stands below its release in every comparison, unless its label has a point in it: then it
passes for the release. Only numerals that are too long keep the comparison from an answer. -/
theorem prerelease_ranked_iff {p : Prerelease} {order : Ordering} :
    Ranked r p order ↔ r.Short ∧ order = p.rank := by
  constructor
  · intro ranked
    obtain ⟨-,⟨_,read⟩⟩ := reads_of_compareLoose ranked.ahead
    have short := Release.short_of_reads read
    exact ⟨short,Except.ok.inj (ranked.ahead.symm.trans (ranked_of_short short p).ahead)⟩
  · rintro ⟨short,rfl⟩
    exact ranked_of_short short p

/-- A release candidate with a number passes for the release. -/
theorem numbered_candidate_meets_release :
    compareLoose "1.0.0-rc.1" "1.0.0" = .ok .eq ∧ compareLoose "1.0.0" "1.0.0-rc.1" = .ok .eq ∧
      isMet "1.0.0-rc.1" (some ">=1.0.0") = .ok true := by
  decide +kernel

end DepAudit.Requirement
