import DepAudit.Proofs.Version.Recognition

/-! What keeps a check of versions from an answer. Numerals are short here, and still a piece of a text can
be taken for a number because of its shape, with a character in it that spells none; this, and nothing else,
ends a check. -/
namespace DepAudit
open Text

namespace Version

/-- Between two points, in front of the labels, all characters have the shape of digits and one is no digit. -/
def Misread (text : String) : Prop :=
  ∃ piece ∈ (looseBase (looseText text)).splitOn '.',
    (∀ c ∈ piece, isDigitLike c = true) ∧ ∃ c ∈ piece, isDecimalDigit c = false

/-! The pieces of a text. -/

theorem looseText_isInfix (text : String) : looseText text <:+: text.toList := by
  have unmarked : ∀ (marks : List String) (cs : List Char),
      marks.foldl (fun cs mark => dropStart mark.toList cs) cs <:+ cs := by
    intro marks
    induction marks with
    | nil => exact List.suffix_refl
    | cons mark marks ih => exact fun cs => (ih _).trans (dropStart_suffix mark.toList cs)
  have unled := (List.dropWhile_suffix (fun c => c = 'v' || c = 'V')).trans
    (unmarked pinMarks (trim text.toList))
  exact unled.isInfix.trans (trim_isInfix _)

theorem looseBase_isInfix (cs : List Char) : looseBase cs <:+: cs :=
  ((List.takeWhile_prefix _).trans (List.takeWhile_prefix _)).isInfix

theorem mem_loosePieces {cs piece : List Char} : piece ∈ loosePieces cs ↔
    piece ∈ cs.splitOn '.' ∧ piece ≠ [] ∧ ∀ c ∈ piece, isDigitLike c = true := by
  rw [loosePieces,List.mem_filter,Bool.and_eq_true,Bool.not_eq_true',List.isEmpty_eq_false_iff,
    List.all_eq_true]

variable {text a b : String}

theorem infix_of_mem_loosePieces {piece : List Char} (kept : piece ∈ loosePieces (looseBase (looseText text))) :
    piece <:+: text.toList :=
  ((infix_of_mem_splitOn (mem_loosePieces.mp kept).1).trans (looseBase_isInfix _)).trans (looseText_isInfix text)

/-! Readings. -/

theorem exists_looseTriple?_iff_mapM : (∃ t?, looseTriple? text = .ok t?) ↔
    ∃ ns, (loosePieces (looseBase (looseText text))).mapM Numeral.read = .ok ns := by
  constructor
  · rintro ⟨t?,read⟩
    obtain ⟨ns,mapped,-⟩ := bind_eq_ok.mp read
    exact ⟨ns,mapped⟩
  · rintro ⟨ns,mapped⟩
    rw [looseTriple?,mapped]
    dsimp only [bind,Except.bind]
    split <;> exact ⟨_,rfl⟩

theorem exists_looseTriple?_iff (short : Numeral.ShortRuns text.toList) :
    (∃ t?, looseTriple? text = .ok t?) ↔ ¬Misread text := by
  rw [exists_looseTriple?_iff_mapM,exists_mapM_eq_ok]
  constructor
  · rintro each ⟨piece,between,shaped,c,member,other⟩
    have kept := mem_loosePieces.mpr ⟨between,List.ne_nil_of_mem member,shaped⟩
    have digits := (short.exists_read_iff (infix_of_mem_loosePieces kept)).mp (each piece kept)
    rw [digits c member] at other
    cases other
  · intro clear piece kept
    obtain ⟨between,-,shaped⟩ := mem_loosePieces.mp kept
    refine (short.exists_read_iff (infix_of_mem_loosePieces kept)).mpr fun c member => ?_
    exact Bool.eq_true_of_not_eq_false fun other => clear ⟨piece,between,shaped,c,member,other⟩

theorem exists_parse? (short : Numeral.ShortRuns text.toList) : ∃ v?, parse? text = .ok v? := by
  cases taken : Parts.ofText? (trim text.toList) with
  | none => exact ⟨none,by rw [parse?,taken]⟩
  | some p =>
    obtain ⟨t,numbers⟩ := Parts.exists_triple taken short
    exact ⟨some (p.versionOf t),by rw [parse?_of_parts taken,numbers]; rfl⟩

theorem exists_reads_iff (short : Numeral.ShortRuns text.toList) : (∃ r, Reads text r) ↔ ¬Misread text := by
  rw [← exists_looseTriple?_iff short]
  constructor
  · rintro ⟨r,read⟩
    exact ⟨r.triple?,read.numbers⟩
  · rintro ⟨t?,numbers⟩
    obtain ⟨v?,version⟩ := exists_parse? short
    exact exists_reads version numbers

theorem exists_compareLoose_iff :
    (∃ o, compareLoose a b = .ok o) ↔ (∃ ra, Reads a ra) ∧ ∃ rb, Reads b rb := by
  constructor
  · rintro ⟨o,compared⟩
    exact reads_of_compareLoose compared
  · rintro ⟨⟨ra,first⟩,⟨rb,second⟩⟩
    exact ⟨_,compareLoose_of_reads first second⟩

theorem exists_compareLoose_iff_of_short (first : Numeral.ShortRuns a.toList)
    (second : Numeral.ShortRuns b.toList) :
    (∃ o, compareLoose a b = .ok o) ↔ ¬Misread a ∧ ¬Misread b := by
  rw [exists_compareLoose_iff,exists_reads_iff first,exists_reads_iff second]

end Version

namespace Requirement
open Version

/-- The bounds that a version is compared with. The upper end of a range is not asked for when the version
stands below the lower one. -/
def bounds (version requirement : String) : List String :=
  if isExact requirement then []
  else match after? ">=".toList (trim requirement.toList) with
  | some bound => [String.ofList (trim bound)]
  | none =>
    match rangeEnds? (trim requirement.toList) with
    | some (low,high) => if isYes (compares version low Ordering.isGE) then [low,high] else [low]
    | none => []

variable {version requirement bound : String}

theorem bounds_isInfix (member : bound ∈ bounds version requirement) :
    bound.toList <:+: requirement.toList := by
  have inside : ∀ {cs : List Char}, cs <:+: trim requirement.toList →
      (String.ofList (trim cs)).toList <:+: requirement.toList := by
    intro cs part
    rw [String.toList_ofList]
    exact ((trim_isInfix cs).trans part).trans (trim_isInfix _)
  rw [bounds] at member
  split at member
  · cases member
  · split at member
    · rename_i rest found
      obtain rfl := List.mem_singleton.mp member
      exact inside ⟨">=".toList,[],(List.append_nil _).trans (after?_eq_some.mp found).symm⟩
    · split at member
      · rename_i low high ends
        obtain ⟨front,back,whole,rfl,rfl⟩ := rangeEnds?_eq_some ends
        have either : bound = String.ofList (trim front) ∨ bound = String.ofList (trim back) := by
          split at member
          · rcases List.mem_cons.mp member with low | later
            · exact .inl low
            · exact .inr (List.mem_singleton.mp later)
          · exact .inl (List.mem_singleton.mp member)
        rcases either with rfl | rfl
        · exact inside ⟨[],"...".toList ++ back,whole.symm⟩
        · exact inside ⟨front ++ "...".toList,[],by rw [whole,List.append_nil,List.append_assoc]⟩
      · cases member

theorem exists_compares_iff {ok : Ordering → Bool} :
    (∃ met, compares version bound ok = .ok met) ↔ ∃ o, compareLoose version bound = .ok o := by
  constructor
  · rintro ⟨met,judged⟩
    obtain ⟨o,compared,-⟩ := map_eq_ok.mp judged
    exact ⟨o,compared⟩
  · rintro ⟨o,compared⟩
    exact ⟨ok o,map_eq_ok.mpr ⟨o,compared,rfl⟩⟩

/-- Of a range the upper end is compared with after the lower one was reached. -/
theorem exists_range_iff {low high : String} :
    (∃ met, (do
      if ← compares version low Ordering.isGE then compares version high Ordering.isLE
      else return false) = .ok met) ↔
    ∀ bound ∈ if isYes (compares version low Ordering.isGE) then [low,high] else [low],
      ∃ o, compareLoose version bound = .ok o := by
  have lower : (∃ o, compareLoose version low = .ok o) ↔
      ∃ met, compares version low Ordering.isGE = .ok met := exists_compares_iff.symm
  cases judged : compares version low Ordering.isGE with
  | error e =>
    rw [isYes,if_neg Bool.false_ne_true,List.forall_mem_singleton,lower,judged]
    constructor
    · rintro ⟨met,never⟩
      cases never
    · rintro ⟨met,never⟩
      cases never
  | ok reached =>
    have answered : ∃ o, compareLoose version low = .ok o := lower.mpr ⟨reached,judged⟩
    cases reached with
    | true =>
      rw [isYes,if_pos rfl,List.forall_mem_cons,List.forall_mem_singleton,and_iff_right answered]
      exact exists_compares_iff
    | false =>
      rw [isYes,if_neg Bool.false_ne_true,List.forall_mem_singleton]
      exact ⟨fun _ => answered,fun _ => ⟨false,rfl⟩⟩

/-- A check has an answer where each of its comparisons has one. -/
theorem exists_isMet_iff_compareLoose : (∃ met, isMet version (some requirement) = .ok met) ↔
    ∀ bound ∈ bounds version requirement, ∃ o, compareLoose version bound = .ok o := by
  rw [isMet,bounds]
  split
  · simp
  · cases after? ">=".toList (trim requirement.toList) with
    | some rest =>
      change _ ↔ ∀ bound ∈ [String.ofList (trim rest)],∃ o, compareLoose version bound = .ok o
      rw [List.forall_mem_singleton]
      exact exists_compares_iff
    | none =>
      cases rangeEnds? (trim requirement.toList) with
      | some ends => exact exists_range_iff
      | none => simp

/-- Where no run of digits is too long, a reading, a comparison and a check have an answer if and only if in
none of the texts that they compare something looks like a number and is none. -/
theorem answers_iff_nothing_misread {version other requirement : String}
    (first : Numeral.ShortRuns version.toList) (second : Numeral.ShortRuns other.toList)
    (third : Numeral.ShortRuns requirement.toList) :
    ((∃ t?, looseTriple? version = .ok t?) ↔ ¬Misread version) ∧
    ((∃ o, compareLoose version other = .ok o) ↔ ¬Misread version ∧ ¬Misread other) ∧
    ((∃ met, isMet version (some requirement) = .ok met) ↔
      ∀ bound ∈ bounds version requirement, ¬Misread version ∧ ¬Misread bound) := by
  refine ⟨exists_looseTriple?_iff first,exists_compareLoose_iff_of_short first second,?_⟩
  rw [exists_isMet_iff_compareLoose]
  refine forall_congr' fun bound => imp_congr_right fun member => ?_
  exact exists_compareLoose_iff_of_short first (third.mono (bounds_isInfix member))

/-- A superscript alone between points leaves no answer, and with a letter beside it does; a circled number in
a bound leaves the check without one, but not where the version stands below the lower end. -/
theorem superscripts_and_circles_are_misread :
    (Numeral.ShortRuns "1.²".toList ∧ Numeral.ShortRuns "1.²x".toList ∧
      Numeral.ShortRuns "1.0.0...①".toList) ∧
    (¬∃ t?, looseTriple? "1.²" = .ok t?) ∧ (¬∃ o, compareLoose "1.²" "1.²x" = .ok o) ∧
    (∃ t?, looseTriple? "1.²x" = .ok t?) ∧ (¬∃ met, isMet "1.²x" (some "1.0.0...①") = .ok met) ∧
    ∃ met, isMet "0.²x" (some "1.0.0...①") = .ok met := by
  have short : ∀ {text : String}, text.toList.length ≤ 9 → Numeral.ShortRuns text.toList :=
    fun few => .of_length (few.trans (by decide))
  have clear : ∀ {text : String} {t? : Option Triple}, text.toList.length ≤ 9 →
      looseTriple? text = .ok t? → ¬Misread text :=
    fun few read => (exists_looseTriple?_iff (short few)).mp ⟨_,read⟩
  have squared : Numeral.ShortRuns "1.²".toList := short (by decide)
  have lettered : Numeral.ShortRuns "1.²x".toList := short (by decide)
  have below : Numeral.ShortRuns "0.²x".toList := short (by decide)
  have circled : Numeral.ShortRuns "1.0.0...①".toList := short (by decide)
  have square : Misread "1.²" := ⟨['²'],by decide +kernel,by decide +kernel,'²',by decide,by decide +kernel⟩
  have circle : Misread "①" := ⟨['①'],by decide +kernel,by decide +kernel,'①',by decide,by decide +kernel⟩
  have letter : ¬Misread "1.²x" := @clear _ none (by decide) (by decide +kernel)
  have letter_ : ¬Misread "0.²x" := @clear _ none (by decide) (by decide +kernel)
  have release : ¬Misread "1.0.0" := @clear _ (some ⟨1,0,0⟩) (by decide) (by decide +kernel)
  have asked : "①" ∈ bounds "1.²x" "1.0.0...①" := by decide +kernel
  have unasked : ∀ bound ∈ bounds "0.²x" "1.0.0...①", bound = "1.0.0" := by decide +kernel
  obtain ⟨read,compared,-⟩ := answers_iff_nothing_misread squared lettered circled
  obtain ⟨read_,-,checked⟩ := answers_iff_nothing_misread lettered squared circled
  obtain ⟨-,-,checked_⟩ := answers_iff_nothing_misread below squared circled
  refine ⟨⟨squared,lettered,circled⟩,fun answer => read.mp answer square,
    fun answer => (compared.mp answer).1 square,read_.mpr letter,
    fun answer => (checked.mp answer "①" asked).2 circle,checked_.mpr fun bound member => ?_⟩
  exact ⟨letter_,unasked bound member ▸ release⟩

/-- A superscript ends a reading, a comparison and a check. -/
theorem superscript_has_no_answer : looseTriple? "1.²" = .error (.notDigit '²') ∧
    compareLoose "1.²" "1.0.0" = .error (.notDigit '²') ∧
    isMet "1.²" (some ">=1.0.0") = .error (.notDigit '²') := by
  decide +kernel

end Requirement

end DepAudit
