import DepAudit.Proofs.Outcome
import DepAudit.Proofs.Text.Slices
import DepAudit.Version.Loose

/-! How much of a version a comparison sees in a text: precedence, only numbers, or neither. A semantic
version has the same numbers when it is read loosely, so that a text is seen alike in every comparison. -/
namespace DepAudit.Version
open Text

/-! The parts of a version text. -/

def IsNumeral (cs : List Char) : Prop := cs ≠ [] ∧ ∀ c ∈ cs, isDecimalDigit c = true

def IsLabel (cs : List Char) : Prop := cs ≠ [] ∧ ∀ c ∈ cs, isLabelChar c = true

def labelled (mark : Char) : Option (List Char) → List Char
  | none => []
  | some label => mark :: label

theorem IsNumeral.no_point {cs : List Char} (numeral : IsNumeral cs) : '.' ∉ cs := fun inside => by
  have digit := numeral.2 _ inside
  have point : isDecimalDigit '.' = false := by decide +kernel
  rw [point] at digit
  cases digit

theorem IsLabel.no_point {cs : List Char} (label : IsLabel cs) : '.' ∉ cs := fun inside => by
  cases label.2 _ inside

theorem IsNumeral.kept {cs : List Char} (numeral : IsNumeral cs) :
    (!cs.isEmpty && cs.all isDigitLike) = true := by
  rw [List.isEmpty_eq_false_iff.mpr numeral.1]
  exact List.all_eq_true.mpr fun c inside => Bool.or_eq_true_iff.mpr (.inl (numeral.2 c inside))

section

variable {p : Char → Bool} {mark : Char} {cs run rest : List Char} {label : Option (List Char)}

theorem takeRun?_eq_some (taken : takeRun? p cs = some (run,rest)) :
    cs = run ++ rest ∧ run ≠ [] ∧ ∀ c ∈ run, p c = true := by
  rw [takeRun?] at taken
  split at taken
  · cases taken
  · rename_i filled
    obtain ⟨rfl,rfl⟩ := Prod.mk.inj (Option.some.inj taken)
    exact ⟨List.takeWhile_append_dropWhile.symm,filled,fun c => List.mem_takeWhile_imp⟩

theorem takeRun?_append (filled : run ≠ []) (all : ∀ c ∈ run, p c = true)
    (stops : ∀ c ∈ rest.head?, p c = false) : takeRun? p (run ++ rest) = some (run,rest) := by
  have run_ : (run ++ rest).takeWhile p = run := by
    rw [List.takeWhile_append_of_pos all]
    cases rest with
    | nil => exact List.append_nil run
    | cons c rest => simp [stops c rfl]
  have rest_ : (run ++ rest).dropWhile p = rest := by
    have whole := List.takeWhile_append_dropWhile (p := p) (l := run ++ rest)
    rw [run_] at whole
    exact List.append_cancel_left whole
  rw [takeRun?,run_,rest_]
  obtain ⟨c,cs,rfl⟩ := List.exists_cons_of_ne_nil filled
  rfl

theorem takePointed?_eq_some (taken : takePointed? cs = some (run,rest)) :
    cs = run ++ '.' :: rest ∧ IsNumeral run := by
  rw [takePointed?] at taken
  split at taken
  · rename_i taken_
    obtain ⟨rfl,rfl⟩ := Prod.mk.inj (Option.some.inj taken)
    obtain ⟨rfl,numeral⟩ := takeRun?_eq_some taken_
    exact ⟨rfl,numeral⟩
  · cases taken

theorem takePointed?_append (numeral : IsNumeral run) (rest : List Char) :
    takePointed? (run ++ '.' :: rest) = some (run,rest) := by
  have stops : ∀ c ∈ ('.' :: rest).head?, isDecimalDigit c = false := by
    rintro c ⟨⟩
    decide +kernel
  rw [takePointed?,takeRun?_append numeral.1 numeral.2 stops]
  rfl

theorem takeLabel?_eq_some (taken : takeLabel? mark cs = some (label,rest)) :
    cs = labelled mark label ++ rest ∧ ∀ text ∈ label, IsLabel text := by
  cases cs with
  | nil =>
    obtain ⟨rfl,rfl⟩ := Prod.mk.inj (Option.some.inj taken)
    exact ⟨rfl,nofun⟩
  | cons c cs =>
    rw [takeLabel?] at taken
    split at taken
    · rename_i marked
      obtain ⟨⟨run,rest_⟩,taken_,same⟩ := Option.map_eq_some_iff.mp taken
      obtain ⟨rfl,rfl⟩ := Prod.mk.inj same
      obtain ⟨rfl,sound⟩ := takeRun?_eq_some taken_
      refine ⟨by rw [marked]; rfl,?_⟩
      rintro text ⟨⟩
      exact sound
    · obtain ⟨rfl,rfl⟩ := Prod.mk.inj (Option.some.inj taken)
      exact ⟨rfl,nofun⟩

theorem takeLabel?_append (sound : ∀ text ∈ label, IsLabel text)
    (stops : ∀ c ∈ rest.head?, c ≠ mark ∧ isLabelChar c = false) :
    takeLabel? mark (labelled mark label ++ rest) = some (label,rest) := by
  cases label with
  | none =>
    cases rest with
    | nil => rfl
    | cons c rest => exact if_neg (stops c rfl).1
  | some text =>
    have taken := takeRun?_append (sound text rfl).1 (sound text rfl).2 fun c next => (stops c next).2
    rw [labelled,List.cons_append,takeLabel?,if_pos rfl,taken]
    rfl

end

namespace Parts

def core (p : Parts) : List Char := p.major ++ '.' :: (p.minor ++ '.' :: p.patch)

def labels (p : Parts) : List Char := labelled '-' p.prerelease ++ labelled '+' p.build

def chars (p : Parts) : List Char := p.core ++ p.labels

structure Numeric (p : Parts) : Prop where
  major : IsNumeral p.major
  minor : IsNumeral p.minor
  patch : IsNumeral p.patch

structure Proper (p : Parts) : Prop extends p.Numeric where
  prerelease : ∀ label ∈ p.prerelease, IsLabel label
  build : ∀ label ∈ p.build, IsLabel label

theorem head_build {build : Option (List Char)} : ∀ c ∈ (labelled '+' build).head?, c = '+' := by
  rintro c marked
  cases build <;> cases marked
  rfl

theorem head_labels (p : Parts) : ∀ c ∈ p.labels.head?, c = '-' ∨ c = '+' := by
  rintro c marked
  rw [labels] at marked
  cases prerelease : p.prerelease with
  | none =>
    rw [prerelease] at marked
    exact .inr (head_build c marked)
  | some label =>
    rw [prerelease] at marked
    cases marked
    exact .inl rfl

theorem spelled {cs : List Char} {p : Parts} (read : ofText? cs = some p) : p.Proper ∧ cs = p.chars := by
  obtain ⟨⟨major,first⟩,taken₁,read₁⟩ := Option.bind_eq_some_iff.mp read
  obtain ⟨rfl,major_⟩ := takePointed?_eq_some taken₁
  obtain ⟨⟨minor,second⟩,taken₂,read₂⟩ := Option.bind_eq_some_iff.mp read₁
  obtain ⟨rfl,minor_⟩ := takePointed?_eq_some taken₂
  obtain ⟨⟨patch,labels⟩,taken₃,read₃⟩ := Option.bind_eq_some_iff.mp read₂
  obtain ⟨rfl,patch_⟩ := takeRun?_eq_some taken₃
  obtain ⟨⟨prerelease,last⟩,taken₄,read₄⟩ := Option.bind_eq_some_iff.mp read₃
  obtain ⟨rfl,prerelease_⟩ := takeLabel?_eq_some taken₄
  obtain ⟨⟨build,rest⟩,taken₅,read₅⟩ := Option.bind_eq_some_iff.mp read₄
  obtain ⟨rfl,build_⟩ := takeLabel?_eq_some taken₅
  obtain ⟨_,ended,same⟩ := Option.bind_eq_some_iff.mp read₅
  rw [Option.guard_eq_some',List.isEmpty_iff] at ended
  obtain rfl := Option.some.inj same
  exact ⟨⟨⟨major_,minor_,patch_⟩,prerelease_,build_⟩,by simp [chars,core,Parts.labels,ended]⟩

theorem ofText?_chars {p : Parts} (proper : p.Proper) : ofText? p.chars = some p := by
  obtain ⟨⟨major,minor,patch⟩,prerelease,build⟩ := proper
  have digits : ∀ c ∈ p.labels.head?, isDecimalDigit c = false := by
    intro c marked
    rcases head_labels p c marked with rfl | rfl <;> decide +kernel
  -- a prerelease ends at the mark of the build, which no label can hold
  have plus : ∀ c ∈ (labelled '+' p.build).head?, c ≠ '-' ∧ isLabelChar c = false := by
    intro c marked
    rw [head_build c marked]
    decide
  have built : takeLabel? '+' (labelled '+' p.build ++ []) = some (p.build,[]) :=
    takeLabel?_append build nofun
  rw [List.append_nil] at built
  have text : p.chars = p.major ++ '.' :: (p.minor ++ '.' :: (p.patch ++ p.labels)) := by
    simp [chars,core]
  rw [ofText?,text,takePointed?_append major]
  dsimp only [Option.bind_eq_bind,Option.bind_some]
  rw [takePointed?_append minor]
  dsimp only [Option.bind_some]
  rw [takeRun?_append patch.1 patch.2 digits]
  dsimp only [Option.bind_some]
  rw [labels,takeLabel?_append prerelease plus]
  dsimp only [Option.bind_some]
  rw [built]
  rfl

/-- A version text is taken apart into its numbers and its labels, and no other text is. -/
theorem ofText?_eq_some_iff {cs : List Char} {p : Parts} :
    ofText? cs = some p ↔ p.Proper ∧ cs = p.chars := by
  constructor
  · exact spelled
  · rintro ⟨proper,rfl⟩
    exact ofText?_chars proper

variable {p : Parts}

theorem mem_core (numeric : p.Numeric) {c : Char} (member : c ∈ p.core) :
    isDecimalDigit c = true ∨ c = '.' := by
  obtain ⟨⟨_,major⟩,⟨_,minor⟩,⟨_,patch⟩⟩ := numeric
  simp only [core,List.mem_append,List.mem_cons] at member
  rcases member with inside | rfl | inside | rfl | inside
  · exact .inl (major c inside)
  · exact .inr rfl
  · exact .inl (minor c inside)
  · exact .inr rfl
  · exact .inl (patch c inside)

theorem pieces_core (numeric : p.Numeric) : loosePieces p.core = [p.major,p.minor,p.patch] := by
  have split : p.core.splitOn '.' = [p.major,p.minor,p.patch] := by
    rw [core,List.splitOn_append_cons_self,List.splitOn_append_cons_self,
      List.splitOn_eq_singleton numeric.major.no_point,List.splitOn_eq_singleton numeric.minor.no_point,
      List.splitOn_eq_singleton numeric.patch.no_point]
    rfl
  have kept : ∀ piece ∈ [p.major,p.minor,p.patch],
      (!piece.isEmpty && piece.all isDigitLike) = true := by
    rintro piece (_ | ⟨_,_ | ⟨_,_ | ⟨_,nowhere⟩⟩⟩)
    · exact numeric.major.kept
    · exact numeric.minor.kept
    · exact numeric.patch.kept
    · cases nowhere
  rw [loosePieces,split,List.filter_eq_self.mpr kept]

theorem looseBase_core (numeric : p.Numeric) {labels : List Char}
    (marked : ∀ c ∈ labels.head?, c = '-' ∨ c = '+') : looseBase (p.core ++ labels) = p.core := by
  have inside : ∀ {mark : Char}, isDecimalDigit mark = false → mark ≠ '.' →
      ∀ c ∈ p.core, decide (c ≠ mark) = true := by
    rintro mark digit point c member
    refine decide_eq_true fun same => ?_
    subst same
    rcases mem_core numeric member with inside | inside
    · rw [digit] at inside
      cases inside
    · exact point inside
  rw [looseBase,List.takeWhile_append_of_pos (inside (by decide +kernel) (by decide)),
    List.takeWhile_append_of_pos (inside (by decide +kernel) (by decide))]
  cases labels with
  | nil => exact List.append_nil _
  | cons c rest =>
    rcases marked c rfl with rfl | rfl <;> simp

theorem exists_digit (numeric : p.Numeric) (labels : List Char) :
    ∃ c rest, p.core ++ labels = c :: rest ∧ isDecimalDigit c = true := by
  obtain ⟨c,rest,digits⟩ := List.exists_cons_of_ne_nil numeric.major.1
  refine ⟨c,rest ++ '.' :: (p.minor ++ '.' :: p.patch) ++ labels,?_,
    numeric.major.2 c (digits ▸ List.mem_cons_self ..)⟩
  rw [core,digits]
  rfl

/-- A version text starts with a digit, which other marks do not. -/
theorem after?_core (numeric : p.Numeric) {mark : Char} (other : isDecimalDigit mark = false)
    (marks labels : List Char) : after? (mark :: marks) (p.core ++ labels) = none := by
  obtain ⟨c,rest,starts,digit⟩ := exists_digit numeric labels
  rw [starts]
  refine after?_of_ne (fun same => ?_) marks rest
  rw [same,digit] at other
  cases other

theorem looseText_core (numeric : p.Numeric) {text : String} {labels : List Char}
    (spelled : trim text.toList = p.core ++ labels) : looseText text = p.core ++ labels := by
  have unpinned : ∀ {mark : Char} (marks : List Char), isDecimalDigit mark = false →
      dropStart (mark :: marks) (p.core ++ labels) = p.core ++ labels := by
    intro mark marks other
    rw [dropStart,after?_core numeric other]
    rfl
  have branch : "branch: ".toList = 'b' :: "ranch: ".toList := by decide +kernel
  have revision : "revision: ".toList = 'r' :: "evision: ".toList := by decide +kernel
  obtain ⟨c,rest,starts,digit⟩ := exists_digit numeric labels
  -- both pin marks start with a letter, so that neither is found in front of a digit
  rw [looseText,spelled,pinMarks,List.foldl_cons,List.foldl_cons,List.foldl_nil,branch,revision,
    unpinned _ (by decide +kernel),unpinned _ (by decide +kernel),starts]
  refine List.dropWhile_cons_of_neg fun letter => ?_
  rcases Bool.or_eq_true_iff.mp letter with same | same
  · rw [of_decide_eq_true same] at digit
    revert digit
    decide +kernel
  · rw [of_decide_eq_true same] at digit
    revert digit
    decide +kernel

/-! Points. -/

theorem no_point_labelled {mark : Char} (other : '.' ≠ mark) {label : Option (List Char)}
    (sound : ∀ text ∈ label, IsLabel text) : '.' ∉ labelled mark label := by
  cases label with
  | none => exact List.not_mem_nil
  | some text =>
    intro inside
    rcases List.mem_cons.mp inside with same | inside
    · exact other same
    · exact (sound text rfl).no_point inside

theorem no_point_labels (proper : p.Proper) : '.' ∉ p.labels := by
  rw [labels,List.mem_append,not_or]
  exact ⟨no_point_labelled (by decide) proper.prerelease,no_point_labelled (by decide) proper.build⟩

theorem count_core (numeric : p.Numeric) : p.core.count '.' = 2 := by
  have major := List.count_eq_zero.mpr numeric.major.no_point
  have minor := List.count_eq_zero.mpr numeric.minor.no_point
  have patch := List.count_eq_zero.mpr numeric.patch.no_point
  simp [core,major,minor,patch]

theorem count_chars (proper : p.Proper) : p.chars.count '.' = 2 := by
  rw [chars,List.count_append,count_core proper.toNumeric,
    List.count_eq_zero.mpr (no_point_labels proper)]

theorem ofText?_eq_none {cs : List Char} (points : cs.count '.' ≠ 2) : ofText? cs = none := by
  cases read : ofText? cs with
  | none => rfl
  | some p =>
    obtain ⟨proper,rfl⟩ := spelled read
    exact absurd (count_chars proper) points

/-- No two points of a version stand side by side. -/
theorem silent_chars (proper : p.Proper) : Silent (fun _ => after? "...".toList) p.chars := by
  have points : "...".toList = ['.','.','.'] := by decide
  rw [points]
  have pointless : ∀ {cs : List Char}, '.' ∉ cs → Silent (fun _ => after? ['.','.','.']) cs := by
    intro cs absent
    apply silent_of_heads
    intro c member _ rest
    have visible : '.' ≠ c := fun same => absent (same ▸ member)
    exact after?_of_ne visible _ rest
  have pointed : ∀ {run : List Char}, IsNumeral run →
      Silent (fun _ => after? ['.','.','.']) ('.' :: run) := by
    intro run numeral before back
    refine ⟨?_,pointless numeral.no_point _ _⟩
    obtain ⟨c,cs,rfl⟩ := List.exists_cons_of_ne_nil numeral.1
    have visible : '.' ≠ c := fun same => numeral.no_point (same ▸ List.mem_cons_self ..)
    exact after?_of_ne visible _ (cs ++ back)
  have numbers := (pointless proper.major.no_point).append
    ((pointed proper.minor).append (pointed proper.patch))
  exact numbers.append (pointless (no_point_labels proper))

/-! Numbers. -/

def triple (p : Parts) : Except NumeralError Triple := do
  return ⟨← Numeral.read p.major,← Numeral.read p.minor,← Numeral.read p.patch⟩

def versionOf (p : Parts) (t : Triple) : Version :=
  ⟨t,p.prerelease.map String.ofList,p.build.map String.ofList⟩

theorem version_eq (p : Parts) : p.version = p.triple.map p.versionOf := by
  rw [version,triple]
  cases Numeral.read p.major <;> cases Numeral.read p.minor <;> cases Numeral.read p.patch <;> rfl

/-- The numbers in front of labels are those that a loose reading finds. -/
theorem looseTriple?_core (numeric : p.Numeric) {text : String} {labels : List Char}
    (spelled : trim text.toList = p.core ++ labels) (marked : ∀ c ∈ labels.head?, c = '-' ∨ c = '+') :
    looseTriple? text = p.triple.map some := by
  rw [looseTriple?,p.looseText_core numeric spelled,looseBase_core numeric marked,
    pieces_core numeric,triple]
  cases major : Numeral.read p.major <;> cases minor : Numeral.read p.minor <;>
    cases patch : Numeral.read p.patch <;> simp [major,minor,patch] <;> rfl

end Parts

/-! Semantic versions. -/

theorem parse?_trim (text : String) : parse? (String.ofList (trim text.toList)) = parse? text := by
  rw [parse?,String.toList_ofList,trim_trim,← parse?]

theorem looseTriple?_trim (text : String) :
    looseTriple? (String.ofList (trim text.toList)) = looseTriple? text := by
  rw [looseTriple?,looseText,String.toList_ofList,trim_trim,← looseText,← looseTriple?]

section

variable {text : String} {p : Parts}

theorem parse?_of_parts (taken : Parts.ofText? (trim text.toList) = some p) :
    parse? text = p.triple.map fun t => some (p.versionOf t) := by
  rw [parse?,taken]
  change p.version.map some = _
  rw [Parts.version_eq]
  cases p.triple <;> rfl

theorem looseTriple?_of_parts (taken : Parts.ofText? (trim text.toList) = some p) :
    looseTriple? text = p.triple.map some := by
  obtain ⟨proper,spelled⟩ := Parts.spelled taken
  exact Parts.looseTriple?_core proper.toNumeric spelled p.head_labels

theorem parts_of_parse? {v : Version} (read : parse? text = .ok (some v)) :
    ∃ p t, Parts.ofText? (trim text.toList) = some p ∧ p.triple = .ok t ∧ p.versionOf t = v := by
  cases taken : Parts.ofText? (trim text.toList) with
  | none =>
    rw [parse?,taken] at read
    cases read
  | some p =>
    rw [parse?_of_parts taken] at read
    obtain ⟨t,numbers,same⟩ := map_eq_ok.mp read
    exact ⟨p,t,rfl,numbers,Option.some.inj same⟩

/-- A semantic version has the same numbers when it is read loosely. -/
theorem looseTriple?_of_parse? {v : Version} (read : parse? text = .ok (some v)) :
    looseTriple? text = .ok (some v.triple) := by
  obtain ⟨p,t,taken,numbers,rfl⟩ := parts_of_parse? read
  rw [looseTriple?_of_parts taken,numbers]
  rfl

/-- A text without three numbers is no semantic version. -/
theorem parse?_of_looseTriple?_none (read : looseTriple? text = .ok none) : parse? text = .ok none := by
  cases taken : Parts.ofText? (trim text.toList) with
  | none => rw [parse?,taken]
  | some p =>
    rw [looseTriple?_of_parts taken] at read
    obtain ⟨t,-,same⟩ := map_eq_ok.mp read
    cases same

end

/-! What a comparison sees. -/

/-- What a comparison sees of a text: a version, only numbers, or nothing but the text. -/
inductive Reading where
  | version (v : Version)
  | numbers (t : Triple)
  | plain

namespace Reading

def version? : Reading → Option Version
  | version v => some v
  | numbers _ => none
  | plain => none

def triple? : Reading → Option Triple
  | version v => some v.triple
  | numbers t => some t
  | plain => none

def compareTriples (a b : Reading) (texts : Ordering) : Ordering :=
  match a.triple?,b.triple? with
  | some a,some b => compare a b
  | _,_ => texts

protected def compare (a b : Reading) (texts : Ordering) : Ordering :=
  match a.version?,b.version? with
  | some a,some b => compare a b
  | _,_ => a.compareTriples b texts

end Reading

structure Reads (text : String) (r : Reading) : Prop where
  version : parse? text = .ok r.version?
  numbers : looseTriple? text = .ok r.triple?

variable {text a b : String} {ra rb : Reading}

theorem exists_reads {version? : Option Version} {triple? : Option Triple}
    (version : parse? text = .ok version?) (numbers : looseTriple? text = .ok triple?) :
    ∃ r, Reads text r := by
  cases version? with
  | some v => exact ⟨.version v,version,looseTriple?_of_parse? version⟩
  | none =>
    cases triple? with
    | some t => exact ⟨.numbers t,version,numbers⟩
    | none => exact ⟨.plain,version,numbers⟩

theorem Reads.unique (first : Reads text ra) (second : Reads text rb) : ra = rb := by
  have version := Except.ok.inj (first.version.symm.trans second.version)
  have numbers := Except.ok.inj (first.numbers.symm.trans second.numbers)
  cases ra <;> cases rb <;> cases version <;> cases numbers <;> rfl

/-- The blanks around a text are not read. -/
theorem Reads.of_trim {text : String} {r : Reading}
    (read : Reads (String.ofList (trim text.toList)) r) : Reads text r :=
  ⟨parse?_trim text ▸ read.version,looseTriple?_trim text ▸ read.numbers⟩

theorem compareByTriple_of_reads (first : Reads a ra) (second : Reads b rb) :
    compareByTriple a b = .ok (ra.compareTriples rb (compare a b)) := by
  rw [compareByTriple,first.numbers,second.numbers,Reading.compareTriples]
  cases ra.triple? <;> cases rb.triple? <;> rfl

theorem compareLoose_of_reads (first : Reads a ra) (second : Reads b rb) :
    compareLoose a b = .ok (ra.compare rb (compare a b)) := by
  rw [compareLoose,first.version,second.version,compareByTriple_of_reads first second,Reading.compare]
  cases ra.version? <;> cases rb.version? <;> rfl

/-- A comparison comes to its end only when both texts can be read. -/
theorem reads_of_compareLoose {o : Ordering} (compared : compareLoose a b = .ok o) :
    (∃ ra, Reads a ra) ∧ ∃ rb, Reads b rb := by
  obtain ⟨va,first,rest⟩ := bind_eq_ok.mp compared
  obtain ⟨vb,second,decided⟩ := bind_eq_ok.mp rest
  have numbers : (∃ ta, looseTriple? a = .ok ta) ∧ ∃ tb, looseTriple? b = .ok tb := by
    split at decided
    · exact ⟨⟨_,looseTriple?_of_parse? first⟩,⟨_,looseTriple?_of_parse? second⟩⟩
    · obtain ⟨ta,readA,others⟩ := bind_eq_ok.mp decided
      obtain ⟨tb,readB,_⟩ := bind_eq_ok.mp others
      exact ⟨⟨ta,readA⟩,⟨tb,readB⟩⟩
  obtain ⟨⟨ta,readA⟩,⟨tb,readB⟩⟩ := numbers
  exact ⟨exists_reads first readA,exists_reads second readB⟩

end DepAudit.Version
