import DepAudit.Proofs.Text.Search

/-! Texts without the blanks at their ends, and texts cut at a mark. -/
namespace DepAudit.Text

variable {p : Char → Bool}

/-! Blanks at the two ends of a text. -/

theorem dropEndWhile_append {back : List Char} (all : ∀ c ∈ back, p c = true) (cs : List Char) :
    dropEndWhile p (cs ++ back) = dropEndWhile p cs := by
  have mirrored : ∀ c ∈ back.reverse, p c = true := fun c member => all c (List.mem_reverse.mp member)
  rw [dropEndWhile,List.reverse_append,List.dropWhile_append_of_pos mirrored,dropEndWhile]

theorem dropEndWhile_cons {c : Char} (kept : p c = false) (cs : List Char) :
    dropEndWhile p (c :: cs) = c :: dropEndWhile p cs := by
  have last : [c].dropWhile p = [c] := List.dropWhile_cons_of_neg (ne_true_of_eq_false kept)
  rw [dropEndWhile,List.reverse_cons,List.dropWhile_append,last,dropEndWhile]
  split
  · rename_i all
    rw [List.isEmpty_iff.mp all]
    rfl
  · rw [List.reverse_append]
    rfl

theorem dropEndWhile_of_none {cs : List Char} (kept : ∀ c ∈ cs, p c = false) :
    dropEndWhile p cs = cs := by
  induction cs with
  | nil => rfl
  | cons c cs ih =>
    obtain ⟨here,later⟩ := List.forall_mem_cons.mp kept
    rw [dropEndWhile_cons here,ih later]

theorem dropEndWhile_append_of_none {back : List Char} (filled : back ≠ [])
    (kept : ∀ c ∈ back, p c = false) (front : List Char) :
    dropEndWhile p (front ++ back) = front ++ back := by
  obtain ⟨back,last,rfl⟩ := (List.eq_nil_or_concat back).resolve_left filled
  have stays : p last ≠ true := ne_true_of_eq_false (kept last (by simp))
  rw [dropEndWhile,List.concat_eq_append,← List.append_assoc,List.reverse_append,
    List.reverse_singleton,List.singleton_append,List.dropWhile_cons_of_neg stays,List.reverse_cons,
    List.reverse_reverse]

theorem exists_dropEndWhile (cs : List Char) :
    ∃ back, cs = dropEndWhile p cs ++ back ∧ ∀ c ∈ back, p c = true := by
  refine ⟨(cs.reverse.takeWhile p).reverse,?_,fun c member => ?_⟩
  · rw [dropEndWhile,← List.reverse_append,List.takeWhile_append_dropWhile,List.reverse_reverse]
  · exact List.mem_takeWhile_imp (List.mem_reverse.mp member)

theorem trim_eq (cs : List Char) : trim cs = dropEndWhile isBlank (skipBlanks cs) := rfl

theorem trim_append {back : List Char} (blank : ∀ c ∈ back, isBlank c = true) (cs : List Char) :
    trim (cs ++ back) = trim cs := by
  rw [trim_eq,trim_eq,skipBlanks,List.dropWhile_append,List.dropWhile_eq_nil_iff.mpr blank]
  split
  · rename_i blanks
    rw [skipBlanks,List.isEmpty_iff.mp blanks]
  · exact dropEndWhile_append blank _

theorem trim_prepend {front : List Char} (blank : ∀ c ∈ front, isBlank c = true) (cs : List Char) :
    trim (front ++ cs) = trim cs := by
  rw [trim_eq,trim_eq,skipBlanks,List.dropWhile_append_of_pos blank,skipBlanks]

theorem trim_dropEndWhile (cs : List Char) : trim (dropEndWhile isBlank cs) = trim cs := by
  obtain ⟨back,whole,blank⟩ := exists_dropEndWhile (p := isBlank) cs
  calc trim (dropEndWhile isBlank cs) = trim (dropEndWhile isBlank cs ++ back) :=
        (trim_append blank _).symm
    _ = trim cs := by rw [← whole]

theorem trim_skipBlanks (cs : List Char) : trim (skipBlanks cs) = trim cs := by
  have twice : skipBlanks (skipBlanks cs) = skipBlanks cs := List.dropWhile_idempotent _ cs
  rw [trim,twice,trim]

theorem trim_trim (cs : List Char) : trim (trim cs) = trim cs :=
  (trim_dropEndWhile (skipBlanks cs)).trans (trim_skipBlanks cs)

theorem trim_of_visible {cs : List Char} (visible : ∀ c ∈ cs, isBlank c = false) : trim cs = cs := by
  have start : skipBlanks cs = cs := by
    cases cs with
    | nil => rfl
    | cons c cs => exact skipBlanks_cons (visible c (List.mem_cons_self ..)) cs
  rw [trim_eq,start,dropEndWhile_of_none visible]

theorem exists_trim (cs : List Char) : ∃ front back, cs = front ++ (trim cs ++ back) ∧
    ∀ c ∈ front ++ back, isBlank c = true := by
  obtain ⟨back,rest,behind⟩ := exists_dropEndWhile (p := isBlank) (skipBlanks cs)
  refine ⟨cs.takeWhile isBlank,back,?_,List.forall_mem_append.mpr ⟨fun c => List.mem_takeWhile_imp,behind⟩⟩
  rw [trim_eq,← rest,skipBlanks,List.takeWhile_append_dropWhile]

theorem trim_isInfix (cs : List Char) : trim cs <:+: cs := by
  obtain ⟨front,back,whole,-⟩ := exists_trim cs
  exact ⟨front,back,(List.append_assoc ..).trans whole.symm⟩

/-! Marks somewhere in a text. -/

theorem startsWith_iff {mark cs : List Char} : startsWith mark cs = true ↔ mark <+: cs := by
  rw [startsWith,Option.isSome_iff_exists]
  exact exists_congr fun rest => after?_eq_some.trans eq_comm

theorem occurs_iff {mark cs : List Char} : occurs mark cs = true ↔ mark <:+: cs := by
  induction cs with
  | nil => rw [occurs,List.isEmpty_iff,List.infix_nil]
  | cons c cs ih => rw [occurs,Bool.or_eq_true,startsWith_iff,ih,List.infix_cons_iff]

def Apart (mark cs : List Char) : Prop := ∀ tail ∈ mark.tails, tail <+: cs → tail = [] ∨ tail = mark

instance (mark cs : List Char) : Decidable (Apart mark cs) :=
  inferInstanceAs (Decidable (∀ tail ∈ mark.tails, _))

theorem apart_of_foreign {mark : List Char} {sign : Char} (foreign : sign ∉ mark) (cs : List Char) :
    Apart mark (sign :: cs) := by
  intro tail member start
  cases tail with
  | nil => exact .inl rfl
  | cons c tail =>
    obtain rfl : c = sign := (List.cons_prefix_cons.mp start).1
    exact absurd (((List.mem_tails _ _).mp member).subset (List.mem_cons_self ..)) foreign

theorem Apart.append {mark : List Char} (apart : Apart mark mark) (cs : List Char) :
    Apart mark (mark ++ cs) := fun tail member start =>
  apart tail member (List.prefix_of_prefix_length_le start (List.prefix_append ..)
    ((List.mem_tails _ _).mp member).length_le)

theorem infix_append_iff_of_apart {mark front back : List Char} (apart : Apart mark back) :
    mark <:+: front ++ back ↔ mark <:+: front ∨ mark <:+: back := by
  rw [List.infix_append_iff_ne_nil]
  refine or_congr_right (or_iff_left ?_)
  rintro ⟨head,tail,some_,more,rfl,_,start⟩
  rcases apart tail ((List.mem_tails _ _).mpr (List.suffix_append ..)) start with none | whole
  · exact more none
  · exact some_ (List.self_eq_append_left.mp whole)

theorem infix_around_sign {mark front back : List Char} {sign : Char} (filled : mark ≠ [])
    (foreign : sign ∉ mark) :
    mark <:+: front ++ sign :: back ↔ mark <:+: front ∨ mark <:+: back := by
  rw [infix_append_iff_of_apart (apart_of_foreign foreign back),List.infix_cons_iff]
  refine or_congr_right (or_iff_right fun start => ?_)
  rcases apart_of_foreign foreign back mark (by simp) start with none | _
  · exact filled none
  · obtain ⟨m,ms,rfl⟩ := List.exists_cons_of_ne_nil filled
    exact foreign ((List.cons_prefix_cons.mp start).1 ▸ List.mem_cons_self ..)

theorem misses_of_absent {mark front back : List Char} (absent : ¬mark <:+: front)
    (apart : Apart mark back) (before : Option Char) :
    Misses (fun _ => after? mark) before front back := by
  refine misses_of_suffixes fun _ c rest suffix => ?_
  cases read : after? mark (c :: (rest ++ back)) with
  | none => rfl
  | some behind =>
    have whole : (c :: rest) ++ back = mark ++ behind := after?_eq_some.mp read
    rcases List.append_eq_append_iff.mp whole with ⟨tail,split,start⟩ | ⟨more,inside,_⟩
    · have ends : tail ∈ mark.tails := (List.mem_tails _ _).mpr ⟨c :: rest,split.symm⟩
      rcases apart tail ends ⟨behind,start.symm⟩ with rfl | rfl
      · rw [List.append_nil] at split
        exact absurd (split ▸ suffix.isInfix) absent
      · exact absurd (List.self_eq_append_left.mp split) (List.cons_ne_nil _ _)
    · have within : mark <+: c :: rest := ⟨more,inside.symm⟩
      exact absurd (within.isInfix.trans suffix.isInfix) absent

/-- In front of its first occurrence a mark is missed, whatever comes behind it. -/
theorem exists_first_mark {mark cs : List Char} (inside : mark <:+: cs) (before : Option Char) :
    ∃ front back, cs = front ++ (mark ++ back) ∧
      ∀ behind, Misses (fun _ => after? mark) before front (mark ++ behind) := by
  induction cs generalizing before with
  | nil => exact ⟨[],[],by simp [List.infix_nil.mp inside],fun _ => trivial⟩
  | cons c cs ih =>
    by_cases start : mark <+: c :: cs
    · obtain ⟨back,whole⟩ := start
      exact ⟨[],back,whole.symm,fun _ => trivial⟩
    · obtain ⟨front,back,rfl,misses⟩ := ih ((List.infix_cons_iff.mp inside).resolve_left start) (some c)
      refine ⟨c :: front,back,rfl,fun behind => ⟨?_,misses behind⟩⟩
      cases read : after? mark (c :: (front ++ (mark ++ behind))) with
      | none => exact read
      | some rest =>
        -- The mark at `c` would end with the one behind `front` at the latest.
        have known : c :: front ++ mark <+: c :: (front ++ (mark ++ behind)) := ⟨behind,by simp⟩
        have short : mark <+: c :: front ++ mark :=
          List.prefix_of_prefix_length_le ⟨rest,(after?_eq_some.mp read).symm⟩ known (by simp; omega)
        exact absurd (short.trans ⟨back,by simp⟩) start

/-! Texts cut at a mark. -/

variable {mark front back : List Char}

private theorem piecesFrom_skip (skipped cs : List Char) :
    piecesFrom mark skipped.length (skipped ++ cs) = pieces mark cs := by
  induction skipped with
  | nil => rfl
  | cons c skipped ih => exact ih

/-- A character with which no mark starts goes to the first piece of what follows. -/
private theorem pieces_cons {c : Char} {cs piece : List Char} {others : List (List Char)}
    (unmarked : after? mark (c :: cs) = none) (rest : pieces mark cs = piece :: others) :
    pieces mark (c :: cs) = (c :: piece) :: others := by
  have unstarted : startsWith mark (c :: cs) = false := by rw [startsWith,unmarked]; rfl
  rw [pieces] at rest
  rw [pieces,piecesFrom,unstarted,rest]
  rfl

private theorem pieces_of_misses_append {piece : List Char} {others : List (List Char)}
    {before : Option Char} (misses : Misses (fun _ => after? mark) before front back)
    (rest : pieces mark back = piece :: others) :
    pieces mark (front ++ back) = (front ++ piece) :: others := by
  induction front generalizing before with
  | nil => exact rest
  | cons c front ih => exact pieces_cons misses.1 (ih misses.2)

/-- A text in which the mark does not stand is not cut. -/
theorem pieces_of_misses {before : Option Char}
    (misses : Misses (fun _ => after? mark) before front []) : pieces mark front = [front] := by
  have cut := pieces_of_misses_append misses (rfl : pieces mark [] = [[]])
  rwa [List.append_nil] at cut

/-- The first cut is made where the mark stands for the first time. -/
theorem pieces_append {before : Option Char} (filled : mark ≠ [])
    (misses : Misses (fun _ => after? mark) before front (mark ++ back)) :
    pieces mark (front ++ (mark ++ back)) = front :: pieces mark back := by
  have here : pieces mark (mark ++ back) = [] :: pieces mark back := by
    obtain ⟨m,ms,rfl⟩ := List.exists_cons_of_ne_nil filled
    have starts : startsWith (m :: ms) (m :: (ms ++ back)) = true := by
      rw [startsWith,← List.cons_append,after?_append]
      rfl
    rw [pieces,List.cons_append,piecesFrom,starts]
    exact congrArg ([] :: ·) (piecesFrom_skip ms back)
  have cut := pieces_of_misses_append misses here
  rwa [List.append_nil] at cut

theorem exists_pieces (mark cs : List Char) : ∃ piece others, pieces mark cs = piece :: others := by
  cases cs with
  | nil => exact ⟨[],[],rfl⟩
  | cons c cs =>
    rw [pieces,piecesFrom]
    split
    · exact ⟨_,_,rfl⟩
    · cases piecesFrom mark 0 cs with
      | nil => exact ⟨_,_,rfl⟩
      | cons piece others => exact ⟨_,_,rfl⟩

theorem infix_intercalate {piece : List Char} {pieces : List (List Char)} (member : piece ∈ pieces) :
    piece <:+: mark.intercalate pieces := by
  induction pieces with
  | nil => cases member
  | cons first others ih =>
    cases others with
    | nil =>
      obtain rfl := List.mem_singleton.mp member
      rw [List.intercalate_singleton]
    | cons next others =>
      rw [List.intercalate_cons_cons,List.append_assoc]
      rcases List.mem_cons.mp member with rfl | later
      · exact (List.prefix_append ..).isInfix
      · exact (ih later).trans ((List.suffix_append ..).trans (List.suffix_append ..)).isInfix

theorem infix_of_mem_splitOn {sign : Char} {piece cs : List Char} (member : piece ∈ cs.splitOn sign) :
    piece <:+: cs := by
  have inside : piece <:+: [sign].intercalate (cs.splitOn sign) := infix_intercalate member
  rwa [List.intercalate_splitOn] at inside

theorem dropStart_suffix (mark cs : List Char) : dropStart mark cs <:+ cs := by
  rw [dropStart]
  cases found : after? mark cs with
  | none => exact List.suffix_refl _
  | some rest => exact ⟨mark,(after?_eq_some.mp found).symm⟩

/-- The pieces with the mark between them are the text again. -/
theorem intercalate_pieces (filled : mark ≠ []) (cs : List Char) :
    mark.intercalate (pieces mark cs) = cs := by
  -- behind a mark the cutting starts anew, with a text that is shorter by the mark
  induction size : cs.length using Nat.strong_induction_on generalizing cs with
  | _ n ih =>
    cases cs with
    | nil => rfl
    | cons c cs =>
      cases marked : after? mark (c :: cs) with
      | none =>
        obtain ⟨piece,others,cut⟩ := exists_pieces mark cs
        have joined := ih cs.length (by simp [← size]) cs rfl
        rw [pieces_cons marked cut,List.intercalate_cons_cons_left,← cut,joined]
      | some rest =>
        have whole := after?_eq_some.mp marked
        have shorter : rest.length < n := by
          rw [← size,whole,List.length_append]
          exact Nat.lt_add_of_pos_left (List.length_pos_of_ne_nil filled)
        obtain ⟨piece,others,cut⟩ := exists_pieces mark rest
        have here : Misses (fun _ => after? mark) none [] (mark ++ rest) := trivial
        have first : pieces mark (mark ++ rest) = [] :: pieces mark rest := pieces_append filled here
        rw [whole,first,List.intercalate_cons_of_ne_nil (by simp [cut]),ih rest.length shorter rest rfl]
        rfl

/-! Texts without a mark. -/

theorem without_append {before : Option Char} (filled : mark ≠ [])
    (misses : Misses (fun _ => after? mark) before front (mark ++ back)) :
    without mark (front ++ (mark ++ back)) = front ++ without mark back := by
  rw [without,pieces_append filled misses,List.flatten_cons,without]

theorem length_without_le (filled : mark ≠ []) (cs : List Char) :
    (without mark cs).length ≤ cs.length := by
  have flat (pieces : List (List Char)) : pieces.flatten.length ≤ (mark.intercalate pieces).length := by
    induction pieces with
    | nil => exact Nat.zero_le _
    | cons piece pieces ih =>
      cases pieces with
      | nil => simp
      | cons next pieces =>
        rw [List.intercalate_cons_cons,List.flatten_cons,List.length_append,List.length_append,
          List.length_append]
        omega
  calc (without mark cs).length ≤ (mark.intercalate (pieces mark cs)).length := flat _
    _ = cs.length := by rw [intercalate_pieces filled]

theorem length_without_of_infix (filled : mark ≠ []) {cs : List Char} (inside : mark <:+: cs) :
    (without mark cs).length + mark.length ≤ cs.length := by
  obtain ⟨front,back,rfl,misses⟩ := exists_first_mark inside none
  have rest := length_without_le filled back
  rw [without_append filled (misses back),List.length_append,List.length_append,List.length_append]
  omega

/-- Taking out a mark gives back the text that it was put behind, if it stands nowhere else. -/
theorem without_ended_iff (filled : mark ≠ []) (apart : Apart mark mark) {ending : List Char}
    (ends : ending = [] ∨ ending = mark) (cs : List Char) :
    without mark (cs ++ ending) = cs ↔ ¬mark <:+: cs := by
  constructor
  · rintro kept inside
    obtain ⟨front,back,rfl,misses⟩ := exists_first_mark inside none
    have rest : (without mark (back ++ ending)).length ≤ back.length := by
      rcases ends with rfl | rfl
      · rw [List.append_nil]
        exact length_without_le filled back
      · have fewer := length_without_of_infix filled (List.suffix_append back ending).isInfix
        rw [List.length_append] at fewer
        omega
    have size := congrArg List.length kept
    rw [List.append_assoc,List.append_assoc,without_append filled (misses _)] at size
    simp only [List.length_append] at size
    have some_ := List.length_pos_iff.mpr filled
    omega
  · intro absent
    have missed (back : List Char) (apart : Apart mark back) := misses_of_absent absent apart none
    rcases ends with rfl | rfl
    · have none : Apart mark [] := fun tail _ start => .inl (List.prefix_nil.mp start)
      rw [List.append_nil,without,pieces_of_misses (missed [] none),List.flatten_singleton]
    · have last : Apart ending (ending ++ []) := by rwa [List.append_nil]
      have cut := without_append filled (missed _ last)
      rwa [List.append_nil,show without ending [] = [] from rfl,List.append_nil] at cut

/-! The end of a text. -/

theorem dropEnd_append (mark cs : List Char) : dropEnd mark (cs ++ mark) = cs := by
  rw [dropEnd,dropStart,List.reverse_append,after?_append,Option.getD_some,List.reverse_reverse]

theorem dropEnd_of_bare {cs : List Char} (bare : ¬mark <:+ cs) : dropEnd mark cs = cs := by
  rw [dropEnd,dropStart]
  cases read : after? mark.reverse cs.reverse with
  | none => exact List.reverse_reverse cs
  | some rest => exact absurd (List.reverse_prefix.mp ⟨rest,(after?_eq_some.mp read).symm⟩) bare

theorem afterLast_of_foreign {sep : Char} {cs : List Char} (foreign : sep ∉ cs) : afterLast sep cs = cs := by
  have all : ∀ c ∈ cs.reverse, decide (c ≠ sep) = true := fun c member =>
    decide_eq_true fun same => foreign (same ▸ List.mem_reverse.mp member)
  rw [afterLast,List.takeWhile_eq_self_iff.mpr all,List.reverse_reverse]

theorem afterLast_append {sep : Char} {back : List Char} (foreign : sep ∉ back) (front : List Char) :
    afterLast sep (front ++ sep :: back) = back := by
  have all : ∀ c ∈ back.reverse, decide (c ≠ sep) = true := fun c member =>
    decide_eq_true fun same => foreign (same ▸ List.mem_reverse.mp member)
  rw [afterLast,List.reverse_append,List.reverse_cons,List.append_assoc,List.singleton_append,
    List.takeWhile_append_of_pos all,List.takeWhile_cons_of_neg (by simp),List.append_nil,
    List.reverse_reverse]

end DepAudit.Text
