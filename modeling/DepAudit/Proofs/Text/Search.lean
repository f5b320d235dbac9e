import DepAudit.Text.Scan
import Mathlib

/-! Searching a text piece by piece: a piece at whose places a pattern reads nothing is passed over,
whichever search runs over it. What follows a piece stays part of the statement, since a pattern may
read across its end. -/
namespace DepAudit.Text

variable {α β γ : Type}

/-! Characters. -/

-- What all characters of a text fulfil is decided on the text, not on all characters that there are.
instance (priority := high) decidableAllChars (cs : List Char) (p : Char → Prop) [DecidablePred p] :
    Decidable (∀ c ∈ cs, p c) := List.decidableBAll p cs

theorem ne_of_class {allowed : Char → Bool} {c d : Char} (inside : allowed c = true)
    (outside : allowed d = false) : c ≠ d := by
  rintro rfl
  rw [inside] at outside
  cases outside

theorem identifier_ascii {c : Char} (identifier : isIdentifier c = true) : c.toNat < 0x80 := by
  rcases Bool.or_eq_true_iff.mp identifier with alphanum | underscore
  · simp only [Char.isAlphanum,Char.isAlpha,Char.isUpper,Char.isLower,Char.isDigit,Bool.or_eq_true,
      Bool.and_eq_true,decide_eq_true_eq,UInt32.le_iff_toNat_le,ge_iff_le] at alphanum
    have number : c.toNat = c.val.toNat := rfl
    have capitals : 'Z'.val.toNat = 90 := rfl
    have letters : 'z'.val.toNat = 122 := rfl
    have digits : '9'.val.toNat = 57 := rfl
    omega
  · rw [eq_of_beq underscore]
    decide

theorem isWord_of_identifier {c : Char} (identifier : isIdentifier c = true) : isWord c = true := by
  rw [isWord,if_pos (identifier_ascii identifier)]
  exact identifier

def blankCodes : List Nat := blankRanges.flatMap fun r => (List.range (r.2 - r.1 + 1)).map (r.1 + ·)

theorem isWord_of_blank {c : Char} (blank : isBlank c = true) : isWord c = false := by
  have code : c.toNat ∈ blankCodes := by
    obtain ⟨range,known,inside⟩ := List.any_eq_true.mp blank
    rw [Bool.and_eq_true,decide_eq_true_eq,decide_eq_true_eq] at inside
    refine List.mem_flatMap.mpr ⟨range,known,List.mem_map.mpr ⟨c.toNat - range.1,?_,by omega⟩⟩
    rw [List.mem_range]
    omega
  have all : ∀ n ∈ blankCodes, isWord (Char.ofNat n) = false := by decide +kernel
  have this := all _ code
  rwa [Char.ofNat_toNat] at this

theorem isBlank_of_word {c : Char} (word : isWord c = true) : isBlank c = false := by
  cases blank : isBlank c with
  | false => rfl
  | true => rw [isWord_of_blank blank] at word; cases word

theorem isIdentifier_of_blank {c : Char} (blank : isBlank c = true) : isIdentifier c = false := by
  cases identifier : isIdentifier c with
  | false => rfl
  | true => rw [isBlank_of_word (isWord_of_identifier identifier)] at blank; cases blank

/-! Marks and blanks at the start of a text. -/

theorem after?_eq_some {mark cs rest : List Char} : after? mark cs = some rest ↔ cs = mark ++ rest := by
  induction mark generalizing cs with
  | nil => exact ⟨Option.some.inj,congrArg some⟩
  | cons m ms ih =>
    cases cs with
    | nil => exact ⟨nofun,nofun⟩
    | cons c cs =>
      rw [after?,List.cons_append,List.cons.injEq]
      split
      · rename_i same
        rw [ih]
        exact ⟨fun rest => ⟨same.symm,rest⟩,And.right⟩
      · rename_i different
        exact ⟨nofun,fun both => absurd both.1.symm different⟩

theorem after?_append (mark cs : List Char) : after? mark (mark ++ cs) = some cs :=
  after?_eq_some.mpr rfl

theorem after?_of_ne {m c : Char} (different : m ≠ c) (ms cs : List Char) :
    after? (m :: ms) (c :: cs) = none :=
  if_neg different

theorem skipBlanks_blank {c : Char} (blank : isBlank c = true) (cs : List Char) :
    skipBlanks (c :: cs) = skipBlanks cs :=
  List.dropWhile_cons_of_pos blank

theorem skipBlanks_cons {c : Char} (visible : isBlank c = false) (cs : List Char) :
    skipBlanks (c :: cs) = c :: cs :=
  List.dropWhile_cons_of_neg (ne_true_of_eq_false visible)

/-! Passing over a piece. -/

def behind (before : Option Char) (cs : List Char) : Option Char :=
  cs.foldl (fun _ c => some c) before

@[simp] theorem behind_nil (before : Option Char) : behind before [] = before := rfl

@[simp] theorem behind_cons (before : Option Char) (c : Char) (cs : List Char) :
    behind before (c :: cs) = behind (some c) cs := rfl

theorem behind_append (before : Option Char) (cs ds : List Char) :
    behind before (cs ++ ds) = behind (behind before cs) ds :=
  List.foldl_append ..

/-- A reading fails at all places of a piece, before which one character and behind which one text
stands. -/
def Misses (p : Option Char → List Char → Option β) : Option Char → List Char → List Char → Prop
  | _,[],_ => True
  | before,c :: cs,back => p before (c :: (cs ++ back)) = none ∧ Misses p (some c) cs back

def Silent (p : Option Char → List Char → Option β) (cs : List Char) : Prop :=
  ∀ before back, Misses p before cs back

variable {p : Option Char → List Char → Option β} {q : Option Char → List Char → Option γ}
  {before : Option Char} {cs ds back : List Char}

theorem Misses.append (first : Misses p before cs (ds ++ back))
    (second : Misses p (behind before cs) ds back) : Misses p before (cs ++ ds) back := by
  induction cs generalizing before with
  | nil => exact second
  | cons c cs ih =>
    refine ⟨?_,ih first.2 second⟩
    have here := first.1
    rwa [← List.append_assoc] at here

/-- A reading that succeeds nowhere the other fails misses what the other misses. -/
theorem Misses.mono (weaker : ∀ before cs, p before cs = none → q before cs = none)
    (misses : Misses p before cs back) : Misses q before cs back := by
  induction cs generalizing before with
  | nil => exact trivial
  | cons c cs ih => exact ⟨weaker _ _ misses.1,ih misses.2⟩

/-- Misses shown place by place. -/
theorem misses_of_places (fails : ∀ front c rest, cs = front ++ c :: rest →
    p (behind before front) (c :: (rest ++ back)) = none) : Misses p before cs back := by
  induction cs generalizing before with
  | nil => exact trivial
  | cons c cs ih =>
    refine ⟨fails [] c cs rfl,ih fun front d rest whole => ?_⟩
    exact fails (c :: front) d rest (congrArg (c :: ·) whole)

/-- Misses shown place by place, the characters before it being of no weight. -/
theorem misses_of_suffixes (fails : ∀ before c rest, c :: rest <:+ cs →
    p before (c :: (rest ++ back)) = none) : Misses p before cs back :=
  misses_of_places fun front c rest whole => fails _ c rest ⟨front,whole.symm⟩

theorem Silent.append (first : Silent p cs) (second : Silent p ds) : Silent p (cs ++ ds) :=
  fun before back => (first before (ds ++ back)).append (second _ back)

theorem Silent.mono (weaker : ∀ before cs, p before cs = none → q before cs = none)
    (silent : Silent p cs) : Silent q cs :=
  fun before back => (silent before back).mono weaker

/-- Characters that a reading never starts with. -/
theorem silent_of_heads (fails : ∀ c ∈ cs, ∀ before rest, p before (c :: rest) = none) :
    Silent p cs :=
  fun _ _ => misses_of_suffixes fun before _ _ suffix =>
    fails _ (suffix.subset (List.mem_cons_self ..)) before _

theorem Silent.flatMap {items : List α} {piece : α → List Char}
    (each : ∀ item ∈ items, Silent p (piece item)) : Silent p (items.flatMap piece) := by
  induction items with
  | nil => exact fun _ _ => trivial
  | cons item items ih =>
    obtain ⟨first,others⟩ := List.forall_mem_cons.mp each
    exact first.append (ih others)

section searches

variable {p : Pattern α}

theorem length_append_sub (cs back : List Char) : (cs ++ back).length - back.length = cs.length := by
  rw [List.length_append,Nat.add_sub_cancel]

theorem firstFrom?_of_misses (misses : Misses p before cs back) :
    firstFrom? p before (cs ++ back) = firstFrom? p (behind before cs) back := by
  induction cs generalizing before with
  | nil => rfl
  | cons c cs ih =>
    rw [List.cons_append,firstFrom?,misses.1]
    exact ih misses.2

theorem firstFrom?_of_reads {c : Char} {reading : α × List Char}
    (reads : p before (c :: cs) = some reading) : firstFrom? p before (c :: cs) = some reading := by
  rw [firstFrom?,reads]

theorem firstFrom?_of_piece {reading : α × List Char} (filled : cs ≠ [])
    (reads : p before (cs ++ back) = some reading) : firstFrom? p before (cs ++ back) = some reading := by
  obtain ⟨c,cs,rfl⟩ := List.exists_cons_of_ne_nil filled
  exact firstFrom?_of_reads reads

theorem allFrom_of_misses (misses : Misses p before cs back) :
    allFrom p before 0 (cs ++ back) = allFrom p (behind before cs) 0 back := by
  induction cs generalizing before with
  | nil => rfl
  | cons c cs ih =>
    rw [List.cons_append,allFrom,misses.1]
    exact ih misses.2

theorem allFrom_skip (before : Option Char) (cs back : List Char) :
    allFrom p before cs.length (cs ++ back) = allFrom p (behind before cs) 0 back := by
  induction cs generalizing before with
  | nil => rfl
  | cons c cs ih => exact ih (some c)

/-- The search goes on behind what was read. -/
theorem allFrom_of_reads {c : Char} {a : α}
    (reads : p before (c :: (cs ++ back)) = some (a,back)) :
    allFrom p before 0 (c :: (cs ++ back)) = a :: allFrom p (behind (some c) cs) 0 back := by
  rw [allFrom,reads]
  dsimp only
  rw [length_append_sub,allFrom_skip]

/-- What was read is a piece at the start of the text. -/
theorem allFrom_of_piece {a : α} (filled : cs ≠ []) (reads : p before (cs ++ back) = some (a,back)) :
    allFrom p before 0 (cs ++ back) = a :: allFrom p (behind before cs) 0 back := by
  obtain ⟨c,cs,rfl⟩ := List.exists_cons_of_ne_nil filled
  exact allFrom_of_reads reads

/-- The search goes on behind the last character of what was read. -/
theorem allFrom_of_suffix {c d : Char} {rest : List Char} {a : α} (reads : p before (c :: cs) = some (a,rest))
    (suffix : d :: rest <:+ c :: cs) : allFrom p before 0 (c :: cs) = a :: allFrom p (some d) 0 rest := by
  obtain ⟨front,whole⟩ := suffix
  rw [List.append_cons] at whole
  have filled : front ++ [d] ≠ [] := by simp
  rw [← whole] at reads ⊢
  rw [allFrom_of_piece filled reads,behind_append]
  rfl

theorem replaceFrom_of_misses {by_ : List Char} (misses : Misses p before cs back) :
    replaceFrom p by_ before 0 (cs ++ back) = cs ++ replaceFrom p by_ (behind before cs) 0 back := by
  induction cs generalizing before with
  | nil => rfl
  | cons c cs ih =>
    rw [List.cons_append,replaceFrom,misses.1]
    exact congrArg (c :: ·) (ih misses.2)

theorem replaceFrom_skip {by_ : List Char} (before : Option Char) (cs back : List Char) :
    replaceFrom p by_ before cs.length (cs ++ back) =
      replaceFrom p by_ (behind before cs) 0 back := by
  induction cs generalizing before with
  | nil => rfl
  | cons c cs ih => exact ih (some c)

theorem replaceFrom_of_reads {by_ : List Char} {c : Char} {a : α}
    (reads : p before (c :: (cs ++ back)) = some (a,back)) :
    replaceFrom p by_ before 0 (c :: (cs ++ back)) =
      by_ ++ replaceFrom p by_ (behind (some c) cs) 0 back := by
  rw [replaceFrom,reads]
  dsimp only
  rw [length_append_sub,replaceFrom_skip]

theorem replaceFrom_of_piece {by_ : List Char} {a : α} (filled : cs ≠ [])
    (reads : p before (cs ++ back) = some (a,back)) :
    replaceFrom p by_ before 0 (cs ++ back) = by_ ++ replaceFrom p by_ (behind before cs) 0 back := by
  obtain ⟨c,cs,rfl⟩ := List.exists_cons_of_ne_nil filled
  exact replaceFrom_of_reads reads

end searches

end DepAudit.Text
