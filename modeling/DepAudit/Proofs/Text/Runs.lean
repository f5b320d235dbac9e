import DepAudit.Proofs.Text.Slices

/-! Runs: characters of a class at the start of a text, and what follows them. -/
namespace DepAudit.Text

variable {p q : Char → Bool} {run front back : List Char}

-- As for the characters of a text: the one character is looked at, and no other.
instance (priority := high) decidableFirstChar (first : Option Char) (p : Char → Prop)
    [DecidablePred p] : Decidable (∀ c ∈ first, p c) := Option.decidableForallMem first

def Stops (p : Char → Bool) (cs : List Char) : Prop := ∀ c ∈ cs.head?, p c = false

instance (p : Char → Bool) (cs : List Char) : Decidable (Stops p cs) :=
  inferInstanceAs (Decidable (∀ c ∈ cs.head?, p c = false))

theorem stops_cons {c : Char} (outside : p c = false) (cs : List Char) : Stops p (c :: cs) := by
  rintro d ⟨⟩
  exact outside

theorem Stops.append (first : Stops p front) (second : Stops p back) : Stops p (front ++ back) := by
  cases front with
  | nil => exact second
  | cons c front => exact first

theorem takeWhile_eq_nil (stops : Stops p back) : back.takeWhile p = [] := by
  cases back with
  | nil => rfl
  | cons c cs => exact List.takeWhile_cons_of_neg (ne_true_of_eq_false (stops c rfl))

theorem dropWhile_eq_self (stops : Stops p back) : back.dropWhile p = back := by
  cases back with
  | nil => rfl
  | cons c cs => exact List.dropWhile_cons_of_neg (ne_true_of_eq_false (stops c rfl))

theorem takeWhile_run (whole : ∀ c ∈ run, p c = true) (stops : Stops p back) :
    (run ++ back).takeWhile p = run := by
  rw [List.takeWhile_append_of_pos whole,takeWhile_eq_nil stops,List.append_nil]

theorem dropWhile_run (whole : ∀ c ∈ run, p c = true) (stops : Stops p back) :
    (run ++ back).dropWhile p = back := by
  rw [List.dropWhile_append_of_pos whole,dropWhile_eq_self stops]

theorem dropWhile_append_of_outside {c : Char} (member : c ∈ front) (outside : p c = false)
    (back : List Char) : (front ++ back).dropWhile p = front.dropWhile p ++ back := by
  rw [List.dropWhile_append,if_neg]
  intro empty
  have inside := List.dropWhile_eq_nil_iff.mp (List.isEmpty_iff.mp empty) c member
  exact ne_true_of_eq_false outside inside

/-- A text is a run of the class and a rest that does not go on with it. -/
theorem exists_run (p : Char → Bool) (cs : List Char) :
    ∃ run, (∀ c ∈ run, p c = true) ∧ Stops p (cs.dropWhile p) ∧ cs = run ++ cs.dropWhile p := by
  refine ⟨cs.takeWhile p,fun c => List.mem_takeWhile_imp,fun c head => ?_,?_⟩
  · have first := List.head?_dropWhile_not p cs
    rw [Option.mem_def.mp head] at first
    simpa using first
  · exact List.takeWhile_append_dropWhile.symm

theorem behind_eq (before : Option Char) (cs : List Char) : behind before cs = cs.getLast?.or before := by
  rcases List.eq_nil_or_concat cs with rfl | ⟨front,last,rfl⟩
  · rfl
  · simp [behind_append]

/-- What stands behind a text is outside the class, if its last character is, or what stood before it. -/
theorem any_behind {before : Option Char} (outside : before.any p = false) {cs : List Char}
    (apart : ∀ c ∈ cs.getLast?, p c = false) : (behind before cs).any p = false := by
  rw [behind_eq]
  cases last : cs.getLast? with
  | none => exact outside
  | some c => exact apart c last

theorem apart_of_any_behind {before : Option Char} {cs : List Char}
    (outside : (behind before cs).any p = false) : ∀ c ∈ cs.getLast?, p c = false := by
  intro c last
  rwa [behind_eq,Option.mem_def.mp last] at outside

end DepAudit.Text
