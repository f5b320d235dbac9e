import DepAudit.Issue
import Mathlib.Data.List.Sort

/-! Stable sorting: items that stand equal keep their order, and one item more leaves the order of the
others as it was. -/
namespace DepAudit

/-! Which of two items is first. -/

section

variable {α β : Type} {a b : α} {l : List α}

theorem pair_sublist_or (different : a ≠ b) (first : a ∈ l) (second : b ∈ l) :
    [a,b].Sublist l ∨ [b,a].Sublist l := by
  induction l with
  | nil => cases first
  | cons c l ih =>
    rcases List.mem_cons.mp first with rfl | inside
    · have later : b ∈ l := (List.mem_cons.mp second).resolve_left (Ne.symm different)
      exact .inl ((List.singleton_sublist.mpr later).cons_cons a)
    · rcases List.mem_cons.mp second with rfl | later
      · exact .inr ((List.singleton_sublist.mpr inside).cons_cons b)
      · exact (ih inside later).imp (.cons c) (.cons c)

theorem not_pair_sublist_swap (distinct : l.Nodup) (before : [a,b].Sublist l) : ¬[b,a].Sublist l := by
  intro after
  induction l with
  | nil => cases before
  | cons c l ih =>
    obtain ⟨new,later⟩ := List.nodup_cons.mp distinct
    cases before with
    | cons _ inside =>
      cases after with
      | cons _ behind => exact ih later inside behind
      | cons_cons _ _ => exact new (inside.subset (by simp))
    | cons_cons _ inside =>
      cases after with
      | cons _ behind => exact new (behind.subset (by simp))
      | cons_cons _ _ => exact new (inside.subset (by simp))

/-- Items are in the order of their keys. -/
theorem pair_sublist_map_iff {key : α → β} (distinct : (l.map key).Nodup) (first : a ∈ l)
    (second : b ∈ l) : [key a,key b].Sublist (l.map key) ↔ [a,b].Sublist l := by
  constructor
  · intro before
    obtain ⟨pair,inside,same⟩ := List.sublist_map_iff.mp before
    obtain ⟨c,rest,rfl,head,tail⟩ := List.map_eq_cons_iff.mp same.symm
    obtain ⟨d,rfl,last⟩ := List.map_eq_singleton_iff.mp tail
    have unique := List.inj_on_of_nodup_map distinct
    obtain rfl := unique (inside.subset (by simp)) first head
    obtain rfl := unique (inside.subset (by simp)) second last
    exact inside
  · exact fun before => before.map key

end

section

variable {α : Type} {le : α → α → Bool}

private theorem parts_unique {p : α → Bool} {front back first last : List α}
    (same : front ++ back = first ++ last) (yes : ∀ a ∈ front, p a) (no : ∀ a ∈ back, ¬p a)
    (yesFirst : ∀ a ∈ first, p a) (noLast : ∀ a ∈ last, ¬p a) : front = first ∧ back = last := by
  have kept := congrArg (List.filter p) same
  rw [List.filter_append,List.filter_append,List.filter_eq_self.mpr yes,List.filter_eq_nil_iff.mpr no,
    List.filter_eq_self.mpr yesFirst,List.filter_eq_nil_iff.mpr noLast,List.append_nil,
    List.append_nil] at kept
  exact ⟨kept,List.append_cancel_left (kept ▸ same)⟩

variable (trans : ∀ a b c, le a b → le b c → le a c) (total : ∀ a b, (le a b || le b a) = true)
include trans total

/-- Where the head of a list comes to stand: behind all that are strictly before it. -/
private theorem mergeSort_cons_parts (a : α) (l : List α) :
    ∃ front back, (a :: l).mergeSort le = front ++ a :: back ∧ l.mergeSort le = front ++ back ∧
      (∀ b ∈ front, ¬le a b) ∧ ∀ b ∈ back, le a b := by
  obtain ⟨front,back,sorted,without,before⟩ := List.mergeSort_cons trans total a l
  have ordered := List.pairwise_mergeSort trans total (a :: l)
  rw [sorted,List.pairwise_append] at ordered
  refine ⟨front,back,sorted,without,fun b member => by simpa using before b member,?_⟩
  exact (List.pairwise_cons.mp ordered.2.1).1

/-- Sorting a part of a list leaves that part of the sorted list. -/
theorem mergeSort_filter (p : α → Bool) (l : List α) :
    (l.filter p).mergeSort le = (l.mergeSort le).filter p := by
  induction l with
  | nil => rw [List.filter_nil,List.mergeSort_nil,List.filter_nil]
  | cons a l ih =>
    obtain ⟨front,back,sorted,without,before,behind⟩ := mergeSort_cons_parts trans total a l
    rw [without,List.filter_append] at ih
    rw [sorted,List.filter_append,List.filter_cons,List.filter_cons]
    by_cases chosen : p a
    · obtain ⟨first,last,part,rest,less,notLess⟩ := mergeSort_cons_parts trans total a (l.filter p)
      rw [ih] at rest
      have kept {b : α} {side : List α} (member : b ∈ side.filter p) : b ∈ side :=
        (List.mem_filter.mp member).1
      obtain ⟨rfl,rfl⟩ := parts_unique (p := fun b => !le a b) rest
        (fun b member => by simpa using before b (kept member))
        (fun b member => by simpa using behind b (kept member))
        (by simpa using less) (by simpa using notLess)
      rw [if_pos chosen,if_pos chosen,part]
    · rw [if_neg chosen,if_neg chosen,ih]

theorem filter_mergeSort {p : α → Bool} (tied : ∀ a b, p a → p b → le a b) (l : List α) :
    (l.mergeSort le).filter p = l.filter p := by
  rw [← mergeSort_filter trans total]
  refine List.mergeSort_of_pairwise (List.pairwise_of_forall_mem_list fun a one b other => ?_)
  exact tied a b (List.mem_filter.mp one).2 (List.mem_filter.mp other).2

theorem mergeSort_insert (x : α) (early late : List α) :
    ∃ front back, (early ++ late).mergeSort le = front ++ back ∧
      (early ++ x :: late).mergeSort le = front ++ x :: back := by
  induction early with
  | nil =>
    obtain ⟨front,back,sorted,without,_⟩ := mergeSort_cons_parts trans total x late
    exact ⟨front,back,without,sorted⟩
  | cons a early ih =>
    obtain ⟨front,back,sorted,inserted⟩ := ih
    obtain ⟨first,last,with_,without,less,notLess⟩ := mergeSort_cons_parts trans total a (early ++ late)
    obtain ⟨lead,rest,alsoWith,alsoWithout,lessToo,notLessToo⟩ :=
      mergeSort_cons_parts trans total a (early ++ x :: late)
    rw [sorted] at without
    rw [inserted] at alsoWithout
    rw [List.cons_append,List.cons_append,with_,alsoWith]
    -- `a` stands behind the same items in both sorts; `x` lies on one side of it.
    rcases List.append_eq_append_iff.mp alsoWithout with ⟨between,rfl,split⟩ | ⟨between,rfl,rfl⟩
    · cases between with
      | nil =>
        rw [List.nil_append] at split
        subst split
        rw [List.append_nil] at lessToo
        obtain ⟨rfl,rfl⟩ := parts_unique (p := fun b => !le a b) without.symm
          (by simpa using less) (by simpa using notLess) (by simpa using lessToo)
          (fun b member => by simpa using notLessToo b (.tail x member))
        exact ⟨first ++ [a],last,by simp,by simp⟩
      | cons y between =>
        rw [List.cons_append] at split
        obtain ⟨rfl,rfl⟩ := List.cons.inj split
        have fewer := ((List.sublist_cons_self x between).append_left front).subset
        have split := without.symm.trans (List.append_assoc ..).symm
        obtain ⟨rfl,rfl⟩ := parts_unique (p := fun b => !le a b) split
          (by simpa using less) (by simpa using notLess)
          (fun b member => by simpa using lessToo b (fewer member)) (by simpa using notLessToo)
        exact ⟨front,between ++ a :: last,by simp,by simp⟩
    · have fewer := ((List.sublist_cons_self x back).append_left between).subset
      rw [List.append_assoc] at without
      obtain ⟨rfl,rfl⟩ := parts_unique (p := fun b => !le a b) without.symm
        (by simpa using less) (by simpa using notLess) (by simpa using lessToo)
        (fun b member => by simpa using notLessToo b (fewer member))
      exact ⟨first ++ a :: between,back,by simp,by simp⟩

/-- Of two items in a sorted list the lesser is first; items that stand equal are as they were. -/
theorem pair_sublist_mergeSort_iff {l : List α} (distinct : l.Nodup) {a b : α} (different : a ≠ b)
    (first : a ∈ l) (second : b ∈ l) :
    [a,b].Sublist (l.mergeSort le) ↔ le a b ∧ (le b a → [a,b].Sublist l) := by
  have ordered {c d : α} (before : [c,d].Sublist (l.mergeSort le)) : le c d :=
    List.pairwise_iff_forall_sublist.mp (List.pairwise_mergeSort trans total l) before
  have still : (l.mergeSort le).Nodup := (List.mergeSort_perm l le).nodup_iff.mpr distinct
  constructor
  · intro before
    refine ⟨ordered before,fun tied => ?_⟩
    refine (pair_sublist_or different first second).resolve_right fun behind => ?_
    exact not_pair_sublist_swap still before (List.pair_sublist_mergeSort trans total tied behind)
  · rintro ⟨less,kept⟩
    by_cases tied : le b a
    · exact List.pair_sublist_mergeSort trans total less (kept tied)
    · have inside {c : α} (member : c ∈ l) : c ∈ l.mergeSort le := List.mem_mergeSort.mpr member
      exact (pair_sublist_or different (inside first) (inside second)).resolve_right
        fun behind => tied (ordered behind)

end

/-! Texts and issues stand in orders that sort stably. -/

theorem text_le_trans (a b c : String) (first : decide (a ≤ b) = true)
    (second : decide (b ≤ c) = true) : decide (a ≤ c) = true :=
  decide_eq_true (String.le_trans (of_decide_eq_true first) (of_decide_eq_true second))

theorem text_le_total (a b : String) : (decide (a ≤ b) || decide (b ≤ a)) = true := by
  rw [Bool.or_eq_true,decide_eq_true_eq,decide_eq_true_eq]
  exact String.le_total ..

namespace Issue

theorem level_trans (i j k : Issue) (first : decide (j.severity.level ≤ i.severity.level) = true)
    (second : decide (k.severity.level ≤ j.severity.level) = true) :
    decide (k.severity.level ≤ i.severity.level) = true :=
  decide_eq_true ((of_decide_eq_true second).trans (of_decide_eq_true first))

theorem level_total (i j : Issue) : (decide (j.severity.level ≤ i.severity.level) ||
    decide (i.severity.level ≤ j.severity.level)) = true := by
  rw [Bool.or_eq_true,decide_eq_true_eq,decide_eq_true_eq]
  exact Nat.le_total ..

theorem pairwise_sort (issues : List Issue) :
    (sort issues).Pairwise fun i j => j.severity.level ≤ i.severity.level :=
  (List.pairwise_mergeSort level_trans level_total issues).imp of_decide_eq_true

/-- Issues of one severity keep their order. -/
theorem filter_sort (severity : Severity) (issues : List Issue) :
    (sort issues).filter (·.severity = severity) = issues.filter (·.severity = severity) := by
  refine filter_mergeSort level_trans level_total (fun i j one other => ?_) issues
  rw [of_decide_eq_true one,of_decide_eq_true other]
  exact decide_eq_true (Nat.le_refl _)

/-- One issue more is sorted in among the others. -/
theorem sort_insert (i : Issue) (early late : List Issue) : ∃ front back,
    sort (early ++ late) = front ++ back ∧ sort (early ++ i :: late) = front ++ i :: back :=
  mergeSort_insert level_trans level_total i early late

end Issue

end DepAudit
