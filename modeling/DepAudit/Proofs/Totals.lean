import DepAudit.Proofs.Table
import Mathlib.Algebra.Ring.Int.Defs
import Mathlib.Algebra.Ring.Nat

/-! Totals over lists: items counted key by key, values gathered in a table, and how many numbers of a list can
pass a bound. -/
namespace DepAudit

section

variable {α γ : Type} [DecidableEq α] (key : γ → α)

theorem length_filter_add_countP {k : α} {keys : List α} (new : k ∉ keys) (xs : List γ) :
    (xs.filter fun x => key x = k).length + xs.countP (fun x => key x ∈ keys) =
      xs.countP fun x => key x ∈ k :: keys := by
  induction xs with
  | nil => rfl
  | cons x xs ih =>
    rw [List.filter_cons,List.countP_cons,List.countP_cons,← ih]
    by_cases same : key x = k
    · simp [same,new]
      omega
    · simp [same]
      omega

/-- Items whose keys are listed, counted key by key. -/
theorem sum_length_filter {keys : List α} (distinct : keys.Nodup) (xs : List γ) :
    (keys.map fun k => (xs.filter fun x => key x = k).length).sum =
      xs.countP fun x => key x ∈ keys := by
  induction keys with
  | nil => simp
  | cons k keys ih =>
    obtain ⟨new,later⟩ := List.nodup_cons.mp distinct
    rw [List.map_cons,List.sum_cons,ih later]
    exact length_filter_add_countP key new xs

end

theorem length_filter_mul_le_sum {α : Type} (f : α → ℕ) (bound : ℕ) (xs : List α) :
    (xs.filter fun x => bound < f x).length * (bound + 1) ≤ (xs.map f).sum := by
  induction xs with
  | nil => simp
  | cons x xs ih =>
    rw [List.filter_cons,List.map_cons,List.sum_cons]
    split
    · rename_i above
      have less : bound < f x := of_decide_eq_true above
      rw [List.length_cons,Nat.succ_mul]
      omega
    · omega

namespace Table

/-! Values that have sizes. -/

section

variable {α β γ : Type} [DecidableEq α] (size : β → Int) {default : β}

theorem update_cons (k key : α) (v : β) (t : Table α β) (f : β → β) :
    Table.update ((k,v) :: t) key default f =
      if k = key then (k,f v) :: t else (k,v) :: t.update key default f := by
  rw [update,set,get?]
  split <;> rfl

/-- Where a change adds so much to each value, it adds as much to the whole. -/
theorem sum_update {f : β → β} {n : Int} (empty : size default = 0) (grows : ∀ v, size (f v) = size v + n)
    (t : Table α β) (key : α) :
    ((t.update key default f).map fun p => size p.2).sum = (t.map fun p => size p.2).sum + n := by
  induction t with
  | nil =>
    have fresh := grows default
    change size (f default) + 0 = 0 + n
    omega
  | cons pair t ih =>
    obtain ⟨k,v⟩ := pair
    have here := grows v
    rw [update_cons]
    split
    · simp only [List.map_cons,List.sum_cons]
      omega
    · simp only [List.map_cons,List.sum_cons,ih]
      omega

/-- What the items add is what there is at the end. -/
theorem sum_accumulate {key : γ → α} {f : γ → β → β} {n : γ → Int} (empty : size default = 0)
    (grows : ∀ x v, size (f x v) = size v + n x) (xs : List γ) :
    ((accumulate key default f xs).map fun p => size p.2).sum = (xs.map n).sum := by
  induction xs using List.reverseRecOn with
  | nil => rfl
  | append_singleton xs x ih =>
    rw [accumulate_concat,sum_update size empty (grows x),ih,List.map_append,List.sum_append,List.map_singleton,
      List.sum_singleton]

end

/-- All values are there. -/
theorem sum_lengths_gather {α β γ : Type} [DecidableEq α] (key : γ → α) (value : γ → β) (xs : List γ) :
    ((gather key value xs).map fun p => p.2.length).sum = xs.length := by
  have distinct : (xs.map key).eraseDups.Nodup := nodup_eraseDups _
  rw [gather_eq_map,List.map_map]
  simp only [Function.comp_def,List.length_map]
  rw [sum_length_filter key distinct,List.countP_eq_length]
  exact fun x member => decide_eq_true (List.mem_eraseDups.mpr (List.mem_map_of_mem member))

end Table

end DepAudit
