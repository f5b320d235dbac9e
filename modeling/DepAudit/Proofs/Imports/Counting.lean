import DepAudit.Imports.Count
import DepAudit.Proofs.Table

/-! Counted imports: how often a text imports a name, whatever else is asked for, and what the counts of
several files come to by name and file. -/
namespace DepAudit.Imports

variable {source name : String} {names : List String}

theorem count_eq_accumulate (source : String) (names : List String) : count source names =
    Table.accumulate id 0 (fun _ n => n + 1) ((modules source).filter (names.contains ·)) := rfl

theorem nodup_keys_count (source : String) (names : List String) : (count source names).keys.Nodup :=
  Table.nodup_keys_accumulate ..

/-- A name that is asked for has as many imports as there are statements with it. -/
theorem get?_count (source : String) (names : List String) (name : String) :
    (count source names).get? name = if name ∈ names ∧ name ∈ modules source then
      some ((modules source).count name : Int) else none := by
  have steps (found : List String) (n : Int) :
      found.foldl (fun n _ => n + 1) n = n + found.length := by
    induction found generalizing n with
    | nil => simp
    | cons _ found ih =>
      rw [List.foldl_cons,ih,List.length_cons]
      omega
  have asked : name ∈ (modules source).filter (names.contains ·) ↔
      name ∈ names ∧ name ∈ modules source := by
    simp [and_comm]
  rw [count_eq_accumulate,Table.get?_accumulate,steps,List.map_id]
  simp only [asked]
  split
  · rename_i both
    have same : ((modules source).filter (names.contains ·)).filter (fun n => id n = name) =
        (modules source).filter (· == name) := by
      rw [List.filter_filter]
      apply List.filter_congr
      intro n _
      by_cases here : n = name
      · simp [here,both.1]
      · simp [here]
    rw [same,Int.zero_add,List.count_eq_length_filter]
  · rfl

theorem get?_count_congr {others : List String} (asked : name ∈ names) (also : name ∈ others) :
    (count source names).get? name = (count source others).get? name := by
  simp only [get?_count,asked,also]

theorem pos_of_get?_count {n : Int} (counted : (count source names).get? name = some n) : 0 < n := by
  rw [get?_count] at counted
  split at counted
  · rename_i both
    obtain rfl := Option.some.inj counted
    exact Int.natCast_pos.mpr (List.count_pos_iff.mpr both.2)
  · cases counted

theorem mem_of_get?_count {n : Int} (counted : (count source names).get? name = some n) :
    name ∈ names := by
  rw [get?_count] at counted
  split at counted
  · rename_i both
    exact both.1
  · cases counted

/-! Merging the counts of files. -/

structure Mention where
  name : String
  path : String
  number : Int

def mentions (partials : List (String × Option (Table String Int))) : List Mention :=
  partials.flatMap fun p => (p.2.getD []).map fun c => ⟨c.1,p.1,c.2⟩

def byFile (ms : List Mention) : Table String Int :=
  Table.accumulate Mention.path 0 (fun m n => n + m.number) ms

theorem merge_eq_accumulate (partials : List (String × Option (Table String Int))) :
    merge partials = Table.accumulate Mention.name []
      (fun m (files : Table String Int) => files.update m.path 0 (· + m.number)) (mentions partials) := by
  rw [merge,Table.accumulate,mentions,List.foldl_flatMap]
  simp only [List.foldl_map]

theorem get?_merge (partials : List (String × Option (Table String Int))) (name : String) :
    (merge partials).get? name = if name ∈ (mentions partials).map Mention.name then
      some (byFile ((mentions partials).filter fun m => m.name = name)) else none := by
  rw [merge_eq_accumulate,Table.get?_accumulate]
  rfl

theorem getD_get?_merge (partials : List (String × Option (Table String Int))) (name : String) :
    ((merge partials).get? name).getD [] =
      byFile ((mentions partials).filter fun m => m.name = name) := by
  rw [merge_eq_accumulate,Table.getD_get?_accumulate]
  rfl

theorem mem_keys_merge {partials : List (String × Option (Table String Int))} :
    name ∈ (merge partials).keys ↔ ∃ p ∈ partials, name ∈ (p.2.getD []).keys := by
  rw [merge_eq_accumulate,Table.mem_keys_accumulate,mentions,List.map_flatMap,List.mem_flatMap]
  simp only [List.map_map]
  rfl

end DepAudit.Imports
