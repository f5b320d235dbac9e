import DepAudit.Proofs.Imports.Counting
import DepAudit.Proofs.Totals
import Mathlib.Algebra.BigOperators.Group.List.Basic

/-! Merged counts of files. What they say of a name and a file is the sum of what the parts say, so that the
order of the parts and the way they are put together do not matter, and nothing is lost or counted twice. -/
namespace DepAudit.Imports

variable {partials : List (String × Option (Table String Int))} {name path : String}

def countAt (merged : Table String (Table String Int)) (name path : String) : Option Int :=
  (merged.get? name).bind fun files => files.get? path

def reported (partials : List (String × Option (Table String Int))) (name path : String) : List Int :=
  (partials.filter fun p => p.1 = path).filterMap fun p => (p.2.getD []).get? name

def total (counts : Table String Int) : Int := (counts.map Prod.snd).sum

def grandTotal (merged : Table String (Table String Int)) : Int := (merged.map fun p => total p.2).sum

/-! The sum of numbers, where there are any. -/

def sum? (ns : List Int) : Option Int := if ns = [] then none else some ns.sum

theorem sum?_eq_some {ns : List Int} {n : Int} : sum? ns = some n ↔ ns ≠ [] ∧ n = ns.sum := by
  rw [sum?]
  split
  · rename_i none
    exact ⟨nofun,fun both => absurd none both.1⟩
  · rename_i some_
    rw [Option.some.injEq,and_iff_right some_,eq_comm]

theorem sum?_append (ms ns : List Int) : sum? (ms ++ ns) = Option.merge (· + ·) (sum? ms) (sum? ns) := by
  cases ms with
  | nil => cases ns <;> rfl
  | cons m ms =>
    cases ns with
    | nil => rw [List.append_nil]; rfl
    | cons n ns => exact congrArg some List.sum_append

theorem sum?_perm {ms ns : List Int} (perm : ms.Perm ns) : sum? ms = sum? ns := by
  have none : ms = [] ↔ ns = [] := by
    rw [← List.length_eq_zero_iff,← List.length_eq_zero_iff,perm.length_eq]
  rw [sum?,sum?,perm.sum_eq]
  simp only [none]

/-! One name and one file. -/

def numbersAt (ms : List Mention) (name path : String) : List Int :=
  (ms.filter fun m => m.name = name ∧ m.path = path).map Mention.number

theorem get?_byFile (ms : List Mention) (path : String) :
    (byFile ms).get? path = sum? ((ms.filter fun m => m.path = path).map Mention.number) := by
  have added : (ms.filter fun m => m.path = path).foldl (fun n m => n + m.number) 0 =
      ((ms.filter fun m => m.path = path).map Mention.number).sum := by
    rw [List.sum_eq_foldl,List.foldl_map]
  have named : path ∈ ms.map Mention.path ↔
      (ms.filter fun m => m.path = path).map Mention.number ≠ [] := by
    simp [List.filter_eq_nil_iff]
  rw [byFile,Table.get?_accumulate,added,sum?]
  simp only [named,ite_not]

theorem countAt_merge (partials : List (String × Option (Table String Int))) (name path : String) :
    countAt (merge partials) name path = sum? (numbersAt (mentions partials) name path) := by
  have both : ((mentions partials).filter fun m => m.name = name).filter (fun m => m.path = path) =
      (mentions partials).filter fun m => m.name = name ∧ m.path = path := by
    rw [List.filter_filter]
    exact List.filter_congr fun m _ => by simp [Bool.and_comm]
  rw [countAt,get?_merge]
  split
  · rw [Option.bind_some,get?_byFile,both,numbersAt]
  · rename_i unnamed
    have none : (mentions partials).filter (fun m => m.name = name ∧ m.path = path) = [] := by
      rw [← both,filter_key_of_new unnamed]
      rfl
    rw [numbersAt,none]
    rfl

theorem mentions_append (partials others : List (String × Option (Table String Int))) :
    mentions (partials ++ others) = mentions partials ++ mentions others := List.flatMap_append

theorem numbersAt_append (ms others : List Mention) (name path : String) :
    numbersAt (ms ++ others) name path = numbersAt ms name path ++ numbersAt others name path := by
  rw [numbersAt,List.filter_append,List.map_append]
  rfl

/-- A part that is a map mentions a name in its file once at most. -/
theorem numbersAt_mentions (maps : ∀ p ∈ partials, (p.2.getD []).keys.Nodup) (name path : String) :
    numbersAt (mentions partials) name path = reported partials name path := by
  induction partials with
  | nil => rfl
  | cons p partials ih =>
    obtain ⟨first,others⟩ := List.forall_mem_cons.mp maps
    have here : numbersAt (mentions [p]) name path = reported [p] name path := by
      have found := Table.filter_key first name
      rw [numbersAt,mentions,List.flatMap_singleton,List.filter_map,reported]
      by_cases same : p.1 = path
      · have chosen : ((fun m : Mention => decide (m.name = name ∧ m.path = path)) ∘
            fun c : String × Int => ⟨c.1,p.1,c.2⟩) = fun c => decide (c.1 = name) := by
          funext c
          simp [same]
        rw [chosen,found]
        cases known : (p.2.getD []).get? name <;> simp [same,known]
      · simp [same]
    rw [← List.singleton_append,mentions_append,numbersAt_append,here,ih others,reported,reported,
      reported,List.filter_append,List.filterMap_append]

/-! Totals. -/

theorem total_update (counts : Table String Int) (path : String) (n : Int) :
    total (counts.update path 0 (· + n)) = total counts + n :=
  Table.sum_update id rfl (fun _ => rfl) counts path

theorem sum_mentions (partials : List (String × Option (Table String Int))) :
    ((mentions partials).map Mention.number).sum = (partials.map fun p => total (p.2.getD [])).sum := by
  induction partials with
  | nil => rfl
  | cons p partials ih =>
    have here : (mentions [p]).map Mention.number = (p.2.getD []).map Prod.snd := by
      rw [mentions,List.flatMap_singleton,List.map_map]
      rfl
    rw [← List.singleton_append,mentions_append,List.map_append,List.sum_append,ih,here,List.map_append,
      List.sum_append,List.map_singleton,List.sum_singleton,total]

theorem grandTotal_merge (partials : List (String × Option (Table String Int))) :
    grandTotal (merge partials) = (partials.map fun p => total (p.2.getD [])).sum := by
  rw [grandTotal,merge_eq_accumulate,Table.sum_accumulate total rfl fun m files =>
    total_update files m.path m.number]
  exact sum_mentions partials

/-! All names and files. -/

structure SameCounts (a b : Table String (Table String Int)) : Prop where
  names : ∀ name, name ∈ a.keys ↔ name ∈ b.keys
  counts : ∀ name path, countAt a name path = countAt b name path

/-- Each name stands once, with files that stand once each and of which there is one at least. -/
structure Tabulated (merged : Table String (Table String Int)) : Prop where
  names : merged.keys.Nodup
  files : ∀ p ∈ merged, p.2.keys.Nodup ∧ p.2 ≠ []

theorem tabulated_merge (partials : List (String × Option (Table String Int))) :
    Tabulated (merge partials) := by
  have names : (merge partials).keys.Nodup := by
    rw [merge_eq_accumulate]
    exact Table.nodup_keys_accumulate ..
  refine ⟨names,fun p member => ?_⟩
  obtain ⟨name,files⟩ := p
  have found := Table.get?_of_mem names member
  rw [get?_merge] at found
  split at found
  · rename_i named
    obtain rfl := Option.some.inj found
    refine ⟨Table.nodup_keys_accumulate ..,fun none => ?_⟩
    change byFile _ = [] at none
    obtain ⟨m,mentioned,same⟩ := List.mem_map.mp named
    have listed : m.path ∈ (byFile ((mentions partials).filter fun m => m.name = name)).keys := by
      rw [byFile,Table.mem_keys_accumulate]
      exact List.mem_map_of_mem (List.mem_filter.mpr ⟨mentioned,decide_eq_true same⟩)
    rw [none] at listed
    cases listed
  · cases found

theorem countAt_merge_append (partials others : List (String × Option (Table String Int)))
    (name path : String) : countAt (merge (partials ++ others)) name path =
      Option.merge (· + ·) (countAt (merge partials) name path) (countAt (merge others) name path) := by
  rw [countAt_merge,countAt_merge,countAt_merge,mentions_append,numbersAt_append,sum?_append]

theorem sameCounts_merge_perm {others : List (String × Option (Table String Int))}
    (perm : others.Perm partials) : SameCounts (merge others) (merge partials) := by
  have mentioned : (mentions others).Perm (mentions partials) := perm.flatMap_right _
  refine ⟨fun name => ?_,fun name path => ?_⟩
  · rw [mem_keys_merge,mem_keys_merge]
    simp only [perm.mem_iff]
  · rw [countAt_merge,countAt_merge]
    exact sum?_perm ((mentioned.filter _).map _)

/-- Merged counts are what the parts say of each name and file, added up, in whatever order and by
whatever steps they are merged, and they come to the same total as the parts. -/
theorem merged_counts_add_up (partials : List (String × Option (Table String Int)))
    (maps : ∀ p ∈ partials, (p.2.getD []).keys.Nodup) :
    Tabulated (merge partials) ∧
    (∀ name path n, countAt (merge partials) name path = some n ↔
      reported partials name path ≠ [] ∧ n = (reported partials name path).sum) ∧
    (∀ others, others.Perm partials → SameCounts (merge others) (merge partials)) ∧
    (∀ others,
      (∀ name, name ∈ (merge (partials ++ others)).keys ↔
        name ∈ (merge partials).keys ∨ name ∈ (merge others).keys) ∧
      ∀ name path, countAt (merge (partials ++ others)) name path =
        Option.merge (· + ·) (countAt (merge partials) name path) (countAt (merge others) name path)) ∧
    grandTotal (merge partials) = (partials.map fun p => total (p.2.getD [])).sum := by
  refine ⟨tabulated_merge partials,fun name path n => ?_,fun _ => sameCounts_merge_perm,fun others => ?_,
    grandTotal_merge partials⟩
  · rw [countAt_merge,numbersAt_mentions maps,sum?_eq_some]
  · refine ⟨fun name => ?_,countAt_merge_append partials others⟩
    simp only [mem_keys_merge,List.mem_append,or_and_right,exists_or]

def scatteredPartials : List (String × Option (Table String Int)) :=
  [("a.swift",some [("Core",2),("Net",0)]),("b.swift",none),("c.swift",some []),
    ("a.swift",some [("Core",3)]),("d.swift",some [("Core",1)])]

theorem scattered_counts_add_up :
    (∀ p ∈ scatteredPartials, (p.2.getD []).keys.Nodup) ∧
    countAt (merge scatteredPartials) "Core" "a.swift" = some 5 ∧
    countAt (merge scatteredPartials) "Net" "a.swift" = some 0 ∧
    countAt (merge scatteredPartials) "Core" "b.swift" = none ∧
    SameCounts (merge scatteredPartials.reverse) (merge scatteredPartials) ∧
    grandTotal (merge scatteredPartials) = 6 := by
  have maps : ∀ p ∈ scatteredPartials, (p.2.getD []).keys.Nodup := by decide
  obtain ⟨_,counts,perm,_,all⟩ := merged_counts_add_up scatteredPartials maps
  refine ⟨maps,(counts ..).mpr (by decide),(counts ..).mpr (by decide),?_,perm _ (List.reverse_perm _),all⟩
  refine Option.eq_none_iff_forall_ne_some.mpr fun n found => ?_
  exact absurd ((counts ..).mp found).1 (by decide)

end DepAudit.Imports
