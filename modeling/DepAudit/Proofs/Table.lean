import DepAudit.Table
import Mathlib.Data.List.Nodup
import Mathlib.Data.List.Induction

/-! Looking up keys in a table, and what its keys are once pairs were set. -/
namespace DepAudit

section

variable {α : Type} [DecidableEq α]

theorem eraseDups_concat (xs : List α) (x : α) :
    (xs ++ [x]).eraseDups = if x ∈ xs then xs.eraseDups else xs.eraseDups ++ [x] := by
  rw [List.eraseDups_append]
  by_cases old : x ∈ xs
  · simp [List.removeAll,old]
  · simp [List.removeAll,old,List.eraseDups_cons]

theorem filter_eraseDups (p : α → Bool) (xs : List α) :
    (xs.filter p).eraseDups = xs.eraseDups.filter p := by
  induction xs using List.reverseRecOn with
  | nil => rfl
  | append_singleton xs x ih =>
    have kept : x ∈ xs.filter p ↔ x ∈ xs ∧ p x = true := List.mem_filter
    cases chosen : p x <;> by_cases old : x ∈ xs <;>
      simp [List.filter_append,eraseDups_concat,ih,kept,chosen,old]

/-- What stands in a list, each once, in the order in which it comes first. -/
structure FirstSeen (all once : List α) : Prop where
  mem_iff (x : α) : x ∈ once ↔ x ∈ all
  ordered : once.Pairwise fun x y => all.idxOf x < all.idxOf y

theorem pairwise_idxOf_eraseDups (xs : List α) :
    xs.eraseDups.Pairwise fun x y => xs.idxOf x < xs.idxOf y := by
  induction xs using List.reverseRecOn with
  | nil => exact .nil
  | append_singleton xs x ih =>
    have earlier : xs.eraseDups.Pairwise fun y z => (xs ++ [x]).idxOf y < (xs ++ [x]).idxOf z := by
      refine ih.imp_of_mem fun {y z} first second less => ?_
      rw [List.idxOf_append_of_mem (List.mem_eraseDups.mp first),
        List.idxOf_append_of_mem (List.mem_eraseDups.mp second)]
      exact less
    rw [eraseDups_concat]
    split
    · exact earlier
    · rename_i new
      refine List.pairwise_append.mpr ⟨earlier,List.pairwise_singleton _ _,fun y old z last => ?_⟩
      obtain rfl := List.mem_singleton.mp last
      have member := List.mem_eraseDups.mp old
      rw [List.idxOf_append_of_mem member,List.idxOf_append_of_notMem new]
      exact Nat.lt_add_right _ (List.idxOf_lt_length_of_mem member)

theorem nodup_eraseDups (xs : List α) : xs.eraseDups.Nodup := by
  apply (pairwise_idxOf_eraseDups xs).imp
  rintro x _ less rfl
  exact Nat.lt_irrefl _ less

theorem firstSeen_eraseDups (xs : List α) : FirstSeen xs xs.eraseDups :=
  ⟨fun _ => List.mem_eraseDups,pairwise_idxOf_eraseDups xs⟩

theorem one_lt_length_eraseDups {xs : List α} :
    1 < xs.eraseDups.length ↔ ∃ x ∈ xs, ∃ y ∈ xs, x ≠ y := by
  constructor
  · intro several
    have distinct := nodup_eraseDups xs
    cases known : xs.eraseDups with
    | nil => simp [known] at several
    | cons x rest =>
      cases rest with
      | nil => simp [known] at several
      | cons y rest =>
        have first : x ∈ xs := List.mem_eraseDups.mp (by simp [known])
        have second : y ∈ xs := List.mem_eraseDups.mp (by simp [known])
        rw [known] at distinct
        refine ⟨x,first,y,second,?_⟩
        rintro rfl
        simp at distinct
  · rintro ⟨x,first,y,second,different⟩
    have distinct : [x,y].Nodup := by simp [different]
    exact distinct.length_le_of_subset (by simp [first,second])

end

theorem filterMap_keys_sublist {α β γ : Type} {f : α → Option β} {key : β → γ} {name : α → γ}
    (named : ∀ x y, f x = some y → key y = name x) (xs : List α) :
    ((xs.filterMap f).map key).Sublist (xs.map name) := by
  induction xs with
  | nil => exact .slnil
  | cons x xs ih =>
    rw [List.filterMap_cons,List.map_cons]
    cases found : f x with
    | none => exact ih.cons _
    | some y =>
      rw [List.map_cons,named x y found]
      exact ih.cons_cons _

/-- A list that is sorted into what has a value and what has none is all there. -/
theorem length_filterMap_add_countP {α β : Type} (f : α → Option β) (xs : List α) :
    (xs.filterMap f).length + xs.countP (fun x => (f x).isNone) = xs.length := by
  induction xs with
  | nil => rfl
  | cons x xs ih =>
    rw [List.filterMap_cons,List.countP_cons]
    cases f x <;> simp <;> omega

theorem filter_key_of_new {α γ : Type} [DecidableEq α] {key : γ → α} {xs : List γ} {k : α}
    (new : k ∉ xs.map key) : xs.filter (fun x => key x = k) = [] :=
  List.filter_eq_nil_iff.mpr fun x member found =>
    new (List.mem_map.mpr ⟨x,member,of_decide_eq_true found⟩)

namespace Table

variable {α β : Type} [DecidableEq α]

theorem mem_of_get? {t : Table α β} {key : α} {value : β} (found : t.get? key = some value) :
    (key,value) ∈ t := by
  induction t with
  | nil => simp [get?] at found
  | cons pair t ih =>
    obtain ⟨k,v⟩ := pair
    simp only [get?] at found
    split at found
    · rename_i same
      cases Option.some.inj found
      exact same ▸ List.mem_cons_self ..
    · exact .tail _ (ih found)

theorem get?_eq_none_iff {t : Table α β} {key : α} : t.get? key = none ↔ key ∉ t.keys := by
  induction t with
  | nil => simp [get?,keys]
  | cons pair t ih =>
    obtain ⟨k,v⟩ := pair
    simp only [get?,keys,List.map_cons,List.mem_cons,not_or]
    split
    · rename_i same
      simp [same]
    · rename_i different
      exact ih.trans ⟨fun out => ⟨Ne.symm different,out⟩,And.right⟩

theorem mem_keys_iff {t : Table α β} {key : α} : key ∈ t.keys ↔ ∃ value, t.get? key = some value := by
  rw [← Option.isSome_iff_exists,Option.isSome_iff_ne_none,ne_eq,get?_eq_none_iff,Classical.not_not]

theorem get?_of_mem {t : Table α β} (distinct : t.keys.Nodup) {key : α} {value : β}
    (member : (key,value) ∈ t) : t.get? key = some value := by
  induction t with
  | nil => cases member
  | cons pair t ih =>
    obtain ⟨k,v⟩ := pair
    obtain ⟨new,later⟩ := List.nodup_cons.mp distinct
    rw [get?]
    rcases List.mem_cons.mp member with same | old
    · obtain ⟨rfl,rfl⟩ := Prod.mk.inj same
      rw [if_pos rfl]
    · rw [if_neg,ih later old]
      rintro rfl
      exact new (List.mem_map.mpr ⟨_,old,rfl⟩)

/-- A table is read off its keys. -/
theorem map_getD_keys {t : Table α β} (distinct : t.keys.Nodup) (default : β) :
    t.keys.map (fun key => (key,(t.get? key).getD default)) = t := by
  rw [keys,List.map_map]
  refine (List.map_congr_left fun p member => ?_).trans (List.map_id t)
  simp [get?_of_mem distinct member]

/-- The pairs of a key, where keys do not repeat. -/
theorem filter_key {t : Table α β} (distinct : t.keys.Nodup) (key : α) :
    t.filter (fun p => p.1 = key) = (t.get? key).toList.map (key,·) := by
  induction t with
  | nil => rfl
  | cons pair t ih =>
    obtain ⟨k,v⟩ := pair
    obtain ⟨new,later⟩ := List.nodup_cons.mp distinct
    rw [List.filter_cons,get?,ih later]
    by_cases same : k = key
    · have none : Table.get? t key = none := get?_eq_none_iff.mpr (same ▸ new)
      simp [same,none]
    · simp [same]

theorem get?_append (t others : Table α β) (key : α) :
    Table.get? (t ++ others) key = (t.get? key).or (others.get? key) := by
  induction t with
  | nil => rfl
  | cons pair t ih =>
    obtain ⟨k,v⟩ := pair
    rw [List.cons_append,get?,get?]
    split
    · rfl
    · exact ih

theorem get?_middle {front : Table α β} {key : α} (new : key ∉ front.keys) (value : β)
    (back : Table α β) : Table.get? (front ++ (key,value) :: back) key = some value := by
  rw [get?_append,get?_eq_none_iff.mpr new,get?,if_pos rfl]
  rfl

omit [DecidableEq α] in
theorem not_mem_front {front back : Table α β} {key : α} {value : β}
    (distinct : (keys (front ++ (key,value) :: back)).Nodup) : key ∉ front.keys := by
  rw [keys,List.map_append,List.nodup_append] at distinct
  exact fun member => distinct.2.2 key member key (List.mem_cons_self ..) rfl

theorem get?_set (t : Table α β) (key other : α) (value : β) :
    (t.set key value).get? other = if key = other then some value else t.get? other := by
  induction t with
  | nil => rfl
  | cons pair t ih =>
    obtain ⟨k,v⟩ := pair
    rw [set]
    split
    · rename_i same
      rw [get?,get?,same]
      split <;> rfl
    · rename_i different
      rw [get?,get?,ih]
      by_cases here : k = other
      · rw [if_pos here,if_pos here,if_neg fun same => different (here.trans same.symm)]
      · rw [if_neg here,if_neg here]

theorem set_of_new {t : Table α β} {key : α} (new : key ∉ t.keys) (value : β) :
    t.set key value = t ++ [(key,value)] := by
  induction t with
  | nil => rfl
  | cons pair t ih =>
    obtain ⟨k,v⟩ := pair
    rw [keys,List.map_cons,List.mem_cons,not_or] at new
    rw [set,if_neg (Ne.symm new.1),ih new.2]
    rfl

theorem keys_set_of_old {t : Table α β} {key : α} (old : key ∈ t.keys) (value : β) :
    (t.set key value).keys = t.keys := by
  induction t with
  | nil => cases old
  | cons pair t ih =>
    obtain ⟨k,v⟩ := pair
    rw [set]
    split
    · rfl
    · rename_i different
      rcases List.mem_cons.mp old with same | old
      · exact absurd same.symm different
      · exact congrArg (k :: ·) (ih old)

theorem keys_set (t : Table α β) (key : α) (value : β) :
    (t.set key value).keys = if key ∈ t.keys then t.keys else t.keys ++ [key] := by
  split
  · rename_i old
    exact keys_set_of_old old value
  · rename_i new
    rw [set_of_new new,keys,List.map_append]
    rfl

theorem nodup_keys_set {t : Table α β} (distinct : t.keys.Nodup) (key : α) (value : β) :
    (t.set key value).keys.Nodup := by
  by_cases old : key ∈ t.keys
  · rw [keys_set_of_old old]
    exact distinct
  · rw [set_of_new old,keys,List.map_append]
    refine List.nodup_append.mpr ⟨distinct,List.nodup_singleton _,?_⟩
    rintro k one _ other rfl
    obtain rfl : k = key := List.mem_singleton.mp other
    exact old one

theorem forall_set {P : β → Prop} {t : Table α β} (each : ∀ p ∈ t, P p.2) (key : α) {value : β}
    (here : P value) : ∀ p ∈ t.set key value, P p.2 := by
  induction t with
  | nil => exact List.forall_mem_singleton.mpr here
  | cons pair t ih =>
    obtain ⟨first,others⟩ := List.forall_mem_cons.mp each
    rw [set]
    split
    · exact List.forall_mem_cons.mpr ⟨here,others⟩
    · exact List.forall_mem_cons.mpr ⟨first,ih others⟩

/-- What holds of the values and of a new one, and what a change keeps, holds after the change. -/
theorem forall_update {P : β → Prop} {t : Table α β} (each : ∀ p ∈ t, P p.2) (key : α) {default : β}
    {f : β → β} (new : P default) (kept : ∀ value, P value → P (f value)) :
    ∀ p ∈ t.update key default f, P p.2 := by
  refine forall_set each key (kept _ ?_)
  cases found : t.get? key with
  | none => exact new
  | some value => exact each _ (mem_of_get? found)

/-- Where the keys that are set differ, each has its new value, and the others have their old ones. -/
theorem keys_adjust (t : Table α β) (key : α) (f : β → β) : (t.adjust key f).keys = t.keys := by
  rw [keys,adjust,List.map_map]
  refine List.map_congr_left fun p _ => ?_
  rw [Function.comp_apply]
  split <;> rfl

theorem adjust_of_new {t : Table α β} {key : α} (new : key ∉ t.keys) (f : β → β) : t.adjust key f = t := by
  refine (List.map_congr_left fun p member => ?_).trans (List.map_id t)
  exact if_neg fun same => new (List.mem_map.mpr ⟨p,member,same⟩)

theorem get?_adjust (t : Table α β) (key other : α) (f : β → β) :
    (t.adjust key f).get? other = if key = other then (t.get? other).map f else t.get? other := by
  induction t with
  | nil => exact (ite_self _).symm
  | cons pair t ih =>
    obtain ⟨k,v⟩ := pair
    have head : adjust ((k,v) :: t) key f = (k,if k = key then f v else v) :: adjust t key f := by
      rw [adjust,List.map_cons]
      split <;> rfl
    rw [head,get?,get?,ih]
    by_cases here : k = other
    · simp only [here,if_true]
      by_cases same : other = key
      · simp [same]
      · simp [same,Ne.symm same]
    · simp only [here,if_false]

/-- Tables with the same keys are the same where each key has the same value. -/
theorem eq_of_get? {t u : Table α β} (distinct : t.keys.Nodup) (keys_ : t.keys = u.keys)
    (values : ∀ key ∈ t.keys, t.get? key = u.get? key) : t = u := by
  induction t generalizing u with
  | nil => exact (List.map_eq_nil_iff.mp keys_.symm).symm
  | cons pair t ih =>
    obtain ⟨k,v⟩ := pair
    cases u with
    | nil => cases keys_
    | cons other u =>
      obtain ⟨k',v'⟩ := other
      obtain ⟨rfl,rest⟩ := List.cons.inj keys_
      obtain ⟨new,later⟩ := List.nodup_cons.mp distinct
      have first := values _ (List.mem_cons_self ..)
      rw [get?,get?,if_pos rfl,if_pos rfl] at first
      obtain rfl := Option.some.inj first
      refine congrArg _ (ih later rest fun key member => ?_)
      have apart : k ≠ key := fun same => new (same ▸ member)
      have here := values key (.tail _ member)
      rw [get?,get?] at here
      simpa only [apart,if_false] using here

theorem get?_setAll (t : Table α β) {others : List (α × β)} (distinct : (keys others).Nodup) (key : α) :
    (t.setAll others).get? key = (Table.get? others key).or (t.get? key) := by
  induction others generalizing t with
  | nil => rfl
  | cons pair others ih =>
    obtain ⟨k,v⟩ := pair
    obtain ⟨new,later⟩ := List.nodup_cons.mp distinct
    have step : t.setAll ((k,v) :: others) = (t.set k v).setAll others := rfl
    rw [step,ih _ later,get?_set,get?]
    by_cases same : k = key
    · have none : Table.get? others key = none := get?_eq_none_iff.mpr (same ▸ new)
      rw [if_pos same,if_pos same,none]
      rfl
    · rw [if_neg same,if_neg same]

theorem ofPairs_concat (pairs : List (α × β)) (pair : α × β) :
    ofPairs (pairs ++ [pair]) = (ofPairs pairs).set pair.1 pair.2 := List.foldl_append ..

/-- Pairs whose keys differ are a table as they are. -/
theorem ofPairs_of_nodup {pairs : List (α × β)} (distinct : (pairs.map Prod.fst).Nodup) :
    ofPairs pairs = pairs := by
  induction pairs using List.reverseRecOn with
  | nil => rfl
  | append_singleton pairs pair ih =>
    rw [List.map_append,List.nodup_append] at distinct
    obtain ⟨front,_,apart⟩ := distinct
    rw [ofPairs_concat,ih front]
    exact set_of_new (fun old => apart _ old _ (List.mem_singleton.mpr rfl) rfl) _

/-- The first pair of a key gives it its place. -/
theorem keys_ofPairs (pairs : List (α × β)) : (ofPairs pairs).keys = (pairs.map Prod.fst).eraseDups := by
  induction pairs using List.reverseRecOn with
  | nil => rfl
  | append_singleton pairs pair ih =>
    rw [ofPairs_concat,keys_set,ih,List.map_append,List.map_singleton,eraseDups_concat]
    simp only [List.mem_eraseDups]

/-- The last pair of a key gives it its value. -/
theorem get?_ofPairs (pairs : List (α × β)) (key : α) :
    (ofPairs pairs).get? key = (pairs.filter fun p => p.1 = key).getLast?.map Prod.snd := by
  induction pairs using List.reverseRecOn with
  | nil => rfl
  | append_singleton pairs pair ih =>
    rw [ofPairs_concat,get?_set,List.filter_append,ih]
    by_cases same : pair.1 = key <;> simp [same]

theorem nodup_keys_ofPairs (pairs : List (α × β)) : (ofPairs pairs).keys.Nodup := by
  rw [keys_ofPairs]
  exact nodup_eraseDups _

theorem mem_of_mem_ofPairs {pairs : List (α × β)} {pair : α × β} (member : pair ∈ ofPairs pairs) :
    pair ∈ pairs := by
  have found := get?_of_mem (nodup_keys_ofPairs pairs) member
  rw [get?_ofPairs] at found
  obtain ⟨last,listed,value⟩ := Option.map_eq_some_iff.mp found
  obtain ⟨listed,key⟩ := List.mem_filter.mp (List.mem_of_getLast? listed)
  exact Prod.ext (of_decide_eq_true key) value ▸ listed

/-- Looking up what items are filed under is searching the items. -/
theorem get?_map {γ : Type} (key : γ → α) (value : γ → β) (xs : List γ) (k : α) :
    Table.get? (xs.map fun x => (key x,value x)) k = (xs.find? fun x => key x = k).map value := by
  induction xs with
  | nil => rfl
  | cons x xs ih =>
    rw [List.map_cons,get?,List.find?_cons]
    by_cases same : key x = k
    · rw [if_pos same,decide_eq_true same]
      rfl
    · rw [if_neg same,decide_eq_false same]
      exact ih

/-! Values accumulated by key. -/

def accumulate {γ : Type} (key : γ → α) (default : β) (f : γ → β → β) (xs : List γ) : Table α β :=
  xs.foldl (fun t x => t.update (key x) default (f x)) []

section

variable {γ : Type} (key : γ → α) (default : β) (f : γ → β → β)

theorem accumulate_concat (xs : List γ) (x : γ) : accumulate key default f (xs ++ [x]) =
    (accumulate key default f xs).update (key x) default (f x) := List.foldl_append ..

/-- Keys stand in the order of their first items. -/
theorem keys_accumulate (xs : List γ) :
    (accumulate key default f xs).keys = (xs.map key).eraseDups := by
  induction xs using List.reverseRecOn with
  | nil => rfl
  | append_singleton xs x ih =>
    rw [accumulate_concat,update,keys_set,ih,List.map_append,List.map_singleton,eraseDups_concat]
    simp only [List.mem_eraseDups]

theorem nodup_keys_accumulate (xs : List γ) : (accumulate key default f xs).keys.Nodup := by
  rw [keys_accumulate]
  exact nodup_eraseDups _

/-- A key has the value that its own items make, in their order. -/
theorem get?_accumulate (xs : List γ) (k : α) : (accumulate key default f xs).get? k =
    if k ∈ xs.map key then some ((xs.filter fun x => key x = k).foldl (fun v x => f x v) default)
    else none := by
  induction xs using List.reverseRecOn with
  | nil => rfl
  | append_singleton xs x ih =>
    rw [accumulate_concat,update,get?_set]
    by_cases same : key x = k
    · have before : ((accumulate key default f xs).get? (key x)).getD default =
          (xs.filter fun x => key x = k).foldl (fun v x => f x v) default := by
        rw [same,ih]
        split
        · rfl
        · rename_i new
          rw [filter_key_of_new new]
          rfl
      rw [if_pos same,before,if_pos (by simp [same])]
      simp [same,List.foldl_append]
    · have names : k ∈ (xs ++ [x]).map key ↔ k ∈ xs.map key := by
        simp [Ne.symm same]
      have kept : (xs ++ [x]).filter (fun x => key x = k) = xs.filter fun x => key x = k := by
        simp [same]
      rw [if_neg same,ih,kept]
      simp only [names]

/-- A key without items has the value that all start from. -/
theorem getD_get?_accumulate (xs : List γ) (k : α) :
    ((accumulate key default f xs).get? k).getD default =
      (xs.filter fun x => key x = k).foldl (fun v x => f x v) default := by
  rw [get?_accumulate]
  split
  · rfl
  · rename_i new
    rw [filter_key_of_new new]
    rfl

theorem mem_keys_accumulate {xs : List γ} {k : α} :
    k ∈ (accumulate key default f xs).keys ↔ k ∈ xs.map key := by
  rw [keys_accumulate,List.mem_eraseDups]

/-- Where no two items have one key, each has its value to itself. -/
theorem accumulate_of_nodup {xs : List γ} (distinct : (xs.map key).Nodup) :
    accumulate key default f xs = xs.map fun x => (key x,f x default) := by
  induction xs using List.reverseRecOn with
  | nil => rfl
  | append_singleton xs x ih =>
    rw [List.map_append,List.nodup_append] at distinct
    obtain ⟨front,_,apart⟩ := distinct
    have new : key x ∉ (accumulate key default f xs).keys := fun old =>
      apart _ ((mem_keys_accumulate ..).mp old) _ (List.mem_singleton.mpr rfl) rfl
    rw [accumulate_concat,update,get?_eq_none_iff.mpr new,set_of_new new,ih front,List.map_append]
    rfl

end

/-! Values gathered by key. -/

section

variable {γ : Type} (key : γ → α) (value : γ → β)

def gather (xs : List γ) : Table α (List β) :=
  accumulate key [] (fun x values => values ++ [value x]) xs

theorem foldl_concat (xs : List γ) (before : List β) :
    xs.foldl (fun values x => values ++ [value x]) before = before ++ xs.map value := by
  induction xs generalizing before with
  | nil => simp
  | cons x xs ih => simp [ih]

/-- A key has the values of its items, in their order. -/
theorem getD_get?_gather (xs : List γ) (k : α) :
    ((gather key value xs).get? k).getD [] = (xs.filter fun x => key x = k).map value := by
  rw [gather,getD_get?_accumulate,foldl_concat,List.nil_append]

theorem gather_eq_map (xs : List γ) : gather key value xs =
    (xs.map key).eraseDups.map fun k => (k,(xs.filter fun x => key x = k).map value) := by
  have names : (gather key value xs).keys = (xs.map key).eraseDups := keys_accumulate ..
  have distinct : (gather key value xs).keys.Nodup := nodup_keys_accumulate ..
  rw [← map_getD_keys distinct [],names]
  simp only [getD_get?_gather]

end

/-- Each key stands with the values of its pairs, in their order. -/
theorem group_eq_map (pairs : List (α × β)) : group pairs =
    (pairs.map Prod.fst).eraseDups.map fun k => (k,(pairs.filter fun p => p.1 = k).map Prod.snd) :=
  gather_eq_map ..

end Table

end DepAudit
