import DepAudit.Fact
import DepAudit.Proofs.Table
import Mathlib.Data.List.Forall2

/-! JSON values that are equal as data: the members of an object may stand in any order, and doubles are compared
as numbers. A record leaves out the members without a value; still it tells each of them, since a
member that is there differs from one that is not. -/
namespace DepAudit

theorem rel_eq_iff {β : Type} {x y : Option β} : Option.Rel (· = ·) x y ↔ x = y := by
  cases x <;> cases y <;> simp

theorem rel_map {β γ : Type} {R : γ → γ → Prop} {f : β → γ} {x y : Option β} :
    Option.Rel R (x.map f) (y.map f) ↔ Option.Rel (fun a b => R (f a) (f b)) x y := by
  cases x <;> cases y <;> simp

namespace Table

variable {α β : Type} [DecidableEq α]

def Alike (t u : Table α β) : Prop := ∀ key, t.get? key = u.get? key

theorem alike_nil_left {u : Table α β} : Alike [] u ↔ u = [] := by
  constructor
  · intro same
    cases u with
    | nil => rfl
    | cons pair u =>
      have first := same pair.1
      simp [get?] at first
  · rintro rfl _
    rfl

theorem alike_nil_right {t : Table α β} : Alike t [] ↔ t = [] :=
  ⟨fun same => alike_nil_left.mp fun key => (same key).symm,fun none => none ▸ fun _ => rfl⟩

/-- Looking up a key among those that have a value. -/
theorem get?_present {t : Table α (Option β)} (distinct : t.keys.Nodup) (key : α) :
    Table.get? (t.filterMap fun p => p.2.map (p.1,·)) key = (t.get? key).join := by
  induction t with
  | nil => rfl
  | cons pair t ih =>
    obtain ⟨k,v⟩ := pair
    obtain ⟨new,later⟩ := List.nodup_cons.mp distinct
    rw [List.filterMap_cons,get?]
    cases v with
    | none =>
      by_cases same : k = key
      · have other : Table.get? t key = none := get?_eq_none_iff.mpr (same ▸ new)
        simp [same,ih later,other]
      · simp [same,ih later]
    | some v =>
      by_cases same : k = key
      · simp [same,get?]
      · simp [same,get?,ih later]

/-- Tables of the same keys are related key by key just if they are so pair by pair. -/
theorem rel_get?_iff {γ : Type} {R : β → γ → Prop} {t : Table α (Option β)} {u : Table α (Option γ)}
    (same : t.keys = u.keys) (distinct : t.keys.Nodup) :
    (∀ key, Option.Rel R (t.get? key).join (u.get? key).join) ↔
      List.Forall₂ (fun p q => Option.Rel R p.2 q.2) t u := by
  induction t generalizing u with
  | nil =>
    obtain rfl : u = [] := List.map_eq_nil_iff.mp same.symm
    simp [get?]
  | cons pair t ih =>
    obtain ⟨k,v⟩ := pair
    cases u with
    | nil => cases same
    | cons other u =>
      obtain ⟨k',w⟩ := other
      obtain ⟨rfl,rest⟩ := List.cons.inj same
      obtain ⟨new,later⟩ := List.nodup_cons.mp distinct
      rw [List.forall₂_cons,← ih rest later]
      constructor
      · intro related
        refine ⟨by simpa [get?] using related k,fun key => ?_⟩
        by_cases here : k = key
        · have one : Table.get? t key = none := get?_eq_none_iff.mpr (here ▸ new)
          have two : Table.get? u key = none := get?_eq_none_iff.mpr fun old => new (here ▸ rest ▸ old)
          simp [one,two]
        · simpa [get?,here] using related key
      · rintro ⟨first,others⟩ key
        by_cases here : k = key
        · simpa [get?,here] using first
        · simpa [get?,here] using others key

end Table

namespace Json

/-- Equal as data. Numbers of different kinds are not compared: what a record has at one place is always of one
kind. -/
inductive Alike : Json → Json → Prop
  | null : Alike null null
  | bool (b : Bool) : Alike (bool b) (bool b)
  | int (n : Int) : Alike (int n) (int n)
  | float {x y : Float} (equal : x == y) : Alike (float x) (float y)
  | str (s : String) : Alike (str s) (str s)
  | arr {vs ws : List Json} (items : List.Forall₂ Alike vs ws) : Alike (arr vs) (arr ws)
  | obj {ms ns : Table String Json} (members : ∀ name, Option.Rel Alike (ms.get? name) (ns.get? name)) :
    Alike (obj ms) (obj ns)

theorem alike_int {m n : Int} : Alike (int m) (int n) ↔ m = n :=
  ⟨fun same => by cases same; rfl,fun same => same ▸ .int m⟩

theorem alike_float {x y : Float} : Alike (float x) (float y) ↔ x == y :=
  ⟨fun same => by cases same; assumption,.float⟩

theorem alike_str {s t : String} : Alike (str s) (str t) ↔ s = t :=
  ⟨fun same => by cases same; rfl,fun same => same ▸ .str s⟩

theorem alike_arr {vs ws : List Json} : Alike (arr vs) (arr ws) ↔ List.Forall₂ Alike vs ws :=
  ⟨fun same => by cases same; assumption,.arr⟩

theorem alike_obj {ms ns : Table String Json} :
    Alike (obj ms) (obj ns) ↔ ∀ name, Option.Rel Alike (ms.get? name) (ns.get? name) :=
  ⟨fun same => by cases same; assumption,.obj⟩

/-! Records. -/

section

variable {ms ns : Table String (Option Json)}

/-- Records with members of the same names are alike just if they are so member by member. -/
theorem alike_record (same : ms.keys = ns.keys) (distinct : ms.keys.Nodup) :
    (record ms).Alike (record ns) ↔ List.Forall₂ (fun m n => Option.Rel Alike m.2 n.2) ms ns := by
  have also : ns.keys.Nodup := same ▸ distinct
  rw [record,record,alike_obj,← Table.rel_get?_iff same distinct]
  simp only [Table.get?_present distinct,Table.get?_present also]

theorem record_inj (same : ms.keys = ns.keys) (distinct : ms.keys.Nodup) :
    record ms = record ns ↔ ms = ns := by
  have also : ns.keys.Nodup := same ▸ distinct
  refine ⟨fun equal => Table.eq_of_get? distinct same fun name member => ?_,congrArg record⟩
  obtain ⟨v,first⟩ := Table.mem_keys_iff.mp member
  obtain ⟨w,second⟩ := Table.mem_keys_iff.mp (same ▸ member)
  have read := congrArg (Table.get? · name) (Json.obj.inj equal)
  simp only [Table.get?_present distinct,Table.get?_present also,first,second,Option.join_some] at read
  rw [first,second,read]

end

/-! What a member holds. -/

theorem rel_strings {x y : Option String} : Option.Rel Alike (x.map str) (y.map str) ↔ x = y := by
  simp only [rel_map,alike_str,rel_eq_iff]

theorem rel_ints {x y : Option Int} : Option.Rel Alike (x.map int) (y.map int) ↔ x = y := by
  simp only [rel_map,alike_int,rel_eq_iff]

theorem strings_inj {x y : Option String} : x.map str = y.map str ↔ x = y :=
  Option.map_inj_right fun _ _ => Json.str.inj

theorem ints_inj {x y : Option Int} : x.map int = y.map int ↔ x = y :=
  Option.map_inj_right fun _ _ => Json.int.inj

end Json

namespace Table

variable {t u : Table String String}

theorem get?_mapValues {α β γ : Type} [DecidableEq α] (f : β → γ) (t : Table α β) (key : α) :
    Table.get? (t.map fun p => (p.1,f p.2)) key = (t.get? key).map f := by
  have found := get?_map Prod.fst Prod.snd t key
  rw [List.map_id'] at found
  rw [get?_map Prod.fst fun p => f p.2,found,Option.map_map]
  rfl

theorem alike_toJson : t.toJson.Alike u.toJson ↔ t.Alike u := by
  simp only [toJson,Json.alike_obj,get?_mapValues,Json.rel_strings,Alike]

theorem rel_toJson? : Option.Rel Json.Alike t.toJson? u.toJson? ↔ t.Alike u := by
  cases t with
  | nil => cases u <;> simp [toJson?,alike_nil_left]
  | cons p t => cases u <;> simp [toJson?,alike_nil_right,alike_toJson]

theorem toJson_inj : t.toJson = u.toJson ↔ t = u := by
  have apart : Function.Injective fun p : String × String => (p.1,Json.str p.2) := by
    rintro ⟨k,v⟩ ⟨k',v'⟩ same
    simpa using same
  rw [toJson,toJson,Json.obj.injEq,apart.list_map.eq_iff]

theorem toJson?_inj : t.toJson? = u.toJson? ↔ t = u := by
  cases t <;> cases u <;> simp [toJson?,toJson_inj]

end Table

end DepAudit
