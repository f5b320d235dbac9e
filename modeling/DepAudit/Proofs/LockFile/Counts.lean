import DepAudit.Proofs.LockFile
import Mathlib.Algebra.Ring.Nat

/-! How often the pins of a lock file are counted. Every pin that is not skipped has one fact; a pin that lies
at a path of the file system is counted with the local ones as well, although it has its fact. -/
namespace DepAudit.LockFile

/-- A pin of the older generation whose location is a path of the file system. -/
def LiesAtPath (pin : Json) : Prop := ∃ name path, text? pin "package" = some name ∧
  text? (stateOf pin) "location" = some path ∧ isLocalPath path = true

theorem isSome_pinLocal?_iff {pin : Json} : (pinLocal? pin).isSome = true ↔ LiesAtPath pin := by
  rw [Option.isSome_iff_exists]
  constructor
  · rintro ⟨d,listed⟩
    exact ⟨d.name,d.path,pinLocal?_eq_some.mp listed⟩
  · rintro ⟨name,path,parts⟩
    exact ⟨⟨name,path⟩,pinLocal?_eq_some.mpr parts⟩

instance : DecidablePred LiesAtPath := fun _ => decidable_of_iff _ isSome_pinLocal?_iff

def listings (entry : Json) : Nat := (pinFact? entry).toList.length + (pinLocal? entry).toList.length

theorem listings_eq (entry : Json) : listings entry =
    if LiesAtPath entry then 2 else if (pinFact? entry).isSome then 1 else 0 := by
  rw [listings]
  split
  · rename_i atPath
    obtain ⟨d,listed⟩ := Option.isSome_iff_exists.mp (isSome_pinLocal?_iff.mpr atPath)
    obtain ⟨f,accepted,_⟩ := exists_fact_of_local listed
    rw [listed,accepted]
    rfl
  · rename_i elsewhere
    rw [← isSome_pinLocal?_iff,Option.not_isSome_iff_eq_none] at elsewhere
    rw [elsewhere]
    cases pinFact? entry <;> rfl

theorem count_ofPins (entries : List Json) : (ofPins entries).count = (entries.map listings).sum := by
  induction entries with
  | nil => rfl
  | cons entry entries ih =>
    have here : (ofPins [entry]).count = listings entry := by
      rw [count,ofPins,listings]
      cases fact : pinFact? entry <;> cases local_ : pinLocal? entry <;> simp [fact,local_]
    rw [← List.singleton_append,ofPins_append,List.map_append,List.sum_append,← ih,List.map_singleton,
      List.sum_singleton,← here]
    simp only [count,append,List.length_append]
    omega

theorem length_locals_ofPins (entries : List Json) :
    (ofPins entries).locals.length = entries.countP LiesAtPath := by
  rw [ofPins,List.length_filterMap_eq_countP]
  refine List.countP_congr fun entry _ => ?_
  rw [isSome_pinLocal?_iff,decide_eq_true_iff]

theorem accepts_of_pins? {document : Json} {entries : List Json} (listed : pins? document = some entries) :
    Accepts document (ofPins entries) := by
  have object : document.isObj = true := by
    cases document with
    | obj members => rfl
    | _ => cases listed
  refine accepts_of_ofJson ?_
  rw [ofJson,if_pos object,listed]

/-- Pins and skipped entries come to the number of entries just where no pin lies at a path: such a pin, and
no other one, is listed twice, once with its fact and once with the local pins. -/
theorem pins_counted_once_iff_none_at_path (document : Json) (entries : List Json)
    (listed : pins? document = some entries) : ∃ file, Accepts document file ∧
      file.facts.length + file.skipped = entries.length ∧
      file.count = (entries.map listings).sum ∧
      file.count + file.skipped = entries.length + entries.countP LiesAtPath ∧
      (file.count + file.skipped = entries.length ↔ ∀ entry ∈ entries, ¬LiesAtPath entry) ∧
      ((∀ entry ∈ entries, (pinFact? entry).isSome → listings entry = 1) ↔
        ∀ entry ∈ entries, ¬LiesAtPath entry) := by
  have external : (ofPins entries).facts.length + (ofPins entries).skipped = entries.length :=
    (readApart_ofPins entries).counted
  have twice : (ofPins entries).count + (ofPins entries).skipped =
      entries.length + entries.countP LiesAtPath := by
    rw [← external,← length_locals_ofPins,count]
    omega
  refine ⟨_,accepts_of_pins? listed,external,count_ofPins entries,twice,?_,?_⟩
  · have none : entries.countP LiesAtPath = 0 ↔ ∀ entry ∈ entries, ¬LiesAtPath entry := by
      simp only [List.countP_eq_zero,decide_eq_true_eq]
    rw [twice,← none]
    omega
  · refine forall₂_congr fun entry _ => ⟨fun once atPath => ?_,fun elsewhere accepted => ?_⟩
    · obtain ⟨d,local_⟩ := Option.isSome_iff_exists.mp (isSome_pinLocal?_iff.mpr atPath)
      obtain ⟨f,accepted,_⟩ := exists_fact_of_local local_
      have one := once (Option.isSome_iff_exists.mpr ⟨f,accepted⟩)
      rw [listings_eq,if_pos atPath] at one
      cases one
    · rw [listings_eq,if_neg elsewhere,if_pos accepted]

/-- The only pin of a file, counted twice. -/
theorem shared_pin_is_counted_twice : ∃ file,
    read "\x7b\"pins\":[\x7b\"package\":\"Shared\",\"state\":\x7b\"location\":\"../Shared\"\x7d\x7d]\x7d" none =
      .ok file ∧ pins? (listing [sharedPin]) = some [sharedPin] ∧ file.facts.length = 1 ∧
    file.count = 2 ∧ file.skipped = 0 ∧ file.count + file.skipped ≠ [sharedPin].length := by
  obtain ⟨file,accepted,external,count,_,once,_⟩ :=
    pins_counted_once_iff_none_at_path (listing [sharedPin]) [sharedPin] rfl
  have atPath : LiesAtPath sharedPin := by decide +kernel
  have two : file.count = 2 := count.trans (by decide +kernel)
  have same : ofPins [sharedPin] = file := Except.ok.inj ((accepts_listing [sharedPin]).1.symm.trans accepted.1)
  refine ⟨file,accepted.2 _ none rfl,rfl,?_,two,?_,fun exact_ => ?_⟩
  · rw [← same]
    decide +kernel
  · rw [← same]
    decide +kernel
  · exact once.mp exact_ sharedPin (List.mem_singleton.mpr rfl) atPath

end DepAudit.LockFile
