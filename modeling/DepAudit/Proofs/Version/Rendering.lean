import DepAudit.Proofs.Numeral
import DepAudit.Proofs.Version.Release

/-! The usual form of a version. It is read back as the version with all of its labels, where its numerals
can be read and its labels are labels; a version that was read from a text, in whatever form, is of this
kind. -/
namespace DepAudit
open Text

theorem Numeral.length_ofNat_le_iff {n : Nat} :
    (ofNat n).chars.length ≤ maxDigits ↔ n < 10 ^ maxDigits := by
  have digits : (ofNat n).chars = Nat.toDigits 10 n := toList_toString n
  rw [digits]
  exact Nat.length_toDigits_le_iff (by decide) (by decide)

namespace Version

structure Writable (v : Version) : Prop where
  numbers : (Release.ofTriple v.triple).Short
  prerelease : ∀ label ∈ v.prerelease, IsLabel label.toList
  build : ∀ label ∈ v.build, IsLabel label.toList

def parts (v : Version) : Parts :=
  { (Release.ofTriple v.triple).parts none with
    prerelease := v.prerelease.map String.toList
    build := v.build.map String.toList }

variable {v : Version} {text : String}

theorem versionOf_parts (v : Version) : v.parts.versionOf v.triple = v := by
  have back : ∀ label : Option String, (label.map String.toList).map String.ofList = label := by
    intro label
    cases label with
    | none => rfl
    | some text => exact congrArg some String.ofList_toList
  rw [Parts.versionOf,parts,back,back]

theorem labels_of_map {label : Option String} (sound : ∀ text ∈ label, IsLabel text.toList) :
    ∀ cs ∈ label.map String.toList, IsLabel cs := by
  intro cs member
  obtain ⟨text,named,rfl⟩ := Option.map_eq_some_iff.mp member
  exact sound text named

namespace Writable

theorem proper (writable : v.Writable) : v.parts.Proper := by
  obtain ⟨⟨major,minor,patch⟩,-,-⟩ := (Release.ofTriple v.triple).parts_proper none
  exact ⟨⟨major,minor,patch⟩,labels_of_map writable.prerelease,labels_of_map writable.build⟩

theorem triple_parts (writable : v.Writable) : v.parts.triple = .ok v.triple :=
  ((Release.ofTriple v.triple).triple_parts none).mpr ⟨writable.numbers,Release.triple_ofTriple _⟩

theorem toList_render (writable : v.Writable) : v.render.toList = v.parts.chars := by
  have labelText_ : ∀ {mark : String} {sign : Char} {label : Option String}, mark.toList = [sign] →
      (∀ text ∈ label, IsLabel text.toList) →
      (labelText mark label).toList = labelled sign (label.map String.toList) := by
    intro mark sign label marked sound
    cases label with
    | none => rfl
    | some text =>
      have filled : text.isEmpty = false := by
        rw [String.isEmpty_eq_false_iff]
        rintro rfl
        exact (sound "" rfl).1 rfl
      rw [labelText,filled,if_neg Bool.false_ne_true,String.toList_append,marked]
      rfl
  have numbers : (toString v.triple.major ++ "." ++ toString v.triple.minor ++ "." ++
      toString v.triple.patch).toList = v.parts.core := by
    simp [parts,Release.parts,Release.ofTriple,Numeral.ofNat,Parts.core,Phrase.chars]
  rw [render,String.toList_append,String.toList_append,numbers,
    labelText_ (by decide : "-".toList = ['-']) writable.prerelease,
    labelText_ (by decide : "+".toList = ['+']) writable.build,List.append_assoc]
  rfl

theorem visible (writable : v.Writable) : ∀ c ∈ v.parts.chars, isBlank c = false := by
  have plus : isBlank '+' = false := by decide +kernel
  have dash : isBlank '-' = false := by decide +kernel
  have labels : ∀ {sign : Char} {label : Option (List Char)}, isBlank sign = false →
      (∀ cs ∈ label, IsLabel cs) → ∀ c ∈ labelled sign label, isBlank c = false := by
    intro sign label visible sound c member
    cases label with
    | none => cases member
    | some cs =>
      rcases List.mem_cons.mp member with rfl | inside
      · exact visible
      · exact isBlank_of_plain (isPlain_of_label c ((sound cs rfl).2 c inside))
  intro c member
  rcases List.mem_append.mp member with inside | inside
  · exact isBlank_of_plain ((Release.ofTriple v.triple).plain_core c inside)
  · rcases List.mem_append.mp inside with inside | inside
    · exact labels dash writable.proper.prerelease c inside
    · exact labels plus writable.proper.build c inside

theorem parse?_render (writable : v.Writable) : parse? v.render = .ok (some v) := by
  have taken : Parts.ofText? (trim v.render.toList) = some v.parts := by
    rw [writable.toList_render,trim_of_visible writable.visible]
    exact Parts.ofText?_chars writable.proper
  rw [parse?_of_parts taken,writable.triple_parts]
  exact congrArg (fun v => Except.ok (some v)) (versionOf_parts v)

theorem of_parse? (read : parse? text = .ok (some v)) : v.Writable := by
  obtain ⟨p,t,taken,numbers,rfl⟩ := parts_of_parse? read
  obtain ⟨proper,-⟩ := Parts.spelled taken
  -- a number stays below the power of ten that the length of its numeral gives
  have short : ∀ {cs n}, Numeral.read cs = .ok n → (Numeral.ofNat n).chars.length ≤ Numeral.maxDigits :=
    fun spelled => Numeral.length_ofNat_le_iff.mpr (Numeral.lt_pow_of_read spelled)
  have labels : ∀ {label : Option (List Char)}, (∀ cs ∈ label, IsLabel cs) →
      ∀ text ∈ label.map String.ofList, IsLabel text.toList := by
    intro label sound text member
    obtain ⟨cs,named,rfl⟩ := Option.map_eq_some_iff.mp member
    rw [String.toList_ofList]
    exact sound cs named
  obtain ⟨major,first,numbers⟩ := bind_eq_ok.mp numbers
  obtain ⟨minor,second,numbers⟩ := bind_eq_ok.mp numbers
  obtain ⟨patch,third,same⟩ := bind_eq_ok.mp numbers
  obtain rfl := Except.ok.inj same
  exact ⟨⟨short first,short second,short third⟩,labels proper.prerelease,labels proper.build⟩

end Writable

/-- The usual form of a version that was read from a text is read as the same version, with the same labels,
and so has the same usual form again. It is so with every version of short numbers whose labels are labels,
and with no other. -/
theorem usual_form_is_read_back :
    (∀ {text : String} {v : Version}, parse? text = .ok (some v) → parse? v.render = .ok (some v)) ∧
    ∀ {v : Version}, parse? v.render = .ok (some v) ↔ v.Writable :=
  ⟨fun read => (Writable.of_parse? read).parse?_render,Writable.of_parse?,Writable.parse?_render⟩

/-- The first dash of a text and the plus behind it are marks, and the other dashes stand in the labels; zeros
in front and digits of another script are not written again. -/
theorem dashed_labels_are_read_back :
    (parse? " ٠٢.10.3--rc-+0-b\n" = .ok (some ⟨⟨2,10,3⟩,some "-rc-",some "0-b"⟩) ∧
      render ⟨⟨2,10,3⟩,some "-rc-",some "0-b"⟩ = "2.10.3--rc-+0-b" ∧
      parse? (render ⟨⟨2,10,3⟩,some "-rc-",some "0-b"⟩) = .ok (some ⟨⟨2,10,3⟩,some "-rc-",some "0-b"⟩)) ∧
    Writable ⟨⟨2,10,3⟩,none,some "-"⟩ ∧
      parse? (render ⟨⟨2,10,3⟩,none,some "-"⟩) = .ok (some ⟨⟨2,10,3⟩,none,some "-"⟩) := by
  obtain ⟨again,iff_writable⟩ := usual_form_is_read_back
  have read : parse? " ٠٢.10.3--rc-+0-b\n" = .ok (some ⟨⟨2,10,3⟩,some "-rc-",some "0-b"⟩) := by rfl
  have writable : Writable ⟨⟨2,10,3⟩,none,some "-"⟩ := by
    refine ⟨⟨by decide,by decide,by decide⟩,nofun,?_⟩
    rintro _ ⟨⟩
    exact ⟨by decide,by decide⟩
  exact ⟨⟨read,by decide,again read⟩,writable,iff_writable.mpr writable⟩

end Version

end DepAudit
