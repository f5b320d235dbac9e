import DepAudit.Proofs.Version.Order
import DepAudit.Proofs.Version.Reading

/-! The loose comparison as an order. Turning the two texts round turns the answer round, also where they
are seen differently; among texts that are seen alike the comparison is a total preorder. -/
namespace DepAudit.Version

namespace Reading

theorem compareTriples_swap (a b : Reading) (texts : Ordering) :
    (a.compareTriples b texts).swap = b.compareTriples a texts.swap := by
  unfold compareTriples
  cases a.triple? with
  | none => cases b.triple? <;> rfl
  | some ta =>
    cases b.triple? with
    | none => rfl
    | some tb => exact Std.OrientedOrd.eq_swap.symm

theorem compare_swap (a b : Reading) (texts : Ordering) :
    (a.compare b texts).swap = b.compare a texts.swap := by
  have numbers := compareTriples_swap a b texts
  unfold Reading.compare
  cases a.version? with
  | none => cases b.version? <;> exact numbers
  | some v =>
    cases b.version? with
    | none => exact numbers
    | some w => exact Std.OrientedOrd.eq_swap.symm

theorem compare_self (a : Reading) : a.compare a .eq = .eq := by
  cases a with
  | version v => exact Std.ReflOrd.compare_self (a := v)
  | numbers t => exact Std.ReflOrd.compare_self (a := t)
  | plain => rfl

end Reading

variable {a b : String} {o : Ordering}

theorem compareLoose_swap (compared : compareLoose a b = .ok o) : compareLoose b a = .ok o.swap := by
  obtain ⟨⟨ra,readA⟩,⟨rb,readB⟩⟩ := reads_of_compareLoose compared
  obtain rfl := Except.ok.inj (compared.symm.trans (compareLoose_of_reads readA readB))
  rw [compareLoose_of_reads readB readA,Reading.compare_swap]
  exact congrArg (fun texts => Except.ok (rb.compare ra texts)) Std.OrientedOrd.eq_swap

theorem compareLoose_self (compared : compareLoose a b = .ok o) : compareLoose a a = .ok .eq := by
  obtain ⟨⟨ra,readA⟩,-⟩ := reads_of_compareLoose compared
  have texts : compare a a = .eq := Std.ReflCmp.compare_self
  rw [compareLoose_of_reads readA readA,texts,ra.compare_self]

inductive Sight where
  | version
  | numbers
  | plain

def Sight.Holds : Sight → String → Prop
  | version,text => ∃ v, parse? text = .ok (some v)
  | numbers,text => parse? text = .ok none ∧ ∃ t, looseTriple? text = .ok (some t)
  | plain,text => looseTriple? text = .ok none

abbrev Sight.Texts (sight : Sight) : Type := {text : String // sight.Holds text}

/-- The texts of one sight are compared by what is seen of them. -/
theorem Sight.exists_order (sight : Sight) : ∃ order : sight.Texts → sight.Texts → Ordering,
    Std.TransCmp order ∧ ∀ a b : sight.Texts, compareLoose a.1 b.1 = .ok (order a b) := by
  -- each time the order is that of what is seen, chosen once for every text
  cases sight with
  | version =>
    choose seen parsed using fun text : Sight.version.Texts => text.2
    have read : ∀ text, Reads text.1 (.version (seen text)) := fun text =>
      ⟨parsed text,looseTriple?_of_parse? (parsed text)⟩
    exact ⟨compareOn seen,inferInstance,fun a b => compareLoose_of_reads (read a) (read b)⟩
  | numbers =>
    choose seen numbered using fun text : Sight.numbers.Texts => text.2.2
    have read : ∀ text, Reads text.1 (.numbers (seen text)) := fun text => ⟨text.2.1,numbered text⟩
    exact ⟨compareOn seen,inferInstance,fun a b => compareLoose_of_reads (read a) (read b)⟩
  | plain =>
    have read : ∀ text : Sight.plain.Texts, Reads text.1 .plain := fun text =>
      ⟨parse?_of_looseTriple?_none text.2,text.2⟩
    exact ⟨compareOn Subtype.val,inferInstance,fun a b => compareLoose_of_reads (read a) (read b)⟩

/-- A comparison that comes to its end comes to the opposite end the other way round, and a text is level
with itself. On the versions, on the other texts with three numbers and on the texts without them no
comparison fails, and each time the order is total and transitive. -/
theorem compareLoose_is_comparator :
    (∀ {a b : String} {o : Ordering}, compareLoose a b = .ok o →
      compareLoose b a = .ok o.swap ∧ compareLoose a a = .ok .eq) ∧
    ∀ sight : Sight, ∃ order : sight.Texts → sight.Texts → Ordering,
      Std.TransCmp order ∧ ∀ a b : sight.Texts, compareLoose a.1 b.1 = .ok (order a b) :=
  ⟨fun compared => ⟨compareLoose_swap compared,compareLoose_self compared⟩,Sight.exists_order⟩

/-- A prerelease and the tag of another release are compared by their numbers; branches are compared as
texts. -/
theorem tag_and_branches_are_compared :
    (compareLoose "1.10.0-rc1" "v1.9.0" = .ok .gt ∧ compareLoose "v1.9.0" "1.10.0-rc1" = .ok .lt ∧
      compareLoose "1.10.0-rc1" "1.10.0-rc1" = .ok .eq) ∧
    ∃ order : Sight.plain.Texts → Sight.plain.Texts → Ordering, Std.TransCmp order ∧
        order ⟨"branch: main",by rfl⟩ ⟨"revision: 0a1b2c3",by rfl⟩ = .lt := by
  have compared : compareLoose "1.10.0-rc1" "v1.9.0" = .ok .gt := by decide +kernel
  obtain ⟨turned,level⟩ := compareLoose_is_comparator.1 compared
  obtain ⟨order,total,read⟩ := compareLoose_is_comparator.2 .plain
  refine ⟨⟨compared,turned,level⟩,order,total,?_⟩
  have texts : compareLoose "branch: main" "revision: 0a1b2c3" = .ok .lt := by decide +kernel
  exact Except.ok.inj ((read _ _).symm.trans texts)

end DepAudit.Version
