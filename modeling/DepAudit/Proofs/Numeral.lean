import DepAudit.Numeral
import Mathlib

/-! Numerals: what is read is a run of decimal digits within the length limit, and its value has no more
figures than it has digits. In a text with short runs of digits every numeral can be read, wherever it
stands. -/
namespace DepAudit

theorem Text.digitValue?_lt {c : Char} {d : Nat} (digit : digitValue? c = some d) : d < 10 := by
  rw [digitValue?] at digit
  split at digit
  · rename_i ascii
    split at digit
    · rename_i decimal
      obtain rfl := Option.some.inj digit
      have high : c.toNat ≤ 57 := (Char.isDigit_iff_toNat.mp decimal).2
      omega
    · cases digit
  · obtain ⟨first,found,rfl⟩ := Option.map_eq_some_iff.mp digit
    have near := List.find?_some found
    rw [Bool.and_eq_true,decide_eq_true_eq,decide_eq_true_eq] at near
    omega

namespace Numeral
open Text

variable {cs ds run : List Char} {n : Nat}

theorem digitsValue?_lt {start : Nat} (spelled : digitsValue? cs start = .ok n) :
    n < (start + 1) * 10 ^ cs.length := by
  induction cs generalizing start with
  | nil =>
    obtain rfl := Except.ok.inj spelled
    simp
  | cons c cs ih =>
    rw [digitsValue?] at spelled
    split at spelled
    · rename_i d digit
      have small := digitValue?_lt digit
      calc n < (10 * start + d + 1) * 10 ^ cs.length := ih spelled
        _ ≤ (start + 1) * 10 * 10 ^ cs.length := Nat.mul_le_mul_right _ (by omega)
        _ = (start + 1) * 10 ^ (c :: cs).length := by rw [List.length_cons,Nat.pow_succ',Nat.mul_assoc]
    · cases spelled

theorem lt_pow_of_read (spelled : read cs = .ok n) : n < 10 ^ maxDigits := by
  rw [read] at spelled
  split at spelled
  · cases spelled
  · rename_i short
    calc n < (0 + 1) * 10 ^ cs.length := digitsValue?_lt spelled
      _ = 10 ^ cs.length := by rw [Nat.zero_add,Nat.one_mul]
      _ ≤ 10 ^ maxDigits := Nat.pow_le_pow_right (by decide) (Nat.le_of_not_gt short)

theorem exists_digitsValue?_iff {start : Nat} :
    (∃ n, digitsValue? cs start = .ok n) ↔ ∀ c ∈ cs, isDecimalDigit c = true := by
  induction cs generalizing start with
  | nil => exact ⟨fun _ => nofun,fun _ => ⟨start,rfl⟩⟩
  | cons c cs ih =>
    rw [List.forall_mem_cons,digitsValue?,isDecimalDigit]
    cases digitValue? c with
    | none => exact ⟨nofun,nofun⟩
    | some d => exact ih.trans ⟨fun later => ⟨rfl,later⟩,And.right⟩

theorem exists_read_iff :
    (∃ n, read cs = .ok n) ↔ cs.length ≤ maxDigits ∧ ∀ c ∈ cs, isDecimalDigit c = true := by
  rw [read]
  split
  · rename_i long
    exact ⟨nofun,fun short => absurd short.1 (Nat.not_le.mpr long)⟩
  · rename_i short
    exact exists_digitsValue?_iff.trans ⟨fun digits => ⟨Nat.le_of_not_gt short,digits⟩,And.right⟩

def ShortRuns (cs : List Char) : Prop :=
  ∀ run, run <:+: cs → (∀ c ∈ run, isDecimalDigit c = true) → run.length ≤ maxDigits

namespace ShortRuns

theorem mono (short : ShortRuns cs) (inside : ds <:+: cs) : ShortRuns ds :=
  fun run part => short run (part.trans inside)

theorem of_length (few : cs.length ≤ maxDigits) : ShortRuns cs :=
  fun _ part _ => Nat.le_trans part.length_le few

theorem exists_read_iff (short : ShortRuns cs) (inside : run <:+: cs) :
    (∃ n, read run = .ok n) ↔ ∀ c ∈ run, isDecimalDigit c = true :=
  Numeral.exists_read_iff.trans ⟨And.right,fun digits => ⟨short run inside digits,digits⟩⟩

end ShortRuns

end Numeral

end DepAudit
