import DepAudit.Scalar
import Mathlib.Data.Prod.Lex
import Mathlib.Data.Rat.Cast.Order

/-! Arithmetic whose values can be sorted. Doubles that are no numbers stand in no order, but they are greater and
less than nothing either; what has been brought between two bounds can be compared with one of them. -/
namespace DepAudit

/-- Values in an order, apart from those that compare with none: where one value is less than another, whatever
compares at all is above the first or below the second. -/
class Scalar.Ordered (α : Type) [Scalar α] : Prop where
  asymm {a b : α} (less : a < b) : ¬b < a
  splits {a b c d : α} (less : a < c) (compared : b < d ∨ d < b) : a < b ∨ b < c
  zero_lt_hundred : (Scalar.zero : α) < Scalar.ofInt 100

namespace Scalar

variable {α : Type} [Scalar α]

theorem Ordered.of_places {β : Type} [LinearOrder β] (place : α → Option β)
    (placed : ∀ {x y : α}, x < y ↔ ∃ p ∈ place x, ∃ q ∈ place y, p < q)
    (bounds : (zero : α) < ofInt 100) : Ordered α where
  zero_lt_hundred := bounds
  asymm less more := by
    obtain ⟨p,one,q,other,order⟩ := placed.mp less
    obtain ⟨q',again,p',too,back⟩ := placed.mp more
    obtain rfl := Option.some.inj (one.symm.trans too)
    obtain rfl := Option.some.inj (other.symm.trans again)
    exact order.asymm back
  splits {a b c d} less compared := by
    obtain ⟨p,one,q,other,order⟩ := placed.mp less
    obtain ⟨m,middle⟩ : ∃ m, m ∈ place b := by
      rcases compared with up | down
      · obtain ⟨m,middle,_⟩ := placed.mp up
        exact ⟨m,middle⟩
      · obtain ⟨_,_,m,middle,_⟩ := placed.mp down
        exact ⟨m,middle⟩
    rcases lt_or_ge p m with above | below
    · exact .inl (placed.mpr ⟨p,one,m,middle,above⟩)
    · exact .inr (placed.mpr ⟨m,middle,q,other,below.trans_lt order⟩)

variable [Ordered α]

theorem clamp_compares (x : α) : (clamp zero (ofInt 100) x : α) < ofInt 100 ∨
    zero < (clamp zero (ofInt 100) x : α) := by
  unfold clamp
  dsimp only
  generalize (if x < ofInt 100 then x else ofInt 100) = v
  by_cases above : zero < v
  · rw [if_pos above]
    exact .inr above
  · rw [if_neg above]
    exact .inl Ordered.zero_lt_hundred

end Scalar

instance : Scalar.Ordered ℚ :=
  .of_places some (by simp) (by decide +kernel)

namespace Binary64
open Float.Model Float.Model.UnpackedFloat

def place : UnpackedFloat → Option (ℤ ×ₗ ℤ ×ₗ ℤ)
  | .notANumber => none
  | .infinity .negative => some (toLex (-2,toLex (0,0)))
  | .finite .negative m e _ => some (toLex (-1,toLex (-e,-m)))
  | .zero _ => some (toLex (0,toLex (0,0)))
  | .finite .positive m e _ => some (toLex (1,toLex (e,m)))
  | .infinity .positive => some (toLex (2,toLex (0,0)))

theorem lt_iff_places (x y : UnpackedFloat) :
    x.lt y = true ↔ ∃ p ∈ place x, ∃ q ∈ place y, p < q := by
  have infinities : compare Sign.negative Sign.positive = .lt := rfl
  rw [UnpackedFloat.lt,beq_iff_eq]
  rcases x with (_ | _) | _ | _ | ⟨_ | _,m,e,_⟩ <;> rcases y with (_ | _) | _ | _ | ⟨_ | _,n,f,_⟩ <;>
    dsimp only [UnpackedFloat.compare,place] <;>
    simp [Prod.Lex.toLex_lt_toLex,Ordering.then_eq_lt,Ordering.then_eq_gt,Int.compare_eq_lt,
      Int.compare_eq_gt,Nat.compare_eq_lt,Nat.compare_eq_gt,infinities]

end Binary64

instance : Scalar.Ordered Float :=
  .of_places (fun x => Binary64.place x.toModel.unpack)
    (decide_eq_true_iff.trans (Binary64.lt_iff_places _ _)) (by decide +kernel)

end DepAudit
