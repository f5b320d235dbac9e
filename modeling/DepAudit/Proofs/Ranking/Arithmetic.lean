import DepAudit.Proofs.Ranking.Exact
import Mathlib.Data.Option.NAry

/-! A ranking in another arithmetic. Where a map keeps sums, products, order and quotients by positive numbers, it
takes a ranking to the ranking of what it is made from. Since zero is not among the divisors that such a map is
asked about, one can go over to an arithmetic in which nothing can be divided by zero. -/
namespace DepAudit

def ImportMetrics.map {α β : Type} (f : α → β) (m : ImportMetrics α) : ImportMetrics β :=
  { m with coverage := f m.coverage }

def Weights.map {α β : Type} (f : α → β) (w : Weights α) : Weights β :=
  ⟨f w.importFrequency,f w.bottleneck,f w.direct,f w.depth,f w.importCount,f w.coverage⟩

def Breakdown.map {α β : Type} (f : α → β) (b : Breakdown α) : Breakdown β :=
  { b with importFrequency := f b.importFrequency, transitiveDepth := f b.transitiveDepth }

def Score.map {α β : Type} (f : α → β) (s : Score α) : Score β :=
  ⟨s.name,f s.score,s.breakdown.map f⟩

namespace Scalar

variable {α β : Type} [Scalar α] [Scalar β]

structure Keeps (f : α → β) : Prop where
  add (a b : α) : f (a + b) = f a + f b
  sub (a b : α) : f (a - b) = f a - f b
  mul (a b : α) : f (a * b) = f a * f b
  lt (a b : α) : f a < f b ↔ a < b
  quotient (n : ℤ) {d : ℕ} (positive : 0 < d) : f (ofQuotient n d) = ofQuotient n d

variable {f : α → β} (keeps : Keeps f)
include keeps

theorem Keeps.ofInt (n : ℤ) : f (Scalar.ofInt n) = Scalar.ofInt n := keeps.quotient n Nat.one_pos

theorem Keeps.zero : f Scalar.zero = Scalar.zero := keeps.ofInt 0

theorem Keeps.one : f Scalar.one = Scalar.one := keeps.ofInt 1

theorem Keeps.clamp (low high value : α) :
    f (Scalar.clamp low high value) = Scalar.clamp (f low) (f high) (f value) := by
  have least : (if f value < f high then f value else f high) =
      f (if value < high then value else high) := by
    simp only [keeps.lt,apply_ite f]
  unfold Scalar.clamp
  dsimp only
  rw [least]
  -- As it stands, the inner choice would be taken apart within the comparison too.
  generalize (if value < high then value else high) = v
  simp only [keeps.lt,apply_ite f]

theorem Keeps.bottlenecks (g : Graph) (factor : α) : g.bottlenecks (f factor) = g.bottlenecks factor := by
  simp only [Graph.bottlenecks,← keeps.ofInt,← keeps.mul,keeps.lt]

end Scalar

namespace Ranking

section

variable {α β : Type}

def mapMetrics (f : α → β) (metrics : Table String (ImportMetrics α)) : Table String (ImportMetrics β) :=
  metrics.map fun p => (p.1,p.2.map f)

def map (f : α → β) (r : Ranking α) : Ranking β :=
  { r with metrics := mapMetrics f r.metrics, weights := r.weights.map f }

theorem get?_mapMetrics (f : α → β) (metrics : Table String (ImportMetrics α)) (name : String) :
    (mapMetrics f metrics).get? name = (metrics.get? name).map (ImportMetrics.map f) := by
  have plain : metrics.get? name = (metrics.find? fun p => p.1 = name).map Prod.snd := by
    rw [← Table.get?_map]
    exact congrArg (Table.get? · name) (List.map_id _).symm
  rw [plain,Option.map_map]
  exact Table.get?_map ..

theorem maxTotal_mapMetrics (f : α → β) (metrics : Table String (ImportMetrics α)) (facts : List Fact) :
    maxTotal (mapMetrics f metrics) facts = maxTotal metrics facts := by
  have same : totals (mapMetrics f metrics) facts = totals metrics facts := by
    refine List.map_congr_left fun fact _ => ?_
    rw [get?_mapMetrics,Option.map_map]
    rfl
  unfold maxTotal
  rw [same]

end

variable {α β : Type} [Scalar α] [Scalar β] {f : α → β} (keeps : Scalar.Keeps f)
include keeps

theorem importShare_map (total top : ℤ) : f (importShare total top) = importShare total top := by
  unfold importShare
  split
  · rename_i some
    exact keeps.quotient total (Int.lt_toNat.mpr some)
  · exact keeps.zero

theorem signal_map (given : Bool) : f (signal given) = signal given := by
  cases given
  · exact keeps.zero
  · exact keeps.one

theorem depthScore_map (depth : Option ℕ) (top : ℕ) : f (depthScore depth top) = depthScore depth top := by
  cases depth with
  | none => exact keeps.zero
  | some d =>
    unfold depthScore
    dsimp only
    split
    · rename_i some
      rw [keeps.sub,keeps.one,keeps.quotient _ some]
    · exact keeps.zero

theorem frequency_map (r : Ranking α) (top : ℤ) (fact : Fact) :
    (r.map f).frequency top fact = f (r.frequency top fact) := by
  have found := get?_mapMetrics f r.metrics fact.name
  unfold frequency map
  dsimp only
  rw [found]
  cases r.metrics.get? fact.name with
  | some m =>
    dsimp only [Option.map_some]
    rw [keeps.clamp,keeps.zero,keeps.one,keeps.add,keeps.mul,keeps.mul,importShare_map keeps]
    rfl
  | none =>
    cases fact.importCount with
    | some n =>
      dsimp only [Option.map_none]
      split
      · exact keeps.one.symm
      · exact keeps.zero.symm
    | none => exact keeps.zero.symm

theorem breakdown_map (r : Ranking α) (top : ℤ) (fact : Fact) :
    (r.map f).breakdown top fact = (r.breakdown top fact).map f := by
  unfold breakdown Breakdown.map
  rw [frequency_map keeps,depthScore_map keeps]
  rfl

theorem score_map (r : Ranking α) (top : ℤ) (fact : Fact) :
    (r.map f).score top fact = (r.score top fact).map f := by
  have weighed (w : Weights α) (b : Breakdown α) : raw (w.map f) (b.map f) = f (raw w b) := by
    simp only [raw,keeps.add,keeps.mul,signal_map keeps]
    rfl
  unfold score Score.map
  dsimp only
  rw [breakdown_map keeps,keeps.clamp,keeps.zero,keeps.mul,keeps.ofInt,← weighed]
  rfl

theorem rank_map (r : Ranking α) (facts : List Fact) :
    (r.map f).rank facts = (r.rank facts).map (Score.map f) := by
  have top : maxTotal (r.map f).metrics facts = maxTotal r.metrics facts := maxTotal_mapMetrics ..
  have each : facts.map ((r.map f).score (maxTotal r.metrics facts)) =
      (facts.map (r.score (maxTotal r.metrics facts))).map (Score.map f) := by
    rw [List.map_map]
    exact List.map_congr_left fun fact _ => score_map keeps r _ fact
  rw [rank,rank,top,each,sort,sort,List.map_mergeSort]
  exact fun s _ t _ => congrArg not (decide_eq_decide.mpr (keeps.lt _ _).symm)

end Ranking

/-- Rationals among which nothing can be divided by zero: such a quotient has no value, and neither has what is
computed from it. -/
structure Checked where
  value : Option ℚ

namespace Checked

def of (x : ℚ) : Checked := ⟨some x⟩

instance : Scalar Checked where
  add a b := ⟨Option.map₂ (· + ·) a.value b.value⟩
  sub a b := ⟨Option.map₂ (· - ·) a.value b.value⟩
  mul a b := ⟨Option.map₂ (· * ·) a.value b.value⟩
  -- What has no value is less than anything and greater as well, so that no bound gives it one.
  lt a b := ∀ x ∈ a.value, ∀ y ∈ b.value, x < y
  ofQuotient n d := ⟨if d = 0 then none else some (mkRat n d)⟩
  decLt a b := inferInstanceAs (Decidable (∀ x ∈ a.value, ∀ y ∈ b.value, x < y))

theorem keeps_of : Scalar.Keeps of where
  add _ _ := rfl
  sub _ _ := rfl
  mul _ _ := rfl
  lt a b := by
    constructor
    · exact fun less => less a rfl b rfl
    · rintro less _ ⟨⟩ _ ⟨⟩
      exact less
  quotient n d positive := by
    change of _ = ⟨if d = 0 then none else some (mkRat n d)⟩
    rw [if_neg positive.ne']
    rfl

end Checked

end DepAudit
