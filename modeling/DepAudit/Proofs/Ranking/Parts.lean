import DepAudit.Analysis
import DepAudit.Proofs.Outcome
import DepAudit.Proofs.Ranking.Places

/-! Ranking a part of the facts. Facts bear upon each other by the greatest number of imports only, and settings
that suit all facts suit each part of them. -/
namespace DepAudit

namespace Weights

variable {w : Weights Value} {top : Int} {totals few : List (Option Int)} {weights : Weights Float}

/-- Where no imports were counted the weights of the two parts of that signal are not looked at. -/
theorem amounts_of_fewer (done : w.amounts top totals = .ok weights) (fewer : ∀ t ∈ few, t ∈ totals) :
    ∃ amounts, w.amounts top few = .ok amounts ∧
      (few.any Option.isSome = true → amounts = weights) ∧
      { amounts with importCount := weights.importCount, coverage := weights.coverage } = weights := by
  obtain ⟨_,checked,rest⟩ := bind_eq_ok.mp done
  obtain ⟨signals,known,blend⟩ := bind_eq_ok.mp rest
  have each := forM_eq_ok.mp checked
  have still := forM_eq_ok.mpr fun t member => each t (fewer t member)
  by_cases counted : few.any Option.isSome = true
  · have before : totals.any Option.isSome = true := by
      obtain ⟨t,member,some⟩ := List.any_eq_true.mp counted
      exact List.any_eq_true.mpr ⟨t,fewer t member,some⟩
    rw [if_pos before] at blend
    refine ⟨weights,?_,fun _ => rfl,rfl⟩
    exact bind_eq_ok.mpr ⟨(),still,bind_eq_ok.mpr ⟨signals,known,(if_pos counted).trans blend⟩⟩
  · refine ⟨signals,?_,fun some => absurd some counted,?_⟩
    · exact bind_eq_ok.mpr ⟨(),still,bind_eq_ok.mpr ⟨signals,known,if_neg counted⟩⟩
    · split at blend
      · obtain ⟨importCount,_,more⟩ := bind_eq_ok.mp blend
        obtain ⟨coverage,_,same⟩ := bind_eq_ok.mp more
        cases same
        rfl
      · cases blend
        rfl

end Weights

namespace Ranking

/-- One order of the places of all facts, by their scores and, where these are equal, as the facts come, in which the
scores are listed for all facts and for every part of them with the same greatest number of imports. -/
def OneOrder {α β : Type} [LT α] (facts : List Fact) (metrics : Table String (ImportMetrics α))
    (score : Fin facts.length → Score α) (rank : List Fact → β) (listed : List (Score α) → β) : Prop :=
  ∃ order, Descends (fun i => (score i).score) order ∧ rank facts = listed (order.map score) ∧
    ∀ part : List (Fin facts.length), part.Sublist (List.finRange facts.length) →
      maxTotal metrics (part.map facts.get) = maxTotal metrics facts →
      rank (part.map facts.get) = listed ((order.filter (· ∈ part)).map score)

section

variable {α : Type} [Scalar α]

theorem score_uncounted {g : Graph} {bottlenecks : List String} {metrics : Table String (ImportMetrics α)}
    {f : Fact} (none : metrics.get? f.name = none) (top : ℤ) (weights : Weights α) (importCount coverage : α) :
    (against g bottlenecks metrics { weights with importCount, coverage }).score top f =
      (against g bottlenecks metrics weights).score top f := by
  have same : (against g bottlenecks metrics { weights with importCount, coverage }).frequency top f =
      (against g bottlenecks metrics weights).frequency top f :=
    (frequency_uncounted none top).trans (frequency_uncounted none top).symm
  unfold score breakdown
  rw [same]
  rfl

theorem oneOrder_rank [Scalar.Ordered α] (r : Ranking α) (facts : List Fact) :
    OneOrder facts r.metrics (r.scoreAt facts) r.rank id := by
  refine ⟨_,r.descends_rank facts,r.rank_eq_map facts,fun part sub top => ?_⟩
  rw [r.rank_part facts top,sort_part (r.scoreAt_compares facts) sub]
  rfl

end

variable {metrics : Table String (ImportMetrics Float)} {facts : List Fact} {weights : Weights Value}
  {amounts : Weights Float}

theorem amounts_of_part (suit : weights.amounts (maxTotal metrics facts) (totals metrics facts) = .ok amounts)
    {part : List Fact} (inside : part ⊆ facts) :
    ∃ fewer, weights.amounts (maxTotal metrics facts) (totals metrics part) = .ok fewer ∧
      ∀ g bottlenecks, ∀ f ∈ part,
        (against g bottlenecks metrics fewer).score (maxTotal metrics facts) f =
          (against g bottlenecks metrics amounts).score (maxTotal metrics facts) f := by
  obtain ⟨fewer,done,counted,rest⟩ := Weights.amounts_of_fewer suit (List.map_subset _ inside)
  refine ⟨fewer,done,fun g bottlenecks f member => ?_⟩
  cases known : metrics.get? f.name with
  | none =>
    rw [← rest]
    exact (score_uncounted known _ fewer _ _).symm
  | some m =>
    have total : some m.total ∈ totals metrics part := mem_totals.mpr ⟨f,member,m,known,rfl⟩
    rw [counted (List.any_eq_true.mpr ⟨_,total,rfl⟩)]

theorem oneOrder_rankBy {g : Graph} {factor : Value} {scores : List (Score Float)}
    (ranked : Analysis.rankBy g factor weights metrics facts = .ok scores) :
    ∃ score, (∀ i, (score i).name = (facts.get i).name) ∧
      OneOrder facts metrics score (Analysis.rankBy g factor weights metrics) .ok := by
  obtain ⟨bottlenecks,found,rest⟩ := bind_eq_ok.mp ranked
  have nothing : Analysis.rankBy g factor weights metrics [] = .ok [] := bind_eq_ok.mpr ⟨_,found,rfl⟩
  by_cases empty : facts = []
  · subst empty
    refine ⟨fun i => i.elim0,fun i => i.elim0,[],⟨.nil,.nil⟩,nothing,fun part sub _ => ?_⟩
    rw [List.eq_nil_of_sublist_nil sub]
    exact nothing
  · rw [if_neg (by simpa using empty)] at rest
    obtain ⟨amounts,suit,-⟩ := bind_eq_ok.mp rest
    let r := against g bottlenecks metrics amounts
    have ranks {part : List Fact} (some : part ≠ []) {fewer : Weights Float}
        (done : weights.amounts (maxTotal metrics part) (totals metrics part) = .ok fewer) :
        Analysis.rankBy g factor weights metrics part =
          .ok ((against g bottlenecks metrics fewer).rank part) :=
      bind_eq_ok.mpr ⟨_,found,(if_neg (by simpa using some)).trans (bind_eq_ok.mpr ⟨_,done,rfl⟩)⟩
    obtain ⟨order,descends,whole,parts⟩ := oneOrder_rank r facts
    refine ⟨r.scoreAt facts,fun _ => rfl,order,descends,?_,fun part sub top => ?_⟩
    · exact (ranks empty suit).trans (congrArg _ whole)
    · by_cases some : part.map facts.get = []
      · rw [some,List.map_eq_nil_iff.mp some]
        simpa using nothing
      · have inside : part.map facts.get ⊆ facts := fun f member => by
          obtain ⟨i,_,rfl⟩ := List.mem_map.mp member
          exact facts.get_mem i
        -- Fewer facts ask less of the settings, so that none fails here that has been accepted.
        obtain ⟨fewer,done,same⟩ := amounts_of_part suit inside
        rw [ranks some (top ▸ done)]
        refine congrArg _ (Eq.trans ?_ (parts part sub top))
        exact congrArg sort (List.map_congr_left (top ▸ same g bottlenecks))

/-- In exact arithmetic and in doubles the scores of some facts are listed as they are among those of all facts,
provided that the greatest number of imports is the same; equal facts are told by their places. Where all
facts can be ranked by given settings, so can every such part. -/
theorem parts_rank_as_in_whole (facts : List Fact) :
    (∀ (α : Type) [Scalar α] [Scalar.Ordered α] (r : Ranking α),
      OneOrder facts r.metrics (r.scoreAt facts) r.rank id) ∧
    ∀ g factor weights metrics scores, Analysis.rankBy g factor weights metrics facts = .ok scores →
      ∃ score, (∀ i, (score i).name = (facts.get i).name) ∧
        OneOrder facts metrics score (Analysis.rankBy g factor weights metrics) .ok :=
  ⟨fun _ _ _ r => oneOrder_rank r facts,fun _ _ _ _ _ ranked => oneOrder_rankBy ranked⟩

def twiceListed : List Fact :=
  ["util","core","util","ghost"].map fun name => ⟨name,"1.0",none,.registry,[],none⟩

def coreThenUtil : List (Fin twiceListed.length) := [⟨1,by decide⟩,⟨2,by decide⟩]

def timesImported {α : Type} (none : α) : Table String (ImportMetrics α) :=
  [("util",⟨"util",5,none,[]⟩),("core",⟨"core",10,none,[]⟩)]

def evenRanking : Ranking ℚ :=
  against (.ofFacts twiceListed []) [] (timesImported 0) ⟨1 / 2,1 / 4,1 / 8,1 / 8,1,0⟩

def standardRanking : List Fact → Except SettingError (List (Score Float)) :=
  Analysis.rankBy (.ofFacts twiceListed []) (.float 2.0) .standard (timesImported 0.0)

theorem core_and_second_util_rank_as_in_whole :
    coreThenUtil.Sublist (List.finRange twiceListed.length) ∧
    maxTotal evenRanking.metrics (coreThenUtil.map twiceListed.get) = maxTotal evenRanking.metrics twiceListed ∧
    (∃ order, Descends (fun i => (evenRanking.scoreAt twiceListed i).score) order ∧
      evenRanking.rank twiceListed = order.map (evenRanking.scoreAt twiceListed) ∧
      evenRanking.rank (coreThenUtil.map twiceListed.get) =
        (order.filter (· ∈ coreThenUtil)).map (evenRanking.scoreAt twiceListed)) ∧
    ∃ whole, standardRanking twiceListed = .ok whole ∧
      ∃ part, standardRanking (coreThenUtil.map twiceListed.get) = .ok part ∧ part.Sublist whole := by
  have sub : coreThenUtil.Sublist (List.finRange twiceListed.length) := by decide
  have top : maxTotal evenRanking.metrics (coreThenUtil.map twiceListed.get) =
    maxTotal evenRanking.metrics twiceListed := by decide
  have also : maxTotal (timesImported (0.0 : Float)) (coreThenUtil.map twiceListed.get) =
    maxTotal (timesImported (0.0 : Float)) twiceListed := by decide
  obtain ⟨whole,ranked⟩ : ∃ whole, standardRanking twiceListed = .ok whole :=
    exists_eq_ok (by decide +kernel)
  obtain ⟨exact_,settled⟩ := parts_rank_as_in_whole twiceListed
  obtain ⟨order,descends,all,parts⟩ := exact_ ℚ evenRanking
  obtain ⟨score,_,_,_,listed,others⟩ := settled _ _ _ _ _ ranked
  refine ⟨sub,top,⟨order,descends,all,parts _ sub top⟩,whole,ranked,_,others _ sub also,?_⟩
  obtain rfl := Except.ok.inj (ranked.symm.trans listed)
  exact List.filter_sublist.map score

end Ranking

end DepAudit
