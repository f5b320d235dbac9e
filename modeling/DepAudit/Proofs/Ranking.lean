import DepAudit.Analysis
import DepAudit.Proofs.Binary64
import DepAudit.Proofs.Outcome
import DepAudit.Proofs.Ranking.Exact
import DepAudit.Proofs.Table

/-! Ranking by the standard weights comes to an end whatever the imports are: they are counted from zero
up, so that the share of none of them in the greatest is more than one. -/
namespace DepAudit

namespace Imports

def Counted (t : Table String Int) : Prop := ∀ c ∈ t, 0 ≤ c.2

theorem Counted.add {t : Table String Int} (counted : Counted t) (key : String) {n : Int}
    (positive : 0 ≤ n) : Counted (t.update key 0 (· + n)) :=
  Table.forall_update (P := (0 ≤ ·)) counted key (Int.le_refl 0) fun _ old => Int.add_nonneg old positive

theorem counted_count (source : String) (names : List String) : Counted (count source names) :=
  List.foldlRecOn (motive := Counted) _ _ (List.forall_mem_nil _) fun _ counted name _ =>
    counted.add name (by decide)

/-- Merging counts adds them up. -/
theorem counted_merge {partials : List (String × Option (Table String Int))}
    (each : ∀ p ∈ partials, Counted (p.2.getD [])) : ∀ p ∈ merge partials, Counted p.2 := by
  let Merged : Table String (Table String Int) → Prop := fun merged => ∀ p ∈ merged, Counted p.2
  refine List.foldlRecOn (motive := Merged) _ _ (List.forall_mem_nil _) ?_
  intro merged before p member
  refine List.foldlRecOn (motive := Merged) _ _ before ?_
  intro merged before c listed
  exact Table.forall_update (P := Counted) before c.1 (List.forall_mem_nil _) fun byFile old =>
    old.add p.1 (each p member c listed)

theorem total_nonneg {α : Type} [Scalar α] (disk : FileSystem) (names files : List String) :
    ∀ p ∈ (scanFiles disk names files : ImportScan α).metrics, 0 ≤ p.2.total := by
  have counted : ∀ p ∈ files.map fun path => (path,countFile disk names.eraseDups path),
      Counted (p.2.getD []) := by
    refine List.forall_mem_map.mpr fun path _ => ?_
    rw [countFile]
    cases disk.text? path with
    | none => exact nofun
    | some source => exact counted_count source _
  refine List.forall_mem_map.mpr fun name _ => ?_
  have locations : Counted ((Table.get? (merge (files.map fun path =>
      (path,countFile disk names.eraseDups path))) name).getD []) := by
    cases found : Table.get? (merge (files.map fun path =>
        (path,countFile disk names.eraseDups path))) name with
    | none => exact nofun
    | some byFile => exact counted_merge counted _ (Table.mem_of_get? found)
  exact List.foldlRecOn (motive := fun n : Int => 0 ≤ n) _ _ (Int.le_refl 0)
    fun n positive c member => Int.add_nonneg positive (locations c member)

end Imports

namespace Weights

theorem checkShare_ok {total top : Int} (positive : 0 ≤ total) (most : total ≤ top) :
    checkShare total top = .ok () := by
  have finite : Binary64.isFinite (Ranking.importShare total top : Float) = true ∨ ¬0 < top := by
    by_cases some_ : 0 < top
    · refine .inl ?_
      have sign : decide (total < 0) = false := decide_eq_false (Int.not_lt.mpr positive)
      have share : (Ranking.importShare total top : Float) =
          Binary64.ofQuotient (decide (total < 0)) total.natAbs top.toNat := if_pos some_
      rw [share,sign]
      exact Binary64.isFinite_ofQuotient (by omega)
    · exact .inr some_
  rw [checkShare,if_neg]
  rcases finite with finite | none
  · simp [finite]
  · simp [none]

/-- The standard weights suit all numbers of imports up to the greatest. -/
theorem amounts_standard {top : Int} {totals : List (Option Int)}
    (fits : ∀ t, some t ∈ totals → 0 ≤ t ∧ t ≤ top) :
    ∃ weights, Weights.standard.amounts top totals = .ok weights := by
  obtain ⟨signals,known⟩ : ∃ weights, Weights.standard.signals = .ok weights := ⟨_,rfl⟩
  have each : ∀ total ∈ totals, (do
      total.forM (checkImports Weights.standard top)
      let _ ← Weights.standard.signals
      : Except SettingError Unit) = .ok () := by
    intro total member
    rw [known]
    cases total with
    | none => rfl
    | some t =>
      obtain ⟨positive,most⟩ := fits t member
      have checked : checkImports Weights.standard top t = .ok () := by
        rw [checkImports,checkShare_ok positive most]
        rfl
      exact bind_eq_ok.mpr ⟨(),checked,rfl⟩
  have checked := forM_eq_ok.mpr each
  by_cases counted : totals.any Option.isSome = true
  · exact ⟨_,bind_eq_ok.mpr ⟨(),checked,bind_eq_ok.mpr ⟨signals,known,if_pos counted⟩⟩⟩
  · exact ⟨_,bind_eq_ok.mpr ⟨(),checked,bind_eq_ok.mpr ⟨signals,known,if_neg counted⟩⟩⟩

end Weights

namespace Analysis

variable {s : Settings} {g : Graph} {facts : List Fact}

/-- Imports counted anew are ranked by the standard weights as well as those counted before. -/
theorem rank_standard {before after : Option (ImportScan Float)} {scores : List (Score Float)}
    (standard : s.ranking = .standard) (ranked : rank s g before facts = .ok scores)
    (counted : ∀ scan ∈ after, ∀ p ∈ scan.metrics, 0 ≤ p.2.total) :
    ∃ scores', rank s g after facts = .ok scores' := by
  simp only [rank,mapError_eq_ok] at ranked ⊢
  obtain ⟨bottlenecks,known,_⟩ := bind_eq_ok.mp ranked
  let metrics := (after.map ImportScan.metrics).getD []
  have nonneg : ∀ p ∈ metrics, 0 ≤ p.2.total := by
    cases after with
    | none => exact List.forall_mem_nil _
    | some scan => exact counted scan rfl
  have fits : ∀ t, some t ∈ Ranking.totals metrics facts → 0 ≤ t ∧ t ≤ Ranking.maxTotal metrics facts := by
    intro t member
    refine ⟨?_,Ranking.le_maxTotal member⟩
    obtain ⟨f,_,total⟩ := List.mem_map.mp member
    obtain ⟨m,found,rfl⟩ := Option.map_eq_some_iff.mp total
    exact nonneg _ (Table.mem_of_get? found)
  obtain ⟨weights,amounts⟩ := Weights.amounts_standard fits
  have weighted : s.ranking.amounts (Ranking.maxTotal metrics facts) (Ranking.totals metrics facts) =
      .ok weights := standard ▸ amounts
  by_cases empty : facts.isEmpty = true
  · exact ⟨[],bind_eq_ok.mpr ⟨bottlenecks,known,if_pos empty⟩⟩
  · refine ⟨(Ranking.against g bottlenecks metrics weights).rank facts,
      bind_eq_ok.mpr ⟨bottlenecks,known,(if_neg empty).trans ?_⟩⟩
    exact bind_eq_ok.mpr ⟨weights,weighted,rfl⟩

end Analysis

end DepAudit
