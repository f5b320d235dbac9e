import DepAudit.Graph.Sources
import DepAudit.Proofs.Ranking.Exact
import Mathlib.Tactic.NormNum

/-! One name is imported more often. Its share grows, and as it may become the greatest number that all shares are
taken of, those of other names can only shrink; scores follow the shares, so that nothing moves in front of
the name. -/
namespace DepAudit.Ranking

theorem importShare_anti {total top more : ℤ} (nonneg : 0 ≤ total) (within : total ≤ top)
    (grows : top ≤ more) : (importShare total more : ℚ) ≤ importShare total top := by
  rw [importShare_eq,importShare_eq]
  by_cases some : 0 < top
  · rw [if_pos some,if_pos (some.trans_le grows)]
    have above : (0 : ℚ) ≤ total := by exact_mod_cast nonneg
    have positive : (0 : ℚ) < top := by exact_mod_cast some
    have order : (top : ℚ) ≤ more := by exact_mod_cast grows
    exact div_le_div_of_nonneg_left above positive order
  · obtain rfl : total = 0 := le_antisymm (within.trans (not_lt.mp some)) nonneg
    simp [some]

/-- A number that is raised has no less a share, whether it becomes the greatest one or not. -/
theorem importShare_mono {total top raised more : ℤ} (nonneg : 0 ≤ total) (within : total ≤ top)
    (up : total ≤ raised) (grows : top ≤ more) (most : more = top ∨ more = raised) :
    (importShare total top : ℚ) ≤ importShare raised more := by
  rw [importShare_eq,importShare_eq]
  by_cases some : 0 < top
  · have positive : (0 : ℚ) < top := by exact_mod_cast some
    have room : (0 : ℚ) < more := by exact_mod_cast some.trans_le grows
    rw [if_pos some,if_pos (some.trans_le grows)]
    rcases most with rfl | rfl
    · have order : (total : ℚ) ≤ raised := by exact_mod_cast up
      exact div_le_div_of_nonneg_right order positive.le
    · rw [div_self room.ne']
      exact div_le_one_of_le₀ (by exact_mod_cast within) positive.le
  · rw [if_neg some]
    split
    · rename_i now
      have above : (0 : ℚ) ≤ raised := by exact_mod_cast nonneg.trans up
      have room : (0 : ℚ) < more := by exact_mod_cast now
      exact div_nonneg above room.le
    · exact le_rfl

variable {g : Graph} {bottlenecks : List String} {weights : Weights ℚ}
  {before after : Table String (ImportMetrics ℚ)} {facts : List Fact} {f : Fact} {x : String}
  {top more : ℤ}

theorem frequency_mono {m n : ImportMetrics ℚ} (weight : 0 ≤ weights.importCount)
    (counted : before.get? f.name = some m) (recounted : after.get? f.name = some n)
    (coverage : n.coverage = m.coverage)
    (share : (importShare m.total top : ℚ) ≤ importShare n.total more) :
    (against g bottlenecks before weights).frequency top f ≤
      (against g bottlenecks after weights).frequency more f := by
  rw [frequency_counted counted,frequency_counted recounted,coverage]
  apply Scalar.clamp_mono
  exact add_le_add_left (mul_le_mul_of_nonneg_right share weight) _

theorem score_mono (weight : 0 ≤ weights.importFrequency)
    (frequency : (against g bottlenecks before weights).frequency top f ≤
      (against g bottlenecks after weights).frequency more f) :
    ((against g bottlenecks before weights).score top f).score ≤
      ((against g bottlenecks after weights).score more f).score := by
  apply Scalar.clamp_mono
  rw [Scalar.ofInt_eq]
  apply mul_le_mul_of_nonneg_right _ (by norm_num)
  unfold raw
  have first := mul_le_mul_of_nonneg_right frequency weight
  exact add_le_add_left (add_le_add_left (add_le_add_left first _) _) _

/-! Raised imports. -/

/-- The imports of one name are as many or more, and nothing else differs. -/
def Raised (x : String) (before after : Table String (ImportMetrics ℚ)) : Prop :=
  (∀ name, name ≠ x → after.get? name = before.get? name) ∧
    ∃ m total, before.get? x = some m ∧ m.total ≤ total ∧ after.get? x = some { m with total := total }

theorem Raised.counted (raised : Raised x before after) {name : String} {m : ImportMetrics ℚ}
    (found : before.get? name = some m) : ∃ n, after.get? name = some n ∧ m.total ≤ n.total ∧
      n.coverage = m.coverage ∧ (name ≠ x → n = m) := by
  obtain ⟨others,old,total,known,up,new⟩ := raised
  by_cases here : name = x
  · subst here
    rw [known] at found
    obtain rfl := Option.some.inj found
    exact ⟨_,new,up,rfl,fun other => absurd rfl other⟩
  · exact ⟨m,(others name here).trans found,le_rfl,rfl,fun _ => rfl⟩

theorem Raised.recounted (raised : Raised x before after) {name : String} {n : ImportMetrics ℚ}
    (found : after.get? name = some n) :
    ∃ m, before.get? name = some m ∧ m.total ≤ n.total ∧ (name ≠ x → n = m) := by
  cases known : before.get? name with
  | none =>
    obtain ⟨others,old,_,counted,-⟩ := raised
    by_cases here : name = x
    · rw [here,counted] at known
      cases known
    · rw [others name here,known] at found
      cases found
  | some m =>
    obtain ⟨_,new,up,-,same⟩ := raised.counted known
    obtain rfl := Option.some.inj (new.symm.trans found)
    exact ⟨m,rfl,up,same⟩

section

variable (nonneg : ∀ name m, before.get? name = some m → 0 ≤ m.total) (raised : Raised x before after)
include nonneg raised

theorem maxTotal_le_raised (facts : List Fact) : maxTotal before facts ≤ maxTotal after facts := by
  refine maxTotal_le (maxTotal_nonneg fun f _ n found => ?_) fun f member m found => ?_
  · obtain ⟨m,known,up,-⟩ := raised.recounted found
    exact (nonneg _ m known).trans up
  · obtain ⟨n,new,up,-⟩ := raised.counted found
    exact up.trans (le_maxTotal (mem_totals.mpr ⟨f,member,n,new,rfl⟩))

/-- The greatest number changes to the one that was raised, if at all. -/
theorem maxTotal_raised_cases {n : ImportMetrics ℚ} (new : after.get? x = some n) (facts : List Fact) :
    maxTotal after facts = maxTotal before facts ∨ maxTotal after facts = n.total := by
  have grows := maxTotal_le_raised nonneg raised facts
  rcases maxTotal_cases after facts with none | greatest
  · have positive : 0 ≤ maxTotal before facts := maxTotal_nonneg fun f _ => nonneg f.name
    exact .inl (le_antisymm (none.le.trans positive) grows)
  · obtain ⟨f,member,n',found,same⟩ := mem_totals.mp greatest
    by_cases here : f.name = x
    · rw [here,new] at found
      obtain rfl := Option.some.inj found
      exact .inr same.symm
    · obtain ⟨m,known,-,unchanged⟩ := raised.recounted found
      obtain rfl := unchanged here
      have within := le_maxTotal (mem_totals.mpr ⟨f,member,_,known,rfl⟩)
      exact .inl (le_antisymm (same ▸ within) grows)

variable (importFrequency : 0 ≤ weights.importFrequency) (importCount : 0 ≤ weights.importCount)
  (member : f ∈ facts)
include importFrequency importCount member

theorem score_raised_le (here : f.name = x) :
    ((against g bottlenecks before weights).score (maxTotal before facts) f).score ≤
      ((against g bottlenecks after weights).score (maxTotal after facts) f).score := by
  have ⟨_,m,_,known,_⟩ := raised
  obtain ⟨n,new,up,coverage,-⟩ := raised.counted known
  have within := le_maxTotal (mem_totals.mpr ⟨f,member,m,here ▸ known,rfl⟩)
  apply score_mono importFrequency
  apply frequency_mono importCount (here ▸ known) (here ▸ new) coverage
  exact importShare_mono (nonneg x m known) within up (maxTotal_le_raised nonneg raised facts)
    (maxTotal_raised_cases nonneg raised new facts)

theorem score_others_le (other : f.name ≠ x) :
    ((against g bottlenecks after weights).score (maxTotal after facts) f).score ≤
      ((against g bottlenecks before weights).score (maxTotal before facts) f).score := by
  apply score_mono importFrequency
  have same := raised.1 f.name other
  cases known : before.get? f.name with
  | none =>
    rw [frequency_uncounted known,frequency_uncounted (same.trans known)]
  | some m =>
    have within := le_maxTotal (mem_totals.mpr ⟨f,member,m,known,rfl⟩)
    apply frequency_mono importCount (same.trans known) known rfl
    exact importShare_anti (nonneg _ m known) within (maxTotal_le_raised nonneg raised facts)

end

/-- Where the imports of one name are raised, its score gets no less and that of no other name more, and what
is ranked after it is ranked after it still. The other signals may be what they like, and with them the nodes
that count as bottlenecks. -/
theorem raised_imports_keep_order (g : Graph) (bottlenecks : List String)
    (distinct : (facts.map Fact.name).Nodup) (importFrequency : 0 ≤ weights.importFrequency)
    (importCount : 0 ≤ weights.importCount)
    (nonneg : ∀ name m, before.get? name = some m → 0 ≤ m.total) (raised : Raised x before after) :
    (∀ metrics, (((against g bottlenecks metrics weights).rank facts).map Score.name).Perm
      (facts.map Fact.name)) ∧
    (∀ s ∈ (against g bottlenecks before weights).rank facts,
      ∀ t ∈ (against g bottlenecks after weights).rank facts, s.name = t.name →
        (s.name = x → s.score ≤ t.score) ∧ (s.name ≠ x → t.score ≤ s.score)) ∧
    ∀ y, [x,y].Sublist (((against g bottlenecks before weights).rank facts).map Score.name) →
      [x,y].Sublist (((against g bottlenecks after weights).rank facts).map Score.name) := by
  let old := (against g bottlenecks before weights).score (maxTotal before facts)
  let new := (against g bottlenecks after weights).score (maxTotal after facts)
  have up {f : Fact} (member : f ∈ facts) (here : f.name = x) : (old f).score ≤ (new f).score :=
    score_raised_le nonneg raised importFrequency importCount member here
  have down {f : Fact} (member : f ∈ facts) (other : f.name ≠ x) : (new f).score ≤ (old f).score :=
    score_others_le nonneg raised importFrequency importCount member other
  refine ⟨fun metrics => names_rank_perm _ facts,fun s inOld t inNew same => ?_,fun y listed => ?_⟩
  · obtain ⟨f,member,rfl⟩ := mem_rank.mp inOld
    obtain ⟨h,also,rfl⟩ := mem_rank.mp inNew
    obtain rfl := List.inj_on_of_nodup_map distinct member also same
    exact ⟨up member,down member⟩
  · have names := names_rank_perm (against g bottlenecks before weights) facts
    have inside {name : String} (one : name ∈ [x,y]) : name ∈ facts.map Fact.name :=
      names.subset (listed.subset one)
    have pair : [x,y].Nodup := (names.nodup_iff.mpr distinct).sublist listed
    have different : x ≠ y := by simpa using pair
    obtain ⟨f,first,rfl⟩ := List.mem_map.mp (inside (List.mem_cons_self ..))
    obtain ⟨h,second,rfl⟩ := List.mem_map.mp (inside (.tail _ (List.mem_singleton_self _)))
    obtain ⟨less,kept⟩ := (before_rank_iff _ distinct first second different).mp listed
    refine (before_rank_iff _ distinct first second different).mpr ⟨?_,fun tied => kept ?_⟩
    · calc (new h).score ≤ (old h).score := down second different.symm
        _ ≤ (old f).score := less
        _ ≤ (new f).score := up first rfl
    · -- The two scores can only have moved apart, so a tie now was a tie before.
      calc (old f).score ≤ (new f).score := up first rfl
        _ ≤ (new h).score := tied
        _ ≤ (old h).score := down second different.symm

def rankedFact (name : String) : Fact := ⟨name,"1.0",none,.registry,[],none⟩

def importedTimes (name : String) (total : ℤ) (coverage : ℚ) : String × ImportMetrics ℚ :=
  (name,⟨name,total,coverage,[]⟩)

def usualWeights : Weights ℚ := ⟨2 / 5,3 / 10,1 / 5,1 / 10,7 / 10,3 / 10⟩

def unlinked : List Fact := [rankedFact "util",rankedFact "core",rankedFact "ghost"]

def coreUnused : Table String (ImportMetrics ℚ) :=
  [importedTimes "util" 5 (1 / 5),importedTimes "core" 0 0]

def coreUsed : Table String (ImportMetrics ℚ) :=
  [importedTimes "core" 10 0,importedTimes "util" 5 (1 / 5)]

def rankedBy (metrics : Table String (ImportMetrics ℚ)) : Ranking ℚ :=
  against (Graph.ofFacts unlinked []) [] metrics usualWeights

/-- A name without imports, level with one that was not counted, comes to be imported most. -/
theorem used_core_stays_before_ghost :
    (unlinked.map Fact.name).Nodup ∧ 0 ≤ usualWeights.importFrequency ∧ 0 ≤ usualWeights.importCount ∧
    (∀ name m, coreUnused.get? name = some m → 0 ≤ m.total) ∧ Raised "core" coreUnused coreUsed ∧
    (∃ s ∈ (rankedBy coreUnused).rank unlinked, ∃ t ∈ (rankedBy coreUsed).rank unlinked,
      s.name = "util" ∧ t.name = "util" ∧ s.score = 252 / 5 ∧ t.score = 182 / 5 ∧ t.score ≤ s.score) ∧
    ["core","ghost"].Sublist (((rankedBy coreUnused).rank unlinked).map Score.name) ∧
    ["core","ghost"].Sublist (((rankedBy coreUsed).rank unlinked).map Score.name) := by
  have distinct : (unlinked.map Fact.name).Nodup := by decide
  have importFrequency : 0 ≤ usualWeights.importFrequency := by decide +kernel
  have importCount : 0 ≤ usualWeights.importCount := by decide +kernel
  have nonneg : ∀ name m, coreUnused.get? name = some m → 0 ≤ m.total := by
    intro name m found
    have all : ∀ p ∈ coreUnused, 0 ≤ p.2.total := by decide
    exact all _ (Table.mem_of_get? found)
  have raised : Raised "core" coreUnused coreUsed := by
    refine ⟨fun name other => ?_,_,10,rfl,by decide,rfl⟩
    simp [Table.get?,coreUnused,coreUsed,importedTimes,Ne.symm other]
  obtain ⟨-,scores,kept⟩ := raised_imports_keep_order (.ofFacts unlinked []) [] distinct
    importFrequency importCount nonneg raised
  let old (name : String) := (rankedBy coreUnused).score (maxTotal coreUnused unlinked) (rankedFact name)
  let new (name : String) := (rankedBy coreUsed).score (maxTotal coreUsed unlinked) (rankedFact name)
  have util : old "util" ∈ (rankedBy coreUnused).rank unlinked :=
    mem_rank.mpr ⟨_,by decide,rfl⟩
  have util' : new "util" ∈ (rankedBy coreUsed).rank unlinked :=
    mem_rank.mpr ⟨_,by decide,rfl⟩
  have listed : ["core","ghost"].Sublist (((rankedBy coreUnused).rank unlinked).map Score.name) := by
    have tied : (old "core").score = (old "ghost").score := by decide +kernel
    have core : rankedFact "core" ∈ unlinked := by decide
    have ghost : rankedFact "ghost" ∈ unlinked := by decide
    refine (before_rank_iff _ distinct core ghost (by decide)).mpr ⟨tied.ge,fun _ => ?_⟩
    exact .cons _ (.refl _)
  exact ⟨distinct,importFrequency,importCount,nonneg,raised,
    ⟨_,util,_,util',rfl,rfl,by decide +kernel,by decide +kernel,
      (scores _ util _ util' rfl).2 (by decide)⟩,listed,kept _ listed⟩

end DepAudit.Ranking
