import DepAudit.Proofs.Settings.Sections

/-! What laying a map over a section of settings changes: each field that the map names has the value from the
map, or, where it is a section itself and the value a map, has that map laid over it; all other fields are kept.
The order of the map does not matter, and laying it over once more changes nothing. -/
namespace DepAudit

namespace Value

def keyName? : Value → Option String
  | text name => some name
  | _ => none

structure Named (pairs : List (Value × Value)) : Prop where
  texts : ∀ p ∈ pairs, p.1.isTextKey = true
  once : (pairs.filterMap fun p => p.1.keyName?).Nodup

theorem Named.sublist {pairs others : List (Value × Value)} (named : Named pairs)
    (part : others.Sublist pairs) : Named others :=
  ⟨fun p member => named.texts p (part.subset member),named.once.sublist (part.filterMap _)⟩

theorem Named.tail {p : Value × Value} {pairs : List (Value × Value)} (named : Named (p :: pairs)) :
    Named pairs := named.sublist (List.sublist_cons_self p pairs)

theorem Named.perm {pairs others : List (Value × Value)} (named : Named pairs) (perm : others.Perm pairs) :
    Named others :=
  ⟨fun p member => named.texts p (perm.mem_iff.mp member),(perm.filterMap _).nodup_iff.mpr named.once⟩

theorem Named.hasTextKeys {pairs : List (Value × Value)} (named : Named pairs) : HasTextKeys (.map pairs) := by
  rintro _ ⟨⟩
  exact named.texts

end Value

namespace Settings

variable {pairs : List (Value × Value)} {name : String} {v : Value}

theorem section?_eq_none (unnamed : name ∉ pairs.filterMap fun p => p.1.keyName?) : section?
    pairs name = none := by
  induction pairs with
  | nil => rfl
  | cons p pairs ih =>
    obtain ⟨key,v⟩ := p
    rw [List.filterMap_cons] at unnamed
    cases key with
    | text first =>
      obtain ⟨different,later⟩ := not_or.mp (mt List.mem_cons.mpr unnamed)
      rw [section?_cons,if_neg (Ne.symm different),ih later]
    | _ => exact ih unnamed

theorem section?_tail {v : Value} (named : Value.Named ((.text name,v) :: pairs)) : section?
    pairs name = none := by
  exact section?_eq_none (List.nodup_cons.mp named.once).1

/-- A map gives a name the value that it pairs with it. -/
theorem section?_eq_some_iff (named : Value.Named pairs) : section?
    pairs name = some v ↔ (.text name,v) ∈ pairs := by
  induction pairs with
  | nil => exact ⟨nofun,nofun⟩
  | cons p pairs ih =>
    obtain ⟨key,w⟩ := p
    have later := ih named.tail
    rw [List.mem_cons,Prod.mk.injEq,← later]
    cases key with
    | text first =>
      rw [section?_cons,Value.text.injEq]
      by_cases same : first = name
      · subst same
        rw [if_pos rfl,section?_tail named]
        simp [eq_comm]
      · simp [same,Ne.symm same]
    | _ => exact ⟨.inr,fun either => either.resolve_left fun both => nomatch both.1⟩

theorem overlay_map {σ τ : Type} {set : σ → String → Value → Except SettingError σ}
    {set' : τ → String → Value → Except SettingError τ} (g : σ → τ)
    (same : ∀ s name v, set' (g s) name v = (set s name v).map g) (s : σ) (v : Value) :
    overlay set' (g s) v = (overlay set s v).map g := by
  cases v with
  | map pairs =>
    induction pairs generalizing s with
    | nil => rfl
    | cons p pairs ih =>
      obtain ⟨key,v⟩ := p
      cases key with
      | text name =>
        rw [overlay_text,overlay_text,same]
        cases set s name v with
        | error e => rfl
        | ok s₁ => exact ih s₁
      | halves codes => exact ih s
      | _ => rfl
  | _ => rfl

namespace Section

theorem overlay_eq (s : Section) (v : Value) : s.overlay v = Settings.overlay set s v := by
  cases s with
  | discovery s => exact (overlay_map discovery (fun _ _ _ => rfl) s v).symm
  | scan s => exact (overlay_map scan (fun _ _ _ => rfl) s v).symm
  | ranking w => exact (overlay_map ranking (fun _ _ _ => rfl) w v).symm
  | thresholds t => exact (overlay_map thresholds (fun _ _ _ => rfl) t v).symm
  | complexity l => exact (overlay_map complexity (fun _ _ _ => rfl) l v).symm

def Takes (s : Section) (pairs : List (Value × Value)) : Prop :=
  ∀ name l inner, s.fields.get? name = some (.limits l) → section? pairs name = some (.map inner) →
    Value.Named inner

/-- What is left of a section and a map laid over it: every field has become what the map makes of it. -/
structure Laid (s : Section) (pairs : List (Value × Value)) (s' : Section) : Prop where
  keys : s'.fields.keys = s.fields.keys
  becomes : ∀ name old, s.fields.get? name = some old →
    ∃ new, s'.fields.get? name = some new ∧ Becomes old (section? pairs name) new

theorem exists_laid {s : Section} {pairs : List (Value × Value)} (named : Value.Named pairs)
    (takes : s.Takes pairs) : ∃ s', s.overlay (.map pairs) = .ok s' ∧ Laid s pairs s' := by
  simp only [overlay_eq]
  induction pairs generalizing s with
  | nil => exact ⟨s,rfl,rfl,fun _ old found => ⟨old,found,.kept old⟩⟩
  | cons p pairs ih =>
    obtain ⟨key,v⟩ := p
    have later := named.tail
    cases key with
    | text name =>
      have once : section? pairs name = none := section?_tail named
      have first : section? ((.text name,v) :: pairs) name = some v := by rw [section?_cons,if_pos rfl]
      have others {other : String} (apart : name ≠ other) : section?
          ((.text name,v) :: pairs) other = section? pairs other := by rw [section?_cons,if_neg apart]
      obtain ⟨s₁,new,done,fields_,becomes⟩ := exists_set (v := v) fun l inner found same =>
        (ComplexityLimits.overlay_ends_iff l _).mpr (takes name l inner found (first.trans (same ▸ rfl))).hasTextKeys
      have still : s₁.Takes pairs := by
        intro other l inner found given
        have apart : name ≠ other := by
          rintro rfl
          cases once.symm.trans given
        rw [fields_,Table.get?_adjust,if_neg apart] at found
        exact takes other l inner found ((others apart).trans given)
      obtain ⟨s',ended,laid⟩ := ih later still
      refine ⟨s',?_,laid.keys.trans ?_,fun other old found => ?_⟩
      · rw [overlay_text,done]
        exact ended
      · rw [fields_,Table.keys_adjust]
      · by_cases same : name = other
        · subst same
          have set_ : s₁.fields.get? name = some new := by rw [fields_,Table.get?_adjust,if_pos rfl,found]; rfl
          obtain ⟨last,found',kept⟩ := laid.becomes name new set_
          rw [once] at kept
          cases kept
          exact ⟨new,found',first ▸ becomes old found⟩
        · rw [others same]
          refine laid.becomes other old ?_
          rw [fields_,Table.get?_adjust,if_neg same,found]
    | halves codes =>
      obtain ⟨s',ended,laid⟩ := ih later takes
      exact ⟨s',ended,laid.keys,laid.becomes⟩
    | _ => cases named.texts _ (List.mem_cons_self ..)

variable {s s' : Section} {others : List (Value × Value)}

theorem Laid.unique {t : Section} (first : Laid s pairs s') (second : Laid s others t)
    (agree : ∀ name old new new', s.fields.get? name = some old → Becomes old (section? pairs name) new →
      Becomes old (section? others name) new' → new = new') : s' = t := by
  refine fields_injective (Table.eq_of_get? (nodup_keys_fields s') (first.keys.trans second.keys.symm) ?_)
  intro name member
  obtain ⟨old,found⟩ := Table.mem_keys_iff.mp (first.keys ▸ member)
  obtain ⟨new,here,becomes⟩ := first.becomes name old found
  obtain ⟨new',there,becomes'⟩ := second.becomes name old found
  rw [here,there,agree name old new new' found becomes becomes']

/-- Only what a map says of the fields matters. -/
theorem overlay_congr (named : Value.Named pairs) (also : Value.Named others) (takes : s.Takes pairs)
    (same : ∀ name ∈ s.fields.keys, section? others name = section? pairs name) :
    s.overlay (.map others) = s.overlay (.map pairs) := by
  have takes' : s.Takes others := fun name l inner found given =>
    takes name l inner found ((same name (Table.mem_keys_iff.mpr ⟨_,found⟩)).symm.trans given)
  obtain ⟨s',ended,laid⟩ := exists_laid named takes
  obtain ⟨t,ended',laid'⟩ := exists_laid also takes'
  rw [ended,ended',laid.unique laid' fun name old new new' found becomes becomes' => ?_]
  rw [same name (Table.mem_keys_iff.mpr ⟨_,found⟩)] at becomes'
  exact becomes.unique becomes'

theorem overlay_perm (named : Value.Named pairs) (takes : s.Takes pairs) (perm : others.Perm pairs) :
    s.overlay (.map others) = s.overlay (.map pairs) := by
  have also := named.perm perm
  refine overlay_congr named also takes fun name _ => Option.ext fun v => ?_
  rw [section?_eq_some_iff also,section?_eq_some_iff named,perm.mem_iff]

def known (s : Section) (pairs : List (Value × Value)) : List (Value × Value) :=
  pairs.filter fun p => p.1.keyName?.any (s.fields.keys.contains ·)

theorem overlay_known (named : Value.Named pairs) (takes : s.Takes pairs) :
    s.overlay (.map (s.known pairs)) = s.overlay (.map pairs) := by
  have also : Value.Named (s.known pairs) := named.sublist List.filter_sublist
  refine overlay_congr named also takes fun name member => Option.ext fun v => ?_
  have listed : (Value.text name).keyName?.any (s.fields.keys.contains ·) = true :=
    List.contains_iff_mem.mpr member
  rw [section?_eq_some_iff also,section?_eq_some_iff named,known,List.mem_filter,and_iff_left listed]

theorem Becomes.again {old new newer : ComplexitySetting} {v : Option Value} (first : Becomes old v new)
    (second : Becomes new v newer)
    (below : ∀ l inner, old = .limits l → v = some (.map inner) → ∀ l', l.overlay (.map inner) = .ok l' →
      l'.overlay (.map inner) = .ok l') : newer = new := by
  cases first with
  | kept => cases second; rfl
  | laid ended =>
    have same := below _ _ rfl rfl _ ended
    cases second with
    | laid ended' => rw [Except.ok.inj (ended'.symm.trans same)]
    | replaced whole => exact absurd rfl (whole _ _ rfl)
  | replaced => cases second; rfl

theorem Laid.takes (laid : Laid s pairs s') (takes : s.Takes pairs) : s'.Takes pairs := by
  intro name l inner found given
  obtain ⟨old,before⟩ := Table.mem_keys_iff.mp (laid.keys ▸ Table.mem_keys_iff.mpr ⟨_,found⟩)
  obtain ⟨new,after,becomes⟩ := laid.becomes name old before
  obtain rfl := Option.some.inj (after.symm.trans found)
  rw [given] at becomes
  cases becomes
  exact takes name _ inner before given

/-- A map that was laid over a section changes nothing a second time, if this holds of the sections inside. -/
theorem Laid.again (laid : Laid s pairs s') (named : Value.Named pairs) (takes : s.Takes pairs)
    (below : ∀ name l inner, s.fields.get? name = some (.limits l) → section? pairs name = some (.map inner) →
      ∀ l', l.overlay (.map inner) = .ok l' → l'.overlay (.map inner) = .ok l') :
    s'.overlay (.map pairs) = .ok s' := by
  obtain ⟨t,ended,laid'⟩ := exists_laid named (laid.takes takes)
  have same : t = s' := by
    refine fields_injective (Table.eq_of_get? (nodup_keys_fields t) laid'.keys fun name member => ?_)
    obtain ⟨old,before⟩ := Table.mem_keys_iff.mp (laid.keys ▸ laid'.keys ▸ member)
    obtain ⟨new,here,becomes⟩ := laid.becomes name old before
    obtain ⟨newer,there,becomes'⟩ := laid'.becomes name new here
    rw [here,there,becomes.again becomes' fun l inner limited given =>
      below name l inner (before.trans (congrArg _ limited)) given]
  rw [ended,same]

theorem takes_flat (flat : ∀ t, s ≠ thresholds t) (pairs : List (Value × Value)) : s.Takes pairs := by
  intro name l inner found _
  obtain ⟨v,other⟩ := given_of_mem_fields flat _ (Table.mem_of_get? found)
  cases other

theorem complexity_flat (l : ComplexityLimits) (t : Thresholds) : complexity l ≠ thresholds t := nofun

end Section

end Settings

/-! The limits of complexity, by themselves a section without sections inside. -/

namespace ComplexityLimits

open Settings (Section)

variable {l l' : ComplexityLimits} {inner others : List (Value × Value)}

theorem overlay_section {v : Value} :
    (Section.complexity l).overlay v = .ok (.complexity l') ↔ l.overlay v = .ok l' := by
  constructor
  · intro ended
    obtain ⟨l'',inner,same⟩ := map_eq_ok.mp ended
    rw [inner,Section.complexity.inj same]
  · exact fun ended => map_eq_ok.mpr ⟨l',ended,rfl⟩

theorem takes_section (l : ComplexityLimits) (inner : List (Value × Value)) :
    (Section.complexity l).Takes inner := Section.takes_flat (Section.complexity_flat l) inner

theorem overlay_again (named : Value.Named inner) (ended : l.overlay (.map inner) = .ok l') :
    l'.overlay (.map inner) = .ok l' := by
  obtain ⟨s',done,laid⟩ := Section.exists_laid named (takes_section l inner)
  obtain rfl := Except.ok.inj (done.symm.trans (overlay_section.mpr ended))
  refine overlay_section.mp (laid.again named (takes_section l inner) fun _ _ _ found _ => ?_)
  obtain ⟨_,other⟩ := Section.given_of_mem_fields (Section.complexity_flat l) _ (Table.mem_of_get? found)
  cases other

theorem overlay_perm (named : Value.Named inner) (perm : others.Perm inner)
    (ended : l.overlay (.map inner) = .ok l') : l.overlay (.map others) = .ok l' := by
  have same := Section.overlay_perm named (takes_section l inner) perm
  exact overlay_section.mp (same.trans (overlay_section.mpr ended))

end ComplexityLimits

namespace Settings

namespace Section

variable {s s' : Section} {pairs others : List (Value × Value)}

/-- Two maps say the same of the fields of a section: they give them the same values or, to a section inside,
maps with the same pairs. -/
def SameGiven (s : Section) (pairs others : List (Value × Value)) : Prop :=
  ∀ name old, s.fields.get? name = some old → section? others name = section? pairs name ∨
    ∃ l inner inner', old = .limits l ∧ section? pairs name = some (.map inner) ∧ section?
      others name = some (.map inner') ∧ inner'.Perm inner

theorem overlay_sameGiven (named : Value.Named pairs) (also : Value.Named others) (takes : s.Takes pairs)
    (same : s.SameGiven pairs others) : s.overlay (.map others) = s.overlay (.map pairs) := by
  have takes' : s.Takes others := by
    intro name l inner' found given
    rcases same name _ found with equal | ⟨_,inner,_,_,before,after,perm⟩
    · exact takes name l inner' found (equal.symm.trans given)
    · obtain rfl := Value.map.inj (Option.some.inj (after.symm.trans given))
      exact (takes name l inner found before).perm perm
  obtain ⟨s',ended,laid⟩ := exists_laid named takes
  obtain ⟨t,ended',laid'⟩ := exists_laid also takes'
  rw [ended,ended',laid.unique laid' fun name old new new' found becomes becomes' => ?_]
  rcases same name old found with equal | ⟨l,inner,inner',rfl,before,after,perm⟩
  · rw [equal] at becomes'
    exact becomes.unique becomes'
  · rw [before] at becomes
    rw [after] at becomes'
    cases becomes with
    | replaced whole => exact absurd rfl (whole _ _ rfl)
    | laid ended =>
      have other := ComplexityLimits.overlay_perm (takes name l inner found before) perm ended
      exact (Becomes.laid other).unique becomes'

theorem overlay_other {v : Value} (noMap : ∀ pairs, v ≠ .map pairs) : s.overlay v = .ok s := by
  rw [overlay_eq]
  cases v with
  | map pairs => exact absurd rfl (noMap pairs)
  | _ => rfl

/-- A map that is laid over a section sets the fields it names, keeps all others and has no other effect,
whatever the order of its pairs and of those inside; a second time it changes nothing, and what is no map
changes nothing at all. -/
theorem overlay_sets_named_fields (s : Section) (pairs : List (Value × Value)) (named : Value.Named pairs)
    (takes : s.Takes pairs) : ∃ s', s.overlay (.map pairs) = .ok s' ∧ s.Laid pairs s' ∧
      s.overlay (.map (s.known pairs)) = .ok s' ∧
      (∀ others, others.Perm pairs → s.overlay (.map others) = .ok s') ∧
      (∀ others, Value.Named others → s.SameGiven pairs others → s.overlay (.map others) = .ok s') ∧
      s'.overlay (.map pairs) = .ok s' ∧
      ∀ v, (∀ pairs, v ≠ .map pairs) → s.overlay v = .ok s := by
  obtain ⟨s',ended,laid⟩ := exists_laid named takes
  refine ⟨s',ended,laid,(overlay_known named takes).trans ended,
    fun _ perm => (overlay_perm named takes perm).trans ended,
    fun _ also same => (overlay_sameGiven named also takes same).trans ended,?_,fun _ => overlay_other⟩
  exact laid.again named takes fun name l inner found given _ =>
    ComplexityLimits.overlay_again (takes name l inner found given)

def sparsePairs : List (Value × Value) :=
  [(.text "complexity",.map [(.text "colour",.null),(.text "high_nodes",.int 7)]),(.text "colour",.int 1),
    (.halves [0xD800],.null),(.text "bottleneck_factor",.int 3)]

def raised : Section :=
  .thresholds { bottleneckFactor := .int 3, complexity := .limits { highNodes := .int 7 } }

theorem sparse_pairs_raise_limits :
    Value.Named sparsePairs ∧ Takes (.thresholds {}) sparsePairs ∧
    overlay (.thresholds {}) (.map sparsePairs) = .ok raised ∧
    overlay (.thresholds {}) (.map sparsePairs.reverse) = .ok raised ∧
    overlay raised (.map sparsePairs) = .ok raised ∧
    overlay (.thresholds {}) (.seq [.text "complexity"]) = .ok (.thresholds {}) := by
  have named : Value.Named sparsePairs := ⟨by simp [sparsePairs,Value.isTextKey],by decide⟩
  have takes : Takes (.thresholds {}) sparsePairs := by
    intro name l inner _ given
    rw [section?_eq_some_iff named] at given
    simp [sparsePairs] at given
    obtain ⟨rfl,rfl⟩ := given
    exact ⟨by simp [Value.isTextKey],by decide⟩
  obtain ⟨s',ended,_,_,perm,_,again,other⟩ := overlay_sets_named_fields (.thresholds {}) sparsePairs named takes
  obtain rfl : raised = s' := Except.ok.inj (ended.symm.trans rfl).symm
  exact ⟨named,takes,ended,perm _ (List.reverse_perm _),again,other _ nofun⟩

end Section

end Settings

end DepAudit
