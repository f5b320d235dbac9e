import DepAudit.Proofs.Settings.Load
import DepAudit.Proofs.Table

/-! The sections of settings, each as a table of its fields, and what setting one name changes: the field of
that name, which takes the value or, where it is a section itself and the value a map, has that map laid over
it. -/
namespace DepAudit.Settings

inductive Section where
  | discovery (s : DiscoverySettings)
  | scan (s : ScanSettings)
  | ranking (w : Weights Value)
  | thresholds (t : Thresholds)
  | complexity (l : ComplexityLimits)

namespace Section

def fields : Section → Table String ComplexitySetting
  | discovery s => [("resolved_file_names",.given s.lockFileNames),
      ("package_manifest_name",.given s.manifestName),("project_suffix",.given s.projectSuffix),
      ("workspace_suffix",.given s.workspaceSuffix),("source_extensions",.given s.sourceEndings),
      ("exclude_patterns",.given s.excluded)]
  | scan s => [("enabled",.given s.enabled),("max_workers",.given s.workers),
      ("timeout_seconds",.given s.timeout)]
  | ranking w => [("import_frequency",.given w.importFrequency),("bottleneck",.given w.bottleneck),
      ("direct",.given w.direct),("depth",.given w.depth),("import_count_blend",.given w.importCount),
      ("coverage_blend",.given w.coverage)]
  | thresholds t => [("bottleneck_factor",.given t.bottleneckFactor),("complexity",t.complexity)]
  | complexity l => [("medium_nodes",.given l.mediumNodes),("medium_depth",.given l.mediumDepth),
      ("high_nodes",.given l.highNodes),("high_depth",.given l.highDepth),
      ("extreme_nodes",.given l.extremeNodes),("extreme_depth",.given l.extremeDepth)]

def set : Section → String → Value → Except SettingError Section
  | discovery s,name,v => (s.set name v).map discovery
  | scan s,name,v => (s.set name v).map scan
  | ranking w,name,v => (w.set name v).map ranking
  | thresholds t,name,v => (t.set name v).map thresholds
  | complexity l,name,v => (l.set name v).map complexity

def overlay : Section → Value → Except SettingError Section
  | discovery s,v => (s.overlay v).map discovery
  | scan s,v => (s.overlay v).map scan
  | ranking w,v => (w.overlay v).map ranking
  | thresholds t,v => (t.overlay v).map thresholds
  | complexity l,v => (l.overlay v).map complexity

theorem nodup_keys_fields (s : Section) : s.fields.keys.Nodup := by
  cases s <;> simp [fields,Table.keys]

theorem fields_injective : Function.Injective fields := by
  intro a b same
  -- Sections of different kinds have fields of different names.
  cases a <;> cases b <;> simp [fields] at same
  all_goals
    rename_i a b
    cases a
    cases b
    simp_all

/-- How a field changes when a map is laid over its section: by the value that the map has for it, if any. -/
inductive Becomes : ComplexitySetting → Option Value → ComplexitySetting → Prop where
  | kept (old : ComplexitySetting) : Becomes old none old
  | laid {l l' : ComplexityLimits} {inner : List (Value × Value)} (ended : l.overlay (.map inner) = .ok l') :
    Becomes (.limits l) (some (.map inner)) (.limits l')
  | replaced {old : ComplexitySetting} {v : Value}
    (whole : ∀ l inner, old = .limits l → v ≠ .map inner) : Becomes old (some v) (.given v)

theorem Becomes.unique {old new other : ComplexitySetting} {v : Option Value} (first : Becomes old v new)
    (second : Becomes old v other) : new = other := by
  cases first with
  | kept => cases second; rfl
  | laid ended =>
    cases second with
    | laid same => rw [Except.ok.inj (ended.symm.trans same)]
    | replaced whole => exact absurd rfl (whole _ _ rfl)
  | replaced whole =>
    cases second with
    | laid => exact absurd rfl (whole _ _ rfl)
    | replaced => rfl

/-! One field. -/

/-- Only thresholds have a section inside. -/
theorem given_of_mem_fields {s : Section} (flat : ∀ t, s ≠ thresholds t) :
    ∀ p ∈ s.fields, ∃ v, p.2 = .given v := by
  cases s with
  | thresholds t => exact absurd rfl (flat t)
  | _ => simp [fields]

theorem set_flat {s : Section} (flat : ∀ t, s ≠ thresholds t) (name : String) (v : Value) :
    ∃ s', s.set name v = .ok s' ∧ s'.fields = s.fields.adjust name fun _ => .given v := by
  cases s with
  | thresholds t => exact absurd rfl (flat t)
  | _ =>
    refine ⟨_,rfl,?_⟩
    -- A name of no field is left.
    split
    any_goals rfl
    refine (Table.adjust_of_new ?_ _).symm
    simp_all [fields,Table.keys]

theorem exists_becomes {old : ComplexitySetting} {v : Value}
    (ends : ∀ l inner, old = .limits l → v = .map inner → ∃ l', l.overlay (.map inner) = .ok l') :
    ∃ new, old.overlay v = .ok new ∧ Becomes old (some v) new := by
  cases old with
  | given w => exact ⟨.given v,rfl,.replaced nofun⟩
  | limits l =>
    cases v with
    | map inner =>
      obtain ⟨l',ended⟩ := ends l inner rfl rfl
      exact ⟨.limits l',map_eq_ok.mpr ⟨l',ended,rfl⟩,.laid ended⟩
    | _ => exact ⟨_,rfl,.replaced nofun⟩

theorem set_thresholds {t : Thresholds} {name : String} {v : Value}
    (ends : ∀ l inner, (thresholds t).fields.get? name = some (.limits l) → v = .map inner →
      ∃ l', l.overlay (.map inner) = .ok l') :
    ∃ s' new, (thresholds t).set name v = .ok s' ∧
      s'.fields = (thresholds t).fields.adjust name (fun _ => new) ∧
      ∀ old, (thresholds t).fields.get? name = some old → Becomes old (some v) new := by
  by_cases complexity : name = "complexity"
  · subst complexity
    have here : (thresholds t).fields.get? "complexity" = some t.complexity := rfl
    obtain ⟨new,ended,becomes⟩ := exists_becomes fun l inner limited => ends l inner (here.trans (congrArg _ limited))
    refine ⟨thresholds { t with complexity := new },new,?_,rfl,fun old found => ?_⟩
    · rw [set,Thresholds.set_complexity,ended]
      rfl
    · rwa [← Option.some.inj (here.symm.trans found)]
  · by_cases factor : name = "bottleneck_factor"
    · subst factor
      refine ⟨_,.given v,rfl,rfl,fun old found => ?_⟩
      have here : (thresholds t).fields.get? "bottleneck_factor" = some (.given t.bottleneckFactor) := rfl
      rw [← Option.some.inj (here.symm.trans found)]
      exact .replaced nofun
    · have new : name ∉ (thresholds t).fields.keys := by simp [fields,Table.keys,complexity,factor]
      refine ⟨thresholds t,.given v,?_,(Table.adjust_of_new new _).symm,fun old found => ?_⟩
      · rw [set,Thresholds.set]
        · rfl
        · exact factor
        · exact complexity
      · exact absurd (Table.mem_keys_iff.mpr ⟨old,found⟩) new

/-- Setting a name changes the field of that name, if there is one, and no other. -/
theorem exists_set {s : Section} {name : String} {v : Value}
    (ends : ∀ l inner, s.fields.get? name = some (.limits l) → v = .map inner →
      ∃ l', l.overlay (.map inner) = .ok l') :
    ∃ s' new, s.set name v = .ok s' ∧ s'.fields = s.fields.adjust name (fun _ => new) ∧
      ∀ old, s.fields.get? name = some old → Becomes old (some v) new := by
  by_cases flat : ∀ t, s ≠ thresholds t
  · obtain ⟨s',done,fields_⟩ := set_flat flat name v
    refine ⟨s',.given v,done,fields_,fun old found => ?_⟩
    obtain ⟨w,rfl⟩ := given_of_mem_fields flat _ (Table.mem_of_get? found)
    exact .replaced nofun
  · obtain ⟨t,rfl⟩ := not_forall_not.mp flat
    exact set_thresholds ends

end Section

end DepAudit.Settings
