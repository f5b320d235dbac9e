import DepAudit.Proofs.Outcome
import DepAudit.Settings.Load

/-! Which settings files a load refuses as such, and which ones end it in another way: texts that cannot be
decoded, and documents in which something stands whose kind the load takes for granted. -/
namespace DepAudit

namespace Value

def HasTextKeys (v : Value) : Prop := ∀ pairs, v = .map pairs → ∀ p ∈ pairs, p.1.isTextKey = true

def Avoids (v : Value) (names : List String) : Prop :=
  ∀ pairs, v = .map pairs → ∀ p ∈ pairs, ∀ name ∈ names, p.1 ≠ .text name

theorem hasTextKeys_nil : HasTextKeys (.map []) := fun pairs same => by
  cases same
  exact nofun

theorem hasTextKeys_cons {p : Value × Value} {ps : List (Value × Value)} :
    HasTextKeys (.map (p :: ps)) ↔ p.1.isTextKey = true ∧ HasTextKeys (.map ps) := by
  constructor
  · intro texts
    obtain ⟨first,others⟩ := List.forall_mem_cons.mp (texts _ rfl)
    refine ⟨first,fun pairs same => ?_⟩
    cases same
    exact others
  · rintro ⟨first,others⟩ pairs same
    cases same
    exact List.forall_mem_cons.mpr ⟨first,others _ rfl⟩

end Value

namespace Settings

section

variable {σ : Type} {set : σ → String → Value → Except SettingError σ} {s : σ}
  {ps : List (Value × Value)}

theorem overlay_text (name : String) (v : Value) : overlay set s (.map ((.text name,v) :: ps)) =
    set s name v >>= fun s => overlay set s (.map ps) := rfl

theorem overlay_other {key : Value} (other : key.isTextKey = false) (v : Value) :
    overlay set s (.map ((key,v) :: ps)) = .error .wrongType := by
  cases key <;> first | rfl | cases other

/-- A section that takes every value under every name takes the maps with texts as keys. What holds of it
meanwhile is carried along. -/
theorem overlay_ends_iff_of {P : σ → Prop}
    (total : ∀ s, P s → ∀ name v, ∃ s', set s name v = .ok s' ∧ P s') (start : P s) (v : Value) :
    (∃ s', overlay set s v = .ok s') ↔ v.HasTextKeys := by
  cases v with
  | map pairs =>
    induction pairs generalizing s with
    | nil => exact ⟨fun _ => Value.hasTextKeys_nil,fun _ => ⟨s,rfl⟩⟩
    | cons p ps ih =>
      obtain ⟨key,v⟩ := p
      rw [Value.hasTextKeys_cons]
      cases texts : key.isTextKey with
      | false =>
        rw [overlay_other texts]
        exact ⟨nofun,fun both => nomatch both.1⟩
      | true =>
        rw [and_iff_right rfl]
        cases key with
        | text name =>
          obtain ⟨s',laid,kept⟩ := total s start name v
          rw [overlay_text,laid]
          exact ih kept
        | halves codes => exact ih start
        | _ => cases texts
  | _ => exact ⟨fun _ => nofun,fun _ => ⟨s,rfl⟩⟩

theorem overlay_ends_iff (total : ∀ s name v, ∃ s', set s name v = .ok s') (s : σ) (v : Value) :
    (∃ s', overlay set s v = .ok s') ↔ v.HasTextKeys :=
  overlay_ends_iff_of (P := fun _ => True)
    (fun s _ name v => (total s name v).imp fun _ laid => ⟨laid,trivial⟩) trivial v

end

end Settings

theorem ComplexityLimits.overlay_ends_iff (l : ComplexityLimits) (v : Value) :
    (∃ l', l.overlay v = .ok l') ↔ v.HasTextKeys :=
  Settings.overlay_ends_iff (fun _ _ _ => ⟨_,rfl⟩) l v

namespace Thresholds

/-- The maps that are laid over the limits of complexity: those that are given before another value takes
the place of the limits. -/
def limitMaps : List (Value × Value) → List Value
  | [] => []
  | (key,v) :: ps =>
    if namesLimits key then
      match v with
      | .map pairs => .map pairs :: limitMaps ps
      | _ => []
    else limitMaps ps
where
  namesLimits : Value → Bool
    | .text name => name = "complexity"
    | _ => false

variable {t : Thresholds} {ps : List (Value × Value)} {v : Value}

theorem limitMaps_other {key : Value} (other : limitMaps.namesLimits key = false) :
    limitMaps ((key,v) :: ps) = limitMaps ps :=
  if_neg (ne_true_of_eq_false other)

theorem limitMaps_map (pairs : List (Value × Value)) :
    limitMaps ((.text "complexity",.map pairs) :: ps) = .map pairs :: limitMaps ps := rfl

theorem limitMaps_replaced (noMap : ∀ pairs, v ≠ .map pairs) :
    limitMaps ((.text "complexity",v) :: ps) = [] := by
  cases v with
  | map pairs => exact absurd rfl (noMap pairs)
  | _ => rfl

theorem set_other {name : String} (other : name ≠ "complexity") (v : Value) :
    ∃ t', t.set name v = .ok t' ∧ t'.complexity = t.complexity := by
  by_cases factor : name = "bottleneck_factor"
  · subst factor
    exact ⟨_,rfl,rfl⟩
  · refine ⟨t,?_,rfl⟩
    rw [set]
    · exact factor
    · exact other

theorem set_complexity (t : Thresholds) (v : Value) : t.set "complexity" v =
    (t.complexity.overlay v).map fun c => { t with complexity := c } := rfl

theorem set_replaced (noMap : ∀ pairs, v ≠ .map pairs) :
    t.set "complexity" v = .ok { t with complexity := .given v } := by
  rw [set_complexity]
  cases v with
  | map pairs => exact absurd rfl (noMap pairs)
  | _ => cases t.complexity <;> rfl

theorem set_map {l : ComplexityLimits} (limited : t.complexity = .limits l)
    (pairs : List (Value × Value)) : t.set "complexity" (.map pairs) =
      (l.overlay (.map pairs)).map fun l => { t with complexity := .limits l } := by
  rw [set_complexity,limited,ComplexitySetting.overlay]
  cases l.overlay (.map pairs) <;> rfl

theorem overlay_ends_iff_of_given (free : ∃ w, t.complexity = .given w) (v : Value) :
    (∃ t', t.overlay v = .ok t') ↔ v.HasTextKeys := by
  refine Settings.overlay_ends_iff_of (P := fun t => ∃ w, t.complexity = .given w) ?_ free v
  rintro t ⟨w,given⟩ name v
  by_cases complexity : name = "complexity"
  · subst complexity
    refine ⟨{ t with complexity := .given v },?_,v,rfl⟩
    rw [set_complexity,given]
    rfl
  · obtain ⟨t',laid,kept⟩ := set_other (t := t) complexity v
    exact ⟨t',laid,w,kept.trans given⟩

/-- Thresholds take a map with texts as keys, in which the limits are given as such maps too. -/
theorem overlay_map_ends_iff {l : ComplexityLimits} (limited : t.complexity = .limits l)
    (pairs : List (Value × Value)) : (∃ t', t.overlay (.map pairs) = .ok t') ↔
      Value.HasTextKeys (.map pairs) ∧ ∀ v ∈ limitMaps pairs, v.HasTextKeys := by
  -- By the pairs still to be laid; once a value stands in the place of the limits, the rest is the case
  -- of given values, in which complexity may be anything.
  induction pairs generalizing t l with
  | nil => exact ⟨fun _ => ⟨Value.hasTextKeys_nil,nofun⟩,fun _ => ⟨t,rfl⟩⟩
  | cons p ps ih =>
    obtain ⟨key,v⟩ := p
    rw [Value.hasTextKeys_cons]
    cases texts : key.isTextKey with
    | false =>
      rw [overlay,Settings.overlay_other texts]
      exact ⟨nofun,fun both => nomatch both.1.1⟩
    | true =>
      rw [and_iff_right rfl]
      cases key with
      | halves codes => exact ih limited
      | text name =>
        rw [overlay,Settings.overlay_text]
        by_cases complexity : name = "complexity"
        · subst complexity
          by_cases isMap : ∃ pairs, v = .map pairs
          · obtain ⟨pairs,rfl⟩ := isMap
            rw [set_map limited,limitMaps_map,List.forall_mem_cons,and_left_comm,← l.overlay_ends_iff]
            constructor
            · rintro ⟨t',ended⟩
              obtain ⟨_,laid,rest⟩ := bind_eq_ok.mp ended
              obtain ⟨l',inner,rfl⟩ := map_eq_ok.mp laid
              exact ⟨⟨l',inner⟩,(ih rfl).mp ⟨t',rest⟩⟩
            · rintro ⟨⟨l',inner⟩,others⟩
              obtain ⟨t',rest⟩ := (ih (t := { t with complexity := .limits l' }) rfl).mpr others
              exact ⟨t',bind_eq_ok.mpr ⟨_,map_eq_ok.mpr ⟨l',inner,rfl⟩,rest⟩⟩
          · have noMap : ∀ pairs, v ≠ .map pairs := fun pairs same => isMap ⟨pairs,same⟩
            rw [set_replaced noMap,limitMaps_replaced noMap,and_iff_left nofun]
            exact overlay_ends_iff_of_given ⟨v,rfl⟩ (.map ps)
        · have other : limitMaps.namesLimits (.text name) = false := decide_eq_false complexity
          obtain ⟨t',laid,kept⟩ := set_other (t := t) complexity v
          rw [laid,limitMaps_other other]
          exact ih (kept.trans limited)
      | _ => cases texts

theorem overlay_ends_iff {l : ComplexityLimits} (limited : t.complexity = .limits l) (v : Value) :
    (∃ t', t.overlay v = .ok t') ↔
      v.HasTextKeys ∧ ∀ pairs, v = .map pairs → ∀ m ∈ limitMaps pairs, m.HasTextKeys := by
  cases v with
  | map pairs =>
    refine (overlay_map_ends_iff limited pairs).trans (and_congr_right fun _ => ⟨?_,fun all => all _ rfl⟩)
    rintro maps _ ⟨⟩
    exact maps
  | _ => exact ⟨fun _ => ⟨nofun,nofun⟩,fun _ => ⟨t,rfl⟩⟩

end Thresholds

namespace Settings

open Yaml (Document)

def sectionOf (d : Document) (name : String) : Value :=
  ((d.find? name).map (d.value readRounds)).getD .null

/-- Whatever a load looks at in a document is of the kind that it takes for granted: the version can be
shown, sections and limits are no maps or have texts as keys, and the root is a text or a sequence of
bytes. -/
structure Usable (d : Document) : Prop where
  version : ∀ id, d.find? "version" = some id → ∃ text, (d.value shownRounds id).shown? = .ok text
  sections : ∀ name ∈ sectionNames, (sectionOf d name).HasTextKeys
  limits : ∀ pairs, sectionOf d "thresholds" = .map pairs →
    ∀ v ∈ Thresholds.limitMaps pairs, v.HasTextKeys
  root : ∀ id, d.find? "root" = some id → (d.value shownRounds id).isTextKey = true ∨
    ∃ bytes, d.value shownRounds id = .bytes bytes

theorem section?_cons (first name : String) (v : Value) (rest : List (Value × Value)) : section?
    ((.text first,v) :: rest) name = if first = name then some v else section? rest name := by
  by_cases same : first = name
  · rw [section?,List.find?_cons_of_pos (by exact decide_eq_true same),if_pos same]
    rfl
  · rw [section?,List.find?_cons_of_neg (by exact ne_true_of_eq_false (decide_eq_false same)),
      if_neg same,section?]

def sectionsOf (d : Document) : List (Value × Value) :=
  sectionNames.filterMap fun name => (d.find? name).map fun id => (.text name,d.value readRounds id)

theorem given_sectionsOf (d : Document) {name : String} (known : name ∈ sectionNames) :
    given (sectionsOf d) name = sectionOf d name := by
  -- A name that the document does not know is left out of the map, so the list of names is kept general.
  have found (names : List String) : section? (names.filterMap fun name =>
      (d.find? name).map fun id => (Value.text name,d.value readRounds id)) name =
        if name ∈ names then (d.find? name).map (d.value readRounds) else none := by
    induction names with
    | nil => rfl
    | cons first names ih =>
      rw [List.filterMap_cons]
      by_cases same : name = first
      · subst same
        rw [if_pos (List.mem_cons_self ..)]
        cases here : d.find? name with
        | none =>
          rw [here] at ih
          exact ih.trans (ite_self _)
        | some id => exact (section?_cons ..).trans (if_pos rfl)
      · simp only [List.mem_cons,same,false_or]
        rw [← ih]
        cases d.find? first with
        | none => rfl
        | some id => exact (section?_cons ..).trans (if_neg (Ne.symm same))
  rw [given,sectionsOf,found,if_pos known,sectionOf]

variable {d : Document}

theorem rootText_ends_iff (v : Value) : (∃ text, rootText v = .ok text) ↔ v.isTextKey = true := by
  cases v with
  | text s => exact ⟨fun _ => rfl,fun _ => ⟨s,rfl⟩⟩
  | halves codes => exact ⟨fun _ => rfl,fun _ => ⟨codes.shown,rfl⟩⟩
  | _ => exact ⟨nofun,nofun⟩

theorem overlaySections_ends_iff {s : Settings} {l : ComplexityLimits}
    (limited : s.thresholds.complexity = .limits l) (pairs : List (Value × Value)) :
    (∃ s', s.overlaySections pairs = .ok s') ↔ (∀ name ∈ sectionNames, (given pairs name).HasTextKeys) ∧
      ∀ thresholds, given pairs "thresholds" = .map thresholds →
        ∀ v ∈ Thresholds.limitMaps thresholds, v.HasTextKeys := by
  have discovery : (∃ d, s.discovery.overlay (given pairs "discovery") = .ok d) ↔ _ :=
    overlay_ends_iff (fun _ _ _ => ⟨_,rfl⟩) ..
  have scan : (∃ c, s.scan.overlay (given pairs "scan") = .ok c) ↔ _ :=
    overlay_ends_iff (fun _ _ _ => ⟨_,rfl⟩) ..
  have ranking : (∃ w, s.ranking.overlay (given pairs "ranking") = .ok w) ↔ _ :=
    overlay_ends_iff (fun _ _ _ => ⟨_,rfl⟩) ..
  have thresholds := Thresholds.overlay_ends_iff limited (given pairs "thresholds")
  simp only [sectionNames,List.forall_mem_cons,List.not_mem_nil,IsEmpty.forall_iff,implies_true,and_true]
  rw [← discovery,← scan,← ranking,and_assoc,and_assoc,and_assoc,← thresholds]
  constructor
  · rintro ⟨s',ended⟩
    obtain ⟨d,first,rest⟩ := bind_eq_ok.mp ended
    obtain ⟨c,second,rest⟩ := bind_eq_ok.mp rest
    obtain ⟨w,third,rest⟩ := bind_eq_ok.mp rest
    obtain ⟨t,fourth,_⟩ := bind_eq_ok.mp rest
    exact ⟨⟨d,first⟩,⟨c,second⟩,⟨w,third⟩,⟨t,fourth⟩⟩
  · rintro ⟨⟨d,first⟩,⟨c,second⟩,⟨w,third⟩,⟨t,fourth⟩⟩
    exact ⟨_,bind_eq_ok.mpr ⟨d,first,bind_eq_ok.mpr ⟨c,second,bind_eq_ok.mpr ⟨w,third,
      bind_eq_ok.mpr ⟨t,fourth,rfl⟩⟩⟩⟩⟩

def versionOf (d : Document) : Except Failure String :=
  match d.find? "version" with
  | some id => (d.value shownRounds id).shown?.mapError .record
  | none => .ok ({} : Settings).version

def withRoot (d : Document) (s : Settings) : Except Failure Settings :=
  match d.find? "root" with
  | some id => ((rootText (d.value shownRounds id)).mapError .setting).map fun root => { s with root }
  | none => .ok s

theorem ofDocument_eq (d : Document) : ofDocument d = versionOf d >>= fun version =>
    (overlaySections { version } (sectionsOf d)).mapError .setting >>= withRoot d := by
  have rooted (s : Settings) : withRoot d s = (match d.find? "root" with
      | some id => do return { s with root := ← (rootText (d.value shownRounds id)).mapError .setting }
      | none => return s) := by
    rw [withRoot]
    cases d.find? "root" with
    | none => rfl
    | some id => cases (rootText (d.value shownRounds id)).mapError Failure.setting <;> rfl
  rw [ofDocument,versionOf,funext rooted]
  cases d.find? "version" <;> rfl

theorem versionOf_ends_iff : (∃ version, versionOf d = .ok version) ↔
    ∀ id, d.find? "version" = some id → ∃ text, (d.value shownRounds id).shown? = .ok text := by
  rw [versionOf]
  cases d.find? "version" with
  | none => exact ⟨fun _ => nofun,fun _ => ⟨_,rfl⟩⟩
  | some id =>
    simp only [mapError_eq_ok,Option.some.injEq,forall_eq']

theorem withRoot_ends_iff (s : Settings) : (∃ s', withRoot d s = .ok s') ↔
    ∀ id, d.find? "root" = some id → (d.value shownRounds id).isTextKey = true := by
  rw [withRoot]
  cases d.find? "root" with
  | none => exact ⟨fun _ => nofun,fun _ => ⟨_,rfl⟩⟩
  | some id =>
    simp only [Option.some.injEq,forall_eq']
    rw [← rootText_ends_iff]
    constructor
    · rintro ⟨s',ended⟩
      obtain ⟨root,read,_⟩ := map_eq_ok.mp ended
      exact ⟨root,mapError_eq_ok.mp read⟩
    · rintro ⟨root,read⟩
      exact ⟨_,map_eq_ok.mpr ⟨root,mapError_eq_ok.mpr read,rfl⟩⟩

/-- The settings of a document are found just where it is usable. -/
theorem ofDocument_ends_iff {d : Document} (noBytes : ∀ id bytes, d.find? "root" = some id →
    d.value shownRounds id ≠ .bytes bytes) : (∃ s, ofDocument d = .ok s) ↔ Usable d := by
  rw [ofDocument_eq]
  constructor
  · rintro ⟨s,ended⟩
    obtain ⟨version,shown,rest⟩ := bind_eq_ok.mp ended
    obtain ⟨s',laid,rooted⟩ := bind_eq_ok.mp rest
    obtain ⟨sections,limits⟩ := (overlaySections_ends_iff rfl _).mp ⟨s',mapError_eq_ok.mp laid⟩
    exact ⟨versionOf_ends_iff.mp ⟨version,shown⟩,
      fun name known => given_sectionsOf d known ▸ sections name known,
      fun pairs same => limits pairs ((given_sectionsOf d (by decide)).trans same),
      fun id named => .inl ((withRoot_ends_iff s').mp ⟨s,rooted⟩ id named)⟩
  · intro usable
    obtain ⟨version,shown⟩ := versionOf_ends_iff.mpr usable.version
    obtain ⟨s',laid⟩ := (overlaySections_ends_iff (s := { version }) rfl (sectionsOf d)).mpr
      ⟨fun name known => (given_sectionsOf d known).symm ▸ usable.sections name known,
        fun pairs same => usable.limits pairs ((given_sectionsOf d (by decide)).symm.trans same)⟩
    obtain ⟨s,rooted⟩ := (withRoot_ends_iff s').mpr fun id named =>
      (usable.root id named).resolve_right fun ⟨bytes,same⟩ => noBytes id bytes named same
    exact ⟨s,bind_eq_ok.mpr ⟨version,shown,bind_eq_ok.mpr ⟨s',mapError_eq_ok.mpr laid,rooted⟩⟩⟩

theorem ofDocument_failure {e : Failure} (ended : ofDocument d = .error e) (fault : SettingsFileError) :
    e ≠ .settingsFile fault := by
  rw [ofDocument_eq] at ended
  rcases bind_eq_error.mp ended with early | ⟨version,_,ended⟩
  · rw [versionOf] at early
    split at early
    · obtain ⟨reason,_,rfl⟩ := mapError_eq_error.mp early
      exact nofun
    · cases early
  rcases bind_eq_error.mp ended with early | ⟨s,_,late⟩
  · obtain ⟨reason,_,rfl⟩ := mapError_eq_error.mp early
    exact nofun
  · rw [withRoot] at late
    split at late
    · obtain ⟨reason,_,rfl⟩ := mapError_eq_error.mp (map_eq_error.mp late)
      exact nofun
    · cases late

theorem documentFailure_escapes_iff (path : String) (e : Yaml.Error) :
    (∀ fault, documentFailure path e ≠ .settingsFile fault) ↔ ∀ fault, e ≠ .invalid fault := by
  cases e with
  | invalid fault => exact ⟨fun all => absurd rfl (all _),fun all => absurd rfl (all fault)⟩
  | _ => exact ⟨fun _ => nofun,fun _ => nofun⟩

variable {content? : String → Option ByteArray} {here path : String} {project : Option String}
  {content : ByteArray}

theorem load_eq (there : content? path = some content) : load content? here (some path) project =
    (ofBytes path content).map (settle (subject here path)) := by
  rw [load,file?,there]
  change (ofBytes path ((content? path).getD .empty) >>= fun s => _) = _
  rw [there,Option.getD_some]
  cases ofBytes path content <;> rfl

/-- The names under which every section has something that is no field of it: its class, the map of its
fields, and what refers to it. A value for one of these does not become the value of a field. -/
def internalNames : List String := ["__class__","__dict__","__weakref__"]

/-- A document that gives fields alone: its sections and its limits have no internal name as a key, and its
root is no sequence of bytes. -/
structure Plain (d : Document) : Prop where
  sections : ∀ name ∈ sectionNames, (sectionOf d name).Avoids internalNames
  limits : ∀ pairs, sectionOf d "thresholds" = .map pairs →
    ∀ v ∈ Thresholds.limitMaps pairs, v.Avoids internalNames
  root : ∀ id bytes, d.find? "root" = some id → d.value shownRounds id ≠ .bytes bytes

/-- The load of a file that is there ends with its settings or with a settings file error, but for two kinds
of content: a text that cannot be read and breaks no rule of the format, and a map that is not usable. -/
theorem load_escapes_iff (there : content? path = some content)
    (plain : ∀ d, Yaml.read content = .ok d → Plain d) :
    (∃ e, load content? here (some path) project = .error e ∧ ∀ fault, e ≠ .settingsFile fault) ↔
      (∃ e, Yaml.read content = .error e ∧ ∀ fault, e ≠ .invalid fault) ∨
        ∃ d, Yaml.read content = .ok d ∧ d.isMap = true ∧ ¬Usable d := by
  rw [load_eq there]
  simp only [map_eq_error]
  -- Settling the root fails on no settings, so only the content decides.
  cases read : Yaml.read content with
  | error e =>
    have refused : ofBytes path content = .error (documentFailure path e) := by
      rw [ofBytes,read]
      rfl
    simp only [refused,Except.error.injEq,exists_eq_left',reduceCtorEq,false_and,exists_false,or_false]
    exact documentFailure_escapes_iff path e
  | ok d =>
    simp only [Except.ok.injEq,exists_eq_left',reduceCtorEq,false_and,exists_false,false_or]
    have opened : ofBytes path content = if d.isMap then ofDocument d
        else if (d.value shownRounds d.root).isOn then .error (.settingsFile ⟨.notMap,path⟩)
        else .ok {} := by
      rw [ofBytes,read]
      rfl
    rw [opened]
    cases d.isMap with
    | true =>
      rw [if_pos rfl,and_iff_right rfl,← ofDocument_ends_iff (plain d read).root]
      cases ended : ofDocument d with
      | error e => exact ⟨fun _ => nofun,fun _ => ⟨e,rfl,ofDocument_failure ended⟩⟩
      | ok s => exact ⟨nofun,fun unusable => absurd ⟨s,rfl⟩ unusable⟩
    | false =>
      rw [if_neg Bool.false_ne_true]
      refine ⟨?_,nofun⟩
      rintro ⟨e,ended,escapes⟩
      split at ended
      · exact absurd (Except.error.inj ended).symm (escapes _)
      · cases ended

def numericRoot : ByteArray := "root: 5".toUTF8

theorem read_numericRoot : ∃ d id n, Yaml.read numericRoot = .ok d ∧ d.isMap = true ∧
    d.find? "root" = some id ∧ d.value shownRounds id = .int n ∧
      ∀ name ∈ sectionNames, d.find? name = none := by
  have ends : ((Yaml.read numericRoot).toOption.bind fun d => (d.find? "root").bind fun id =>
      match d.value shownRounds id with
      | .int n => if d.isMap ∧ ∀ name ∈ sectionNames, d.find? name = none then some n else none
      | _ => none) = some 5 := by decide +kernel
  obtain ⟨d,some_d,rest⟩ := Option.bind_eq_some_iff.mp ends
  obtain ⟨id,named,number⟩ := Option.bind_eq_some_iff.mp rest
  split at number
  · rename_i n root
    split at number
    · rename_i both
      exact ⟨d,id,n,toOption_eq_some.mp some_d,both.1,named,root,both.2⟩
    · cases number
  · cases number

/-- A byte that starts no character, and a root that is a number. -/
theorem undecodable_and_numeric_root_escape :
    (∃ e, load (fun p => if p = "c.yaml" then some ⟨#[0xFF]⟩ else none) "/w" (some "c.yaml") none =
      .error e ∧ ∀ fault, e ≠ .settingsFile fault) ∧
    ∃ e, load (fun p => if p = "c.yaml" then some numericRoot else none) "/w" (some "c.yaml") none =
      .error e ∧ ∀ fault, e ≠ .settingsFile fault := by
  constructor
  · have read : Yaml.read ⟨#[0xFF]⟩ = .error .brokenOff := by rfl
    exact (load_escapes_iff (if_pos rfl) fun _ other => nomatch read.symm.trans other).mpr
      (.inl ⟨.brokenOff,read,nofun⟩)
  · obtain ⟨d,id,n,read,isMap,named,root,bare⟩ := read_numericRoot
    have noSection : ∀ name ∈ sectionNames, sectionOf d name = .null := by
      intro name known
      rw [sectionOf,bare name known]
      rfl
    have plain : Plain d := by
      refine ⟨fun name known => ?_,fun pairs same => ?_,fun id' bytes named' same => ?_⟩
      · rw [noSection name known]
        exact nofun
      · cases (noSection "thresholds" (by decide)).symm.trans same
      · obtain rfl := Option.some.inj (named.symm.trans named')
        cases root.symm.trans same
    refine (load_escapes_iff (if_pos rfl) fun d' other =>
      Except.ok.inj (read.symm.trans other) ▸ plain).mpr (.inr ⟨d,read,isMap,fun usable => ?_⟩)
    rcases usable.root id named with text | ⟨bytes,same⟩
    · rw [root] at text
      cases text
    · cases root.symm.trans same

end Settings

end DepAudit
