import DepAudit.Graph.Metrics
import DepAudit.Ranking
import DepAudit.ValueRecord

/-! Settings of an analysis, with their defaults, and laying given values over them. Values are taken
as they are; names that no setting has are passed over. A record of settings has names besides its fields,
and what giving one of those would do to the record itself is left out: the names count as unknown. -/
namespace DepAudit

/-- What counts as a manifest, as a project and as source, and what is left out. -/
structure DiscoverySettings where
  lockFileNames : Value := .seq [.text "Package.resolved"]
  manifestName : Value := .text "Package.swift"
  projectSuffix : Value := .text ".xcodeproj"
  workspaceSuffix : Value := .text ".xcworkspace"
  sourceEndings : Value := .seq [.text ".swift"]
  excluded : Value :=
    .seq [.text ".build",.text "DerivedData",.text "Pods",.text "Carthage"]

structure ScanSettings where
  enabled : Value := .bool true
  workers : Value := .int 8
  timeout : Value := .null

inductive ComplexitySetting where
  | limits (l : ComplexityLimits)
  | given (v : Value)

structure Thresholds where
  bottleneckFactor : Value := .float 2.0
  complexity : ComplexitySetting := .limits {}

def Weights.standard : Weights Value where
  importFrequency := .float 0.4
  bottleneck := .float 0.3
  direct := .float 0.2
  depth := .float 0.1
  importCount := .float 0.7
  coverage := .float 0.3

structure Settings where
  version : String := "1.0"
  root : String := "."
  discovery : DiscoverySettings := {}
  scan : ScanSettings := {}
  ranking : Weights Value := .standard
  thresholds : Thresholds := {}

namespace Settings

/-- Lays the pairs of a map over a section, one after the other; names have to be texts. What is no
map changes nothing. -/
def overlay {σ : Type} (set : σ → String → Value → Except SettingError σ) (section_ : σ) :
    Value → Except SettingError σ
  | .map pairs => pairs.foldlM (fun s p =>
      match p.1 with
      | .text name => set s name p.2
      | .halves _ => .ok s
      | _ => .error .wrongType) section_
  | _ => .ok section_

def record (members : List (String × Value)) : Except RecordFault Json :=
  (members.mapM fun (m : String × Value) => m.2.toJson.map (m.1,·)).map .obj

end Settings

namespace DiscoverySettings

def set (s : DiscoverySettings) (name : String) (v : Value) :
    Except SettingError DiscoverySettings :=
  .ok <| match name with
    | "resolved_file_names" => { s with lockFileNames := v }
    | "package_manifest_name" => { s with manifestName := v }
    | "project_suffix" => { s with projectSuffix := v }
    | "workspace_suffix" => { s with workspaceSuffix := v }
    | "source_extensions" => { s with sourceEndings := v }
    | "exclude_patterns" => { s with excluded := v }
    | _ => s

def overlay : DiscoverySettings → Value → Except SettingError DiscoverySettings :=
  Settings.overlay set

def toJson (s : DiscoverySettings) : Except RecordFault Json :=
  Settings.record [("resolved_file_names",s.lockFileNames),
    ("package_manifest_name",s.manifestName),("project_suffix",s.projectSuffix),
    ("workspace_suffix",s.workspaceSuffix),
    ("source_extensions",s.sourceEndings),("exclude_patterns",s.excluded)]

end DiscoverySettings

namespace ScanSettings

def set (s : ScanSettings) (name : String) (v : Value) : Except SettingError ScanSettings :=
  .ok <| match name with
    | "enabled" => { s with enabled := v }
    | "max_workers" => { s with workers := v }
    | "timeout_seconds" => { s with timeout := v }
    | _ => s

def overlay : ScanSettings → Value → Except SettingError ScanSettings := Settings.overlay set

def toJson (s : ScanSettings) : Except RecordFault Json :=
  Settings.record [("enabled",s.enabled),("max_workers",s.workers),
    ("timeout_seconds",s.timeout)]

end ScanSettings

namespace Weights

def set (w : Weights Value) (name : String) (v : Value) : Except SettingError (Weights Value) :=
  .ok <| match name with
    | "import_frequency" => { w with importFrequency := v }
    | "bottleneck" => { w with bottleneck := v }
    | "direct" => { w with direct := v }
    | "depth" => { w with depth := v }
    | "import_count_blend" => { w with importCount := v }
    | "coverage_blend" => { w with coverage := v }
    | _ => w

def overlay : Weights Value → Value → Except SettingError (Weights Value) := Settings.overlay set

def toJson (w : Weights Value) : Except RecordFault Json :=
  Settings.record [("import_frequency",w.importFrequency),("bottleneck",w.bottleneck),
    ("direct",w.direct),("depth",w.depth),
    ("import_count_blend",w.importCount),("coverage_blend",w.coverage)]

def checkShare (total top : Int) : Except SettingError Unit :=
  if 0 < top && !Binary64.isFinite (Ranking.importShare total top) then .error .tooGreat
  else .ok ()

def checkImports (w : Weights Value) (top total : Int) : Except SettingError Unit := do
  checkShare total top
  let _ ← w.importCount.amount
  let _ ← w.coverage.amount

def signals (w : Weights Value) : Except SettingError (Weights Float) := do
  return {
    importFrequency := ← w.importFrequency.amount
    bottleneck := ← w.bottleneck.amount
    direct := ← w.direct.amount
    depth := ← w.depth.amount
    importCount := 0.0
    coverage := 0.0 }

/-- The weights as doubles, for facts with the numbers of their imports where they were counted. What
the scores use is looked at fact by fact, so that the first value that does not fit counts. -/
def amounts (w : Weights Value) (top : Int) (totals : List (Option Int)) :
    Except SettingError (Weights Float) := do
  totals.forM fun total => do
    total.forM (checkImports w top)
    let _ ← w.signals
  let signals ← w.signals
  if totals.any Option.isSome then
    return { signals with importCount := ← w.importCount.amount, coverage := ← w.coverage.amount }
  else return signals

end Weights

namespace ComplexityLimits

def set (l : ComplexityLimits) (name : String) (v : Value) :
    Except SettingError ComplexityLimits :=
  .ok <| match name with
    | "medium_nodes" => { l with mediumNodes := v }
    | "medium_depth" => { l with mediumDepth := v }
    | "high_nodes" => { l with highNodes := v }
    | "high_depth" => { l with highDepth := v }
    | "extreme_nodes" => { l with extremeNodes := v }
    | "extreme_depth" => { l with extremeDepth := v }
    | _ => l

def overlay : ComplexityLimits → Value → Except SettingError ComplexityLimits :=
  Settings.overlay set

def toJson (l : ComplexityLimits) : Except RecordFault Json :=
  Settings.record [("medium_nodes",l.mediumNodes),("medium_depth",l.mediumDepth),
    ("high_nodes",l.highNodes),("high_depth",l.highDepth),
    ("extreme_nodes",l.extremeNodes),("extreme_depth",l.extremeDepth)]

end ComplexityLimits

namespace ComplexitySetting

def overlay (s : ComplexitySetting) (v : Value) : Except SettingError ComplexitySetting :=
  match s,v with
  | limits l,.map pairs => (l.overlay (.map pairs)).map limits
  | _,v => .ok (given v)

def used : ComplexitySetting → Except SettingError ComplexityLimits
  | limits l => .ok l
  | given v => if v.isOn then .error .noSection else .ok {}

def toJson : ComplexitySetting → Except RecordFault Json
  | limits l => l.toJson
  | given v => v.toJson

end ComplexitySetting

namespace Thresholds

def set (t : Thresholds) (name : String) (v : Value) : Except SettingError Thresholds :=
  match name with
  | "bottleneck_factor" => .ok { t with bottleneckFactor := v }
  | "complexity" => (t.complexity.overlay v).map fun c => { t with complexity := c }
  | _ => .ok t

def overlay : Thresholds → Value → Except SettingError Thresholds := Settings.overlay set

def toJson (t : Thresholds) : Except RecordFault Json := do
  return .obj [("bottleneck_factor",← t.bottleneckFactor.toJson),
    ("complexity",← t.complexity.toJson)]

end Thresholds

namespace Settings

def section? (pairs : List (Value × Value)) (name : String) : Option Value :=
  (pairs.find? fun p =>
    match p.1 with
    | .text s => s = name
    | _ => false).map Prod.snd

def given (pairs : List (Value × Value)) (name : String) : Value :=
  (section? pairs name).getD .null

def sectionNames : List String := ["discovery","scan","ranking","thresholds"]

def overlaySections (s : Settings) (pairs : List (Value × Value)) : Except SettingError Settings := do
  return { s with
    discovery := ← s.discovery.overlay (given pairs "discovery")
    scan := ← s.scan.overlay (given pairs "scan")
    ranking := ← s.ranking.overlay (given pairs "ranking")
    thresholds := ← s.thresholds.overlay (given pairs "thresholds") }

def toJson (s : Settings) : Except RecordFault Json := do
  return .obj [("version",.str s.version),("root",.str s.root),
    ("discovery",← s.discovery.toJson),("scan",← s.scan.toJson),
    ("ranking",← s.ranking.toJson),("thresholds",← s.thresholds.toJson)]

end Settings

end DepAudit
