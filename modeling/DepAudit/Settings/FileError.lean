import DepAudit.Yaml.Error

/-! Why a settings file is refused. -/
namespace DepAudit

inductive SettingsFileFault where
  | notFound
  | invalid (fault : Yaml.Fault)
  | notMap
  deriving DecidableEq, Repr

structure SettingsFileError where
  fault : SettingsFileFault
  path : String
  deriving DecidableEq, Repr

def SettingsFileError.message (e : SettingsFileError) : String :=
  match e.fault with
  | .notFound => "Config file not found: " ++ e.path
  | .invalid _ => "Invalid YAML in " ++ e.path
  | .notMap => "Config root must be a mapping: " ++ e.path

end DepAudit
