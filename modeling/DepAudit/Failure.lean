import DepAudit.Address
import DepAudit.ManifestError
import DepAudit.Numeral
import DepAudit.Settings.FileError
import DepAudit.ValueRecord

/-! What can end an operation without an answer. -/
namespace DepAudit

structure ScanTimeout where
  seconds : String
  files : Nat
  deriving DecidableEq, Repr

def ScanTimeout.message (e : ScanTimeout) : String :=
  "Import scan exceeded " ++ e.seconds ++ "s (" ++ toString e.files ++ " files queued)"

inductive Failure where
  | manifest (e : ManifestError)
  /-- A text is nested deeper than the reader goes. -/
  | tooDeep
  | numeral (e : NumeralError)
  | address (e : AddressError)
  | setting (e : SettingError)
  | settingsFile (e : SettingsFileError)
  /-- A settings file is not UTF-8. -/
  | notUtf8
  /-- A digest is wanted of a path that is not UTF-8. -/
  | unencodable
  | scalar (e : Yaml.ScalarFault)
  | scanTimeout (e : ScanTimeout)
  /-- A value that cannot be shown. -/
  | record (e : RecordFault)
  deriving DecidableEq, Repr

end DepAudit
