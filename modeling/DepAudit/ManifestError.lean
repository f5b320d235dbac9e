import DepAudit.Json.Reader
import DepAudit.Text.Quoted

/-! Why a manifest cannot be used as a whole: it cannot be read, has another format, or lists no pins. -/
namespace DepAudit

inductive OpenFault where
  | notFound
  | isDirectory
  | notDirectory
  /-- A file stands where a directory is to be made. -/
  | fileExists
  | nameTooLong
  /-- A text that is no path. -/
  | noPath
  deriving DecidableEq, Repr

def OpenFault.message : OpenFault → String
  | .notFound => "[Errno 2] No such file or directory"
  | .isDirectory => "[Errno 21] Is a directory"
  | .notDirectory => "[Errno 20] Not a directory"
  | .fileExists => "[Errno 17] File exists"
  | .nameTooLong => "[Errno 36] File name too long"
  | .noPath => "embedded null byte"

inductive ManifestFault where
  | notOpened (reason : OpenFault)
  | notUtf8
  | notJson (reason : Json.ReadError)
  | notObject
  | noPins
  deriving DecidableEq, Repr

inductive ManifestErrorKind where
  | parseError
  | invalidFormat
  | missingPins
  deriving DecidableEq, Repr

def ManifestErrorKind.word : ManifestErrorKind → String
  | .parseError => "parse-error"
  | .invalidFormat => "invalid-format"
  | .missingPins => "missing-pins"

def ManifestFault.kind : ManifestFault → ManifestErrorKind
  | .notOpened _ | .notUtf8 => .parseError
  | .notJson _ | .notObject => .invalidFormat
  | .noPins => .missingPins

structure ManifestError where
  fault : ManifestFault
  path : Option String
  deriving DecidableEq, Repr

namespace ManifestError

def kind (e : ManifestError) : ManifestErrorKind := e.fault.kind

def message (e : ManifestError) : String :=
  let path := e.path.getD ""
  match e.fault with
  | .notOpened .notFound => "Manifest not found: " ++ path
  | .notUtf8 => "Manifest is not valid UTF-8: " ++ path
  | .notOpened reason =>
    "Cannot read manifest " ++ path ++ ": " ++ reason.message ++ ": " ++ Text.quoted path
  | .notJson reason => "Not valid JSON: " ++ reason.message
  | .notObject => "Top-level JSON value is not an object"
  | .noPins => "No pins found in pinned manifest"

end ManifestError

end DepAudit
