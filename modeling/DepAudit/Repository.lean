import DepAudit.Address

/-! Names of packages, taken from the addresses of their repositories. -/
namespace DepAudit.Repository

def nameOfPath (address trimmed : List Char) : Except AddressError (List Char) := do
  let path ← Address.path trimmed
  let name := Text.dropEnd ".git".toList
    (Text.afterLast '/' (if path.isEmpty then trimmed else path))
  return if name.isEmpty then address else name

def isSlashCut (trimmed : List Char) : Bool :=
  Text.occurs "github.com".toList trimmed && trimmed.contains '/'

def packageName (address : String) : Except AddressError String :=
  let cs := address.toList
  let trimmed := Text.dropEndWhile (· = '/') cs
  if isSlashCut trimmed then
    .ok (String.ofList (Text.without ".git".toList (Text.afterLast '/' trimmed)))
  else (nameOfPath cs trimmed).map String.ofList

end DepAudit.Repository
