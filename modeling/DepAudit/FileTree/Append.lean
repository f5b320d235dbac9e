import DepAudit.FileTree.Basic

/-! Opening a file so that text can be put to its end. The file is made if it is not there, and so are
the directories that lead to it. -/
namespace DepAudit.FileSystem

def put (disk : FileSystem) (path : String) (entry : Entry) : FileSystem :=
  match disk.top with
  | .file _ => disk
  | .directory entries =>
    { disk with top := .directory (entry.place (FilePath.reduced (FilePath.join disk.here path)) entries) }

/-- Makes the directories that the components of a path name, one below the other; `before` is the path
that was gone already. A file may stand at none of them. -/
def makeDirectories (disk : FileSystem) (before : String) : List String → Except OpenFault FileSystem
  | [] => .ok disk
  | name :: rest =>
    let path := FilePath.join before name
    match disk.open? path with
    | .ok (.directory _) => disk.makeDirectories path rest
    | .ok (.file _) => .error (if rest.isEmpty then .fileExists else .notDirectory)
    | .error .notFound => (disk.put path (.directory [])).makeDirectories path rest
    | .error fault => .error fault

def openToAppend (disk : FileSystem) (path : String) : Except OpenFault FileSystem := do
  if !FilePath.isPath path then throw .noPath
  let names := (FilePath.components path).filter fun c => c ≠ "" && c ≠ "."
  let disk ← disk.makeDirectories (FilePath.leadingSlashes path) names.dropLast
  let path := FilePath.normalize path
  match disk.open? path with
  | .ok (.file _) => return disk
  | .ok (.directory _) => throw .isDirectory
  | .error .notFound => return disk.put path (.file .empty)
  | .error fault => throw fault

end DepAudit.FileSystem
