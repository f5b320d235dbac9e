import DepAudit.FilePath
import DepAudit.ManifestError
import DepAudit.Table
import DepAudit.Text.Decode

/-! File systems as values, and what opening, reading and listing a path gives. A relative path is seen
from the directory that a program works in; the directory above the top is the top itself. -/
namespace DepAudit

inductive Entry where
  | file (content : ByteArray)
  | directory (entries : List (String × Entry))

/-- What lies below the top, and the absolute path of the directory that a program works in. Names need
not be UTF-8: a byte that is no part of a character is shown by one of the characters `strays`, which stand
for nothing else. Which ones these are is left open; a length counts the bytes of what is shown. -/
structure FileSystem where
  top : Entry
  here : String
  strays : Char → Bool

namespace Entry

def maxNameSize : Nat := 255

def maxPathSize : Nat := 4095

-- `above` holds the directories that lie above the entry, the nearest one first.
def follow (above : List Entry) (entry : Entry) : List String → Except OpenFault Entry
  | [] => .ok entry
  | name :: rest =>
    match entry with
    | .file _ => .error .notDirectory
    | .directory entries =>
      if name = "" || name = "." then follow above entry rest
      else if name = ".." then
        match above with
        | [] => follow [] entry rest
        | up :: above => follow above up rest
      else if name.utf8ByteSize > maxNameSize then .error .nameTooLong
      else match Table.get? entries name with
        | some inner => follow (entry :: above) inner rest
        | none => .error .notFound

/-- Puts an entry below a directory, with the directories that lead to it. A directory that is there
already is kept. -/
def place (entry : Entry) : List String → List (String × Entry) → List (String × Entry)
  | [],entries => entries
  | [name],entries =>
    match entry,Table.get? entries name with
    | .directory [],some _ => entries
    | _,_ => Table.set entries name entry
  | name :: rest,entries =>
    let inner := match Table.get? entries name with
      | some (.directory inner) => inner
      | _ => []
    Table.set entries name (.directory (entry.place rest inner))

def ofFiles (files : List (String × Option ByteArray)) : Entry :=
  .directory (files.foldl (fun entries f =>
    let entry := match f.2 with
      | some content => Entry.file content
      | none => .directory []
    entry.place (FilePath.reduced f.1) entries) [])

def asTop (tree : Entry) : FileSystem := ⟨tree,"/",fun _ => false⟩

end Entry

namespace FileSystem

def open? (disk : FileSystem) (path : String) : Except OpenFault Entry :=
  if !FilePath.isPath path then .error .noPath
  else if path.isEmpty then .error .notFound
  else if path.utf8ByteSize > Entry.maxPathSize then .error .nameTooLong
  else disk.top.follow [] (FilePath.components (FilePath.join disk.here path))

def isFile (disk : FileSystem) (path : String) : Bool :=
  match disk.open? path with
  | .ok (.file _) => true
  | _ => false

def list? (disk : FileSystem) (path : String) : Option (List (String × Entry)) :=
  match disk.open? path with
  | .ok (.directory entries) => some entries
  | _ => none

def bytes (disk : FileSystem) (path : String) : Except OpenFault ByteArray :=
  match disk.open? path with
  | .ok (.file content) => .ok content
  | .ok (.directory _) => .error .isDirectory
  | .error reason => .error reason

def text? (disk : FileSystem) (path : String) : Option String :=
  match disk.bytes path with
  | .ok content => Text.decode? content
  | .error _ => none

def readManifest (disk : FileSystem) (path : String) : Except ManifestError String :=
  match disk.bytes path with
  | .error reason => .error ⟨.notOpened reason,some path⟩
  | .ok content =>
    match Text.decode? content with
    | some text => .ok text
    | none => .error ⟨.notUtf8,some path⟩

/-- Whether a text that is made of names can be written in UTF-8. -/
def encodes (disk : FileSystem) (text : String) : Bool := !text.toList.any disk.strays

end FileSystem

end DepAudit
