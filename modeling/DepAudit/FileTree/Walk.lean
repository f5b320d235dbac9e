import DepAudit.FileTree.Basic

/-! Walking a file system from a directory down, leaving out hidden directories and those that a test
rejects. The test gets the path from the start of the walk, in which the start itself is a dot. A walk goes
down as far as there are directories: this follows the runtime library from its release 3.12 on, which
keeps what is still to be visited on a stack of its own; before it, a walk that came about a thousand
directories down was broken off. -/
namespace DepAudit

structure Visit where
  path : String
  files : List String
  deriving DecidableEq, Repr

namespace Entry

def isHidden (name : String) : Bool := name.startsWith "."

def fileNames (entries : List (String × Entry)) : List String :=
  entries.filterMap fun e =>
    match e.2 with
    | .file _ => some e.1
    | .directory _ => none

def childPath (here name : String) : String := if here = "." then name else here ++ "/" ++ name

section

variable {ε : Type} (rejects : String → Except ε Bool)

-- Files count as passed by; they are not asked about.
def passesBy (here name : String) : Entry → Except ε Bool
  | .file _ => .ok true
  | .directory _ => if isHidden name then .ok true else rejects (FilePath.join here name)

mutual

def visits (path here : String) : Entry → Except ε (List Visit)
  | .file _ => .ok []
  | .directory entries =>
    -- A path that is too long leads to no directory, and nobody is told.
    if path.utf8ByteSize > maxPathSize then .ok []
    else do return ⟨path,fileNames entries⟩ :: (← visitsBelow path here entries)

def visitsBelow (path here : String) : List (String × Entry) → Except ε (List Visit)
  | [] => .ok []
  | (name,entry) :: rest => do
    let first ← if ← passesBy rejects here name entry then pure []
      else visits (FilePath.join path name) (childPath here name) entry
    return first ++ (← visitsBelow path here rest)

end

end

def wantedFiles {ε : Type} (walk : List Visit) (wanted : Visit → String → Except ε Bool) :
    Except ε (List String) := do
  let found ← walk.mapM fun v => do
    return (← v.files.filterM (wanted v)).map (FilePath.join v.path)
  return found.flatten.mergeSort fun a b => decide (a ≤ b)

end Entry

namespace FileSystem

def walk {ε : Type} (disk : FileSystem) (rejects : String → Except ε Bool) (root : String) :
    Except ε (List Visit) :=
  match disk.list? root with
  | some entries => Entry.visits rejects root "." (.directory entries)
  | none => .ok []

end FileSystem

end DepAudit
