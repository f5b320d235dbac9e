import DepAudit.Text.Slices

/-! Paths as texts: joined, split and brought to their shortest form. A path that starts with a slash
is absolute. -/
namespace DepAudit.FilePath

def isAbsolute (path : String) : Bool := path.startsWith "/"

def isPath (text : String) : Bool := !text.toList.contains '\x00'

def join (directory name : String) : String :=
  if isAbsolute name then name
  else if directory.isEmpty || directory.endsWith "/" then directory ++ name
  else directory ++ "/" ++ name

def components (path : String) : List String := (path.toList.splitOn '/').map String.ofList

/-- Adds a component to the ones before it, which are given in reverse. Going up takes one away, except
at the start of a relative path. -/
def addComponent (absolute : Bool) (before : List String) (component : String) : List String :=
  if component = "" || component = "." then before
  else if component = ".." then
    match before with
    | [] => if absolute then [] else [".."]
    | last :: rest => if last = ".." then ".." :: before else rest
  else component :: before

def reduced (path : String) : List String :=
  ((components path).foldl (addComponent (isAbsolute path)) []).reverse

def leadingSlashes (path : String) : String :=
  if path.startsWith "//" && !path.startsWith "///" then "//"
  else if isAbsolute path then "/"
  else ""

def normalize (path : String) : String :=
  let text := leadingSlashes path ++ "/".intercalate (reduced path)
  if text.isEmpty then "." else text

def absolute (here path : String) : String := normalize (join here path)

def directoryOf (path : String) : String :=
  let cs := path.toList
  let head := cs.take (cs.length - (Text.afterLast '/' cs).length)
  if head.all (· = '/') then String.ofList head
  else String.ofList (Text.dropEndWhile (· = '/') head)

def nameOf (path : String) : String := String.ofList (Text.afterLast '/' path.toList)

def dropCommon : List String → List String → List String × List String
  | a :: as,b :: bs => if a = b then dropCommon as bs else (a :: as,b :: bs)
  | as,bs => (as,bs)

def relative (here path start : String) : String :=
  let (up,down) := dropCommon (reduced (absolute here start)) (reduced (absolute here path))
  let text := "/".intercalate (up.map (fun _ => "..") ++ down)
  if text.isEmpty then "." else text

end DepAudit.FilePath
