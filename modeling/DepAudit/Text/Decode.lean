/-! Text of files: UTF-8 without faults, every kind of line end read as a line feed. -/
namespace DepAudit.Text

def joinLineEnds : List Char → List Char
  | [] => []
  | '\r' :: '\n' :: cs => '\n' :: joinLineEnds cs
  | '\r' :: cs => '\n' :: joinLineEnds cs
  | c :: cs => c :: joinLineEnds cs

def decode? (bytes : ByteArray) : Option String :=
  (String.fromUTF8? bytes).map fun s => String.ofList (joinLineEnds s.toList)

def chunkSize : Nat := 8192

def startsChar (bytes : ByteArray) : Bool :=
  [0x80,0xBF].any fun second => [0,1,2].any fun more =>
    (String.fromUTF8? (bytes ++ (second :: List.replicate more 0x80).toByteArray)).any
      (·.length = 1)

def decodeStart? (bytes : ByteArray) : Option String :=
  [0,1,2,3].findSome? fun open_ =>
    let whole := bytes.extract 0 (bytes.size - open_)
    let rest := bytes.extract (bytes.size - open_) bytes.size
    if open_ = 0 || startsChar rest then String.fromUTF8? whole else none

/-- The characters that come before a carriage return at the end, which may belong to a line end. -/
def withoutReturn (cs : List Char) : List Char :=
  if cs.getLast? = some '\r' then cs.dropLast else cs

def decodedChunks (bytes : ByteArray) : List Char :=
  let starts := (List.range (bytes.size / chunkSize + 2)).map fun k =>
    decodeStart? (bytes.extract 0 (min bytes.size (k * chunkSize)))
  let known := ((starts.takeWhile Option.isSome).getLast?.join).getD ""
  joinLineEnds (withoutReturn known.toList)

end DepAudit.Text
