/-! The SHA-1 digest of a byte sequence. -/
namespace DepAudit.Digest

structure State where
  a : UInt32
  b : UInt32
  c : UInt32
  d : UInt32
  e : UInt32
  deriving DecidableEq, Repr

def State.initial : State := ⟨0x67452301,0xEFCDAB89,0x98BADCFE,0x10325476,0xC3D2E1F0⟩

def State.add (s t : State) : State := ⟨s.a + t.a,s.b + t.b,s.c + t.c,s.d + t.d,s.e + t.e⟩

def rotate (x : UInt32) (n : UInt32) : UInt32 := (x <<< n) ||| (x >>> (32 - n))

def bigEndian (width n : Nat) : List UInt8 :=
  (List.range width).reverse.map fun i => (n >>> (8 * i)).toUInt8

/-- A message with its end mark and length, up to a whole number of blocks of 64 bytes. -/
def padded (message : List UInt8) : List UInt8 :=
  let size := message.length
  message ++ 0x80 :: List.replicate ((119 - size % 64) % 64) 0 ++ bigEndian 8 (8 * size)

def chunks {α : Type} (n : Nat) (xs : List α) : List (List α) :=
  match xs with
  | [] => []
  | x :: rest => (x :: rest.take n) :: chunks n (rest.drop n)
termination_by xs.length
decreasing_by simp only [List.length_drop,List.length_cons]; omega

def wordOf (bytes : List UInt8) : UInt32 :=
  bytes.foldl (fun w b => (w <<< 8) ||| b.toUInt32) 0

def nextWord (ws : List UInt32) : UInt32 :=
  let at_ (i : Nat) : UInt32 := ws.getD (i - 1) 0
  rotate (at_ 3 ^^^ at_ 8 ^^^ at_ 14 ^^^ at_ 16) 1

def extend : Nat → List UInt32 → List UInt32
  | 0,ws => ws
  | n + 1,ws => extend n (nextWord ws :: ws)

def schedule (block : List UInt8) : List UInt32 :=
  (extend 64 ((chunks 3 block).map wordOf).reverse).reverse

def mix (round : Nat) (s : State) : UInt32 × UInt32 :=
  if round < 20 then ((s.b &&& s.c) ||| ((~~~s.b) &&& s.d),0x5A827999)
  else if round < 40 then (s.b ^^^ s.c ^^^ s.d,0x6ED9EBA1)
  else if round < 60 then ((s.b &&& s.c) ||| (s.b &&& s.d) ||| (s.c &&& s.d),0x8F1BBCDC)
  else (s.b ^^^ s.c ^^^ s.d,0xCA62C1D6)

def round (s : State) (word : UInt32 × Nat) : State :=
  let m := mix word.2 s
  ⟨rotate s.a 5 + m.1 + s.e + m.2 + word.1,s.a,rotate s.b 30,s.c,s.d⟩

def block (s : State) (bytes : List UInt8) : State :=
  s.add ((schedule bytes).zipIdx.foldl round s)

def sha1 (message : List UInt8) : State :=
  (chunks 63 (padded message)).foldl block .initial

def hexWord (w : UInt32) : List Char :=
  let digits := Nat.toDigits 16 w.toNat
  List.replicate (8 - digits.length) '0' ++ digits

def hex (message : List UInt8) : List Char :=
  let s := sha1 message
  [s.a,s.b,s.c,s.d,s.e].flatMap hexWord

def ofText (text : String) : List Char := hex text.toUTF8.toList

end DepAudit.Digest
