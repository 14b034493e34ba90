import BuildAudit.Path

/-!
# Names of an operating system

An operating system names files by bytes.  Names that are UTF-8 are texts; the others stay as their
bytes.  Where a text is wanted, a replacement character stands for each place at which the bytes are
no character.
-/

namespace BuildAudit

/-! ### UTF-8 -/

namespace Utf8

/-- The bytes of a text. -/
def encode (s : String) : List UInt8 := s.toList.flatMap String.utf8EncodeChar

/-- The character at the front of bytes. -/
def first? (bytes : List UInt8) : Option Char := bytes.toByteArray.utf8DecodeChar? 0

/-- Whether a byte may be in a character behind its second byte. -/
def isTail (b : UInt8) : Bool := 0x80 ≤ b && b < 0xC0

/-- Whether a character of three or four bytes may begin with two bytes. -/
def beginsLong (lead second : UInt8) : Bool :=
  if lead == 0xE0 then 0xA0 ≤ second && second < 0xC0
  else if lead == 0xED then 0x80 ≤ second && second < 0xA0
  else if lead == 0xF0 then 0x90 ≤ second && second < 0xC0
  else if lead == 0xF4 then 0x80 ≤ second && second < 0x90
  else 0xE0 < lead && lead < 0xF4 && isTail second

/-- How many bytes at the front begin a character that does not go on; at least one. -/
def brokenLength : List UInt8 → Nat
  | lead :: second :: rest =>
    if !beginsLong lead second then 1
    else if 0xF0 ≤ lead && rest.head?.any isTail then 3
    else 2
  | _ => 1

/-- The characters of bytes, with `none` where they are no character.  The first `skip` bytes belong
to what has been read before. -/
def decodeFrom : Nat → List UInt8 → List (Option Char)
  | _, [] => []
  | skip + 1, _ :: bytes => decodeFrom skip bytes
  | 0, byte :: bytes =>
    match first? (byte :: bytes) with
    | some c => some c :: decodeFrom (c.utf8Size - 1) bytes
    | none => none :: decodeFrom (brokenLength (byte :: bytes) - 1) bytes

def decode (bytes : List UInt8) : List (Option Char) := decodeFrom 0 bytes

/-- The text of bytes; what is no character becomes a replacement character. -/
def lossy (bytes : List UInt8) : String :=
  String.ofList ((decode bytes).map (·.getD '\uFFFD'))

end Utf8

/-! ### Names and paths -/

/-- A name or a path. -/
inductive OsString where
  | text (s : String)
  /-- Bytes that are no text. -/
  | undecodable (bytes : List UInt8) (broken : none ∈ Utf8.decode bytes)
  deriving DecidableEq, Repr

namespace OsString

instance : Coe String OsString := ⟨text⟩

/-- The byte of a slash. -/
def slash : UInt8 := 0x2F

def ofBytes (bytes : List UInt8) : OsString :=
  if broken : none ∈ Utf8.decode bytes then undecodable bytes broken
  else text (Utf8.lossy bytes)

def bytes : OsString → List UInt8
  | text s => Utf8.encode s
  | undecodable bytes _ => bytes

/-- The text, with replacement characters for what is none. -/
def lossy : OsString → String
  | text s => s
  | undecodable bytes _ => Utf8.lossy bytes

/-- The length in bytes. -/
def size : OsString → Nat
  | text s => s.utf8ByteSize
  | undecodable bytes _ => bytes.length

def hasNul : OsString → Bool
  | text s => s.toList.contains '\x00'
  | undecodable bytes _ => bytes.contains 0

def append : OsString → OsString → OsString
  | text s, text s' => text (s ++ s')
  | s, s' => ofBytes (s.bytes ++ s'.bytes)

instance : Append OsString := ⟨append⟩

/-! The functions on paths read texts as `Path` does. -/

def segments : OsString → List OsString
  | text p => (Path.segments p).map text
  | undecodable bytes _ => (bytes.splitOn slash).map ofBytes

def isAbsolute : OsString → Bool
  | text p => Path.isAbsolute p
  | undecodable bytes _ => bytes.head? == some slash

def isIdle : OsString → Bool
  | text s => Path.isIdle s
  | undecodable _ _ => false

def endsInSlash : OsString → Bool
  | text p => Text.endsIn "/" p
  | undecodable bytes _ => bytes.getLast? == some slash

/-- `b` seen from `a`: an absolute `b` stands for itself. -/
def join (a b : OsString) : OsString :=
  if b.isAbsolute then b
  else if a == "" then b
  else if a.endsInSlash then a ++ b
  else a ++ "/" ++ b

end OsString

end BuildAudit
