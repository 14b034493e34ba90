import BuildAudit.Text

/-!
# Names of databases

A database is named by the path of its file or by an address: `file:`, perhaps an authority, a path,
and parameters after a question mark.  `DatabaseName.ofText` reads a name.  The parts of an address
are split before they are decoded, so an encoded separator separates nothing.
-/

namespace BuildAudit.CommandLine

/-! ### What a name may ask for -/

/-- What a database is opened for. -/
inductive Access where
  | readOnly
  /-- Reading and writing what is there. -/
  | existing
  /-- Reading and writing, of a new database if there is none. -/
  | creating
  /-- Reading and writing in memory. -/
  | memory
  deriving DecidableEq, Repr

namespace Access

def all : List Access := [readOnly, existing, creating, memory]

def name : Access → String
  | readOnly => "ro"
  | existing => "rw"
  | creating => "rwc"
  | memory => "memory"

def ofName? (s : String) : Option Access := all.find? (·.name == s)

/-- How much an access grants. -/
def rights : Access → Nat
  | readOnly => 1
  | existing => 2
  | creating => 3
  | memory => 4

/-- Whether one who has been granted an access may ask for another.  Rights are only given up;
memory is open to all. -/
def permits (granted asked : Access) : Bool := asked == memory || asked.rights ≤ granted.rights

end Access

/-- How the changes of a database are kept. -/
inductive Keeping where
  /-- In a log beside its file. -/
  | logged
  /-- In its file alone. -/
  | direct
  /-- Not at all, as it is in memory. -/
  | memory
  deriving DecidableEq, Repr

/-- The way of keeping that a storage layer provides. -/
def Keeping.ofLayer? : String → Option Keeping
  | "unix" | "unix-excl" => some .logged
  | "unix-none" | "unix-dotfile" => some .direct
  | "memdb" => some .memory
  | _ => none

structure DatabaseName where
  path : String
  access : Access := .creating
  keeping : Keeping := .logged
  /-- Its file is said not to change. -/
  immutable : Bool := false
  deriving DecidableEq, Repr

/-- Why an address names no database. -/
inductive NameError where
  | authority (text : String)
  | unknownAccess (text : String)
  | refusedAccess (text : String)
  | unknownCache (text : String)
  | unknownLayer (text : String)
  deriving DecidableEq, Repr

def NameError.message : NameError → String
  | authority text => "invalid uri authority: " ++ text
  | unknownAccess text => "no such access mode: " ++ text
  | refusedAccess text => "access mode not allowed: " ++ text
  | unknownCache text => "no such cache mode: " ++ text
  | unknownLayer text => "no such vfs: " ++ text

/-! ### Addresses -/

/-- The bytes that a part of an address stands for.  A percent sign with two hexadecimal digits is
one byte, and a zero byte ends the part. -/
def decodedBytes : List Char → List UInt8
  | '%' :: rest@(high :: low :: more) =>
    match Text.natIn? 16 [high, low] with
    | some 0 => []
    | some n => n.toUInt8 :: decodedBytes more
    | none => 0x25 :: decodedBytes rest
  | c :: rest => c.toString.toUTF8.toList ++ decodedBytes rest
  | [] => []

/-- The text that a part of an address stands for.  Bytes that are no UTF-8 are read one by one. -/
def decoded (part : List Char) : String :=
  let bytes := decodedBytes part
  (String.fromUTF8? ⟨bytes.toArray⟩).getD (String.ofList (bytes.map (Char.ofNat ·.toNat)))

structure Address where
  path : String
  /-- The parameters by name, in their order. -/
  parameters : List (String × String)
  deriving DecidableEq, Repr

namespace Address

/-- A parameter without a name counts for nothing; one without a value has an empty one. -/
def parameter? (part : List Char) : Option (String × String) :=
  let name := decoded (part.takeWhile (· ≠ '='))
  if name == "" then none
  else some (name, decoded ((part.dropWhile (· ≠ '=')).drop 1))

/-- Reads an address from its path on.  A fragment is passed over. -/
def ofChars (cs : List Char) : Address :=
  let cs := cs.takeWhile (· ≠ '#')
  let query := (cs.dropWhile (· ≠ '?')).drop 1
  { path := decoded (cs.takeWhile (· ≠ '?'))
    parameters := (query.splitOn '&').filterMap parameter? }

/-- What follows the authority, which can only be this machine. -/
def afterAuthority : List Char → Except NameError (List Char)
  | '/' :: '/' :: rest =>
    let authority := String.ofList (rest.takeWhile (· ≠ '/'))
    if authority == "" || authority == "localhost" then .ok (rest.dropWhile (· ≠ '/'))
    else .error (.authority authority)
  | cs => .ok cs

/-- Whether a value switches something on: a number whose lowest byte is not zero, or one of three
words in letters of either case. -/
def isOn (value : String) : Bool :=
  let digits := value.toList.takeWhile (Text.isDigitIn 10)
  if digits.isEmpty then
    ["on", "yes", "true"].contains (String.ofList (value.toList.map Char.toLower))
  else
    let n := Text.valueIn 10 digits
    n < 0x80000000 && n % 256 != 0

/-- Whether a parameter is there and switches something on. -/
def hasSwitch (a : Address) (name : String) : Bool := (a.parameters.lookup name).any isOn

/-- The access that is left after one more parameter. -/
def narrowAccess (granted : Access) : String × String → Except NameError Access
  | ("mode", value) =>
    match Access.ofName? value with
    | none => .error (.unknownAccess value)
    | some asked => if granted.permits asked then .ok asked else .error (.refusedAccess value)
  | ("cache", value) =>
    if ["shared", "private"].contains value then .ok granted else .error (.unknownCache value)
  | _ => .ok granted

/-- The way of keeping that the last parameter about it asks for. -/
def keeping (a : Address) : Except NameError Keeping :=
  match a.parameters.reverse.lookup "vfs" with
  | none => .ok .logged
  | some layer =>
    match Keeping.ofLayer? layer with
    | some keeping => .ok keeping
    | none => .error (.unknownLayer layer)

/-- The name that an address gives.  Without locks there is no log. -/
def databaseName (a : Address) : Except NameError DatabaseName := do
  let access ← a.parameters.foldlM narrowAccess .creating
  let keeping ← a.keeping
  return {
    path := a.path, access
    keeping := if keeping == .logged && a.hasSwitch "nolock" then .direct else keeping
    immutable := a.hasSwitch "immutable" }

end Address

namespace DatabaseName

def ofText (text : String) : Except NameError DatabaseName :=
  match Text.after? "file:" text with
  | none => .ok { path := text }
  | some body => do (Address.ofChars (← Address.afterAuthority body.toList)).databaseName

/-- Paths of databases that no file keeps. -/
def isTransientPath (path : String) : Bool := path == "" || path == ":memory:"

/-- Whether no file keeps the database. -/
def isTransient (n : DatabaseName) : Bool :=
  n.access == .memory || isTransientPath n.path || n.keeping == .memory

/-- Whether nothing can be written to the database.  Only one with a path beside its storage is
bound by the promise that it does not change. -/
def isReadOnly (n : DatabaseName) : Bool :=
  n.access == .readOnly || (n.immutable && n.access != .memory && !isTransientPath n.path)

end DatabaseName

end BuildAudit.CommandLine
