import BuildAudit.Distinct
import BuildAudit.Number
import BuildAudit.Text

/-!
# Symbol tables

The listing that a symbol dumper prints: one symbol a line, as `code name`, `address code name` or
`address size code name`.  `entryOf?` reads a line and `entriesOf` a listing; headings, blank lines
and names that the toolchain makes up are passed over.
-/

namespace BuildAudit

/-- A symbol as a symbol table lists it. -/
structure SymbolEntry where
  name : String
  code : Char
  size : Option Int
  deriving DecidableEq, Repr, Inhabited

namespace SymbolTable

/-! ### Names -/

/-- The characters of a plain symbol name. -/
def isNameChar (c : Char) : Bool := c.isAlphanum || c == '_' || c == '$' || c == '.'

/-- The name without its version: `foo@@V_2` names `foo`. -/
def baseName (raw : List Char) : List Char := raw.takeWhile isNameChar

/-- Names that the toolchain puts into every object. -/
def housekeepingNames : List String := ["_GLOBAL_OFFSET_TABLE_", "__dso_handle"]

/-- Whether a name is made up by the toolchain and never links anything: labels of constant pools,
clones and constructors, which all hold a dot, and housekeeping names. -/
def isNoise (name : String) : Bool :=
  Text.beginsWith ".LC" name || name.toList.contains '.' || housekeepingNames.contains name

/-! ### Lines -/

/-- Whether a field is a number in hexadecimal. -/
def isHex (field : List Char) : Bool := field ≠ [] && field.all (Text.isDigitIn 16)

/-- What the layouts of a line leave to read: the size field, if there is one, code and name. -/
def layoutOf? : List (List Char) → Option (Option (List Char) × List Char × List Char)
  | [code, name] => some (none, code, name)
  | [address, code, name] => if isHex address then some (none, code, name) else none
  | [address, size, code, name] =>
    if isHex address && isHex size then some (some size, code, name) else none
  | _ => none

/-- The size that a field writes; none if it does not fit a signed 64-bit number. -/
def sizeOf? (field : List Char) : Option Int :=
  let n := Text.valueIn 16 field
  if n ≤ Number.maxInt64 then some n else none

def entryOf? (line : List Char) : Option SymbolEntry :=
  match layoutOf? (Text.fieldsOf line) with
  | some (size, [code], raw) =>
    let name := String.ofList (baseName raw)
    if name == "" || isNoise name then none
    else some ⟨name, code, size.bind sizeOf?⟩
  | _ => none

/-! ### Listings -/

def entriesOf (listing : String) : List SymbolEntry :=
  distinct ((Text.linesOf listing.toList).filterMap entryOf?)

end SymbolTable

end BuildAudit
