import BuildAudit.Import
import BuildAudit.Json.Reader

/-!
# Compilation databases

A recording as JSON: a list of entries with the names `directory`, `command` and `arguments`.  An
entry is an object, or a list of the three values in this order.
-/

namespace BuildAudit

/-- An entry of a compilation database. -/
structure CompileEntry where
  directory : String
  command : Option String := none
  arguments : Option (List String) := none
  deriving DecidableEq, Repr

namespace CompileEntry

/-- The command of an entry.  Arguments that are there and not empty win over the command line, and
the first word is always the executable. -/
def recorded (e : CompileEntry) : RecordedEntry :=
  let words : Except CommandError (List String) :=
    match e.arguments, e.command with
    | some (word :: words), _ => .ok (word :: words)
    | _, some line =>
      match Shell.split? line with
      | some words => .ok words
      | none => .error (.unbalanced line)
    | _, none => .error .empty
  match words with
  | .error error => .error error
  | .ok [] => .error .empty
  | .ok (executable :: arguments) => .ok ⟨e.directory, executable, arguments⟩

/-! ### Reading -/

open Json (Reader)

/-- The values of an object that have been read. -/
structure Fields where
  directory : Option String := none
  command : Option (Option String) := none
  arguments : Option (Option (List String)) := none

/-- Reads the value of one name into the fields; a known name may come once. -/
def readField (f : Fields) (key : String) : Reader Fields := fun input => do
  if key == "directory" then
    if f.directory.isSome then .error .misshapen
    let (value, input) ← Json.text (← Json.colon input)
    .ok ({ f with directory := some value }, input)
  else if key == "command" then
    if f.command.isSome then .error .misshapen
    let (value, input) ← Json.nullable Json.text (← Json.colon input)
    .ok ({ f with command := some value }, input)
  else if key == "arguments" then
    if f.arguments.isSome then .error .misshapen
    let (value, input) ← Json.nullable (Json.list Json.text) (← Json.colon input)
    .ok ({ f with arguments := some value }, input)
  else .ok (f, ← Json.skipValue (← Json.colon input))

/-- Reads the names of an object up to its end; `fuel` bounds their number. -/
def readFields (fuel : Nat) (first : Bool) (f : Fields) : Reader CompileEntry := fun input =>
  match fuel with
  | 0 => .error .truncated
  | fuel + 1 => do
    match ← Json.nextKey first input with
    | (some key, input) =>
      let (f, input) ← readField f key input
      readFields fuel false f input
    | (none, input) =>
      match f.directory with
      | none => .error .misshapen
      | some directory =>
        .ok (⟨directory, f.command.join, f.arguments.join⟩, ← Json.close .object input)

def readValues : Reader CompileEntry := fun input => do
  let (found, input) ← Json.nextElement true input
  if !found then .error .misshapen
  let (directory, input) ← Json.text input
  let (found, input) ← Json.nextElement false input
  if !found then return (⟨directory, none, none⟩, ← Json.close .list input)
  let (command, input) ← Json.nullable Json.text input
  let (found, input) ← Json.nextElement false input
  if !found then return (⟨directory, command, none⟩, ← Json.close .list input)
  let (arguments, input) ← Json.nullable (Json.list Json.text) input
  return (⟨directory, command, arguments⟩, ← Json.close .list input)

def read : Reader CompileEntry := fun input =>
  match Json.skipSpace input with
  | [] => .error .truncated
  | b :: rest =>
    if b == Json.byte '[' then readValues rest
    else if b == Json.byte '\x7b' then readFields (rest.length + 1) true {} rest
    else .error (Json.misfit b rest)

end CompileEntry

/-- The entries of a compilation database. -/
def compileDatabase (contents : ByteArray) : Except Json.ReadError (List CompileEntry) :=
  Json.document (Json.list CompileEntry.read) contents.toList

end BuildAudit
