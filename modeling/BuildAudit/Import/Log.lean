import BuildAudit.Import

/-!
# Command logs

A recording as plain text: one invocation a line, in which blank lines and lines that begin with `#`
say nothing.
-/

namespace BuildAudit

/-- Whether a line says nothing. -/
def isLogComment (line : List Char) : Bool := line.isEmpty || line.head? == some '#'

/-- The entries of a log.  An invocation that names no directory runs in the default one. -/
def logEntries (text defaultDirectory : String) : List RecordedEntry :=
  let lines := ((Text.linesOf text.toList).map Text.trimChars).filter (!isLogComment ·)
  lines.map fun line => Command.ofLine (String.ofList line) defaultDirectory

end BuildAudit
