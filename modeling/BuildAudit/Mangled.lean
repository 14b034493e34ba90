import BuildAudit.Mangled.Printer

/-!
# Demangling

What a symbol's name says in the source language, if it is a mangled C++ name.
-/

namespace BuildAudit

/-- The name in clear; empty if the name is not mangled. -/
def demangle (name : String) : String :=
  ((Mangled.MangledName.ofChars? name.toList).bind (·.text?)).getD ""

end BuildAudit
