import BuildAudit.Graph
import BuildAudit.Toml.Reader

/-!
# Snapshots

A graph as the text of a file.  The text is a TOML document with a list of rows for each table; a
row is a list of cells, from which an empty last cell is left out.
-/

namespace BuildAudit.Snapshot

/-- A value in a row. -/
inductive Cell where
  | number (n : Int)
  | text (s : String)
  deriving DecidableEq, Repr

abbrev Row := List Cell

/-! ### Rows -/

def ofCommand (c : CommandRecord) : Row :=
  [.number c.id, .text c.directory, .text c.executable, .text c.args]

def command? : Row → Option CommandRecord
  | [.number id, .text directory, .text executable, .text args] =>
    some ⟨id, directory, executable, args⟩
  | _ => none

def ofArtifact (a : Artifact) : Row :=
  [.number a.id, .text a.name, .text a.type.name] ++ a.generator.toList.map .number

def artifact? : Row → Option Artifact
  | [.number id, .text name, .text type] => do
    return ⟨id, name, ← ArtifactType.ofName? type, none⟩
  | [.number id, .text name, .text type, .number generator] => do
    return ⟨id, name, ← ArtifactType.ofName? type, some generator⟩
  | _ => none

def ofEdge (e : Edge) : Row := [.number e.dependee, .number e.dependency]

def edge? : Row → Option Edge
  | [.number dependee, .number dependency] => some ⟨dependee, dependency⟩
  | _ => none

def ofSymbol (s : Symbol) : Row := [.number s.id, .text s.name, .text s.demangled]

def symbol? : Row → Option Symbol
  | [.number id, .text name, .text demangled] => some ⟨id, name, demangled⟩
  | _ => none

def ofReference (r : ReferenceRow) : Row :=
  [.number r.id, .number r.reference.artifact, .number r.reference.symbol,
    .text (r.strayCategory.getD r.reference.category.name), .text r.reference.code.toString] ++
    r.reference.size.toList.map .number

def reference? : Row → Option ReferenceRow
  | .number id :: .number artifact :: .number symbol :: .text category :: .text code :: size => do
    let size ← match size with
      | [] => some none
      | [.number n] => some (some n)
      | _ => none
    let r : Reference := ⟨artifact, symbol, .undefined, code.toList.headD '?', size⟩
    match Category.ofName? category with
    | some category => return ⟨id, { r with category }, none⟩
    | none => return ⟨id, r, some category⟩
  | _ => none

def ofStamp (p : Phase) (s : Stamp) : Row :=
  [.text p.name, .text (match s with
    | .at time => time.text
    | .unreadable text => text)]

def addStamp? (stamps : Stamps) : Row → Option Stamps
  | [.text phase, .text time] => do return stamps.set (← Phase.ofName? phase) (.ofText time)
  | _ => none

/-! ### Writing -/

def cellText : Cell → String
  | .number n => toString n
  | .text s => Toml.quote s

def rowText (r : Row) : String :=
  "    [" ++ String.intercalate ", " (r.map cellText) ++ "],\n"

def tableText (name : String) (rows : List Row) : String :=
  name ++ " = [\n" ++ String.join (rows.map rowText) ++ "]\n"

def heading : String := "# linkmap graph\n"

def text (g : Graph) : String :=
  heading ++ tableText "commands" (g.commands.map ofCommand) ++
    tableText "artifacts" (g.artifacts.map ofArtifact) ++
    tableText "edges" (g.edges.map ofEdge) ++
    tableText "symbols" (g.symbols.map ofSymbol) ++
    tableText "references" (g.references.map ofReference) ++
    tableText "times" (Phase.all.flatMap fun p => (g.stamps.get p).toList.map (ofStamp p))

/-! ### Reading -/

def cell? : Toml.Value → Option Cell
  | .integer n => some (.number n)
  | .string s => some (.text s)
  | _ => none

def row? : Toml.Value → Option Row
  | .array cells => cells.mapM cell?
  | _ => none

/-- The rows of a table, each read by `read`. -/
def rows? {α : Type} (document : Toml.Table) (name : String) (read : Row → Option α) :
    Option (List α) :=
  match document.lookup name with
  | some (.array rows) => rows.mapM fun row => row? row >>= read
  | _ => none

def ofText? (text : String) : Option Graph := do
  if !Text.beginsWith heading text then none
  let document ← Toml.read? text
  let times ← rows? document "times" some
  return {
    commands := ← rows? document "commands" command?
    artifacts := ← rows? document "artifacts" artifact?
    edges := ← rows? document "edges" edge?
    symbols := ← rows? document "symbols" symbol?
    references := ← rows? document "references" reference?
    stamps := ← times.foldlM addStamp? {} }

end BuildAudit.Snapshot
