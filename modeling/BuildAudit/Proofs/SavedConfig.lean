import BuildAudit.Proofs.WrittenTables

/-!
# Saved configurations

A configuration is written as the lines of its sections (`Config.text_eq`), and what is written is read back.
Where sections or settings are left out, the defaults stand in their places, and nothing else changes
(`Config.saved_and_loaded`).
-/

namespace BuildAudit.Config

open Toml (Value Table)

/-! ## Sections of a configuration -/

def sections (c : Config) : List Section :=
  [⟨"store", [("path", .text c.store.path)]⟩,
    ⟨"extraction", [("jobs", .count c.extraction.jobs)]⟩,
    ⟨"toolchain", [("compiler", .text c.toolchain.compiler), ("nm", .text c.toolchain.nm),
      ("ldd", .text c.toolchain.ldd), ("library_dirs", .texts c.toolchain.libraryDirectories)]⟩]

/-- The lines of a configuration, with a blank one between sections. -/
def lines (c : Config) : List Line := [Line.blank].intercalate (c.sections.map Section.lines)

theorem text_eq (c : Config) : c.text = String.ofList (charsOf c.lines) := by
  rw [← String.toList_inj, String.toList_ofList]
  simp [text, lines, sections, Section.lines, charsOf, Line.text, Datum.written, List.intercalate_cons_cons,
    String.toList_append]

theorem lines_filter (c : Config) : c.lines.filter (· ≠ .blank) = c.sections.flatMap Section.lines := by
  simp [lines, sections, Section.lines, List.intercalate_cons_cons]

theorem sections_fit {c : Config} (fits : c.extraction.jobs ≤ Number.maxInt64) : ∀ s ∈ c.sections, s.Fits := by
  have bare : ∀ name ∈ ["store", "path", "extraction", "jobs", "toolchain", "compiler", "nm", "ldd", "library_dirs"],
      Toml.IsBareName name := by
    decide
  simp only [List.forall_mem_cons, List.not_mem_nil, false_implies, implies_true, and_true] at bare
  obtain ⟨store, path, extraction, jobs, toolchain, compiler, nm, ldd, libraryDirs⟩ := bare
  intro s hs
  simp only [sections, List.mem_cons, List.not_mem_nil, or_false] at hs
  rcases hs with rfl | rfl | rfl
  · exact ⟨store, by simpa [Datum.Fits] using path, (by decide : ["path"].Nodup)⟩
  · exact ⟨extraction, by simpa [Datum.Fits] using ⟨jobs, fits⟩, (by decide : ["jobs"].Nodup)⟩
  · exact ⟨toolchain, by simpa [Datum.Fits] using ⟨compiler, nm, ldd, libraryDirs⟩,
      (by decide : ["compiler", "nm", "ldd", "library_dirs"].Nodup)⟩

theorem sections_once (c : Config) : (c.sections.map (·.name)).Nodup :=
  (by decide : ["store", "extraction", "toolchain"].Nodup)

/-! ## Leaving out -/

/-- The section with those of its settings that are kept. -/
def Section.keep (keys : String → Bool) (s : Section) : Section :=
  { s with settings := s.settings.filter (keys ·.1) }

/-- The sections that are kept, with those of their settings that are kept. -/
def kept (c : Config) (names keys : String → Bool) : List Section :=
  (c.sections.filter (names ·.name)).map (Section.keep keys)

/-- The configuration, with the defaults in the places of the sections and settings that are not kept. -/
def keep (c : Config) (names keys : String → Bool) : Config :=
  let d : Config := {}
  { store :=
      if names "store" then { path := if keys "path" then c.store.path else d.store.path }
      else d.store
    extraction :=
      if names "extraction" then { jobs := if keys "jobs" then c.extraction.jobs else d.extraction.jobs }
      else d.extraction
    toolchain :=
      if names "toolchain" then {
        compiler := if keys "compiler" then c.toolchain.compiler else d.toolchain.compiler
        nm := if keys "nm" then c.toolchain.nm else d.toolchain.nm
        ldd := if keys "ldd" then c.toolchain.ldd else d.toolchain.ldd
        libraryDirectories :=
          if keys "library_dirs" then c.toolchain.libraryDirectories else d.toolchain.libraryDirectories }
      else d.toolchain }

theorem keep_all (c : Config) : c.keep (fun _ => true) (fun _ => true) = c := rfl

theorem Section.Fits.keep {s : Section} (fits : s.Fits) (keys : String → Bool) : (s.keep keys).Fits where
  name := fits.name
  settings := fun setting h => fits.settings setting (List.mem_of_mem_filter h)
  once := fits.once.sublist (List.filter_sublist.map _)

theorem kept_fit {c : Config} (fits : c.extraction.jobs ≤ Number.maxInt64) (names keys : String → Bool) :
    ∀ s ∈ c.kept names keys, s.Fits := by
  intro s hs
  obtain ⟨own, hown, rfl⟩ := List.mem_map.1 hs
  exact (sections_fit fits own (List.mem_of_mem_filter hown)).keep keys

theorem kept_once (c : Config) (names keys : String → Bool) : ((c.kept names keys).map (·.name)).Nodup := by
  rw [kept, List.map_map]
  exact c.sections_once.sublist (List.filter_sublist.map _)

/-! ## Reading what is kept -/

theorem lookup_filter {α : Type} (keeps : String → Bool) (name : String) (l : List (String × α)) :
    (l.filter (keeps ·.1)).lookup name = if keeps name then l.lookup name else none := by
  induction l with
  | nil => simp
  | cons entry l ih =>
    obtain ⟨key, value⟩ := entry
    by_cases same : name = key
    · rw [← same]
      rcases kept : keeps name <;> simp [kept, ih]
    · have other : (name == key) = false := beq_eq_false_iff_ne.2 same
      rcases kept : keeps key <;> simp [kept, ih, List.lookup_cons, other]

/-- A setting that is left out has its default. -/
theorem setting_filter {α : Type} (keeps : String → Bool) {values : Table} {name : String} {own default : α}
    {read : Value → Option α} (stated : setting values name default read = some own) :
    setting (values.filter (keeps ·.1)) name default read = some (if keeps name then own else default) := by
  rw [setting, lookup_filter]
  cases keeps name
  · rfl
  · exact stated

/-- The values of a section. -/
def Section.values (s : Section) : Table := s.settings.map fun (name, datum) => (name, datum.value)

theorem Section.table_keep (keys : String → Bool) (s : Section) :
    (s.keep keys).table = (s.name, .table (s.values.filter (keys ·.1))) := by
  rw [table, keep, values, List.filter_map]
  rfl

theorem texts?_strings (items : List String) : texts? (.array (items.map .string)) = some items := by
  have read : (items.map Value.string).mapM text? = some items := by
    induction items with
    | nil => rfl
    | cons item items ih => rw [List.map_cons, List.mapM_cons, ih]; rfl
  exact read

theorem count?_integer (n : Nat) : count? (.integer n) = some n := by
  simp [count?]

/-- The tables of all sections, with the settings that are kept. -/
def tables (c : Config) (keys : String → Bool) : Table :=
  c.sections.map fun s => (s.name, .table (s.values.filter (keys ·.1)))

theorem table_kept (c : Config) (names keys : String → Bool) :
    (c.kept names keys).map Section.table = (c.tables keys).filter (names ·.1) := by
  rw [kept, tables, List.map_map, List.filter_map]
  exact List.map_congr_left fun s _ => s.table_keep keys

theorem store?_filter (keys : String → Bool) (path : String) :
    store? (.table ([("path", Value.string path)].filter (keys ·.1))) =
      some ⟨if keys "path" then path else StoreSettings.path {}⟩ := by
  have own : setting [("path", Value.string path)] "path" "graph.db" text? = some path := rfl
  simp [store?, valuesOf?, setting_filter keys own]

theorem extraction?_filter (keys : String → Bool) (jobs : Nat) :
    extraction? (.table ([("jobs", Value.integer jobs)].filter (keys ·.1))) =
      some ⟨if keys "jobs" then jobs else ExtractionSettings.jobs {}⟩ := by
  have own : setting [("jobs", Value.integer jobs)] "jobs" 4 count? = some jobs := count?_integer jobs
  simp [extraction?, valuesOf?, setting_filter keys own]

theorem toolchain?_filter (keys : String → Bool) (t : ToolchainSettings) :
    let d : ToolchainSettings := {}
    toolchain? (.table ([("compiler", Value.string t.compiler), ("nm", .string t.nm), ("ldd", .string t.ldd),
        ("library_dirs", .array (t.libraryDirectories.map .string))].filter (keys ·.1))) =
      some {
        compiler := if keys "compiler" then t.compiler else d.compiler
        nm := if keys "nm" then t.nm else d.nm
        ldd := if keys "ldd" then t.ldd else d.ldd
        libraryDirectories := if keys "library_dirs" then t.libraryDirectories else d.libraryDirectories } := by
  intro d
  generalize hvalues : [("compiler", Value.string t.compiler), ("nm", .string t.nm), ("ldd", .string t.ldd),
    ("library_dirs", .array (t.libraryDirectories.map .string))] = values
  have compiler : setting values "compiler" "cc" text? = some t.compiler := hvalues ▸ rfl
  have nm : setting values "nm" "nm" text? = some t.nm := hvalues ▸ rfl
  have ldd : setting values "ldd" "ldd" text? = some t.ldd := hvalues ▸ rfl
  have dirs : setting values "library_dirs" [] texts? = some t.libraryDirectories :=
    hvalues ▸ texts?_strings t.libraryDirectories
  simp [toolchain?, valuesOf?, setting_filter keys compiler, setting_filter keys nm, setting_filter keys ldd,
    setting_filter keys dirs, d]

theorem ofTable?_eq {document : Table} {c : Config} (store : setting document "store" {} store? = some c.store)
    (extraction : setting document "extraction" {} extraction? = some c.extraction)
    (toolchain : setting document "toolchain" {} toolchain? = some c.toolchain) : ofTable? document = some c := by
  simp [ofTable?, store, extraction, toolchain]

/-- The tables of what is kept are read as the configuration with defaults for the rest. -/
theorem ofTable?_kept (c : Config) (names keys : String → Bool) :
    ofTable? ((c.kept names keys).map Section.table) = some (c.keep names keys) := by
  have store : setting (c.tables keys) "store" {} store? = some _ := store?_filter keys c.store.path
  have extraction : setting (c.tables keys) "extraction" {} extraction? = some _ :=
    extraction?_filter keys c.extraction.jobs
  have toolchain : setting (c.tables keys) "toolchain" {} toolchain? = some _ :=
    toolchain?_filter keys c.toolchain
  rw [table_kept]
  exact ofTable?_eq (setting_filter names store) (setting_filter names extraction) (setting_filter names toolchain)

/-! ## Loading -/

theorem load_eq_ok {files : FileTree} {path text : String} {c : Config} (found : files.readText path = .ok text)
    (read : ofText? text = some c) : load files path = .ok c := by
  rw [load, found]
  dsimp only
  rw [read]

/-- What is kept is read back, wherever blank lines stand. -/
theorem ofText?_kept {c : Config} (fits : c.extraction.jobs ≤ Number.maxInt64) {names keys : String → Bool}
    {lines : List Line} (hlines : lines.filter (· ≠ .blank) = (c.kept names keys).flatMap Section.lines) :
    (∃ document, Toml.read? (String.ofList (charsOf lines)) = some document) ∧
      ofText? (String.ofList (charsOf lines)) = some (c.keep names keys) := by
  have read := read?_sections (kept_fit fits names keys) (c.kept_once names keys) hlines
  refine ⟨⟨_, read⟩, ?_⟩
  rw [ofText?, read]
  exact c.ofTable?_kept names keys

theorem kept_all (c : Config) : c.kept (fun _ => true) (fun _ => true) = c.sections := by
  simp [kept, sections, Section.keep]

/-- A configuration whose number of jobs has 64 bits with a sign is written as TOML and loaded as itself.  It
is written as the lines of its sections, and if only some of its sections and settings are kept, their lines
are TOML as well, wherever blank ones stand, and they are loaded as the configuration with the defaults in the
places of what is left out. -/
theorem saved_and_loaded {c : Config} (fits : c.extraction.jobs ≤ Number.maxInt64) :
    (∃ document, Toml.read? c.text = some document) ∧
    (∀ files path, FileTree.readText files path = .ok c.text → load files path = .ok c) ∧
    (c.text = String.ofList (charsOf c.lines) ∧
      c.lines.filter (· ≠ .blank) = c.sections.flatMap Section.lines) ∧
    ∀ (names keys : String → Bool) (lines : List Line),
      lines.filter (· ≠ .blank) = (c.kept names keys).flatMap Section.lines →
      (∃ document, Toml.read? (String.ofList (charsOf lines)) = some document) ∧
      ∀ files path, FileTree.readText files path = .ok (String.ofList (charsOf lines)) →
        load files path = .ok (c.keep names keys) := by
  have whole := c.lines_filter
  rw [← kept_all] at whole
  obtain ⟨document, read⟩ := ofText?_kept fits whole
  rw [← text_eq] at document read
  rw [keep_all] at read
  refine ⟨document, fun files path found => load_eq_ok found read, ⟨c.text_eq, c.lines_filter⟩, ?_⟩
  intro names keys lines hlines
  obtain ⟨document, read⟩ := ofText?_kept fits hlines
  exact ⟨document, fun files path found => load_eq_ok found read⟩

/-- Strings for which each style of quotes is needed, with escapes and without. -/
def quotedConfig : Config where
  store := { path := "a\\b\"c" }
  extraction := { jobs := Number.maxInt64 }
  toolchain := {
    compiler := "it's \"\"\"\n\t\\"
    nm := "\x00\r\x7f"
    ldd := "'\"\\"
    libraryDirectories := ["/usr/lib\n", "", "C:\\lib"] }

/-- A part of the configuration, with blank lines at odd places. -/
def quotedPart : List Line :=
  [.blank, .header "store", .blank, .header "toolchain", .blank,
    .setting "compiler" (.text quotedConfig.toolchain.compiler),
    .setting "library_dirs" (.texts quotedConfig.toolchain.libraryDirectories), .blank, .blank]

def quotedFiles : FileTree :=
  ⟨[(["config.toml"], .file quotedConfig.text.toUTF8),
    (["part.toml"], .file (String.ofList (charsOf quotedPart)).toUTF8)], []⟩

theorem saved_and_loaded_quoted :
    load quotedFiles "/config.toml" = .ok quotedConfig ∧
      load quotedFiles "/part.toml" = .ok {
        store := {}
        extraction := {}
        toolchain := { quotedConfig.toolchain with nm := "nm", ldd := "ldd" } } := by
  have whole : quotedFiles.readText "/config.toml" = .ok quotedConfig.text := by decide +kernel
  have part : quotedFiles.readText "/part.toml" = .ok (String.ofList (charsOf quotedPart)) := by
    decide +kernel
  obtain ⟨-, saved, -, leftOut⟩ := saved_and_loaded (c := quotedConfig) (Nat.le_refl _)
  have lines : quotedPart.filter (· ≠ .blank) =
      (quotedConfig.kept (· ≠ "extraction") ["compiler", "library_dirs"].contains).flatMap Section.lines := by
    decide
  exact ⟨saved _ _ whole, (leftOut _ _ _ lines).2 _ _ part⟩

end BuildAudit.Config
