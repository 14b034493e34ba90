import Mathlib.Data.List.Pairwise
import BuildAudit.Proofs.Mentions
import BuildAudit.Proofs.SurfacingErrors

/-!
# Misnamed files

Whether the commands of a build agree about the kind of a file is a matter of names.  Names that tell
different kinds do not agree, and where a name tells nothing, the file is taken for something that only
mentions of the same sort take it for: a program where it is written, a source where it is an input
(`Extractor.Misnamed`).  That is all: kinds clash at a path exactly if the file is misnamed
(`misnamed_iff`), and a store that was filled by imports of commands with different outputs can be
extracted exactly if no file is (`extract_fails_iff_misnamed`).  Of several arguments of a command that lead
to one file, only the first one counts.
-/

namespace BuildAudit

open Update BuildAudit.Graph

variable {x : Extractor} {g : Graph} {s : Store} {path : String}

/-! ## Mentions of one file -/

/-- Some command of the graph mentions the file. -/
def Extractor.MentionedAs (x : Extractor) (g : Graph) (path : String) (m : Mention) : Prop :=
  ∃ row ∈ g.commands, x.Mentions row path m

/-- No two commands write one file. -/
def Extractor.WritesOnce (x : Extractor) (g : Graph) : Prop :=
  ∀ c ∈ g.commands, ∀ d ∈ g.commands, ∀ path, x.Writes c path → x.Writes d path → c = d

/-- The path that the command writes, if it resolves. -/
def Extractor.output? (x : Extractor) (c : CommandRecord) : Option String :=
  (c.resolve x.files x.searchDirectories).toOption.map (·.output)

theorem Extractor.output?_of_resolves {c : CommandRecord} {r : Resolution} (hr : x.Resolves c r) :
    x.output? c = some r.output := by
  rw [output?, show c.resolve _ _ = _ from hr]
  rfl

/-- That no file is written twice can be read off the list of outputs. -/
theorem writesOnce_of_nodup (h : (g.commands.filterMap x.output?).Nodup) : x.WritesOnce g := by
  have apart := List.pairwise_filterMap.1 h
  have symmetric : Std.Symm fun c d => ∀ p, x.output? c = some p → ∀ q, x.output? d = some q → p ≠ q :=
    ⟨fun c d different p hp q hq => (different q hq p hp).symm⟩
  rintro c hc d hd path ⟨r, hr, rfl⟩ ⟨r', hr', same⟩
  by_contra differ
  exact apart.forall hc hd differ _ (x.output?_of_resolves hr) _ (x.output?_of_resolves hr') same.symm

/-- The mention is one of a file that is written. -/
def Mention.IsWritten : Mention → Prop
  | written _ => True
  | input _ | member _ | linked _ | exact _ => False

/-- The names under which commands mention the file do not go together. -/
inductive Extractor.Misnamed (x : Extractor) (g : Graph) (path : String) : Prop where
  /-- It is written as a program, under a name that tells nothing, and is read as well. -/
  | program {name : String} {m : Mention} (written : x.MentionedAs g path (.written name))
      (untold : ArtifactType.ofPath? name = none) (mentioned : x.MentionedAs g path m)
      (read : ¬ m.IsWritten)
  /-- It is an input, its path tells nothing, and it is written, archived or linked as well. -/
  | source {m : Mention} (input : x.MentionedAs g path (.input path))
      (untold : ArtifactType.ofPath? path = none) (mentioned : x.MentionedAs g path m)
      (otherwise : m ≠ .input path)
  /-- Two names tell different kinds. -/
  | names {m m' : Mention} {t t' : ArtifactType} (mentioned : x.MentionedAs g path m)
      (told : m.told? = some t) (mentioned' : x.MentionedAs g path m') (told' : m'.told? = some t')
      (differ : t ≠ t')
  /-- It is linked under an exact name that is none of a library, and another name tells an object. -/
  | library {found : String} {m : Mention} (linked : x.MentionedAs g path (.exact found))
      (untold : (Mention.exact found).told? = none) (mentioned : x.MentionedAs g path m)
      (object : m.told? = some .object)

/-- One of the kinds can be refined to the other. -/
def Mention.Agrees (m m' : Mention) : Prop := m.type ≤ m'.type ∨ m'.type ≤ m.type

theorem Mention.agrees_of_eq {m m' : Mention} (h : m.type = m'.type) : m.Agrees m' := .inl h.le

theorem Mention.Agrees.symm {m m' : Mention} (h : m.Agrees m') : m'.Agrees m := Or.symm h

/-- Of kinds that agree but differ, one is that of an unknown library. -/
theorem Mention.Agrees.eq_or_library {m m' : Mention} (h : m.Agrees m') :
    m.type = m'.type ∨ m.type = .library ∧ m'.type.isLibrary ∨
      m'.type = .library ∧ m.type.isLibrary := by
  rcases h with le | le <;> rcases ArtifactType.le_iff.1 le with same | ⟨vague, other⟩
  · exact .inl same
  · exact .inr (.inl ⟨vague, by rcases other with other | other <;> rw [other] <;> rfl⟩)
  · exact .inl same.symm
  · exact .inr (.inr ⟨vague, by rcases other with other | other <;> rw [other] <;> rfl⟩)

theorem Mention.Agrees.eq_of_no_library {m m' : Mention} (h : m.Agrees m')
    (kind : m.type.isLibrary = false) : m.type = m'.type := by
  rcases h.eq_or_library with same | ⟨vague, -⟩ | ⟨-, library⟩
  · exact same
  · rw [vague] at kind
    cases kind
  · rw [kind] at library
    cases library

theorem Mention.Agrees.eq_of_ne_library {m m' : Mention} (h : m.Agrees m')
    (known : m.type ≠ .library) (known' : m'.type ≠ .library) : m.type = m'.type := by
  rcases h.eq_or_library with same | ⟨vague, -⟩ | ⟨vague, -⟩
  · exact same
  · exact absurd vague known
  · exact absurd vague known'

/-- Kinds that no name tells are given where a name tells nothing. -/
theorem Mention.type_ne_of_told {m : Mention} {t u : ArtifactType} (told : m.told? = some t)
    (unnamed : u ∉ [ArtifactType.object, .static, .shared]) : m.type ≠ u := by
  rw [type_of_told told]
  rintro rfl
  exact unnamed (mem_of_told told)

/-- Only what is written is taken for a program. -/
theorem Mention.type_ne_executable {m : Mention} (read : ¬ m.IsWritten) : m.type ≠ .executable := by
  rcases told : m.told? with _ | t
  · rw [type_of_untold told]
    cases m with
    | written => exact absurd trivial read
    | input | member | linked | exact => exact nofun
  · exact type_ne_of_told told (by decide)

/-- Only an input is taken for a source. -/
theorem Extractor.MentionedAs.type_ne_source {m : Mention} (mentioned : x.MentionedAs g path m)
    (otherwise : m ≠ .input path) : m.type ≠ .source := by
  obtain ⟨row, -, mentions⟩ := mentioned
  rcases told : m.told? with _ | t
  · rw [Mention.type_of_untold told]
    rcases mentions.untold told with ⟨name, rfl⟩ | rfl | ⟨found, rfl⟩
    · exact nofun
    · exact absurd rfl otherwise
    · exact nofun
  · exact Mention.type_ne_of_told told (by decide)

/-- All that write the file use one name for it. -/
theorem Extractor.WritesOnce.name_eq (once : x.WritesOnce g) {name name' : String}
    (h : x.MentionedAs g path (.written name)) (h' : x.MentionedAs g path (.written name')) :
    name = name' := by
  obtain ⟨row, hrow, mentions⟩ := h
  obtain ⟨row', hrow', mentions'⟩ := h'
  obtain rfl := once row hrow row' hrow' path mentions.writes mentions'.writes
  exact mentions.name_eq mentions'

/-! ## Clashes are misnomers -/

/-- Where a name tells nothing, others that do not agree make the file misnamed. -/
theorem misnamed_of_untold (once : x.WritesOnce g) {m m' : Mention}
    (mentioned : x.MentionedAs g path m) (untold : m.told? = none)
    (mentioned' : x.MentionedAs g path m') (clash : ¬ m.Agrees m') : x.Misnamed g path := by
  have differ : m ≠ m' := fun same => clash (Mention.agrees_of_eq (congrArg Mention.type same))
  obtain ⟨row, hrow, mentions⟩ := mentioned
  rcases mentions.untold untold with ⟨name, rfl⟩ | rfl | ⟨found, rfl⟩
  · refine .program ⟨row, hrow, mentions⟩ untold mentioned' fun writes => ?_
    cases m' with
    | written name' => exact differ (congrArg _ (once.name_eq ⟨row, hrow, mentions⟩ mentioned'))
    | input | member | linked | exact => exact writes
  · exact .source ⟨row, hrow, mentions⟩ untold mentioned' (Ne.symm differ)
  · have linked : x.MentionedAs g path (.exact found) := ⟨row, hrow, mentions⟩
    rcases told' : m'.told? with _ | t
    · obtain ⟨row', hrow', mentions'⟩ := mentioned'
      rcases mentions'.untold told' with ⟨name, rfl⟩ | rfl | ⟨found', rfl⟩
      · exact .program ⟨row', hrow', mentions'⟩ told' linked id
      · exact .source ⟨row', hrow', mentions'⟩ told' linked nofun
      · -- both are taken for libraries
        refine absurd (Mention.agrees_of_eq ?_) clash
        rw [Mention.type_of_untold untold, Mention.type_of_untold told']
        rfl
    · -- of what names tell, only objects do not agree with libraries
      have vague : (Mention.exact found).type = .library := Mention.type_of_untold untold
      have library : t ≠ .static ∧ t ≠ .shared := by
        constructor <;> rintro rfl <;> refine clash (.inl ?_) <;>
          rw [vague, Mention.type_of_told told', ArtifactType.le_iff_refinesTo] <;> rfl
      obtain rfl : t = .object := by
        simpa [library.1, library.2] using Mention.mem_of_told told'
      exact .library linked untold mentioned' told'

/-- Of a misnamed file, two mentions do not agree. -/
theorem Extractor.Misnamed.exists_clash (misnamed : x.Misnamed g path) :
    ∃ m m', x.MentionedAs g path m ∧ x.MentionedAs g path m' ∧ ¬ m.Agrees m' := by
  cases misnamed with
  | program written untold mentioned read =>
    refine ⟨_, _, written, mentioned, fun agrees => Mention.type_ne_executable read ?_⟩
    have program := Mention.type_of_untold (m := .written _) untold
    exact (agrees.eq_of_no_library (by rw [program]; rfl)).symm.trans program
  | source input untold mentioned otherwise =>
    refine ⟨_, _, input, mentioned, fun agrees => mentioned.type_ne_source otherwise ?_⟩
    have source := Mention.type_of_untold (m := .input _) untold
    exact (agrees.eq_of_no_library (by rw [source]; rfl)).symm.trans source
  | names mentioned told mentioned' told' differ =>
    refine ⟨_, _, mentioned, mentioned', fun agrees => differ ?_⟩
    have same := agrees.eq_of_ne_library (Mention.type_ne_of_told told (by decide))
      (Mention.type_ne_of_told told' (by decide))
    rwa [Mention.type_of_told told, Mention.type_of_told told'] at same
  | library linked untold mentioned object =>
    refine ⟨_, _, linked, mentioned, fun agrees => ?_⟩
    have kind := Mention.type_of_told object
    have same := agrees.symm.eq_of_no_library (by rw [kind]; rfl)
    rw [kind, Mention.type_of_untold untold] at same
    cases same

/-- Kinds clash at a path exactly if the file is misnamed. -/
theorem misnamed_iff (once : x.WritesOnce g) :
    x.Misnamed g path ↔
      ∃ m m', x.MentionedAs g path m ∧ x.MentionedAs g path m' ∧ ¬ m.Agrees m' := by
  refine ⟨fun misnamed => misnamed.exists_clash, ?_⟩
  rintro ⟨m, m', mentioned, mentioned', clash⟩
  have clash' : ¬ m'.Agrees m := fun agrees => clash agrees.symm
  rcases told : m.told? with _ | t
  · exact misnamed_of_untold once mentioned told mentioned' clash
  rcases told' : m'.told? with _ | t'
  · exact misnamed_of_untold once mentioned' told' mentioned clash'
  refine .names mentioned told mentioned' told' fun same => clash (Mention.agrees_of_eq ?_)
  rw [Mention.type_of_told told, Mention.type_of_told told', same]

/-! ## Extractions -/

/-- Before anything is extracted, a file has the kinds of its mentions. -/
theorem mem_kindsAt_iff (fresh : g.artifacts = []) {t : ArtifactType} :
    t ∈ x.kindsAt g path ↔ ∃ m, x.MentionedAs g path m ∧ m.type = t := by
  simp only [Extractor.kindsAt, Set.mem_ofPred_eq, fresh, List.not_mem_nil, false_and, exists_false,
    false_or, ← exists_mention_iff]
  constructor
  · rintro ⟨row, hrow, m, mentions, type⟩
    exact ⟨m, ⟨row, hrow, mentions⟩, type⟩
  · rintro ⟨m, ⟨row, hrow, mentions⟩, type⟩
    exact ⟨row, hrow, m, mentions, type⟩

/-- Commands with different outputs contradict each other exactly over misnamed files. -/
theorem contradicts_iff_misnamed (hg : g.Intact) (fresh : g.artifacts = []) (once : x.WritesOnce g) :
    g.Contradicts (x.allObservations g) ↔ ∃ path, x.Misnamed g path := by
  refine exists_congr fun path => ?_
  have generators (id : Id) :
      (∃ κ ∈ g.evidence (x.allObservations g) path, id ∈ κ.generator) ↔
        ∃ c ∈ g.commands, x.Writes c path ∧ c.id = id :=
    (generator_evidence hg).trans (by simp [fresh])
  have single : {id | ∃ κ ∈ g.evidence (x.allObservations g) path, id ∈ κ.generator}.Subsingleton := by
    intro i hi j hj
    obtain ⟨c, hc, writes, rfl⟩ := (generators i).1 hi
    obtain ⟨d, hd, writes', rfl⟩ := (generators j).1 hj
    rw [once c hc d hd path writes writes']
  rw [Knowledge.bddAbove_iff, kinds_evidence hg, ArtifactType.bddAbove_iff_comparable, misnamed_iff once]
  constructor
  · intro unbounded
    by_contra agree
    refine unbounded ⟨fun t ht u hu => ?_, single⟩
    obtain ⟨m, mentioned, rfl⟩ := (mem_kindsAt_iff fresh).1 ht
    obtain ⟨m', mentioned', rfl⟩ := (mem_kindsAt_iff fresh).1 hu
    by_contra clash
    exact agree ⟨m, m', mentioned, mentioned', clash⟩
  · rintro ⟨m, m', mentioned, mentioned', clash⟩ ⟨comparable, -⟩
    exact clash (comparable _ ((mem_kindsAt_iff fresh).2 ⟨m, mentioned, rfl⟩)
      _ ((mem_kindsAt_iff fresh).2 ⟨m', mentioned', rfl⟩))

/-- A graph from which nothing has been extracted. -/
structure Graph.Fresh (g : Graph) : Prop where
  artifacts : g.artifacts = []
  unstamped : g.stamps.get .extractDependencies = none

theorem Graph.SameButCommands.fresh {g' : Graph} (same : g.SameButCommands g') (h : g.Fresh) :
    g'.Fresh where
  artifacts := by
    have none := same.artifacts
    rw [h.artifacts] at none
    exact List.map_eq_nil_iff.1 none
  unstamped := same.stamps ▸ h.unstamped

/-- Imports alone extract nothing. -/
theorem Store.Filled.fresh (filled : s.Filled) : s.graph.Fresh := by
  induction filled with
  | empty => exact ⟨rfl, rfl⟩
  | @call s filled c imports x now ih =>
    rcases h : c.recording? with _ | ⟨entries, o⟩
    · rw [run_of_no_recording imports h]
      exact ih
    · obtain ⟨report, g, hr, -, same, -⟩ := exec_writeEntries entries o.replace filled.stocked.intact
      rw [run_of_recording h, importEntries_of_closed filled.stocked.closed, hr]
      rcases dry : o.dryRun
      · show (o.finish now report g).Fresh
        unfold ImportOptions.finish
        split
        · exact ⟨(same.fresh ih).artifacts, by simpa [setPhaseTime] using (same.fresh ih).unstamped⟩
        · exact same.fresh ih
      · exact ih

/-- On a fresh graph the dependencies are stale, whenever its commands were imported. -/
theorem Graph.Fresh.stale_eq_ok (h : g.Fresh) (dated : g.Dated) (force : Bool) :
    stale g force false = .ok ⟨true, false⟩ := by
  have never : g.phaseTime .extractDependencies = .ok none := by rw [Graph.phaseTime, h.unstamped]
  obtain ⟨time?, imported⟩ := dated.phaseTime_eq_ok .importCommands
  cases force
  · rw [stale_unforced, isCurrentPhase, never, imported]
    rfl
  · rw [stale_force]

/-- Where the dependency phase alone is due, an extraction fails exactly if commands contradict each
other or what is known. -/
theorem extract_fails_iff_contradicts (hx : x.ReadsAll) (hg : s.graph.Intact) (closed : s.saved = none)
    (due : stale s.graph x.options.force false = .ok ⟨true, false⟩) (now : Instant) :
    (∃ e, (extract x false now s).report = .error e) ↔
      s.graph.Contradicts (x.allObservations s.graph) := by
  have isOk := (records_dependencyUpdate hx hg).isOk_iff
  have first : ifStale true (dependencyUpdate x) = dependencyUpdate x := rfl
  rw [(extract_of_stale closed due now).1, phasesUpdate, first]
  rw [← Extractor.allObservations] at isOk
  rcases hr : (dependencyUpdate x).exec s.graph with ⟨e | report, g⟩ <;> rw [hr] at isOk
  · rw [exec_bind_of_error hr]
    exact ⟨fun _ => not_not.1 fun fits => Bool.false_ne_true (isOk.2 fits), fun _ => ⟨e, rfl⟩⟩
  · rw [exec_bind_of_ok hr]
    refine ⟨?_, fun contradicts => absurd contradicts (isOk.1 rfl)⟩
    rintro ⟨e, ⟨⟩⟩

/-- On a store that imports have filled with commands of different outputs, whatever the files are, an
extraction of dependencies fails exactly if some file is misnamed. -/
theorem extract_fails_iff_misnamed (hx : x.ReadsAll) (filled : s.Filled) (recorded : s.Recorded)
    (once : x.WritesOnce s.graph) (now : Instant) :
    (∃ e, (extract x false now s).report = .error e) ↔ ∃ path, x.Misnamed s.graph path := by
  have stocked := filled.stocked
  have fresh := filled.fresh
  have due := fresh.stale_eq_ok recorded.dated x.options.force
  rw [← contradicts_iff_misnamed stocked.intact fresh.artifacts once]
  exact extract_fails_iff_contradicts hx stocked.intact stocked.closed due now

/-- The store with the commands of a log. -/
def Extractor.imported (x : Extractor) (log : String) : Store :=
  ((Call.importLog log.toUTF8 "/w" {}).run x ⟨1, 0⟩ .empty).2

/-- The commands of a log write different files, and yet their extraction fails. -/
structure Extractor.Refuses (x : Extractor) (log : String) (e : StoreError) : Prop where
  filled : (x.imported log).Filled
  readsAll : x.ReadsAll
  once : x.WritesOnce (x.imported log).graph
  fails : (extract x false ⟨2, 0⟩ (x.imported log)).report = .error e

/-- Two objects, the name of one of which does not tell that it is one.  The other one has links that are
named as a library and as nothing. -/
def aliasedExtractor : Extractor where
  files :=
    ⟨[(["w"], .directory), (["w", "main.c"], .file .empty), (["w", "main.obj"], .file .empty),
      (["w", "main.o"], .file .empty), (["w", "libz.so"], .link "main.o"), (["w", "plugin"], .link "main.o")], []⟩
  tools := fun _ _ => .error .noEntry
  searchDirectories := []

theorem Extractor.Refuses.of_nodup {log : String} {e : StoreError} (hx : x.ReadsAll)
    (h : ((x.imported log).graph.commands.filterMap x.output?).Nodup ∧
      (extract x false ⟨2, 0⟩ (x.imported log)).report = .error e) : x.Refuses log e :=
  ⟨.call .empty rfl _ _, hx, writesOnce_of_nodup h.1, h.2⟩

/-- What one command takes for a program is a source for another, and what one writes as an object another
one links as a shared library, or as a library of unknown kind. -/
theorem extract_fails_unmarked :
    aliasedExtractor.Refuses "gcc -c -o main.obj main.c\ngcc -o app main.obj\n"
      (.typeConflict "/w/main.obj" .executable .source) ∧
    aliasedExtractor.Refuses "gcc -c -o main.o main.c\ngcc -o app -L . -lz\n"
      (.typeConflict "/w/main.o" .object .shared) ∧
    aliasedExtractor.Refuses "gcc -c -o main.o main.c\ngcc -o app -L . -l:plugin\n"
      (.typeConflict "/w/main.o" .object .library) :=
  have hx : aliasedExtractor.ReadsAll := fun _ => rfl
  ⟨.of_nodup hx (by decide +kernel), .of_nodup hx (by decide +kernel),
    .of_nodup hx (by decide +kernel)⟩

/-- A library that one command writes and that another one links under an exact name, which does not tell
its kind. -/
def pluginImported : Store :=
  pluginExtractor.imported "gcc -shared -o libz.so m.o\ngcc -o app -L . -l:plugin\n"

/-- The extraction succeeds, so no file is misnamed. -/
theorem misnamed_plugin :
    pluginImported.Filled ∧ pluginImported.Recorded ∧
      pluginExtractor.WritesOnce pluginImported.graph ∧
      ∀ path, ¬ pluginExtractor.Misnamed pluginImported.graph path := by
  have filled : pluginImported.Filled := .call .empty rfl _ _
  have recorded : pluginImported.Recorded := .call .empty (fun _ => rfl) _ ⟨by decide, by decide⟩
  have once : pluginExtractor.WritesOnce pluginImported.graph :=
    writesOnce_of_nodup (by decide +kernel)
  have ok : (extract pluginExtractor false ⟨2, 0⟩ pluginImported).report.isOk := by decide +kernel
  refine ⟨filled, recorded, once, fun path misnamed => ?_⟩
  have fails := extract_fails_iff_misnamed (fun _ => rfl) filled recorded once ⟨2, 0⟩
  obtain ⟨e, he⟩ := fails.2 ⟨path, misnamed⟩
  rw [he] at ok
  cases ok

end BuildAudit
