import BuildAudit.Import.Contents
import BuildAudit.Proofs.SymbolPhase

/-!
# Calls

A `Call` is what the owner of a store asks for: to import a recording, or to extract dependencies or
symbols.  On a store without an open transaction, a call does one update and keeps it as a whole or
not at all (`importEntries_of_closed`, `extract_of_stale`).  So calls are all or nothing
(`run_allOrNothing`): one that fails, or that is a rehearsal, leaves the store as it was, and a
rehearsal answers what the call itself would have answered.
-/

namespace BuildAudit

open Update BuildAudit.Graph

variable {α : Type} {s : Store} {x : Extractor}

/-! ## Transactions -/

/-- The store after a transaction with the given result: what has been written and finished, or the
store as it was. -/
def Store.concluded (s : Store) (rehearsal : Bool) (finish : α → Graph → Graph) :
    Except StoreError α × Graph → Store
  | (.ok a, g) => if rehearsal then s else { graph := finish a g }
  | (.error _, _) => s

theorem Store.eq_of_closed (closed : s.saved = none) : s = { graph := s.graph } := by
  rcases s with ⟨g, _ | saved⟩
  · rfl
  · cases closed

theorem Store.transaction_of_closed {β : Type} (closed : s.saved = none) (rehearsal : Bool)
    (succeeded : β → Bool) (work : StateM Graph β) :
    s.transaction rehearsal succeeded work =
      (.ok (work.run s.graph).1,
        if succeeded (work.run s.graph).1 && !rehearsal then { graph := (work.run s.graph).2 }
        else s) := by
  obtain ⟨g, rfl⟩ : ∃ g, s = { graph := g } := ⟨_, Store.eq_of_closed closed⟩
  unfold Store.transaction Store.begin
  rcases hw : work.run g with ⟨b, g'⟩
  rcases h : succeeded b <;> cases rehearsal <;>
    simp [hw, h, Store.rollback, Store.commit, Except.toOption]

theorem Store.concluded_of_error {rehearsal : Bool} {finish : α → Graph → Graph}
    {r : Except StoreError α × Graph} (failed : r.1.isOk = false) :
    s.concluded rehearsal finish r = s := by
  rcases r with ⟨e | a, g⟩
  · rfl
  · cases failed

theorem Store.concluded_rehearsal (finish : α → Graph → Graph) (r : Except StoreError α × Graph) :
    s.concluded true finish r = s := by
  rcases r with ⟨e | a, g⟩ <;> rfl

theorem Store.saved_concluded (closed : s.saved = none) (rehearsal : Bool)
    (finish : α → Graph → Graph) (r : Except StoreError α × Graph) :
    (s.concluded rehearsal finish r).saved = none := by
  rcases r with ⟨e | a, g⟩
  · exact closed
  · cases rehearsal
    · rfl
    · exact closed

/-! ## Imports -/

/-- What an import leaves, once its entries are written. -/
def ImportOptions.finish (o : ImportOptions) (now : Instant) (report : ImportReport) (g : Graph) :
    Graph :=
  if report.imported > 0 || o.replace then g.setPhaseTime .importCommands now else g

/-- An import writes its entries as a whole or not at all. -/
theorem importEntries_of_closed (closed : s.saved = none) (entries : List RecordedEntry)
    (o : ImportOptions) (now : Instant) :
    importEntries s entries o now =
      (((writeEntries entries o.replace).exec s.graph).1,
        s.concluded o.dryRun (o.finish now) ((writeEntries entries o.replace).exec s.graph)) := by
  have transaction := Store.transaction_of_closed closed o.dryRun Except.isOk
    (ExceptT.run (writeEntries entries o.replace))
  unfold importEntries
  rw [transaction]
  rcases hr : (writeEntries entries o.replace).exec s.graph with ⟨e | report, g⟩ <;>
    rw [show StateT.run (ExceptT.run (writeEntries entries o.replace)) s.graph = _ from hr]
  · rfl
  · rcases dry : o.dryRun <;> by_cases changes : report.imported > 0 || o.replace <;>
      simp [Store.concluded, ImportOptions.finish, ImportReport.changes, Except.isOk,
        Except.toBool, Store.mapGraph, dry, changes]

/-- There is one transaction at a time. -/
theorem Store.begin_of_open (opened : s.saved ≠ none) : s.begin = .error .nestedTransaction := by
  obtain ⟨g, hs⟩ := Option.ne_none_iff_exists'.1 opened
  rw [begin, hs]

theorem importEntries_of_open (opened : s.saved ≠ none) (entries : List RecordedEntry)
    (o : ImportOptions) (now : Instant) :
    importEntries s entries o now = (.error .nestedTransaction, s) := by
  rw [importEntries, Store.transaction, Store.begin_of_open opened]

/-! ## Extractions -/

/-- A phase that is only done if its results are stale. -/
def ifStale (stale : Bool) (phase : Update PhaseReport) : Update PhaseReport :=
  if stale then phase else pure .current

/-- The phases without their events. -/
def phasesUpdate (x : Extractor) (todo : Stale) : Update ExtractionReport := do
  let dependencies ← ifStale todo.dependencies (dependencyUpdate x)
  let symbols ← ifStale todo.symbols (symbolUpdate x)
  return ⟨dependencies, symbols⟩

theorem phases_mirrors (x : Extractor) (todo : Stale) :
    (phases x todo).Mirrors (phasesUpdate x todo) := by
  have first := dependencyPhase_mirrors x
  have second := symbolPhase_mirrors x
  rcases todo with ⟨_ | _, _ | _⟩
  · exact Work.mirrors_pure _
  · exact second.bind fun _ => Work.mirrors_pure _
  · exact first.bind fun _ => Work.mirrors_pure _
  · exact first.bind fun _ => second.bind fun _ => Work.mirrors_pure _

/-- Phases that succeed have succeeded one after the other. -/
theorem phasesUpdate_eq_ok {todo : Stale} {g g' : Graph} {report : ExtractionReport}
    (h : (phasesUpdate x todo).exec g = (.ok report, g')) :
    ∃ g₁, (ifStale todo.dependencies (dependencyUpdate x)).exec g = (.ok report.dependencies, g₁) ∧
      (ifStale todo.symbols (symbolUpdate x)).exec g₁ = (.ok report.symbols, g') := by
  obtain ⟨dependencies, g₁, first, h⟩ := exec_bind_eq_ok h
  obtain ⟨symbols, g₂, second, h⟩ := exec_bind_eq_ok h
  cases h
  exact ⟨g₁, first, second⟩

/-- A phase that reports that it ran was stale. -/
theorem exec_of_ifStale {stale : Bool} {phase : Update PhaseReport} {g g' : Graph}
    {report : PhaseReport} (h : (ifStale stale phase).exec g = (.ok report, g'))
    (ran : report.upToDate = false) : stale ∧ phase.exec g = (.ok report, g') := by
  cases stale
  · cases h
    cases ran
  · exact ⟨rfl, h⟩

/-- The dependency phase, if it is done, leaves everything but artifacts and edges alone. -/
theorem sameRest_ifStale (hx : x.ReadsAll) {g g' : Graph} (hg : g.Intact) {stale : Bool}
    {report : PhaseReport} (h : (ifStale stale (dependencyUpdate x)).exec g = (.ok report, g')) :
    g'.Intact ∧ g.SameRest g' := by
  cases stale
  · cases h
    exact ⟨hg, .refl g⟩
  · have absorbs := absorbs_of_dependencyUpdate hx hg h
    exact ⟨absorbs.intact, absorbs.rest⟩

/-- The symbol phase, if it is done, registers symbols and changes nothing else but references. -/
theorem registers_ifStale (hx : x.ReadsAll) {g g' : Graph} (hg : g.Intact) {stale : Bool}
    {report : PhaseReport} (h : (ifStale stale (symbolUpdate x)).exec g = (.ok report, g')) :
    ∃ listing, g.Registers listing g' := by
  cases stale
  · cases h
    exact ⟨[], .refl hg⟩
  · obtain ⟨report', g'', hr, -, -, replaces⟩ := exec_symbolUpdate_replaces hx hg
    cases hr.symm.trans h
    exact ⟨_, (registers_cleared hg).trans replaces.toRegisters⟩

/-- Whoever watches the phases sees what they do to the graph, and events. -/
theorem run_watchedPhases (x : Extractor) (todo : Stale) (g : Graph) :
    ∃ events, (watchedPhases x todo).run g =
      ((((phasesUpdate x todo).exec g).1, events), ((phasesUpdate x todo).exec g).2) := by
  obtain ⟨report, graph⟩ := phases_mirrors x todo { graph := g }
  refine ⟨(ExceptT.run (phases x todo) { graph := g }).2.events, ?_⟩
  rw [← report, ← graph]
  rfl

theorem extract_of_error {withSymbols : Bool} {e : StoreError}
    (h : stale s.graph x.options.force withSymbols = .error e) (now : Instant) :
    extract x withSymbols now s = ⟨.error e, s, []⟩ := by
  unfold extract
  rw [h]

/-- An extraction does the stale phases as a whole or not at all. -/
theorem extract_of_stale (closed : s.saved = none) {withSymbols : Bool} {todo : Stale}
    (h : stale s.graph x.options.force withSymbols = .ok todo) (now : Instant) :
    (extract x withSymbols now s).report = ((phasesUpdate x todo).exec s.graph).1 ∧
      (extract x withSymbols now s).store =
        s.concluded x.options.dryRun (fun _ => stampPhases todo now)
          ((phasesUpdate x todo).exec s.graph) := by
  unfold extract
  rw [h]
  by_cases nothing : todo = ⟨false, false⟩
  · subst nothing
    refine ⟨rfl, ?_⟩
    show s = if x.options.dryRun then s else { graph := s.graph }
    rw [← Store.eq_of_closed closed, ite_self]
  have transaction := Store.transaction_of_closed closed x.options.dryRun (·.1.isOk)
    (watchedPhases x todo)
  obtain ⟨events, hw⟩ := run_watchedPhases x todo s.graph
  rw [hw] at transaction
  simp only [transaction]
  rcases (phasesUpdate x todo).exec s.graph with ⟨e | report, g⟩
  · exact ⟨rfl, rfl⟩
  · cases x.options.dryRun <;> exact ⟨rfl, rfl⟩

/-- While a transaction is open, an extraction fails, unless it finds nothing to do. -/
theorem extract_of_open (opened : s.saved ≠ none) (x : Extractor) (withSymbols : Bool)
    (now : Instant) :
    (extract x withSymbols now s).store = s ∧
      ∀ report, (extract x withSymbols now s).report = .ok report → report = {} := by
  have nested := Store.begin_of_open opened
  unfold extract
  split
  · exact ⟨rfl, nofun⟩
  · exact ⟨rfl, fun report h => (Except.ok.inj h).symm⟩
  · simp only [Store.transaction, nested]
    exact ⟨trivial, nofun⟩

/-- An extraction that has succeeded and done something, and was no rehearsal, has kept what the stale
phases did. -/
theorem extract_committed {withSymbols : Bool} {now : Instant} {report : ExtractionReport}
    (real : x.options.dryRun = false) (ok : (extract x withSymbols now s).report = .ok report)
    (ran : report ≠ {}) :
    ∃ todo g, stale s.graph x.options.force withSymbols = .ok todo ∧
      (phasesUpdate x todo).exec s.graph = (.ok report, g) ∧
      (extract x withSymbols now s).store.graph = stampPhases todo now g := by
  by_cases closed : s.saved = none
  · rcases h : stale s.graph x.options.force withSymbols with e | todo
    · rw [extract_of_error h] at ok
      cases ok
    · obtain ⟨hreport, hstore⟩ := extract_of_stale closed h now
      rw [hreport] at ok
      rcases hr : (phasesUpdate x todo).exec s.graph with ⟨r, g⟩
      rw [hr] at ok hstore
      obtain rfl : r = .ok report := ok
      refine ⟨todo, g, rfl, hr, ?_⟩
      rw [hstore, Store.concluded, real]
      rfl
  · exact absurd ((extract_of_open closed x withSymbols now).2 report ok) ran

/-! ## Calls -/

/-- What the owner of a store asks for. -/
inductive Call where
  | importLog (contents : ByteArray) (directory : String) (options : ImportOptions)
  | importDatabase (contents : ByteArray) (options : ImportOptions)
  | extractDependencies (options : ExtractionOptions) (order : FinishOrder)
  | extractSymbols (options : ExtractionOptions) (order : FinishOrder)

/-- Why a call fails. -/
inductive CallError where
  | importing (error : ImportError)
  | extracting (error : StoreError)
  deriving DecidableEq, Repr

/-- What a call reports. -/
inductive Answer where
  | imported (report : ImportReport)
  | dependencies (report : PhaseReport)
  | symbols (report : ExtractionReport)
  deriving DecidableEq, Repr

namespace Call

/-- The call as a rehearsal, or not. -/
def withDryRun (dryRun : Bool) : Call → Call
  | importLog contents directory options => importLog contents directory { options with dryRun }
  | importDatabase contents options => importDatabase contents { options with dryRun }
  | extractDependencies options order => extractDependencies { options with dryRun } order
  | extractSymbols options order => extractSymbols { options with dryRun } order

/-- Whether the call is a rehearsal. -/
def dryRun : Call → Bool
  | importLog _ _ options => options.dryRun
  | importDatabase _ options => options.dryRun
  | extractDependencies options _ => options.dryRun
  | extractSymbols options _ => options.dryRun

/-- Does a call that ends at the time `now`; files and tools are those of `x`. -/
def run (x : Extractor) (now : Instant) (s : Store) : Call → Except CallError Answer × Store
  | importLog contents directory options =>
    let (result, s) := BuildAudit.importLog s contents directory options now
    ((result.map .imported).mapError .importing, s)
  | importDatabase contents options =>
    let (result, s) := BuildAudit.importDatabase s contents options now
    ((result.map .imported).mapError .importing, s)
  | extractDependencies options order =>
    let r := extract { x with options, order } false now s
    ((r.report.map fun report => .dependencies report.dependencies).mapError .extracting, r.store)
  | extractSymbols options order =>
    let r := extract { x with options, order } true now s
    ((r.report.map .symbols).mapError .extracting, r.store)

theorem isOk_mapError_map {ε ε' β γ : Type} (r : Except ε β) (f : β → γ) (e : ε → ε') :
    ((r.map f).mapError e).isOk = r.isOk := by
  cases r <;> rfl

theorem ok_of_mapError_map {ε ε' β γ : Type} {r : Except ε β} {f : β → γ} {e : ε → ε'} {c : γ}
    (h : (r.map f).mapError e = .ok c) : ∃ b, r = .ok b ∧ f b = c := by
  rcases r with _ | b
  · cases h
  · exact ⟨b, rfl, Except.ok.inj h⟩

theorem withDryRun_dryRun (c : Call) : c.withDryRun c.dryRun = c := by
  cases c <;> rfl

end Call

/-! ## All or nothing -/

/-- An operation, by whether it is a rehearsal and by the time of its end, that leaves the store as it
was when it fails or is a rehearsal, leaves no transaction open, and gives the same result whether it
is a rehearsal or not, and at all times. -/
structure Store.AllOrNothing {ε : Type} (s : Store) (op : Bool → Instant → Except ε α × Store) :
    Prop where
  error : ∀ dryRun now, (op dryRun now).1.isOk = false → (op dryRun now).2 = s
  rehearsal : ∀ now, (op true now).2 = s
  closed : ∀ dryRun now, (op dryRun now).2.saved = none
  result : ∀ dryRun dryRun' now now', (op dryRun now).1 = (op dryRun' now').1

namespace Store

variable {β ε ε' : Type}

theorem allOrNothing_unchanged (closed : s.saved = none) (result : Except ε α) :
    s.AllOrNothing fun _ _ => (result, s) where
  error := fun _ _ _ => rfl
  rehearsal := fun _ => rfl
  closed := fun _ _ => closed
  result := fun _ _ _ _ => rfl

theorem allOrNothing_concluded (closed : s.saved = none) (finish : Instant → α → Graph → Graph)
    (r : Except StoreError α × Graph) :
    s.AllOrNothing fun dryRun now => (r.1, s.concluded dryRun (finish now) r) where
  error := fun _ _ failed => concluded_of_error failed
  rehearsal := fun now => concluded_rehearsal (finish now) r
  closed := fun dryRun now => saved_concluded closed dryRun (finish now) r
  result := fun _ _ _ _ => rfl

/-- Putting a result into other words changes nothing about the store. -/
theorem AllOrNothing.translate {op : Bool → Instant → Except ε α × Store} (h : s.AllOrNothing op)
    {f : Except ε α → Except ε' β} (hf : ∀ r, (f r).isOk = r.isOk) :
    s.AllOrNothing fun dryRun now => (f (op dryRun now).1, (op dryRun now).2) where
  error := fun dryRun now failed => h.error dryRun now ((hf _).symm.trans failed)
  rehearsal := h.rehearsal
  closed := h.closed
  result := fun dryRun dryRun' now now' => by rw [h.result dryRun dryRun' now now']

end Store

theorem allOrNothing_importEntries (closed : s.saved = none) (entries : List RecordedEntry)
    (o : ImportOptions) :
    s.AllOrNothing fun dryRun now => importEntries s entries { o with dryRun } now := by
  simp only [importEntries_of_closed closed]
  exact Store.allOrNothing_concluded closed o.finish ((writeEntries entries o.replace).exec s.graph)

theorem phasesUpdate_dryRun (x : Extractor) (o : ExtractionOptions) (dryRun : Bool) (todo : Stale) :
    phasesUpdate { x with options := { o with dryRun } } todo =
      phasesUpdate { x with options := o } todo := rfl

theorem allOrNothing_extract (closed : s.saved = none) (x : Extractor) (o : ExtractionOptions)
    (withSymbols : Bool) :
    s.AllOrNothing fun dryRun now =>
      ((extract { x with options := { o with dryRun } } withSymbols now s).report,
        (extract { x with options := { o with dryRun } } withSymbols now s).store) := by
  rcases h : stale s.graph o.force withSymbols with e | todo
  · simp only [fun dryRun => extract_of_error (x := { x with options := { o with dryRun } }) h]
    exact Store.allOrNothing_unchanged closed _
  · have spec (dryRun : Bool) (now : Instant) :=
      extract_of_stale (x := { x with options := { o with dryRun } }) closed h now
    simp only [fun dryRun now => (spec dryRun now).1, fun dryRun now => (spec dryRun now).2,
      phasesUpdate_dryRun]
    exact Store.allOrNothing_concluded closed (fun now _ => stampPhases todo now)
      ((phasesUpdate { x with options := o } todo).exec s.graph)

theorem allOrNothing_run (closed : s.saved = none) (x : Extractor) (c : Call) :
    s.AllOrNothing fun dryRun now => (c.withDryRun dryRun).run x now s := by
  have imported (entries : List RecordedEntry) (o : ImportOptions) :=
    (allOrNothing_importEntries closed entries o).translate
      (f := fun r => ((r.mapError ImportError.store).map Answer.imported).mapError CallError.importing)
      (by rintro (e | report) <;> rfl)
  cases c with
  | importLog contents directory options =>
    simp only [Call.withDryRun, Call.run, importLog]
    rcases FileTree.textOf contents with e | text
    · exact Store.allOrNothing_unchanged closed _
    · exact imported (logEntries text directory) options
  | importDatabase contents options =>
    simp only [Call.withDryRun, Call.run, importDatabase]
    rcases compileDatabase contents with e | entries
    · exact Store.allOrNothing_unchanged closed _
    · exact imported (entries.map CompileEntry.recorded) options
  | extractDependencies options order =>
    exact (allOrNothing_extract closed { x with order } options false).translate
      fun r => Call.isOk_mapError_map r _ _
  | extractSymbols options order =>
    exact (allOrNothing_extract closed { x with order } options true).translate
      fun r => Call.isOk_mapError_map r _ _

/-- On a store without an open transaction, a call that fails or is a rehearsal leaves everything as it
was, no transaction is left open, and the rehearsal of a call answers what the call does. -/
theorem Call.run_allOrNothing (closed : s.saved = none) (x : Extractor) (now : Instant) (c : Call) :
    ((c.run x now s).1.isOk = false ∨ c.dryRun → (c.run x now s).2 = s) ∧
    (c.run x now s).2.saved = none ∧
    ((c.withDryRun true).run x now s).1 = ((c.withDryRun false).run x now s).1 := by
  have h := allOrNothing_run closed x c
  have error := h.error c.dryRun now
  have isClosed := h.closed c.dryRun now
  rw [c.withDryRun_dryRun] at error isClosed
  refine ⟨fun failed => ?_, isClosed, h.result true false now now⟩
  rcases failed with failed | dryRun
  · exact error failed
  · rw [← c.withDryRun_dryRun, dryRun]
    exact h.rehearsal now

/-- Two commands that write the same file. -/
def rivals : Store where
  graph := { commands := [⟨1, "/w", "gcc", "-c -o a.o a.c"⟩, ⟨2, "/w", "gcc", "-c -o a.o b.c"⟩] }

/-- The artifact of the first command is undone when the second one fails. -/
theorem run_rivals :
    ((Call.extractSymbols {} .fifo).run pluginExtractor ⟨0, 0⟩ rivals).1.isOk = false ∧
      ((Call.extractSymbols {} .fifo).run pluginExtractor ⟨0, 0⟩ rivals).2 = rivals := by
  have failed :
      ((Call.extractSymbols {} .fifo).run pluginExtractor ⟨0, 0⟩ rivals).1.isOk = false := by
    decide +kernel
  have all := Call.run_allOrNothing (s := rivals) rfl pluginExtractor ⟨0, 0⟩
    (.extractSymbols {} .fifo)
  exact ⟨failed, all.1 (.inl failed)⟩

end BuildAudit
