import BuildAudit.Extraction
import BuildAudit.Proofs.FinishOrder
import BuildAudit.Proofs.Recording
import BuildAudit.Proofs.ResolvedPaths

/-!
# The dependency phase

A resolution is a list of observations and links, and storing it takes them in
(`records_storeResolution`); so does storing many, one after the other (`records_storeResolutions`).
What order they come in makes no difference up to the ids of artifacts (`storeResolutions_perm`).  The
phase as a whole does the same for every command that resolves (`records_dependencyUpdate`), so that
neither the number of workers nor the order in which they finish shows in the graph
(`dependencyUpdate_sameUpToIds`), and once it has succeeded, doing it again changes nothing
(`exec_dependencyUpdate_of_applied`).
-/

namespace BuildAudit

open Update BuildAudit.Graph

/-- Every row of artifacts can be read: nobody else has changed the tables. -/
def Extractor.ReadsAll (x : Extractor) : Prop := ∀ row, x.check row = .ok ()

/-- What storing the resolution of a command observes. -/
def Resolution.observations (r : Resolution) (command : Id) : List Observation :=
  ⟨r.output, ⟨r.outputType, some command⟩⟩ ::
    r.dependencies.map fun d => ⟨d.path, ⟨d.type, none⟩⟩

/-- The edges of a resolution by name. -/
def Resolution.links (r : Resolution) : List (String × String) :=
  r.dependencies.map fun d => (r.output, d.path)

/-- Stores resolutions of commands, one after the other. -/
def storeResolutions (x : Extractor) (rs : List (CommandRecord × Resolution)) : Update Unit :=
  rs.forM fun p => storeResolution x p.1.id p.2

variable {x : Extractor} {g g' : Graph}

/-! ## One resolution -/

theorem exec_storeArtifact (hx : x.ReadsAll) (name : String) (type : ArtifactType)
    (generator : Option Id) (g : Graph) :
    (storeArtifact x name type generator).exec g = (upsertArtifact name type generator).exec g := by
  unfold storeArtifact
  rw [exec_bind_of_ok (exec_get g)]
  rcases g.artifactNamed? name with _ | row
  · rfl
  · simp only [Option.forM, hx row]
    rfl

theorem records_storeArtifact (hx : x.ReadsAll) (hg : g.Intact) (name : String) {o : Knowledge}
    (there : ∀ c ∈ o.generator, g.hasCommand c) :
    (storeArtifact x name o.type o.generator).Records [⟨name, o⟩] [] g
      fun id g' => g'.IsRow id name := by
  unfold Records
  rw [exec_storeArtifact hx]
  exact records_upsertArtifact hg there

/-- Storing a resolution takes in its observations and links. -/
theorem records_storeResolution (hx : x.ReadsAll) (hg : g.Intact) {command : Id}
    (there : g.hasCommand command) {r : Resolution} (hr : ∀ d ∈ r.dependencies, d.path ≠ r.output) :
    (storeResolution x command r).Records (r.observations command) r.links g fun _ _ => True := by
  have output := records_storeArtifact hx hg r.output (o := ⟨r.outputType, some command⟩)
    fun c hc => by
      obtain rfl := Option.mem_some_iff.1 hc
      exact there
  unfold storeResolution Resolution.observations Resolution.links
  rw [List.map_eq_flatMap, List.map_eq_flatMap]
  refine output.bind fun id g absorbs hid => ?_
  refine (Records.forM (I := fun g => g.IsRow id r.output) absorbs.intact hid ?_).imp
    fun _ _ _ _ => trivial
  -- one round: the artifact of the dependency, then the edge from the output to it
  intro d hd g hg hid
  have dependency := records_storeArtifact hx hg d.path (o := ⟨d.type, none⟩) nofun
  refine dependency.bind fun id' g' absorbs hid' => ?_
  have hid := absorbs.keepsIds.isRow hid
  refine (records_addDependency absorbs.intact hid hid' (Ne.symm (hr d hd))).imp ?_
  exact fun _ _ absorbs' _ => absorbs'.keepsIds.isRow hid

/-- Storing a resolution that a graph holds already changes nothing. -/
theorem exec_storeResolution_of_holds (hx : x.ReadsAll) (hg : g.Intact) {command : Id}
    {r : Resolution} (h : g.Holds (r.observations command) r.links) :
    (storeResolution x command r).exec g = (.ok (), g) := by
  have row : ∀ o ∈ r.observations command, ∃ row, g.artifactNamed? o.name = some row ∧
      (storeArtifact x o.name o.knowledge.type o.knowledge.generator).exec g = (.ok row.id, g) := by
    intro o ho
    obtain ⟨κ, hκ, le⟩ := h.known o ho
    obtain ⟨row, found, rfl⟩ := Option.map_eq_some_iff.1 hκ
    exact ⟨row, found, by rw [exec_storeArtifact hx, exec_upsertArtifact_of_le hg found le]⟩
  obtain ⟨output, foundOutput, storedOutput⟩ := row _ List.mem_cons_self
  obtain ⟨hout, outName⟩ := (artifactNamed?_eq_some_iff hg.artifactNames).1 foundOutput
  unfold storeResolution
  rw [exec_bind_of_ok storedOutput]
  refine exec_forM_of_unchanged fun d hd => ?_
  obtain ⟨dependency, found, stored⟩ := row ⟨d.path, ⟨d.type, none⟩⟩
    (List.mem_cons_of_mem _ (List.mem_map.2 ⟨d, hd, rfl⟩))
  obtain ⟨hdep, depName⟩ := (artifactNamed?_eq_some_iff hg.artifactNames).1 found
  rw [exec_bind_of_ok stored]
  exact exec_addDependency_of_linked hg ⟨output, hout, rfl, outName⟩ ⟨dependency, hdep, rfl, depName⟩
    (h.linked _ (List.mem_map.2 ⟨d, hd, rfl⟩))

/-! ## Many resolutions -/

theorem records_storeResolutions (hx : x.ReadsAll) (hg : g.Intact)
    {rs : List (CommandRecord × Resolution)} (there : ∀ p ∈ rs, g.hasCommand p.1.id)
    (hr : ∀ p ∈ rs, ∀ d ∈ p.2.dependencies, d.path ≠ p.2.output) :
    (storeResolutions x rs).Records (rs.flatMap fun p => p.2.observations p.1.id)
      (rs.flatMap fun p => p.2.links) g fun _ _ => True := by
  refine (Records.forM (I := fun g => ∀ p ∈ rs, g.hasCommand p.1.id) hg there ?_).imp
    fun _ _ _ _ => trivial
  intro p hp g hg there
  refine (records_storeResolution hx hg (there p hp) (hr p hp)).imp ?_
  intro _ g' absorbs _ q hq
  rw [absorbs.rest.hasCommand]
  exact there q hq

/-- Results of commands can be stored in any order: storing them fails in every order or in none, and
if it succeeds, the graphs are the same up to the ids of artifacts, and nothing but artifacts and
edges has changed. -/
theorem storeResolutions_perm (hx : x.ReadsAll) (hg : g.Intact)
    {rs rs' : List (CommandRecord × Resolution)} (perm : rs.Perm rs')
    (stored : ∀ p ∈ rs, p.1 ∈ g.commands)
    (resolved : ∀ p ∈ rs, ∃ files dirs c, resolve files dirs c = .ok p.2) :
    (((storeResolutions x rs).exec g).1.isOk ↔ ((storeResolutions x rs').exec g).1.isOk) ∧
    (((storeResolutions x rs).exec g).1.isOk →
      ((storeResolutions x rs).exec g).2.SameUpToIds ((storeResolutions x rs').exec g).2 ∧
      g.SameRest ((storeResolutions x rs).exec g).2 ∧
      g.SameRest ((storeResolutions x rs').exec g).2) := by
  have there : ∀ p ∈ rs, g.hasCommand p.1.id := fun p hp => hasCommand_iff.2 ⟨p.1, stored p hp, rfl⟩
  have differ : ∀ p ∈ rs, ∀ d ∈ p.2.dependencies, d.path ≠ p.2.output := fun p hp => by
    obtain ⟨files, dirs, c, hc⟩ := resolved p hp
    exact path_ne_output_of_resolve hc
  have first := records_storeResolutions hx hg there differ
  have there' : ∀ p ∈ rs', g.hasCommand p.1.id := fun p hp => there p (perm.mem_iff.2 hp)
  have second := records_storeResolutions hx hg there' fun p hp => differ p (perm.mem_iff.2 hp)
  have sameObs : ∀ o, o ∈ (rs.flatMap fun p => p.2.observations p.1.id) ↔
      o ∈ (rs'.flatMap fun p => p.2.observations p.1.id) := fun o => (perm.flatMap_right _).mem_iff
  have sameLinks : ∀ l, l ∈ (rs.flatMap fun p => p.2.links) ↔ l ∈ (rs'.flatMap fun p => p.2.links) :=
    fun l => (perm.flatMap_right _).mem_iff
  have both : ((storeResolutions x rs).exec g).1.isOk ↔ ((storeResolutions x rs').exec g).1.isOk := by
    rw [first.isOk_iff, second.isOk_iff]
    exact not_congr ⟨fun h => h.congr sameObs, fun h => h.congr fun o => (sameObs o).symm⟩
  refine ⟨both, fun ok => ?_⟩
  have absorbs := first.absorbs ok
  have absorbs' := second.absorbs (both.1 ok)
  exact ⟨absorbs.sameUpToIds absorbs' sameObs sameLinks, absorbs.rest, absorbs'.rest⟩

/-- A library that a program is linked against under a name that does not tell its kind. -/
def pluginExtractor : Extractor where
  files := ⟨[(["w"], .directory), (["w", "m.o"], .file .empty), (["w", "libz.so"], .file .empty),
    (["w", "plugin"], .link "libz.so")], []⟩
  tools := fun _ _ => .error .noEntry
  searchDirectories := []

def pluginGraph : Graph where
  commands := [⟨1, "/w", "gcc", "-shared -o libz.so m.o"⟩, ⟨2, "/w", "gcc", "-o app -L . -l:plugin"⟩]

/-- The results of the commands: one knows the library as shared, the other as some library. -/
def pluginResults : List (CommandRecord × Resolution) :=
  pluginGraph.commands.zip
    [⟨"/w/libz.so", .shared, [⟨"/w/m.o", .object⟩], [], []⟩,
      ⟨"/w/app", .executable, [⟨"/w/libz.so", .library⟩], [], []⟩]

theorem pluginGraph_intact : pluginGraph.Intact := by
  decide

theorem pluginResults_resolved :
    ∀ p ∈ pluginResults, ∃ files dirs c, resolve files dirs c = .ok p.2 := by
  have library : resolve pluginExtractor.files []
      ⟨"/w", "gcc", ["-shared", "-o", "libz.so", "m.o"]⟩ =
      .ok ⟨"/w/libz.so", .shared, [⟨"/w/m.o", .object⟩], [], []⟩ := by decide +kernel
  have program : resolve pluginExtractor.files []
      ⟨"/w", "gcc", ["-o", "app", "-L", ".", "-l:plugin"]⟩ =
      .ok ⟨"/w/app", .executable, [⟨"/w/libz.so", .library⟩], [], []⟩ := by decide +kernel
  exact List.forall_mem_cons.2 ⟨⟨_, _, _, library⟩, List.forall_mem_singleton.2 ⟨_, _, _, program⟩⟩

/-- Whichever result comes first, the library ends up shared. -/
theorem storeResolutions_plugin :
    ((storeResolutions pluginExtractor pluginResults).exec pluginGraph).1.isOk ∧
    ((storeResolutions pluginExtractor pluginResults).exec pluginGraph).2.SameUpToIds
      ((storeResolutions pluginExtractor pluginResults.reverse).exec pluginGraph).2 := by
  have ok : ((storeResolutions pluginExtractor pluginResults).exec pluginGraph).1.isOk := by
    decide +kernel
  have same := storeResolutions_perm (x := pluginExtractor) (fun _ => rfl) pluginGraph_intact
    pluginResults.reverse_perm.symm (by decide) pluginResults_resolved
  exact ⟨ok, (same.2 ok).1⟩

/-! ## One command -/

/-- What a command observes; one that does not resolve observes nothing. -/
def Extractor.observations (x : Extractor) (c : CommandRecord) : List Observation :=
  match c.resolve x.files x.searchDirectories with
  | .ok r => r.observations c.id
  | .error _ => []

/-- The edges of a command by name. -/
def Extractor.links (x : Extractor) (c : CommandRecord) : List (String × String) :=
  match c.resolve x.files x.searchDirectories with
  | .ok r => r.links
  | .error _ => []

theorem path_ne_output_of_command {files : FileTree} {dirs : List OsString} {c : CommandRecord}
    {r : Resolution} (hr : c.resolve files dirs = .ok r) :
    ∀ d ∈ r.dependencies, d.path ≠ r.output := by
  obtain ⟨command, -, hr⟩ := CommandRecord.resolve_eq_ok hr
  exact path_ne_output_of_resolve hr

theorem records_applyCommand (hx : x.ReadsAll) (hg : g.Intact) {c : CommandRecord}
    (there : g.hasCommand c.id) :
    (applyCommand x c).Records (x.observations c) (x.links c) g fun _ _ => True := by
  unfold applyCommand Extractor.observations Extractor.links
  rcases hr : c.resolve x.files x.searchDirectories with e | r
  · cases e <;> exact .inl ⟨_, g, rfl, .refl hg, trivial⟩
  · have stored := records_storeResolution hx hg there (path_ne_output_of_command hr)
    simp only [bind_pure_comp]
    exact stored.map _ fun _ _ _ => trivial

theorem exec_applyCommand_of_holds (hx : x.ReadsAll) (hg : g.Intact) {c : CommandRecord}
    (h : g.Holds (x.observations c) (x.links c)) :
    ∃ outcome, (applyCommand x c).exec g = (.ok outcome, g) := by
  unfold Extractor.observations Extractor.links at h
  unfold applyCommand
  rcases hr : c.resolve x.files x.searchDirectories with e | r <;> rw [hr] at h
  · cases e <;> exact ⟨_, rfl⟩
  · exact ⟨_, exec_bind_of_ok (exec_storeResolution_of_holds hx hg h)⟩

/-! ## The phase -/

/-- The units in the order in which the workers of an extraction finish. -/
def Extractor.finishOrder {U : Type} (x : Extractor) (units : List U) : List U :=
  schedule (max x.options.jobs 1) x.order units [] 0

theorem Extractor.finishOrder_perm {U : Type} (x : Extractor) (units : List U) :
    (x.finishOrder units).Perm units :=
  schedule_perm (Nat.lt_of_lt_of_le Nat.zero_lt_one (Nat.le_max_right _ 1)) x.order units [] 0

/-- The dependency phase without its events. -/
def dependencyUpdate (x : Extractor) : Update PhaseReport := do
  treatInOrder (applyCommand x) {} (x.finishOrder (← get).commands)

theorem dependencyPhase_mirrors (x : Extractor) : (dependencyPhase x).Mirrors (dependencyUpdate x) :=
  Work.mirrors_get fun _ => treatAll_mirrors _ _ _ _

/-- The graph holds what each of its commands observes. -/
def Extractor.Applied (x : Extractor) (g : Graph) : Prop :=
  ∀ c ∈ g.commands, g.Holds (x.observations c) (x.links c)

theorem records_dependencyUpdate (hx : x.ReadsAll) (hg : g.Intact) :
    (dependencyUpdate x).Records ((x.finishOrder g.commands).flatMap x.observations)
      ((x.finishOrder g.commands).flatMap x.links) g fun _ _ => True := by
  show (treatInOrder _ _ _).Records _ _ _ _
  refine (Records.foldlM (I := fun g' => g.SameRest g') hg (.refl g) ({} : PhaseReport) ?_).imp
    fun _ _ _ _ => trivial
  intro c hc report g' hg' rest
  have there : g'.hasCommand c.id := by
    rw [rest.hasCommand]
    exact hasCommand_iff.2 ⟨c, (x.finishOrder_perm g.commands).mem_iff.1 hc, rfl⟩
  refine ((records_applyCommand hx hg' there).imp ?_).map _ fun _ _ h => h
  exact fun _ _ absorbs _ => rest.trans absorbs.rest

/-- A phase that has succeeded has taken in what its commands observe. -/
theorem absorbs_of_dependencyUpdate (hx : x.ReadsAll) (hg : g.Intact) {report : PhaseReport}
    (h : (dependencyUpdate x).exec g = (.ok report, g')) :
    g.Absorbs ((x.finishOrder g.commands).flatMap x.observations)
      ((x.finishOrder g.commands).flatMap x.links) g' := by
  have absorbs := (records_dependencyUpdate hx hg).absorbs (by rw [h]; rfl)
  rwa [h] at absorbs

/-- A phase that has succeeded leaves nothing to apply. -/
theorem applied_of_dependencyUpdate (hx : x.ReadsAll) (hg : g.Intact) {report : PhaseReport}
    (h : (dependencyUpdate x).exec g = (.ok report, g')) : x.Applied g' := by
  intro c hc
  have absorbs := absorbs_of_dependencyUpdate hx hg h
  rw [absorbs.rest.commands] at hc
  have hc := (x.finishOrder_perm g.commands).mem_iff.2 hc
  exact absorbs.holds.mono (fun _ ho => List.mem_flatMap.2 ⟨c, hc, ho⟩)
    fun _ hl => List.mem_flatMap.2 ⟨c, hc, hl⟩

/-- A phase that has nothing to apply succeeds and changes nothing. -/
theorem exec_dependencyUpdate_of_applied (hx : x.ReadsAll) (hg : g.Intact) (h : x.Applied g) :
    ∃ report, (dependencyUpdate x).exec g = (.ok report, g) := by
  refine exec_foldlM_of_unchanged (fun c hc report => ?_) ({} : PhaseReport)
  have hc := (x.finishOrder_perm g.commands).mem_iff.1 hc
  obtain ⟨outcome, hr⟩ := exec_applyCommand_of_holds hx hg (h c hc)
  exact ⟨report.record outcome, by rw [exec_map, hr]⟩

/-- The number of workers and the order in which they finish make no difference to a dependency phase,
up to the ids of artifacts. -/
theorem dependencyUpdate_sameUpToIds (hx : x.ReadsAll) (hg : g.Intact) (options : ExtractionOptions)
    (order : FinishOrder) :
    (((dependencyUpdate x).exec g).1.isOk ↔
      ((dependencyUpdate { x with options, order }).exec g).1.isOk) ∧
    (((dependencyUpdate x).exec g).1.isOk →
      ((dependencyUpdate x).exec g).2.SameUpToIds
        ((dependencyUpdate { x with options, order }).exec g).2) := by
  have first := records_dependencyUpdate hx hg
  have second := records_dependencyUpdate (x := { x with options, order }) hx hg
  have perm := (x.finishOrder_perm g.commands).trans
    (Extractor.finishOrder_perm { x with options, order } g.commands).symm
  have sameObs := fun o => (perm.flatMap_right x.observations).mem_iff (a := o)
  have sameLinks := fun l => (perm.flatMap_right x.links).mem_iff (a := l)
  have both : ((dependencyUpdate x).exec g).1.isOk ↔
      ((dependencyUpdate { x with options, order }).exec g).1.isOk := by
    rw [first.isOk_iff, second.isOk_iff]
    exact not_congr ⟨fun h => h.congr sameObs, fun h => h.congr fun o => (sameObs o).symm⟩
  exact ⟨both, fun ok => (first.absorbs ok).sameUpToIds (second.absorbs (both.1 ok)) sameObs sameLinks⟩

end BuildAudit
