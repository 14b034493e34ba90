import BuildAudit.Proofs.DependencyOutcome
import BuildAudit.Proofs.InputTokens
import BuildAudit.Proofs.Walking

/-!
# One name for one file

The path of an output is made of the canonical path of its directory and of its name, and the path of
an input is canonical as a whole.  A path that leads to a file without ending in a link leads there from
its parent, by its file name (`FileTree.LeadsTo.parent`), so for the same file both are the same
(`absoluteOutput_of_realPath`), and a graph knows the file under one name (`written_and_read_alike`).
-/

namespace BuildAudit

/-! ## Paths of locations -/

theorem endsIn_slash {name : String} (nonempty : name ≠ "") (slashless : '/' ∉ name.toList) (lead : String) :
    Text.endsIn "/" (lead ++ name) = false := by
  rw [Bool.eq_false_iff]
  intro ends
  have some : name.toList ≠ [] := by simpa using nonempty
  have last : '/' ∈ (lead ++ name).toList.getLast? := by
    obtain ⟨before, h⟩ := List.isSuffixOf_iff_suffix.1 ends
    rw [← h]
    exact List.getLast?_concat
  rw [String.toList_append, List.getLast?_append_of_ne_nil _ some] at last
  exact slashless (List.mem_of_getLast? last)

/-- Joining a name to the path of a directory gives the path of what has this name there. -/
theorem Location.join_path {l : Location} (named : ∀ name ∈ l, name ≠ "" ∧ OsString.slash ∉ name.bytes)
    {name : String} (slashless : '/' ∉ name.toList) :
    Path.join l.path name = Location.path (l ++ [.text name]) := by
  have relative : Path.isAbsolute name = false := by
    rw [Path.isAbsolute, beq_eq_false_iff_ne]
    intro h
    exact slashless (List.mem_of_mem_head? h)
  rcases List.eq_nil_or_concat l with rfl | ⟨above, last, rfl⟩
  · simp [Path.join, relative, Location.path, Text.endsIn, OsString.lossy]
  · rw [List.concat_eq_append] at named ⊢
    obtain ⟨nonempty, slashless⟩ := named last (by simp)
    obtain ⟨lead, ends⟩ : ∃ lead, Location.path (above ++ [last]) = lead ++ last.lossy := by
      by_cases root : above = []
      · exact ⟨"/", by rw [root]; rfl⟩
      · exact ⟨_, path_concat root last⟩
    have inner : Text.endsIn "/" (Location.path (above ++ [last])) = false := by
      rw [ends]
      exact endsIn_slash (OsString.lossy_ne_empty nonempty) (OsString.slash_not_mem_lossy slashless) lead
    have some : Location.path (above ++ [last]) ≠ "" := by simp [Location.path]
    rw [Path.join, if_neg (by simp [relative]), if_neg (by simpa using some), if_neg (by simp [inner]),
      path_concat (List.append_ne_nil_of_right_ne_nil above (List.cons_ne_nil last []))]
    rfl

/-! ## Parents -/

namespace FileTree

variable {t : FileTree} {p : String} {l : Location}

theorem isDirectoryAt_of_isFileAt (file : t.isFileAt l) : t.isDirectoryAt l = false := by
  unfold isFileAt at file
  unfold isDirectoryAt
  split at file
  · rename_i found
    rw [found]
  · cases file

/-- Whether the last segment of a path is the name of a link. -/
def endsInLink (t : FileTree) (p : String) : Bool :=
  match t.walk anywhere absent maxLinks (t.start p) ((Path.segments p).dropLast.map .text),
      (Path.segments p).getLast? with
  | .ok here, some name =>
    match t.entryAt? (here ++ [.text name]) with
    | some (.link _) => true
    | _ => false
  | _, _ => false

theorem endsInLink_of_leads {front : List String} {name : String} {target : OsString} {here : Location}
    (split : Path.segments p = front ++ [name])
    (leads : t.Leads anywhere maxLinks (t.start p) (front.map .text) here)
    (found : t.entryAt? (here ++ [.text name]) = some (.link target)) : t.endsInLink p := by
  unfold endsInLink
  rw [split, List.dropLast_concat, List.getLast?_concat, leads.walk]
  simp [found]

/-- A file that is reached otherwise than through a link at the end is in the parent of the path, and has
the name of the path there. -/
theorem LeadsTo.parent {fits : Location → Bool} (h : t.LeadsTo fits p l)
    (standing : t.Reached t.workingDirectory) (file : t.isFileAt l) (direct : t.endsInLink p = false)
    (slash : '/' ∈ p.toList) :
    ∃ parent name here, Path.parent? p = some parent ∧ Path.fileName? p = some name ∧
      t.LeadsTo fits parent here ∧ t.Reached here ∧ '/' ∉ name.toList ∧ l = here ++ [.text name] := by
  have notDirectory := isDirectoryAt_of_isFileAt file
  obtain ⟨front, name, split⟩ : ∃ front name, Path.segments p = front ++ [name] :=
    ⟨_, _, (List.dropLast_append_getLast (Path.segments_ne_nil p)).symm⟩
  have slashless (s : String) (hs : s ∈ front ++ [name]) : '/' ∉ s.toList :=
    Path.slash_not_mem (split ▸ hs)
  have segments : OsString.segments p = front.map .text ++ [.text name] := by
    rw [OsString.segments, split, List.map_append, List.map_singleton]
  obtain ⟨links, here, leads, last⟩ := (segments ▸ h.leads).append
  have reached : t.Reached here := by
    refine leads.reached (reached_start standing p) fun s hs => ?_
    obtain ⟨s', hs', rfl⟩ := List.mem_map.1 hs
    exact fun slash => slashless s' (List.mem_append_left _ hs') (OsString.slash_mem_encode_iff.1 slash)
  cases last with
  | idle inside _ rest =>
    cases rest
    rw [inside] at notDirectory
    cases notDirectory
  | up inside rest =>
    cases rest
    rw [reached.isDirectoryAt_dropLast inside] at notDirectory
    cases notDirectory
  | link _ _ found _ =>
    rw [endsInLink_of_leads split leads.anywhere found] at direct
    cases direct
  | down inside lookup found _ rest =>
    cases rest
    have inner : front ≠ [] := by
      rintro rfl
      exact Path.segments_ne_singleton slash name split
    have down : name ≠ ".." := fun same => lookup.down (congrArg OsString.text same)
    obtain ⟨parent, isParent⟩ := Path.exists_isParent split lookup.used inner
    obtain ⟨kept, idles, idles', hfront, hparent, idle⟩ := isParent.segments_eq
    have idle (s : OsString) (hs : s ∈ (idles ++ idles').map OsString.text) : s.isIdle := by
      obtain ⟨s', hs', rfl⟩ := List.mem_map.1 hs
      exact idle s' hs'
    refine ⟨parent, name, here, isParent.parent_eq, Path.fileName?_of_segments split lookup.used down,
      ⟨?_, ?_, ?_⟩, reached, slashless name (by simp), rfl⟩
    · rw [OsString.hasNul, Bool.eq_false_iff]
      intro nul
      rcases isParent.mem _ (by simpa using nul) with slash | nul
      · exact absurd slash (by decide)
      · exact absurd h.noNul (by simpa [OsString.hasNul] using nul)
    · exact fun empty => isParent.nonempty (OsString.text.inj empty)
    · have same : t.start parent = t.start p := by
        rw [start, start, OsString.isAbsolute, OsString.isAbsolute, isParent.absolute]
      rw [same, OsString.segments, hparent, List.map_append]
      rw [hfront, List.map_append] at leads
      rw [List.map_append] at idle
      obtain ⟨links', mid, leads, rest⟩ := leads.append
      obtain rfl := rest.eq_of_idle fun s hs => idle s (List.mem_append_left _ hs)
      exact leads.append_idle inside fun s hs => idle s (List.mem_append_right _ hs)

end FileTree

/-! ## Outputs and inputs -/

variable {files : FileTree} {directory output : String} {l : Location}

theorem absoluteOutput_of_realPath (standing : files.Reached files.workingDirectory)
    (somewhere : directory ≠ "") (written : files.realPath (Path.join directory output) = .ok l)
    (file : files.isFileAt l) (direct : files.endsInLink (Path.join directory output) = false) :
    absoluteOutput files directory output = l.path := by
  obtain ⟨parent, name, here, hparent, hname, inside, reached, slashless, rfl⟩ :=
    (FileTree.realPath_eq_ok_iff.1 written).parent standing file direct
      (Path.slash_mem_join somewhere output)
  have canonical : files.canonicalize parent = .ok here.path :=
    FileTree.canonicalize_of_realPath (FileTree.realPath_eq_ok_iff.2 inside)
  unfold absoluteOutput
  simp only [hparent, hname, canonical]
  exact Location.join_path reached.named slashless

/-! ## One row -/

/-- A stored command that writes a file resolves, and its output is the absolute path of the file. -/
theorem Extractor.resolves_of_output {x : Extractor} {row : CommandRecord} {c : Command}
    (hc : row.command = .ok c) (written : c.output? = some output) :
    ∃ r, x.Resolves row r ∧ r.output = absoluteOutput x.files c.directory output := by
  obtain ⟨family, known⟩ : ∃ family, c.family? = some family := by
    delta Command.output? at written
    split at written
    · exact ⟨_, ‹_›⟩
    · exact ⟨_, ‹_›⟩
    · cases written
  unfold Extractor.Resolves CommandRecord.resolve resolve
  rw [hc]
  dsimp only
  rw [known, written]
  exact ⟨_, rfl, rfl⟩

section Extracted

variable {x : Extractor} {g g' : Graph} {writer reader : CommandRecord} {r r' : Resolution}

/-- Two commands do not write the same file. -/
theorem Extractor.Extracted.output_ne (h : x.Extracted g g') (hg : g.Intact) (hwriter : writer ∈ g.commands)
    (hreader : reader ∈ g.commands) (differ : writer ≠ reader) (writes : x.Resolves writer r)
    (reads : x.Resolves reader r') : r.output ≠ r'.output := by
  intro same
  obtain ⟨a, found, generated⟩ := h.generators writer hwriter r writes
  obtain ⟨b, found', generated'⟩ := h.generators reader hreader r' reads
  rw [same, found'] at found
  obtain rfl := Option.some.inj found
  have ids : writer.id = reader.id := Option.some.inj (generated.symm.trans generated')
  exact differ (List.inj_on_of_nodup_map (nodup_of_pairwise_lt hg.commandIds) hwriter hreader ids)

/-- The file that one command writes and another depends on is one artifact. -/
theorem Extractor.Extracted.one_row (h : x.Extracted g g') (intact : g'.Intact)
    (hwriter : writer ∈ g.commands) (hreader : reader ∈ g.commands) (writes : x.Resolves writer r)
    (reads : x.Resolves reader r') {d : Dependency} (hd : d ∈ r'.dependencies) (same : d.path = r.output) :
    ∃ a b, g'.artifactNamed? r.output = some a ∧ a.generator = some writer.id ∧
      (∀ a' ∈ g'.artifacts, a'.name = r.output → a' = a) ∧
      g'.artifactNamed? r'.output = some b ∧ ⟨b.id, a.id⟩ ∈ g'.edges := by
  have named {name : String} {row : Artifact} :
      g'.artifactNamed? name = some row ↔ row ∈ g'.artifacts ∧ row.name = name :=
    Graph.artifactNamed?_eq_some_iff intact.artifactNames
  obtain ⟨a, found, generated⟩ := h.generators writer hwriter r writes
  have only : ∀ a' ∈ g'.artifacts, a'.name = r.output → a' = a := by
    intro a' ha' name
    exact Option.some.inj ((named.2 ⟨ha', name⟩).symm.trans found)
  have linked : (r'.output, r.output) ∈ g'.namedEdges :=
    (h.edges _ _).2 (.inr ⟨reader, hreader, r', reads, rfl, d, hd, same⟩)
  obtain ⟨b, hb, a', ha', edge, hbname, name⟩ := (Graph.mem_namedEdges intact).1 linked
  obtain rfl := only a' ha' name
  exact ⟨a', b, found, generated, only, named.2 ⟨hb, hbname⟩, edge⟩

end Extracted

/-- Let two paths, seen from the directories of commands, lead to the same file, the first one not by a
link at its end.  Then an output with the first path has the name under which an input with the second
path is recorded, and after a dependency phase that has succeeded, the file that one command writes
and another reads is one artifact, on which the output of the other depends. -/
theorem written_and_read_alike (standing : files.Reached files.workingDirectory)
    (somewhere : directory ≠ "") (written : files.realPath (Path.join directory output) = .ok l)
    (file : files.isFileAt l) (direct : files.endsInLink (Path.join directory output) = false)
    {directory' input : String} (read : files.canonicalize (Path.join directory' input) = .ok l.path) :
    absoluteOutput files directory output = l.path ∧
    (∀ searchDirectories ownOutput s type?,
      let ctx : ScanContext := ⟨files, directory', ownOutput, searchDirectories⟩
      Scan.addInput ctx s input type? = s.addDependency ctx ⟨l.path, type?.getD (.ofInput l.path)⟩) ∧
    ∀ (x : Extractor) (g : Graph) report o, x.files = files → x.ReadsAll → g.Intact →
      ExceptT.run (dependencyPhase x) { graph := g } = (.ok report, o) →
      ∀ writer ∈ g.commands, ∀ reader ∈ g.commands, writer ≠ reader → ∀ c c' r',
        writer.command = .ok c → c.directory = directory → c.output? = some output →
        reader.command = .ok c' → c'.directory = directory' → input ∈ c'.inputs → x.Resolves reader r' →
        ∃ a b, o.graph.artifactNamed? l.path = some a ∧ a.generator = some writer.id ∧
          (∀ a' ∈ o.graph.artifacts, a'.name = l.path → a' = a) ∧
          o.graph.artifactNamed? r'.output = some b ∧ ⟨b.id, a.id⟩ ∈ o.graph.edges := by
  have named := absoluteOutput_of_realPath standing somewhere written file direct
  refine ⟨named, fun searchDirectories ownOutput s type? => ?_, ?_⟩
  · simp only [Scan.addInput, read]
  · rintro x g report o rfl hx hg run writer hwriter reader hreader differ c c' r' hc rfl houtput hc' rfl
      hinput reads
    obtain ⟨r, writes, output_eq⟩ := Extractor.resolves_of_output (x := x) hc houtput
    rw [named] at output_eq
    have update : (dependencyUpdate x).exec g = (.ok report, o.graph) := by
      obtain ⟨result, graph⟩ := dependencyPhase_mirrors x { graph := g }
      rw [run] at result graph
      exact Prod.ext result.symm graph.symm
    have extracted := extracted_of_dependencyUpdate hx hg update
    have intact := (absorbs_of_dependencyUpdate hx hg update).intact
    have other := extracted.output_ne hg hwriter hreader differ writes reads
    obtain ⟨c'', hc'', resolved⟩ := CommandRecord.resolve_eq_ok reads
    obtain rfl := Except.ok.inj (hc'.symm.trans hc'')
    rw [← output_eq] at read ⊢
    obtain ⟨d, hd, same⟩ := mem_dependencies_of_input resolved hinput read other
    exact extracted.one_row intact hwriter hreader writes reads hd same

/-- An object in a directory that a link leads to as well. -/
def windingExtractor : Extractor where
  files := ⟨[(["w"], .directory), (["w", "src"], .directory), (["w", "build"], .directory),
    (["w", "build", "a.o"], .file .empty), (["w", "src", "out"], .link "..//build/.")], ["w"]⟩
  tools := fun _ _ => .error .noEntry
  searchDirectories := []

/-- One command writes it through the link, and another reads it past the link. -/
def windingGraph : Graph where
  commands := [⟨1, "./src", "gcc", "-c -o out//./a.o a.c"⟩,
    ⟨2, "/w//", "gcc", "-o app src/out/../build/a.o"⟩]

theorem written_and_read_alike_winding :
    let files := windingExtractor.files
    files.realPath "./src/out//./a.o" = .ok ["w", "build", "a.o"] ∧
    files.endsInLink "./src/out//./a.o" = false ∧
    files.canonicalize "/w//src/out/../build/a.o" = .ok "/w/build/a.o" ∧
    absoluteOutput files "./src" "out//./a.o" = "/w/build/a.o" ∧
    ∃ report o, ExceptT.run (dependencyPhase windingExtractor) { graph := windingGraph } = (.ok report, o) ∧
      ∃ a b, o.graph.artifactNamed? "/w/build/a.o" = some a ∧ a.generator = some 1 ∧
        o.graph.artifactNamed? "/w/app" = some b ∧ ⟨b.id, a.id⟩ ∈ o.graph.edges := by
  have standing : windingExtractor.files.Reached windingExtractor.files.workingDirectory :=
    (FileTree.reached_root _).concat rfl (by decide) (by decide)
  have written : windingExtractor.files.realPath (Path.join "./src" "out//./a.o") =
      .ok ["w", "build", "a.o"] := by decide +kernel
  have direct : windingExtractor.files.endsInLink (Path.join "./src" "out//./a.o") = false := by
    decide +kernel
  have read : windingExtractor.files.canonicalize (Path.join "/w//" "src/out/../build/a.o") =
      .ok "/w/build/a.o" := by decide +kernel
  obtain ⟨named, -, one⟩ := written_and_read_alike standing (by decide) written rfl direct read
  have run : (ExceptT.run (dependencyPhase windingExtractor) { graph := windingGraph }).1 =
      .ok { processed := 2 } := by decide +kernel
  have reader : CommandRecord.command ⟨2, "/w//", "gcc", "-o app src/out/../build/a.o"⟩ =
      .ok ⟨"/w//", "gcc", ["-o", "app", "src/out/../build/a.o"]⟩ := by decide +kernel
  obtain ⟨r', reads, out⟩ : ∃ r', windingExtractor.Resolves _ r' ∧ r'.output = absoluteOutput _ _ "app" :=
    Extractor.resolves_of_output reader (by decide +kernel)
  have app : r'.output = "/w/app" := out.trans (by decide +kernel)
  obtain ⟨a, b, found, generated, -, found', edge⟩ := one windingExtractor windingGraph _ _ rfl
    (fun _ => rfl) (by decide) (Prod.ext run rfl) ⟨1, "./src", "gcc", "-c -o out//./a.o a.c"⟩ (by decide) _
    (by decide) (by decide) ⟨"./src", "gcc", ["-c", "-o", "out//./a.o", "a.c"]⟩ _ r' (by decide +kernel) rfl
    (by decide +kernel) reader rfl (by decide +kernel) reads
  exact ⟨written, direct, read, named, _, _, Prod.ext run rfl, a, b, found, generated, app ▸ found', edge⟩

end BuildAudit
