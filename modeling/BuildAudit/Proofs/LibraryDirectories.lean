import BuildAudit.Proofs.ResolutionOutcome

/-!
# Where options for library directories stand

A driver looks for a library in the directories that the options before it have added, and then in those
of the toolchain.  `Command.directoriesFirst` moves all options for directories to the front, so that each
library is looked for in all of them.  The command then has the same dependencies as long as no library
is in a directory that comes behind it (`dependencies_directoriesFirst`), and it may have others if one is
(`library_before_directory`).
-/

namespace BuildAudit

/-! ## Moving options -/

/-- The item is an option `-L`, with its directory behind it or attached to it. -/
def Item.addsDirectory : Item → Bool
  | .pair flag _ => flag == "-L"
  | .switch arg => (Text.after? "-L" arg).isSome
  | .lone _ | .input _ => false

/-- The items with all options for library directories in front. -/
def directoriesFirst (items : List Item) : List Item :=
  items.filter Item.addsDirectory ++ items.filter (!·.addsDirectory)

/-- The command with all options for library directories moved to the front of its arguments. -/
def Command.directoriesFirst (c : Command) : Command :=
  { c with arguments := (BuildAudit.directoriesFirst (itemsOf c.arguments)).flatMap Item.tokens }

theorem directoriesFirst_perm (items : List Item) : (directoriesFirst items).Perm items :=
  List.filter_append_perm Item.addsDirectory items

/-- Some of the items, and what comes behind them, are read as just these.  A flag that lacks its value
would take what comes behind it. -/
theorem itemsOf_filter_append (keep : Item → Bool) (args : List String) {rest : List String}
    (whole : rest = [] ∨ ∀ flag, keep (.lone flag) = false) :
    itemsOf (((itemsOf args).filter keep).flatMap Item.tokens ++ rest) =
      (itemsOf args).filter keep ++ itemsOf rest := by
  fun_induction itemsOf args with
  | case1 => rfl
  | case2 arg takes =>
    rcases whole with rfl | whole
    · cases kept : keep (.lone arg)
      · simp [kept]
      · simp [kept, Item.tokens, itemsOf_last takes, itemsOf]
    · simp [whole]
  | case3 arg takes value args ih =>
    cases kept : keep (.pair arg value)
    · simpa [kept] using ih
    · simpa [kept, Item.tokens, itemsOf_of_takesValue takes] using ih
  | case4 arg args alone flag ih =>
    cases kept : keep (.switch arg)
    · simpa [kept] using ih
    · simpa [kept, Item.tokens, itemsOf_of_isFlag alone flag] using ih
  | case5 arg args alone input ih =>
    cases kept : keep (.input arg)
    · simpa [kept] using ih
    · simpa [kept, Item.tokens, itemsOf_of_input alone input] using ih

theorem itemsOf_directoriesFirst (c : Command) :
    itemsOf c.directoriesFirst.arguments = directoriesFirst (itemsOf c.arguments) := by
  have others : itemsOf (((itemsOf c.arguments).filter (!·.addsDirectory)).flatMap Item.tokens) =
      (itemsOf c.arguments).filter (!·.addsDirectory) := by
    simpa [itemsOf] using itemsOf_filter_append (!·.addsDirectory) c.arguments (.inl rfl)
  rw [Command.directoriesFirst, directoriesFirst, List.flatMap_append,
    itemsOf_filter_append _ _ (.inr fun _ => rfl), others]

/-! ## The output -/

section Attached

variable (dir : String)

theorem after?_output_attached : Text.after? "-o" ("-L" ++ dir) = none := by
  simp [Text.after?, List.isPrefixOf?]

theorem attachedInclude?_attached : Scan.attachedInclude? ("-L" ++ dir) = none := by
  simp [Scan.attachedInclude?, Text.after?, List.isPrefixOf?]

theorem attached_ne {flag : String} (other : flag.toList[1]? ≠ some 'L') : "-L" ++ dir ≠ flag := by
  rintro rfl
  simp at other

end Attached

namespace DriverMode

variable {m : DriverMode} {items : List Item}

/-- An option for a library directory says nothing about the output. -/
theorem take_of_addsDirectory {item : Item} (adds : item.addsDirectory) : m.take item = m := by
  cases item with
  | lone | input => cases adds
  | pair flag value =>
    obtain rfl : flag = "-L" := eq_of_beq adds
    rfl
  | switch arg =>
    obtain ⟨dir, attached⟩ := Option.isSome_iff_exists.1 adds
    obtain rfl := Text.after?_eq_some attached
    have artifact : "-L" ++ dir ∉ noArtifactFlags := fun member => by
      have flags : ∀ flag ∈ noArtifactFlags, flag.toList[1]? ≠ some 'L' := by decide
      exact attached_ne dir (flags _ member) rfl
    have compile : "-L" ++ dir ≠ "-c" := attached_ne dir (by decide)
    simp only [take, after?_output_attached, artifact, compile, if_false]

theorem foldl_take_directories (adds : ∀ item ∈ items, item.addsDirectory) : items.foldl take m = m := by
  induction items with
  | nil => rfl
  | cons item items ih =>
    obtain ⟨first, adds⟩ := List.forall_mem_cons.1 adds
    rw [List.foldl_cons, take_of_addsDirectory first, ih adds]

theorem foldl_take_others : (items.filter (!·.addsDirectory)).foldl take m = items.foldl take m := by
  induction items generalizing m with
  | nil => rfl
  | cons item items ih =>
    cases adds : item.addsDirectory
    · simp [adds, ih]
    · simp [adds, ih, take_of_addsDirectory adds]

end DriverMode

theorem Command.output?_directoriesFirst {c : Command} (driver : c.family? = some .compileLink) :
    c.directoriesFirst.output? = c.output? := by
  have same : c.directoriesFirst.family? = some .compileLink := driver
  have adds : ∀ item ∈ (itemsOf c.arguments).filter Item.addsDirectory, item.addsDirectory :=
    fun item hitem => (List.mem_filter.1 hitem).2
  delta output?
  rw [same, driver]
  simp only [driverOutput?, DriverMode.read_eq_foldl, itemsOf_directoriesFirst, BuildAudit.directoriesFirst,
    List.foldl_append, DriverMode.foldl_take_directories adds, DriverMode.foldl_take_others]

/-! ## Files of items -/

/-- The file that an item leads to, if libraries are looked for in `directories`. -/
def Item.file? (ctx : ScanContext) (directories : List OsString) (item : Item) : Option Dependency :=
  (item.finding? ctx directories).bind fun found => (found.answer ctx).toOption

/-- The directories that items add. -/
def addedBy (ctx : ScanContext) (items : List Item) : List OsString := items.filterMap (Item.directory? ctx)

/-- The files that items lead to, one after the other.  Libraries are looked for in the directories that
the items before have added, and then in those of the toolchain. -/
def filesOf (ctx : ScanContext) (added : List OsString) : List Item → List Dependency
  | [] => []
  | item :: items =>
    (item.file? ctx (added ++ ctx.searchDirectories)).toList ++
      filesOf ctx (added ++ (item.directory? ctx).toList) items

/-- The files in order, each path once and the output left out. -/
def firstMentions (output : String) (files : List Dependency) : List Dependency :=
  (files.filter (·.path ≠ output)).eraseDupsBy fun d e => d.path == e.path

section Files

variable {ctx : ScanContext} {item : Item} {added directories : List OsString} {items : List Item}

theorem filesOf_eq (added : List OsString) (items : List Item) :
    filesOf ctx added items =
      (findingsOf ctx added items).filterMap fun found => (found.answer ctx).toOption := by
  induction items generalizing added with
  | nil => rfl
  | cons item items ih =>
    rw [filesOf, findingsOf, List.filterMap_append, ih, Item.file?]
    cases item.finding? ctx (added ++ ctx.searchDirectories) with
    | none => rfl
    | some found =>
      cases answer : (found.answer ctx).toOption <;> simp [answer]

theorem filesOf_append (added : List OsString) (items items' : List Item) :
    filesOf ctx added (items ++ items') =
      filesOf ctx added items ++ filesOf ctx (added ++ addedBy ctx items) items' := by
  induction items generalizing added with
  | nil => simp [filesOf, addedBy]
  | cons item items ih =>
    have more : addedBy ctx (item :: items) = (item.directory? ctx).toList ++ addedBy ctx items := by
      cases directory : item.directory? ctx <;> simp [addedBy, directory]
    rw [List.cons_append, filesOf, filesOf, ih, more]
    simp only [List.append_assoc]

/-! ### Options for directories, and other items -/

theorem demand?_of_addsDirectory (adds : item.addsDirectory) :
    ∃ dir, item.demand? = some (.libraryDirectory dir) := by
  cases item with
  | lone | input => cases adds
  | pair flag value =>
    obtain rfl : flag = "-L" := eq_of_beq adds
    exact ⟨value, rfl⟩
  | switch arg =>
    obtain ⟨dir, attached⟩ := Option.isSome_iff_exists.1 adds
    obtain rfl := Text.after?_eq_some attached
    exact ⟨dir, by rw [Item.demand?, attachedInclude?_attached, attached]; rfl⟩

theorem file?_of_addsDirectory (adds : item.addsDirectory) : item.file? ctx directories = none := by
  obtain ⟨dir, demand⟩ := demand?_of_addsDirectory adds
  rw [Item.file?, Item.finding?, demand]
  rcases found : ctx.files.realPath (Path.join ctx.directory dir) with cause | l <;>
    simp only [found] <;> rfl

theorem demand?_ne_of_not_addsDirectory (other : item.addsDirectory = false) (dir : String) :
    item.demand? ≠ some (.libraryDirectory dir) := by
  intro demand
  cases item with
  | input => cases demand
  | lone flag =>
    simp only [Item.demand?] at demand
    split_ifs at demand <;> cases demand
  | pair flag value =>
    have flagged : flag ≠ "-L" := ne_of_beq_false other
    simp only [Item.demand?, flagged, if_false] at demand
    split_ifs at demand <;> cases demand
  | switch arg =>
    have apart : Text.after? "-L" arg = none := by simpa [Item.addsDirectory] using other
    simp [Item.demand?, apart] at demand

theorem directory?_of_not_addsDirectory (other : item.addsDirectory = false) :
    item.directory? ctx = none := by
  unfold Item.directory?
  split
  · exact absurd ‹_› (demand?_ne_of_not_addsDirectory other _)
  · rfl

theorem filesOf_directories (adds : ∀ item ∈ items, item.addsDirectory) : filesOf ctx added items = [] := by
  induction items generalizing added with
  | nil => rfl
  | cons item items ih =>
    obtain ⟨first, adds⟩ := List.forall_mem_cons.1 adds
    rw [filesOf, file?_of_addsDirectory first, ih adds]
    rfl

theorem filesOf_others (added : List OsString) (items : List Item) :
    filesOf ctx added (items.filter (!·.addsDirectory)) =
      items.filterMap (Item.file? ctx (added ++ ctx.searchDirectories)) := by
  induction items with
  | nil => rfl
  | cons item items ih =>
    cases adds : item.addsDirectory
    · cases file : item.file? ctx (added ++ ctx.searchDirectories) <;>
        simp [adds, filesOf, directory?_of_not_addsDirectory adds, ih, file]
    · simp [adds, file?_of_addsDirectory adds, ih]

theorem addedBy_directories (items : List Item) :
    addedBy ctx (items.filter Item.addsDirectory) = addedBy ctx items := by
  rw [addedBy, List.filterMap_filter]
  refine List.filterMap_congr fun item _ => ?_
  cases adds : item.addsDirectory
  · exact (directory?_of_not_addsDirectory adds).symm
  · rfl

/-- With all options for directories in front, every library is looked for in all directories. -/
theorem filesOf_directoriesFirst (items : List Item) :
    filesOf ctx [] (directoriesFirst items) =
      items.filterMap (Item.file? ctx (addedBy ctx items ++ ctx.searchDirectories)) := by
  have adds : ∀ item ∈ items.filter Item.addsDirectory, item.addsDirectory :=
    fun item hitem => (List.mem_filter.1 hitem).2
  rw [directoriesFirst, filesOf_append, filesOf_directories adds, filesOf_others, addedBy_directories,
    List.nil_append, List.nil_append]

/-! ### Libraries before directories -/

/-- The library would be found, were all directories in force, in one of those that come behind it. -/
def IsBehind (ctx : ScanContext) (added later : List OsString) (spec : String) : Prop :=
  ∃ dir ∈ later, ∃ name ∈ Scan.libraryNames spec,
    Scan.findLibrary ctx.files (added ++ later ++ ctx.searchDirectories) (Scan.libraryNames spec) =
      some (dir.join name)

instance (ctx : ScanContext) (added later : List OsString) (spec : String) :
    Decidable (IsBehind ctx added later spec) :=
  inferInstanceAs (Decidable (∃ dir ∈ later, ∃ name ∈ Scan.libraryNames spec, _))

/-- What is not found in the later ones of some directories is found without them. -/
theorem findLibrary_without (files : FileTree) (added later others : List OsString) (names : List String) :
    (∃ dir ∈ later, ∃ name ∈ names,
      Scan.findLibrary files (added ++ later ++ others) names = some (dir.join name)) ∨
    Scan.findLibrary files (added ++ later ++ others) names =
      Scan.findLibrary files (added ++ others) names := by
  induction names with
  | nil => exact .inr rfl
  | cons name names ih =>
    simp only [Scan.findLibrary, List.findSome?_cons, List.map_append, List.find?_append] at ih ⊢
    rcases (added.map (OsString.join · name)).find? files.isFile with _ | path
    · rcases behind : (later.map (OsString.join · name)).find? files.isFile with _ | path
      · rcases (others.map (OsString.join · name)).find? files.isFile with _ | path
        · obtain ⟨dir, hdir, name', hname, found⟩ | same := ih
          · exact .inl ⟨dir, hdir, name', List.mem_cons_of_mem _ hname, found⟩
          · exact .inr same
        · exact .inr rfl
      · obtain ⟨dir, hdir, rfl⟩ := List.mem_map.1 (List.mem_of_find?_eq_some behind)
        exact .inl ⟨dir, hdir, name, List.mem_cons_self, rfl⟩
    · exact .inr rfl

theorem file?_of_not_behind {later : List OsString}
    (seen : ∀ spec, item.demand? = some (.library spec) → ¬ IsBehind ctx added later spec) :
    item.file? ctx (added ++ later ++ ctx.searchDirectories) =
      item.file? ctx (added ++ ctx.searchDirectories) := by
  unfold Item.file? Item.finding?
  rcases demand : item.demand? with _ | d
  · rfl
  cases d with
  | input | libraryDirectory | includeDirectory | missing => rfl
  | library spec =>
    have same := (findLibrary_without ctx.files added later ctx.searchDirectories
      (Scan.libraryNames spec)).resolve_left (seen spec demand)
    simp only [Option.bind_some, Finding.answer, Request.answer, same]

/-- If no library is in a directory behind it, all are found as if all directories were in force. -/
theorem filesOf_of_not_behind (before items : List Item)
    (seen : ∀ first item rest spec, items = first ++ item :: rest → item.demand? = some (.library spec) →
      ¬ IsBehind ctx (addedBy ctx (before ++ first)) (addedBy ctx rest) spec) :
    filesOf ctx (addedBy ctx before) items =
      items.filterMap (Item.file? ctx (addedBy ctx (before ++ items) ++ ctx.searchDirectories)) := by
  induction items generalizing before with
  | nil => rfl
  | cons item items ih =>
    have here : addedBy ctx before ++ (item.directory? ctx).toList = addedBy ctx (before ++ [item]) := by
      cases directory : item.directory? ctx <;> simp [addedBy, directory]
    have file : item.file? ctx (addedBy ctx before ++ ctx.searchDirectories) =
        item.file? ctx (addedBy ctx (before ++ item :: items) ++ ctx.searchDirectories) := by
      cases adds : item.addsDirectory
      · have whole : addedBy ctx (before ++ item :: items) = addedBy ctx before ++ addedBy ctx items := by
          simp [addedBy, directory?_of_not_addsDirectory adds]
        have seen := fun spec => seen [] item items spec rfl
        rw [List.append_nil] at seen
        rw [whole, file?_of_not_behind seen]
      · rw [file?_of_addsDirectory adds, file?_of_addsDirectory adds]
    have rest : filesOf ctx (addedBy ctx (before ++ [item])) items =
        items.filterMap (Item.file? ctx (addedBy ctx (before ++ item :: items) ++ ctx.searchDirectories)) := by
      have regrouped : before ++ item :: items = before ++ [item] ++ items := by simp
      rw [regrouped]
      refine ih (before ++ [item]) fun first item' rest spec split => ?_
      rw [List.append_assoc]
      exact seen (item :: first) item' rest spec (congrArg (item :: ·) split)
    rw [filesOf, here, rest, file]
    cases found : item.file? ctx (addedBy ctx (before ++ item :: items) ++ ctx.searchDirectories) <;>
      simp [found]

end Files

/-! ## Resolutions -/

theorem driverItems_directoriesFirst (outputType : ArtifactType) (c : Command) :
    driverItems outputType c.directoriesFirst.arguments =
      directoriesFirst (driverItems outputType c.arguments) := by
  have used : .switch "-fopenmp" ∈ directoriesFirst (itemsOf c.arguments) ↔
      .switch "-fopenmp" ∈ itemsOf c.arguments := (directoriesFirst_perm _).mem_iff
  have runtime : (Scan.openMPLibraries.map (Item.pair "-l")).filter Item.addsDirectory = [] ∧
      (Scan.openMPLibraries.map (Item.pair "-l")).filter (!·.addsDirectory) =
        Scan.openMPLibraries.map (Item.pair "-l") := by decide
  simp only [driverItems, itemsOf_directoriesFirst, used]
  split_ifs
  · rw [directoriesFirst, directoriesFirst, List.filter_append, List.filter_append, runtime.1, runtime.2,
      List.append_nil, List.append_assoc]
  · rfl

theorem newFiles_eq_firstMentions (output : String) (answers : List (Except Problem Dependency)) :
    newFiles output [] answers = firstMentions output (answers.filterMap Except.toOption) := by
  simp [newFiles, firstMentions]

theorem resolve_of_written {files : FileTree} {dirs : List OsString} {c : Command} {family : ToolFamily}
    {output : String} (recognized : c.family? = some family) (written : c.output? = some output) :
    ∃ r, resolve files dirs c = .ok r ∧ r.output = absoluteOutput files c.directory output ∧
      r.outputType = .ofOutput output := by
  unfold resolve
  rw [recognized, written]
  exact ⟨_, rfl, rfl, rfl⟩

/-- The dependencies of a driver are the files that its items lead to. -/
theorem dependencies_of_driver {files : FileTree} {dirs : List OsString} {c : Command} {r : Resolution}
    (driver : c.family? = some .compileLink) (hr : resolve files dirs c = .ok r) :
    r.dependencies = firstMentions r.output
      (filesOf ⟨files, c.directory, r.output, dirs⟩ [] (driverItems r.outputType c.arguments)) := by
  obtain ⟨family, output, hfamily, -, -, -, dependencies⟩ := resolve_eq_ok hr
  obtain rfl : ToolFamily.compileLink = family := Option.some.inj (driver.symm.trans hfamily)
  obtain ⟨listed, -⟩ :=
    scanArguments_gathers ⟨files, c.directory, r.output, dirs⟩ .compileLink r.outputType c.arguments
  rw [dependencies, listed, List.nil_append, newFiles_eq_firstMentions, List.filterMap_map, filesOf_eq]
  rfl

/-- The options for library directories can be moved to the front of a driver's arguments, and what it
writes stays the same.  Where they stand, each library is looked for in the directories before it and then
in those of the toolchain, and with the options in front, in all directories of the command and then in
those of the toolchain.  So the command has the same dependencies in either case, unless a library is in
a directory that comes behind it. -/
theorem dependencies_directoriesFirst {files : FileTree} {dirs : List OsString} {c : Command} {output : String}
    (driver : c.family? = some .compileLink) (written : c.output? = some output) :
    c.directoriesFirst.arguments.Perm c.arguments ∧
    itemsOf c.directoriesFirst.arguments = directoriesFirst (itemsOf c.arguments) ∧
    ∃ r r', resolve files dirs c = .ok r ∧ resolve files dirs c.directoriesFirst = .ok r' ∧
      r'.output = r.output ∧ r'.outputType = r.outputType ∧
      let ctx : ScanContext := ⟨files, c.directory, r.output, dirs⟩
      let items := driverItems r.outputType c.arguments
      r.dependencies = firstMentions r.output (filesOf ctx [] items) ∧
      r'.dependencies = firstMentions r.output (items.filterMap (Item.file? ctx (addedBy ctx items ++ dirs))) ∧
      ((∀ before item after spec, items = before ++ item :: after → item.demand? = some (.library spec) →
          ¬ IsBehind ctx (addedBy ctx before) (addedBy ctx after) spec) →
        r'.dependencies = r.dependencies) := by
  have perm := (directoriesFirst_perm (itemsOf c.arguments)).flatMap_right Item.tokens
  rw [flatMap_tokens_itemsOf] at perm
  refine ⟨perm, itemsOf_directoriesFirst c, ?_⟩
  have written' : c.directoriesFirst.output? = some output :=
    (Command.output?_directoriesFirst driver).trans written
  obtain ⟨r, hr, routput, rtype⟩ := @resolve_of_written files dirs _ _ _ driver written
  obtain ⟨r', hr', routput', rtype'⟩ := @resolve_of_written files dirs c.directoriesFirst _ _ driver written'
  have sameOutput : r'.output = r.output := routput'.trans routput.symm
  have sameType : r'.outputType = r.outputType := rtype'.trans rtype.symm
  have listed := dependencies_of_driver driver hr
  have listed' := dependencies_of_driver (c := c.directoriesFirst) driver hr'
  rw [sameOutput, sameType, driverItems_directoriesFirst, filesOf_directoriesFirst] at listed'
  refine ⟨r, r', hr, hr', sameOutput, sameType, listed, listed', fun seen => ?_⟩
  rw [listed, listed']
  exact congrArg _ (filesOf_of_not_behind [] _ seen).symm

/-- A library in a directory of the project, and other copies in a directory of the toolchain. -/
def copiedFiles : FileTree :=
  ⟨[(["w"], .directory), (["w", "main.o"], .file .empty), (["w", "lib"], .directory),
    (["w", "lib", "libz.so"], .file .empty), (["usr"], .directory), (["usr", "libz.so"], .file .empty),
    (["usr", "libm.so"], .file .empty)], ["w"]⟩

/-- The directory comes behind a library that is not in it. -/
theorem dependencies_directoriesFirst_elsewhere :
    ∃ r r', resolve copiedFiles ["/usr"] ⟨"/w", "gcc", ["main.o", "-lm", "-Llib"]⟩ = .ok r ∧
      resolve copiedFiles ["/usr"] ⟨"/w", "gcc", ["-Llib", "main.o", "-lm"]⟩ = .ok r' ∧
      r'.dependencies = r.dependencies := by
  have written : Command.output? ⟨"/w", "gcc", ["main.o", "-lm", "-Llib"]⟩ = some "a.out" := by decide +kernel
  obtain ⟨-, -, r, r', hr, hr', -, -, -, -, same⟩ :=
    @dependencies_directoriesFirst copiedFiles ["/usr"] _ _ rfl written
  have here : resolve copiedFiles ["/usr"] ⟨"/w", "gcc", ["main.o", "-lm", "-Llib"]⟩ =
      .ok ⟨"/w/a.out", .executable, [⟨"/w/main.o", .object⟩, ⟨"/usr/libm.so", .shared⟩], [], []⟩ := by
    decide +kernel
  obtain rfl := Except.ok.inj (hr.symm.trans here)
  refine ⟨_, r', hr, hr', same ?_⟩
  have items : driverItems .executable ["main.o", "-lm", "-Llib"] =
      [.input "main.o", .switch "-lm", .switch "-Llib"] := by decide +kernel
  have named : Item.demand? (.switch "-lm") = some (.library "m") := by decide +kernel
  intro before item after spec split demand
  rw [items] at split
  rcases before with _ | ⟨_, _ | ⟨_, _ | ⟨_, before⟩⟩⟩ <;>
    simp only [List.nil_append, List.cons_append, List.cons.injEq] at split
  · obtain ⟨rfl, rfl⟩ := split
    cases demand
  · -- the only library
    obtain ⟨rfl, rfl, rfl⟩ := split
    obtain ⟨rfl⟩ := named.symm.trans demand
    decide +kernel
  · obtain ⟨rfl, rfl, rfl, rfl⟩ := split
    cases demand
  · simp at split

/-- The library of a toolchain is taken although the project has its own, in a directory that is named
behind the library. -/
theorem library_before_directory :
    ∃ r r', resolve copiedFiles ["/usr"] ⟨"/w", "gcc", ["-o", "app", "main.o", "-lz", "-Llib"]⟩ = .ok r ∧
      resolve copiedFiles ["/usr"]
        (Command.directoriesFirst ⟨"/w", "gcc", ["-o", "app", "main.o", "-lz", "-Llib"]⟩) = .ok r' ∧
      r.dependencies = [⟨"/w/main.o", .object⟩, ⟨"/usr/libz.so", .shared⟩] ∧
      r'.dependencies = [⟨"/w/main.o", .object⟩, ⟨"/w/lib/libz.so", .shared⟩] :=
  ⟨⟨"/w/app", .executable, [⟨"/w/main.o", .object⟩, ⟨"/usr/libz.so", .shared⟩], [], []⟩,
    ⟨"/w/app", .executable, [⟨"/w/main.o", .object⟩, ⟨"/w/lib/libz.so", .shared⟩], [], []⟩,
    by decide +kernel, by decide +kernel, rfl, rfl⟩

end BuildAudit
