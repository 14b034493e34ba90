import Mathlib.Data.List.Forall2
import BuildAudit.ArtifactSymbols
import BuildAudit.Proofs.Running

/-!
# The protocol of dumping

A binary is dumped in three tables: undefined, defined and external symbols.  Each table is listed by a
plain run, and by a dynamic one directly after it if the plain listing has no entries and the artifact is a
shared library; so the runs are planned by what the runs before them print (`Dumper.planned`).  What a
part of the dump does with its runs is `Makes`: it goes through its plan, or it stops at the first run
that cannot be started.  The main result is `dump_protocol`.
-/

namespace BuildAudit

/-! ## Formats -/

namespace ArtifactFormat

theorem toList_loop (bs : ByteArray) (i : Nat) (r : List UInt8) :
    ByteArray.toList.loop bs i r = r.reverse ++ bs.data.toList.drop i := by
  fun_induction ByteArray.toList.loop bs i r with
  | case1 i r inside ih =>
    have next : bs.data.toList.drop i = bs.get! i :: bs.data.toList.drop (i + 1) := by
      rw [List.drop_eq_getElem_cons (by simpa using inside)]
      simp [ByteArray.get!, inside]
    rw [ih, next, List.reverse_cons, List.append_assoc]
    rfl
  | case2 i r outside =>
    have short : bs.data.toList.length ≤ i := by simpa using outside
    rw [List.drop_eq_nil_of_le short, List.append_nil]

theorem startsWith_iff {magic : List UInt8} {contents : ByteArray} :
    startsWith magic contents ↔ magic <+: contents.data.toList := by
  have first : (contents.extract 0 magic.length).toList = contents.data.toList.take magic.length := by
    rw [ByteArray.toList, toList_loop, List.reverse_nil, List.nil_append, List.drop_zero,
      ByteArray.data_extract, Array.toList_extract, List.extract_eq_take_drop, List.drop_zero]
    rfl
  rw [startsWith, beq_iff_eq, first, List.prefix_iff_eq_take, eq_comm]

/-- The contents begin with one of the signs of binaries. -/
def IsBinary (contents : ByteArray) : Prop :=
  elfMagic <+: contents.data.toList ∨ archiveMagic <+: contents.data.toList

instance (contents : ByteArray) : Decidable (IsBinary contents) :=
  inferInstanceAs (Decidable (_ ∨ _))

theorem ofContents_eq_binary_iff {contents : ByteArray} :
    ofContents contents = .binary ↔ IsBinary contents := by
  rw [IsBinary, ← startsWith_iff, ← startsWith_iff, ← Bool.or_eq_true, ofContents]
  split <;> simp [*]

end ArtifactFormat

/-! ## Plans -/

namespace Dumper

variable (d : Dumper)

/-- The tables in the order in which they are dumped, by the options of their plain runs: undefined,
defined, external. -/
def tableFlags : List (List String) :=
  [["--undefined-only"], ["-S", "--defined-only"], ["-S", "--defined-only", "--extern-only"]]

/-- What the dumper answers when it is run with options. -/
def answer (flags : List String) : Except OsError ToolOutput := d.tools d.program (flags ++ [d.path])

/-- The run with these options can be started. -/
def Starts (flags : List String) : Prop := ∃ out, d.answer flags = .ok out

/-- The run with these options comes to an end, and this is its listing. -/
def Prints (flags : List String) (entries : List SymbolEntry) : Prop :=
  ∃ out, d.answer flags = .ok out ∧ SymbolTable.entriesOf out.stdout = entries

/-- The run with these options comes to an end, with whatever exit code, and this is its summary. -/
def Finishes (flags : List String) (run : ToolRun) : Prop :=
  ∃ out, d.answer flags = .ok out ∧
    run = ⟨invocationLine d.program (flags ++ [d.path]), out.exitCode, out.stderr⟩

/-- These are the entries of a table: the listing of its plain run, or, if that is empty and only for a
shared library, the listing of the dynamic run. -/
def Tabulates (flags : List String) (entries : List SymbolEntry) : Prop :=
  ∃ plain, d.Prints flags plain ∧
    if plain = [] ∧ d.dynamicFallback then d.Prints ("-D" :: flags) entries else entries = plain

instance (flags : List String) (entries : List SymbolEntry) : Decidable (d.Prints flags entries) :=
  match h : d.answer flags with
  | .ok out => decidable_of_iff (SymbolTable.entriesOf out.stdout = entries) (by simp [Prints, h])
  | .error _ => isFalse (by simp [Prints, h])

/-- The runs for one table.  The dynamic run comes directly after the plain one. -/
def runsFor (flags : List String) : List (List String) :=
  if d.Prints flags [] ∧ d.dynamicFallback then [flags, "-D" :: flags] else [flags]

/-- The runs for all tables, as far as they can be started. -/
def planned : List (List String) := tableFlags.flatMap d.runsFor

/-- The runs that are tried: those of the plan up to the first one that cannot be started. -/
def tried : List (List String) → List (List String)
  | [] => []
  | flags :: later => flags :: match d.answer flags with
    | .ok _ => tried later
    | .error _ => []

/-- The runs are those of the plan up to one that cannot be started, for this reason. -/
def StopsAt (plan : List (List String)) (runs : List ToolRun) (failure : StartFailure) : Prop :=
  ∃ made flags later cause, plan = made ++ flags :: later ∧ List.Forall₂ d.Finishes made runs ∧
    d.answer flags = .error cause ∧ failure = ⟨invocationLine d.program (flags ++ [d.path]), cause⟩

variable {d} {plan plan' : List (List String)} {runs runs' : List ToolRun} {failure : StartFailure}

theorem StopsAt.append_left (h : d.StopsAt plan runs failure) (plan' : List (List String)) :
    d.StopsAt (plan ++ plan') runs failure := by
  obtain ⟨made, flags, later, cause, rfl, finished, stops⟩ := h
  exact ⟨made, flags, later ++ plan', cause, by simp, finished, stops⟩

theorem StopsAt.append_right (finished : List.Forall₂ d.Finishes plan runs)
    (h : d.StopsAt plan' runs' failure) : d.StopsAt (plan ++ plan') (runs ++ runs') failure := by
  obtain ⟨made, flags, later, cause, rfl, finished', stops⟩ := h
  exact ⟨plan ++ made, flags, later, cause, by simp, List.rel_append finished finished', stops⟩

theorem mem_tried_append_left {flags : List String} (h : flags ∈ d.tried plan) :
    flags ∈ d.tried (plan ++ plan') := by
  induction plan with
  | nil => cases h
  | cons first plan ih =>
    rw [List.cons_append]
    unfold tried at h ⊢
    rcases List.mem_cons.1 h with rfl | later
    · exact List.mem_cons_self
    · split at later
      · exact List.mem_cons_of_mem _ (ih later)
      · cases later

theorem mem_tried_append_right {flags : List String} (finished : List.Forall₂ d.Finishes plan runs)
    (h : flags ∈ d.tried plan') : flags ∈ d.tried (plan ++ plan') := by
  induction finished with
  | nil => exact h
  | cons first _ ih =>
    obtain ⟨out, started, -⟩ := first
    rw [List.cons_append, tried, started]
    exact List.mem_cons_of_mem _ ih

/-! ## What parts of a dump do -/

variable {α β : Type} {P : α → Prop} {Q : β → Prop}

/-- The part goes through its plan and gives something as `P` says, or it stops at a run that cannot be
started.  It adds the finished runs to those before. -/
def Makes (d : Dumper) (r : Runs α) (plan : List (List String)) (P : α → Prop) : Prop :=
  ∀ before, ∃ runs,
    (∃ a, ExceptT.run r before = (.ok a, before ++ runs) ∧ List.Forall₂ d.Finishes plan runs ∧ P a) ∨
      ∃ failure, ExceptT.run r before = (.error failure, before ++ runs) ∧ d.StopsAt plan runs failure

theorem Makes.imp {r : Runs α} {P' : α → Prop} (h : d.Makes r plan P) (imp : ∀ a, P a → P' a) :
    d.Makes r plan P' := by
  intro before
  obtain ⟨runs, ⟨a, ran, finished, ha⟩ | stopped⟩ := h before
  · exact ⟨runs, .inl ⟨a, ran, finished, imp a ha⟩⟩
  · exact ⟨runs, .inr stopped⟩

theorem makes_pure {a : α} (h : P a) : d.Makes (pure a) [] P :=
  fun before => ⟨[], .inl ⟨a, by rw [List.append_nil]; rfl, .nil, h⟩⟩

theorem Makes.bind {r : Runs α} {f : α → Runs β} (hr : d.Makes r plan P)
    (hf : ∀ a, P a → d.Makes (f a) plan' Q) : d.Makes (r >>= f) (plan ++ plan') Q := by
  intro before
  obtain ⟨runs, ⟨a, ran, finished, ha⟩ | ⟨failure, ran, stops⟩⟩ := hr before
  · obtain ⟨runs', ⟨b, ran', finished', hb⟩ | ⟨failure, ran', stops⟩⟩ := hf a ha (before ++ runs)
    · refine ⟨runs ++ runs', .inl ⟨b, ?_, List.rel_append finished finished', hb⟩⟩
      rw [run_bind_state, ran, ← List.append_assoc]
      exact ran'
    · refine ⟨runs ++ runs', .inr ⟨failure, ?_, stops.append_right finished⟩⟩
      rw [run_bind_state, ran, ← List.append_assoc]
      exact ran'
  · refine ⟨runs, .inr ⟨failure, ?_, stops.append_left plan'⟩⟩
    rw [run_bind_state, ran]

theorem makes_run (d : Dumper) (flags : List String) : d.Makes (d.run flags) [flags] (d.Prints flags) := by
  intro before
  rcases answered : d.answer flags with cause | out
  · refine ⟨[], .inr ⟨_, ?_, [], flags, [], cause, rfl, .nil, answered, rfl⟩⟩
    rw [answer] at answered
    rw [run, Toolbox.run, answered, List.append_nil]
    rfl
  · refine ⟨[⟨invocationLine d.program (flags ++ [d.path]), out.exitCode, out.stderr⟩],
      .inl ⟨SymbolTable.entriesOf out.stdout, ?_, .cons ⟨out, answered, rfl⟩ .nil, out, answered, rfl⟩⟩
    rw [answer] at answered
    rw [run, Toolbox.run, answered]
    rfl

theorem Prints.unique {flags : List String} {entries entries' : List SymbolEntry}
    (h : d.Prints flags entries) (h' : d.Prints flags entries') : entries = entries' := by
  obtain ⟨out, answered, rfl⟩ := h
  obtain ⟨out', answered', rfl⟩ := h'
  obtain rfl := Except.ok.inj (answered.symm.trans answered')
  rfl

theorem makes_table (d : Dumper) (flags : List String) :
    d.Makes (d.table flags) (d.runsFor flags) (d.Tabulates flags) := by
  unfold table runsFor
  split_ifs with empty
  · change d.Makes _ ([flags] ++ ["-D" :: flags]) _
    refine (d.makes_run flags).bind fun entries plain => ?_
    obtain rfl := plain.unique empty.1
    rw [List.isEmpty_nil, empty.2, Bool.and_self, if_pos rfl]
    refine (d.makes_run ("-D" :: flags)).imp fun entries dynamic => ⟨[], plain, ?_⟩
    rwa [if_pos ⟨rfl, empty.2⟩]
  · rw [← List.append_nil [flags]]
    refine (d.makes_run flags).bind fun entries plain => ?_
    have filled : ¬ (entries = [] ∧ d.dynamicFallback) := by
      rintro ⟨rfl, shared⟩
      exact empty ⟨plain, shared⟩
    rw [if_neg (by simpa using filled)]
    exact makes_pure ⟨entries, plain, by rw [if_neg filled]⟩

/-- The three tables of a dump.  What is defined is external or internal, and not both. -/
structure Lists (d : Dumper) (s : ArtifactSymbols) : Prop where
  format : s.format = .binary
  undefined : d.Tabulates ["--undefined-only"] s.undefined
  external : d.Tabulates ["-S", "--defined-only", "--extern-only"] s.external
  internal : ∃ defined, d.Tabulates ["-S", "--defined-only"] defined ∧
    s.internal = defined.filter (fun e => e.name ∉ s.external.map (·.name)) ∧
    ∀ e ∈ defined, e.name ∈ s.internal.map (·.name) ∨ e.name ∈ s.external.map (·.name)
  apart : ∀ e ∈ s.internal, e.name ∉ s.external.map (·.name)

theorem hidden_eq (defined external : List SymbolEntry) :
    hidden defined external = defined.filter fun e => e.name ∉ external.map (·.name) := by
  refine List.filter_congr fun e _ => ?_
  rw [Bool.eq_iff_iff]
  simp

theorem mem_hidden_iff {defined external : List SymbolEntry} {e : SymbolEntry} :
    e ∈ hidden defined external ↔ e ∈ defined ∧ e.name ∉ external.map (·.name) := by
  rw [hidden_eq, List.mem_filter, decide_eq_true_eq]

theorem planned_eq (d : Dumper) :
    d.planned = d.runsFor ["--undefined-only"] ++ (d.runsFor ["-S", "--defined-only"] ++
      (d.runsFor ["-S", "--defined-only", "--extern-only"] ++ [])) := rfl

theorem makes_tables (d : Dumper) : d.Makes d.tables d.planned d.Lists := by
  rw [planned_eq]
  refine (d.makes_table _).bind fun undefined hundefined => ?_
  refine (d.makes_table _).bind fun defined hdefined => ?_
  refine (d.makes_table _).bind fun external hexternal => makes_pure ?_
  refine ⟨rfl, hundefined, hexternal, ⟨defined, hdefined, hidden_eq defined external, fun e he => ?_⟩,
    fun e he => (mem_hidden_iff.1 he).2⟩
  by_cases outside : e.name ∈ external.map (·.name)
  · exact .inr outside
  · exact .inl (List.mem_map_of_mem (mem_hidden_iff.2 ⟨he, outside⟩))

theorem length_planned (d : Dumper) : 3 ≤ d.planned.length ∧ d.planned.length ≤ 6 := by
  have each (flags : List String) : 1 ≤ (d.runsFor flags).length ∧ (d.runsFor flags).length ≤ 2 := by
    unfold runsFor
    split <;> simp
  have first := each ["--undefined-only"]
  have second := each ["-S", "--defined-only"]
  have third := each ["-S", "--defined-only", "--extern-only"]
  rw [planned_eq, List.append_nil, List.length_append, List.length_append]
  omega

/-- No run is made twice. -/
theorem nodup_planned (d : Dumper) : d.planned.Nodup := by
  have all : (tableFlags.flatMap fun flags => [flags, "-D" :: flags]).Nodup := by decide
  refine all.sublist ?_
  have each (flags : List String) : (d.runsFor flags).Sublist [flags, "-D" :: flags] := by
    unfold runsFor
    split
    · exact List.Sublist.refl _
    · exact .cons_cons _ (List.nil_sublist _)
  exact (each _).append ((each _).append ((each _).append (List.Sublist.refl _)))

/-! ## What a dump depends on -/

variable {tools : Toolbox}

/-- Two parts agree if what they go on with agrees after all results of the first part. -/
theorem bind_congr_of_ok {r : Runs α} {f f' : α → Runs β}
    (next : ∀ before a after, ExceptT.run r before = (.ok a, after) → f a = f' a) :
    r >>= f = r >>= f' := by
  funext before
  show ExceptT.run (r >>= f) before = ExceptT.run (r >>= f') before
  rw [run_bind_state, run_bind_state]
  rcases ran : ExceptT.run r before with ⟨failure | a, after⟩
  · rfl
  · show ExceptT.run (f a) after = ExceptT.run (f' a) after
    rw [next before a after ran]

/-- Whatever a part gives is as it is said to be, and its runs were all finished. -/
theorem Makes.of_ok {r : Runs α} (h : d.Makes r plan P) {before after : List ToolRun} {a : α}
    (ran : ExceptT.run r before = (.ok a, after)) :
    P a ∧ ∃ runs, List.Forall₂ d.Finishes plan runs ∧ after = before ++ runs := by
  obtain ⟨runs, ⟨a', ran', finished, ha⟩ | ⟨failure, ran', -⟩⟩ := h before
  · cases ran'.symm.trans ran
    exact ⟨ha, runs, finished, rfl⟩
  · cases ran'.symm.trans ran

theorem run_congr {flags : List String}
    (same : tools d.program (flags ++ [d.path]) = d.answer flags) :
    Dumper.run { d with tools } flags = d.run flags := by
  simp only [answer] at same
  simp only [run, Toolbox.run, same]

theorem table_congr {flags : List String}
    (same : ∀ flags' ∈ d.tried (d.runsFor flags), tools d.program (flags' ++ [d.path]) = d.answer flags') :
    Dumper.table { d with tools } flags = d.table flags := by
  have plain : flags ∈ d.tried (d.runsFor flags) := by
    unfold runsFor
    split <;> exact List.mem_cons_self
  unfold table
  rw [run_congr (same flags plain)]
  refine bind_congr_of_ok fun before entries after ran => ?_
  obtain ⟨printed, -⟩ := (d.makes_run flags).of_ok ran
  by_cases empty : entries = [] ∧ d.dynamicFallback
  · obtain ⟨rfl, shared⟩ := empty
    obtain ⟨out, answered, -⟩ := id printed
    have dynamic : "-D" :: flags ∈ d.tried (d.runsFor flags) := by
      rw [runsFor, if_pos ⟨printed, shared⟩, tried, answered]
      exact List.mem_cons_of_mem _ List.mem_cons_self
    rw [run_congr (same _ dynamic)]
  · have filled : (entries.isEmpty && d.dynamicFallback) = false := by simpa using empty
    simp only [filled]
    rfl

/-- A dump depends on the answers to the runs that are tried, and on no others. -/
theorem tables_congr
    (same : ∀ flags ∈ d.tried d.planned, tools d.program (flags ++ [d.path]) = d.answer flags) :
    Dumper.tables { d with tools } = d.tables := by
  rw [planned_eq] at same
  unfold tables
  rw [table_congr fun flags h => same flags (mem_tried_append_left h)]
  refine bind_congr_of_ok fun before undefined after ran => ?_
  obtain ⟨-, runs, first, -⟩ := (d.makes_table _).of_ok ran
  rw [table_congr fun flags h => same flags (mem_tried_append_right first (mem_tried_append_left h))]
  refine bind_congr_of_ok fun before defined after ran => ?_
  obtain ⟨-, runs, second, -⟩ := (d.makes_table _).of_ok ran
  rw [table_congr fun flags h => same flags
    (mem_tried_append_right first (mem_tried_append_right second (mem_tried_append_left h)))]

/-- The dumper that looks at an artifact.  Only for a shared library it asks for dynamic tables. -/
def aimedAt (tools : Toolbox) (nm path : String) (type : ArtifactType) : Dumper :=
  ⟨tools, nm, path, type == .shared⟩

end Dumper

section Dump

variable {files : FileTree} {tools : Toolbox} {nm path : String} {type : ArtifactType}

/-- A binary is dumped in its tables, with the runs that were made for them. -/
theorem dump_of_binary (binary : formatOf files path = .ok .binary) :
    dump files tools nm path type =
      match ExceptT.run (Dumper.aimedAt tools nm path type).tables [] with
      | (.ok symbols, runs) => (.ok { symbols with runs }, runs)
      | (.error failure, runs) => (.error (.notStarted failure), runs) := by
  rw [dump, binary]
  rfl

theorem dump_of_linkerScript (script : formatOf files path = .ok .linkerScript) :
    dump files tools nm path type = (.ok { format := .linkerScript }, []) := by
  rw [dump, script]

theorem Dumper.Lists.withRuns {d : Dumper} {s : ArtifactSymbols} (h : d.Lists s) (runs : List ToolRun) :
    d.Lists { s with runs } := ⟨h.format, h.undefined, h.external, h.internal, h.apart⟩

theorem formatOf_eq_ok {contents : ByteArray} (there : files.read path = .ok contents) :
    formatOf files path = .ok (.ofContents contents) := by
  rw [formatOf, there]

/-- Dumping a file that can be read, whatever the tools answer.  For a file without the leading bytes of a
binary no run is made.  For a binary three to six runs are planned, all of them different.  Either all of
them come to an end, with whatever exit codes and errors: then the tables are what they list, and the dump
has a summary of each run, in their order.  Or one of them cannot be started: then the dump fails for this
reason, after the runs before that one.  What the tools would answer to other runs than those that are
tried does not matter. -/
theorem dump_protocol {contents : ByteArray} (there : files.read path = .ok contents) (tools : Toolbox)
    (nm : String) (type : ArtifactType) :
    (¬ ArtifactFormat.IsBinary contents →
      dump files tools nm path type = (.ok { format := .linkerScript }, [])) ∧
    (ArtifactFormat.IsBinary contents →
      let d := Dumper.aimedAt tools nm path type
      (3 ≤ d.planned.length ∧ d.planned.length ≤ 6 ∧ d.planned.Nodup) ∧
      ((∃ s, dump files tools nm path type = (.ok s, s.runs) ∧ d.Lists s ∧
          List.Forall₂ d.Finishes d.planned s.runs) ∨
        ∃ failure runs, dump files tools nm path type = (.error (.notStarted failure), runs) ∧
          d.StopsAt d.planned runs failure) ∧
      ∀ tools' : Toolbox, (∀ flags ∈ d.tried d.planned,
          tools' nm (flags ++ [path]) = tools nm (flags ++ [path])) →
        dump files tools' nm path type = dump files tools nm path type) := by
  have format := formatOf_eq_ok there
  constructor
  · intro other
    rw [← ArtifactFormat.ofContents_eq_binary_iff] at other
    refine dump_of_linkerScript (format.trans (congrArg Except.ok ?_))
    cases kind : ArtifactFormat.ofContents contents
    · exact absurd kind other
    · rfl
  · intro binary
    rw [ArtifactFormat.ofContents_eq_binary_iff.2 binary] at format
    intro d
    obtain ⟨least, most⟩ := d.length_planned
    refine ⟨⟨least, most, d.nodup_planned⟩, ?_, fun tools' same => ?_⟩
    · rw [dump_of_binary format]
      obtain ⟨runs, ⟨s, ran, finished, lists⟩ | ⟨failure, ran, stops⟩⟩ := d.makes_tables []
      · rw [ran]
        exact .inl ⟨{ s with runs }, rfl, lists.withRuns runs, finished⟩
      · rw [ran]
        exact .inr ⟨failure, runs, rfl, stops⟩
    · have tables : (Dumper.aimedAt tools' nm path type).tables = d.tables := Dumper.tables_congr same
      rw [dump_of_binary format, dump_of_binary format, tables]

end Dump

/-- A shared library whose plain tables hold nothing of use, and a dumper that complains about it. -/
def strippedFiles : FileTree :=
  ⟨[(["w"], .directory), (["w", "libz.so"], .file ⟨#[0x7f, 0x45, 0x4c, 0x46]⟩)], []⟩

def strippedTools : Toolbox := fun _ args =>
  if args.contains "--undefined-only" then .ok { stdout := "U puts" }
  else if !args.contains "-D" then .ok { exitCode := 1, stdout := "0 4 r .LC0", stderr := "no symbols" }
  else if args.contains "--extern-only" then .ok { stdout := "0 4 T inflate" }
  else .ok { stdout := "0 4 T inflate\n8 4 t window" }

/-- Two of the three tables are replaced by dynamic ones, so that five runs are made. -/
theorem dump_protocol_stripped :
    ∃ s, dump strippedFiles strippedTools "nm" "/w/libz.so" .shared = (.ok s, s.runs) ∧
      (Dumper.aimedAt strippedTools "nm" "/w/libz.so" .shared).Lists s ∧ s.runs.length = 5 ∧
      s.internal = [⟨"window", 't', some 4⟩] := by
  have there : strippedFiles.read "/w/libz.so" = .ok ⟨#[0x7f, 0x45, 0x4c, 0x46]⟩ := by decide +kernel
  have started : (dump strippedFiles strippedTools "nm" "/w/libz.so" .shared).1.isOk := by decide +kernel
  have internal : (dump strippedFiles strippedTools "nm" "/w/libz.so" .shared).1.toOption.map (·.internal) =
      some [⟨"window", 't', some 4⟩] := by decide +kernel
  obtain ⟨-, ⟨s, ran, lists, finished⟩ | ⟨failure, runs, ran, -⟩, -⟩ :=
    (dump_protocol there strippedTools "nm" .shared).2 (.inl (by decide))
  · rw [ran] at internal
    exact ⟨s, ran, lists, finished.length_eq.symm.trans (by decide +kernel), Option.some.inj internal⟩
  · rw [ran] at started
    cases started

end BuildAudit
