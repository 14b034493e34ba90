import BuildAudit.Proofs.InputTokens

/-!
# Arguments as items

The arguments of a driver are a list of items: a flag with the value behind it, a flag whose value is
missing at the end, a flag alone, or an input (`itemsOf`).  The items hold every argument once and in
order (`flatMap_tokens_itemsOf`).  Both scanners of a driver's arguments are folds over the items: the
one that looks for the output (`DriverMode.read_eq_foldl`) and the one that looks for files
(`Scan.driver_eq_foldl`).
-/

namespace BuildAudit

/-- One argument of a driver, or a flag and its value. -/
inductive Item where
  /-- A flag and the argument behind it, which is its value. -/
  | pair (flag value : String)
  /-- A flag at the end of the arguments, where its value is missing. -/
  | lone (flag : String)
  /-- A flag that takes no further argument. -/
  | switch (arg : String)
  | input (token : String)
  deriving DecidableEq, Repr

def itemsOf : List String → List Item
  | [] => []
  | arg :: rest =>
    if takesValue arg then
      match rest with
      | [] => [.lone arg]
      | value :: rest => .pair arg value :: itemsOf rest
    else if isFlag arg then .switch arg :: itemsOf rest
    else .input arg :: itemsOf rest

/-- The arguments that make up an item. -/
def Item.tokens : Item → List String
  | pair flag value => [flag, value]
  | lone arg | switch arg | input arg => [arg]

section Arguments

variable {arg value : String} {rest : List String}

theorem itemsOf_of_takesValue (takes : takesValue arg) :
    itemsOf (arg :: value :: rest) = .pair arg value :: itemsOf rest := by
  rw [itemsOf, if_pos takes]

theorem itemsOf_last (takes : takesValue arg) : itemsOf [arg] = [.lone arg] := by
  rw [itemsOf, if_pos takes]

theorem itemsOf_of_isFlag (alone : ¬ takesValue arg) (flag : isFlag arg) :
    itemsOf (arg :: rest) = .switch arg :: itemsOf rest := by
  rw [itemsOf.eq_def]
  simp only [if_neg alone, if_pos flag]

theorem itemsOf_of_input (alone : ¬ takesValue arg) (input : ¬ isFlag arg) :
    itemsOf (arg :: rest) = .input arg :: itemsOf rest := by
  rw [itemsOf.eq_def]
  simp only [if_neg alone, if_neg input]

end Arguments

/-- No argument is lost, doubled or moved. -/
theorem flatMap_tokens_itemsOf (args : List String) : (itemsOf args).flatMap Item.tokens = args := by
  fun_induction itemsOf args <;> simp_all [Item.tokens]

/-! ## Looking for the output -/

/-- What an item says about the output. -/
def DriverMode.take (m : DriverMode) : Item → DriverMode
  | .pair flag value => if flag = "-o" then { m with explicit := some value } else m
  | .lone flag => if flag = "-o" then { m with explicit := none } else m
  | .switch arg =>
    match Text.after? "-o" arg with
    | some path => { m with explicit := some path }
    | none =>
      if arg = "-c" then { m with compileOnly := true }
      else if arg ∈ noArtifactFlags then { m with noArtifact := true }
      else m
  | .input token =>
    if m.firstSource.isNone && ArtifactType.ofInput token == .source then
      { m with firstSource := some token }
    else m

/-- A flag with a value names no output unless it is `-o`, and sets no mode. -/
theorem plain_of_takesValue {flag : String} (takes : takesValue flag) (other : flag ≠ "-o") :
    Text.after? "-o" flag = none ∧ flag ≠ "-c" ∧ flag ∉ noArtifactFlags := by
  have all : ∀ flag ∈ valueFlags ++ ["-o", "-I", "-L", "-l", "-isystem", "-iquote", "-idirafter"],
      flag ≠ "-o" → Text.after? "-o" flag = none ∧ flag ≠ "-c" ∧ flag ∉ noArtifactFlags := by decide
  refine all flag ?_ other
  simpa [takesValue] using takes

namespace DriverMode

variable {m : DriverMode} {arg value : String} {rest : List String}

theorem read_of_takesValue (takes : takesValue arg) :
    m.read (arg :: value :: rest) = (m.take (.pair arg value)).read rest := by
  rw [read.eq_def]
  by_cases output : arg = "-o"
  · simp [take, output]
  · obtain ⟨apart, compile, artifact⟩ := plain_of_takesValue takes output
    simp [take, output, apart, compile, artifact, takes]

theorem read_last (takes : takesValue arg) : m.read [arg] = m.take (.lone arg) := by
  rw [read.eq_def]
  by_cases output : arg = "-o"
  · simp [take, output]
  · obtain ⟨apart, compile, artifact⟩ := plain_of_takesValue takes output
    simp [take, output, apart, compile, artifact, takes]

theorem read_of_isFlag (alone : ¬ takesValue arg) (flag : isFlag arg) :
    m.read (arg :: rest) = (m.take (.switch arg)).read rest := by
  have other : arg ≠ "-o" := by
    rintro rfl
    exact alone rfl
  rw [read.eq_def]
  rcases attached : Text.after? "-o" arg with _ | path
  · simp only [take, beq_iff_eq, other, attached, alone, flag, List.contains_iff_mem]
    split_ifs <;> simp_all
  · simp [take, other, attached]

theorem read_of_input (alone : ¬ takesValue arg) (input : ¬ isFlag arg) :
    m.read (arg :: rest) = (m.take (.input arg)).read rest := by
  have other : ∀ flag ∈ "-o" :: "-c" :: noArtifactFlags, arg ≠ flag := by
    have flags : ∀ flag ∈ "-o" :: "-c" :: noArtifactFlags, isFlag flag := by decide
    rintro flag hflag rfl
    exact input (flags arg hflag)
  obtain ⟨output, compile, artifact⟩ : arg ≠ "-o" ∧ arg ≠ "-c" ∧ arg ∉ noArtifactFlags :=
    ⟨other _ (by simp), other _ (by simp), fun h => other arg (by simp [h]) rfl⟩
  have apart : Text.after? "-o" arg = none :=
    Option.eq_none_iff_forall_ne_some.2 fun _ attached => input (isFlag_of_after? rfl attached)
  rw [read.eq_def]
  simp only [take, beq_iff_eq, output, apart, compile, artifact, alone, input, List.contains_iff_mem,
    Bool.false_eq_true, if_false, Bool.not_false, Bool.true_and]
  split_ifs <;> rfl

theorem read_eq_foldl (m : DriverMode) (args : List String) :
    m.read args = (itemsOf args).foldl take m := by
  fun_induction itemsOf args generalizing m with
  | case1 => rfl
  | case2 arg takes => exact read_last takes
  | case3 arg takes value rest ih => rw [read_of_takesValue takes, ih, List.foldl_cons]
  | case4 arg rest alone flag ih => rw [read_of_isFlag alone flag, ih, List.foldl_cons]
  | case5 arg rest alone input ih => rw [read_of_input alone input, ih, List.foldl_cons]

end DriverMode

/-! ## Looking for files -/

/-- What a driver can ask for. -/
inductive Demand where
  | input (token : String)
  | library (spec : String)
  | libraryDirectory (dir : String)
  | includeDirectory (dir : String)
  /-- Something that is missing. -/
  | missing (p : Problem)
  deriving DecidableEq, Repr

/-- The flags for include directories. -/
def includeFlags : List String := ["-I", "-isystem", "-iquote", "-idirafter"]

/-- What an item asks for. -/
def Item.demand? : Item → Option Demand
  | pair flag value =>
    if flag ∈ includeFlags then some (.includeDirectory value)
    else if flag = "-L" then some (.libraryDirectory value)
    else if flag = "-l" then some (.library value)
    else none
  | lone flag =>
    if flag ∈ "-L" :: includeFlags then some (.missing (.missingDirectory flag))
    else if flag = "-l" then some (.missing .missingLibraryName)
    else none
  | switch arg =>
    ((Scan.attachedInclude? arg).map .includeDirectory).or
      (((Text.after? "-L" arg).map .libraryDirectory).or ((Text.after? "-l" arg).map .library))
  | input token => some (.input token)

namespace Scan

def meet (ctx : ScanContext) (s : Scan) : Demand → Scan
  | .input token => s.addInput ctx token none
  | .library spec => s.addLibrary ctx spec
  | .libraryDirectory dir => s.addLibraryDirectory ctx dir
  | .includeDirectory dir => s.addIncludeDirectory ctx dir
  | .missing p => s.report p

/-- What an item adds to a scan. -/
def take (ctx : ScanContext) (s : Scan) (item : Item) : Scan := item.demand?.elim s (s.meet ctx)

variable {ctx : ScanContext} {s : Scan} {arg value : String} {rest : List String}

/-- Flags whose values the scan passes over are none of those whose values it uses. -/
theorem unused_of_silent (silent : valueFlags.contains arg || arg == "-o") :
    arg ∉ includeFlags ∧ arg ≠ "-L" ∧ arg ≠ "-l" := by
  have all : ∀ flag ∈ "-o" :: valueFlags, flag ∉ includeFlags ∧ flag ≠ "-L" ∧ flag ≠ "-l" := by decide
  refine all arg ?_
  simpa [or_comm] using silent

theorem driver_of_takesValue (takes : takesValue arg) :
    driver ctx s (arg :: value :: rest) = driver ctx (s.take ctx (.pair arg value)) rest := by
  have include_iff : ["-I", "-isystem", "-iquote", "-idirafter"].contains arg ↔ arg ∈ includeFlags :=
    List.contains_iff_mem
  rw [driver.eq_def]
  simp only [take, Item.demand?, include_iff, beq_iff_eq]
  by_cases silent : valueFlags.contains arg || arg == "-o"
  · obtain ⟨notInclude, notLibraries, notLibrary⟩ := unused_of_silent silent
    simp only [silent, notInclude, notLibraries, notLibrary, if_true, if_false, Option.elim_none]
  · rw [if_neg silent]
    rcases (takesValue_iff.1 takes).resolve_left silent with used | used | used
    · simp only [include_iff.1 used, if_true, Option.elim_some, meet]
    · obtain rfl := eq_of_beq used
      rfl
    · obtain rfl := eq_of_beq used
      rfl

theorem driver_last (takes : takesValue arg) : driver ctx s [arg] = s.take ctx (.lone arg) := by
  have include_iff : ["-I", "-isystem", "-iquote", "-idirafter"].contains arg ↔ arg ∈ includeFlags :=
    List.contains_iff_mem
  rw [driver.eq_def]
  simp only [take, Item.demand?, include_iff, beq_iff_eq, List.mem_cons]
  by_cases silent : valueFlags.contains arg || arg == "-o"
  · obtain ⟨notInclude, notLibraries, notLibrary⟩ := unused_of_silent silent
    simp only [silent, notInclude, notLibraries, notLibrary, if_true, if_false, or_self, Option.elim_none]
  · rw [if_neg silent]
    rcases (takesValue_iff.1 takes).resolve_left silent with used | used | used
    · simp only [include_iff.1 used, or_true, if_true, Option.elim_some, meet]
    · obtain rfl := eq_of_beq used
      rfl
    · obtain rfl := eq_of_beq used
      rfl

theorem driver_of_isFlag (alone : ¬ takesValue arg) (flag : isFlag arg) :
    driver ctx s (arg :: rest) = driver ctx (s.take ctx (.switch arg)) rest := by
  obtain ⟨silent, notInclude, notLibraries, notLibrary⟩ : _ ∧ _ ∧ _ ∧ _ := by
    simpa only [takesValue_iff, not_or] using alone
  rw [driver.eq_def]
  simp only [take, Item.demand?, silent, notInclude, notLibraries, notLibrary, Bool.false_eq_true, if_false]
  by_cases openMP : arg == "-fopenmp"
  · obtain rfl := eq_of_beq openMP
    rfl
  · rw [if_neg openMP]
    cases attachedInclude? arg with
    | some dir => rfl
    | none =>
      cases Text.after? "-L" arg with
      | some dir => rfl
      | none =>
        cases Text.after? "-l" arg with
        | some spec => rfl
        | none => exact if_pos flag

theorem driver_of_input (alone : ¬ takesValue arg) (input : ¬ isFlag arg) :
    driver ctx s (arg :: rest) = driver ctx (s.take ctx (.input arg)) rest := by
  obtain ⟨silent, notInclude, notLibraries, notLibrary⟩ : _ ∧ _ ∧ _ ∧ _ := by
    simpa only [takesValue_iff, not_or] using alone
  have openMP : ¬ (arg == "-fopenmp") := fun same => input (eq_of_beq same ▸ rfl)
  have none (lookup : Option String) (flags : ∀ value, lookup = some value → isFlag arg) :
      lookup = none :=
    Option.eq_none_iff_forall_ne_some.2 fun value found => input (flags value found)
  have notAttached := none (attachedInclude? arg) fun _ => isFlag_of_attachedInclude?
  have notDirectory := none (Text.after? "-L" arg) fun _ => isFlag_of_after? rfl
  have notNamed := none (Text.after? "-l" arg) fun _ => isFlag_of_after? rfl
  rw [driver.eq_def]
  simp only [silent, notInclude, notLibraries, notLibrary, openMP, notAttached, notDirectory, notNamed,
    input, Bool.false_eq_true, if_false]
  rfl

theorem driver_eq_foldl (ctx : ScanContext) (s : Scan) (args : List String) :
    driver ctx s args = (itemsOf args).foldl (take ctx) s := by
  fun_induction itemsOf args generalizing s with
  | case1 => rfl
  | case2 arg takes => exact driver_last takes
  | case3 arg takes value rest ih => rw [driver_of_takesValue takes, ih, List.foldl_cons]
  | case4 arg rest alone flag ih => rw [driver_of_isFlag alone flag, ih, List.foldl_cons]
  | case5 arg rest alone input ih => rw [driver_of_input alone input, ih, List.foldl_cons]

theorem usesOpenMP_iff (args : List String) : usesOpenMP args ↔ Item.switch "-fopenmp" ∈ itemsOf args := by
  fun_induction usesOpenMP args with
  | case1 => simp [itemsOf]
  | case2 arg takes => simp [itemsOf_last takes]
  | case3 arg takes value rest ih => simp [itemsOf_of_takesValue takes, ih]
  | case4 arg rest alone ih =>
    by_cases flag : isFlag arg
    · rw [itemsOf_of_isFlag alone flag, List.mem_cons, Item.switch.injEq, Bool.or_eq_true, beq_iff_eq, ih,
        eq_comm]
    · have other : arg ≠ "-fopenmp" := by
        rintro rfl
        exact flag rfl
      simp [itemsOf_of_input alone flag, ih, other]

end Scan

end BuildAudit
