import BuildAudit.Proofs.ArgumentItems

/-!
# Scanners that agree

The output of a command and its inputs are found by two scanners, each with its own order of tests.
Here each scanner is followed with marks: `DriverMode.readMarked`, `Scan.driverMarked` and
`Scan.archiverMarked` give the result of the scanner together with the positions of the arguments that
it takes for inputs and for the output.  The marks show that the scanners read a command line the same way
(`scanners_agree`).
-/

namespace BuildAudit

/-- The positions of arguments that a scanner takes for something. -/
structure Marks where
  inputs : List Nat := []
  /-- An output that is attached to its flag is at the position of the flag. -/
  outputs : List Nat := []
  deriving DecidableEq, Repr

def Marks.input (position : Nat) (m : Marks) : Marks := { m with inputs := position :: m.inputs }

def Marks.output (position : Nat) (m : Marks) : Marks := { m with outputs := position :: m.outputs }

/-- `DriverMode.read` with marks on the tokens that are looked at because they are no flags, and on the
operands of output flags. -/
def DriverMode.readMarked (m : DriverMode) (position : Nat) : List String → DriverMode × Marks
  | [] => (m, {})
  | arg :: rest =>
    if arg == "-o" then
      match rest with
      | [] => ({ m with explicit := none }, {})
      | path :: rest =>
        (readMarked { m with explicit := some path } (position + 2) rest).map id (.output (position + 1))
    else
      match Text.after? "-o" arg with
      | some path =>
        (readMarked { m with explicit := some path } (position + 1) rest).map id (.output position)
      | none =>
        if arg == "-c" then readMarked { m with compileOnly := true } (position + 1) rest
        else if noArtifactFlags.contains arg then
          readMarked { m with noArtifact := true } (position + 1) rest
        else if takesValue arg then
          match rest with
          | [] => (m, {})
          | _ :: rest => readMarked m (position + 2) rest
        else if !isFlag arg then
          if m.firstSource.isNone && ArtifactType.ofInput arg == .source then
            (readMarked { m with firstSource := some arg } (position + 1) rest).map id (.input position)
          else (readMarked m (position + 1) rest).map id (.input position)
        else readMarked m (position + 1) rest

/-- `Scan.driver` with marks on the tokens that are added as inputs. -/
def Scan.driverMarked (ctx : ScanContext) (s : Scan) (position : Nat) : List String → Scan × Marks
  | [] => (s, {})
  | arg :: rest =>
    if valueFlags.contains arg || arg == "-o" then
      match rest with
      | [] => (s, {})
      | _ :: rest => driverMarked ctx s (position + 2) rest
    else if ["-I", "-isystem", "-iquote", "-idirafter"].contains arg then
      match rest with
      | [] => (s.report (.missingDirectory arg), {})
      | dir :: rest => driverMarked ctx (s.addIncludeDirectory ctx dir) (position + 2) rest
    else if arg == "-L" then
      match rest with
      | [] => (s.report (.missingDirectory arg), {})
      | dir :: rest => driverMarked ctx (s.addLibraryDirectory ctx dir) (position + 2) rest
    else if arg == "-l" then
      match rest with
      | [] => (s.report .missingLibraryName, {})
      | spec :: rest => driverMarked ctx (s.addLibrary ctx spec) (position + 2) rest
    else if arg == "-fopenmp" then driverMarked ctx s (position + 1) rest
    else
      match attachedInclude? arg with
      | some dir => driverMarked ctx (s.addIncludeDirectory ctx dir) (position + 1) rest
      | none =>
        match Text.after? "-L" arg with
        | some dir => driverMarked ctx (s.addLibraryDirectory ctx dir) (position + 1) rest
        | none =>
          match Text.after? "-l" arg with
          | some spec => driverMarked ctx (s.addLibrary ctx spec) (position + 1) rest
          | none =>
            if isFlag arg then driverMarked ctx s (position + 1) rest
            else (driverMarked ctx (s.addInput ctx arg none) (position + 1) rest).map id (.input position)

/-- `Scan.archiver` with marks on the archive that is passed over as the output, and on the tokens that
are added as inputs. -/
def Scan.archiverMarked (ctx : ScanContext) (s : Scan) (seenOutput : Bool) (position : Nat) :
    List String → Scan × Marks
  | [] => (s, {})
  | arg :: rest =>
    match ArtifactType.ofOutput arg with
    | .static =>
      if seenOutput then
        (archiverMarked ctx (s.addInput ctx arg (some .static)) true (position + 1) rest).map id
          (.input position)
      else (archiverMarked ctx s true (position + 1) rest).map id (.output position)
    | .object =>
      (archiverMarked ctx (s.addInput ctx arg (some .object)) seenOutput (position + 1) rest).map id
        (.input position)
    | _ => archiverMarked ctx s seenOutput (position + 1) rest

/-! ## Marks change nothing -/

variable {ctx : ScanContext} {s : Scan} {position : Nat}

theorem DriverMode.readMarked_fst (m : DriverMode) (position : Nat) (args : List String) :
    (m.readMarked position args).1 = m.read args := by
  fun_induction DriverMode.readMarked m position args <;> rw [DriverMode.read.eq_def] <;> simp_all

theorem Scan.driverMarked_fst (ctx : ScanContext) (s : Scan) (position : Nat) (args : List String) :
    (driverMarked ctx s position args).1 = driver ctx s args := by
  fun_induction Scan.driverMarked ctx s position args <;> rw [Scan.driver.eq_def] <;> simp_all

theorem Scan.archiverMarked_fst (ctx : ScanContext) (s : Scan) (seenOutput : Bool) (position : Nat)
    (args : List String) :
    (archiverMarked ctx s seenOutput position args).1 = archiver ctx s seenOutput args := by
  fun_induction Scan.archiverMarked ctx s seenOutput position args <;> simp_all [Scan.archiver]

/-! ## Positions of items -/

/-- The positions of the arguments that `select` picks from items, each by its place in the item. -/
def positionsOf (select : Item → Option Nat) (position : Nat) : List Item → List Nat
  | [] => []
  | item :: items =>
    ((select item).map (position + ·)).toList ++ positionsOf select (position + item.tokens.length) items

def Item.inputAt? : Item → Option Nat
  | .input _ => some 0
  | _ => none

/-- Where an item has the operand of an output flag. -/
def Item.operandAt? : Item → Option Nat
  | .pair flag _ => if flag = "-o" then some 1 else none
  | .switch arg => (Text.after? "-o" arg).map fun _ => 0
  | _ => none

theorem Item.operandAt?_lt {item : Item} {place : Nat} (h : item.operandAt? = some place) :
    place < item.tokens.length := by
  unfold operandAt? at h
  split at h
  · split at h <;> cases h
    exact Nat.lt_succ_self 1
  · obtain ⟨-, -, rfl⟩ := Option.map_eq_some_iff.1 h
    exact Nat.zero_lt_one
  · cases h

/-- What holds the operand of an output flag is no input. -/
theorem Item.inputAt?_of_operandAt? {item : Item} {place : Nat} (h : item.operandAt? = some place) :
    item.inputAt? = none := by
  cases item with
  | input => cases h
  | pair | lone | switch => rfl

theorem positionsOf_cons_of_none {select : Item → Option Nat} {item : Item} (h : select item = none)
    (items : List Item) :
    positionsOf select position (item :: items) = positionsOf select (position + item.tokens.length) items := by
  rw [positionsOf, h]
  rfl

theorem Item.operandAt?_switch {arg : String} (apart : Text.after? "-o" arg = none) :
    (switch arg).operandAt? = none := by
  rw [operandAt?, apart, Option.map_none]

theorem le_of_mem_positionsOf {select : Item → Option Nat} {items : List Item} {i : Nat}
    (h : i ∈ positionsOf select position items) : position ≤ i := by
  induction items generalizing position with
  | nil => cases h
  | cons item items ih =>
    rcases List.mem_append.1 h with h | h
    · obtain ⟨place, -, rfl⟩ : ∃ place, select item = some place ∧ position + place = i := by simpa using h
      omega
    · have later := ih h
      omega

/-- The operands of output flags are no inputs. -/
theorem not_mem_inputs_of_mem_operands {items : List Item} {i : Nat}
    (h : i ∈ positionsOf Item.operandAt? position items) : i ∉ positionsOf Item.inputAt? position items := by
  induction items generalizing position with
  | nil => cases h
  | cons item items ih =>
    rw [positionsOf, List.mem_append, not_or]
    rcases List.mem_append.1 h with h | h
    · -- the item has an operand, so it is no input, and what follows is further on
      obtain ⟨place, found, rfl⟩ : ∃ place, item.operandAt? = some place ∧ position + place = i := by
        simpa using h
      have inside := Item.operandAt?_lt found
      refine ⟨?_, fun later => absurd (le_of_mem_positionsOf later) (by omega)⟩
      rw [Item.inputAt?_of_operandAt? found]
      exact List.not_mem_nil
    · refine ⟨?_, ih h⟩
      have after := le_of_mem_positionsOf h
      cases item with
      | pair | lone | switch => exact List.not_mem_nil
      | input =>
        rw [Item.tokens, List.length_singleton] at after
        simp [Item.inputAt?]
        omega

/-- Looking for the output, a driver looks at the inputs among its items and takes the operands of output
flags. -/
theorem DriverMode.readMarked_snd (m : DriverMode) (position : Nat) (args : List String) :
    (m.readMarked position args).2 =
      ⟨positionsOf Item.inputAt? position (itemsOf args), positionsOf Item.operandAt? position (itemsOf args)⟩ := by
  fun_induction DriverMode.readMarked m position args
  case case1 => rfl
  case case2 output =>
    obtain rfl := eq_of_beq output
    rfl
  case case3 output path rest ih =>
    obtain rfl := eq_of_beq output
    rw [itemsOf_of_takesValue rfl, Prod.map_snd, ih]
    rfl
  case case4 arg rest other path attached ih =>
    have alone : ¬ takesValue arg := fun takes => by
      rw [(plain_of_takesValue takes (by simpa using other)).1] at attached
      cases attached
    have operand : (Item.switch arg).operandAt? = some 0 := by simp [Item.operandAt?, attached]
    rw [itemsOf_of_isFlag alone (isFlag_of_after? rfl attached), Prod.map_snd, ih, positionsOf, positionsOf,
      operand]
    rfl
  -- modes
  case case5 arg rest _ apart compile ih =>
    obtain rfl := eq_of_beq compile
    have alone : ¬ takesValue "-c" := by decide
    rw [itemsOf_of_isFlag alone rfl, positionsOf_cons_of_none rfl,
      positionsOf_cons_of_none (Item.operandAt?_switch apart)]
    exact ih
  case case6 arg rest other apart _ artifact ih =>
    have flags : ∀ flag ∈ noArtifactFlags, isFlag flag ∧ ¬ takesValue flag := by decide
    obtain ⟨flag, alone⟩ := flags arg (by simpa using artifact)
    rw [itemsOf_of_isFlag alone flag, positionsOf_cons_of_none rfl,
      positionsOf_cons_of_none (Item.operandAt?_switch apart)]
    exact ih
  -- other flags with a value
  case case7 arg _ _ _ _ takes =>
    rw [itemsOf_last takes]
    rfl
  case case8 arg other _ _ _ takes value rest ih =>
    have operand : (Item.pair arg value).operandAt? = none := if_neg (by simpa using other)
    rw [itemsOf_of_takesValue takes, positionsOf_cons_of_none rfl, positionsOf_cons_of_none operand]
    exact ih
  -- inputs, and flags without a value
  case case9 arg rest _ _ _ _ alone input _ ih | case10 arg rest _ _ _ _ alone input _ ih =>
    rw [itemsOf_of_input alone (by simpa using input), Prod.map_snd, ih]
    rfl
  case case11 arg rest _ apart _ _ alone flag ih =>
    rw [itemsOf_of_isFlag alone (by simpa using flag), positionsOf_cons_of_none rfl,
      positionsOf_cons_of_none (Item.operandAt?_switch apart)]
    exact ih

theorem Scan.driverMarked_snd (ctx : ScanContext) (s : Scan) (position : Nat) (args : List String) :
    (driverMarked ctx s position args).2 = ⟨positionsOf Item.inputAt? position (itemsOf args), []⟩ := by
  fun_induction Scan.driverMarked ctx s position args
  case case1 => rfl
  -- flags without their value
  case case2 | case4 | case6 | case8 =>
    rw [itemsOf_last (by simp only [takesValue_iff, *, true_or, or_true])]
    rfl
  -- flags with their value
  case case3 ih | case5 ih | case7 ih | case9 ih =>
    rw [itemsOf_of_takesValue (by simp only [takesValue_iff, *, true_or, or_true])]
    exact ih
  case case10 arg rest silent notInclude notLibraries notLibrary openMP ih =>
    have flag : isFlag arg := eq_of_beq openMP ▸ rfl
    rw [itemsOf_of_isFlag (not_takesValue silent notInclude notLibraries notLibrary) flag]
    exact ih
  -- flags with their value attached, and flags without one
  case case11 attached ih =>
    rw [itemsOf_of_isFlag (not_takesValue ‹_› ‹_› ‹_› ‹_›)
      (isFlag_of_attachedInclude? attached)]
    exact ih
  case case12 attached ih | case13 attached ih =>
    rw [itemsOf_of_isFlag (not_takesValue ‹_› ‹_› ‹_› ‹_›)
      (isFlag_of_after? rfl attached)]
    exact ih
  case case14 flag ih =>
    rw [itemsOf_of_isFlag (not_takesValue ‹_› ‹_› ‹_› ‹_›) flag]
    exact ih
  case case15 input ih =>
    rw [itemsOf_of_input (not_takesValue ‹_› ‹_› ‹_› ‹_›) input,
      Prod.map_snd, ih]
    rfl

/-! ## Archivers -/

/-- The position of the first archive among the arguments of an archiver. -/
def firstArchive? (position : Nat) (args : List String) : Option Nat :=
  (args.findIdx? (ArtifactType.ofOutput · == .static)).map (position + ·)

theorem firstArchive?_cons (position : Nat) (arg : String) (rest : List String) :
    firstArchive? position (arg :: rest) =
      if ArtifactType.ofOutput arg = .static then some position else firstArchive? (position + 1) rest := by
  unfold firstArchive?
  rw [List.findIdx?_cons]
  split_ifs with archive archive' archive'
  · rfl
  · exact absurd (eq_of_beq archive) archive'
  · exact absurd (beq_iff_eq.2 archive') archive
  · rw [Option.map_map]
    congr 1
    funext i
    simp only [Function.comp_apply]
    omega

/-- An archiver passes over the first archive, unless it has seen its output before. -/
theorem Scan.archiverMarked_outputs (ctx : ScanContext) (s : Scan) (seenOutput : Bool) (position : Nat)
    (args : List String) :
    (archiverMarked ctx s seenOutput position args).2.outputs =
      if seenOutput then [] else (firstArchive? position args).toList := by
  fun_induction Scan.archiverMarked ctx s seenOutput position args
  case case1 => simp [firstArchive?]
  case case2 ih => exact ih
  case case3 archive first ih =>
    simp only [Prod.map_snd, Marks.output, ih, first, firstArchive?_cons, archive]
    rfl
  case case4 object ih =>
    simp only [Prod.map_snd, Marks.input, ih, firstArchive?_cons, object]
    rfl
  case case5 other _ ih => simp only [ih, firstArchive?_cons, if_neg other]

/-- The argument at a position is an archive or an object. -/
def IsMemberAt (args : List String) (position i : Nat) : Prop :=
  ∃ k token, args[k]? = some token ∧ position + k = i ∧
    ArtifactType.ofOutput token ∈ [ArtifactType.static, .object]

theorem isMemberAt_cons {arg : String} {rest : List String} {position i : Nat} :
    IsMemberAt (arg :: rest) position i ↔
      (i = position ∧ ArtifactType.ofOutput arg ∈ [ArtifactType.static, .object]) ∨
        IsMemberAt rest (position + 1) i := by
  constructor
  · rintro ⟨k, token, found, rfl, told⟩
    cases k with
    | zero =>
      obtain rfl := Option.some.inj found
      exact .inl ⟨rfl, told⟩
    | succ k => exact .inr ⟨k, token, found, by omega, told⟩
  · rintro (⟨rfl, told⟩ | ⟨k, token, found, rfl, told⟩)
    · exact ⟨0, arg, rfl, rfl, told⟩
    · exact ⟨k + 1, token, found, by omega, told⟩

theorem IsMemberAt.lt {rest : List String} {position i : Nat} (h : IsMemberAt rest (position + 1) i) :
    position < i := by
  obtain ⟨k, -, -, rfl, -⟩ := h
  omega

/-- What an archiver passes over as the output is not before where it starts. -/
theorem Scan.not_mem_archiverMarked_outputs (ctx : ScanContext) (s : Scan) (seenOutput : Bool)
    (position : Nat) (args : List String) :
    position ∉ (archiverMarked ctx s seenOutput (position + 1) args).2.outputs := by
  rw [archiverMarked_outputs]
  split_ifs
  · exact List.not_mem_nil
  · simp [firstArchive?]
    omega

/-- An archiver adds every other archive and every object. -/
theorem Scan.mem_archiverMarked_inputs (ctx : ScanContext) (s : Scan) (seenOutput : Bool) (position : Nat)
    (args : List String) (i : Nat) :
    i ∈ (archiverMarked ctx s seenOutput position args).2.inputs ↔
      IsMemberAt args position i ∧ i ∉ (archiverMarked ctx s seenOutput position args).2.outputs := by
  fun_induction Scan.archiverMarked ctx s seenOutput position args
  case case1 =>
    simp [IsMemberAt]
  case case2 told ih | case4 told ih =>
    have other := not_mem_archiverMarked_outputs ctx
    simp only [Prod.map_snd, Marks.input, List.mem_cons, ih, isMemberAt_cons, told]
    grind
  case case3 told first ih =>
    simp only [Prod.map_snd, Marks.output, List.mem_cons, ih, isMemberAt_cons, told]
    have later {rest : List String} {position : Nat} (h : IsMemberAt rest (position + 1) i) := Nat.ne_of_gt h.lt
    grind
  case case5 arg rest notArchive notObject ih =>
    have told : ArtifactType.ofOutput arg ∉ [ArtifactType.static, .object] := by
      simpa using ⟨notArchive, notObject⟩
    rw [ih, isMemberAt_cons]
    simp only [told, and_false, false_or]

/-! ## What a driver writes -/

/-- What an output flag names; without an operand it names nothing. -/
def Item.outputName? : Item → Option (Option String)
  | .pair flag value => if flag = "-o" then some (some value) else none
  | .lone flag => if flag = "-o" then some none else none
  | .switch arg => (Text.after? "-o" arg).map some
  | .input _ => none

/-- What the last output flag names. -/
def outputName? (items : List Item) : Option String := (items.filterMap Item.outputName?).getLast?.getD none

def Item.input? : Item → Option String
  | .input token => some token
  | _ => none

/-- The tokens at the positions of inputs are the inputs. -/
theorem filterMap_positionsOf_inputs (before : List String) (items : List Item) :
    (positionsOf Item.inputAt? before.length items).filterMap
        ((before ++ items.flatMap Item.tokens)[·]?) = items.filterMap Item.input? := by
  induction items generalizing before with
  | nil => rfl
  | cons item items ih =>
    have later := ih (before ++ item.tokens)
    rw [List.length_append, List.append_assoc] at later
    rw [positionsOf, List.filterMap_append, List.flatMap_cons, later]
    cases item with
    | input token => simp [Item.inputAt?, Item.input?, Item.tokens]
    | pair | lone | switch => rfl

namespace DriverMode

variable (m : DriverMode) (item : Item) (items : List Item)

theorem take_explicit : (m.take item).explicit = item.outputName?.getD m.explicit := by
  cases item with
  | pair flag | lone flag =>
    simp only [take, Item.outputName?]
    split_ifs <;> rfl
  | switch arg =>
    simp only [take, Item.outputName?]
    rcases Text.after? "-o" arg with _ | path
    · dsimp only
      split_ifs <;> rfl
    · rfl
  | input =>
    simp only [take, Item.outputName?]
    split_ifs <;> rfl

theorem take_firstSource :
    (m.take item).firstSource = m.firstSource.or (item.input?.filter (ArtifactType.ofInput · == .source)) := by
  cases item with
  | pair flag | lone flag =>
    simp only [take, Item.input?, Option.filter_none, Option.or_none]
    split_ifs <;> rfl
  | switch arg =>
    simp only [take, Item.input?, Option.filter_none, Option.or_none]
    rcases Text.after? "-o" arg with _ | path
    · dsimp only
      split_ifs <;> rfl
    · rfl
  | input token =>
    rcases known : m.firstSource with _ | source <;>
      cases told : ArtifactType.ofInput token == .source <;>
        simp [take, Item.input?, Option.filter, known, told]

/-- Only `-c` and the flags without an artifact set a mode. -/
theorem take_modes (other : item ≠ .switch "-c") (artifact : ∀ flag ∈ noArtifactFlags, item ≠ .switch flag) :
    (m.take item).compileOnly = m.compileOnly ∧ (m.take item).noArtifact = m.noArtifact := by
  cases item with
  | pair flag | lone flag =>
    simp only [take]
    split_ifs <;> exact ⟨rfl, rfl⟩
  | switch arg =>
    have compile : arg ≠ "-c" := fun same => other (same ▸ rfl)
    have silent : arg ∉ noArtifactFlags := fun member => artifact arg member rfl
    simp only [take, if_neg compile, if_neg silent]
    split <;> exact ⟨rfl, rfl⟩
  | input =>
    simp only [take]
    split_ifs <;> exact ⟨rfl, rfl⟩

theorem explicit_foldl :
    (items.foldl take m).explicit = ((items.filterMap Item.outputName?).getLast?).getD m.explicit := by
  induction items generalizing m with
  | nil => rfl
  | cons item items ih =>
    rw [List.foldl_cons, ih, take_explicit, List.filterMap_cons]
    cases item.outputName? with
    | none => rfl
    | some name => rw [List.getLast?_cons, Option.getD_some, Option.getD_some]

theorem firstSource_foldl :
    (items.foldl take m).firstSource =
      m.firstSource.or ((items.filterMap Item.input?).find? (ArtifactType.ofInput · == .source)) := by
  induction items generalizing m with
  | nil => simp
  | cons item items ih =>
    rw [List.foldl_cons, ih, take_firstSource, List.filterMap_cons, Option.or_assoc]
    cases item.input? with
    | none => rfl
    | some token =>
      rw [Option.filter, List.find?_cons]
      cases ArtifactType.ofInput token == .source <;> rfl

/-- Among items without the flags that let nothing be written, `-c` is the mode. -/
theorem modes_foldl (artifact : ∀ flag ∈ noArtifactFlags, .switch flag ∉ items) :
    (items.foldl take m).compileOnly = (m.compileOnly || decide (.switch "-c" ∈ items)) ∧
      (items.foldl take m).noArtifact = m.noArtifact := by
  induction items generalizing m with
  | nil => simp
  | cons item items ih =>
    have here : ∀ flag ∈ noArtifactFlags, item ≠ .switch flag :=
      fun flag member same => artifact flag member (same ▸ List.mem_cons_self)
    obtain ⟨compile, silent⟩ :=
      ih (m.take item) fun flag member later => artifact flag member (List.mem_cons_of_mem item later)
    rw [List.foldl_cons, compile, silent]
    by_cases same : item = .switch "-c"
    · subst same
      have compiles : m.take (.switch "-c") = { m with compileOnly := true } := rfl
      simp [compiles]
    · obtain ⟨compile, silent⟩ := m.take_modes item same here
      simp [compile, silent, Ne.symm same]

end DriverMode

/-- With `-c`, and nothing that names an output or lets none be written, a driver writes an object for the
first of its inputs that is a source. -/
theorem driverOutput?_of_compileOnly {args : List String} (compile : .switch "-c" ∈ itemsOf args)
    (unnamed : outputName? (itemsOf args) = none)
    (artifact : ∀ flag ∈ noArtifactFlags, .switch flag ∉ itemsOf args) :
    driverOutput? args =
      ((((itemsOf args).filterMap Item.input?).find? (ArtifactType.ofInput · == .source)).bind
        Path.fileStem?).map (· ++ ".o") := by
  obtain ⟨compileOnly, noArtifact⟩ := DriverMode.modes_foldl {} (itemsOf args) artifact
  have explicit : ((itemsOf args).foldl DriverMode.take {}).explicit = none := by
    rw [DriverMode.explicit_foldl]
    exact unnamed
  rw [driverOutput?, DriverMode.read_eq_foldl, DriverMode.output?, noArtifact, explicit, compileOnly,
    DriverMode.firstSource_foldl]
  simp [compile]

/-- The two scanners of a driver take the same positions for tokens that are no flags, so what the one
takes for the operand of an output flag the other does not add as an input, and without such a flag the
name of an object stems from the first token that is added and is a source.  An archiver passes over
the very archive that it writes, and adds every other archive and every object. -/
theorem scanners_agree (ctx : ScanContext) (s : Scan) (m : DriverMode) (arguments : List String) :
    (let scanned := Scan.driverMarked ctx s 0 arguments
      let inferred := m.readMarked 0 arguments
      scanned.1 = Scan.driver ctx s arguments ∧ inferred.1 = m.read arguments ∧
      scanned.2.inputs = inferred.2.inputs ∧ (∀ i ∈ inferred.2.outputs, i ∉ scanned.2.inputs) ∧
      (.switch "-c" ∈ itemsOf arguments → outputName? (itemsOf arguments) = none →
        (∀ flag ∈ noArtifactFlags, .switch flag ∉ itemsOf arguments) →
        driverOutput? arguments =
          (((scanned.2.inputs.filterMap (arguments[·]?)).find? (ArtifactType.ofInput · == .source)).bind
            Path.fileStem?).map (· ++ ".o"))) ∧
    let scanned := Scan.archiverMarked ctx s false 0 arguments
    scanned.1 = Scan.archiver ctx s false arguments ∧ scanned.2.outputs.length ≤ 1 ∧
      archiverOutput? arguments = scanned.2.outputs.head?.bind (arguments[·]?) ∧
      ∀ (i : Nat) token, arguments[i]? = some token →
        (i ∈ scanned.2.inputs ↔
          ArtifactType.ofOutput token ∈ [ArtifactType.static, .object] ∧ i ∉ scanned.2.outputs) := by
  refine ⟨⟨Scan.driverMarked_fst .., m.readMarked_fst .., ?_, ?_, ?_⟩, Scan.archiverMarked_fst .., ?_, ?_, ?_⟩
  · rw [Scan.driverMarked_snd, DriverMode.readMarked_snd]
  · rw [Scan.driverMarked_snd, DriverMode.readMarked_snd]
    exact fun i => not_mem_inputs_of_mem_operands
  · intro compile unnamed artifact
    have tokens := filterMap_positionsOf_inputs [] (itemsOf arguments)
    rw [flatMap_tokens_itemsOf] at tokens
    rw [Scan.driverMarked_snd, driverOutput?_of_compileOnly compile unnamed artifact, ← tokens]
    rfl
  · rw [Scan.archiverMarked_outputs]
    cases firstArchive? 0 arguments <;> simp
  · have first : firstArchive? 0 arguments = arguments.findIdx? (ArtifactType.ofOutput · == .static) := by
      simp [firstArchive?]
    rw [Scan.archiverMarked_outputs, if_neg Bool.false_ne_true, first, Option.head?_toList]
    exact List.find?_eq_bind_findIdx?_getElem?
  · intro i token found
    rw [Scan.mem_archiverMarked_inputs]
    refine and_congr_left fun _ => ⟨?_, fun told => ⟨i, token, found, Nat.zero_add i, told⟩⟩
    rintro ⟨k, token', found', rfl, told⟩
    rw [Nat.zero_add, found'] at found
    exact Option.some.inj found ▸ told

/-- Flags that are values of others, an output flag whose operand looks like a flag, and one that undoes
them for lack of an operand. -/
def trickyArguments : List String :=
  ["-o", "-c", "-I", "-o", "-c", "-include", "a.c", "-oold.o", "z.o", "src/b.c", "", "-o"]

/-- The inputs are a member, a source and an empty word, and the source names the output. -/
theorem scanners_agree_tricky (ctx : ScanContext) :
    (Scan.driverMarked ctx {} 0 trickyArguments).2.inputs = [8, 9, 10] ∧
      (DriverMode.readMarked {} 0 trickyArguments).2 = ⟨[8, 9, 10], [1, 7]⟩ ∧
      driverOutput? trickyArguments = some "b.o" := by
  obtain ⟨⟨-, -, same, -, written⟩, -⟩ := scanners_agree ctx {} {} trickyArguments
  have marks : (DriverMode.readMarked {} 0 trickyArguments).2 = ⟨[8, 9, 10], [1, 7]⟩ := by decide +kernel
  have inputs := same.trans (congrArg Marks.inputs marks)
  refine ⟨inputs, marks, ?_⟩
  rw [written (by decide +kernel) (by decide +kernel) (by decide +kernel), inputs]
  decide +kernel

end BuildAudit
