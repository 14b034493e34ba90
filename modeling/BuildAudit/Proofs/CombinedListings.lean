import BuildAudit.Proofs.LineGrammar

/-!
# Combined symbol tables

A listing is read line by line, and each entry is kept where it appears first
(`distinct_pairwise_idxOf`).  A line feed between two listings splits them into the lines of the one and
of the other (`listed_append`), so that the entries of the second that are new follow those of the
first.  What was listed before adds nothing, and neither does a line that differs in the version of its
symbol alone (`entryOf?_congr`).
-/

namespace BuildAudit

/-! ## Lists without repeats -/

section Distinct

variable {α : Type} [DecidableEq α] {xs ys zs : List α}

theorem distinctFrom_append_seen (seen seen' xs : List α) :
    distinctFrom (seen ++ seen') xs = (distinctFrom seen' xs).filter (· ∉ seen) := by
  induction xs generalizing seen' with
  | nil => rfl
  | cons x xs ih =>
    have moved : distinctFrom (x :: (seen ++ seen')) xs =
        (distinctFrom (x :: seen') xs).filter (· ∉ seen) := by
      rw [← ih]
      exact distinctFrom_congr fun y => by simp [or_left_comm]
    by_cases before : x ∈ seen'
    · rw [distinctFrom, if_pos (List.mem_append_right _ before), distinctFrom, if_pos before, ih]
    · rw [distinctFrom, distinctFrom, if_neg before, List.filter_cons, ← moved]
      by_cases known : x ∈ seen
      · rw [if_pos (List.mem_append_left _ known), if_neg (by simpa using known)]
        exact distinctFrom_congr fun y => by
          rw [List.mem_cons, or_iff_right_of_imp]
          rintro rfl
          exact List.mem_append_left _ known
      · rw [if_neg (by simp [known, before]), if_pos (by simpa using known)]

/-- Of a second list, the elements are left that the first does not have. -/
theorem distinct_append (xs ys : List α) :
    distinct (xs ++ ys) = distinct xs ++ (distinct ys).filter (· ∉ distinct xs) := by
  have seen := distinctFrom_append_seen (distinct xs) [] ys
  rw [List.append_nil] at seen
  rw [distinct, distinctFrom_append, List.nil_append]
  exact congrArg (distinct xs ++ ·) seen

/-- Elements that the list has already add nothing. -/
theorem distinct_append_of_subset (known : ys ⊆ xs) (zs : List α) :
    distinct (xs ++ ys ++ zs) = distinct (xs ++ zs) := by
  have nothing : distinct (xs ++ ys) = distinct xs := by
    rw [distinct_append, List.filter_eq_nil_iff.2 (by simpa using fun y hy => known hy), List.append_nil]
  rw [distinct_append (xs ++ ys), nothing, ← distinct_append]

/-- The elements stand in the order in which they appear first. -/
theorem distinct_pairwise_idxOf (xs : List α) :
    (distinct xs).Pairwise fun x y => xs.idxOf x < xs.idxOf y := by
  induction xs using List.reverseRecOn with
  | nil => exact .nil
  | append_singleton xs x ih =>
    have same {y : α} (hy : y ∈ xs) : (xs ++ [x]).idxOf y = xs.idxOf y := List.idxOf_append_of_mem hy
    rw [distinct_append, List.pairwise_append]
    refine ⟨ih.imp_of_mem fun hy hz before => ?_,
      (List.pairwise_singleton _ x).sublist List.filter_sublist, ?_⟩
    · rwa [same (mem_distinct.1 hy), same (mem_distinct.1 hz)]
    · intro y hy z hz
      have inside := mem_distinct.1 hy
      obtain ⟨last, new⟩ := List.mem_filter.1 hz
      obtain rfl : z = x := by simpa using last
      have outside : z ∉ xs := by simpa using new
      rw [same inside, List.idxOf_append_of_notMem outside]
      exact Nat.lt_add_right _ (List.idxOf_lt_length_of_mem inside)

end Distinct

namespace SymbolTable

open Text (Padded Solid isBlank)

variable {line line' raw raw' : List Char} {fields fields' : List (List Char)} {code : Char}
  {size : Option Nat}

/-! ## Lines -/

/-- The entries that the lines of a listing have, repeats included. -/
def listed (listing : String) : List SymbolEntry :=
  (Text.lines listing).filterMap fun line => entryOf? line.toList

theorem entryOf?_dropReturn (line : List Char) : entryOf? (Text.dropReturn line) = entryOf? line := by
  have blank : isBlank '\r' := by decide
  unfold Text.dropReturn
  split
  case h_1 r back =>
    obtain rfl : line = r.reverse ++ ['\r'] := by rw [← List.reverse_reverse line, back, List.reverse_cons]
    have same : Text.fieldsOf (r.reverse ++ ['\r']) = Text.fieldsOf r.reverse := by
      rw [Text.fieldsOf_append_blank blank]
      exact List.append_nil _
    rw [entryOf?, entryOf?, same]
  case h_2 => rfl

/-- Neither how the ends of lines are marked matters, nor whether the last one is. -/
theorem listed_eq (listing : String) :
    listed listing = (listing.toList.splitOn '\n').filterMap entryOf? := by
  obtain ⟨init, last, pieces⟩ : ∃ init last, listing.toList.splitOn '\n' = init ++ [last] :=
    ⟨_, _, (List.dropLast_append_getLast (List.splitOnP_ne_nil _ listing.toList)).symm⟩
  have unfinished : [last].filterMap entryOf? = ([last].filter (· ≠ [])).filterMap entryOf? := by
    rcases last with _ | ⟨c, last⟩ <;> rfl
  have lines : listed listing = (Text.linesOf listing.toList).filterMap entryOf? := by
    simp [listed, Text.lines, List.filterMap_map]
  rw [lines, Text.linesOf, pieces, List.filterMap_append, List.filterMap_append, unfinished]
  simp [List.filterMap_map, entryOf?_dropReturn]

/-- A line feed keeps the lines before it from those behind it. -/
theorem listed_append (s t : String) : listed (s ++ "\n" ++ t) = listed s ++ listed t := by
  have feed : "\n".toList = ['\n'] := rfl
  simp only [listed_eq, String.toList_append, feed, List.append_assoc, List.singleton_append]
  rw [Text.splitOn_feed, List.filterMap_append]

theorem listed_line {line : List Char} (oneLine : '\n' ∉ line) :
    listed (String.ofList line) = (entryOf? line).toList := by
  rw [listed_eq, String.toList_ofList, List.splitOn_eq_singleton oneLine]
  cases h : entryOf? line <;> simp [h]

theorem entriesOf_eq (listing : String) : entriesOf listing = distinct (listed listing) := by
  rw [entriesOf, listed, Text.lines, List.filterMap_map]
  simp

/-! ## Listings -/

theorem mem_entriesOf_iff {s : String} {e : SymbolEntry} : e ∈ entriesOf s ↔ e ∈ listed s := by
  rw [entriesOf_eq, mem_distinct]

/-- The entries of the second listing that are new follow those of the first. -/
theorem entriesOf_append (s t : String) :
    entriesOf (s ++ "\n" ++ t) = entriesOf s ++ (entriesOf t).filter (· ∉ entriesOf s) := by
  simp only [entriesOf_eq, listed_append, distinct_append]

/-- What has been listed adds nothing, wherever it is listed again. -/
theorem entriesOf_append_of_subset {s t : String} (known : listed t ⊆ listed s) (u : String) :
    entriesOf (s ++ "\n" ++ t ++ "\n" ++ u) = entriesOf (s ++ "\n" ++ u) := by
  simp only [entriesOf_eq, listed_append]
  exact distinct_append_of_subset known (listed u)

/-! ## Versions -/

/-- Lines in the layouts of the grammar list the same entry if they agree in code and size and their
names agree up to the version. -/
theorem entryOf?_congr (padded : Padded fields line) (padded' : Padded fields' line')
    (solid : ∀ field ∈ fields, Solid field) (solid' : ∀ field ∈ fields', Solid field)
    (layout : Layout code raw size fields) (layout' : Layout code raw' size fields')
    (same : baseName raw = baseName raw') : entryOf? line = entryOf? line' := by
  obtain ⟨field, read, written⟩ := layout_iff.1 layout
  obtain ⟨field', read', written'⟩ := layout_iff.1 layout'
  have sizes : field.bind sizeOf? = field'.bind sizeOf? := by
    rw [bind_sizeOf?, bind_sizeOf?, ← written, ← written']
  simp only [entryOf?, padded.fieldsOf_eq solid, padded'.fieldsOf_eq solid', read, read', same, sizes]

/-- The line lists the symbol with its code and its size, under any version or none. -/
structure ListsSymbol (line : String) (name : List Char) (code : Char) (size : Option Nat) : Prop where
  oneLine : '\n' ∉ line.toList
  named : name ≠ [] ∧ ∀ c ∈ name, NameChar c
  coded : isBlank code = false
  versioned : ∃ fields suffix, IsVersion suffix ∧ Layout code (name ++ suffix) size fields ∧
    Padded fields line.toList

/-- The versions under which a symbol is listed make no difference. -/
theorem ListsSymbol.entryOf?_eq {line line' : String} {name : List Char} (h : ListsSymbol line name code size)
    (h' : ListsSymbol line' name code size) : entryOf? line.toList = entryOf? line'.toList := by
  obtain ⟨fields, suffix, version, layout, padded⟩ := h.versioned
  obtain ⟨fields', suffix', version', layout', padded'⟩ := h'.versioned
  have solid {suffix : List Char} (version : IsVersion suffix) : Solid (name ++ suffix) := by
    refine ⟨by simp [h.named.1], fun c hc => ?_⟩
    exact (List.mem_append.1 hc).elim (fun hc => isBlank_of_nameChar (h.named.2 c hc)) (version.blankless c)
  refine entryOf?_congr padded padded' (layout.solid h.coded (solid version))
    (layout'.solid h.coded (solid version')) layout layout' ?_
  rw [baseName_append h.named.2 version.marked, baseName_append h.named.2 version'.marked]

theorem ListsSymbol.listed_eq {line line' : String} {name : List Char} (h : ListsSymbol line name code size)
    (h' : ListsSymbol line' name code size) : listed line = listed line' := by
  rw [← String.ofList_toList (s := line), ← String.ofList_toList (s := line'), listed_line h.oneLine,
    listed_line h'.oneLine, h.entryOf?_eq h']

/-- Listings combine as sets whose elements keep the order in which they appear first.  A member of an
archive that is listed once more adds nothing, and neither does a symbol that is listed under several
versions with the same code and size. -/
theorem entriesOf_combined (s : String) :
    ((entriesOf s).Nodup ∧ (∀ e, e ∈ entriesOf s ↔ e ∈ listed s) ∧
      (entriesOf s).Pairwise fun e f => (listed s).idxOf e < (listed s).idxOf f) ∧
    (∀ t, entriesOf (s ++ "\n" ++ t) = entriesOf s ++ (entriesOf t).filter (· ∉ entriesOf s)) ∧
    (∀ member between after,
      entriesOf (s ++ "\n" ++ member ++ "\n" ++ between ++ "\n" ++ member ++ "\n" ++ after) =
        entriesOf (s ++ "\n" ++ member ++ "\n" ++ between ++ "\n" ++ after)) ∧
    ∀ name code size line line' between after, ListsSymbol line name code size →
      ListsSymbol line' name code size →
      entriesOf (s ++ "\n" ++ line ++ "\n" ++ between ++ "\n" ++ line' ++ "\n" ++ after) =
        entriesOf (s ++ "\n" ++ line ++ "\n" ++ between ++ "\n" ++ after) := by
  have again {first second : String} (same : listed first = listed second) (between after : String) :
      entriesOf (s ++ "\n" ++ first ++ "\n" ++ between ++ "\n" ++ second ++ "\n" ++ after) =
        entriesOf (s ++ "\n" ++ first ++ "\n" ++ between ++ "\n" ++ after) := by
    refine entriesOf_append_of_subset ?_ after
    simp only [listed_append, same]
    exact fun e he => List.mem_append_left _ (List.mem_append_right _ he)
  refine ⟨⟨?_, fun e => mem_entriesOf_iff, ?_⟩, entriesOf_append s, fun member => again rfl, ?_⟩
  · exact nodup_distinct _
  · rw [entriesOf_eq]
    exact distinct_pairwise_idxOf (listed s)
  · exact fun name code size line line' between after h h' => again (h.listed_eq h') between after

/-- A needed symbol under two versions, on lines that are laid out differently. -/
theorem entriesOf_combined_versions :
    let line := "                 U puts@GLIBC_2.2.5"
    let line' := "U puts@@GLIBC_2.34\r"
    (ListsSymbol line "puts".toList 'U' none ∧ ListsSymbol line' "puts".toList 'U' none) ∧
      entriesOf ("liba.a[a.o]:" ++ "\n" ++ line ++ "\n" ++ "" ++ "\n" ++ line' ++ "\n" ++
        "0000000000000000 T main") = [⟨"puts", 'U', none⟩, ⟨"main", 'T', none⟩] := by
  intro line line'
  have lists (line suffix : String) (oneLine : '\n' ∉ line.toList) (version : IsVersion suffix.toList)
      (fields : Text.fieldsOf line.toList = [['U'], "puts".toList ++ suffix.toList]) :
      ListsSymbol line "puts".toList 'U' none :=
    ⟨oneLine, ⟨by decide, by simp [NameChar]⟩, by decide, _, _, version, .short,
      (Text.fieldsOf_eq_iff.1 fields).1⟩
  have first := lists line "@GLIBC_2.2.5" (by decide) ⟨by simp, by simp [isBlank]⟩ (by decide)
  have second := lists line' "@@GLIBC_2.34" (by decide) ⟨by simp, by simp [isBlank]⟩ (by decide)
  refine ⟨⟨first, second⟩, ?_⟩
  obtain ⟨-, -, -, versions⟩ := entriesOf_combined "liba.a[a.o]:"
  rw [versions _ _ _ _ _ _ _ first second]
  decide +kernel

end SymbolTable

end BuildAudit
