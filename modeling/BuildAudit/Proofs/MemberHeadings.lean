import BuildAudit.Proofs.CombinedListings

/-!
# Headings in listings of archives

A listing of an archive has a line before the symbols of each member, which nothing but its shape tells
from a line that lists a symbol.  What follows a name is cut off it, so the colon at the end makes no
difference, and a heading is read as an entry if and only if the text before its last marks is
(`SymbolTable.Heading.entryOf?_line`).  No heading without blanks is, but one such as `T main:` is.
-/

namespace BuildAudit

open Text (Solid isBlank)

namespace SymbolTable

variable {e : SymbolEntry}

section Lines

variable {line raw mark : List Char} {front : List (List Char)}

/-! ## The last field -/

/-- The layouts do not look into the name. -/
theorem layoutOf?_concat (front : List (List Char)) (raw : List Char) :
    layoutOf? (front ++ [raw]) = (layoutOf? (front ++ [[]])).map fun read => (read.1, read.2.1, raw) := by
  rcases front with _ | ⟨a, _ | ⟨b, _ | ⟨c, _ | ⟨d, rest⟩⟩⟩⟩
  · rfl
  · rfl
  · cases h : isHex a <;> simp [layoutOf?, h]
  · cases h : isHex a <;> cases h' : isHex b <;> simp [layoutOf?, h, h']
  · rcases rest with _ | ⟨f, rest⟩ <;> rfl

/-- Of the last field, only the name in it counts. -/
theorem entryOf?_concat_iff (fields : Text.fieldsOf line = front ++ [raw]) : entryOf? line = some e ↔
    (∃ field rest, layoutOf? (front ++ [[]]) = some (field, [e.code], rest) ∧ e.size = field.bind sizeOf?) ∧
      e.name.toList = baseName raw ∧ e.name ≠ "" ∧ isNoise e.name = false := by
  rw [entryOf?_eq_some_iff, fields, layoutOf?_concat]
  simp only [Option.map_eq_some_iff, Prod.exists, Prod.mk.injEq]
  constructor
  · rintro ⟨_, _, ⟨field, _, rest, layout, rfl, rfl, rfl⟩, base, nonempty, useful, size⟩
    exact ⟨⟨field, rest, layout, size⟩, base, nonempty, useful⟩
  · rintro ⟨⟨field, rest, layout, size⟩, base, nonempty, useful⟩
    exact ⟨field, raw, ⟨field, [e.code], rest, layout, rfl, rfl, rfl⟩, base, nonempty, useful, size⟩

/-- A mark behind the last field ends its name and changes nothing else; behind a blank, it is a field
without a name. -/
theorem entryOf?_append_mark (solid : Solid mark) (nameless : baseName mark = []) (cs : List Char) :
    entryOf? (cs ++ mark) = some e ↔ (∃ c ∈ cs.getLast?, isBlank c = false) ∧ entryOf? cs = some e := by
  obtain ⟨front, tail, rfl, before, blankless⟩ := Text.exists_tail cs
  rcases tail.eq_nil_or_concat' with rfl | ⟨init, c, rfl⟩
  · rw [List.append_nil, entryOf?_concat_iff (Text.fieldsOf_tail before solid), nameless]
    refine iff_of_false ?_ ?_
    · rintro ⟨-, base, nonempty, -⟩
      exact nonempty (by simpa using base)
    · rintro ⟨⟨c, last, solid⟩, -⟩
      have := before c last
      simp [solid] at this
  · have run : Solid (init ++ [c]) := ⟨by simp, blankless⟩
    have marked : Solid (init ++ [c] ++ mark) := by
      refine ⟨by simp, fun d hd => ?_⟩
      exact (List.mem_append.1 hd).elim (blankless d) (solid.2 d)
    have same : baseName (init ++ [c] ++ mark) = baseName (init ++ [c]) := by
      rw [baseName] at nameless ⊢
      rw [List.takeWhile_append, nameless, List.append_nil]
      split
      · rename_i all
        exact ((List.takeWhile_prefix _).eq_of_length all).symm
      · rfl
    have ends : ∃ d ∈ (front ++ (init ++ [c])).getLast?, isBlank d = false :=
      ⟨c, by simp [← List.append_assoc], blankless c (by simp)⟩
    rw [List.append_assoc, entryOf?_concat_iff (Text.fieldsOf_tail before marked), same,
      entryOf?_concat_iff (Text.fieldsOf_tail before run), and_iff_right ends]

/-! ## Lines that are never read -/

/-- A line with one field at most lists nothing. -/
theorem entryOf?_of_blankless (blankless : ∀ c ∈ line, isBlank c = false) : entryOf? line = none := by
  by_cases empty : line = []
  · rw [empty]
    rfl
  · have solid : Solid line := ⟨empty, blankless⟩
    rw [entryOf?, solid.fieldsOf_eq]
    rfl

/-- A line that begins with an absolute path lists nothing, unless a blank follows the slash: a path is no
numeral, and it is too long for a code. -/
theorem entryOf?_of_absolute {c : Char} {rest : List Char} (solid : isBlank c = false) :
    entryOf? ('/' :: c :: rest) = none := by
  obtain ⟨fields, padded, solids⟩ := Text.exists_padded ('/' :: c :: rest)
  obtain ⟨field, behind, later, rfl, line, apart, -⟩ :=
    padded.exists_of_head (by decide) fun field hfield => (solids field hfield).1
  obtain ⟨more, rfl⟩ : ∃ more, field = '/' :: c :: more := by
    rcases field with _ | ⟨d, _ | ⟨d', more⟩⟩
    · exact absurd rfl (solids [] List.mem_cons_self).1
    · obtain ⟨rfl, rfl⟩ : '/' = d ∧ c :: rest = behind := by simpa using line
      have := apart c rfl
      simp [solid] at this
    · obtain ⟨rfl, rfl, -⟩ : '/' = d ∧ c = d' ∧ rest = more ++ behind := by simpa using line
      exact ⟨more, rfl⟩
  have notHex : isHex ('/' :: c :: more) = false := by
    have slash : Text.isDigitIn 16 '/' = false := by decide
    simp [isHex, slash]
  rw [entryOf?, padded.fieldsOf_eq solids]
  rcases later with _ | ⟨a, _ | ⟨b, _ | ⟨d, _ | ⟨f, later⟩⟩⟩⟩ <;> simp [layoutOf?, notHex]

end Lines

/-! ## Headings -/

/-- What stands before the symbols of a member: its own name, or that of the archive with the member in
brackets. -/
inductive Heading where
  | own (member : List Char)
  | bracketed (archive member : List Char)

namespace Heading

/-- The heading as a line. -/
def line : Heading → List Char
  | own member => member ++ [':']
  | bracketed archive member => archive ++ '[' :: member ++ [']', ':']

/-- The heading without the marks at its end. -/
def stem : Heading → List Char
  | own member => member
  | bracketed archive member => archive ++ '[' :: member

/-- The heading passes for a line with this entry: without the marks it is such a line, and no blank keeps
the marks from the name. -/
def PassesFor (h : Heading) (e : SymbolEntry) : Prop :=
  (∃ c ∈ h.stem.getLast?, isBlank c = false) ∧ ∃ fields raw size, Lists h.stem e fields raw size

/-- The marks at the end of a heading make no difference, unless they stand alone. -/
theorem entryOf?_line (h : Heading) (e : SymbolEntry) : entryOf? h.line = some e ↔ h.PassesFor e := by
  have colon : Solid [':'] := ⟨by simp, by simp [isBlank]⟩
  have closing : Solid [']', ':'] := ⟨by simp, by simp [isBlank]⟩
  rw [PassesFor, ← entryOf?_iff_lists]
  cases h with
  | own member => exact entryOf?_append_mark colon rfl member
  | bracketed archive member => exact entryOf?_append_mark closing rfl _

theorem entryOf?_line_eq_none_iff (h : Heading) : entryOf? h.line = none ↔ ∀ e, ¬ h.PassesFor e := by
  rw [Option.eq_none_iff_forall_ne_some]
  exact forall_congr' fun e => not_congr (h.entryOf?_line e)

end Heading

/-! ## Listings with headings -/

/-- The lines are those of a table with headings anywhere between them. -/
inductive Headed : List Heading → List (List Char) → List (List Char) → Prop
  | done : Headed [] [] []
  | line {headings : List Heading} {table lines : List (List Char)} (line : List Char) :
      Headed headings table lines → Headed headings (line :: table) (line :: lines)
  | heading {headings : List Heading} {table lines : List (List Char)} (h : Heading) :
      Headed headings table lines → Headed (h :: headings) table (h.line :: lines)

namespace Headed

variable {headings : List Heading} {table lines : List (List Char)}

/-- Lines of the table and headings are read each on its own. -/
theorem mem_filterMap_iff (headed : Headed headings table lines) :
    e ∈ lines.filterMap entryOf? ↔ e ∈ table.filterMap entryOf? ∨ ∃ h ∈ headings, h.PassesFor e := by
  induction headed with
  | done => simp
  | line line _ ih =>
    cases read : entryOf? line <;> simp [read, ih, or_assoc]
  | heading h _ ih =>
    have here := h.entryOf?_line e
    cases read : entryOf? h.line <;>
      simp [read, ih, or_left_comm, ← here, eq_comm]

theorem filterMap_eq (headed : Headed headings table lines) (silent : ∀ h ∈ headings, ∀ e, ¬ h.PassesFor e) :
    lines.filterMap entryOf? = table.filterMap entryOf? := by
  induction headed with
  | done => rfl
  | line line _ ih => rw [List.filterMap_cons, List.filterMap_cons, ih silent]
  | heading h _ ih =>
    obtain ⟨first, others⟩ := List.forall_mem_cons.1 silent
    rw [List.filterMap_cons, h.entryOf?_line_eq_none_iff.2 first, ih others]

end Headed

/-- Headings between the lines of a table add what they pass for, and so nothing at all if they pass for nothing.
A heading is read as an entry if and only if it passes for a line of the table: never if it holds no blank, and
never if it begins with an absolute path, unless a blank follows the slash. -/
theorem headings_exact {headings : List Heading} {table listing : String}
    (headed : Headed headings (table.toList.splitOn '\n') (listing.toList.splitOn '\n')) :
    (∀ e, e ∈ entriesOf listing ↔ e ∈ entriesOf table ∨ ∃ h ∈ headings, h.PassesFor e) ∧
    ((∀ h ∈ headings, ∀ e, ¬ h.PassesFor e) → entriesOf listing = entriesOf table) ∧
    ∀ h : Heading, (∀ e, entryOf? h.line = some e ↔ h.PassesFor e) ∧
      ((∀ c ∈ h.stem, isBlank c = false) → entryOf? h.line = none) ∧
      ∀ c rest, h.stem = '/' :: c :: rest → isBlank c = false → entryOf? h.line = none := by
  refine ⟨fun e => ?_, fun silent => ?_, fun h => ⟨h.entryOf?_line, ?_⟩⟩
  · rw [mem_entriesOf_iff, mem_entriesOf_iff, listed_eq, listed_eq, headed.mem_filterMap_iff]
  · rw [entriesOf_eq, entriesOf_eq, listed_eq, listed_eq, headed.filterMap_eq silent]
  · have unread (nothing : entryOf? h.stem = none) : entryOf? h.line = none := by
      refine h.entryOf?_line_eq_none_iff.2 fun e passes => ?_
      rw [entryOf?_iff_lists.2 passes.2] at nothing
      cases nothing
    exact ⟨fun blankless => unread (entryOf?_of_blankless blankless),
      fun c rest begins solid => unread (by rw [begins, entryOf?_of_absolute solid])⟩

/-- Headings with blanks in them that pass for nothing: of an object with its own name, and of a member in
brackets that would pass for a symbol alone. -/
theorem headings_exact_silent :
    let own : Heading := .own "my tool.o".toList
    let bracketed : Heading := .bracketed "/libm.a".toList "T run".toList
    let table := "0000000000000000 T run\n"
    let listing := "my tool.o:\n0000000000000000 T run\n/libm.a[T run]:\n"
    (Headed [own, bracketed] (table.toList.splitOn '\n') (listing.toList.splitOn '\n') ∧
      (∀ h ∈ [own, bracketed], ∀ e, ¬ h.PassesFor e) ∧
      (∀ c ∈ (Heading.own "main.o".toList).stem, isBlank c = false) ∧
      bracketed.stem = '/' :: 'l' :: "ibm.a[T run".toList ∧ isBlank 'l' = false) ∧
    entriesOf listing = entriesOf table ∧ entryOf? (Heading.own "main.o".toList).line = none ∧
      entryOf? bracketed.line = none := by
  intro own bracketed table listing
  have headed : Headed [own, bracketed] (table.toList.splitOn '\n') (listing.toList.splitOn '\n') := by
    have pieces : table.toList.splitOn '\n' = ["0000000000000000 T run".toList, []] := by decide
    have pieces' : listing.toList.splitOn '\n' =
        [own.line, "0000000000000000 T run".toList, bracketed.line, []] := by decide
    rw [pieces, pieces']
    exact .heading own (.line _ (.heading bracketed (.line _ .done)))
  obtain ⟨-, unchanged, alone⟩ := headings_exact headed
  have plain : ∀ c ∈ (Heading.own "main.o".toList).stem, isBlank c = false := by simp [Heading.stem, isBlank]
  have begins : bracketed.stem = '/' :: 'l' :: "ibm.a[T run".toList := by decide
  have unread : entryOf? bracketed.line = none := (alone bracketed).2.2 'l' _ begins (by decide)
  have silent : ∀ h ∈ [own, bracketed], ∀ e, ¬ h.PassesFor e := by
    have named : entryOf? own.line = none := by decide
    simpa using ⟨own.entryOf?_line_eq_none_iff.1 named, bracketed.entryOf?_line_eq_none_iff.1 unread⟩
  exact ⟨⟨headed, silent, plain, begins, by decide⟩, unchanged silent, (alone _).2.1 plain, unread⟩

/-- The heading of a member with the name `T main` is read as a symbol. -/
theorem heading_misread :
    entryOf? (Heading.own "T main".toList).line = some ⟨"main", 'T', none⟩ ∧
      entriesOf "T main:\n0000000000000000 T run\n" ≠ entriesOf "0000000000000000 T run\n" := by
  decide +kernel

end SymbolTable

end BuildAudit
