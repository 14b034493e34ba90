import Mathlib.Data.List.Basic
import Mathlib.Data.List.Induction
import BuildAudit.Text

/-!
# Fields of lines

A line splits into its fields in one way only: they are those non-empty texts without blanks that,
padded with blanks, make up the line (`Text.fieldsOf_eq_iff`).  `Text.Padded` says how fields are put into
a line, and `Text.Solid` which texts can be told apart by the blanks between them.  If a line does not end
in a blank, the run of characters at its end is the last field (`Text.fieldsOf_tail`).
-/

namespace BuildAudit.Text

variable {cs field rest front tail : List Char} {fields : List (List Char)}

/-- A text that is not empty and holds no blank. -/
def Solid (field : List Char) : Prop := field ≠ [] ∧ ∀ c ∈ field, isBlank c = false

/-- The fields in a row, with blanks anywhere around them and with some blank behind each field that
another one follows. -/
inductive Padded : List (List Char) → List Char → Prop
  | none {pad : List Char} : (∀ c ∈ pad, isBlank c) → Padded [] pad
  | field {pad field rest : List Char} {fields : List (List Char)} : (∀ c ∈ pad, isBlank c) →
      (∀ c ∈ rest.head?, isBlank c) → Padded fields rest → Padded (field :: fields) (pad ++ field ++ rest)

/-! ## Splitting -/

/-- Everything about splitting follows from this: a blank splits. -/
theorem fieldsOf_append_blank {c : Char} (blank : isBlank c) (cs ds : List Char) :
    fieldsOf (cs ++ c :: ds) = fieldsOf cs ++ fieldsOf ds := by
  rw [fieldsOf, List.splitOnP_append_cons cs ds blank, List.filter_append, fieldsOf, fieldsOf]

theorem fieldsOf_pad {pad : List Char} (blank : ∀ c ∈ pad, isBlank c) (cs : List Char) :
    fieldsOf (pad ++ cs) = fieldsOf cs := by
  induction pad with
  | nil => rfl
  | cons c pad ih =>
    have first : fieldsOf (c :: (pad ++ cs)) = fieldsOf [] ++ fieldsOf (pad ++ cs) :=
      fieldsOf_append_blank (blank c List.mem_cons_self) [] _
    exact first.trans (ih fun d hd => blank d (List.mem_cons_of_mem c hd))

theorem Solid.fieldsOf_eq (solid : Solid field) : fieldsOf field = [field] := by
  rw [fieldsOf, List.splitOnP_eq_singleton solid.2]
  simp [solid.1]

theorem Solid.fieldsOf_append (solid : Solid field) (apart : ∀ c ∈ rest.head?, isBlank c) :
    fieldsOf (field ++ rest) = field :: fieldsOf rest := by
  rcases rest with _ | ⟨c, rest⟩
  · rw [List.append_nil]
    exact solid.fieldsOf_eq
  · have blank : isBlank c := apart c rfl
    have begins : fieldsOf (c :: rest) = fieldsOf rest :=
      fieldsOf_pad (fun d hd => List.mem_singleton.1 hd ▸ blank) rest
    rw [fieldsOf_append_blank blank, solid.fieldsOf_eq, begins, List.singleton_append]

/-- Solid fields are read back from any line that they are padded to. -/
theorem Padded.fieldsOf_eq (padded : Padded fields cs) (solid : ∀ field ∈ fields, Solid field) :
    fieldsOf cs = fields := by
  induction padded with
  | @none pad blank =>
    rw [← List.append_nil pad, fieldsOf_pad blank]
    rfl
  | field blank apart _ ih =>
    rw [List.append_assoc, fieldsOf_pad blank, (solid _ List.mem_cons_self).fieldsOf_append apart,
      ih fun f hf => solid f (List.mem_cons_of_mem _ hf)]

/-- Any fields can be put into a line: with a blank before each of them. -/
theorem exists_line (fields : List (List Char)) : ∃ line, Padded fields line := by
  suffices apart : ∃ line, Padded fields line ∧ ∀ c ∈ line.head?, isBlank c from
    apart.imp fun _ h => h.1
  have space : isBlank ' ' := by decide
  induction fields with
  | nil => exact ⟨[], .none (List.forall_mem_nil _), by simp⟩
  | cons field fields ih =>
    obtain ⟨line, padded, apart⟩ := ih
    exact ⟨[' '] ++ field ++ line, .field (List.forall_mem_singleton.2 space) apart padded,
      by simpa using space⟩

/-! ## Every line has fields -/

/-- One more blank in front. -/
theorem Padded.cons {c : Char} (padded : Padded fields cs) (blank : isBlank c) : Padded fields (c :: cs) := by
  have front {pad : List Char} (h : ∀ d ∈ pad, isBlank d) : ∀ d ∈ c :: pad, isBlank d :=
    List.forall_mem_cons.2 ⟨blank, h⟩
  cases padded with
  | none pad => exact .none (front pad)
  | field pad apart padded => exact .field (front pad) apart padded

/-- A line that does not begin with a blank begins with its first field. -/
theorem Padded.exists_of_head {c : Char} (padded : Padded fields (c :: cs)) (solid : isBlank c = false)
    (nonempty : ∀ field ∈ fields, field ≠ []) :
    ∃ field rest later, fields = field :: later ∧ c :: cs = field ++ rest ∧
      (∀ d ∈ rest.head?, isBlank d) ∧ Padded later rest := by
  generalize line : c :: cs = text at padded
  cases padded with
  | none blank =>
    have := blank c (line ▸ List.mem_cons_self)
    simp [solid] at this
  | @field pad field rest later blank apart padded =>
    rcases pad with _ | ⟨d, pad⟩
    · exact ⟨field, rest, later, rfl, rfl, apart, padded⟩
    · have same : c = d := (List.cons.inj line).1
      have := blank d List.mem_cons_self
      simp [← same, solid] at this

theorem exists_padded (cs : List Char) : ∃ fields, Padded fields cs ∧ ∀ field ∈ fields, Solid field := by
  induction cs with
  | nil => exact ⟨[], .none (by simp), by simp⟩
  | cons c cs ih =>
    obtain ⟨fields, padded, solid⟩ := ih
    cases hc : isBlank c with
    | true => exact ⟨fields, padded.cons hc, solid⟩
    | false =>
      have alone : (∀ d ∈ cs.head?, isBlank d) → ∃ fields, Padded fields (c :: cs) ∧
          ∀ field ∈ fields, Solid field := fun apart =>
        ⟨[c] :: fields, .field (List.forall_mem_nil _) apart padded,
          List.forall_mem_cons.2 ⟨⟨by simp, by simpa using hc⟩, solid⟩⟩
      rcases cs with _ | ⟨d, cs⟩
      · exact alone (by simp)
      cases hd : isBlank d with
      | true => exact alone (by simpa using hd)
      | false =>
        -- the first field of the rest grows by `c`
        obtain ⟨field, rest, later, rfl, line, apart, padded⟩ :=
          padded.exists_of_head hd fun f hf => (solid f hf).1
        obtain ⟨⟨-, blankless⟩, others⟩ := List.forall_mem_cons.1 solid
        refine ⟨(c :: field) :: later, ?_, List.forall_mem_cons.2 ⟨⟨by simp, ?_⟩, others⟩⟩
        · rw [line]
          exact .field (List.forall_mem_nil _) apart padded
        · exact List.forall_mem_cons.2 ⟨hc, blankless⟩

/-- The fields of a line are the solid texts that it pads. -/
theorem fieldsOf_eq_iff : fieldsOf cs = fields ↔ Padded fields cs ∧ ∀ field ∈ fields, Solid field := by
  constructor
  · rintro rfl
    obtain ⟨fields, padded, solid⟩ := exists_padded cs
    rw [padded.fieldsOf_eq solid]
    exact ⟨padded, solid⟩
  · rintro ⟨padded, solid⟩
    exact padded.fieldsOf_eq solid

/-! ## The last field -/

/-- The text is empty or ends in a blank. -/
def EndsOpen (cs : List Char) : Prop := ∀ c ∈ cs.getLast?, isBlank c

/-- Every text ends in a run of characters that are not blank, which may be empty. -/
theorem exists_tail (cs : List Char) :
    ∃ front tail, cs = front ++ tail ∧ EndsOpen front ∧ ∀ c ∈ tail, isBlank c = false := by
  induction cs using List.reverseRecOn with
  | nil => exact ⟨[], [], rfl, by simp [EndsOpen], by simp⟩
  | append_singleton cs c ih =>
    cases hc : isBlank c with
    | true => exact ⟨cs ++ [c], [], by simp, by simp [EndsOpen, hc], by simp⟩
    | false =>
      obtain ⟨front, tail, rfl, before, blankless⟩ := ih
      refine ⟨front, tail ++ [c], by simp, before, fun d hd => ?_⟩
      rcases List.mem_append.1 hd with hd | hd
      · exact blankless d hd
      · exact List.mem_singleton.1 hd ▸ hc

/-- The last run is the last field. -/
theorem fieldsOf_tail (before : EndsOpen front) (solid : Solid tail) :
    fieldsOf (front ++ tail) = fieldsOf front ++ [tail] := by
  rcases front.eq_nil_or_concat' with rfl | ⟨init, b, rfl⟩
  · exact solid.fieldsOf_eq
  · have blank : isBlank b := before b (by simp)
    have ended : fieldsOf (init ++ [b]) = fieldsOf init := by
      rw [fieldsOf_append_blank blank]
      exact List.append_nil _
    rw [ended, List.append_assoc, List.singleton_append, fieldsOf_append_blank blank, solid.fieldsOf_eq]

end BuildAudit.Text
