import Mathlib.Algebra.Group.Nat.Defs
import Mathlib.Data.List.Infix
import BuildAudit.Proofs.CleanSymbols
import BuildAudit.Proofs.Fields
import BuildAudit.Proofs.Lines

/-!
# The grammar of symbol tables

A line of a symbol table lists an entry if and only if its fields are in one of three layouts and its name
is of use (`Lists`, `line_grammar`).  The grammar is stated without the reader: numerals by their digits
(`Hexadecimal`), layouts by the fields they have (`Layout`), and the part of a name before its version as
the longest beginning of it without other characters (`IsBaseName`).  So an entry with a plain name
is read back from each line that lists it, and each of them has such a line (`exists_line_iff`).
-/

namespace BuildAudit.SymbolTable

open Text (Padded Solid isBlank)

variable {cs raw base : List Char} {fields : List (List Char)} {code : Char} {size : Option Nat} {n : Nat}
  {e : SymbolEntry}

/-! ## Numerals -/

/-- The hexadecimal digits, in either case, with their values. -/
def hexDigits : List (Char × Nat) := "0123456789abcdef".toList.zipIdx ++ "ABCDEF".toList.zipIdx 10

/-- The digits write `n`, with or without zeros at the front. -/
inductive Hexadecimal : List Char → Nat → Prop
  | digit {c : Char} {d : Nat} : (c, d) ∈ hexDigits → Hexadecimal [c] d
  | more {cs : List Char} {n : Nat} {c : Char} {d : Nat} : Hexadecimal cs n → (c, d) ∈ hexDigits →
      Hexadecimal (cs ++ [c]) (16 * n + d)

theorem mem_hexDigits {c : Char} {d : Nat} :
    (c, d) ∈ hexDigits ↔ Text.digitValue c = some d ∧ d < 16 := by
  constructor
  · have listed : ∀ p ∈ hexDigits, Text.digitValue p.1 = some p.2 ∧ p.2 < 16 := by decide
    exact listed (c, d)
  · rintro ⟨value, small⟩
    have ascii : c.toNat < 128 := by
      by_contra large
      have above (limit : Char) (h : limit.toNat < 128) : ¬ c ≤ limit := fun below =>
        large (lt_of_le_of_lt (UInt32.le_iff_toNat_le.1 below) h)
      simp [Text.digitValue, above '9' (by decide), above 'z' (by decide), above 'Z' (by decide)] at value
    -- whether a character of ASCII is a digit can be looked up
    have table : ∀ n < 128, ∀ d ∈ Text.digitValue (Char.ofNat n), d < 16 →
        (Char.ofNat n, d) ∈ hexDigits := by decide +kernel
    have found := table c.toNat ascii d
    rw [Char.ofNat_toNat] at found
    exact found value small

theorem isDigitIn_iff {c : Char} : Text.isDigitIn 16 c ↔ ∃ d, (c, d) ∈ hexDigits := by
  simp only [mem_hexDigits, Text.isDigitIn]
  cases Text.digitValue c <;> simp

theorem valueIn_snoc {c : Char} {d : Nat} (digit : (c, d) ∈ hexDigits) (cs : List Char) :
    Text.valueIn 16 (cs ++ [c]) = 16 * Text.valueIn 16 cs + d := by
  simp [Text.valueIn, (mem_hexDigits.1 digit).1, Nat.mul_comm]

theorem valueIn_singleton {c : Char} {d : Nat} (digit : (c, d) ∈ hexDigits) : Text.valueIn 16 [c] = d :=
  (valueIn_snoc digit []).trans (Nat.zero_add d)

theorem Hexadecimal.read (h : Hexadecimal cs n) : isHex cs ∧ Text.valueIn 16 cs = n := by
  induction h with
  | digit digit =>
    exact ⟨by simpa [isHex] using isDigitIn_iff.2 ⟨_, digit⟩, valueIn_singleton digit⟩
  | more _ digit ih =>
    obtain ⟨hex, value⟩ := ih
    refine ⟨?_, by rw [valueIn_snoc digit, value]⟩
    simp only [isHex, Bool.and_eq_true, List.all_append] at hex ⊢
    exact ⟨by simp, hex.2, by simpa using isDigitIn_iff.2 ⟨_, digit⟩⟩

theorem hexadecimal_of_isHex (hex : isHex cs) : Hexadecimal cs (Text.valueIn 16 cs) := by
  induction cs using List.reverseRecOn with
  | nil => cases hex
  | append_singleton cs c ih =>
    simp only [isHex, Bool.and_eq_true, List.all_append, List.all_cons, List.all_nil, and_true] at hex
    obtain ⟨d, digit⟩ := isDigitIn_iff.1 hex.2.2
    rcases cs with _ | ⟨b, bs⟩
    · rw [List.nil_append, valueIn_singleton digit]
      exact .digit digit
    · rw [valueIn_snoc digit]
      exact .more (ih (by simpa [isHex] using hex.2.1)) digit

/-- A numeral is a run of digits, and it writes what they are worth. -/
theorem hexadecimal_iff : Hexadecimal cs n ↔ isHex cs ∧ Text.valueIn 16 cs = n := by
  constructor
  · exact Hexadecimal.read
  · rintro ⟨hex, rfl⟩
    exact hexadecimal_of_isHex hex

theorem Hexadecimal.solid (h : Hexadecimal cs n) : Solid cs := by
  have blankless : ∀ p ∈ hexDigits, isBlank p.1 = false := by decide
  induction h with
  | @digit c d digit => exact ⟨by simp, by simpa using blankless (c, d) digit⟩
  | @more _ _ c d _ digit ih =>
    refine ⟨by simp, fun b hb => ?_⟩
    rcases List.mem_append.1 hb with hb | hb
    · exact ih.2 b hb
    · exact List.mem_singleton.1 hb ▸ blankless (c, d) digit

/-- Every number can be written. -/
theorem exists_hexadecimal (n : Nat) : ∃ cs, Hexadecimal cs n := by
  have digit : ∀ d < 16, (Nat.digitChar d, d) ∈ hexDigits := by decide
  induction n using Nat.base_induction 16 (by decide) with
  | single n small => exact ⟨_, .digit (digit n small)⟩
  | digit n d small _ ih =>
    obtain ⟨cs, hcs⟩ := ih
    exact ⟨_, .more hcs (digit d small)⟩

/-! ## Layouts -/

/-- The layouts of a line, by its fields: a symbol alone, with its address, and with its address and
size. -/
inductive Layout (code : Char) (name : List Char) : Option Nat → List (List Char) → Prop
  | short : Layout code name none [[code], name]
  | addressed {address : List Char} {a : Nat} : Hexadecimal address a →
      Layout code name none [address, [code], name]
  | sized {address size : List Char} {a n : Nat} : Hexadecimal address a → Hexadecimal size n →
      Layout code name (some n) [address, size, [code], name]

theorem layout_iff : Layout code raw size fields ↔
    ∃ field, layoutOf? fields = some (field, [code], raw) ∧ size = field.map (Text.valueIn 16) := by
  constructor
  · rintro (_ | address | ⟨address, hsize⟩)
    · exact ⟨none, rfl, rfl⟩
    · exact ⟨none, by simp [layoutOf?, address.read], rfl⟩
    · rename_i size _ _
      exact ⟨some size, by simp [layoutOf?, address.read, hsize.read], by simp [hsize.read]⟩
  · rintro ⟨field, layout, rfl⟩
    unfold layoutOf? at layout
    split at layout
    case h_1 =>
      cases layout
      exact .short
    case h_2 =>
      obtain ⟨address, same⟩ := Option.ite_none_right_eq_some.1 layout
      cases same
      exact .addressed (hexadecimal_of_isHex address)
    case h_3 =>
      obtain ⟨both, same⟩ := Option.ite_none_right_eq_some.1 layout
      obtain ⟨address, size⟩ := Bool.and_eq_true_iff.1 both
      cases same
      exact .sized (hexadecimal_of_isHex address) (hexadecimal_of_isHex size)
    case h_4 => cases layout

theorem Layout.solid (layout : Layout code raw size fields) (blankless : isBlank code = false)
    (name : Solid raw) : ∀ field ∈ fields, Solid field := by
  have letter : Solid [code] := ⟨by simp, by simpa using blankless⟩
  rcases layout with _ | address | ⟨address, size⟩
  · simp [letter, name]
  · simp [letter, name, address.solid]
  · simp [letter, name, address.solid, size.solid]

/-! ## Names -/

/-- Letters, digits, underscore, dollar and dot. -/
def NameChar (c : Char) : Prop := c.isAlphanum ∨ c ∈ ['_', '$', '.']

theorem isNameChar_iff {c : Char} : isNameChar c ↔ NameChar c := by
  simp [isNameChar, NameChar, or_assoc]

/-- The longest beginning of a name that holds nothing but characters of names. -/
structure IsBaseName (raw base : List Char) : Prop where
  begins : base <+: raw
  chars : ∀ c ∈ base, NameChar c
  longest : ∀ other, other <+: raw → (∀ c ∈ other, NameChar c) → other <+: base

theorem isBaseName_baseName (raw : List Char) : IsBaseName raw (baseName raw) where
  begins := List.takeWhile_prefix _
  chars := fun c hc => isNameChar_iff.1 (List.mem_takeWhile_imp hc)
  longest := by
    rintro other ⟨rest, rfl⟩ chars
    rw [baseName, List.takeWhile_append_of_pos fun c hc => isNameChar_iff.2 (chars c hc)]
    exact List.prefix_append ..

theorem isBaseName_iff : IsBaseName raw base ↔ base = baseName raw := by
  constructor
  · intro h
    have own := isBaseName_baseName raw
    exact (own.longest base h.begins h.chars).eq_of_length_le (h.longest _ own.begins own.chars).length_le
  · rintro rfl
    exact isBaseName_baseName raw

/-- A plain name with a version behind it. -/
theorem baseName_append {name suffix : List Char} (chars : ∀ c ∈ name, NameChar c)
    (version : ∀ c ∈ suffix.head?, c = '@') : baseName (name ++ suffix) = name := by
  rw [baseName, List.takeWhile_append_of_pos fun c hc => isNameChar_iff.2 (chars c hc)]
  rcases suffix with _ | ⟨c, suffix⟩
  · exact List.append_nil name
  · obtain rfl : c = '@' := version c rfl
    exact List.append_nil name

/-- Labels of constant pools need not be told apart: they hold a dot. -/
theorem isNoise_eq_false_iff {name : String} : isNoise name = false ↔
    '.' ∉ name.toList ∧ name ≠ "_GLOBAL_OFFSET_TABLE_" ∧ name ≠ "__dso_handle" := by
  have label : '.' ∉ name.toList → Text.beginsWith ".LC" name = false := by
    intro dotless
    by_contra begins
    obtain ⟨rest, hrest⟩ := List.isPrefixOf_iff_prefix.1 (Bool.not_eq_false _ ▸ begins)
    exact dotless (hrest ▸ List.mem_cons_self)
  simp only [isNoise, Bool.or_eq_false_iff, List.contains_eq_mem, decide_eq_false_iff_not,
    housekeepingNames, List.mem_cons, List.not_mem_nil, or_false, not_or]
  constructor
  · rintro ⟨⟨-, dotless⟩, other⟩
    exact ⟨dotless, other⟩
  · rintro ⟨dotless, other⟩
    exact ⟨⟨label dotless, dotless⟩, other⟩

theorem nameChar_of_plain {name : String} (plain : IsPlainName name) : ∀ c ∈ name.toList, NameChar c :=
  fun c hc => (plain.chars c hc).imp_right fun other => by
    rcases other with rfl | rfl <;> decide

theorem isBlank_of_nameChar {c : Char} (h : NameChar c) : isBlank c = false := by
  rcases h with letter | other
  · exact Text.isBlank_of_isAlphanum letter
  · have blankless : ∀ c ∈ ['_', '$', '.'], isBlank c = false := by simp [isBlank]
    exact blankless c other

theorem isNoise_of_plain {name : String} (plain : IsPlainName name) : isNoise name = false := by
  refine isNoise_eq_false_iff.2 ⟨fun dot => ?_, ?_, ?_⟩
  · have := plain.chars '.' dot
    simp at this
  · rintro rfl
    exact plain.useful List.mem_cons_self
  · rintro rfl
    exact plain.useful (List.mem_cons_of_mem _ List.mem_cons_self)

/-! ## The grammar -/

/-- How a line lists an entry: the line pads fields in a layout, the name is what stands before the version,
and a size that does not fit a signed 64-bit number is left out. -/
structure Lists (line : List Char) (e : SymbolEntry) (fields : List (List Char)) (raw : List Char)
    (size : Option Nat) : Prop where
  padded : Padded fields line
  solid : ∀ field ∈ fields, Solid field
  layout : Layout e.code raw size fields
  base : IsBaseName raw e.name.toList
  nonempty : e.name ≠ ""
  dotless : '.' ∉ e.name.toList
  useful : e.name ≠ "_GLOBAL_OFFSET_TABLE_" ∧ e.name ≠ "__dso_handle"
  size_eq : e.size = (size.filter (· < 2 ^ 63)).map Int.ofNat

/-- What stands behind a name: nothing, or an at sign and more, without blanks. -/
structure IsVersion (suffix : List Char) : Prop where
  marked : ∀ c ∈ suffix.head?, c = '@'
  blankless : ∀ c ∈ suffix, isBlank c = false

theorem bind_sizeOf? (field : Option (List Char)) : field.bind sizeOf? =
    ((field.map (Text.valueIn 16)).filter (· < 2 ^ 63)).map Int.ofNat := by
  rcases field with _ | field
  · rfl
  · have limit : Number.maxInt64 + 1 = 2 ^ 63 := by decide
    have fits : Text.valueIn 16 field ≤ Number.maxInt64 ↔ Text.valueIn 16 field < 2 ^ 63 := by omega
    by_cases h : Text.valueIn 16 field < 2 ^ 63
    · simpa [sizeOf?, Option.filter, fits.2 h] using h
    · simpa [sizeOf?, Option.filter, mt fits.1 h] using h

theorem entryOf?_eq_some_iff {line : List Char} : entryOf? line = some e ↔
    ∃ field raw, layoutOf? (Text.fieldsOf line) = some (field, [e.code], raw) ∧
      e.name.toList = baseName raw ∧ e.name ≠ "" ∧ isNoise e.name = false ∧ e.size = field.bind sizeOf? := by
  constructor
  · intro h
    unfold entryOf? at h
    split at h
    case h_1 field code raw layout =>
      simp only [Option.ite_none_left_eq_some, Bool.or_eq_true, not_or, beq_iff_eq,
        Bool.not_eq_true, Option.some.injEq] at h
      obtain ⟨⟨nonempty, useful⟩, rfl⟩ := h
      exact ⟨field, raw, layout, String.toList_ofList, nonempty, useful, rfl⟩
    case h_2 => cases h
  · rintro ⟨field, raw, layout, base, nonempty, useful, size⟩
    have name : String.ofList (baseName raw) = e.name := by rw [← base, String.ofList_toList]
    simp [entryOf?, layout, name, nonempty, useful, ← size]

/-- The lines that list an entry. -/
theorem entryOf?_iff_lists {line : List Char} :
    entryOf? line = some e ↔ ∃ fields raw size, Lists line e fields raw size := by
  rw [entryOf?_eq_some_iff]
  constructor
  · rintro ⟨field, raw, layout, base, nonempty, useful, size⟩
    obtain ⟨padded, solid⟩ := Text.fieldsOf_eq_iff.1 (Eq.refl (Text.fieldsOf line))
    obtain ⟨dotless, useful⟩ := isNoise_eq_false_iff.1 useful
    exact ⟨Text.fieldsOf line, raw, _, padded, solid, layout_iff.2 ⟨field, layout, rfl⟩,
      isBaseName_iff.2 base, nonempty, dotless, useful, size.trans (bind_sizeOf? field)⟩
  · rintro ⟨fields, raw, size, h⟩
    obtain ⟨field, layout, rfl⟩ := layout_iff.1 h.layout
    refine ⟨field, raw, ?_, isBaseName_iff.1 h.base, h.nonempty, isNoise_eq_false_iff.2 ⟨h.dotless, h.useful⟩,
      h.size_eq.trans (bind_sizeOf? field).symm⟩
    rw [h.padded.fieldsOf_eq h.solid, layout]

/-- An entry is read back from each line that lists it, whatever the padding and the version. -/
theorem entryOf?_of_layout {line suffix : List Char} (name : IsPlainName e.name) (sized : IsPlainSize e.size)
    (code : isBlank e.code = false) (version : IsVersion suffix)
    (layout : Layout e.code (e.name.toList ++ suffix) size fields) (written : e.size = size.map Int.ofNat)
    (padded : Padded fields line) : entryOf? line = some e := by
  have chars := nameChar_of_plain name
  have useful := isNoise_eq_false_iff.1 (isNoise_of_plain name)
  have solid : Solid (e.name.toList ++ suffix) := by
    refine ⟨by simp [name.nonempty], fun c hc => ?_⟩
    exact (List.mem_append.1 hc).elim (fun h => isBlank_of_nameChar (chars c h)) (version.blankless c)
  have fits : size.filter (· < 2 ^ 63) = size := by
    rcases size with _ | n
    · rfl
    · have small : n < 2 ^ 63 := by exact_mod_cast (sized n written).2
      exact if_pos (decide_eq_true small)
  exact entryOf?_iff_lists.2 ⟨fields, _, size, padded, layout.solid code solid, layout,
    isBaseName_iff.2 (baseName_append chars version.marked).symm, name.nonempty, useful.1, useful.2,
    by rw [fits, written]⟩

/-- A line of a symbol table lists the entries that the grammar says and no others, and an entry with a plain
name is read back from each line that lists it. -/
theorem line_grammar (line : List Char) :
    (∀ e, entryOf? line = some e ↔ ∃ fields raw size, Lists line e fields raw size) ∧
      ∀ e fields size suffix, IsPlainName e.name → IsPlainSize e.size → isBlank e.code = false →
        IsVersion suffix → Layout e.code (e.name.toList ++ suffix) size fields →
        e.size = size.map Int.ofNat → Padded fields line → entryOf? line = some e :=
  ⟨fun _ => entryOf?_iff_lists, fun _ _ _ _ name sized code version layout written padded =>
    entryOf?_of_layout name sized code version layout written padded⟩

/-- A symbol with a version and a size, in a line with blanks at both ends. -/
theorem line_grammar_versioned :
    let e : SymbolEntry := ⟨"foo", 'T', some 0x2a⟩
    let fields := ["0000000000001139".toList, "002a".toList, ['T'], "foo".toList ++ "@@V_2".toList]
    let line := "  0000000000001139 002a\tT  foo@@V_2 ".toList
    (IsPlainName e.name ∧ IsPlainSize e.size ∧ isBlank e.code = false ∧ IsVersion "@@V_2".toList ∧
      Layout e.code (e.name.toList ++ "@@V_2".toList) (some 0x2a) fields ∧ Padded fields line) ∧
        entryOf? line = some e := by
  intro e fields line
  have name : IsPlainName e.name := ⟨by decide, by simp [e], by decide⟩
  have sized : IsPlainSize e.size := by
    rintro n ⟨⟩
    decide
  have version : IsVersion "@@V_2".toList := ⟨by simp, by simp [isBlank]⟩
  have address : Hexadecimal "0000000000001139".toList 0x1139 := hexadecimal_iff.2 (by decide)
  have size : Hexadecimal "002a".toList 0x2a := hexadecimal_iff.2 (by decide)
  have layout : Layout e.code (e.name.toList ++ "@@V_2".toList) (some 0x2a) fields := .sized address size
  have padded : Padded fields line := (Text.fieldsOf_eq_iff.1 (by decide)).1
  exact ⟨⟨name, sized, by decide, version, layout, padded⟩,
    (line_grammar line).2 e fields (some 0x2a) _ name sized (by decide) version layout rfl padded⟩

/-! ## Entries that lines list -/

theorem Layout.code_mem (layout : Layout code raw size fields) : [code] ∈ fields := by
  rcases layout with _ | _ | _ <;> simp

/-- Every entry with a size that can be written can be laid out. -/
theorem exists_layout (sized : IsPlainSize e.size) :
    ∃ size fields, e.size = size.map Int.ofNat ∧ Layout e.code e.name.toList size fields := by
  rcases hsize : e.size with _ | n
  · exact ⟨none, _, rfl, .short⟩
  · obtain ⟨m, rfl⟩ := Int.eq_ofNat_of_zero_le (sized n hsize).1
    obtain ⟨address, haddress⟩ := exists_hexadecimal 0
    obtain ⟨size, hsize⟩ := exists_hexadecimal m
    exact ⟨some m, _, rfl, .sized haddress hsize⟩

/-- The entries that lines list are those with plain names, sizes that fit and codes that can be seen. -/
theorem exists_line_iff : (∃ line, entryOf? line = some e) ↔
    IsPlainName e.name ∧ IsPlainSize e.size ∧ isBlank e.code = false := by
  constructor
  · rintro ⟨line, h⟩
    obtain ⟨fields, raw, size, lists⟩ := entryOf?_iff_lists.1 h
    obtain ⟨name, sized⟩ := plain_of_entryOf? h
    exact ⟨name, sized, (lists.solid _ lists.layout.code_mem).2 _ List.mem_cons_self⟩
  · rintro ⟨name, sized, code⟩
    obtain ⟨size, fields, written, layout⟩ := exists_layout sized
    obtain ⟨line, padded⟩ := Text.exists_line fields
    rw [← List.append_nil e.name.toList] at layout
    exact ⟨line, entryOf?_of_layout name sized code ⟨by simp, by simp⟩ layout written padded⟩

end BuildAudit.SymbolTable
