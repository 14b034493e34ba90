import Mathlib.Data.List.Induction
import BuildAudit.FileTree
import BuildAudit.Proofs.Paths

/-!
# Names as bytes and as texts

Decoding reads back what encoding a text gives (`Utf8.decode_encode`), and encoding gives back bytes in
which nothing is broken (`Utf8.encode_of_decode`), so names are bytes in another form
(`OsString.ofBytes_bytes`, `OsString.bytes_ofBytes`).  A slash is never a part of another character, nor
of something broken (`Utf8.decode_append_slash`): the text of a path is made of the texts of its names
(`Location.lossy_osPath`).
-/

namespace BuildAudit

/-! ## Decoding -/

namespace Utf8

variable {bytes : List UInt8} {c : Char}

theorem first?_eq_some_iff : first? bytes = some c ↔ String.utf8EncodeChar c <+: bytes := by
  constructor
  · intro h
    have front := String.toByteArray_utf8EncodeChar_of_utf8DecodeChar?_eq_some h
    have taken : String.utf8EncodeChar c = bytes.take c.utf8Size := by
      have := congrArg (·.data.toList) front
      simpa using this
    rw [taken]
    exact List.take_prefix _ _
  · rintro ⟨rest, rfl⟩
    rw [first?, List.toByteArray_append]
    exact ByteArray.utf8DecodeChar?_utf8EncodeChar_append

theorem exists_encodeChar_eq_cons (c : Char) : ∃ byte tail, String.utf8EncodeChar c = byte :: tail :=
  List.exists_cons_of_length_pos (String.length_utf8EncodeChar c ▸ c.utf8Size_pos)

theorem decodeFrom_eq_decode_drop (skip : Nat) (bytes : List UInt8) :
    decodeFrom skip bytes = decode (bytes.drop skip) := by
  induction bytes generalizing skip with
  | nil => simp [decode, decodeFrom]
  | cons byte bytes ih =>
    cases skip with
    | zero => rfl
    | succ skip => exact ih skip

theorem decode_nil : decode [] = [] := rfl

theorem decode_encodeChar_append (c : Char) (bytes : List UInt8) :
    decode (String.utf8EncodeChar c ++ bytes) = some c :: decode bytes := by
  have length : (String.utf8EncodeChar c).length = c.utf8Size := String.length_utf8EncodeChar c
  obtain ⟨byte, tail, encoded⟩ := exists_encodeChar_eq_cons c
  have read : first? (byte :: (tail ++ bytes)) = some c :=
    first?_eq_some_iff.2 (encoded ▸ List.prefix_append _ _)
  have tailLength : tail.length = c.utf8Size - 1 := by
    rw [← length, encoded, List.length_cons, Nat.add_sub_cancel]
  rw [encoded, List.cons_append, decode, decodeFrom, read]
  dsimp only
  rw [decodeFrom_eq_decode_drop, ← tailLength, List.drop_left]

theorem decode_of_first?_eq_none {byte : UInt8} (broken : first? (byte :: bytes) = none) :
    decode (byte :: bytes) = none :: decode (bytes.drop (brokenLength (byte :: bytes) - 1)) := by
  rw [decode, decodeFrom, broken]
  dsimp only
  rw [decodeFrom_eq_decode_drop]

/-- Bytes are read character by character. -/
theorem decode_induction {motive : List UInt8 → Prop} (nil : motive [])
    (char : ∀ c bytes, motive bytes → motive (String.utf8EncodeChar c ++ bytes))
    (broken : ∀ byte bytes, first? (byte :: bytes) = none →
      motive (bytes.drop (brokenLength (byte :: bytes) - 1)) → motive (byte :: bytes))
    (bytes : List UInt8) : motive bytes := by
  induction length : bytes.length using Nat.strongRecOn generalizing bytes with
  | _ n ih =>
    subst length
    rcases bytes with _ | ⟨byte, bytes⟩
    · exact nil
    · rcases read : first? (byte :: bytes) with _ | c
      · refine broken byte bytes read (ih _ ?_ _ rfl)
        simp only [List.length_drop, List.length_cons]
        omega
      · obtain ⟨rest, split⟩ := first?_eq_some_iff.1 read
        rw [← split] at ih ⊢
        refine char c rest (ih _ ?_ rest rfl)
        have positive := c.utf8Size_pos
        rw [List.length_append, String.length_utf8EncodeChar]
        omega

theorem decode_encode (s : String) : decode (encode s) = s.toList.map some := by
  unfold encode
  induction s.toList with
  | nil => rfl
  | cons c cs ih => rw [List.flatMap_cons, decode_encodeChar_append, ih, List.map_cons]

theorem lossy_encode (s : String) : lossy (encode s) = s := by
  rw [lossy, decode_encode, List.map_map]
  simp [Function.comp_def]

theorem encode_lossy {bytes : List UInt8} (whole : none ∉ decode bytes) : encode (lossy bytes) = bytes := by
  rw [encode, lossy, String.toList_ofList]
  induction bytes using decode_induction with
  | nil => rfl
  | char c bytes ih =>
    rw [decode_encodeChar_append] at whole ⊢
    rw [List.map_cons, List.flatMap_cons, ih fun h => whole (List.mem_cons_of_mem _ h)]
    rfl
  | broken byte bytes read _ =>
    rw [decode_of_first?_eq_none read] at whole
    exact absurd List.mem_cons_self whole

/-- The bytes of a character that is read are there. -/
theorem mem_of_mem_decode {byte : UInt8} (hbyte : byte ∈ String.utf8EncodeChar c)
    (h : some c ∈ decode bytes) : byte ∈ bytes := by
  induction bytes using decode_induction with
  | nil => cases h
  | char d bytes ih =>
    rw [decode_encodeChar_append] at h
    rcases List.mem_cons.1 h with same | h
    · obtain rfl := Option.some.inj same
      exact List.mem_append_left _ hbyte
    · exact List.mem_append_right _ (ih h)
  | broken first bytes read ih =>
    rw [decode_of_first?_eq_none read] at h
    rcases List.mem_cons.1 h with same | h
    · cases same
    · exact List.mem_cons_of_mem _ (List.mem_of_mem_drop (ih h))

/-! ### Slashes -/

/-- Only the first byte of a character is an ASCII one. -/
theorem le_of_mem_tail {byte : UInt8} (h : byte ∈ (String.utf8EncodeChar c).tail) : 0x80 ≤ byte := by
  have high (n : Nat) : 0x80 ≤ UInt8.ofNat (n % 64 + 128) := by
    rw [UInt8.le_iff_toNat_le, UInt8.toNat_ofNat']
    show 128 ≤ _
    omega
  unfold String.utf8EncodeChar at h
  dsimp only at h
  split_ifs at h <;>
    simp only [List.tail_cons, List.not_mem_nil, List.mem_cons, or_false] at h
  · subst h
    exact high _
  · rcases h with rfl | rfl <;> exact high _
  · rcases h with rfl | rfl | rfl <;> exact high _

theorem first?_append_slash {byte : UInt8} (broken : first? (byte :: bytes) = none) (rest : List UInt8) :
    first? (byte :: (bytes ++ OsString.slash :: rest)) = none := by
  rw [Option.eq_none_iff_forall_ne_some]
  intro c read
  have front := first?_eq_some_iff.1 read
  rw [← List.cons_append] at front
  rcases List.prefix_or_prefix_of_prefix front (List.prefix_append (byte :: bytes) _) with inside | beyond
  · rw [first?_eq_some_iff.2 inside] at broken
    cases broken
  · -- the character would go on with the slash
    obtain ⟨more, split⟩ := beyond
    rw [← split, List.prefix_append_right_inj] at front
    rcases more with _ | ⟨next, more⟩
    · rw [List.append_nil] at split
      have whole : String.utf8EncodeChar c <+: byte :: bytes := split ▸ List.prefix_rfl
      rw [first?_eq_some_iff.2 whole] at broken
      cases broken
    · obtain ⟨rfl, -⟩ := List.cons_prefix_cons.1 front
      have high : 0x80 ≤ OsString.slash := le_of_mem_tail (c := c) (by rw [← split]; simp)
      exact absurd high (by decide)

theorem beginsLong_slash (lead : UInt8) : beginsLong lead OsString.slash = false := by
  unfold beginsLong isTail
  split_ifs <;> simp [OsString.slash]

theorem brokenLength_append_slash (byte : UInt8) (bytes rest : List UInt8) :
    brokenLength (byte :: (bytes ++ OsString.slash :: rest)) = brokenLength (byte :: bytes) := by
  have tail : isTail OsString.slash = false := by decide
  rcases bytes with _ | ⟨second, _ | ⟨third, bytes⟩⟩
  · simp [brokenLength, beginsLong_slash]
  · simp [brokenLength, tail]
  · simp [brokenLength]

theorem brokenLength_le_length (byte : UInt8) (bytes : List UInt8) :
    brokenLength (byte :: bytes) ≤ bytes.length + 1 := by
  rcases bytes with _ | ⟨second, _ | ⟨third, bytes⟩⟩
  · simp [brokenLength]
  · simp only [brokenLength]
    split_ifs <;> simp_all
  · simp only [brokenLength, List.length_cons]
    split_ifs <;> omega

theorem decode_append_slash (bytes rest : List UInt8) :
    decode (bytes ++ OsString.slash :: rest) = decode bytes ++ some '/' :: decode rest := by
  have slash : OsString.slash :: rest = String.utf8EncodeChar '/' ++ rest := rfl
  induction bytes using decode_induction with
  | nil => rw [slash, List.nil_append, decode_encodeChar_append, decode_nil, List.nil_append]
  | char c bytes ih =>
    rw [List.append_assoc, decode_encodeChar_append, decode_encodeChar_append, ih, List.cons_append]
  | broken byte bytes read ih =>
    have inside : brokenLength (byte :: bytes) - 1 ≤ bytes.length := by
      have := brokenLength_le_length byte bytes
      omega
    rw [List.cons_append, decode_of_first?_eq_none (first?_append_slash read rest),
      brokenLength_append_slash, List.drop_append_of_le_length inside, ih, decode_of_first?_eq_none read,
      List.cons_append]

theorem lossy_append_slash (bytes rest : List UInt8) :
    lossy (bytes ++ OsString.slash :: rest) = lossy bytes ++ "/" ++ lossy rest := by
  have slash : String.ofList ['/'] = "/" := rfl
  rw [lossy, decode_append_slash, List.map_append, List.map_cons, String.ofList_append, String.append_assoc,
    ← List.singleton_append, String.ofList_append, Option.getD_some, slash, ← lossy, ← lossy]

end Utf8

/-! ## Names and paths -/

namespace OsString

theorem ofBytes_bytes (s : OsString) : ofBytes s.bytes = s := by
  cases s with
  | text s =>
    have whole : none ∉ Utf8.decode (Utf8.encode s) := by rw [Utf8.decode_encode]; simp
    rw [bytes, ofBytes, dif_neg whole, Utf8.lossy_encode]
  | undecodable bytes broken => rw [OsString.bytes, ofBytes, dif_pos broken]

theorem bytes_ofBytes (bytes : List UInt8) : (ofBytes bytes).bytes = bytes := by
  unfold ofBytes
  split_ifs with broken
  · rfl
  · exact Utf8.encode_lossy broken

theorem lossy_eq (s : OsString) : s.lossy = Utf8.lossy s.bytes := by
  cases s with
  | text s => exact (Utf8.lossy_encode s).symm
  | undecodable => rfl

theorem bytes_append (s s' : OsString) : (s ++ s').bytes = s.bytes ++ s'.bytes := by
  have general : (ofBytes (s.bytes ++ s'.bytes)).bytes = s.bytes ++ s'.bytes := bytes_ofBytes _
  cases s <;> cases s'
  · show Utf8.encode _ = _
    rw [Utf8.encode, String.toList_append, List.flatMap_append]
    rfl
  all_goals exact general

theorem lossy_append_slash (s s' : OsString) : (s ++ "/" ++ s').lossy = s.lossy ++ "/" ++ s'.lossy := by
  rw [lossy_eq, bytes_append, bytes_append, List.append_assoc, lossy_eq s, lossy_eq s']
  exact Utf8.lossy_append_slash s.bytes s'.bytes

/-! ### Slashes -/

theorem slash_mem_encode_iff {s : String} : slash ∈ Utf8.encode s ↔ '/' ∈ s.toList := by
  constructor
  · intro h
    obtain ⟨c, hc, h⟩ := List.mem_flatMap.1 h
    obtain ⟨byte, tail, encoded⟩ := Utf8.exists_encodeChar_eq_cons c
    rw [encoded] at h
    rcases List.mem_cons.1 h with rfl | h
    · -- a character that begins with a slash is one
      have read : Utf8.decode (String.utf8EncodeChar c ++ []) =
          Utf8.decode (String.utf8EncodeChar '/' ++ tail) := by rw [encoded, List.append_nil]; rfl
      rw [Utf8.decode_encodeChar_append, Utf8.decode_encodeChar_append] at read
      obtain rfl := Option.some.inj (List.cons.inj read).1
      exact hc
    · have high : 0x80 ≤ slash := Utf8.le_of_mem_tail (c := c) (by rw [encoded]; exact h)
      exact absurd high (by decide)
  · intro h
    exact List.mem_flatMap.2 ⟨'/', h, List.mem_singleton_self slash⟩

/-- The segments of a path hold no slash. -/
theorem slash_not_mem {p segment : OsString} (h : segment ∈ p.segments) : slash ∉ segment.bytes := by
  cases p with
  | text p =>
    obtain ⟨s, hs, rfl⟩ := List.mem_map.1 h
    exact fun slash => Path.slash_not_mem hs (slash_mem_encode_iff.1 slash)
  | undecodable bytes =>
    obtain ⟨piece, hpiece, rfl⟩ := List.mem_map.1 h
    rw [bytes_ofBytes]
    exact (Path.of_mem_splitOn hpiece).1

theorem segments_ne_nil (p : OsString) : p.segments ≠ [] := by
  cases p with
  | text p => simp [segments, Path.segments_ne_nil]
  | undecodable bytes => simp [segments, List.splitOn_ne_nil]

theorem slash_not_mem_lossy {s : OsString} (slashless : slash ∉ s.bytes) : '/' ∉ s.lossy.toList := by
  rw [lossy_eq, Utf8.lossy, String.toList_ofList]
  intro h
  obtain ⟨c?, hc, same⟩ := List.mem_map.1 h
  rcases c? with _ | c
  · cases same
  · obtain rfl : c = '/' := same
    exact slashless (Utf8.mem_of_mem_decode (c := '/') (List.mem_singleton_self slash) hc)

theorem lossy_ne_empty {s : OsString} (nonempty : s ≠ "") : s.lossy ≠ "" := by
  cases s with
  | text s => exact fun h => nonempty (congrArg text h)
  | undecodable bytes broken =>
    intro h
    have none : Utf8.decode bytes = [] := by simpa [lossy, Utf8.lossy] using h
    rw [none] at broken
    cases broken

/-- What is seen from a directory ends as it does by itself. -/
theorem exists_lossy_join (dir : OsString) (name : String) : ∃ lead, (dir.join name).lossy = lead ++ name := by
  unfold join
  split_ifs with absolute empty ends
  · exact ⟨"", (String.empty_append).symm⟩
  · exact ⟨"", (String.empty_append).symm⟩
  · obtain ⟨front, split⟩ : ∃ front, dir.bytes = front ++ [slash] := by
      cases dir with
      | text p =>
        obtain ⟨front, split⟩ := List.isSuffixOf_iff_suffix.1 ends
        refine ⟨front.flatMap String.utf8EncodeChar, ?_⟩
        rw [bytes, Utf8.encode, ← split, List.flatMap_append]
        rfl
      | undecodable bytes => exact List.getLast?_eq_some_iff.1 (eq_of_beq ends)
    refine ⟨Utf8.lossy front ++ "/", ?_⟩
    rw [lossy_eq, bytes_append, split, List.append_assoc, List.singleton_append, Utf8.lossy_append_slash,
      ← lossy_eq]
    rfl
  · exact ⟨dir.lossy ++ "/", lossy_append_slash dir name⟩

end OsString

/-! ## Paths of locations -/

namespace Location

theorem intercalate_concat {names : List String} (some : names ≠ []) (name : String) :
    "/".intercalate (names ++ [name]) = "/".intercalate names ++ "/" ++ name := by
  induction names with
  | nil => exact absurd rfl some
  | cons first names ih =>
    rcases names with _ | ⟨second, names⟩
    · simp [String.intercalate_cons_cons]
    · have later := ih (List.cons_ne_nil second names)
      rw [List.cons_append, List.cons_append, String.intercalate_cons_cons, ← List.cons_append, later,
        String.intercalate_cons_cons]
      simp only [String.append_assoc]

theorem path_concat {l : Location} (below : l ≠ []) (name : OsString) :
    path (l ++ [name]) = l.path ++ "/" ++ name.lossy := by
  rw [path, path, List.map_append, List.map_singleton, intercalate_concat (by simpa using below)]
  simp only [String.append_assoc]

/-- The path of a location is rendered name by name. -/
theorem lossy_osPath (l : Location) : l.osPath.lossy = l.path := by
  rcases List.eq_nil_or_concat l with rfl | ⟨above, name, rfl⟩
  · rfl
  let below (p name : OsString) : OsString := p ++ "/" ++ name
  have folded (l : Location) (name : OsString) : osPath (l ++ [name]) = (l ++ [name]).foldl below "" := by
    rcases l with _ | ⟨first, l⟩ <;> rfl
  have rendered (l : Location) (name : OsString) :
      ((l ++ [name]).foldl below "").lossy = path (l ++ [name]) := by
    induction l using List.reverseRec generalizing name with
    | nil =>
      rw [List.nil_append, List.foldl_cons, List.foldl_nil, OsString.lossy_append_slash, path]
      simp [OsString.lossy]
    | append_singleton l last ih =>
      rw [List.foldl_concat, OsString.lossy_append_slash, ih,
        path_concat (List.append_ne_nil_of_right_ne_nil l (List.cons_ne_nil last []))]
  rw [List.concat_eq_append, folded, rendered]

end Location

end BuildAudit
