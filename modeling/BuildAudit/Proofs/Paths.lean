import Mathlib.Data.List.Basic
import Mathlib.Tactic.SplitIfs
import BuildAudit.Path
import BuildAudit.Proofs.Lines

/-!
# Paths as texts

The segments of a path hold no slash (`Path.slash_not_mem`), and segments that are joined by slashes
are the segments of the path that comes out (`Path.segments_intercalate`).  If the last segment of a
path names something, it is the file name, and the parent has the segments before it, up to idle ones
at the end (`Path.parent?_of_segments`).
-/

namespace BuildAudit.Path

variable {p s name : String} {front : List String}

/-! ## Segments -/

theorem of_mem_splitOn {α : Type} [DecidableEq α] {x : α} {cs piece : List α}
    (h : piece ∈ cs.splitOn x) : x ∉ piece ∧ ∀ c ∈ piece, c ∈ cs := by
  induction cs generalizing piece with
  | nil =>
    obtain rfl : piece = [] := by simpa using h
    exact ⟨List.not_mem_nil, nofun⟩
  | cons c cs ih =>
    have later (hp : piece ∈ cs.splitOn x) : x ∉ piece ∧ ∀ d ∈ piece, d ∈ c :: cs :=
      ⟨(ih hp).1, fun d hd => List.mem_cons_of_mem c ((ih hp).2 d hd)⟩
    rw [List.splitOn_cons_eq_if_modifyHead] at h
    by_cases cut : c == x
    · rw [if_pos cut] at h
      rcases List.mem_cons.1 h with rfl | h
      · exact ⟨List.not_mem_nil, nofun⟩
      · exact later h
    · rw [if_neg cut] at h
      rcases split : cs.splitOn x with _ | ⟨first, rest⟩ <;> rw [split] at h
      · cases h
      · rcases List.mem_cons.1 h with rfl | h
        · obtain ⟨free, inside⟩ := ih (split ▸ List.mem_cons_self)
          refine ⟨?_, List.forall_mem_cons.2 ⟨List.mem_cons_self, fun d hd => ?_⟩⟩
          · rw [List.mem_cons, not_or]
            exact ⟨fun same => cut (by simp [same]), free⟩
          · exact List.mem_cons_of_mem c (inside d hd)
        · exact later (split ▸ List.mem_cons_of_mem first h)

theorem slash_not_mem (h : s ∈ segments p) : '/' ∉ s.toList := by
  obtain ⟨piece, hpiece, rfl⟩ := List.mem_map.1 h
  rw [String.toList_ofList]
  exact (of_mem_splitOn hpiece).1

theorem mem_of_mem_segments (h : s ∈ segments p) {c : Char} (hc : c ∈ s.toList) : c ∈ p.toList := by
  obtain ⟨piece, hpiece, rfl⟩ := List.mem_map.1 h
  rw [String.toList_ofList] at hc
  exact (of_mem_splitOn hpiece).2 c hc

/-- Joining with slashes undoes splitting at slashes. -/
theorem segments_intercalate {segs : List String} (slashless : ∀ s ∈ segs, '/' ∉ s.toList)
    (some : segs ≠ []) : segments ("/".intercalate segs) = segs := by
  have slash : "/".toList = ['/'] := rfl
  rw [segments, String.toList_intercalate, slash, List.splitOn_intercalate]
  · simp
  · intro l hl
    obtain ⟨s, hs, rfl⟩ := List.mem_map.1 hl
    exact slashless s hs
  · simpa using some

theorem segments_slash (rest : String) : segments ("/" ++ rest) = "" :: segments rest := by
  have slash : "/".toList = ['/'] := rfl
  simp [segments, slash, List.splitOn_cons_eq_if_modifyHead]

theorem segments_ne_nil (p : String) : segments p ≠ [] := by
  simp [segments, List.splitOn_ne_nil]

theorem isAbsolute_iff : isAbsolute p ↔ ∃ next rest, segments p = "" :: next :: rest := by
  constructor
  · intro absolute
    obtain ⟨cs, hp⟩ : ∃ cs, p = "/" ++ String.ofList cs := by
      rcases h : p.toList with _ | ⟨c, cs⟩ <;> simp only [isAbsolute, h, List.head?_nil, List.head?_cons,
        beq_iff_eq, reduceCtorEq, Option.some.injEq] at absolute
      refine ⟨cs, ?_⟩
      rw [← String.toList_inj, h, absolute]
      simp
    obtain ⟨next, rest, hrest⟩ := List.exists_cons_of_ne_nil (segments_ne_nil (String.ofList cs))
    exact ⟨next, rest, by rw [hp, segments_slash, hrest]⟩
  · rintro ⟨next, rest, split⟩
    unfold segments at split
    obtain ⟨first, others, hsplit, hfirst, hothers⟩ := List.map_eq_cons_iff.1 split
    obtain ⟨second, others, rfl, -, -⟩ := List.map_eq_cons_iff.1 hothers
    obtain rfl : first = [] := by simpa using hfirst
    have whole : ['/'].intercalate (p.toList.splitOn '/') = p.toList := List.intercalate_splitOn '/'
    rw [hsplit, List.intercalate_cons_cons] at whole
    rw [isAbsolute, ← whole]
    rfl

/-- A slash makes two segments. -/
theorem segments_ne_singleton (slash : '/' ∈ p.toList) (name : String) : segments p ≠ [name] := by
  intro single
  have slashless : '/' ∉ name.toList := slash_not_mem (single ▸ List.mem_singleton_self name)
  have whole : ['/'].intercalate (p.toList.splitOn '/') = p.toList := List.intercalate_splitOn '/'
  obtain ⟨piece, hpiece, rfl⟩ := List.map_eq_singleton_iff.1 single
  rw [hpiece, List.intercalate_singleton] at whole
  rw [String.toList_ofList, whole] at slashless
  exact slashless slash

theorem slash_mem_join {directory : String} (nonempty : directory ≠ "") (p : String) :
    '/' ∈ (join directory p).toList := by
  unfold join
  split_ifs with absolute empty ends
  · exact List.mem_of_mem_head? (by simpa [isAbsolute] using absolute)
  · exact absurd (eq_of_beq empty) nonempty
  · obtain ⟨before, h⟩ := List.isSuffixOf_iff_suffix.1 ends
    rw [String.toList_append, ← h]
    simp
  · simp

/-! ## Idle segments -/

/-- The first segment of a relative path is only cut off if it is empty. -/
theorem trimIdle_cons (first : String) (rest : List String) :
    trimIdle false (first :: rest) =
      if trimIdle true rest ≠ [] then first :: trimIdle true rest
      else if first = "" then [] else [first] := by
  rcases cut : (rest.reverse.dropWhile isIdle).reverse with _ | ⟨next, rest'⟩ <;> simp [trimIdle, cut]

/-- Only idle segments are cut off. -/
theorem exists_trimIdle (absolute : Bool) (segs : List String) :
    ∃ idles, segs = trimIdle absolute segs ++ idles ∧ ∀ s ∈ idles, isIdle s := by
  have cut (l : List String) : ∃ idles, l = trimIdle true l ++ idles ∧ ∀ s ∈ idles, isIdle s := by
    refine ⟨(l.reverse.takeWhile isIdle).reverse, ?_, fun s hs => ?_⟩
    · rw [trimIdle, ← List.reverse_append, List.takeWhile_append_dropWhile, List.reverse_reverse]
    · exact List.all_eq_true.1 List.all_takeWhile s (List.mem_reverse.1 hs)
  cases absolute with
  | true => exact cut segs
  | false =>
    rcases segs with _ | ⟨first, rest⟩
    · exact ⟨[], rfl, nofun⟩
    · obtain ⟨idles, hrest, idle⟩ := cut rest
      rw [trimIdle_cons]
      split_ifs with some empty
      · exact ⟨idles, by rw [List.cons_append, ← hrest], idle⟩
      · refine ⟨first :: rest, rfl, List.forall_mem_cons.2 ⟨by simp [isIdle, empty], ?_⟩⟩
        rwa [hrest, not_not.1 some]
      · rw [not_not.1 some, List.nil_append] at hrest
        exact ⟨rest, rfl, hrest ▸ idle⟩

/-- Nothing is cut off behind a segment that names something. -/
theorem trimIdle_concat (absolute : Bool) (init : List String) (used : isIdle name = false) :
    trimIdle absolute (init ++ [name]) = init ++ [name] := by
  cases absolute
  · rcases init with _ | ⟨first, init⟩
    · have nonempty : name ≠ "" := by
        rintro rfl
        cases used
      simp [trimIdle, nonempty]
    · simp [trimIdle, used]
  · simp [trimIdle, used]

theorem body_of_segments (split : segments p = front ++ [name]) (used : isIdle name = false) :
    body p = (if isAbsolute p then front.tail else front) ++ [name] := by
  unfold body
  split_ifs with absolute
  · obtain ⟨next, rest, hp⟩ := isAbsolute_iff.1 absolute
    rcases front with _ | ⟨first, front⟩
    · rw [hp] at split
      cases split
    · rw [split]
      exact trimIdle_concat true front used
  · rw [split]
    exact trimIdle_concat false front used

/-! ## Names and parents -/

theorem fileName?_of_segments (split : segments p = front ++ [name]) (used : isIdle name = false)
    (down : name ≠ "..") : fileName? p = some name := by
  have notHere : name ≠ "." := by
    rintro rfl
    cases used
  rw [fileName?, body_of_segments split used, List.getLast?_concat]
  simp [down, notHere]

/-- The path is that of the directory before the name at the end of another. -/
structure IsParent (p parent : String) (front : List String) : Prop where
  parent_eq : parent? p = some parent
  nonempty : parent ≠ ""
  absolute : isAbsolute parent = isAbsolute p
  /-- The segments are those before the name, up to idle ones at the end. -/
  segments_eq : ∃ kept idles idles', front = kept ++ idles ∧ segments parent = kept ++ idles' ∧
    ∀ s ∈ idles ++ idles', isIdle s
  mem : ∀ c ∈ parent.toList, c = '/' ∨ c ∈ p.toList

theorem parent?_of_segments (split : segments p = front ++ [name]) (used : isIdle name = false) :
    parent? p = some ((if isAbsolute p then "/" else "") ++
      "/".intercalate (trimIdle (isAbsolute p) (if isAbsolute p then front.tail else front))) := by
  simp [parent?, body_of_segments split used]

theorem mem_intercalate {segs : List String} {c : Char} (h : c ∈ ("/".intercalate segs).toList) :
    c = '/' ∨ ∃ s ∈ segs, c ∈ s.toList := by
  have chars : ("/".intercalate segs).toList = ['/'].intercalate (segs.map String.toList) :=
    String.toList_intercalate
  refine (Text.mem_intercalate (chars ▸ h)).imp_right ?_
  rintro ⟨piece, hpiece, hc⟩
  obtain ⟨s, hs, rfl⟩ := List.mem_map.1 hpiece
  exact ⟨s, hs, hc⟩

theorem isParent_of_absolute {rest : List String} (split : segments p = "" :: rest ++ [name])
    (used : isIdle name = false) (absolute : isAbsolute p) :
    IsParent p ("/" ++ "/".intercalate (trimIdle true rest)) ("" :: rest) := by
  obtain ⟨idles, hrest, idle⟩ := exists_trimIdle true rest
  have inside : ∀ s ∈ trimIdle true rest, s ∈ segments p := by
    intro s hs
    rw [split, hrest]
    simp [hs]
  have segments_parent := segments_slash ("/".intercalate (trimIdle true rest))
  refine ⟨?_, by simp, ?_, ?_, ?_⟩
  · rw [parent?_of_segments split used]
    simp [absolute]
  · obtain ⟨next, others, h⟩ := List.exists_cons_of_ne_nil (segments_ne_nil ("/".intercalate (trimIdle true rest)))
    rw [absolute, isAbsolute_iff, segments_parent, h]
    exact ⟨next, others, rfl⟩
  · by_cases none : trimIdle true rest = []
    · refine ⟨[""], idles, [""], ?_, ?_, ?_⟩
      · rw [hrest, none]; rfl
      · rw [segments_parent, none]; rfl
      · intro s hs
        rcases List.mem_append.1 hs with hs | hs
        · exact idle s hs
        · exact List.mem_singleton.1 hs ▸ rfl
    · refine ⟨"" :: trimIdle true rest, idles, [], ?_, ?_, ?_⟩
      · rw [List.cons_append, ← hrest]
      · rw [segments_parent, segments_intercalate (fun s hs => slash_not_mem (inside s hs)) none,
          List.append_nil]
      · simpa using idle
  · intro c hc
    rw [String.toList_append, List.mem_append] at hc
    rcases hc with hc | hc
    · exact .inl (List.mem_singleton.1 hc)
    · refine (mem_intercalate hc).imp_right ?_
      rintro ⟨s, hs, hc⟩
      exact mem_of_mem_segments (inside s hs) hc

theorem isParent_of_relative {first : String} {rest : List String}
    (split : segments p = first :: rest ++ [name]) (used : isIdle name = false)
    (relative : isAbsolute p = false) :
    IsParent p ("/".intercalate (trimIdle false (first :: rest))) (first :: rest) := by
  obtain ⟨idles, hrest, idle⟩ := exists_trimIdle false (first :: rest)
  have named : first ≠ "" := by
    rintro rfl
    refine absurd (isAbsolute_iff.2 ?_) (Bool.eq_false_iff.1 relative)
    rw [split]
    cases rest with
    | nil => exact ⟨name, [], rfl⟩
    | cons next rest => exact ⟨next, rest ++ [name], rfl⟩
  obtain ⟨others, begins⟩ : ∃ others, trimIdle false (first :: rest) = first :: others := by
    rw [trimIdle_cons, if_neg named]
    split_ifs
    · exact ⟨_, rfl⟩
    · exact ⟨[], rfl⟩
  have inside : ∀ s ∈ trimIdle false (first :: rest), s ∈ segments p := by
    intro s hs
    rw [split, hrest]
    simp [hs]
  have segments_parent : segments ("/".intercalate (trimIdle false (first :: rest))) =
      trimIdle false (first :: rest) :=
    segments_intercalate (fun s hs => slash_not_mem (inside s hs)) (by simp [begins])
  refine ⟨?_, ?_, ?_, ⟨trimIdle false (first :: rest), idles, [], hrest, ?_, ?_⟩, ?_⟩
  · rw [parent?_of_segments split used]
    simp [relative]
  · intro empty
    rw [empty, begins] at segments_parent
    exact named (List.cons.inj segments_parent).1.symm
  · rw [relative, Bool.eq_false_iff]
    intro absolute
    obtain ⟨next, others', h⟩ := isAbsolute_iff.1 absolute
    rw [segments_parent, begins] at h
    exact named (List.cons.inj h).1
  · rw [segments_parent, List.append_nil]
  · simpa using idle
  · intro c hc
    refine (mem_intercalate hc).imp_right ?_
    rintro ⟨s, hs, hc⟩
    exact mem_of_mem_segments (inside s hs) hc

theorem exists_isParent (split : segments p = front ++ [name]) (used : isIdle name = false)
    (inner : front ≠ []) : ∃ parent, IsParent p parent front := by
  obtain ⟨first, rest, rfl⟩ := List.exists_cons_of_ne_nil inner
  by_cases absolute : isAbsolute p
  · obtain ⟨next, others, hp⟩ := isAbsolute_iff.1 absolute
    obtain rfl : first = "" := by
      rw [split] at hp
      exact (List.cons.inj hp).1
    exact ⟨_, isParent_of_absolute split used absolute⟩
  · exact ⟨_, isParent_of_relative split used (by simpa using absolute)⟩

end BuildAudit.Path
