import Mathlib.Data.List.Infix
import BuildAudit.Proofs.OsStrings

/-!
# Walking through file trees

`FileTree.Leads` says where following segments ends, by one rule for each kind of segment, and a walk
succeeds exactly where it leads (`FileTree.walk_eq_ok_iff`).  Walking along two lists of segments is
walking along the one and then along the other (`Leads.append`), idle segments lead nowhere else, and a
place that is reached stands on directories only (`Leads.reached`).  Which places may be looked up is a
parameter: where a walk that looks up all of them arrives, any other arrives as well, unless it meets a
place that does not fit (`Leads.walk_or_tooLong`).
-/

namespace BuildAudit.FileTree

variable {t : FileTree} {fits : Location → Bool} {links : Nat} {here l : Location} {segment : OsString}
  {segs : List OsString}

/-- Nothing is there. -/
def absent : Location → List OsString → Except OsError Location := fun _ _ => .error .noEntry

/-- Any place may be looked up. -/
def anywhere : Location → Bool := fun _ => true

/-- The segment is looked up in the directory where it stands. -/
structure IsLookup (fits : Location → Bool) (here : Location) (segment : OsString) : Prop where
  used : segment.isIdle = false
  down : segment ≠ ".."
  short : segment.size ≤ maxNameLength
  fits : fits (here ++ [segment])

/-- Where segments lead through at most `links` symbolic links, if only places that fit are looked up. -/
inductive Leads (t : FileTree) (fits : Location → Bool) :
    Nat → Location → List OsString → Location → Prop where
  | nil (links : Nat) (here : Location) : Leads t fits links here [] here
  | idle {links : Nat} {here l : Location} {segment : OsString} {segs : List OsString}
    (inside : t.isDirectoryAt here) (idle : segment.isIdle) (rest : Leads t fits links here segs l) :
    Leads t fits links here (segment :: segs) l
  | up {links : Nat} {here l : Location} {segs : List OsString}
    (inside : t.isDirectoryAt here) (rest : Leads t fits links here.dropLast segs l) :
    Leads t fits links here (".." :: segs) l
  | down {links : Nat} {here l : Location} {segment : OsString} {segs : List OsString} {e : Entry}
    (inside : t.isDirectoryAt here) (lookup : IsLookup fits here segment)
    (found : t.entryAt? (here ++ [segment]) = some e) (direct : ∀ target, e ≠ .link target)
    (rest : Leads t fits links (here ++ [segment]) segs l) : Leads t fits links here (segment :: segs) l
  | link {links : Nat} {here l : Location} {segment target : OsString} {segs : List OsString}
    (inside : t.isDirectoryAt here) (lookup : IsLookup fits here segment)
    (found : t.entryAt? (here ++ [segment]) = some (.link target))
    (rest : Leads t fits links (if target.isAbsolute then [] else here) (target.segments ++ segs) l) :
    Leads t fits (links + 1) here (segment :: segs) l

/-! ## Walks -/

theorem walk_nil (missing : Location → List OsString → Except OsError Location) (links : Nat)
    (here : Location) : t.walk fits missing links here [] = .ok here := by
  cases links <;> rfl

theorem walk_cons (missing : Location → List OsString → Except OsError Location) (links : Nat)
    (here : Location) (segment : OsString) (segs : List OsString) :
    t.walk fits missing links here (segment :: segs) =
      if !t.isDirectoryAt here then .error .notDirectory
      else if segment.isIdle then t.walk fits missing links here segs
      else if segment == ".." then t.walk fits missing links here.dropLast segs
      else if segment.size > maxNameLength || !fits (here ++ [segment]) then .error .nameTooLong
      else
        match t.entryAt? (here ++ [segment]) with
        | none => missing (here ++ [segment]) segs
        | some (.link target) =>
          match links with
          | 0 => .error .tooManyLinks
          | links + 1 =>
            t.walk fits missing links (if target.isAbsolute then [] else here) (target.segments ++ segs)
        | some _ => t.walk fits missing links (here ++ [segment]) segs := by
  cases links <;> rfl

theorem leads_of_walk (h : t.walk fits absent links here segs = .ok l) : t.Leads fits links here segs l := by
  induction links using Nat.strong_induction_on generalizing here segs with
  | _ links through =>
    induction segs generalizing here with
    | nil =>
      rw [walk_nil] at h
      obtain rfl := Except.ok.inj h
      exact .nil links here
    | cons segment segs ih =>
      rw [walk_cons] at h
      split at h
      · cases h
      rename_i inside
      have inside : t.isDirectoryAt here := by simpa using inside
      split at h
      · exact .idle inside ‹_› (ih h)
      split at h
      · rename_i up
        obtain rfl := eq_of_beq up
        exact .up inside (ih h)
      split at h
      · cases h
      rename_i used down possible
      obtain ⟨short, fitting⟩ : segment.size ≤ maxNameLength ∧ fits (here ++ [segment]) := by
        simpa using possible
      have lookup : IsLookup fits here segment := ⟨by simpa using used, by simpa using down, short, fitting⟩
      split at h
      · cases h
      · split at h
        · cases h
        · exact .link inside lookup ‹_› (through _ (Nat.lt_succ_self _) h)
      · rename_i e direct found
        exact .down inside lookup found (fun target same => direct target (same ▸ rfl)) (ih h)

theorem Leads.walk (h : t.Leads fits links here segs l) : t.walk fits absent links here segs = .ok l := by
  induction h with
  | nil links here => exact walk_nil absent links here
  | idle inside idle _ ih => rw [walk_cons]; simp [inside, idle, ih]
  | up inside _ ih =>
    have used : OsString.isIdle ".." = false := rfl
    rw [walk_cons]; simp [inside, used, ih]
  | @down links here l segment segs e inside lookup found direct _ ih =>
    have short := Nat.not_lt.2 lookup.short
    rw [walk_cons]
    cases e with
    | link target => exact absurd rfl (direct target)
    | file | directory => simp [inside, lookup.used, lookup.down, short, lookup.fits, found, ih]
  | link inside lookup found _ ih =>
    have short := Nat.not_lt.2 lookup.short
    rw [walk_cons]
    simp [inside, lookup.used, lookup.down, short, lookup.fits, found, ih]

theorem walk_eq_ok_iff : t.walk fits absent links here segs = .ok l ↔ t.Leads fits links here segs l :=
  ⟨leads_of_walk, Leads.walk⟩

/-! ## Places that do not fit -/

theorem IsLookup.anywhere (lookup : IsLookup fits here segment) : IsLookup anywhere here segment :=
  ⟨lookup.used, lookup.down, lookup.short, rfl⟩

/-- Where segments lead, they lead as well if any place may be looked up. -/
theorem Leads.anywhere (h : t.Leads fits links here segs l) : t.Leads anywhere links here segs l := by
  induction h with
  | nil links here => exact .nil links here
  | idle inside idle _ ih => exact .idle inside idle ih
  | up inside _ ih => exact .up inside ih
  | down inside lookup found direct _ ih => exact .down inside lookup.anywhere found direct ih
  | link inside lookup found _ ih => exact .link inside lookup.anywhere found ih

/-- Segments lead through the place to which the first of them lead. -/
theorem Leads.append {before after : List OsString} (h : t.Leads fits links here (before ++ after) l) :
    ∃ links' mid, t.Leads fits links here before mid ∧ t.Leads fits links' mid after l := by
  generalize whole : before ++ after = segs at h
  have stay {links : Nat} {here : Location} (h : t.Leads fits links here after l) :
      ∃ links' mid, t.Leads fits links here [] mid ∧ t.Leads fits links' mid after l :=
    ⟨links, here, .nil links here, h⟩
  induction h generalizing before with
  | nil links here =>
    obtain ⟨rfl, rfl⟩ := List.append_eq_nil_iff.1 whole
    exact stay (.nil links here)
  | idle inside idle rest ih =>
    rcases List.append_eq_cons_iff.1 whole with ⟨rfl, rfl⟩ | ⟨before, rfl, rfl⟩
    · exact stay (.idle inside idle rest)
    · obtain ⟨links', mid, first, second⟩ := ih rfl stay
      exact ⟨links', mid, .idle inside idle first, second⟩
  | up inside rest ih =>
    rcases List.append_eq_cons_iff.1 whole with ⟨rfl, rfl⟩ | ⟨before, rfl, rfl⟩
    · exact stay (.up inside rest)
    · obtain ⟨links', mid, first, second⟩ := ih rfl stay
      exact ⟨links', mid, .up inside first, second⟩
  | down inside lookup found direct rest ih =>
    rcases List.append_eq_cons_iff.1 whole with ⟨rfl, rfl⟩ | ⟨before, rfl, rfl⟩
    · exact stay (.down inside lookup found direct rest)
    · obtain ⟨links', mid, first, second⟩ := ih rfl stay
      exact ⟨links', mid, .down inside lookup found direct first, second⟩
  | link inside lookup found rest ih =>
    rcases List.append_eq_cons_iff.1 whole with ⟨rfl, rfl⟩ | ⟨before, rfl, rfl⟩
    · exact stay (.link inside lookup found rest)
    · -- the segments of the target come before what is left of the first part
      obtain ⟨links', mid, first, second⟩ := ih (List.append_assoc ..) stay
      exact ⟨links', mid, .link inside lookup found first, second⟩

theorem Leads.eq_of_idle {idles : List OsString} (h : t.Leads fits links here idles l)
    (idle : ∀ s ∈ idles, s.isIdle) : l = here := by
  induction h with
  | nil => rfl
  | idle _ _ _ ih => exact ih fun s hs => idle s (List.mem_cons_of_mem _ hs)
  | up => cases idle ".." List.mem_cons_self
  | down _ lookup | link _ lookup =>
    have named := idle _ List.mem_cons_self
    rw [lookup.used] at named
    cases named

/-- Idle segments behind a directory change nothing. -/
theorem Leads.append_idle {idles : List OsString} (h : t.Leads fits links here segs l)
    (directory : t.isDirectoryAt l) (idle : ∀ s ∈ idles, s.isIdle) :
    t.Leads fits links here (segs ++ idles) l := by
  induction h with
  | nil links here =>
    rw [List.nil_append]
    induction idles with
    | nil => exact .nil links here
    | cons s idles ih =>
      obtain ⟨hs, idle⟩ := List.forall_mem_cons.1 idle
      exact .idle directory hs (ih idle)
  | idle inside idle _ ih => exact .idle inside idle (ih directory)
  | up inside _ ih => exact .up inside (ih directory)
  | down inside lookup found direct _ ih => exact .down inside lookup found direct (ih directory)
  | link inside lookup found _ ih =>
    rw [List.cons_append]
    refine .link inside lookup found ?_
    rw [← List.append_assoc]
    exact ih directory

/-! ## Places that are reached -/

/-- The names on the way to the location are names, and all that is above it are directories. -/
structure Reached (t : FileTree) (l : Location) : Prop where
  named : ∀ name ∈ l, name ≠ "" ∧ OsString.slash ∉ name.bytes
  above : ∀ dir, dir <+: l → dir ≠ l → t.isDirectoryAt dir

theorem reached_root (t : FileTree) : t.Reached [] :=
  ⟨nofun, fun _ begins other => absurd (List.prefix_nil.1 begins) other⟩

theorem Reached.dropLast (h : t.Reached l) : t.Reached l.dropLast where
  named := fun name hname => h.named name (List.dropLast_subset l hname)
  above := fun dir begins other => by
    refine h.above dir (begins.trans (List.dropLast_prefix l)) ?_
    rintro rfl
    exact other (begins.eq_of_length_le (List.dropLast_prefix dir).length_le)

/-- What is above a directory is a directory. -/
theorem Reached.isDirectoryAt_dropLast (h : t.Reached l) (directory : t.isDirectoryAt l) :
    t.isDirectoryAt l.dropLast := by
  by_cases same : l.dropLast = l
  · rwa [same]
  · exact h.above _ (List.dropLast_prefix l) same

theorem Reached.concat (h : t.Reached l) (directory : t.isDirectoryAt l) (used : segment.isIdle = false)
    (slashless : OsString.slash ∉ segment.bytes) : t.Reached (l ++ [segment]) where
  named := fun name hname => by
    rcases List.mem_append.1 hname with hname | hname
    · exact h.named name hname
    · obtain rfl := List.mem_singleton.1 hname
      refine ⟨?_, slashless⟩
      rintro rfl
      cases used
  above := fun dir begins other => by
    rcases List.prefix_concat_iff.1 begins with rfl | begins
    · exact absurd rfl other
    · by_cases same : dir = l
      · rwa [same]
      · exact h.above dir begins same

theorem Leads.reached (h : t.Leads fits links here segs l) (start : t.Reached here)
    (slashless : ∀ s ∈ segs, OsString.slash ∉ s.bytes) : t.Reached l := by
  induction h with
  | nil => exact start
  | idle _ _ _ ih => exact ih start (List.forall_mem_cons.1 slashless).2
  | up _ _ ih => exact ih start.dropLast (List.forall_mem_cons.1 slashless).2
  | down inside lookup _ _ _ ih =>
    obtain ⟨hs, slashless⟩ := List.forall_mem_cons.1 slashless
    exact ih (start.concat inside lookup.used hs) slashless
  | @link links here l segment target segs _ _ _ _ ih =>
    refine ih ?_ fun s hs => ?_
    · split
      · exact reached_root t
      · exact start
    · rcases List.mem_append.1 hs with hs | hs
      · exact OsString.slash_not_mem hs
      · exact slashless s (List.mem_cons_of_mem _ hs)

/-- Something is at the location, and it is no link. -/
def Stands (t : FileTree) (l : Location) : Prop :=
  ∃ e, t.entryAt? l = some e ∧ ∀ target, e ≠ .link target

theorem stands_of_isDirectoryAt (directory : t.isDirectoryAt l) : t.Stands l := by
  unfold isDirectoryAt at directory
  split at directory
  · exact ⟨.directory, ‹_›, fun _ => Entry.noConfusion⟩
  · cases directory

/-- Something is where segments lead, if there are any. -/
theorem Leads.stands (h : t.Leads fits links here segs l) (start : t.Reached here)
    (slashless : ∀ s ∈ segs, OsString.slash ∉ s.bytes) (some : segs ≠ [] ∨ t.Stands here) : t.Stands l := by
  induction h with
  | nil => exact some.resolve_left (fun none => none rfl)
  | idle inside _ _ ih =>
    exact ih start (List.forall_mem_cons.1 slashless).2 (.inr (stands_of_isDirectoryAt inside))
  | up inside _ ih =>
    exact ih start.dropLast (List.forall_mem_cons.1 slashless).2
      (.inr (stands_of_isDirectoryAt (start.isDirectoryAt_dropLast inside)))
  | down inside lookup found direct _ ih =>
    obtain ⟨hs, slashless⟩ := List.forall_mem_cons.1 slashless
    exact ih (start.concat inside lookup.used hs) slashless (.inr ⟨_, found, direct⟩)
  | @link links here l segment target segs _ _ _ _ ih =>
    refine ih ?_ (fun s hs => ?_) (.inl (by simp [OsString.segments_ne_nil]))
    · split
      · exact reached_root t
      · exact start
    · rcases List.mem_append.1 hs with hs | hs
      · exact OsString.slash_not_mem hs
      · exact slashless s (List.mem_cons_of_mem _ hs)

/-! ## Paths -/

/-- Where a path starts. -/
def start (t : FileTree) (p : OsString) : Location := if p.isAbsolute then [] else t.workingDirectory

/-- The path, which has to be one, leads to the location. -/
structure LeadsTo (t : FileTree) (fits : Location → Bool) (p : OsString) (l : Location) : Prop where
  noNul : p.hasNul = false
  nonempty : p ≠ ""
  leads : t.Leads fits maxLinks (t.start p) p.segments l

theorem resolve_eq_walk {p : OsString} (noNul : p.hasNul = false) (nonempty : p ≠ "") :
    t.resolve fits absent p = t.walk fits absent maxLinks (t.start p) p.segments := by
  rw [resolve, noNul, if_neg Bool.false_ne_true, if_neg (by simpa using nonempty), start]

theorem resolve_eq_ok_iff {p : OsString} : t.resolve fits absent p = .ok l ↔ t.LeadsTo fits p l := by
  constructor
  · intro h
    have noNul : p.hasNul = false := by
      by_contra nul
      rw [resolve, if_pos (by simpa using nul)] at h
      cases h
    have nonempty : p ≠ "" := by
      rintro rfl
      cases h
    rw [resolve_eq_walk noNul nonempty] at h
    exact ⟨noNul, nonempty, leads_of_walk h⟩
  · rintro ⟨noNul, nonempty, leads⟩
    rw [resolve_eq_walk noNul nonempty, leads.walk]

theorem realPath_eq_ok_iff {p : OsString} : t.realPath p = .ok l ↔ t.LeadsTo takesPath p l :=
  resolve_eq_ok_iff

theorem canonicalize_eq_ok_iff {p : OsString} {canonical : String} :
    t.canonicalize p = .ok canonical ↔ ∃ l, t.realPath p = .ok l ∧ l.path = canonical := by
  unfold canonicalize
  rcases t.realPath p with e | l
  · exact ⟨nofun, nofun⟩
  · simp [Except.map]

theorem canonicalize_of_realPath {p : OsString} (h : t.realPath p = .ok l) :
    t.canonicalize p = .ok l.path :=
  canonicalize_eq_ok_iff.2 ⟨l, h, rfl⟩

theorem reached_start (standing : t.Reached t.workingDirectory) (p : OsString) : t.Reached (t.start p) := by
  unfold start
  split
  · exact reached_root t
  · exact standing

/-- The path is that of an entry which is no link and stands on directories only. -/
def IsCanonical (t : FileTree) (p : OsString) : Prop := ∃ l, l.osPath = p ∧ t.Reached l ∧ t.Stands l

/-- A path that is made canonical becomes the text of a canonical one. -/
theorem isCanonical_of_canonicalize (standing : t.Reached t.workingDirectory) {p : OsString}
    {canonical : String} (h : t.canonicalize p = .ok canonical) :
    ∃ q, t.IsCanonical q ∧ q.lossy = canonical := by
  obtain ⟨l, found, rfl⟩ := canonicalize_eq_ok_iff.1 h
  have leads := (realPath_eq_ok_iff.1 found).leads
  have start := reached_start standing p
  refine ⟨l.osPath, ⟨l, rfl, leads.reached start fun _ => OsString.slash_not_mem, ?_⟩, l.lossy_osPath⟩
  exact leads.stands start (fun _ => OsString.slash_not_mem) (.inl p.segments_ne_nil)

end BuildAudit.FileTree
