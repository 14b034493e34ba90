import BuildAudit.CommandLine
import BuildAudit.Proofs.Running

/-!
# Open databases

What opening a database does to a workspace (`opens_openDatabase`).  A workspace then holds the open
database (`Workspace.Holds`), and all databases that were there have kept their contents
(`keeps_openStore`).  `Run.outcome` is what a part of a run gives in a workspace.
-/

namespace BuildAudit

/-! ## Files -/

theorem lookup_filter_ne {α β : Type} [BEq α] [LawfulBEq α] [DecidableEq α] {k l : α} (other : k ≠ l)
    (rows : List (α × β)) :
    (rows.filter (·.1 ≠ l)).lookup k = rows.lookup k := by
  induction rows with
  | nil => rfl
  | cons row rows ih =>
    by_cases here : row.1 = l
    · have miss : (k == row.1) = false := beq_false_of_ne (here ▸ other)
      rw [List.filter_cons_of_neg (by simpa using here), ih, List.lookup_cons, miss]
    · rw [List.filter_cons_of_pos (by simpa using here), List.lookup_cons, List.lookup_cons, ih]

namespace FileTree

theorem put_put (t : FileTree) (l : Location) (e e' : Entry) : (t.put l e).put l e' = t.put l e' := by
  simp [put, List.filter_append, List.filter_filter]

theorem entryAt?_put {l : Location} (notRoot : l ≠ []) (t : FileTree) (e : Entry) :
    (t.put l e).entryAt? l = some e := by
  have gone : (t.entries.filter (·.1 ≠ l)).lookup l = none := by
    rw [List.lookup_eq_none_iff]
    intro row hrow
    have other : row.1 ≠ l := by simpa using (List.mem_filter.1 hrow).2
    simpa using other.symm
  rw [entryAt?, if_neg notRoot, put, List.lookup_append, gone]
  simp

theorem entryAt?_put_ne {k l : Location} (other : k ≠ l) (t : FileTree) (e : Entry) :
    (t.put l e).entryAt? k = t.entryAt? k := by
  have miss : List.lookup k [(l, e)] = none := by simp [List.lookup_eq_none_iff, other]
  simp only [entryAt?, put, List.lookup_append, lookup_filter_ne other, miss, Option.or_none]

/-- Every entry stays where it is. -/
def Extends (t t' : FileTree) : Prop := ∀ l e, t.entryAt? l = some e → t'.entryAt? l = some e

theorem Extends.refl (t : FileTree) : t.Extends t := fun _ _ here => here

theorem Extends.trans {t t' t'' : FileTree} (h : t.Extends t') (h' : t'.Extends t'') : t.Extends t'' :=
  fun l e here => h' l e (h l e here)

theorem extends_put {t : FileTree} {l : Location} (free : t.entryAt? l = none) (e : Entry) :
    t.Extends (t.put l e) := by
  intro k e' here
  have other : k ≠ l := by
    rintro rfl
    rw [free] at here
    cases here
  rw [entryAt?_put_ne other, here]

theorem extends_makeDirectory {t t' : FileTree} {p : String} (made : t.makeDirectory p = .ok t') :
    t.Extends t' := by
  unfold makeDirectory at made
  split at made
  · split at made
    · cases made
    · split at made
      · cases made
      · split at made
        · cases made
        · split at made
          · cases made
          · split at made
            · cases made
            · next free =>
              cases made
              exact extends_put (by simpa using free) _
  · split at made <;> cases made

theorem extends_ensureDirectory (t : FileTree) (p : String) : t.Extends (t.ensureDirectory p).2 := by
  unfold ensureDirectory
  split
  · next made => exact extends_makeDirectory made
  · exact .refl t

theorem extends_makeDirectoriesWithin (depth : Nat) (t : FileTree) (p : String) :
    t.Extends (t.makeDirectoriesWithin depth p).2 := by
  induction depth generalizing p with
  | zero => exact .refl t
  | succ depth ih =>
    unfold makeDirectoriesWithin
    split
    · exact .refl t
    · split
      · next parent _ _ =>
        have above := ih parent
        split
        · next t' made =>
          rw [made] at above
          exact above.trans (extends_ensureDirectory t' p)
        · exact above
      · exact extends_ensureDirectory t p

theorem extends_makeDirectories (t : FileTree) (p : String) : t.Extends (t.makeDirectories p).2 :=
  extends_makeDirectoriesWithin _ t p

end FileTree

namespace CommandLine

variable {w w' : Workspace} {h : Workspace.Handle}

/-! ## Databases -/

namespace Workspace

/-- What has been saved is overwritten. -/
theorem save_save (w : Workspace) (place? : Option Place) (s s' : Store) :
    (w.save place? s).save place? s' = w.save place? s' := by
  rcases place? with _ | p
  · rfl
  · rcases hp : p.readOnly
    · simp [save, hp, put, FileTree.put_put, List.filter_filter]
    · simp [save, hp]

/-- The files do not show what is in a database. -/
theorem files_save (w : Workspace) (place? : Option Place) (s s' : Store) :
    (w.save place? s).files = (w.save place? s').files := by
  rcases place? with _ | p
  · rfl
  · rcases hp : p.readOnly <;> simp [save, hp, put]

/-- The workspace holds the open database as it is, without a transaction. -/
structure Holds (w : Workspace) (h : Handle) : Prop where
  saved : w.save h.place? h.store = w
  closed : h.store.saved = none

/-- What others find in the database at a location, if there is one. -/
def contents? (w : Workspace) (l : Location) : Option Graph :=
  match w.files.entryAt? l with
  | some (.file contents) =>
    if (loggedOf? contents).isSome then (w.databases.lookup l).map (·.reopened.graph) else none
  | _ => none

/-- Every database has kept its contents. -/
def Keeps (w w' : Workspace) : Prop := ∀ l g, w.contents? l = some g → w'.contents? l = some g

theorem Keeps.refl (w : Workspace) : w.Keeps w := fun _ _ here => here

theorem Keeps.trans {w'' : Workspace} (h : w.Keeps w') (h' : w'.Keeps w'') : w.Keeps w'' :=
  fun l g here => h' l g (h l g here)

theorem keeps_files {files : FileTree} (h : w.files.Extends files) : w.Keeps { w with files } := by
  intro l g here
  unfold contents? at here
  split at here
  · next found => rw [contents?, h l _ found, ← here]
  · cases here

theorem loggedOf?_databaseContents (logged : Bool) :
    (loggedOf? (databaseContents logged)).isSome := by
  cases logged <;> decide +kernel

/-- A database that is put in the place of one keeps its contents if it has the same. -/
theorem keeps_put {l : Location} {logged : Bool} {s : Store}
    (same : ∀ g, w.contents? l = some g → s.reopened.graph = g) : w.Keeps (w.put l logged s) := by
  intro k g here
  by_cases other : k = l
  · subst other
    have notRoot : k ≠ [] := by
      rintro rfl
      cases here
    rw [contents?, put, FileTree.entryAt?_put notRoot]
    simp [loggedOf?_databaseContents, same g here]
  · have miss : (k == l) = false := beq_false_of_ne other
    rw [contents?, put, FileTree.entryAt?_put_ne other, List.lookup_cons, miss, lookup_filter_ne other]
    exact here

/-- What opening a database comes to: nothing has changed but that an empty file may be there, or the
database is saved in its place, with what others found in it. -/
inductive Opens (w : Workspace) : Opened → Prop where
  | refused (e : OpenError) : w.Opens (.error e, w)
  | transient : w.Opens (.ok ⟨.empty, none⟩, w)
  | saved (place : Place) {s : Store} (closed : s.saved = none)
    (same : ∀ g, w.contents? place.location = some g → s.graph = g) : w.Opens (w.openAt place s)

theorem Opens.holds {opened : Opened} (opens : w.Opens opened) (ok : opened = (.ok h, w')) :
    w'.Holds h := by
  cases opens with
  | refused e => cases ok
  | transient =>
    cases ok
    exact ⟨rfl, rfl⟩
  | saved place closed same =>
    cases ok
    exact ⟨save_save w _ _ _, closed⟩

theorem Opens.keeps {opened : Opened} (opens : w.Opens opened) : w.Keeps opened.2 := by
  cases opens with
  | refused e => exact .refl w
  | transient => exact .refl w
  | @saved place s closed same =>
    show w.Keeps (w.save (some place) s)
    unfold save
    dsimp only
    split
    · exact .refl w
    · refine keeps_put fun g here => ?_
      rw [Store.reopened, closed]
      exact same g here

theorem opens_openNew (w : Workspace) (n : DatabaseName) {l : Location}
    (nothing : w.contents? l = none) : w.Opens (w.openNew n l) := by
  unfold openNew
  split
  · exact .refused _
  · split
    · exact .refused _
    · refine .saved _ rfl fun g here => ?_
      rw [nothing] at here
      cases here

theorem opens_openOld (w : Workspace) (n : DatabaseName) {l : Location} (logged : Bool) {s : Store}
    (found : w.contents? l = some s.reopened.graph) : w.Opens (w.openOld n l logged s.reopened) := by
  have same (g : Graph) (here : w.contents? l = some g) : s.reopened.graph = g :=
    Option.some.inj (found.symm.trans here)
  unfold openOld
  split
  · exact .saved _ rfl same
  · split
    · exact .refused _
    · split
      · exact .refused _
      · exact .saved _ rfl same

theorem contents?_of_isEmpty {contents : ByteArray} {l : Location} (empty : contents.isEmpty)
    (found : w.files.entryAt? l = some (.file contents)) : w.contents? l = none := by
  have size : contents.data.size = 0 := beq_iff_eq.1 empty
  have nothing : contents = .empty := ByteArray.ext (Array.eq_empty_of_size_eq_zero size)
  have unknown : (loggedOf? .empty).isSome = false := by decide +kernel
  simp only [contents?, found, nothing, unknown, Bool.false_eq_true, if_false]

/-- A missing file is made before the database is opened. -/
theorem opens_openFile (w : Workspace) (n : DatabaseName) (l : Location) :
    ∃ files, w.files.Extends files ∧ ({ w with files } : Workspace).Opens (w.openFile n l) := by
  unfold openFile
  split
  · next missing =>
    split
    · have notRoot : l ≠ [] := by
        rintro rfl
        cases missing
      exact ⟨_, FileTree.extends_put missing (.file .empty),
        opens_openNew _ n (contents?_of_isEmpty rfl (FileTree.entryAt?_put notRoot _ _))⟩
    · exact ⟨w.files, .refl _, .refused _⟩
  · next contents found =>
    split
    · next empty => exact ⟨w.files, .refl _, opens_openNew w n (contents?_of_isEmpty empty found)⟩
    · split
      · next logged s hlogged hs =>
        refine ⟨w.files, .refl _, opens_openOld w n logged ?_⟩
        rw [contents?, found]
        simp [hlogged, hs]
      · exact ⟨w.files, .refl _, .refused _⟩
  · exact ⟨w.files, .refl _, .refused _⟩
  · exact ⟨w.files, .refl _, .refused _⟩

theorem opens_openDatabase (w : Workspace) (name : String) :
    ∃ files, w.files.Extends files ∧ ({ w with files } : Workspace).Opens (w.openDatabase name) := by
  unfold openDatabase openNamed
  split
  · split
    · split
      · exact ⟨w.files, .refl _, .refused _⟩
      · exact ⟨w.files, .refl _, .transient⟩
    · split
      · exact opens_openFile w _ _
      · exact ⟨w.files, .refl _, .refused _⟩
  · exact ⟨w.files, .refl _, .refused _⟩

end Workspace

/-! ## Runs -/

/-- What a part of a run gives in a workspace, and the workspace that it leaves. -/
def Run.outcome {α : Type} (r : Run α) (w : Workspace) : Except (Halt Failure) α × Workspace :=
  ExceptT.run r w

theorem Run.outcome_bind {α β : Type} (r : Run α) (f : α → Run β) (w : Workspace) :
    (r >>= f).outcome w =
      match r.outcome w with
      | (.ok a, w) => (f a).outcome w
      | (.error e, w) => (.error e, w) := by
  unfold outcome
  rw [run_bind_state]
  rcases ExceptT.run r w with ⟨_ | _, _⟩ <;> rfl

theorem Run.outcome_get (w : Workspace) : Run.outcome get w = (.ok w, w) := rfl

theorem Run.outcome_openDatabase (path : String) (w : Workspace) :
    Run.outcome (do
      let w ← get
      set (w.openDatabase path).2
      match (w.openDatabase path).1 with
      | .ok handle => pure handle
      | .error e => fail (e.failure path)) w =
      ((w.openDatabase path).1.mapError (.failure ∘ Workspace.OpenError.failure path),
        (w.openDatabase path).2) := by
  rw [outcome_bind, outcome_get]
  dsimp only
  rcases w.openDatabase path with ⟨e | h, w'⟩ <;> rfl

/-- The directories above a database may have been made before it is opened. -/
theorem openStore_outcome (path : String) (create : Bool) (w : Workspace) :
    ∃ files, w.files.Extends files ∧
      ((∃ f, (openStore path create).outcome w = (.error (.failure f), { w with files })) ∨
        (openStore path create).outcome w =
          ((Workspace.openDatabase { w with files } path).1.mapError
              (.failure ∘ Workspace.OpenError.failure path),
            (Workspace.openDatabase { w with files } path).2)) := by
  unfold openStore
  dsimp only
  split
  · split
    · next parent _ =>
      have made : (makeDirectories parent).outcome w =
          (.ok (w.files.makeDirectories parent).1,
            { w with files := (w.files.makeDirectories parent).2 }) := rfl
      refine ⟨_, FileTree.extends_makeDirectories w.files parent, ?_⟩
      rw [Run.outcome_bind, made]
      rcases (w.files.makeDirectories parent).1 with e | _
      · exact .inl ⟨_, rfl⟩
      · exact .inr (Run.outcome_openDatabase path _)
    · exact ⟨w.files, .refl _, .inr (Run.outcome_openDatabase path w)⟩
  · refine ⟨w.files, .refl _, ?_⟩
    rw [Run.outcome_bind, Run.outcome_get]
    dsimp only
    split
    · exact .inl ⟨_, rfl⟩
    · exact .inr (Run.outcome_openDatabase path w)

/-- A database that is not opened is a failure of the run, and does not stop the program. -/
theorem failure_of_openStore {path : String} {create : Bool} {halt : Halt Failure}
    (stopped : (openStore path create).outcome w = (.error halt, w')) : ∃ f, halt = .failure f := by
  obtain ⟨files, -, ⟨f, failed⟩ | done⟩ := openStore_outcome path create w
  · exact ⟨f, (Except.error.inj (congrArg Prod.fst (failed.symm.trans stopped))).symm⟩
  · have result := done.symm.trans stopped
    rcases hr : Workspace.openDatabase { w with files } path with ⟨e | h', w''⟩ <;> rw [hr] at result
    · cases result
      exact ⟨_, rfl⟩
    · cases result

theorem holds_openStore {path : String} {create : Bool}
    (opened : (openStore path create).outcome w = (.ok h, w')) : w'.Holds h := by
  obtain ⟨files, -, ⟨f, failed⟩ | done⟩ := openStore_outcome path create w
  · cases failed.symm.trans opened
  · obtain ⟨files', -, opens⟩ := Workspace.opens_openDatabase { w with files } path
    refine opens.holds ?_
    have result := done.symm.trans opened
    rcases hr : Workspace.openDatabase { w with files } path with ⟨e | h', w''⟩ <;> rw [hr] at result
    · cases result
    · cases result
      rfl

/-- Whether it succeeds or fails, opening a database leaves the contents of all databases alone. -/
theorem keeps_openStore (path : String) (create : Bool) (w : Workspace) :
    w.Keeps ((openStore path create).outcome w).2 := by
  obtain ⟨files, more, ⟨f, failed⟩ | done⟩ := openStore_outcome path create w
  · rw [failed]
    exact Workspace.keeps_files more
  · obtain ⟨files', more', opens⟩ := Workspace.opens_openDatabase { w with files } path
    rw [done]
    exact (Workspace.keeps_files more).trans ((Workspace.keeps_files more').trans opens.keeps)

end CommandLine

end BuildAudit
