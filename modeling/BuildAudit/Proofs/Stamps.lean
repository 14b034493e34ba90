import BuildAudit.Extraction

/-!
# Times of phases

When the results of a phase are current: `isCurrentPhase_iff` reads it off the stamps, and
`Graph.UpToDate` says it of all that a phase is made from.  What a run finds stale is what is not up to
date (`upToDate_of_stale`, `stale_of_upToDate`), and stamping the phases that were done leaves them up
to date, if the clock can be read back (`upToDate_stamped_dependencies`, `upToDate_stamped_symbols`).
-/

namespace BuildAudit

/-! ## Instants -/

/-- `a` is earlier than `b`. -/
def Instant.Before (a b : Instant) : Prop :=
  a.seconds < b.seconds ∨ a.seconds = b.seconds ∧ a.nanos < b.nanos

theorem Instant.le_iff {a b : Instant} :
    a.le b ↔ a.seconds < b.seconds ∨ a.seconds = b.seconds ∧ a.nanos ≤ b.nanos := by
  simp [Instant.le]

theorem Instant.le_refl (a : Instant) : a.le a := by
  rw [Instant.le_iff]
  omega

theorem Instant.Before.le {a b : Instant} (h : a.Before b) : a.le b := by
  rw [Instant.le_iff]
  unfold Instant.Before at h
  omega

theorem Instant.Before.not_le {a b : Instant} (h : a.Before b) : ¬ b.le a := by
  rw [Instant.le_iff]
  unfold Instant.Before at h
  omega

/-- The instant can be written with a year of four digits, so that its text is read back. -/
def Instant.Writable (t : Instant) : Prop := 0 ≤ t.year ∧ t.year ≤ 9999

theorem Stamp.ofInstant_of_writable {t : Instant} (h : t.Writable) : Stamp.ofInstant t = .at t :=
  if_pos h

/-- A stamp that is a time is the time that was recorded. -/
theorem Stamp.eq_of_ofInstant {t u : Instant} (h : Stamp.ofInstant t = .at u) : t = u := by
  unfold Stamp.ofInstant at h
  split at h
  · exact Stamp.at.inj h
  · cases h

/-! ## Stamps -/

@[simp]
theorem Stamps.get_set (s : Stamps) (p q : Phase) (stamp : Stamp) :
    (s.set p stamp).get q = if q = p then some stamp else s.get q := by
  cases p <;> cases q <;> rfl

namespace Graph

variable {g : Graph} {phase needed : Phase}

/-- Results are current if they were stamped when those that they are made from were there. -/
theorem isCurrentPhase_iff :
    g.isCurrentPhase phase needed = .ok true ↔
      ∃ done, g.stamps.get phase = some (.at done) ∧
        (g.stamps.get needed = none ∨ ∃ t, g.stamps.get needed = some (.at t) ∧ t.le done) := by
  unfold isCurrentPhase phaseTime
  rcases g.stamps.get phase with _ | done | text <;> rcases g.stamps.get needed with _ | t | text' <;>
    simp [bind, Except.bind, pure, Except.pure, isCurrent]

theorem isCurrentPhase_congr {g' : Graph}
    (phase_eq : g'.stamps.get phase = g.stamps.get phase)
    (needed_eq : g'.stamps.get needed = g.stamps.get needed) :
    g'.isCurrentPhase phase needed = g.isCurrentPhase phase needed := by
  rw [isCurrentPhase, isCurrentPhase, phaseTime, phaseTime, phaseTime, phaseTime, phase_eq, needed_eq]

/-- Results are out of date when what they are made from has been stamped later. -/
theorem not_isCurrentPhase {now : Instant}
    (stamped : g.stamps.get needed = some (.ofInstant now))
    (old : ∀ t, g.stamps.get phase = some (.at t) → t.Before now) :
    g.isCurrentPhase phase needed ≠ .ok true := by
  rw [Ne, isCurrentPhase_iff]
  rintro ⟨done, hdone, none | ⟨t, ht, le⟩⟩
  · rw [stamped] at none
    cases none
  · rw [stamped] at ht
    obtain rfl := Stamp.eq_of_ofInstant (Option.some.inj ht)
    exact (old done hdone).not_le le

/-- The phase has seen all that its results are made from. -/
def UpToDate (g : Graph) : Phase → Prop
  | .importCommands => True
  | .extractDependencies => g.isCurrentPhase .extractDependencies .importCommands = .ok true
  | .extractSymbols =>
    g.isCurrentPhase .extractDependencies .importCommands = .ok true ∧
      g.isCurrentPhase .extractSymbols .extractDependencies = .ok true

end Graph

/-! ## What is stale -/

variable {g : Graph} {withSymbols : Bool} {todo : Stale}

theorem stale_force (g : Graph) (withSymbols : Bool) :
    stale g true withSymbols = .ok ⟨true, withSymbols⟩ := by
  cases withSymbols <;> rfl

/-- An unforced run looks at the dependencies, and then at the symbols if it covers them and the
dependencies are current. -/
theorem stale_unforced (g : Graph) (withSymbols : Bool) :
    stale g false withSymbols =
      match g.isCurrentPhase .extractDependencies .importCommands with
      | .error e => .error e
      | .ok false => .ok ⟨true, withSymbols⟩
      | .ok true =>
        if withSymbols then
          (g.isCurrentPhase .extractSymbols .extractDependencies).map fun current => ⟨false, !current⟩
        else .ok ⟨false, false⟩ := by
  unfold stale
  rcases g.isCurrentPhase .extractDependencies .importCommands with e | _ | _ <;>
    rcases g.isCurrentPhase .extractSymbols .extractDependencies with e | current <;>
    cases withSymbols <;> rfl

theorem stale_of_upToDate (dependencies : g.UpToDate .extractDependencies)
    (symbols : withSymbols → g.UpToDate .extractSymbols) :
    stale g false withSymbols = .ok ⟨false, false⟩ := by
  rw [stale_unforced, show g.isCurrentPhase _ _ = _ from dependencies]
  cases withSymbols
  · rfl
  · rw [show g.isCurrentPhase .extractSymbols _ = _ from (symbols rfl).2]
    rfl

theorem upToDate_of_stale (h : stale g false withSymbols = .ok todo) :
    (todo.dependencies = false → g.UpToDate .extractDependencies) ∧
      (withSymbols → todo.symbols = false → g.UpToDate .extractSymbols) := by
  rw [stale_unforced] at h
  unfold Graph.UpToDate
  rcases dependencies : g.isCurrentPhase .extractDependencies .importCommands with e | _ | _ <;>
    rw [dependencies] at h
  · cases h
  · cases h
    exact ⟨nofun, fun covered none => absurd (covered.symm.trans none) nofun⟩
  · refine ⟨fun _ => rfl, fun covered none => ⟨rfl, ?_⟩⟩
    simp only [covered, if_true] at h
    rcases symbols : g.isCurrentPhase .extractSymbols .extractDependencies with e | _ | _
    · rw [symbols] at h
      cases h
    · rw [symbols] at h
      cases h
      cases none
    · rfl

/-! ## Stamping -/

theorem get_stampPhases (todo : Stale) (now : Instant) (g : Graph) (phase : Phase) :
    (stampPhases todo now g).stamps.get phase =
      if phase = .extractDependencies ∧ todo.dependencies ∨ phase = .extractSymbols ∧ todo.symbols then
        some (.ofInstant now)
      else g.stamps.get phase := by
  rcases todo with ⟨_ | _, _ | _⟩ <;> cases phase <;> rfl

theorem stampPhases_eq (todo : Stale) (now : Instant) (g : Graph) :
    stampPhases todo now g = { g with stamps := (stampPhases todo now g).stamps } := by
  rcases todo with ⟨_ | _, _ | _⟩ <;> rfl

variable {now : Instant}

/-- Every stamp is a time, and none is later than `now`. -/
def Graph.StampedBy (g : Graph) (now : Instant) : Prop :=
  ∀ phase stamp, g.stamps.get phase = some stamp → ∃ t, stamp = .at t ∧ t.le now

theorem upToDate_stamped_dependencies (writable : now.Writable) (past : g.StampedBy now)
    (h : todo.dependencies = false → g.UpToDate .extractDependencies) :
    (stampPhases todo now g).UpToDate .extractDependencies := by
  show Graph.isCurrentPhase _ _ _ = _
  rw [Graph.isCurrentPhase_iff, get_stampPhases, get_stampPhases]
  rcases done : todo.dependencies
  · have current := Graph.isCurrentPhase_iff.1 (h done)
    simpa using current
  · refine ⟨now, by simp [Stamp.ofInstant_of_writable writable], ?_⟩
    rcases imported : g.stamps.get .importCommands with _ | stamp
    · simp
    · obtain ⟨t, rfl, le⟩ := past _ _ imported
      exact .inr ⟨t, by simp, le⟩

theorem upToDate_stamped_symbols (writable : now.Writable) (past : g.StampedBy now)
    (h : todo.dependencies = false → g.UpToDate .extractDependencies) (done : todo.symbols) :
    (stampPhases todo now g).UpToDate .extractSymbols := by
  refine ⟨upToDate_stamped_dependencies writable past h, ?_⟩
  rw [Graph.isCurrentPhase_iff, get_stampPhases, get_stampPhases]
  refine ⟨now, by simp [done, Stamp.ofInstant_of_writable writable], ?_⟩
  rcases doneToo : todo.dependencies
  · rcases stamped : g.stamps.get .extractDependencies with _ | stamp
    · simp
    · obtain ⟨t, rfl, le⟩ := past _ _ stamped
      exact .inr ⟨t, by simp, le⟩
  · exact .inr ⟨now, by simp [Stamp.ofInstant_of_writable writable], now.le_refl⟩

end BuildAudit
