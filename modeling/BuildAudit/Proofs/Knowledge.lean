import Mathlib.Order.Bounds.Basic
import BuildAudit.Artifact

/-!
# Knowledge about artifacts

What is known of an artifact beside its name: its kind and the command that writes it.  One piece of
knowledge is below another if it can be refined to it: a library of unknown kind to a static or a
shared one, a missing generator to any.  The pieces below a given one form chains as far as kinds are
concerned (`ArtifactType.le_total_of_le`), which is why two pieces have a join as soon as they have
an upper bound (`join?_eq_some`, `join?_eq_none`).
-/

namespace BuildAudit

/-! ## Kinds -/

namespace ArtifactType

instance : PartialOrder ArtifactType where
  le t u := t.refinesTo u
  le_refl t := by cases t <;> rfl
  le_trans t u v := by cases t <;> cases u <;> cases v <;> decide
  le_antisymm t u := by cases t <;> cases u <;> decide

theorem le_iff_refinesTo {t u : ArtifactType} : t ≤ u ↔ t.refinesTo u := Iff.rfl

theorem le_iff {t u : ArtifactType} :
    t ≤ u ↔ t = u ∨ t = .library ∧ (u = .static ∨ u = .shared) := by
  simp [le_iff_refinesTo, refinesTo]

/-- One kind is vaguer than another if it is a library of which the other is a kind. -/
theorem refinesTo_iff_of_ne {t u : ArtifactType} (h : t ≠ u) :
    t.refinesTo u ↔ t = .library ∧ u.isLibrary := by
  cases t <;> cases u <;> first | exact absurd rfl h | decide

/-- Two kinds that can become the same are one the refinement of the other. -/
theorem le_total_of_le {t u v : ArtifactType} (ht : t ≤ v) (hu : u ≤ v) : t ≤ u ∨ u ≤ t := by
  rcases le_iff.1 ht with rfl | ⟨rfl, -⟩
  · exact .inr hu
  rcases le_iff.1 hu with rfl | ⟨rfl, -⟩
  · exact .inl ht
  · exact .inl (le_refl _)

/-- The kind that is known once both have been observed. -/
def join? (t u : ArtifactType) : Option ArtifactType :=
  if t.refinesTo u then some u else if u.refinesTo t then some t else none

theorem join?_eq_some {t u v : ArtifactType} (h : t.join? u = some v) :
    t ≤ v ∧ u ≤ v ∧ ∀ w, t ≤ w → u ≤ w → v ≤ w := by
  unfold join? at h
  split_ifs at h with narrower wider <;> obtain rfl := Option.some.inj h
  · exact ⟨narrower, le_refl u, fun _ _ hu => hu⟩
  · exact ⟨le_refl t, wider, fun _ ht _ => ht⟩

theorem join?_eq_none {t u : ArtifactType} (h : t.join? u = none) (v : ArtifactType) :
    ¬ (t ≤ v ∧ u ≤ v) := by
  unfold join? at h
  split_ifs at h with narrower wider
  rintro ⟨ht, hu⟩
  exact (le_total_of_le ht hu).elim narrower wider

/-- Kinds can become the same unless two of them are definite and different, or one of them is not that
of a library while another is a library of unknown kind. -/
theorem bddAbove_iff {S : Set ArtifactType} :
    BddAbove S ↔ (∀ t ∈ S, ∀ u ∈ S, t ≠ .library → u ≠ .library → t = u) ∧
      (.library ∈ S → ∀ t ∈ S, t.isLibrary) := by
  constructor
  · rintro ⟨v, hv⟩
    -- a definite kind is the bound itself
    have top : ∀ t ∈ S, t ≠ .library → t = v := fun t ht definite =>
      (le_iff.1 (hv ht)).resolve_right fun h => definite h.1
    refine ⟨fun t ht u hu dt du => (top t ht dt).trans (top u hu du).symm, fun vague t ht => ?_⟩
    by_cases definite : t = .library
    · rw [definite]
      rfl
    · rw [top t ht definite]
      rcases le_iff.1 (hv vague) with rfl | ⟨-, rfl | rfl⟩ <;> rfl
  · rintro ⟨same, libraries⟩
    by_cases vague : ∃ u ∈ S, u ≠ .library
    · obtain ⟨u, hu, definite⟩ := vague
      refine ⟨u, fun t ht => ?_⟩
      by_cases isLibrary : t = .library
      · subst isLibrary
        exact (refinesTo_iff_of_ne (Ne.symm definite)).2 ⟨rfl, libraries ht u hu⟩
      · rw [same t ht u hu isLibrary definite]
    · push Not at vague
      exact ⟨.library, fun t ht => (vague t ht).le⟩

/-- Kinds can become the same if of any two one can be refined to the other. -/
theorem bddAbove_iff_comparable {S : Set ArtifactType} :
    BddAbove S ↔ ∀ t ∈ S, ∀ u ∈ S, t ≤ u ∨ u ≤ t := by
  constructor
  · rintro ⟨v, hv⟩ t ht u hu
    exact le_total_of_le (hv ht) (hv hu)
  · intro comparable
    refine bddAbove_iff.2 ⟨fun t ht u hu dt du => ?_, fun vague t ht => ?_⟩
    · rcases comparable t ht u hu with le | le
      · exact (le_iff.1 le).resolve_right fun h => dt h.1
      · exact ((le_iff.1 le).resolve_right fun h => du h.1).symm
    · rcases comparable _ vague t ht with le | le
      · rcases le_iff.1 le with rfl | ⟨-, rfl | rfl⟩ <;> rfl
      · rcases le_iff.1 le with rfl | ⟨rfl, -⟩ <;> rfl

end ArtifactType

/-! ## Generators -/

/-- Whether a generator that was observed fits one that is known: it may be missing. -/
def GeneratorLe (a b : Option Id) : Prop := a = none ∨ a = b

theorem GeneratorLe.trans {a b c : Option Id} (hab : GeneratorLe a b) (hbc : GeneratorLe b c) :
    GeneratorLe a c := by
  rcases hab with rfl | rfl
  · exact .inl rfl
  · exact hbc

theorem GeneratorLe.antisymm {a b : Option Id} (hab : GeneratorLe a b) (hba : GeneratorLe b a) :
    a = b := by
  rcases hab with rfl | rfl
  · rcases hba with rfl | rfl <;> rfl
  · rfl

/-- The generator that is known once both have been observed. -/
def joinGenerator? : Option Id → Option Id → Option (Option Id)
  | none, b => some b
  | some c, none => some (some c)
  | some c, some d => if c = d then some (some c) else none

theorem joinGenerator?_eq_some {a b c : Option Id} (h : joinGenerator? a b = some c) :
    GeneratorLe a c ∧ GeneratorLe b c ∧
      ∀ d, GeneratorLe a d → GeneratorLe b d → GeneratorLe c d := by
  rcases a with _ | a <;> rcases b with _ | b <;> simp only [joinGenerator?] at h
  · cases h
    exact ⟨.inl rfl, .inl rfl, fun _ _ h => h⟩
  · cases h
    exact ⟨.inl rfl, .inr rfl, fun _ _ h => h⟩
  · cases h
    exact ⟨.inr rfl, .inl rfl, fun _ h _ => h⟩
  · split_ifs at h with same
    subst same
    cases h
    exact ⟨.inr rfl, .inr rfl, fun _ h _ => h⟩

theorem joinGenerator?_eq_none {a b : Option Id} (h : joinGenerator? a b = none) (c : Option Id) :
    ¬ (GeneratorLe a c ∧ GeneratorLe b c) := by
  rcases a with _ | a <;> rcases b with _ | b <;> simp only [joinGenerator?] at h
  all_goals try cases h
  split_ifs at h with differ
  rintro ⟨ha | ha, hb | hb⟩
  · cases ha
  · cases ha
  · cases hb
  · exact differ (Option.some.inj (ha.trans hb.symm))

/-! ## Kind and generator -/

/-- What is known of an artifact beside its name. -/
structure Knowledge where
  type : ArtifactType
  generator : Option Id
  deriving DecidableEq

/-- What the row of an artifact says. -/
def Artifact.knowledge (a : Artifact) : Knowledge := ⟨a.type, a.generator⟩

namespace Knowledge

instance : PartialOrder Knowledge where
  le a b := a.type ≤ b.type ∧ GeneratorLe a.generator b.generator
  le_refl a := ⟨le_refl a.type, .inr rfl⟩
  le_trans _ _ _ h h' := ⟨h.1.trans h'.1, h.2.trans h'.2⟩
  le_antisymm a b h h' := by
    obtain ⟨t, c⟩ := a
    obtain ⟨u, d⟩ := b
    rw [show t = u from le_antisymm h.1 h'.1, show c = d from h.2.antisymm h'.2]

/-- No knowledge is below all other: something always contradicts it. -/
theorem exists_not_le (a : Knowledge) : ∃ b, ¬ a ≤ b := by
  by_cases h : a.type = .source
  · refine ⟨⟨.object, none⟩, fun hle => ?_⟩
    simpa [h] using ArtifactType.le_iff.1 hle.1
  · refine ⟨⟨.source, none⟩, fun hle => ?_⟩
    simpa [h] using ArtifactType.le_iff.1 hle.1

/-- What is known once both have been observed. -/
def join? (a b : Knowledge) : Option Knowledge := do
  return ⟨← a.type.join? b.type, ← joinGenerator? a.generator b.generator⟩

theorem join?_eq_some {a b c : Knowledge} (h : a.join? b = some c) : IsLUB {a, b} c := by
  obtain ⟨t, ht, h⟩ := Option.bind_eq_some_iff.1 h
  obtain ⟨d, hd, h⟩ := Option.bind_eq_some_iff.1 h
  obtain rfl := Option.some.inj h
  obtain ⟨ht₁, ht₂, ht⟩ := ArtifactType.join?_eq_some ht
  obtain ⟨hd₁, hd₂, hd⟩ := joinGenerator?_eq_some hd
  constructor
  · rintro κ (rfl | rfl)
    · exact ⟨ht₁, hd₁⟩
    · exact ⟨ht₂, hd₂⟩
  · intro κ hκ
    have ha : a ≤ κ := hκ (.inl rfl)
    have hb : b ≤ κ := hκ (.inr rfl)
    exact ⟨ht _ ha.1 hb.1, hd _ ha.2 hb.2⟩

theorem join?_eq_none {a b : Knowledge} (h : a.join? b = none) : ¬ BddAbove {a, b} := by
  rintro ⟨κ, hκ⟩
  have ha : a ≤ κ := hκ (.inl rfl)
  have hb : b ≤ κ := hκ (.inr rfl)
  rcases ht : a.type.join? b.type with _ | t
  · exact ArtifactType.join?_eq_none ht _ ⟨ha.1, hb.1⟩
  rcases hd : joinGenerator? a.generator b.generator with _ | d
  · exact joinGenerator?_eq_none hd _ ⟨ha.2, hb.2⟩
  simp [join?, ht, hd] at h

/-- Pieces of knowledge fit together if the kinds do and there are no two generators. -/
theorem bddAbove_iff {S : Set Knowledge} :
    BddAbove S ↔ BddAbove (type '' S) ∧ {c | ∃ κ ∈ S, c ∈ κ.generator}.Subsingleton := by
  constructor
  · rintro ⟨κ, hκ⟩
    refine ⟨⟨κ.type, ?_⟩, ?_⟩
    · rintro _ ⟨a, ha, rfl⟩
      exact (hκ ha).1
    · have top : ∀ a ∈ S, ∀ c ∈ a.generator, κ.generator = some c := fun a ha c hc =>
        ((hκ ha).2.resolve_left fun none => by rw [none] at hc; cases hc).symm.trans hc
      rintro c ⟨a, ha, hc⟩ d ⟨b, hb, hd⟩
      exact Option.some.inj ((top a ha c hc).symm.trans (top b hb d hd))
  · rintro ⟨⟨t, ht⟩, once⟩
    by_cases generated : ∃ c, ∃ κ ∈ S, c ∈ κ.generator
    · obtain ⟨c, hc⟩ := generated
      refine ⟨⟨t, some c⟩, fun a ha => ⟨ht ⟨a, ha, rfl⟩, ?_⟩⟩
      rcases hd : a.generator with _ | d
      · exact .inl rfl
      · exact .inr (congrArg some (once ⟨a, ha, hd⟩ hc))
    · refine ⟨⟨t, none⟩, fun a ha => ⟨ht ⟨a, ha, rfl⟩, ?_⟩⟩
      rcases hd : a.generator with _ | d
      · exact .inl rfl
      · exact absurd ⟨d, a, ha, hd⟩ generated

/-- What is known once all has been observed has the generator of something observed. -/
theorem exists_generator_of_isLUB {S : Set Knowledge} {κ : Knowledge} (h : IsLUB S κ) {c : Id}
    (hc : κ.generator = some c) : ∃ a ∈ S, a.generator = some c := by
  by_contra other
  push Not at other
  -- without its generator it would still be an upper bound
  have bound : ⟨κ.type, none⟩ ∈ upperBounds S := fun a ha => by
    obtain ⟨type, generator⟩ := h.1 ha
    exact ⟨type, generator.imp_right fun same => absurd (same.trans hc) (other a ha)⟩
  rcases (h.2 bound).2 with none | none <;> exact absurd (hc.symm.trans none) nofun

/-- Knowledge that is below what is known adds nothing. -/
theorem join?_eq_left {a b : Knowledge} (h : b ≤ a) : a.join? b = some a := by
  rcases hc : a.join? b with _ | c
  · refine absurd ⟨a, ?_⟩ (join?_eq_none hc)
    rintro κ (rfl | rfl)
    · exact le_refl κ
    · exact h
  · have : IsLUB {a, b} a := by
      refine ⟨?_, fun κ hκ => hκ (.inl rfl)⟩
      rintro κ (rfl | rfl)
      · exact le_refl κ
      · exact h
    rw [(join?_eq_some hc).unique this]

end Knowledge

end BuildAudit
