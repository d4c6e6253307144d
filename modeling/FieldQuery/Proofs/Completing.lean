import FieldQuery.Completion.Engine
import FieldQuery.Proofs.Reading

/-!
# What a completion comes to

A completion looks values up once at most, so with a lookup that changes a state it comes to the
answer of that lookup and the state after it (`completeLine_run`). A lookup may fail with any error,
even with one that validation gives, and completion passes that on. With a lookup that does not
(`Lookup.NoValidation`), checked completion refuses a line exactly when the check of its closed
tokens does (`completeChecked_error_iff`).
-/

namespace FieldQuery

variable {σ : Type} (lookup : Lookup (StateM σ)) (st : σ)

/-- The lookup finds values or does not, and has nothing to say about queries. -/
def Lookup.NoValidation : Prop :=
  ∀ f st err, ((lookup f).run st).1 ≠ .error (.validation err)

theorem Lookup.noValidation_none : (Lookup.none : Lookup (StateM σ)).NoValidation := by
  intro f st err h
  cases h

theorem Registry.enumerate_run (r : Registry) (threshold : Nat) (c : Context) :
    (r.enumerate threshold lookup c).run st =
      match r.valueField? c with
      | some f => (((lookup f).run st).1.map fun known => r.candidates threshold known c,
          ((lookup f).run st).2)
      | none => (.ok (r.candidates threshold [] c), st) := by
  unfold enumerate
  cases r.valueField? c <;> rfl

namespace Engine

variable (e : Engine)

theorem completeLine_run (l : Line) :
    (e.completeLine lookup l).run st =
      (((e.registry.enumerate e.threshold lookup l.context).run st).1.map (render l.head),
        ((e.registry.enumerate e.threshold lookup l.context).run st).2) :=
  rfl

/-- Completing a line fails only as the lookup does. -/
theorem completeLine_error {l : Line} {err : Error}
    (h : ((e.completeLine lookup l).run st).1 = .error err) :
    ∃ f, ((lookup f).run st).1 = .error err := by
  rw [completeLine_run, Registry.enumerate_run] at h
  rcases hf : e.registry.valueField? l.context with _ | f
  · simp [hf, Except.map] at h
  · refine ⟨f, ?_⟩
    rcases hlookup : ((lookup f).run st).1 with err' | known <;>
      simp_all [Except.map]

end Engine

theorem completable_of_no_quote {s : String} (hq : ∀ c ∈ s.toList, isQuote c = false) :
    ∃ l, completable? s = some l ∧ Line.read s = .ok l := by
  obtain ⟨l, hl⟩ := Line.read_of_no_quote hq
  have hany : ¬ s.toList.any isQuote := by simpa using hq
  refine ⟨l, ?_, hl⟩
  rw [completable?, if_neg hany, hl]
  rfl

theorem completable_of_quote {s : String} (hq : ¬ ∀ c ∈ s.toList, isQuote c = false) :
    completable? s = none := by
  have hany : s.toList.any isQuote := by simpa using hq
  rw [completable?, if_pos hany]

namespace Engine

variable {lookup st} {e : Engine}

theorem complete_eq {s : String} (hq : ∀ c ∈ s.toList, isQuote c = false) {l : Line}
    (hread : Line.read s = .ok l) : e.complete lookup s = e.completeLine lookup l := by
  obtain ⟨l', hl, hread'⟩ := completable_of_no_quote hq
  rw [complete, hl, Except.ok.inj (hread.symm.trans hread')]

theorem completeChecked_of_error {s : String} {err : ValidationError}
    (hq : ∀ c ∈ s.toList, isQuote c = false)
    (h : e.registry.validate .fieldsOnly (Reader.run s.toList).tokens = .error err) :
    ((e.completeChecked lookup s).run st).1 = .error (.validation err) := by
  obtain ⟨l, hl, hread⟩ := completable_of_no_quote hq
  obtain ⟨-, hclosed, -⟩ := Line.read_ok hread
  simp only [completeChecked, hl, hclosed, h]
  rw [StateT.run_pure]
  rfl

/-- Checked completion fails only as its check or the lookup does. -/
theorem completeChecked_error {s : String} {err : Error}
    (h : ((e.completeChecked lookup s).run st).1 = .error err) :
    ((∀ c ∈ s.toList, isQuote c = false)
        ∧ ∃ err', e.registry.validate .fieldsOnly (Reader.run s.toList).tokens = .error err'
          ∧ err = .validation err')
      ∨ ∃ f, ((lookup f).run st).1 = .error err := by
  by_cases hq : ∀ c ∈ s.toList, isQuote c = false
  · rcases hv : e.registry.validate .fieldsOnly (Reader.run s.toList).tokens with err' | q
    · rw [completeChecked_of_error hq hv] at h
      exact .inl ⟨hq, err', rfl, (Except.error.inj h).symm⟩
    · obtain ⟨l, hl, hread⟩ := completable_of_no_quote hq
      obtain ⟨-, hclosed, -⟩ := Line.read_ok hread
      simp only [completeChecked, hl, hclosed, hv] at h
      exact .inr (e.completeLine_error lookup st h)
  · rw [completeChecked, completable_of_quote hq] at h
    cases h

theorem completeChecked_error_iff (hlookup : lookup.NoValidation) {s : String}
    {err : ValidationError} : ((e.completeChecked lookup s).run st).1 = .error (.validation err)
      ↔ (∀ c ∈ s.toList, isQuote c = false)
        ∧ e.registry.validate .fieldsOnly (Reader.run s.toList).tokens = .error err := by
  refine ⟨fun h => ?_, fun ⟨hq, herr⟩ => completeChecked_of_error hq herr⟩
  rcases completeChecked_error h with ⟨hq, err', hv, herr⟩ | ⟨f, hf⟩
  · obtain rfl : err = err' := Error.validation.inj herr
    exact ⟨hq, hv⟩
  · exact absurd hf (hlookup f st err)

theorem validate_ok {s : String} {q : Query} (h : e.validate s = .ok q) :
    ∃ l, Line.read s = .ok l ∧ e.registry.validate .full l.tokens = .ok q := by
  rw [validate, Registry.validateText] at h
  rcases hread : Line.read s with err | l
  · rw [hread] at h
    cases h
  · rw [hread] at h
    simp only [] at h
    rcases hv : e.registry.validate .full l.tokens with err | q'
    · rw [hv] at h
      cases h
    · rw [hv] at h
      exact ⟨l, rfl, hv.trans (congrArg Except.ok (Except.ok.inj h))⟩

end Engine

end FieldQuery
