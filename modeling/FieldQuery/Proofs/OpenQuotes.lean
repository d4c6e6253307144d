import FieldQuery.Proofs.Completing
import FieldQuery.Proofs.Modes
import FieldQuery.Proofs.Spacing
import FieldQuery.Shell.Evaluate
import FieldQuery.Shell.Highlight
import Mathlib.Data.List.TFAE

/-!
# Lines that end inside a quote

The reader starts anew with every token, and highlighting scans the whole line at once. Both have
the same quote open, because a token only ends where none is (`Reader.quote_run`). So everything
that asks for an open quote gets the answer that the reader gives: the line is incomplete, has no
position and no suggestions, and is not valid. The blanks that are trimmed off before a line is
evaluated are no quotes, and so make no difference.
-/

namespace FieldQuery

theorem fromOpenQuote?_isSome : ∀ (cs : List Char) (found : Option (Char × List Char)),
    (fromOpenQuote? found cs).isSome = (cs.foldl quoteAfter (found.map (·.1))).isSome
  | [], found => by simp [fromOpenQuote?]
  | c :: cs, none => by
    rw [fromOpenQuote?, fromOpenQuote?_isSome cs, List.foldl_cons]
    by_cases hc : isQuote c <;> simp [quoteAfter, hc]
  | c :: cs, some (q, rest) => by
    rw [fromOpenQuote?, fromOpenQuote?_isSome cs, List.foldl_cons]
    by_cases hc : c = q <;> simp [quoteAfter, hc]

theorem splitAtOpenWord?_isSome_iff {s : String} :
    (splitAtOpenWord? s.toList).isSome ↔ HasOpenQuote s := by
  simp [splitAtOpenWord?, HasOpenQuote, fromOpenQuote?_isSome]

/-- The blanks at the ends of a line are no quotes. -/
theorem hasOpenQuote_trim_iff {s : String} : HasOpenQuote (trim s) ↔ HasOpenQuote s := by
  have h := Line.unplaced_trim s
  rw [← Line.read_error_iff, ← Line.read_error_iff]
  rcases htrim : Line.read (trim s) with ⟨⟩ | l <;> rcases hs : Line.read s with ⟨⟩ | l' <;>
    simp [htrim, hs, Except.map] at h ⊢

theorem isCompleteLine_eq_false_iff {s : String} :
    isCompleteLine s = false ↔ HasOpenQuote s := by
  rw [← Line.read_error_iff, isCompleteLine]
  rcases Line.read s with ⟨⟩ | l <;> simp [Except.isOk, Except.toBool]

theorem position?_eq_none_iff {s : String} : Engine.position? s = none ↔ HasOpenQuote s := by
  rw [← Line.read_error_iff, Engine.position?]
  rcases Line.read s with ⟨⟩ | l <;> simp [Except.toOption]

/-- There is nothing to complete inside a quote. -/
theorem HasOpenQuote.completable_eq_none {s : String} (h : HasOpenQuote s) :
    completable? s = none := by
  refine completable_of_quote fun hq => ?_
  rw [HasOpenQuote, Reader.quote_of_no_quote hq] at h
  cases h

/-! ## What validation reports -/

theorem bind_ne_error {α β ε : Type} {x : Except ε α} {g : α → Except ε β} {e : ε}
    (hx : x ≠ .error e) (hg : ∀ a, g a ≠ .error e) : x >>= g ≠ .error e := by
  rw [Ne, bind_eq_error_iff]
  rintro (h | ⟨a, -, h⟩)
  · exact hx h
  · exact hg a h

section Unterminated

variable {r : Registry} {mode : ValidationMode}

theorem readPhrases_ne_unterminated (ps : List Phrase) :
    r.readPhrases mode ps ≠ .error .unterminatedLiteral := by
  intro h
  cases mode with
  | full =>
    rcases r.readPhrases_full ps with hmodes | ⟨err, hvalue, hfull⟩
    · rw [hmodes] at h
      cases Registry.readPhrases_fieldsOnly_error h
    · obtain rfl := Except.error.inj (h.symm.trans hfull)
      cases hvalue
  | fieldsOnly => cases Registry.readPhrases_fieldsOnly_error h

/-- Only reading the line reports a quote that is left open. -/
theorem validateText_open_iff {s : String} :
    r.validateText mode s = .error .unterminatedLiteral ↔ HasOpenQuote s := by
  rw [← Line.read_error_iff, Registry.validateText]
  rcases Line.read s with ⟨⟩ | l
  · simp
  · simp [Registry.validate_error_iff, readPhrases_ne_unterminated]

end Unterminated

/-! ## Evaluated lines -/

theorem Input.read_cases (line : String) :
    read line = .ok .empty ∨ (∃ c, read line = .ok (.command c))
      ∨ (∃ message, read line = .error (.other message))
      ∨ read line = .ok (.query (trim line)) := by
  unfold read
  simp only []
  split
  · exact .inl rfl
  · split
    · exact .inr (.inl ⟨_, rfl⟩)
    · split
      · exact .inr (.inr (.inl ⟨_, rfl⟩))
      · exact .inr (.inr (.inr rfl))

theorem Input.text_of_read {line text : String} (h : Input.read line = .ok (.query text)) :
    text = trim line := by
  rcases Input.read_cases line with hread | ⟨c, hread⟩ | ⟨message, hread⟩ | hread <;>
    rw [hread] at h
  · simp at h
  · simp at h
  · simp at h
  · exact (Input.query.inj (Except.ok.inj h)).symm

namespace Session

variable (s : Session) (fs : Files)

theorem runCommand_ne_validation (c : Command) (e : ValidationError) :
    s.runCommand fs c ≠ .error (.validation e) := by
  cases c with
  | help => simp [runCommand]
  | fields => simp [runCommand]
  | quit => simp [runCommand]
  | reload =>
    refine bind_ne_error ?_ fun next => by simp [pure, Except.pure]
    unfold reload
    split
    · simp
    · rename_i path hpath
      refine bind_ne_error ?_ fun loaded => by simp [pure, Except.pure]
      rcases fs.loadSchema path with e' | loaded <;> simp [Except.mapError]

/-- Of all lines, just the queries with an open quote are reported as unterminated. -/
theorem run_open_iff {line : String} :
    (Input.read line >>= s.runInput fs) = .error (.validation .unterminatedLiteral)
      ↔ HasOpenQuote line ∧ ∃ text, Input.read line = .ok (.query text) := by
  rcases Input.read_cases line with hread | ⟨c, hread⟩ | ⟨message, hread⟩ | hread <;> rw [hread]
  · simp [bind, Except.bind, runInput]
  · simpa [bind, Except.bind, runInput] using s.runCommand_ne_validation fs c _
  · simp [bind, Except.bind]
  · have hvalidate : s.engine.validate (trim line) = .error (.validation .unterminatedLiteral)
        ↔ HasOpenQuote line := by
      rw [← hasOpenQuote_trim_iff, ← validateText_open_iff (r := s.engine.registry),
        Engine.validate]
      rcases s.engine.registry.validateText .full (trim line) with e | q <;>
        simp [Except.mapError]
    rw [← hvalidate]
    rcases hq : s.engine.validate (trim line) with e | q <;>
      simp [bind, Except.bind, runInput, runQuery, hq, pure, Except.pure]

end Session

/-- Everything that asks whether a quote is open gets one answer, also for the line without the
blanks at its ends, which is what gets evaluated. So a line that was taken as complete is never
reported as unterminated, and inside a quote nothing is suggested. -/
theorem openQuote_agreement (e : Engine) (mode : ValidationMode) (line : String) :
    List.TFAE [Line.read line = .error .unterminatedLiteral,
        (splitAtOpenWord? line.toList).isSome,
        isCompleteLine line = false,
        Engine.position? line = none,
        e.registry.validateText mode line = .error .unterminatedLiteral,
        e.registry.validateText mode (trim line) = .error .unterminatedLiteral]
      ∧ (∀ text, Input.read line = .ok (.query text) → text = trim line)
      ∧ (∀ (s : Session) (fs : Files),
        (Input.read line >>= s.runInput fs) = .error (.validation .unterminatedLiteral)
          ↔ isCompleteLine line = false ∧ ∃ text, Input.read line = .ok (.query text))
      ∧ ∀ {m : Type → Type} [Monad m] (lookup : Lookup m), isCompleteLine line = false →
        e.complete lookup line = pure (.ok []) := by
  refine ⟨?_, fun text => Input.text_of_read, fun s fs => ?_, fun lookup hline => ?_⟩
  · apply List.tfae_of_forall (HasOpenQuote line)
    simp only [List.forall_mem_cons, List.not_mem_nil, false_implies, implies_true, and_true]
    exact ⟨Line.read_error_iff, splitAtOpenWord?_isSome_iff, isCompleteLine_eq_false_iff,
      position?_eq_none_iff, validateText_open_iff,
      validateText_open_iff.trans hasOpenQuote_trim_iff⟩
  · rw [s.run_open_iff fs, isCompleteLine_eq_false_iff]
  · have hopen : HasOpenQuote line := isCompleteLine_eq_false_iff.1 hline
    rw [Engine.complete, hopen.completable_eq_none]

end FieldQuery
