import FieldQuery.Proofs.Completing
import FieldQuery.Proofs.Modes

/-!
# Queries that are typed on

Typing on adds tokens on the right. The phrases of a query stay, up to the last one, which may turn
out to be the start of a longer one (`phrases_append`). The check of fields and comparators sees all
of a phrase that it may refuse before the phrase is at its end, so what it refuses stays refused
(`readPhrases_error_of_grows`). So the start of a valid query passes, because the query does
(`Registry.validate_fieldsOnly`).
-/

namespace FieldQuery

/-- What phrases become when tokens are added on the right. -/
inductive Grows : List Phrase → List Phrase → Prop
  | nil (qs : List Phrase) : Grows [] qs
  | freeText (t : Token) (qs : List Phrase) : Grows [.freeText t] qs
  | dangling (name symbol value : Token) (qs : List Phrase) :
    Grows [.dangling name symbol] (.comparison name symbol value :: qs)
  | cons (p : Phrase) {ps qs : List Phrase} : Grows ps qs → Grows (p :: ps) (p :: qs)

theorem phrases_append (ts us : List Token) : Grows (phrases ts) (phrases (ts ++ us)) := by
  fun_induction phrases ts with
  | case1 => exact .nil _
  | case2 t ts c hc ih =>
    rw [List.cons_append, phrases_connective hc]
    exact ih.cons _
  | case3 t op hp hc => exact .freeText t _
  | case4 t op hp hc name rest hn ih =>
    rw [List.cons_append, List.cons_append, phrases_presence hc hp hn]
    exact ih.cons _
  | case5 t op hp hc name rest hn ih =>
    rw [List.cons_append, phrases_prefixOperator hc hp (by simpa using hn)]
    exact ih.cons _
  | case6 t ts hp hc hl ih =>
    rw [List.cons_append, phrases_literal hc hp hl]
    exact ih.cons _
  | case7 t hp hc hl => exact .freeText t _
  | case8 t hp hc hl symbol hs =>
    -- The only phrase that becomes another one: its value is typed on.
    have hn := Token.isName_of hc hp hl
    cases us with
    | nil =>
      rw [List.append_nil, phrases_dangling hn hs]
      exact (Grows.nil []).cons _
    | cons value us =>
      rw [List.cons_append, List.cons_append, List.nil_append, phrases_comparison hn hs]
      exact .dangling t symbol value _
  | case9 t hp hc hl symbol hs value rest ih =>
    rw [List.cons_append, List.cons_append, List.cons_append,
      phrases_comparison (Token.isName_of hc hp hl) hs]
    exact ih.cons _
  | case10 t hp hc hl symbol rest hs ih =>
    rw [List.cons_append, phrases_name (Token.isName_of hc hp hl) (by simpa using hs)]
    exact ih.cons _

namespace Registry

variable {r : Registry}

theorem readPhrase_dangling_error {name symbol value : Token} {e : ValidationError} :
    r.readPhrase .fieldsOnly (.dangling name symbol) = .error e
      ↔ r.readPhrase .fieldsOnly (.comparison name symbol value) = .error e := by
  simp only [readPhrase_dangling, readPhrase_comparison]
  rcases r.checkField name.text with e' | f
  · rfl
  · rcases hs : f.checkComparator symbol.text with e' | c <;>
      simp [hs, bind, Except.bind, pure, Except.pure]

theorem readPhrases_error_of_grows {ps qs : List Phrase} {e : ValidationError}
    (h : Grows ps qs) (he : r.readPhrases .fieldsOnly ps = .error e) :
    r.readPhrases .fieldsOnly qs = .error e := by
  induction h with
  | nil qs => simp [readPhrases_nil] at he
  | freeText t qs =>
    simp [readPhrases_cons, readPhrases_nil, readPhrase_freeText, bind, Except.bind, pure,
      Except.pure] at he
  | dangling name symbol value qs =>
    rcases readPhrases_cons_error.1 he with he | ⟨cs, -, he⟩
    · exact readPhrases_cons_error.2 (.inl (readPhrase_dangling_error.1 he))
    · simp [readPhrases_nil] at he
  | cons p hps ih =>
    rcases readPhrases_cons_error.1 he with he | ⟨cs, hcs, he⟩
    · exact readPhrases_cons_error.2 (.inl he)
    · exact readPhrases_cons_error.2 (.inr ⟨cs, hcs, ih he⟩)

theorem validate_error_append {ts : List Token} {e : ValidationError} (us : List Token)
    (h : r.validate .fieldsOnly ts = .error e) : r.validate .fieldsOnly (ts ++ us) = .error e :=
  validate_error_iff.2 (readPhrases_error_of_grows (phrases_append ts us) (validate_error_iff.1 h))

end Registry

namespace Engine

variable {σ : Type}

/-- Checked completion does not refuse the start of a query that is valid. What it refuses it
refuses however the query goes on, as long as there is no quote. -/
theorem completeChecked_append (e : Engine) {lookup : Lookup (StateM σ)}
    (hlookup : lookup.NoValidation) (s t : String) :
    ((∃ q, e.validate (s ++ t) = .ok q) →
        ∀ st err, ((e.completeChecked lookup s).run st).1 ≠ .error (.validation err))
      ∧ ∀ st err, ((e.completeChecked lookup s).run st).1 = .error (.validation err) →
        (∀ c ∈ (s ++ t).toList, isQuote c = false) →
          ∀ st', ((e.completeChecked lookup (s ++ t)).run st').1 = .error (.validation err) := by
  have happend : (s ++ t).toList = s.toList ++ t.toList := String.toList_append
  obtain ⟨us, hus⟩ := Reader.prefix_run_append s.toList t.toList
  constructor
  · rintro ⟨q, hq⟩ st err herr
    obtain ⟨-, herr⟩ := (completeChecked_error_iff hlookup).1 herr
    obtain ⟨l, hread, hfull⟩ := validate_ok hq
    obtain ⟨-, hclosed, -, htokens⟩ := Line.read_ok hread
    have hpass := Registry.validate_fieldsOnly hfull
    rw [htokens, hclosed, happend, ← hus, List.append_assoc,
      Registry.validate_error_append _ herr] at hpass
    simp at hpass
  · intro st err herr hquote st'
    obtain ⟨-, herr⟩ := (completeChecked_error_iff hlookup).1 herr
    refine completeChecked_of_error hquote ?_
    rw [happend, ← hus]
    exact Registry.validate_error_append us herr

def counter : Engine where
  registry := { fields := [{ name := "n", type := .integer }] }

/-- A dangling comparator passes because a number may follow, and an unknown field is refused with
or without what follows it. -/
theorem completeChecked_append_counter :
    (Lookup.none : Lookup (StateM Unit)).NoValidation
      ∧ (∃ q, counter.validate ("n =" ++ " 5") = .ok q)
      ∧ (∀ st err, ((counter.completeChecked (Lookup.none : Lookup (StateM Unit)) "n =").run st).1
          ≠ .error (.validation err))
      ∧ ((counter.completeChecked (Lookup.none : Lookup (StateM Unit)) "x = ").run ()).1
          = .error (.validation (.unknownField "x"))
      ∧ ((counter.completeChecked (Lookup.none : Lookup (StateM Unit))
          ("x = " ++ "1 and")).run ()).1
          = .error (.validation (.unknownField "x")) := by
  have hvalid : counter.validate ("n =" ++ " 5") = .ok { clauses := [.comparison "n" .eq "5"] } :=
    rfl
  have hunknown : ((counter.completeChecked (Lookup.none : Lookup (StateM Unit)) "x = ").run ()).1
      = .error (.validation (.unknownField "x")) := rfl
  refine ⟨Lookup.noValidation_none, ⟨_, hvalid⟩, ?_, hunknown, ?_⟩
  · exact (completeChecked_append counter Lookup.noValidation_none "n =" " 5").1 ⟨_, hvalid⟩
  · have hquote : ∀ c ∈ ("x = " ++ "1 and").toList, isQuote c = false := by simp [isQuote]
    exact (completeChecked_append counter Lookup.noValidation_none "x = " "1 and").2 () _ hunknown
      hquote ()

end Engine

end FieldQuery
