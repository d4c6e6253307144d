import FieldQuery.Proofs.Spans
import Mathlib.Tactic.SplitIfs

/-!
# Validation with and without values

The check of fields and comparators sees the same phrases as full validation, and of a phrase that
it passes full validation can only refuse the value (`Registry.readPhrase_full`). So the two agree
unless full validation stops at a value, and then it stops in front of anything that the check of
fields refuses (`Registry.validate_modes`). Where validation stops is said of the tokens: those
before the refused clause pass by themselves, and with the clause they do not
(`Registry.RefusesAt`).
-/

namespace FieldQuery

namespace ValidationError

def isAboutField : ValidationError → Bool
  | unknownField _ | unsupportedField _ | unsupportedOperator _ _ => true
  | _ => false

def isAboutValue : ValidationError → Bool
  | missingValue _ | invalidValue _ _ _ => true
  | _ => false

theorem not_isAboutValue {err : ValidationError} (h : err.isAboutField) :
    err.isAboutValue = false := by
  cases err <;> simp_all [isAboutField, isAboutValue]

end ValidationError

theorem bind_eq_error_iff {α β ε : Type} {x : Except ε α} {g : α → Except ε β} {e : ε} :
    x >>= g = .error e ↔ x = .error e ∨ ∃ a, x = .ok a ∧ g a = .error e := by
  rcases x with e' | a <;> simp [bind, Except.bind]

theorem Field.checkComparator_error {f : Field} {symbol : String} {err : ValidationError}
    (h : f.checkComparator symbol = .error err) : err.isAboutField := by
  unfold checkComparator at h
  split at h
  · cases h
  · cases h
    rfl

theorem Field.checkValue_error {f : Field} {c : Comparator} {value : String}
    {err : ValidationError} (h : f.checkValue c value = .error err) : err.isAboutValue := by
  unfold checkValue at h
  split at h
  · cases h
    rfl
  · cases h

namespace Registry

variable {r : Registry} {mode : ValidationMode} {err : ValidationError}

theorem checkField_error {name : String} (h : r.checkField name = .error err) :
    err.isAboutField := by
  unfold checkField at h
  split at h
  · cases h
    rfl
  · split_ifs at h
    cases h
    rfl

/-! ## One phrase -/

theorem readPhrase_fieldsOnly_error {p : Phrase} (h : r.readPhrase .fieldsOnly p = .error err) :
    err.isAboutField := by
  cases p with
  | connective c => cases h
  | presence op name =>
    rw [readPhrase_presence] at h
    rcases bind_eq_error_iff.1 h with hf | ⟨f, -, h⟩
    · exact checkField_error hf
    · cases h
  | comparison name symbol value =>
    rw [readPhrase_comparison] at h
    rcases bind_eq_error_iff.1 h with hf | ⟨f, -, h⟩
    · exact checkField_error hf
    · rcases bind_eq_error_iff.1 h with hs | ⟨c, -, h⟩
      · exact Field.checkComparator_error hs
      · cases h
  | dangling name symbol =>
    rw [readPhrase_dangling] at h
    rcases bind_eq_error_iff.1 h with hf | ⟨f, -, h⟩
    · exact checkField_error hf
    · rcases bind_eq_error_iff.1 h with hs | ⟨c, -, h⟩
      · exact Field.checkComparator_error hs
      · cases h
  | freeText t => cases h

/-- Full validation reads the phrase as the check of fields does, or refuses its value. -/
theorem readPhrase_full (r : Registry) (p : Phrase) :
    r.readPhrase .full p = r.readPhrase .fieldsOnly p
      ∨ (∃ cs, r.readPhrase .fieldsOnly p = .ok cs)
        ∧ ∃ err, err.isAboutValue ∧ r.readPhrase .full p = .error err := by
  cases p with
  | connective c => exact .inl rfl
  | presence op name => exact .inl rfl
  | comparison name symbol value =>
    simp only [readPhrase_comparison]
    rcases r.checkField name.text with err | f
    · exact .inl rfl
    · rcases hs : f.checkComparator symbol.text with err | c
      · exact .inl (by simp [hs, bind, Except.bind])
      · rcases hv : f.checkValue c value.unquoted with err | u
        · refine .inr ⟨⟨[.comparison f.name c value.unquoted], ?_⟩, err, ?_, ?_⟩
          · simp [hs, bind, Except.bind, pure, Except.pure]
          · exact Field.checkValue_error hv
          · simp [hs, hv, bind, Except.bind]
        · exact .inl (by simp [hs, hv, bind, Except.bind, pure, Except.pure])
  | dangling name symbol =>
    simp only [readPhrase_dangling]
    rcases r.checkField name.text with err | f
    · exact .inl rfl
    · rcases hs : f.checkComparator symbol.text with err | c
      · exact .inl (by simp [hs, bind, Except.bind])
      · refine .inr ⟨⟨[], ?_⟩, .missingValue f.name, rfl, ?_⟩
        · simp [hs, bind, Except.bind, pure, Except.pure]
        · simp [hs, bind, Except.bind]
  | freeText t => exact .inl rfl

/-! ## All phrases -/

theorem readPhrases_cons_error {p : Phrase} {ps : List Phrase} :
    r.readPhrases mode (p :: ps) = .error err ↔
      r.readPhrase mode p = .error err
        ∨ ∃ cs, r.readPhrase mode p = .ok cs ∧ r.readPhrases mode ps = .error err := by
  rw [readPhrases_cons, bind_eq_error_iff]
  simp [bind_eq_error_iff, pure, Except.pure]

/-- Reading stops at the first phrase that is refused. -/
theorem readPhrases_error_iff : ∀ {ps : List Phrase}, r.readPhrases mode ps = .error err ↔
    ∃ before p after, ps = before ++ p :: after ∧ (∃ cs, r.readPhrases mode before = .ok cs)
      ∧ r.readPhrase mode p = .error err
  | [] => by simp [readPhrases_nil]
  | p :: ps => by
    rw [readPhrases_cons_error, readPhrases_error_iff]
    constructor
    · rintro (hp | ⟨cs, hcs, before, q, after, rfl, ⟨ds, hds⟩, hq⟩)
      · exact ⟨[], p, ps, rfl, ⟨[], rfl⟩, hp⟩
      · refine ⟨p :: before, q, after, rfl, ⟨cs ++ ds, ?_⟩, hq⟩
        exact readPhrases_cons_ok_iff.2 ⟨cs, ds, hcs, hds, rfl⟩
    · rintro ⟨before, q, after, hps, ⟨cs, hcs⟩, hq⟩
      cases before with
      | nil =>
        obtain ⟨rfl, -⟩ := List.cons.inj hps
        exact .inl hq
      | cons p' before =>
        obtain ⟨rfl, rfl⟩ := List.cons.inj hps
        obtain ⟨ds, es, hds, hes, -⟩ := readPhrases_cons_ok_iff.1 hcs
        exact .inr ⟨ds, hds, before, q, after, rfl, ⟨es, hes⟩, hq⟩

/-- Full validation reads the phrases as the check of fields does, or refuses a value. -/
theorem readPhrases_full (r : Registry) : ∀ ps : List Phrase,
    r.readPhrases .full ps = r.readPhrases .fieldsOnly ps
      ∨ ∃ err, err.isAboutValue ∧ r.readPhrases .full ps = .error err
  | [] => .inl rfl
  | p :: ps => by
    rcases r.readPhrase_full p with hp | ⟨-, err, habout, hp⟩
    · rcases r.readPhrases_full ps with hps | ⟨err, habout, hps⟩
      · left
        rw [readPhrases_cons, readPhrases_cons, hp, hps]
      · rcases hcs : r.readPhrase .full p with err' | cs
        · left
          rw [readPhrases_cons, readPhrases_cons, ← hp, hcs]
          rfl
        · exact .inr ⟨err, habout, readPhrases_cons_error.2 (.inr ⟨cs, hcs, hps⟩)⟩
    · exact .inr ⟨err, habout, readPhrases_cons_error.2 (.inl hp)⟩

theorem readPhrases_fieldsOnly_error {ps : List Phrase}
    (h : r.readPhrases .fieldsOnly ps = .error err) : err.isAboutField := by
  obtain ⟨before, p, after, -, -, hp⟩ := readPhrases_error_iff.1 h
  exact readPhrase_fieldsOnly_error hp

theorem validate_full (r : Registry) (ts : List Token) :
    r.validate .full ts = r.validate .fieldsOnly ts
      ∨ ∃ err, err.isAboutValue ∧ r.validate .full ts = .error err := by
  rcases r.readPhrases_full (phrases ts) with h | ⟨err, habout, h⟩
  · exact .inl (by rw [validate_eq_map, validate_eq_map, h])
  · exact .inr ⟨err, habout, validate_error_iff.2 h⟩

theorem validate_fieldsOnly {ts : List Token} {q : Query} (h : r.validate .full ts = .ok q) :
    r.validate .fieldsOnly ts = .ok q := by
  rcases r.validate_full ts with hmodes | ⟨err, -, herr⟩
  · rw [← hmodes, h]
  · simp [h] at herr

end Registry

/-! ## The clause that is refused -/

/-- The tokens up to a phrase are read as the phrases up to it. -/
theorem phrases_split_at {p : Phrase} {after : List Phrase} :
    ∀ {before : List Phrase} {ts : List Token}, phrases ts = before ++ p :: after →
      ∃ left us, left ++ us <+: ts ∧ p.Spans us ∧ phrases left = before
        ∧ phrases (left ++ us) = before ++ [p]
  | [], ts, h => by
    obtain ⟨us, rest, rfl, hspans, -⟩ := phrases_eq_cons h
    have hus := phrases_front hspans h List.nil_prefix
    rw [List.append_nil] at hus
    exact ⟨[], us, List.prefix_append us rest, hspans, rfl, hus⟩
  | q :: before, ts, h => by
    obtain ⟨vs, rest, rfl, hspans, hrest⟩ := phrases_eq_cons h
    obtain ⟨left, us, hprefix, hp, hleft, hus⟩ := phrases_split_at hrest
    refine ⟨vs ++ left, us, ?_, hp, ?_, ?_⟩
    · rw [List.append_assoc]
      exact (List.prefix_append_right_inj vs).2 hprefix
    · rw [phrases_front hspans h ((List.prefix_append left us).trans hprefix), hleft]
    · rw [List.append_assoc, phrases_front hspans h hprefix, hus]
      rfl

namespace Registry

/-- Validation stops at the clause of the tokens `us`, which come after `left`. -/
structure RefusesAt (r : Registry) (mode : ValidationMode) (ts left us : List Token)
    (err : ValidationError) : Prop where
  tokens : left ++ us <+: ts
  clause : ∃ p : Phrase, p.Spans us ∧ phrases (left ++ us) = phrases left ++ [p]
    ∧ phrases (left ++ us) <+: phrases ts
  passes : ∃ q, r.validate mode left = .ok q
  refused : r.validate mode (left ++ us) = .error err
  fails : r.validate mode ts = .error err

variable {r : Registry} {mode : ValidationMode} {err : ValidationError}

theorem RefusesAt.of_phrases {ts left us : List Token} {p : Phrase} {before after : List Phrase}
    (hts : phrases ts = before ++ p :: after) (htokens : left ++ us <+: ts) (hspans : p.Spans us)
    (hleft : phrases left = before) (hus : phrases (left ++ us) = before ++ [p])
    (hpasses : ∃ cs, r.readPhrases mode before = .ok cs) (hp : r.readPhrase mode p = .error err) :
    r.RefusesAt mode ts left us err where
  tokens := htokens
  clause := ⟨p, hspans, by rw [hus, hleft], ⟨after, by rw [hus, hts]; simp⟩⟩
  passes := by
    obtain ⟨cs, hcs⟩ := hpasses
    exact ⟨_, validate_ok_iff.2 ⟨cs, hleft ▸ hcs, rfl⟩⟩
  refused := validate_error_iff.2 (readPhrases_error_iff.2 ⟨before, p, [], hus, hpasses, hp⟩)
  fails := validate_error_iff.2 (readPhrases_error_iff.2 ⟨before, p, after, hts, hpasses, hp⟩)

/-- What full validation passes, the check of fields passes with the same query, and what full
validation finds wrong with a field, so does the check of fields. It finds nothing wrong with a
value. Where it stops, full validation stops too, unless it has stopped at a value before. -/
theorem validate_modes (r : Registry) (ts : List Token) :
    (∀ q, r.validate .full ts = .ok q → r.validate .fieldsOnly ts = .ok q)
      ∧ (∀ err, err.isAboutField → r.validate .full ts = .error err →
        r.validate .fieldsOnly ts = .error err)
      ∧ ∀ err, r.validate .fieldsOnly ts = .error err → err.isAboutValue = false
        ∧ ∃ left us, r.RefusesAt .fieldsOnly ts left us err
          ∧ (r.RefusesAt .full ts left us err
            ∨ ∃ left' us' err', err'.isAboutValue ∧ left' ++ us' <+: left
              ∧ r.RefusesAt .full ts left' us' err') := by
  refine ⟨fun q => validate_fieldsOnly, fun err hfield hfull => ?_, fun err herr => ?_⟩
  · rcases r.validate_full ts with hmodes | ⟨err', hvalue, hfull'⟩
    · rw [← hmodes, hfull]
    · obtain rfl : err = err' := Except.error.inj (hfull.symm.trans hfull')
      simp [ValidationError.not_isAboutValue hfield] at hvalue
  · rw [validate_error_iff] at herr
    refine ⟨ValidationError.not_isAboutValue (readPhrases_fieldsOnly_error herr), ?_⟩
    obtain ⟨before, p, after, hts, hpasses, hp⟩ := readPhrases_error_iff.1 herr
    obtain ⟨left, us, htokens, hspans, hleft, hus⟩ := phrases_split_at hts
    refine ⟨left, us, .of_phrases hts htokens hspans hleft hus hpasses hp, ?_⟩
    rcases r.readPhrases_full before with hmodes | ⟨err', hvalue, hbefore⟩
    · -- No value is refused in front of the clause, and its error is found in both modes.
      left
      rcases r.readPhrase_full p with hp' | ⟨⟨cs, hcs⟩, -⟩
      · exact .of_phrases hts htokens hspans hleft hus (hmodes ▸ hpasses) (hp' ▸ hp)
      · simp [hp] at hcs
    · right
      obtain ⟨before', p', after', rfl, hpasses', hp'⟩ := readPhrases_error_iff.1 hbefore
      obtain ⟨left', us', htokens', hspans', hleft', hus'⟩ := phrases_split_at hleft
      rw [List.append_assoc, List.cons_append] at hts
      have hleftward := (htokens'.trans (List.prefix_append left us)).trans htokens
      exact ⟨left', us', err', hvalue, htokens',
        .of_phrases hts hleftward hspans' hleft' hus' hpasses' hp'⟩

def till : Registry where
  fields := [{ name := "price", type := .integer }]

/-- The first clause has a value that is no number, and the second has a field that is unknown. -/
theorem validate_modes_till :
    ∃ l, Line.read "price = low sum = 3" = .ok l
      ∧ till.validate .fieldsOnly l.tokens = .error (.unknownField "sum")
      ∧ ∃ left us left' us',
        till.RefusesAt .fieldsOnly l.tokens left us (.unknownField "sum")
        ∧ till.RefusesAt .full l.tokens left' us' (.invalidValue "price" "low" "integer")
        ∧ left' ++ us' <+: left := by
  obtain ⟨l, hread, hfields, hfull⟩ : ∃ l, Line.read "price = low sum = 3" = .ok l
      ∧ till.validate .fieldsOnly l.tokens = .error (.unknownField "sum")
      ∧ till.validate .full l.tokens = .error (.invalidValue "price" "low" "integer") :=
    ⟨_, rfl, rfl, rfl⟩
  obtain ⟨-, left, us, hat, h⟩ := (validate_modes till l.tokens).2.2 _ hfields
  refine ⟨l, hread, hfields, left, us, ?_⟩
  rcases h with hsame | ⟨left', us', err', -, hleft, hat'⟩
  · have hfails := hsame.fails
    rw [hfull] at hfails
    cases hfails
  · obtain rfl := Except.error.inj (hfull.symm.trans hat'.fails)
    exact ⟨left', us', hat, hat', hleft⟩

end Registry

end FieldQuery
