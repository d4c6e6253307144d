import FieldQuery.Proofs.Expansion
import FieldQuery.Proofs.Printing

/-!
# Comparators that are offered

After a field, completion lists the comparators of its type, and checked completion refuses a field
that may not be used and a comparator that the type of the field does not have. They come to the
field in different ways: the replay keeps the text of the last field, and validation cuts the tokens
into phrases. After tokens that pass, both look the last one up (`Held.exists_name`,
`validate_comparator_error_iff`). So the comparators on offer are those that pass, and there
are none after a field that may not be used (`complete_comparators`).
-/

namespace FieldQuery

theorem Comparator.symbol_injective {c d : Comparator} (h : c.symbol = d.symbol) : c = d := by
  have hd := ofSymbol?_symbol d
  rw [← h, ofSymbol?_symbol c] at hd
  exact Option.some.inj hd

theorem Field.checkComparator_symbol_error {f : Field} {c : Comparator}
    (h : c ∉ f.type.comparators) :
    f.checkComparator c.symbol = .error (.unsupportedOperator f.name c.symbol) := by
  have hc : f.comparator? c.symbol = none := by
    rw [comparator?, Comparator.ofSymbol?_symbol, Option.filter_some]
    simp [FieldType.supports, h]
  rw [checkComparator, hc]

namespace Registry

variable {r : Registry} {name : String} {c : Comparator}

/-- The name is one of a field that may be used, and its type has the comparator. -/
def Compares (r : Registry) (name : String) (c : Comparator) : Prop :=
  ∃ f, r.checkField name = .ok f ∧ c ∈ f.type.comparators

/-- What is wrong with the name, or else with the comparator after it. -/
def RefusesComparator (r : Registry) (name : String) (c : Comparator) (err : ValidationError) :
    Prop :=
  r.checkField name = .error err
    ∨ ∃ f, r.checkField name = .ok f ∧ f.checkComparator c.symbol = .error err

theorem compares_iff : r.Compares name c ↔ ∀ err, ¬ r.RefusesComparator name c err := by
  unfold Compares RefusesComparator
  rcases r.checkField name with err | f
  · simp
  · by_cases hc : c ∈ f.type.comparators
    · simp [hc, checkComparator_symbol hc]
    · simp [hc, Field.checkComparator_symbol_error hc]

theorem readPhrases_dangling_error_iff {t symbol : Token} (hs : symbol.text = c.symbol)
    {err : ValidationError} : r.readPhrases .fieldsOnly [.dangling t symbol] = .error err
      ↔ r.RefusesComparator t.text c err := by
  rw [RefusesComparator, ← hs, readPhrases_cons, readPhrase_dangling]
  rcases r.checkField t.text with err' | f
  · simp [bind, Except.bind]
  · rcases hc : f.checkComparator symbol.text with err' | d <;>
      simp [hc, readPhrases_nil, bind, Except.bind, pure, Except.pure]

theorem mem_comparatorCandidates {typed : String} {d : Candidate} :
    d ∈ r.comparatorCandidates name typed ↔
      ∃ c, r.Compares name c ∧ c.symbol.startsWith typed ∧ d = { text := c.symbol } := by
  unfold comparatorCandidates Compares
  rcases hf : r.enabled? name with _ | f
  · have hnone : ∀ f, r.checkField name ≠ .ok f := by
      simp [← enabled?_eq_some_iff, hf]
    simp [hnone]
  · simp [enabled?_eq_some_iff.1 hf, mem_wordCandidates]

theorem mem_render_comparators {head typed text : String} :
    text ∈ render head (r.comparatorCandidates name typed) ↔
      ∃ c, r.Compares name c ∧ c.symbol.startsWith typed
        ∧ text = head ++ " " ++ c.symbol ++ " " := by
  rw [mem_render]
  constructor
  · rintro ⟨d, hd, rfl⟩
    obtain ⟨c, hc, htyped, rfl⟩ := mem_comparatorCandidates.1 hd
    exact ⟨c, hc, htyped, Candidate.suggestion_terminal rfl head⟩
  · rintro ⟨c, hc, htyped, rfl⟩
    refine ⟨{ text := c.symbol }, mem_comparatorCandidates.2 ⟨c, hc, htyped, rfl⟩, ?_⟩
    rw [Candidate.suggestion_terminal rfl]

theorem suggested_iff {head typed : String} (htyped : c.symbol.startsWith typed) :
    head ++ " " ++ c.symbol ++ " " ∈ render head (r.comparatorCandidates name typed)
      ↔ r.Compares name c := by
  rw [mem_render_comparators]
  constructor
  · rintro ⟨d, hd, -, htext⟩
    rw [append_middle_inj] at htext
    exact Comparator.symbol_injective htext ▸ hd
  · exact fun hc => ⟨c, hc, htyped, rfl⟩

theorem comparatorCandidates_of_error {typed : String} {err : ValidationError}
    (h : r.checkField name = .error err) : r.comparatorCandidates name typed = [] := by
  refine List.eq_nil_iff_forall_not_mem.2 fun d hd => ?_
  obtain ⟨c, ⟨f, hf, -⟩, -⟩ := mem_comparatorCandidates.1 hd
  rw [h] at hf
  cases hf

end Registry

namespace Engine

variable {σ : Type} {lookup : Lookup (StateM σ)} {st : σ}

theorem complete_comparator {e : Engine} {s : String} {l : Line} (hread : Line.read s = .ok l)
    (hquote : ∀ c ∈ s.toList, isQuote c = false)
    (hp : (Replay.run l.closedTokens).position = .afterField) {name : Token}
    (hsubject : (Replay.run l.closedTokens).subject = some name.text) :
    ((e.complete lookup s).run st).1
      = .ok (render l.head (e.registry.comparatorCandidates name.text l.openText)) := by
  have hcontext : l.context = .comparator name.text l.openText := by
    simp [Line.context, Replay.context, hp, hsubject]
  rw [complete_eq hquote hread, completeLine_run, Registry.enumerate_run, hcontext]
  rfl

/-- A comparator that is typed after a name at the end of the line is refused with the name. -/
theorem validate_comparator_error_iff {e : Engine} {s : String} {l : Line}
    (hread : Line.read s = .ok l) (hquote : ∀ c ∈ s.toList, isQuote c = false) {q : Query}
    (hq : e.registry.validate .fieldsOnly l.closedTokens = .ok q) {name : Token}
    (hname : name.isName) {ps : List Phrase}
    (hps : ∀ us, phrases (l.closedTokens ++ us) = ps ++ phrases ([name] ++ us)) (c : Comparator) :
    (∀ d ∈ (l.head ++ c.symbol ++ " ").toList, isQuote d = false)
      ∧ ∀ err, e.registry.validate .fieldsOnly
          (Reader.run (l.head ++ c.symbol ++ " ").toList).tokens = .error err
        ↔ e.registry.RefusesComparator name.text c err := by
  obtain ⟨t, m, hrun, htext, hl, -⟩ :=
    Reader.run_typed (Line.run_head hread) c.isWord_symbol.isTokenText
  have hsymbol := Comparator.isSymbol_symbol htext (hl.trans c.isWord_symbol.no_literal)
  have hquote' : ∀ d ∈ (l.head ++ c.symbol ++ " ").toList, isQuote d = false := by
    simp only [String.toList_append, List.mem_append, or_imp, forall_and]
    exact ⟨⟨Line.head_no_quote hread hquote, c.isWord_symbol.noQuote⟩, by simp [isQuote]⟩
  refine ⟨hquote', fun err => ?_⟩
  rw [hrun, Registry.validate_append_error_iff hps hq, List.singleton_append,
    phrases_dangling hname hsymbol, Registry.readPhrases_dangling_error_iff htext]

/-- After the field `name` at the end of the closed tokens of the line, the suggestions are the
comparators that go on with the open word and that checked completion lets pass. -/
structure OffersComparators (e : Engine) (lookup : Lookup (StateM σ)) (l : Line) (name : Token)
    (suggestions : List String) : Prop where
  last : l.closedTokens.getLast? = some name
  comparator : ∀ text ∈ suggestions, ∃ c : Comparator, c.symbol.startsWith l.openText
    ∧ text = l.head ++ " " ++ c.symbol ++ " "
  offered_iff : lookup.NoValidation → ∀ c : Comparator, c.symbol.startsWith l.openText →
    (l.head ++ " " ++ c.symbol ++ " " ∈ suggestions ↔
      ∀ st err, ((e.completeChecked lookup (l.head ++ c.symbol ++ " ")).run st).1
        ≠ .error (.validation err))
  /-- After an unknown or disabled field there is nothing to suggest, and no comparator passes. -/
  refused : ∀ err, e.registry.checkField name.text = .error err → suggestions = []
    ∧ ∀ (c : Comparator) st, ((e.completeChecked lookup (l.head ++ c.symbol ++ " ")).run st).1
      = .error (.validation err)

/-- Where a comparator comes next, the comparators that are suggested are those that pass. -/
theorem complete_comparators (e : Engine) (lookup : Lookup (StateM σ)) (st : σ) {s : String}
    {l : Line} (hread : Line.read s = .ok l) (hquote : ∀ c ∈ s.toList, isQuote c = false)
    {q : Query} (hq : e.registry.validate .fieldsOnly l.closedTokens = .ok q)
    (hp : position? s = some .afterField) :
    ∃ name suggestions, ((e.complete lookup s).run st).1 = .ok suggestions
      ∧ e.OffersComparators lookup l name suggestions := by
  have hposition : (Replay.run l.closedTokens).position = .afterField := by
    simpa [position?, hread, Except.toOption] using hp
  obtain ⟨ps, held, hsuffix, hheld, hps⟩ := exists_held l.closedTokens
  obtain ⟨name, rfl, hname, hsubject⟩ := hheld.exists_name hposition
  have hrefused := validate_comparator_error_iff hread hquote hq hname hps
  refine ⟨name, _, complete_comparator hread hquote hposition hsubject, ?_, ?_, ?_, ?_⟩
  · obtain ⟨front, hfront⟩ := hsuffix
    rw [← hfront, List.getLast?_concat]
  · intro text htext
    obtain ⟨c, -, htyped, rfl⟩ := Registry.mem_render_comparators.1 htext
    exact ⟨c, htyped, rfl⟩
  · intro hlookup c htyped
    obtain ⟨hquote', herror⟩ := hrefused c
    rw [Registry.suggested_iff htyped, Registry.compares_iff]
    simp only [Ne, completeChecked_error_iff hlookup, and_iff_right hquote', herror]
    exact ⟨fun h _ => h, fun h => h st⟩
  · intro err herr
    refine ⟨?_, fun c st => ?_⟩
    · rw [Registry.comparatorCandidates_of_error herr]
      rfl
    · obtain ⟨hquote', herror⟩ := hrefused c
      exact completeChecked_of_error hquote' ((herror err).2 (.inl herr))

def orchard : Engine where
  registry := {
    fields := [{ name := "height", type := .integer, aliases := ["tall"] },
      { name := "owner", type := .string, completionEnabled := false }] }

/-- The alias of a number stands behind a clause that `and` joins without being typed, and two
comparators of numbers start with `!`. The second field may not be used. -/
theorem complete_comparators_orchard :
    (Lookup.none : Lookup (StateM Unit)).NoValidation
      ∧ (∃ l name, Line.read "ripe tall !" = .ok l
        ∧ orchard.registry.validate .fieldsOnly l.closedTokens = .ok
          { clauses := [.freeText "ripe", .logical .and, .freeText "tall"] }
        ∧ position? "ripe tall !" = some .afterField
        ∧ orchard.OffersComparators (Lookup.none : Lookup (StateM Unit)) l name
          ["ripe tall  != ", "ripe tall  !^ "])
      ∧ ∃ l name, Line.read "owner " = .ok l
        ∧ orchard.registry.validate .fieldsOnly l.closedTokens = .ok
          { clauses := [.freeText "owner"] }
        ∧ position? "owner " = some .afterField
        ∧ orchard.registry.checkField name.text = .error (.unsupportedField "owner")
        ∧ orchard.OffersComparators (Lookup.none : Lookup (StateM Unit)) l name [] := by
  refine ⟨Lookup.noValidation_none, ?_, ?_⟩
  · obtain ⟨l, hread, hq⟩ : ∃ l, Line.read "ripe tall !" = .ok l
        ∧ orchard.registry.validate .fieldsOnly l.closedTokens = .ok
          { clauses := [.freeText "ripe", .logical .and, .freeText "tall"] } := ⟨_, rfl, rfl⟩
    have hp : position? "ripe tall !" = some .afterField := by decide
    obtain ⟨name, suggestions, hs, h⟩ := complete_comparators orchard
      (Lookup.none : Lookup (StateM Unit)) () hread (by simp [isQuote]) hq hp
    have hnumbers : ((orchard.complete (Lookup.none : Lookup (StateM Unit)) "ripe tall !").run
        ()).1 = .ok ["ripe tall  != ", "ripe tall  !^ "] := by decide +kernel
    rw [hnumbers] at hs
    obtain rfl := Except.ok.inj hs
    exact ⟨l, name, hread, hq, hp, h⟩
  · obtain ⟨l, hread, hlast, hq⟩ : ∃ l, Line.read "owner " = .ok l
        ∧ l.closedTokens.getLast?.map Token.text = some "owner"
        ∧ orchard.registry.validate .fieldsOnly l.closedTokens = .ok
          { clauses := [.freeText "owner"] } := ⟨_, rfl, rfl, rfl⟩
    have hp : position? "owner " = some .afterField := by decide
    obtain ⟨name, suggestions, hs, h⟩ := complete_comparators orchard
      (Lookup.none : Lookup (StateM Unit)) () hread (by simp [isQuote]) hq hp
    have hname : name.text = "owner" := by simpa [h.last] using hlast
    have hdisabled : orchard.registry.checkField name.text
        = .error (.unsupportedField "owner") := by
      rw [hname]
      rfl
    obtain ⟨rfl, -⟩ := h.refused _ hdisabled
    exact ⟨l, name, hread, hq, hp, hdisabled, h⟩

end Engine

end FieldQuery
