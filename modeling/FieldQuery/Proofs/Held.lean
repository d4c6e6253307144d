import FieldQuery.Proofs.Phrases
import Mathlib.Data.List.Induction

/-!
# The phrase at the end of a query

The position that a replay reaches says how the last phrase stands: it is at its end, or the last
one or two tokens may belong to a phrase that goes on (`Held`). All before them is settled, whatever
comes next (`exists_held`). The subject and the comparator of a replay are the texts of the tokens
that are held.
-/

namespace FieldQuery

/-- The tokens at the end of a query that may belong to a phrase with the token that comes next,
after a replay of the query. -/
inductive Held (r : Replay) : List Token → Prop
  | none (h : r.position = .start ∨ r.position = .afterClause ∨ r.position = .afterConnective) :
    Held r []
  | name {t : Token} (h : r.position = .afterField) (hn : t.isName)
    (hs : r.subject = some t.text) : Held r [t]
  | prefixOperator {t : Token} {op : PrefixOperator} (h : r.position = .afterPrefix)
    (hc : Connective.ofWord? t.text = none) (hp : PrefixOperator.ofWord? t.text = some op) :
    Held r [t]
  | comparator {t symbol : Token} (h : r.position = .afterComparator) (hn : t.isName)
    (hs : symbol.isSymbol) (hsubject : r.subject = some t.text)
    (hcomparator : r.comparator = some symbol.text) : Held r [t, symbol]

namespace Held

variable {r : Replay} {t : Token}

theorem step_start (h : r.position.next t = Position.start.next t) :
    ∃ ps held, held <:+ [t] ∧ Held (r.step t) held
      ∧ ∀ us, phrases (t :: us) = ps ++ phrases (held ++ us) := by
  rcases hc : Connective.ofWord? t.text with _ | c
  · rcases ho : PrefixOperator.ofWord? t.text with _ | op
    · by_cases hl : t.literal
      · have hnext := h.trans (Position.next_literal hc ho hl)
        refine ⟨[.freeText t], [], List.nil_suffix, .none (.inr (.inl ?_)), fun us => ?_⟩
        · rw [Replay.step_position, hnext]
        · rw [phrases_literal hc ho hl]
          rfl
      · have hn := Token.isName_of hc ho hl
        have hnext := h.trans (Position.next_name hn)
        refine ⟨[], [t], List.suffix_refl _, .name ?_ hn ?_, fun us => rfl⟩
        · rw [Replay.step_position, hnext]
        · simp [Replay.step, hnext]
    · have hnext := h.trans (Position.next_prefixOperator hc ho)
      refine ⟨[], [t], List.suffix_refl _, .prefixOperator ?_ hc ho, fun us => rfl⟩
      rw [Replay.step_position, hnext]
  · have hnext := h.trans (Position.next_connective hc)
    refine ⟨[.connective c], [], List.nil_suffix, .none (.inr (.inr ?_)), fun us => ?_⟩
    · rw [Replay.step_position, hnext]
    · rw [phrases_connective hc]
      rfl

/-- One more token ends the phrase, goes on with it, or starts another. -/
theorem step {held : List Token} (h : Held r held) (t : Token) :
    ∃ ps held', held' <:+ held ++ [t] ∧ Held (r.step t) held'
      ∧ ∀ us, phrases (held ++ t :: us) = ps ++ phrases (held' ++ us) := by
  cases h with
  | none h =>
    refine step_start ?_
    rcases h with h | h | h <;> rw [h]
    · exact Position.next_afterClause t
    · exact Position.next_afterConnective t
  | @name n h hn hs =>
    by_cases hsymbol : t.isSymbol
    · refine ⟨[], [n, t], List.suffix_refl _, .comparator ?_ hn hsymbol ?_ ?_, fun us => rfl⟩
      · rw [Replay.step_position, h, Position.next_symbol hsymbol]
      · simp [Replay.step, h, Position.next_symbol hsymbol, hs]
      · simp [Replay.step, h, Position.next_symbol hsymbol]
    · obtain ⟨ps, held, hsuffix, hheld, hps⟩ :=
        step_start (h ▸ Position.next_no_symbol hsymbol)
      refine ⟨.freeText n :: ps, held, hsuffix.trans (List.suffix_cons _ _), hheld, fun us => ?_⟩
      rw [List.singleton_append, phrases_name hn (by simpa using hsymbol), hps]
      rfl
  | @prefixOperator p op h hc hp =>
    by_cases hn : t.isName
    · refine ⟨[.presence op t], [], List.nil_suffix, .none (.inr (.inl ?_)), fun us => ?_⟩
      · rw [Replay.step_position, h, Position.next_prefixed hn]
      · rw [List.singleton_append, phrases_presence hc hp hn]
        rfl
    · obtain ⟨ps, held, hsuffix, hheld, hps⟩ := step_start (h ▸ Position.next_no_name hn)
      refine ⟨.freeText p :: ps, held, hsuffix.trans (List.suffix_cons _ _), hheld, fun us => ?_⟩
      rw [List.singleton_append, phrases_prefixOperator hc hp (by simpa using hn), hps]
      rfl
  | @comparator n symbol h hn hs hsubject hcomparator =>
    refine ⟨[.comparison n symbol t], [], List.nil_suffix, .none (.inr (.inl ?_)), fun us => ?_⟩
    · rw [Replay.step_position, h, Position.next_value]
    · rw [List.cons_append, List.singleton_append, phrases_comparison hn hs]
      rfl

end Held

/-- After any query, all but the tokens that are held make up phrases of their own. -/
theorem exists_held (ts : List Token) : ∃ ps held, held <:+ ts ∧ Held (Replay.run ts) held
    ∧ ∀ us, phrases (ts ++ us) = ps ++ phrases (held ++ us) := by
  -- What is held depends on the last tokens, so the query grows on the right.
  induction ts using List.reverseRecOn with
  | nil => exact ⟨[], [], List.suffix_refl _, .none (.inl rfl), fun us => rfl⟩
  | append_singleton ts t ih =>
    obtain ⟨ps, held, hsuffix, hheld, hps⟩ := ih
    obtain ⟨qs, held', hsuffix', hheld', hqs⟩ := hheld.step t
    refine ⟨ps ++ qs, held', ?_, ?_, fun us => ?_⟩
    · obtain ⟨front, rfl⟩ := hsuffix
      exact hsuffix'.trans ⟨front, by simp⟩
    · rw [Replay.run_concat]
      exact hheld'
    · rw [List.append_assoc, List.singleton_append, hps, hqs, List.append_assoc]

theorem Held.exists_name {r : Replay} {held : List Token} (h : Held r held)
    (hp : r.position = .afterField) :
    ∃ name, held = [name] ∧ name.isName ∧ r.subject = some name.text := by
  cases h with
  | none h => simp [hp] at h
  | @name t h hn hs => exact ⟨t, rfl, hn, hs⟩
  | prefixOperator h hc ho => simp [hp] at h
  | comparator h hn hs hsubject hcomparator => simp [hp] at h

theorem Held.exists_comparator {r : Replay} {held : List Token} (h : Held r held)
    (hp : r.position = .afterComparator) : ∃ name symbol, held = [name, symbol]
      ∧ r.subject = some name.text ∧ r.comparator = some symbol.text := by
  cases h with
  | none h => simp [hp] at h
  | name h hn hs => simp [hp] at h
  | prefixOperator h hc ho => simp [hp] at h
  | @comparator name symbol h hn hs hsubject hcomparator =>
    exact ⟨name, symbol, rfl, hsubject, hcomparator⟩

/-- What comes after a query that passes is checked together with the tokens that are held. -/
theorem Registry.validate_append_error_iff {r : Registry} {mode : ValidationMode}
    {ts held us : List Token} {ps : List Phrase} {q : Query} {e : ValidationError}
    (hps : ∀ us, phrases (ts ++ us) = ps ++ phrases (held ++ us))
    (hq : r.validate mode ts = .ok q) :
    r.validate mode (ts ++ us) = .error e
      ↔ r.readPhrases mode (phrases (held ++ us)) = .error e := by
  obtain ⟨cs, hcs⟩ : ∃ cs, r.readPhrases mode ps = .ok cs := by
    obtain ⟨ds, hds, -⟩ := validate_ok_iff.1 hq
    have hphrases := hps []
    rw [List.append_nil] at hphrases
    rw [hphrases, readPhrases_append] at hds
    rcases hcs : r.readPhrases mode ps with e | cs
    · simp [hcs, bind, Except.bind] at hds
    · exact ⟨cs, rfl⟩
  rw [validate_error_iff, hps, readPhrases_append, hcs]
  rcases r.readPhrases mode (phrases (held ++ us)) with e' | ds <;>
    simp [bind, Except.bind, pure, Except.pure]

end FieldQuery
