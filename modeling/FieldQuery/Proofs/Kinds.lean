import FieldQuery.Proofs.Held

/-!
# The kinds of tokens fit together

The kind of a token is settled by the position before it and settles the position after it, except
that a field after a prefix operator ends a clause where another field begins one. So the position
is read off the last two kinds, and comparators and values stand only where a clause has come that
far. The texts that go with them, the field and the comparator of a pending value, are those of the
tokens that are held (`Replay.run_grammatical`).
-/

namespace FieldQuery

namespace Position

theorem next_afterPrefix_iff (p : Position) (t : Token) :
    (p.next t).1 = .afterPrefix ↔ (p.next t).2 = .prefixOperator := by
  unfold next
  split_ifs <;> simp

theorem next_afterComparator_iff (p : Position) (t : Token) :
    (p.next t).1 = .afterComparator ↔ (p.next t).2 = .comparator := by
  unfold next
  split_ifs <;> simp

theorem next_afterField_iff (p : Position) (t : Token) :
    (p.next t).1 = .afterField ↔ p ≠ .afterPrefix ∧ (p.next t).2 = .field := by
  unfold next
  split_ifs <;> simp_all

variable {p : Position} {t : Token}

theorem afterField_of_comparator (h : (p.next t).2 = .comparator) : p = .afterField := by
  unfold next at h
  split_ifs at h with _ _ _ _ _ hsymbol
  exact hsymbol.1

theorem afterComparator_of_value (h : (p.next t).2 = .value) : p = .afterComparator := by
  unfold next at h
  split_ifs at h with hp
  exact hp

end Position

/-- The last kind is a field that no prefix operator stands before. -/
def EndsInSubject (ks : List TokenKind) : Prop :=
  ∃ front, ks = front ++ [.field] ∧ front.getLast? ≠ some .prefixOperator

theorem endsInSubject_concat_iff {ks : List TokenKind} {k : TokenKind} :
    EndsInSubject (ks ++ [k]) ↔ ks.getLast? ≠ some .prefixOperator ∧ k = .field := by
  constructor
  · rintro ⟨front, hfront, hlast⟩
    obtain ⟨rfl, hk⟩ := List.append_inj' hfront rfl
    exact ⟨hlast, List.singleton_inj.1 hk⟩
  · rintro ⟨hlast, rfl⟩
    exact ⟨ks, rfl, hlast⟩

namespace Replay

/-! ## The position by the last kinds -/

/-- A position that goes with one kind is reached exactly if the last token is of that kind. -/
theorem position_iff_getLast? {p : Position} {k : TokenKind} (hp : p ≠ .start)
    (h : ∀ (p' : Position) (t : Token), (p'.next t).1 = p ↔ (p'.next t).2 = k) (ts : List Token) :
    (run ts).position = p ↔ (run ts).kinds.getLast? = some k := by
  rcases List.eq_nil_or_concat ts with rfl | ⟨ts, t, rfl⟩
  · simp [run, hp.symm]
  · rw [List.concat_eq_append, run_concat, step_position, step_kinds, List.getLast?_concat,
      Option.some_inj]
    exact h _ t

theorem position_afterPrefix_iff (ts : List Token) :
    (run ts).position = .afterPrefix ↔ (run ts).kinds.getLast? = some .prefixOperator :=
  position_iff_getLast? (by simp) Position.next_afterPrefix_iff ts

theorem position_afterComparator_iff (ts : List Token) :
    (run ts).position = .afterComparator ↔ (run ts).kinds.getLast? = some .comparator :=
  position_iff_getLast? (by simp) Position.next_afterComparator_iff ts

theorem position_afterField_iff (ts : List Token) :
    (run ts).position = .afterField ↔ EndsInSubject (run ts).kinds := by
  rcases List.eq_nil_or_concat ts with rfl | ⟨ts, t, rfl⟩
  · simp [run, EndsInSubject]
  · rw [List.concat_eq_append, run_concat, step_position, step_kinds, endsInSubject_concat_iff,
      Position.next_afterField_iff, Ne, position_afterPrefix_iff]

/-! ## The kinds before and after a token -/

theorem run_append_kinds (front back : List Token) :
    (run (front ++ back)).kinds = (run front).kinds ++ (run front).position.kinds back := by
  rw [run, List.foldl_append]
  exact foldl_step_kinds back (run front)

theorem length_run_kinds (ts : List Token) : (run ts).kinds.length = ts.length := by
  rw [run_kinds, Position.length_kinds]

/-- Around any kind, the kinds before it are those of the tokens before, and the kinds after it
those that the position behind it gives. -/
theorem exists_token_of_kinds {ts : List Token} {before after : List TokenKind} {k : TokenKind}
    (h : (run ts).kinds = before ++ k :: after) : ∃ front t back,
      (run front).kinds = before ∧ ((run front).position.next t).2 = k
        ∧ ((run front).position.next t).1.kinds back = after := by
  have hlength := length_run_kinds ts
  rw [h, List.length_append, List.length_cons] at hlength
  obtain ⟨front, rest, rfl, hfront⟩ : ∃ front rest, ts = front ++ rest
      ∧ front.length = before.length :=
    ⟨_, _, (List.take_append_drop before.length ts).symm, by rw [List.length_take]; omega⟩
  rw [run_append_kinds] at h
  obtain ⟨hbefore, hrest⟩ := List.append_inj h ((length_run_kinds front).trans hfront)
  rcases rest with _ | ⟨t, back⟩
  · simp [Position.kinds] at hrest
  · obtain ⟨hk, hafter⟩ := List.cons.inj hrest
    exact ⟨front, t, back, hbefore, hk, hafter⟩

theorem before_of_comparator {ts : List Token} {before after : List TokenKind}
    (h : (run ts).kinds = before ++ .comparator :: after) : EndsInSubject before := by
  obtain ⟨front, t, back, rfl, hk, -⟩ := exists_token_of_kinds h
  exact (position_afterField_iff front).1 (Position.afterField_of_comparator hk)

theorem after_of_comparator {ts : List Token} {before after : List TokenKind}
    (h : (run ts).kinds = before ++ .comparator :: after) :
    ∀ k ∈ after.head?, k = .value ∨ k = .literalValue := by
  obtain ⟨front, t, back, -, hk, rfl⟩ := exists_token_of_kinds h
  rw [(Position.next_afterComparator_iff _ t).2 hk]
  rcases back with _ | ⟨v, back⟩
  · simp [Position.kinds]
  · simpa [Position.kinds] using Position.next_value_kind v

theorem before_of_value {ts : List Token} {before after : List TokenKind}
    (h : (run ts).kinds = before ++ .value :: after) : before.getLast? = some .comparator := by
  obtain ⟨front, t, back, rfl, hk, -⟩ := exists_token_of_kinds h
  exact (position_afterComparator_iff front).1 (Position.afterComparator_of_value hk)

/-! ## What the last tokens say -/

theorem subject_of_afterField {ts : List Token} (h : (run ts).position = .afterField) :
    ∃ front name, ts = front ++ [name] ∧ (run ts).subject = some name.text := by
  obtain ⟨ps, held, ⟨front, hfront⟩, hheld, -⟩ := exists_held ts
  obtain ⟨name, rfl, -, hsubject⟩ := hheld.exists_name h
  exact ⟨front, name, hfront.symm, hsubject⟩

theorem subject_of_afterComparator {ts : List Token} (h : (run ts).position = .afterComparator) :
    ∃ front name symbol, ts = front ++ [name, symbol] ∧ (run ts).subject = some name.text
      ∧ (run ts).comparator = some symbol.text := by
  obtain ⟨ps, held, ⟨front, hfront⟩, hheld, -⟩ := exists_held ts
  obtain ⟨name, symbol, rfl, hsubject, hcomparator⟩ := hheld.exists_comparator h
  exact ⟨front, name, symbol, hfront.symm, hsubject, hcomparator⟩

theorem context_ne_nothing (ts : List Token) (typed : String) :
    (run ts).context typed ≠ .nothing := by
  rcases hp : (run ts).position <;> simp only [context, hp, ne_eq, reduceCtorEq, not_false_eq_true]
  · obtain ⟨front, name, -, hsubject⟩ := subject_of_afterField hp
    simp [hsubject]
  · obtain ⟨front, name, symbol, -, hsubject, hcomparator⟩ := subject_of_afterComparator hp
    simp [hsubject, hcomparator]

/-- The kinds make up clauses, and the position, the subject and the comparator are those of the
last tokens. -/
structure Grammatical (r : Replay) (ts : List Token) : Prop where
  length : r.kinds.length = ts.length
  comparator {before after : List TokenKind} (h : r.kinds = before ++ .comparator :: after) :
    EndsInSubject before ∧ ∀ k ∈ after.head?, k = .value ∨ k = .literalValue
  value {before after : List TokenKind} (h : r.kinds = before ++ .value :: after) :
    before.getLast? = some .comparator
  afterField_iff : r.position = .afterField ↔ EndsInSubject r.kinds
  afterField (h : r.position = .afterField) :
    ∃ front name, ts = front ++ [name] ∧ r.subject = some name.text
  afterComparator_iff : r.position = .afterComparator ↔ r.kinds.getLast? = some .comparator
  afterComparator (h : r.position = .afterComparator) : ∃ front name symbol,
    ts = front ++ [name, symbol] ∧ r.subject = some name.text ∧ r.comparator = some symbol.text
  context (typed : String) : r.context typed ≠ .nothing

/-- A replay always knows what a comparator or a value would belong to. -/
theorem run_grammatical (ts : List Token) : (run ts).Grammatical ts where
  length := length_run_kinds ts
  comparator h := ⟨before_of_comparator h, after_of_comparator h⟩
  value := before_of_value
  afterField_iff := position_afterField_iff ts
  afterField := subject_of_afterField
  afterComparator_iff := position_afterComparator_iff ts
  afterComparator := subject_of_afterComparator
  context := context_ne_nothing ts

end Replay

end FieldQuery
