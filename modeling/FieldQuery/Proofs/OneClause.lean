import FieldQuery.Proofs.Printing

/-!
# Queries of one clause

A query is one clause exactly if its tokens are those of one phrase, with nothing but connectives on
both sides of it (`Registry.validate_single_iff`).
-/

namespace FieldQuery

theorem joined_logical_append (cs : List Clause) : ∀ ks : List Connective,
    joined (ks.map .logical ++ cs) = joined cs
  | [] => rfl
  | _ :: ks => joined_logical_append cs ks

theorem joinedAfter_logical : ∀ (ks : List Connective) (c? : Option Connective),
    joinedAfter c? (ks.map .logical) = []
  | [], _ => rfl
  | c :: ks, c? => joinedAfter_logical ks (c?.or (some c))

theorem isLogical_of_joinedAfter : ∀ {cs : List Clause} (c? : Option Connective),
    joinedAfter c? cs = [] → ∀ c ∈ cs, c.isLogical
  | [], _, _ => by simp
  | .logical c :: _, c?, h =>
    List.forall_mem_cons.2 ⟨rfl, isLogical_of_joinedAfter (c?.or (some c)) h⟩

namespace Registry

variable {r : Registry}

theorem readPhrases_connectives (mode : ValidationMode) : ∀ ks : List Connective,
    r.readPhrases mode (ks.map .connective) = .ok (ks.map .logical)
  | [] => rfl
  | k :: ks =>
    readPhrases_cons_ok_iff.2 ⟨[.logical k], _, rfl, readPhrases_connectives mode ks, rfl⟩

theorem readPhrase_dangling_ne_ok (name symbol : Token) (cs : List Clause) :
    r.readPhrase .full (.dangling name symbol) ≠ .ok cs := by
  rw [readPhrase_dangling]
  rcases hf : r.checkField name.text with e | f
  · simp [bind, Except.bind]
  · rcases hs : f.checkComparator symbol.text with e | c <;> simp [hs, bind, Except.bind]

/-- Where values are looked at, a connective gives a connective and every other phrase one term. -/
theorem readPhrase_full_ok {p : Phrase} {cs : List Clause} (h : r.readPhrase .full p = .ok cs) :
    (∃ k, p = .connective k ∧ cs = [.logical k])
      ∨ ∃ u, cs = [u] ∧ u.isLogical = false ∧ ∀ name symbol, p ≠ .dangling name symbol := by
  cases p with
  | connective k => exact .inl ⟨k, rfl, (Except.ok.inj h).symm⟩
  | presence op name =>
    obtain ⟨f, -, rfl⟩ := readPhrase_presence_ok_iff.1 h
    exact .inr ⟨_, rfl, rfl, by simp⟩
  | comparison name symbol value =>
    obtain ⟨f, c, -, -, -, rfl⟩ := readPhrase_comparison_ok_iff.1 h
    exact .inr ⟨_, rfl, rfl, by simp⟩
  | dangling name symbol => exact absurd h (readPhrase_dangling_ne_ok name symbol cs)
  | freeText t => exact .inr ⟨_, (Except.ok.inj h).symm, rfl, by simp⟩

theorem isConnective_of_isLogical {ps : List Phrase} : ∀ {ts : List Token} {cs : List Clause},
    phrases ts = ps → r.readPhrases .full ps = .ok cs → (∀ c ∈ cs, c.isLogical) →
      ∀ t ∈ ts, t.isConnective := by
  induction ps with
  | nil =>
    intro ts cs hts _ _
    simp [phrases_eq_nil hts]
  | cons p ps ih =>
    intro ts cs hts h hcs
    obtain ⟨us, rest, rfl, hspans, hrest⟩ := phrases_eq_cons hts
    obtain ⟨ds, es, hds, hes, rfl⟩ := readPhrases_cons_ok_iff.1 h
    obtain ⟨hlogical, hes'⟩ := List.forall_mem_append.1 hcs
    refine List.forall_mem_append.2 ⟨?_, ih hrest hes hes'⟩
    obtain ⟨k, rfl, -⟩ | ⟨u, rfl, hu, -⟩ := readPhrase_full_ok hds
    · cases hspans with
      | connective hc => simp [Token.isConnective, hc]
    · simp [hu] at hlogical

theorem exists_spans_of_single {u : Clause} {ps : List Phrase} :
    ∀ {ts : List Token} {cs : List Clause}, phrases ts = ps → r.readPhrases .full ps = .ok cs →
      joined cs = [u] → ∃ front mid back p, ts = front ++ mid ++ back
        ∧ (∀ t ∈ front, t.isConnective) ∧ (∀ t ∈ back, t.isConnective) ∧ p.Spans mid
        ∧ r.readPhrase .full p = .ok [u] := by
  induction ps with
  | nil =>
    intro ts cs _ h hcs
    obtain rfl : [] = cs := Except.ok.inj h
    simp [joined] at hcs
  | cons p ps ih =>
    intro ts cs hts h hcs
    obtain ⟨us, rest, rfl, hspans, hrest⟩ := phrases_eq_cons hts
    obtain ⟨ds, es, hds, hes, rfl⟩ := readPhrases_cons_ok_iff.1 h
    obtain ⟨k, rfl, rfl⟩ | ⟨v, rfl, hv, -⟩ := readPhrase_full_ok hds
    · obtain ⟨front, mid, back, q, rfl, hfront, hback, hq⟩ := ih hrest hes hcs
      refine ⟨us ++ front, mid, back, q, by simp, List.forall_mem_append.2 ⟨?_, hfront⟩, hback, hq⟩
      cases hspans with
      | connective hc => simp [Token.isConnective, hc]
    · rw [List.singleton_append, joined_cons hv, List.cons.injEq] at hcs
      obtain ⟨rfl, hafter⟩ := hcs
      exact ⟨[], us, rest, p, rfl, by simp,
        isConnective_of_isLogical hrest hes (isLogical_of_joinedAfter none hafter), hspans, hds⟩

/-- A query is one clause exactly if its tokens are those of one phrase, with nothing but
connectives on both sides of it. -/
theorem validate_single_iff {ts : List Token} {u : Clause} (hu : u.isLogical = false) :
    r.validate .full ts = .ok { clauses := [u] } ↔ ∃ front mid back p, ts = front ++ mid ++ back
      ∧ (∀ t ∈ front, t.isConnective) ∧ (∀ t ∈ back, t.isConnective) ∧ p.Spans mid
      ∧ r.readPhrase .full p = .ok [u] := by
  rw [validate_ok_iff]
  constructor
  · rintro ⟨cs, hcs, hjoined⟩
    exact exists_spans_of_single rfl hcs (congrArg Query.clauses hjoined).symm
  · rintro ⟨front, mid, back, p, rfl, hfront, hback, hspans, hp⟩
    obtain ⟨ks, hks⟩ := phrases_connectives (mid ++ back) hfront
    obtain ⟨ks', hks'⟩ := phrases_connectives [] hback
    rw [List.append_nil, phrases, List.append_nil] at hks'
    have hmid : phrases (mid ++ back) = p :: ks'.map .connective := by
      rw [← hks']
      refine phrases_of_spans hspans ?_ fun t ht => hback t (List.mem_of_mem_head? ht)
      obtain ⟨k, -, hk⟩ | ⟨v, -, -, hp⟩ := readPhrase_full_ok hp
      · simp [List.cons.inj hk, Clause.isLogical] at hu
      · exact hp
    refine ⟨ks.map .logical ++ u :: ks'.map .logical, ?_, ?_⟩
    · rw [List.append_assoc, hks, hmid, readPhrases_append, readPhrases_connectives,
        readPhrases_cons_ok_iff.2 ⟨[u], _, hp, readPhrases_connectives .full ks', rfl⟩]
      rfl
    · rw [joined_logical_append, joined_cons hu, joinedAfter_logical]

/-- Free text: one token between connectives. -/
theorem validate_freeText_iff {ts : List Token} {t : String} :
    r.validate .full ts = .ok { clauses := [.freeText t] } ↔ ∃ front u back,
      ts = front ++ u :: back ∧ (∀ v ∈ front, v.isConnective) ∧ (∀ v ∈ back, v.isConnective)
        ∧ Connective.ofWord? u.text = none ∧ u.unquoted = t := by
  rw [validate_single_iff rfl]
  constructor
  · rintro ⟨front, mid, back, p, rfl, hfront, hback, hspans, hp⟩
    cases hspans with
    | connective hc => simp [readPhrase_connective] at hp
    | presence hc hop hn =>
      obtain ⟨f, -, hcs⟩ := readPhrase_presence_ok_iff.1 hp
      simp at hcs
    | comparison hn hs =>
      obtain ⟨f, c, -, -, -, hcs⟩ := readPhrase_comparison_ok_iff.1 hp
      simp at hcs
    | dangling hn hs => exact absurd hp (readPhrase_dangling_ne_ok _ _ _)
    | @freeText u hc =>
      have hu : u.unquoted = t := by simpa [readPhrase_freeText] using hp
      exact ⟨front, u, back, by simp, hfront, hback, hc, hu⟩
  · rintro ⟨front, u, back, rfl, hfront, hback, hc, rfl⟩
    exact ⟨front, [u], back, _, by simp, hfront, hback, .freeText hc, rfl⟩

/-- A comparison: a name, a comparator and a value between connectives. -/
theorem validate_comparison_iff {ts : List Token} {field t : String} {c : Comparator} :
    r.validate .full ts = .ok { clauses := [.comparison field c t] } ↔
      ∃ front name symbol value back f, ts = front ++ name :: symbol :: value :: back
        ∧ (∀ v ∈ front, v.isConnective) ∧ (∀ v ∈ back, v.isConnective)
        ∧ name.isName ∧ symbol.isSymbol ∧ r.checkField name.text = .ok f ∧ f.name = field
        ∧ f.checkComparator symbol.text = .ok c ∧ f.checkValue c t = .ok ()
        ∧ value.unquoted = t := by
  rw [validate_single_iff rfl]
  constructor
  · rintro ⟨front, mid, back, p, rfl, hfront, hback, hspans, hp⟩
    cases hspans with
    | connective hc => simp [readPhrase_connective] at hp
    | presence hc hop hn =>
      obtain ⟨f, -, hcs⟩ := readPhrase_presence_ok_iff.1 hp
      simp at hcs
    | @comparison name symbol value hn hs =>
      obtain ⟨f, d, hf, hd, hvalue, hcs⟩ := readPhrase_comparison_ok_iff.1 hp
      obtain ⟨rfl, rfl, rfl⟩ : field = f.name ∧ c = d ∧ t = value.unquoted := by simpa using hcs
      exact ⟨front, name, symbol, value, back, f, by simp, hfront, hback, hn, hs, hf, rfl, hd,
        hvalue rfl, rfl⟩
    | dangling hn hs => exact absurd hp (readPhrase_dangling_ne_ok _ _ _)
    | freeText hc => simp [readPhrase_freeText] at hp
  · rintro ⟨front, name, symbol, value, back, f, rfl, hfront, hback, hn, hs, hf, rfl, hd, hvalue,
      rfl⟩
    exact ⟨front, [name, symbol, value], back, _, by simp, hfront, hback, .comparison hn hs,
      readPhrase_comparison_ok_iff.2 ⟨f, c, hf, hd, fun _ => hvalue, rfl⟩⟩

end Registry

end FieldQuery
