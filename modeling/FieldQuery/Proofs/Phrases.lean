import FieldQuery.Proofs.Labels

/-!
# The grammar of queries

A query is a list of phrases, read from left to right and told apart by at most three tokens
(`phrases`). Every phrase stands for one clause, or for none, and the clauses are joined with a
connective between neighbours (`joined`). Validation labels the tokens first and cuts them up by
their labels. Where a phrase starts the labels are those of the start of a query, so the cuts are
those of the grammar (`addClauses_labelled`). That does not depend on how the text of a token is
read, so it holds of the tokens of a line and of any others (`validateBy_eq_parseBy`).
-/

namespace FieldQuery

namespace Token

/-- The token may name a field after a prefix operator. -/
def isName (t : Token) : Bool :=
  (Connective.ofWord? t.text).isNone && (PrefixOperator.ofWord? t.text).isNone && !t.literal

/-- The token is a comparator where one may stand. -/
def isSymbol (t : Token) : Bool :=
  !t.literal && (Comparator.ofSymbol? t.text).isSome

theorem isName_iff {t : Token} : t.isName ↔ Connective.ofWord? t.text = none
    ∧ PrefixOperator.ofWord? t.text = none ∧ t.literal = false := by
  simp [isName, and_assoc]

theorem isName_of {t : Token} (hc : Connective.ofWord? t.text = none)
    (hp : PrefixOperator.ofWord? t.text = none) (hl : ¬ t.literal) : t.isName := by
  simp [isName, hc, hp, hl]

end Token

/-- The tokens that make up one clause. -/
inductive Phrase where
  | connective (c : Connective)
  | presence (operator : PrefixOperator) (name : Token)
  | comparison (name symbol value : Token)
  /-- A field and a comparator, with no token after them. -/
  | dangling (name symbol : Token)
  | freeText (t : Token)
deriving DecidableEq, Repr

def phrases : List Token → List Phrase
  | [] => []
  | t :: ts =>
    match Connective.ofWord? t.text, PrefixOperator.ofWord? t.text with
    | some c, _ => .connective c :: phrases ts
    | none, some op =>
      match ts with
      | [] => [.freeText t]
      | name :: rest =>
        if name.isName then .presence op name :: phrases rest
        else .freeText t :: phrases (name :: rest)
    | none, none =>
      if t.literal then .freeText t :: phrases ts
      else
        match ts with
        | [] => [.freeText t]
        | symbol :: rest =>
          if symbol.isSymbol then
            match rest with
            | [] => [.dangling t symbol]
            | value :: rest => .comparison t symbol value :: phrases rest
          else .freeText t :: phrases (symbol :: rest)

section Equations

variable {t : Token} {ts : List Token}

theorem phrases_connective {c : Connective} (h : Connective.ofWord? t.text = some c) :
    phrases (t :: ts) = .connective c :: phrases ts := by
  rw [phrases.eq_def]
  simp only [h]

theorem phrases_presence {op : PrefixOperator} {name : Token}
    (hc : Connective.ofWord? t.text = none) (hp : PrefixOperator.ofWord? t.text = some op)
    (hn : name.isName) : phrases (t :: name :: ts) = .presence op name :: phrases ts := by
  rw [phrases.eq_def]
  simp only [hc, hp, hn, if_true]

theorem phrases_prefixOperator {op : PrefixOperator} (hc : Connective.ofWord? t.text = none)
    (hp : PrefixOperator.ofWord? t.text = some op) (hn : ∀ u ∈ ts.head?, ¬ u.isName) :
    phrases (t :: ts) = .freeText t :: phrases ts := by
  cases ts with
  | nil => rw [phrases.eq_def]; simp only [hc, hp, phrases]
  | cons u us =>
    have hu : ¬ u.isName := hn u rfl
    rw [phrases.eq_def]
    simp only [hc, hp, hu]
    rfl

theorem phrases_literal (hc : Connective.ofWord? t.text = none)
    (hp : PrefixOperator.ofWord? t.text = none) (hl : t.literal) :
    phrases (t :: ts) = .freeText t :: phrases ts := by
  rw [phrases.eq_def]
  simp only [hc, hp, hl, if_true]

theorem phrases_dangling {symbol : Token} (hn : t.isName) (hs : symbol.isSymbol) :
    phrases [t, symbol] = [.dangling t symbol] := by
  obtain ⟨hc, hp, hl⟩ := Token.isName_iff.1 hn
  rw [phrases.eq_def]
  simp only [hc, hp, hl, hs, if_true]
  rfl

theorem phrases_comparison {symbol value : Token} (hn : t.isName) (hs : symbol.isSymbol) :
    phrases (t :: symbol :: value :: ts) = .comparison t symbol value :: phrases ts := by
  obtain ⟨hc, hp, hl⟩ := Token.isName_iff.1 hn
  rw [phrases.eq_def]
  simp only [hc, hp, hl, hs, if_true]
  rfl

theorem phrases_name (hn : t.isName) (hs : ∀ u ∈ ts.head?, ¬ u.isSymbol) :
    phrases (t :: ts) = .freeText t :: phrases ts := by
  obtain ⟨hc, hp, hl⟩ := Token.isName_iff.1 hn
  cases ts with
  | nil => rw [phrases.eq_def]; simp only [hc, hp, hl, phrases]; rfl
  | cons u us =>
    have hu : ¬ u.isSymbol := hs u rfl
    rw [phrases.eq_def]
    simp only [hc, hp, hl, hu]
    rfl

end Equations

/-- The clauses after a term, where `c?` is the connective that stands next to it. -/
def joinedAfter (c? : Option Connective) : List Clause → List Clause
  | [] => []
  | .logical c :: cs => joinedAfter (c?.or (some c)) cs
  | term :: cs => .logical (c?.getD .and) :: term :: joinedAfter none cs

/-- The terms, each with the first connective before it, or with `and` if there is none. Connectives
with no term on both sides are dropped. -/
def joined : List Clause → List Clause
  | [] => []
  | .logical _ :: cs => joined cs
  | term :: cs => term :: joinedAfter none cs

namespace Registry

section Reading

variable {ε : Type} (rd : Reading ε) (r : Registry) (mode : ValidationMode)

/-- The clause of a phrase, or none if a value may be missing. -/
def readPhraseBy : Phrase → Except ε (List Clause)
  | .connective c => .ok [.logical c]
  | .presence op name => do
    let f ← (r.checkField name.text).mapError rd.invalid
    return [.presence op f.name]
  | .comparison name symbol value => do
    let f ← (r.checkField name.text).mapError rd.invalid
    let c ← (f.checkComparator symbol.text).mapError rd.invalid
    let text ← rd.unquote value
    if mode = .full then (f.checkValue c text).mapError rd.invalid
    return [.comparison f.name c text]
  | .dangling name symbol => do
    let f ← (r.checkField name.text).mapError rd.invalid
    let _ ← (f.checkComparator symbol.text).mapError rd.invalid
    if mode = .full then .error (rd.invalid (.missingValue f.name)) else return []
  | .freeText t => do
    let text ← rd.unquote t
    return [.freeText text]

def readPhrasesBy : List Phrase → Except ε (List Clause)
  | [] => .ok []
  | p :: ps => do
    let cs ← r.readPhraseBy rd mode p
    let ds ← readPhrasesBy ps
    return cs ++ ds

/-- The query that the tokens make up by the grammar. -/
def parseBy (ts : List Token) : Except ε Query := do
  return { clauses := joined (← r.readPhrasesBy rd mode (phrases ts)) }

end Reading

variable (r : Registry) (mode : ValidationMode)

/-- The query of any tokens by the grammar. -/
def parseAny (ts : List Token) : Except Halt Query :=
  r.parseBy .any mode ts

/-- The query of tokens that come from a line by the grammar. -/
def parse (ts : List Token) : Except ValidationError Query :=
  r.parseBy .ofLine mode ts

def readPhrase (p : Phrase) : Except ValidationError (List Clause) :=
  r.readPhraseBy .ofLine mode p

def readPhrases (ps : List Phrase) : Except ValidationError (List Clause) :=
  r.readPhrasesBy .ofLine mode ps

section Equations

variable {r mode}

theorem readPhrase_connective (c : Connective) :
    r.readPhrase mode (.connective c) = .ok [.logical c] := rfl

theorem readPhrase_presence (op : PrefixOperator) (name : Token) :
    r.readPhrase mode (.presence op name) = (do
      let f ← r.checkField name.text
      return [.presence op f.name]) := by
  simp only [readPhrase, readPhraseBy, Reading.mapError_ofLine]

theorem readPhrase_comparison (name symbol value : Token) :
    r.readPhrase mode (.comparison name symbol value) = (do
      let f ← r.checkField name.text
      let c ← f.checkComparator symbol.text
      if mode = .full then f.checkValue c value.unquoted
      return [.comparison f.name c value.unquoted]) := by
  simp only [readPhrase, readPhraseBy, Reading.mapError_ofLine]
  rfl

theorem readPhrase_dangling (name symbol : Token) :
    r.readPhrase mode (.dangling name symbol) = (do
      let f ← r.checkField name.text
      let _ ← f.checkComparator symbol.text
      if mode = .full then .error (.missingValue f.name) else return []) := by
  simp only [readPhrase, readPhraseBy, Reading.mapError_ofLine]
  rfl

theorem readPhrase_freeText (t : Token) :
    r.readPhrase mode (.freeText t) = .ok [.freeText t.unquoted] := rfl

theorem readPhrases_nil : r.readPhrases mode [] = .ok [] := rfl

theorem readPhrases_cons (p : Phrase) (ps : List Phrase) : r.readPhrases mode (p :: ps) = (do
    let cs ← r.readPhrase mode p
    let ds ← r.readPhrases mode ps
    return cs ++ ds) := rfl

end Equations

end Registry

theorem Comparator.no_keyword {text : String} (h : (Comparator.ofSymbol? text).isSome) :
    Connective.ofWord? text = none ∧ PrefixOperator.ofWord? text = none := by
  obtain ⟨c, hc⟩ := Option.isSome_iff_exists.1 h
  have hs : c.symbol = text := by simpa using List.find?_some hc
  subst hs
  cases c <;> decide

namespace Position

variable {t : Token}

theorem next_afterClause (t : Token) : afterClause.next t = start.next t := by
  simp [next]

theorem next_afterConnective (t : Token) : afterConnective.next t = start.next t := by
  simp [next]

theorem next_connective {c : Connective} (h : Connective.ofWord? t.text = some c) :
    start.next t = (afterConnective, .connective) := by
  simp [next, h]

theorem next_prefixOperator {op : PrefixOperator} (hc : Connective.ofWord? t.text = none)
    (h : PrefixOperator.ofWord? t.text = some op) :
    start.next t = (afterPrefix, .prefixOperator) := by
  simp [next, hc, h]

theorem next_literal (hc : Connective.ofWord? t.text = none)
    (hp : PrefixOperator.ofWord? t.text = none) (h : t.literal) :
    start.next t = (afterClause, .literalValue) := by
  simp [next, hc, hp, h]

theorem next_name (h : t.isName) : start.next t = (afterField, .field) := by
  simp only [Token.isName, Bool.and_eq_true, Option.isNone_iff_eq_none, Bool.not_eq_true'] at h
  simp [next, h]

theorem next_prefixed (h : t.isName) : afterPrefix.next t = (afterClause, .field) := by
  simp only [Token.isName, Bool.and_eq_true, Option.isNone_iff_eq_none, Bool.not_eq_true'] at h
  simp [next, h]

theorem next_symbol (h : t.isSymbol) : afterField.next t = (afterComparator, .comparator) := by
  simp only [Token.isSymbol, Bool.and_eq_true, Bool.not_eq_true'] at h
  obtain ⟨hc, hp⟩ := Comparator.no_keyword h.2
  simp [next, h, hc, hp]

theorem next_value : (afterComparator.next t).1 = afterClause := by
  simp [next]

theorem next_value_kind (t : Token) :
    (afterComparator.next t).2 = .value ∨ (afterComparator.next t).2 = .literalValue := by
  cases hl : t.literal <;> simp [next, hl]

theorem next_no_symbol (h : ¬ t.isSymbol) : afterField.next t = start.next t := by
  simp only [Token.isSymbol, Bool.and_eq_true, Bool.not_eq_true', not_and] at h
  cases hl : t.literal
  · simp [next, hl, h hl]
  · simp [next, hl]

theorem next_no_name (h : ¬ t.isName) : afterPrefix.next t = start.next t := by
  rcases hc : Connective.ofWord? t.text with _ | c
  · rcases hp : PrefixOperator.ofWord? t.text with _ | op
    · cases hl : t.literal
      · simp [Token.isName, hc, hp, hl] at h
      · simp [next, hc, hp, hl]
    · simp [next, hc, hp]
  · simp [next, hc]

theorem kind_no_name (h : ¬ t.isName) : (start.next t).2 ≠ .field := by
  rcases hc : Connective.ofWord? t.text with _ | c
  · rcases hp : PrefixOperator.ofWord? t.text with _ | op
    · cases hl : t.literal
      · simp [Token.isName, hc, hp, hl] at h
      · simp [next, hc, hp, hl]
    · simp [next, hc, hp]
  · simp [next, hc]

theorem kind_no_comparator : (start.next t).2 ≠ .comparator := by
  unfold next
  split_ifs <;> simp_all

end Position

namespace Query

def add (q : Query) : Clause → Query
  | .logical c => q.addConnective c
  | term => q.addTerm term

theorem add_term (q : Query) {c : Clause} (h : c.isLogical = false) : q.add c = q.addTerm c := by
  cases c <;> simp_all [add, Clause.isLogical]

end Query

namespace Registry

theorem readPhrases_append (r : Registry) (mode : ValidationMode) (ps qs : List Phrase) :
    r.readPhrases mode (ps ++ qs) = (do
      let cs ← r.readPhrases mode ps
      let ds ← r.readPhrases mode qs
      return cs ++ ds) := by
  induction ps with
  | nil =>
    rw [List.nil_append]
    rcases r.readPhrases mode qs with e | ds <;> rfl
  | cons p ps ih =>
    rw [List.cons_append, readPhrases_cons, readPhrases_cons, ih]
    rcases r.readPhrase mode p with e | cs
    · rfl
    · rcases r.readPhrases mode ps with e | ds
      · rfl
      · rcases r.readPhrases mode qs with e | es
        · rfl
        · exact congrArg Except.ok (List.append_assoc cs ds es).symm

section Reading

variable {ε : Type} (rd : Reading ε) (r : Registry) (mode : ValidationMode)

theorem readPhrasesBy_cons_map (q : Query) (p : Phrase) (ps : List Phrase) :
    (r.readPhrasesBy rd mode (p :: ps)).map (·.foldl Query.add q) = (do
      let cs ← r.readPhraseBy rd mode p
      (r.readPhrasesBy rd mode ps).map (·.foldl Query.add (cs.foldl Query.add q))) := by
  rw [readPhrasesBy]
  rcases r.readPhraseBy rd mode p with e | cs
  · rfl
  · rcases r.readPhrasesBy rd mode ps with e | ds
    · rfl
    · exact congrArg Except.ok List.foldl_append

theorem readPhrasesBy_freeText_map (q : Query) (t : Token) (ps : List Phrase) :
    (r.readPhrasesBy rd mode (.freeText t :: ps)).map (·.foldl Query.add q) = (do
      let text ← rd.unquote t
      (r.readPhrasesBy rd mode ps).map (·.foldl Query.add (q.addTerm (.freeText text)))) := by
  rw [readPhrasesBy_cons_map, readPhraseBy]
  rcases rd.unquote t with e | text <;> rfl

theorem addClauses_prefixOperator (q : Query) (t : Token) : ∀ {l : List (Token × TokenKind)},
    (∀ x ∈ l.head?, x.2 ≠ .field) →
      r.addClauses rd mode q ((t, .prefixOperator) :: l) = (do
        let text ← rd.unquote t
        r.addClauses rd mode (q.addTerm (.freeText text)) l)
  | [], _ => rfl
  | (u, k) :: l, h => by
    have hk : k ≠ .field := h (u, k) rfl
    cases k <;> first | rfl | exact absurd rfl hk

theorem addClauses_field (q : Query) (t : Token) : ∀ {l : List (Token × TokenKind)},
    (∀ x ∈ l.head?, x.2 ≠ .comparator) →
      r.addClauses rd mode q ((t, .field) :: l) = (do
        let text ← rd.unquote t
        r.addClauses rd mode (q.addTerm (.freeText text)) l)
  | [], _ => rfl
  | (u, k) :: l, h => by
    have hk : k ≠ .comparator := h (u, k) rfl
    cases k <;> first | rfl | exact absurd rfl hk

theorem readPhraseBy_comparison (name symbol value : Token) :
    r.readPhraseBy rd mode (.comparison name symbol value)
      = (r.comparison rd mode name symbol value).map ([·]) := by
  rw [readPhraseBy, comparison]
  rcases r.checkField name.text with e | f
  · rfl
  · rcases hs : f.checkComparator symbol.text with e | c
    · simp [hs, bind, Except.bind, Except.map, Except.mapError]
    · rcases hu : rd.unquote value with e | text
      · simp [hs, bind, Except.bind, Except.map, Except.mapError]
      · rcases hv : f.checkValue c text with e | u <;> cases mode <;>
          simp [hs, hv, bind, Except.bind, Except.map, Except.mapError, pure, Except.pure]

theorem comparison_term {name symbol value : Token} {clause : Clause}
    (h : r.comparison rd mode name symbol value = .ok clause) : clause.isLogical = false := by
  rw [comparison] at h
  rcases hf : r.checkField name.text with e | f
  · simp [hf, bind, Except.bind, Except.mapError] at h
  · rcases hs : f.checkComparator symbol.text with e | c
    · simp [hf, hs, bind, Except.bind, Except.mapError] at h
    · rcases hu : rd.unquote value with e | text
      · simp [hf, hs, hu, bind, Except.bind, Except.mapError] at h
      · rcases hv : f.checkValue c text with e | u <;> cases mode <;>
          simp [hf, hs, hu, hv, bind, Except.bind, Except.mapError, pure, Except.pure] at h <;>
          subst h <;> rfl

theorem readPhraseBy_dangling (name symbol : Token) :
    r.readPhraseBy rd mode (.dangling name symbol)
      = (r.danglingComparison rd mode name symbol).map fun _ => [] := by
  rw [readPhraseBy, danglingComparison]
  rcases r.checkField name.text with e | f
  · rfl
  · rcases hs : f.checkComparator symbol.text with e | c
    · simp [hs, bind, Except.bind, Except.map, Except.mapError]
    · cases mode <;> simp [hs, bind, Except.bind, Except.map, Except.mapError, pure, Except.pure]

/-- Where a phrase starts, validation cuts off the phrase of the grammar. -/
theorem addClauses_labelled : ∀ (ts : List Token) (q : Query),
    r.addClauses rd mode q (Position.start.labelled ts)
      = (r.readPhrasesBy rd mode (phrases ts)).map (·.foldl Query.add q) := by
  intro ts
  -- A token that does not go on with the phrase is labelled as at the start, so the labels of the
  -- rest are those that the induction hypothesis is about.
  fun_induction phrases ts with
  | case1 => intro q; rfl
  | case2 t ts c hc ih =>
    intro q
    rw [readPhrasesBy_cons_map, Position.labelled_cons, Position.next_connective hc,
      Position.labelled_congr Position.next_afterConnective]
    rw [addClauses, hc]
    exact ih _
  | case3 t op hp hc =>
    intro q
    rw [readPhrasesBy_freeText_map, Position.labelled_cons, Position.next_prefixOperator hc hp]
    rfl
  | case4 t op hp hc name rest hn ih =>
    intro q
    rw [readPhrasesBy_cons_map, Position.labelled_cons, Position.next_prefixOperator hc hp,
      Position.labelled_cons, Position.next_prefixed hn,
      Position.labelled_congr Position.next_afterClause, addClauses, hp, readPhraseBy]
    rcases r.checkField name.text with e | f
    · rfl
    · exact ih _
  | case5 t op hp hc name rest hn ih =>
    intro q
    rw [readPhrasesBy_freeText_map, Position.labelled_cons, Position.next_prefixOperator hc hp,
      Position.labelled_cons_congr (Position.next_no_name hn), addClauses_prefixOperator]
    · exact bind_congr fun text => ih _
    · simpa using Position.kind_no_name hn
  | case6 t ts hp hc hl ih =>
    intro q
    rw [readPhrasesBy_freeText_map, Position.labelled_cons, Position.next_literal hc hp hl,
      Position.labelled_congr Position.next_afterClause, addClauses]
    · exact bind_congr fun text => ih _
    all_goals simp
  | case7 t hp hc hl =>
    intro q
    rw [readPhrasesBy_freeText_map, Position.labelled_cons,
      Position.next_name (Token.isName_of hc hp hl)]
    rfl
  | case8 t hp hc hl symbol hs =>
    intro q
    rw [Position.labelled_cons, Position.next_name (Token.isName_of hc hp hl),
      Position.labelled_cons, Position.next_symbol hs, readPhrasesBy_cons_map,
      readPhraseBy_dangling]
    change (do r.danglingComparison rd mode t symbol; return q) = _
    rcases r.danglingComparison rd mode t symbol with e | u <;> rfl
  | case9 t hp hc hl symbol hs value rest ih =>
    intro q
    rw [readPhrasesBy_cons_map, Position.labelled_cons,
      Position.next_name (Token.isName_of hc hp hl), Position.labelled_cons,
      Position.next_symbol hs, Position.labelled_cons, Position.next_value,
      Position.labelled_congr Position.next_afterClause, addClauses,
      readPhraseBy_comparison]
    rcases hclause : r.comparison rd mode t symbol value with e | clause
    · rfl
    · have hadd := q.add_term (r.comparison_term rd mode hclause)
      exact (congrArg (r.addClauses rd mode · _) hadd.symm).trans (ih _)
  | case10 t hp hc hl symbol rest hs ih =>
    intro q
    rw [readPhrasesBy_freeText_map, Position.labelled_cons,
      Position.next_name (Token.isName_of hc hp hl),
      Position.labelled_cons_congr (Position.next_no_symbol hs), addClauses_field]
    · exact bind_congr fun text => ih _
    · simpa using Position.kind_no_comparator

end Reading

end Registry

namespace Query

/-- The query of some clauses, a term after them, and a connective that waits for its second
term. -/
def pending (cs : List Clause) (t : Clause) (c? : Option Connective) : Query where
  clauses := cs ++ t :: (c?.map Clause.logical).toList

variable {t : Clause} (cs : List Clause)

theorem pending_connective (ht : t.isLogical = false) (c? : Option Connective) (d : Connective) :
    (pending cs t c?).add (.logical d) = pending cs t (c?.or (some d)) := by
  cases c? with
  | none => simp [pending, add, addConnective, endsInTerm, ht]
  | some c => simp [pending, add, addConnective, endsInTerm, Clause.isLogical,
      List.getLast?_append, List.getLast?_cons]

theorem pending_term (ht : t.isLogical = false) (c? : Option Connective) {u : Clause}
    (hu : u.isLogical = false) :
    (pending cs t c?).add u = pending (cs ++ [t, .logical (c?.getD .and)]) u none := by
  rw [add_term _ hu]
  cases c? with
  | none => simp [pending, addTerm, endsInTerm, ht]
  | some c => simp [pending, addTerm, endsInTerm, Clause.isLogical,
      List.getLast?_append, List.getLast?_cons]

theorem dropTrailing_pending (ht : t.isLogical = false) (c? : Option Connective) :
    (pending cs t c?).dropTrailingConnective.clauses = cs ++ [t] := by
  cases c? with
  | none => simp [pending, dropTrailingConnective, ht]
  | some c => simp [pending, dropTrailingConnective, Clause.isLogical,
      List.getLast?_append, List.getLast?_cons]

theorem foldl_add_pending : ∀ (ds cs : List Clause) (t : Clause) (c? : Option Connective),
    t.isLogical = false →
      (ds.foldl add (pending cs t c?)).dropTrailingConnective.clauses
        = cs ++ t :: joinedAfter c? ds
  | [], cs, t, c?, ht => dropTrailing_pending cs ht c?
  | .logical d :: ds, cs, t, c?, ht => by
    rw [List.foldl_cons, pending_connective cs ht]
    exact foldl_add_pending ds cs t _ ht
  | .comparison _ _ _ :: ds, cs, t, c?, ht
  | .presence _ _ :: ds, cs, t, c?, ht
  | .freeText _ :: ds, cs, t, c?, ht => by
    rw [List.foldl_cons, pending_term cs ht c? rfl, foldl_add_pending ds _ _ none rfl]
    simp [joinedAfter]

theorem foldl_add : ∀ ds : List Clause,
    (ds.foldl add {}).dropTrailingConnective.clauses = joined ds
  | [] => rfl
  | d :: ds => by
    cases d with
    | logical c => exact foldl_add ds
    | _ => exact foldl_add_pending ds [] _ none rfl

end Query

namespace Registry

theorem readPhrases_cons_ok_iff {r : Registry} {mode : ValidationMode} {p : Phrase}
    {ps : List Phrase} {cs : List Clause} : r.readPhrases mode (p :: ps) = .ok cs ↔
      ∃ ds es, r.readPhrase mode p = .ok ds ∧ r.readPhrases mode ps = .ok es ∧ cs = ds ++ es := by
  rw [readPhrases_cons]
  rcases r.readPhrase mode p with e | ds
  · simp [bind, Except.bind]
  · rcases r.readPhrases mode ps with e | es <;>
      simp [bind, Except.bind, pure, Except.pure, eq_comm]

/-- What holds of the clauses of every phrase holds of all clauses. -/
theorem forall_of_readPhrases {r : Registry} {mode : ValidationMode} {P : Clause → Prop} :
    ∀ {ps : List Phrase} {cs : List Clause}, r.readPhrases mode ps = .ok cs →
      (∀ p ∈ ps, ∀ ds, r.readPhrase mode p = .ok ds → ∀ c ∈ ds, P c) → ∀ c ∈ cs, P c
  | [], cs, h, _ => by
    obtain rfl : [] = cs := Except.ok.inj h
    simp
  | p :: ps, cs, h, hP => by
    obtain ⟨hp, hps⟩ := List.forall_mem_cons.1 hP
    obtain ⟨ds, es, hds, hes, rfl⟩ := readPhrases_cons_ok_iff.1 h
    exact List.forall_mem_append.2 ⟨hp ds hds, forall_of_readPhrases hes hps⟩

/-- Validation reads the phrases and adds up their clauses. -/
theorem validateBy_eq_map {ε : Type} (rd : Reading ε) (r : Registry) (mode : ValidationMode)
    (ts : List Token) :
    r.validateBy rd mode ts = (r.readPhrasesBy rd mode (phrases ts)).map fun cs =>
      (cs.foldl Query.add {}).dropTrailingConnective := by
  have h := r.addClauses_labelled rd mode ts {}
  rw [Position.labelled] at h
  rw [validateBy, Replay.run_kinds, h]
  rcases r.readPhrasesBy rd mode (phrases ts) with e | cs <;> rfl

/-- However the texts of tokens are read, validation returns the clauses, or the error, of the
grammar. -/
theorem validateBy_eq_parseBy {ε : Type} (rd : Reading ε) (r : Registry) (mode : ValidationMode)
    (ts : List Token) : r.validateBy rd mode ts = r.parseBy rd mode ts := by
  rw [validateBy_eq_map, parseBy]
  rcases r.readPhrasesBy rd mode (phrases ts) with e | cs
  · rfl
  · exact congrArg (fun ds => Except.ok (Query.mk ds)) (Query.foldl_add cs)

/-- Validation returns the clauses, or the error, of the grammar. If the grammar stops at a token
that cannot be cut, it stops there too. -/
theorem validate_eq_parse (r : Registry) (mode : ValidationMode) (ts : List Token) :
    r.validateAny mode ts = r.parseAny mode ts ∧ r.validate mode ts = r.parse mode ts :=
  ⟨validateBy_eq_parseBy .any r mode ts, validateBy_eq_parseBy .ofLine r mode ts⟩

theorem validate_eq_map (r : Registry) (mode : ValidationMode) (ts : List Token) :
    r.validate mode ts = (r.readPhrases mode (phrases ts)).map fun cs =>
      (cs.foldl Query.add {}).dropTrailingConnective :=
  validateBy_eq_map .ofLine r mode ts

theorem validate_error_iff {r : Registry} {mode : ValidationMode} {ts : List Token}
    {e : ValidationError} :
    r.validate mode ts = .error e ↔ r.readPhrases mode (phrases ts) = .error e := by
  rw [validate_eq_map]
  rcases r.readPhrases mode (phrases ts) with e' | cs <;> simp [Except.map]

theorem validate_ok_iff {r : Registry} {mode : ValidationMode} {ts : List Token} {q : Query} :
    r.validate mode ts = .ok q ↔
      ∃ cs, r.readPhrases mode (phrases ts) = .ok cs ∧ q = { clauses := joined cs } := by
  have hadd : ∀ cs : List Clause,
      (cs.foldl Query.add {}).dropTrailingConnective = { clauses := joined cs } :=
    fun cs => congrArg Query.mk (Query.foldl_add cs)
  rw [validate_eq_map]
  rcases r.readPhrases mode (phrases ts) with e | cs <;> simp [Except.map, hadd, eq_comm]

example : joined [.logical .or, .freeText "a", .freeText "b", .logical .or, .logical .and,
    .freeText "c", .logical .and]
      = [.freeText "a", .logical .and, .freeText "b", .logical .or, .freeText "c"] := rfl

end Registry

end FieldQuery
