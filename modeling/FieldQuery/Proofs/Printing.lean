import FieldQuery.Proofs.Spans
import FieldQuery.Proofs.Suggestion
import FieldQuery.Proofs.Words

/-!
# Printed queries

A query has one connective between neighbouring terms (`chain_joined`), and such clauses are joined
to themselves (`joined_of_chain`). A clause that is read off words is printed as words, and these
are read as the clause again (`Registry.phrases_words`): the connective after it, or the end of the
line, keeps it apart from what comes next. So the printed form of a query means the query
(`Registry.validateText_text`).
-/

namespace FieldQuery

/-- Terms with one connective between neighbours. -/
inductive Chain : List Clause → Prop
  | nil : Chain []
  | term {t : Clause} (ht : t.isLogical = false) : Chain [t]
  | cons {t u : Clause} (ht : t.isLogical = false) (c : Connective) {cs : List Clause}
    (h : Chain (u :: cs)) (hu : u.isLogical = false) : Chain (t :: .logical c :: u :: cs)

theorem chain_joinedAfter : ∀ (cs : List Clause) (c? : Option Connective) {t : Clause},
    t.isLogical = false → Chain (t :: joinedAfter c? cs)
  | [], _, _, ht => .term ht
  | .logical c :: cs, c?, _, ht => chain_joinedAfter cs (c?.or (some c)) ht
  | .comparison _ _ _ :: cs, _, _, ht
  | .presence _ _ :: cs, _, _, ht
  | .freeText _ :: cs, _, _, ht => .cons ht _ (chain_joinedAfter cs none rfl) rfl

theorem chain_joined : ∀ cs : List Clause, Chain (joined cs)
  | [] => .nil
  | .logical _ :: cs => chain_joined cs
  | .comparison _ _ _ :: cs
  | .presence _ _ :: cs
  | .freeText _ :: cs => chain_joinedAfter cs none rfl

theorem joined_cons {t : Clause} (ht : t.isLogical = false) (cs : List Clause) :
    joined (t :: cs) = t :: joinedAfter none cs := by
  cases t <;> first | rfl | simp [Clause.isLogical] at ht

theorem joinedAfter_cons {t : Clause} (ht : t.isLogical = false) (c? : Option Connective)
    (cs : List Clause) :
    joinedAfter c? (t :: cs) = .logical (c?.getD .and) :: t :: joinedAfter none cs := by
  cases t <;> first | rfl | simp [Clause.isLogical] at ht

theorem joined_of_chain {cs : List Clause} (h : Chain cs) : joined cs = cs := by
  induction h with
  | nil => rfl
  | term ht => rw [joined_cons ht, joinedAfter]
  | cons ht c h hu ih =>
    rw [joined_cons hu, List.cons.injEq] at ih
    rw [joined_cons ht, joinedAfter, joinedAfter_cons hu, ih.2]
    rfl

theorem mem_joinedAfter {d : Clause} : ∀ {cs : List Clause} {c? : Option Connective},
    d ∈ joinedAfter c? cs → d ∈ cs ∨ ∃ c, d = .logical c
  | .logical c :: cs, c?, h => by
    rw [joinedAfter] at h
    exact (mem_joinedAfter h).imp_left (List.mem_cons_of_mem _)
  | .comparison _ _ _ :: cs, _, h
  | .presence _ _ :: cs, _, h
  | .freeText _ :: cs, _, h => by
    rcases List.mem_cons.1 h with rfl | h
    · exact .inr ⟨_, rfl⟩
    · rcases List.mem_cons.1 h with rfl | h
      · exact .inl List.mem_cons_self
      · exact (mem_joinedAfter h).imp_left (List.mem_cons_of_mem _)

theorem mem_joined {d : Clause} : ∀ {cs : List Clause}, d ∈ joined cs →
    d ∈ cs ∨ ∃ c, d = .logical c
  | .logical _ :: cs, h => by
    rw [joined] at h
    exact (mem_joined h).imp_left (List.mem_cons_of_mem _)
  | .comparison _ _ _ :: cs, h
  | .presence _ _ :: cs, h
  | .freeText _ :: cs, h => by
    rcases List.mem_cons.1 h with rfl | h
    · exact .inl List.mem_cons_self
    · exact (mem_joinedAfter h).imp_left (List.mem_cons_of_mem _)

/-- The words that a clause is printed as. -/
def Clause.words : Clause → List String
  | comparison field c value => [field, c.symbol, value]
  | presence op field => [op.keyword, field]
  | freeText text => [text]
  | logical c => [c.keyword]

theorem Clause.words_ne_nil (c : Clause) : c.words ≠ [] := by
  cases c <;> simp [words]

theorem quoteIfNeeded_of_isWord {s : String} (h : IsWord s) : quoteIfNeeded s = s := by
  have hempty : s.isEmpty = false := by
    rw [Bool.eq_false_iff]
    intro he
    exact h.nonempty (by simpa using he)
  have hblank : hasBlank s = false := by simpa [hasBlank] using h.noBlank
  simp [quoteIfNeeded, hempty, hblank]

theorem Clause.text_of_words {c : Clause} (h : ∀ w ∈ c.words, IsWord w) :
    c.text = " ".intercalate c.words := by
  cases c with
  | comparison field c value =>
    have hvalue := quoteIfNeeded_of_isWord (h value (by simp [words]))
    simp only [text, words, hvalue, String.intercalate_cons_cons, String.intercalate_singleton,
      String.append_assoc]
    rfl
  | presence op field =>
    simp only [text, words, String.intercalate_cons_cons, String.intercalate_singleton]
    rfl
  | freeText text =>
    have htext := quoteIfNeeded_of_isWord (h text (by simp [words]))
    simp only [Clause.text, words, htext, String.intercalate_singleton]
  | logical c => simp only [text, words, String.intercalate_singleton]

theorem intercalate_words : ∀ cs : List Clause, (∀ c ∈ cs, ∀ w ∈ c.words, IsWord w) →
    " ".intercalate (cs.map Clause.text) = " ".intercalate (cs.flatMap Clause.words)
  | [], _ => rfl
  | [c], h => by
    have hc := Clause.text_of_words (h c List.mem_cons_self)
    simp [hc]
  | c :: d :: cs, h => by
    have hc := Clause.text_of_words (h c List.mem_cons_self)
    have hrest := intercalate_words (d :: cs) fun e he => h e (List.mem_cons_of_mem c he)
    have hne : (d :: cs).flatMap Clause.words ≠ [] := by simp [d.words_ne_nil]
    have happend : (c :: d :: cs).flatMap Clause.words
        = c.words ++ (d :: cs).flatMap Clause.words := rfl
    rw [List.map_cons, String.intercalate_cons_of_ne_nil (by simp), hrest, hc, happend,
      String.intercalate_append_of_ne_nil c.words_ne_nil hne]

namespace Phrase

/-- What the phrase takes over from its tokens into a clause is a word. -/
def Plain : Phrase → Prop
  | comparison _ _ value => value.Plain
  | freeText t => t.Plain ∧ Connective.ofWord? t.text = none
  | _ => True

end Phrase

theorem phrases_plain {ts : List Token} (h : ∀ t ∈ ts, t.Plain) : ∀ p ∈ phrases ts, p.Plain := by
  intro p hp
  obtain ⟨us, hus, hspans⟩ := exists_spans_of_mem rfl hp
  cases hspans with
  | connective hc => trivial
  | presence hc hop hn => trivial
  | comparison hn hs => exact h _ (hus (by simp))
  | dangling hn hs => trivial
  | freeText hc => exact ⟨h _ (hus List.mem_cons_self), hc⟩

theorem Field.mem_comparators_of_ok {f : Field} {symbol : String} {c : Comparator}
    (h : f.checkComparator symbol = .ok c) : c ∈ f.type.comparators := by
  rw [checkComparator] at h
  split at h
  · rename_i d hd
    obtain rfl : d = c := Except.ok.inj h
    simpa [FieldType.supports] using (Option.filter_eq_some_iff.1 hd).2
  · simp at h

namespace Registry

variable {r : Registry} {mode : ValidationMode}

theorem readPhrase_presence_ok_iff {op : PrefixOperator} {name : Token} {cs : List Clause} :
    r.readPhrase mode (.presence op name) = .ok cs ↔
      ∃ f, r.checkField name.text = .ok f ∧ cs = [.presence op f.name] := by
  rw [readPhrase_presence]
  rcases r.checkField name.text with e | f <;>
    simp [bind, Except.bind, pure, Except.pure, eq_comm]

theorem readPhrase_comparison_ok_iff {name symbol value : Token} {cs : List Clause} :
    r.readPhrase mode (.comparison name symbol value) = .ok cs ↔
      ∃ f c, r.checkField name.text = .ok f ∧ f.checkComparator symbol.text = .ok c
        ∧ (mode = .full → f.checkValue c value.unquoted = .ok ())
        ∧ cs = [.comparison f.name c value.unquoted] := by
  rw [readPhrase_comparison]
  rcases r.checkField name.text with e | f
  · simp [bind, Except.bind]
  · rcases hs : f.checkComparator symbol.text with e | c
    · simp [hs, bind, Except.bind]
    · rcases hv : f.checkValue c value.unquoted with e | u <;> cases mode <;>
        simp [hs, hv, bind, Except.bind, pure, Except.pure, eq_comm]

/-- The clause is one that the registry reads off words. -/
def Reads (r : Registry) (mode : ValidationMode) : Clause → Prop
  | .comparison field c value => IsPlainWord field ∧ IsWord value ∧ ∃ f, r.checkField field = .ok f
      ∧ f.name = field ∧ f.checkComparator c.symbol = .ok c
      ∧ (mode = .full → f.checkValue c value = .ok ())
  | .presence _ field => IsPlainWord field ∧ ∃ f, r.checkField field = .ok f ∧ f.name = field
  | .freeText text => IsWord text ∧ Connective.ofWord? text = none
  | .logical _ => True

theorem Reads.isWord {c : Clause} (h : r.Reads mode c) : ∀ w ∈ c.words, IsWord w := by
  cases c with
  | comparison field c value =>
    obtain ⟨hfield, hvalue, -⟩ := h
    simp [Clause.words, hfield.toIsWord, c.isWord_symbol, hvalue]
  | presence op field => simp [Clause.words, op.isWord_keyword, h.1.toIsWord]
  | freeText text => simp [Clause.words, h.1]
  | logical c => simp [Clause.words, c.isWord_keyword]

theorem checkField_ok_iff {name : String} {f : Field} :
    r.checkField name = .ok f ↔ r.resolve? name = some f ∧ f.completionEnabled := by
  rw [← enabled?_eq_some_iff, enabled?, Option.filter_eq_some_iff]

theorem Built.checkField_name (hb : r.Built) {name : String} {f : Field}
    (h : r.checkField name = .ok f) : f ∈ r.fields ∧ r.checkField f.name = .ok f := by
  obtain ⟨hresolve, henabled⟩ := checkField_ok_iff.1 h
  have hmem := List.mem_of_find?_eq_some ((r.resolve?_eq name).symm.trans hresolve)
  exact ⟨hmem, checkField_ok_iff.2 ⟨hb.resolve? hmem List.mem_cons_self, henabled⟩⟩

theorem reads_of_readPhrase (hb : r.Built) (hnames : ∀ f ∈ r.fields, IsPlainWord f.name)
    {p : Phrase} (hp : p.Plain) {cs : List Clause} (h : r.readPhrase mode p = .ok cs) :
    ∀ c ∈ cs, r.Reads mode c := by
  cases p with
  | connective c =>
    obtain rfl : [.logical c] = cs := Except.ok.inj h
    simp [Reads]
  | presence op name =>
    obtain ⟨f, hf, rfl⟩ := readPhrase_presence_ok_iff.1 h
    obtain ⟨hmem, hf⟩ := hb.checkField_name hf
    exact List.forall_mem_singleton.2 ⟨hnames f hmem, f, hf, rfl⟩
  | comparison name symbol value =>
    obtain ⟨f, c, hf, hc, hvalue, rfl⟩ := readPhrase_comparison_ok_iff.1 h
    obtain ⟨hmem, hf⟩ := hb.checkField_name hf
    have hword : IsWord value.unquoted := hp.unquoted ▸ hp.word
    exact List.forall_mem_singleton.2 ⟨hnames f hmem, hword, f, hf, rfl,
      checkComparator_symbol (Field.mem_comparators_of_ok hc), hvalue⟩
  | dangling name symbol =>
    rcases hd : r.danglingComparison .ofLine mode name symbol with e | u
    · simp [readPhrase, readPhraseBy_dangling, hd, Except.map] at h
    · obtain rfl : [] = cs := by simpa [readPhrase, readPhraseBy_dangling, hd, Except.map] using h
      simp
  | freeText t =>
    obtain rfl : [.freeText t.unquoted] = cs := Except.ok.inj h
    rw [hp.1.unquoted]
    exact List.forall_mem_singleton.2 ⟨hp.1.word, hp.2⟩

theorem reads_of_readPhrases (hb : r.Built) (hnames : ∀ f ∈ r.fields, IsPlainWord f.name)
    {ps : List Phrase} {cs : List Clause} (hplain : ∀ p ∈ ps, p.Plain)
    (h : r.readPhrases mode ps = .ok cs) : ∀ c ∈ cs, r.Reads mode c :=
  forall_of_readPhrases h fun p hp _ hds => reads_of_readPhrase hb hnames (hplain p hp) hds

/-- The words of a term are one phrase, if a connective or nothing comes next. -/
theorem phrases_words {c : Clause} (ht : c.isLogical = false) (h : r.Reads mode c)
    {us rest : List Token} (hus : us.map (·.text) = c.words) (hplain : ∀ t ∈ us, t.Plain)
    (hrest : ∀ t ∈ rest.head?, t.isConnective) :
    ∃ p, phrases (us ++ rest) = p :: phrases rest ∧ r.readPhrase mode p = .ok [c] := by
  cases c with
  | comparison field c value =>
    obtain ⟨hfield, hvalue, f, hf, hname, hc, hcheck⟩ := h
    simp only [Clause.words, List.map_eq_cons_iff, List.map_eq_nil_iff] at hus
    obtain ⟨n, _, rfl, hn, s, _, rfl, hs, v, _, rfl, hv, rfl⟩ := hus
    simp only [List.forall_mem_cons] at hplain
    obtain ⟨hn', hs', hv', -⟩ := hplain
    have hspans : Phrase.Spans (.comparison n s v) [n, s, v] :=
      .comparison (hfield.isName hn hn'.literal) (Comparator.isSymbol_symbol hs hs'.literal)
    refine ⟨_, phrases_of_spans hspans (by simp) hrest, readPhrase_comparison_ok_iff.2 ?_⟩
    rw [hv'.unquoted, hn, hs, hv]
    exact ⟨f, c, hf, hc, hcheck, by rw [hname]⟩
  | presence op field =>
    obtain ⟨hfield, f, hf, hname⟩ := h
    simp only [Clause.words, List.map_eq_cons_iff, List.map_eq_nil_iff] at hus
    obtain ⟨o, _, rfl, ho, n, _, rfl, hn, rfl⟩ := hus
    obtain ⟨hconnective, hop⟩ := op.ofWord?_keyword
    rw [← ho] at hconnective hop
    have hspans : Phrase.Spans (.presence op n) [o, n] :=
      .presence hconnective hop (hfield.isName hn (hplain n (by simp)).literal)
    refine ⟨_, phrases_of_spans hspans (by simp) hrest, readPhrase_presence_ok_iff.2 ?_⟩
    exact ⟨f, hn ▸ hf, by rw [hname]⟩
  | freeText text =>
    simp only [Clause.words, List.map_eq_cons_iff, List.map_eq_nil_iff] at hus
    obtain ⟨t, _, rfl, rfl, rfl⟩ := hus
    have hplain := hplain t List.mem_cons_self
    exact ⟨.freeText t, phrases_of_spans (.freeText h.2) (by simp) hrest,
      by rw [readPhrase_freeText, hplain.unquoted]⟩
  | logical c => simp [Clause.isLogical] at ht

theorem readPhrases_of_chain {cs : List Clause} (hchain : Chain cs) :
    (∀ c ∈ cs, r.Reads mode c) → ∀ {ts : List Token}, ts.map (·.text) = cs.flatMap Clause.words →
      (∀ t ∈ ts, t.Plain) → r.readPhrases mode (phrases ts) = .ok cs := by
  induction hchain with
  | nil =>
    intro _ ts hts _
    obtain rfl : ts = [] := by simpa using hts
    rfl
  | @term t ht =>
    intro hreads ts hts hplain
    obtain ⟨p, hp, hread⟩ : ∃ p, phrases (ts ++ []) = p :: phrases []
        ∧ r.readPhrase mode p = .ok [t] :=
      phrases_words ht (hreads t List.mem_cons_self) (by simpa using hts) hplain (by simp)
    rw [List.append_nil] at hp
    rw [hp]
    exact readPhrases_cons_ok_iff.2 ⟨_, _, hread, rfl, rfl⟩
  | @cons t u ht c cs h hu ih =>
    intro hreads ts hts hplain
    obtain ⟨hreadsT, -, hreadsU⟩ := by simpa only [List.forall_mem_cons] using hreads
    obtain ⟨us, vs, rfl, hus, hvs⟩ := List.map_eq_append_iff.1 hts
    obtain ⟨k, ws, rfl, hk, hws⟩ := List.map_eq_cons_iff.1 hvs
    obtain ⟨hplainU, hplainK⟩ := List.forall_mem_append.1 hplain
    have hconnective : Connective.ofWord? k.text = some c := by
      rw [hk]
      exact c.ofWord?_keyword
    obtain ⟨p, hp, hread⟩ : ∃ p, phrases (us ++ k :: ws) = p :: phrases (k :: ws)
        ∧ r.readPhrase mode p = .ok [t] :=
      phrases_words ht hreadsT hus hplainU (by simp [Token.isConnective, hconnective])
    have hrest := ih (List.forall_mem_cons.2 hreadsU) hws (List.forall_mem_cons.1 hplainK).2
    rw [hp, phrases_connective hconnective]
    have htail : r.readPhrases mode (.connective c :: phrases ws) = .ok (.logical c :: u :: cs) :=
      readPhrases_cons_ok_iff.2 ⟨[.logical c], u :: cs, rfl, hrest, rfl⟩
    exact readPhrases_cons_ok_iff.2 ⟨[t], _, hread, htail, rfl⟩

/-- The printed form of a query without quotes means the query. -/
theorem validateText_text (hb : r.Built) (hnames : ∀ f ∈ r.fields, IsPlainWord f.name)
    {s : String} (hquote : ∀ c ∈ s.toList, isQuote c = false) {q : Query}
    (h : r.validateText mode s = .ok q) : r.validateText mode q.text = .ok q := by
  obtain ⟨l, hread⟩ := Line.read_of_no_quote hquote
  rw [validateText, hread] at h
  obtain ⟨cs, hcs, rfl⟩ := validate_ok_iff.1 h
  have hreads : ∀ c ∈ joined cs, r.Reads mode c := by
    intro c hc
    rcases mem_joined hc with hc | ⟨k, rfl⟩
    · have hplain := phrases_plain (Line.words_of_read hread hquote)
      exact reads_of_readPhrases hb hnames hplain hcs c hc
    · trivial
  have hwords : ∀ w ∈ (joined cs).flatMap Clause.words, IsWord w := by
    intro w hw
    obtain ⟨c, hc, hw⟩ := List.mem_flatMap.1 hw
    exact (hreads c hc).isWord w hw
  obtain ⟨l', hread', hwords', hplain⟩ := Line.read_words hwords
  have htext : Query.text { clauses := joined cs }
      = " ".intercalate ((joined cs).flatMap Clause.words) :=
    intercalate_words _ fun c hc => (hreads c hc).isWord
  rw [validateText, htext, hread']
  refine validate_ok_iff.2
    ⟨joined cs, readPhrases_of_chain (chain_joined cs) hreads hwords' hplain, ?_⟩
  rw [joined_of_chain (chain_joined cs)]

def desk : Registry where
  name := "desk"
  fields := [{ name := "=", type := .integer, aliases := ["eq"] },
    { name := "owner", type := .string, aliases := ["o"] }]

/-- A field that is called like a comparator, a value that is spelled like a connective, and a
prefix operator with no field after it. -/
theorem validateText_text_desk :
    ∃ q, desk.validateText .full "and eq > 3 has eq or | o = and not o has" = .ok q
      ∧ q.text = "= > 3 and has = or owner = and and not owner and has"
      ∧ desk.validateText .full q.text = .ok q := by
  have hb : desk.Built := ⟨{ name := "desk", fields := desk.fields }, by decide⟩
  have hquote : ∀ c ∈ "and eq > 3 has eq or | o = and not o has".toList, isQuote c = false := by
    simp [isQuote]
  have hq : desk.validateText .full "and eq > 3 has eq or | o = and not o has" = .ok
      { clauses := [.comparison "=" .gt "3", .logical .and, .presence .has "=", .logical .or,
        .comparison "owner" .eq "and", .logical .and, .presence .not "owner", .logical .and,
        .freeText "has"] } := by decide +kernel
  exact ⟨_, hq, by decide +kernel, validateText_text hb (by decide) hquote hq⟩

end Registry

end FieldQuery
