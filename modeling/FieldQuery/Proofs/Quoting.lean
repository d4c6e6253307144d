import FieldQuery.Proofs.Completing
import FieldQuery.Proofs.Held
import FieldQuery.Proofs.Joining
import FieldQuery.Proofs.Suggestion

/-!
# What a suggested value stands for

A known value should be typed so that it is read back. It is typed in double quotes if it has a
blank, and as it is otherwise: quotes in it are missed, and so is a value with nothing in it. What
is typed is read as one token exactly if no blank of it stands outside quotes and its quotes are
closed (`Line.isTokenText_of_read`), and the token gives the value back unless the value itself
begins and ends with the same quote. The values that come through are the denotable ones
(`Line.takesValue_iff`), all values without quotes among them (`denotable_of_no_quote`), and
`O'Brien` is not (`Engine.complete_known_values_apostrophe`).
-/

namespace FieldQuery

/-! ## One token more -/

namespace Reader

/-- A blank outside quotes ends the word, so while no token comes to an end there is none. -/
theorem sheltered_of_tokens : ∀ {cs : List Char} {r : Reader} {w : OpenWord}, r.word = some w →
    (cs.foldl step r).tokens = r.tokens → sheltered w.quote cs
  | [], _, _, _, _ => rfl
  | c :: cs, r, w, hw, h => by
    rw [List.foldl_cons] at h
    by_cases hc : w.quote.isNone && isBlank c
    · have hstep : (r.step c).tokens = r.tokens ++ [w.token r.offset true] := by
        simp only [step, hw, if_pos hc]
      have hlength := (prefix_foldl_step cs (r.step c)).length_le
      rw [h, hstep, List.length_append, List.length_singleton] at hlength
      omega
    · have hword : (r.step c).word = some (w.push c) := by
        simp only [step, hw, if_neg hc]
      have htokens : (r.step c).tokens = r.tokens := by
        simp only [step, hw, if_neg hc]
      have hcs : sheltered (quoteAfter w.quote c) cs :=
        sheltered_of_tokens hword (h.trans htokens.symm)
      have hopen : w.quote.isSome || !isBlank c := by
        cases hq : w.quote <;> simp_all
      rw [sheltered, hopen, hcs]
      rfl

theorem exists_word_step {c : Char} (hc : isBlank c = false) (r : Reader) :
    ∃ w, (r.step c).word = some w := by
  unfold step
  rcases r.word with _ | w <;> simp [hc]

end Reader

namespace Line

variable {s : String} {l : Line}

/-- A space after an open word ends it in a line that can be read: in a quote it would leave the
quote open. -/
theorem closedTokens_of_read_space (h : read (s ++ " ") = .ok l) {w : OpenWord}
    (hw : (Reader.run s.toList).word = some w) : w.quote = none
      ∧ ∃ t, l.closedTokens = (Reader.run s.toList).tokens ++ [t] := by
  have hrun : Reader.run (s ++ " ").toList = (Reader.run s.toList).step ' ' := by
    rw [String.toList_append]
    exact Reader.run_concat _ _
  obtain ⟨-, hclosed, -⟩ := read_ok h
  rw [hrun] at hclosed
  have hq : w.quote = none := by
    by_contra hopen
    rw [Reader.quote_of_word hw] at hopen
    have herror := read_error_iff.2 (Option.isSome_iff_ne_none.2 hopen)
    have hspace : ∀ c ∈ " ".toList, isQuote c = false :=
      fun c hc => isQuote_of_isBlank (isBlank_of_mem_space c hc)
    rw [read_append_of_open herror hspace] at h
    cases h
  refine ⟨hq, w.token (Reader.run s.toList).offset true, ?_⟩
  rw [hclosed]
  simp [Reader.step, hw, hq, show isBlank ' ' = true from rfl]

/-- A text that gives one token more is a text of one token, if no blank stands at its ends. -/
theorem isTokenText_of_read {n : Nat} {ts : List Token} {head w : String}
    (hhead : Reader.run head.toList = { offset := n, tokens := ts }) {t : Token}
    (h : read (head ++ " " ++ w ++ " ") = .ok l) (hts : l.closedTokens = ts ++ [t])
    (hne : w.toList ≠ []) (hfirst : ∀ c ∈ w.toList.head?, isBlank c = false)
    (hlast : ∀ c ∈ w.toList.getLast?, isBlank c = false) : IsTokenText w := by
  have hrun : Reader.run (head ++ " " ++ w).toList
      = w.toList.foldl Reader.step { offset := n + 1, tokens := ts } := by
    rw [String.toList_append, String.toList_append, Reader.run_append, Reader.run_append, hhead]
    rfl
  obtain ⟨v, hv⟩ : ∃ v, (Reader.run (head ++ " " ++ w).toList).word = some v := by
    rw [hrun, ← List.dropLast_append_getLast hne, List.foldl_append]
    exact Reader.exists_word_step (hlast _ (List.getLast_mem_getLast? hne)) _
  obtain ⟨hquote, t', ht'⟩ := closedTokens_of_read_space h hv
  have htokens : (Reader.run (head ++ " " ++ w).toList).tokens = ts :=
    List.append_inj_left' (ht'.symm.trans hts) rfl
  have hsheltered : Reader.sheltered none w.toList := by
    obtain ⟨c, cs, hcs⟩ := List.exists_cons_of_ne_nil hne
    have hc : isBlank c = false := hfirst c (by rw [hcs]; rfl)
    rw [hrun, hcs, List.foldl_cons, Reader.step_gap _ _ hc, ← List.foldl_cons, ← hcs] at htokens
    exact Reader.sheltered_of_tokens (w := { start := n + 1 }) rfl htokens
  refine ⟨hne, hsheltered, ?_⟩
  rw [Reader.run_sheltered hhead hne hsheltered] at hv
  exact (congrArg OpenWord.quote (Option.some.inj hv)).trans hquote

end Line

/-! ## Denotable values -/

/-- What is typed for the value is one token that stands for the value. In double quotes, a value
must leave these open up to its end, and a blank of it must not stand outside quotes. As it is, a
value must close its quotes and must not begin and end with the same one. -/
def Denotable (v : String) : Prop :=
  if hasBlank v then
    Reader.sheltered (some '"') v.toList ∧ v.toList.foldl quoteAfter (some '"') = some '"'
  else
    v.toList.foldl quoteAfter none = none
      ∧ ¬(v.toList.head?.any isQuote ∧ v.toList.tail.getLast? = v.toList.head?)
deriving Decidable

theorem quoteAfter_eq_none_iff {quote : Option Char} {q : Char} (hq : isQuote q) :
    quoteAfter quote q = none ↔ quote = some q := by
  rcases quote with _ | p
  · simp [quoteAfter, hq]
  · simp [quoteAfter, eq_comm]

/-- The text between two quotes of one kind. -/
def inQuotes (q : Char) (t : String) : String :=
  String.singleton q ++ t ++ String.singleton q

theorem toList_inQuotes (q : Char) (t : String) :
    (inQuotes q t).toList = q :: (t.toList ++ [q]) := by
  simp [inQuotes, String.toList_append]

theorem isTokenText_inQuotes_iff {q : Char} (hq : isQuote q) {t : String} :
    IsTokenText (inQuotes q t) ↔ Reader.sheltered (some q) t.toList
      ∧ t.toList.foldl quoteAfter (some q) = some q := by
  have hafter : quoteAfter none q = some q := by simp [quoteAfter, hq]
  have hblank := isBlank_of_isQuote hq
  have hsheltered : Reader.sheltered none (q :: (t.toList ++ [q]))
      = Reader.sheltered (some q) t.toList := by
    simp [Reader.sheltered, hafter, Reader.sheltered_append, hblank]
  have hclosed : (q :: (t.toList ++ [q])).foldl quoteAfter none = none ↔
      t.toList.foldl quoteAfter (some q) = some q := by
    rw [List.foldl_cons, List.foldl_append, hafter]
    exact quoteAfter_eq_none_iff hq
  constructor
  · rintro ⟨-, h, hc⟩
    rw [toList_inQuotes] at h hc
    exact ⟨hsheltered ▸ h, hclosed.1 hc⟩
  · rintro ⟨h, hc⟩
    refine ⟨?_, ?_, ?_⟩ <;> rw [toList_inQuotes]
    · exact List.cons_ne_nil _ _
    · exact hsheltered ▸ h
    · exact hclosed.2 hc

/-- What is typed for a value with a blank. -/
theorem doubleQuoted_eq (t : String) : "\"" ++ t ++ "\"" = inQuotes '"' t := rfl

theorem isTokenText_iff_of_no_blank {v : String} (hv : hasBlank v = false) (hne : v ≠ "") :
    IsTokenText v ↔ v.toList.foldl quoteAfter none = none := by
  have hblank : ∀ c ∈ v.toList, isBlank c = false := by simpa [hasBlank] using hv
  refine ⟨fun h => h.closed, fun h => ⟨?_, Reader.sheltered_of_no_blank none hblank, h⟩⟩
  simpa using hne

theorem stripEnds_quoted (q : Char) (cs : List Char) : stripEnds (q :: (cs ++ [q])) = cs := by
  simp [stripEnds]

theorem stripEnds_eq_self_iff : ∀ {cs : List Char},
    stripEnds cs = cs ↔ ∀ q ∈ cs.head?, cs.tail.getLast? ≠ some q
  | [] => by simp [stripEnds]
  | c :: cs => by
    rw [stripEnds, List.head?_cons, List.tail_cons]
    split_ifs with h
    · have hlength : cs.dropLast.length ≠ (c :: cs).length := by
        simp only [List.length_dropLast, List.length_cons]
        omega
      simpa [h] using fun h => hlength (congrArg List.length h)
    · simpa using h

theorem valueCandidate_nonempty {v : String} (hne : v ≠ "") :
    (valueCandidate v).text.toList ≠ [] := by
  unfold valueCandidate
  split_ifs <;> simp [hne]

theorem valueCandidate_no_blank_ends (v : String) :
    (∀ c ∈ (valueCandidate v).text.toList.head?, isBlank c = false)
      ∧ ∀ c ∈ (valueCandidate v).text.toList.getLast?, isBlank c = false := by
  unfold valueCandidate
  split_ifs with hv
  · have hquote : isBlank '"' = false := by decide
    rw [doubleQuoted_eq, toList_inQuotes, List.head?_cons, ← List.cons_append, List.getLast?_concat]
    simp [hquote]
  · have hblank : ∀ c ∈ v.toList, isBlank c = false := by simpa [hasBlank] using hv
    exact ⟨fun c hc => hblank c (List.mem_of_mem_head? hc),
      fun c hc => hblank c (List.mem_of_mem_getLast? hc)⟩

theorem Denotable.isTokenText {v : String} (hne : v ≠ "") (h : Denotable v) :
    IsTokenText (valueCandidate v).text := by
  unfold Denotable at h
  unfold valueCandidate
  split_ifs at h ⊢ with hv
  · exact (isTokenText_inQuotes_iff (by decide)).2 h
  · exact (isTokenText_iff_of_no_blank (by simpa using hv) hne).2 h.1

/-- If what is typed for the value is one token, the value is denotable exactly if the token stands
for it. -/
theorem denotable_iff_unquoted {v : String} (h : IsTokenText (valueCandidate v).text) {t : Token}
    (ht : t.text = (valueCandidate v).text)
    (hl : t.literal = (valueCandidate v).text.toList.head?.any isQuote) :
    Denotable v ↔ t.unquoted = v := by
  unfold Denotable
  unfold valueCandidate at h ht hl
  split_ifs at h ht hl ⊢ with hv
  · have hliteral : t.literal := by
      rw [hl, doubleQuoted_eq, toList_inQuotes]
      rfl
    refine iff_of_true ((isTokenText_inQuotes_iff (by decide)).1 h) ?_
    rw [Token.unquoted, if_pos hliteral, ht, doubleQuoted_eq, toList_inQuotes, stripEnds_quoted,
      String.ofList_toList]
  · have hunquoted : t.unquoted = v ↔ (t.literal → stripEnds v.toList = v.toList) := by
      rw [Token.unquoted, ht]
      split_ifs with hliteral
      · rw [← String.toList_inj, String.toList_ofList]
        simp [hliteral]
      · simp [hliteral]
    rw [and_iff_right h.closed, hunquoted, stripEnds_eq_self_iff, hl]
    rcases v.toList.head? with _ | q <;> simp

theorem denotable_of_no_quote {v : String} (h : ∀ c ∈ v.toList, isQuote c = false) :
    Denotable v := by
  unfold Denotable
  split_ifs
  · refine Reader.sheltered_of_not_mem fun hmem => ?_
    exact absurd (h _ hmem) (by decide)
  · refine ⟨Reader.quote_of_no_quote h, fun ⟨hquote, _⟩ => ?_⟩
    rcases hv : v.toList with _ | ⟨q, cs⟩
    · simp [hv] at hquote
    · have hq : isQuote q = false := h q (by simp [hv])
      simp [hv, hq] at hquote

/-! ## Lines -/

/-- Reading `text` gives the closed tokens of the line and one token more, a value that stands for
`v`. -/
def Line.TakesValue (l : Line) (text v : String) : Prop :=
  ∃ l' t kind, read text = .ok l' ∧ l'.closedTokens = l.closedTokens ++ [t] ∧ t.unquoted = v
    ∧ (Replay.run l'.closedTokens).kinds = (Replay.run l.closedTokens).kinds ++ [kind]
    ∧ (kind = .value ∨ kind = .literalValue)

theorem Line.not_takesValue_empty {s : String} {l : Line} (hread : read s = .ok l) :
    ¬ l.TakesValue ((valueCandidate "").suggestion l.head) "" := by
  rintro ⟨l', t, kind, hread', hclosed, -⟩
  have htext : ((valueCandidate "").suggestion l.head).toList = l.head.toList ++ [' ', ' '] := by
    rw [Candidate.suggestion_terminal rfl]
    simp [show (valueCandidate "").text = "" from rfl]
  have hblank : isBlank ' ' := rfl
  obtain ⟨-, hclosed', -⟩ := read_ok hread'
  rw [htext, Reader.run_append, run_head hread, Reader.foldl_step_blanks _ (by simp [hblank])]
    at hclosed'
  simp [hclosed'] at hclosed

/-- Accepting a suggested value gives a line with that value exactly if it is denotable. Of a value
with nothing in it nothing is typed. -/
theorem Line.takesValue_iff {s v : String} {l : Line} (hread : read s = .ok l)
    (hp : (Replay.run l.closedTokens).position = .afterComparator) :
    l.TakesValue ((valueCandidate v).suggestion l.head) v ↔ v ≠ "" ∧ Denotable v := by
  by_cases hne : v = ""
  · subst hne
    simp [not_takesValue_empty hread]
  rw [and_iff_right hne, Candidate.suggestion_terminal rfl]
  constructor
  · rintro ⟨l', t, kind, hread', hclosed, hunquoted, -⟩
    obtain ⟨hfirst, hlast⟩ := valueCandidate_no_blank_ends v
    have htext := isTokenText_of_read (run_head hread) hread' hclosed (valueCandidate_nonempty hne)
      hfirst hlast
    obtain ⟨l'', t', hread'', -, hclosed', ht', hl', -⟩ := read_token hread htext
    obtain rfl : t' = t := by
      rw [Except.ok.inj (hread''.symm.trans hread'), hclosed] at hclosed'
      simpa using hclosed'.symm
    exact (denotable_iff_unquoted htext ht' hl').2 hunquoted
  · intro h
    have htext := h.isTokenText hne
    obtain ⟨l', t, hread', -, hclosed, ht, hl, -⟩ := read_token hread htext
    refine ⟨l', t, (Position.afterComparator.next t).2, hread', hclosed,
      (denotable_iff_unquoted htext ht hl).1 h, ?_, Position.next_value_kind t⟩
    rw [hclosed, Replay.run_concat, Replay.step_kinds, hp]

example : ["O'Brien", "O' Brien", "\"a\"", "5\" x 7\"", "5\"x7\""].filter Denotable
    = ["O' Brien", "5\"x7\""] := by decide +kernel

/-- A value of the field `f` comes next, after a name of the field and a comparator of its type, and
completion may show its known values. -/
structure Registry.AwaitsValue (r : Registry) (ts : List Token) (f : Field) : Prop where
  position : (Replay.run ts).position = .afterComparator
  tokens : ∃ front name symbol c, ts = front ++ [name, symbol] ∧ r.resolve? name.text = some f
    ∧ Comparator.ofSymbol? symbol.text = some c ∧ f.type.supports c
  completionEnabled : f.completionEnabled
  valueCompletion : f.valueCompletion

/-- After a comparator, replay knows the last two tokens as the field and the comparator. -/
theorem Replay.context_of_comparator {front : List Token} {name symbol : Token}
    (hp : (Replay.run (front ++ [name, symbol])).position = .afterComparator) (typed : String) :
    (Replay.run (front ++ [name, symbol])).context typed = .value name.text symbol.text typed := by
  obtain ⟨ps, held, ⟨front', hfront⟩, hheld, -⟩ := exists_held (front ++ [name, symbol])
  obtain ⟨t, symbol', rfl, hsubject, hcomparator⟩ := hheld.exists_comparator hp
  obtain ⟨rfl, rfl⟩ : t = name ∧ symbol' = symbol := by
    simpa using List.append_inj_right' hfront rfl
  simp only [context, hp, hsubject, hcomparator]

theorem Registry.AwaitsValue.context {r : Registry} {l : Line} {f : Field}
    (h : r.AwaitsValue l.closedTokens f) : ∃ field comparator,
      l.context = .value field comparator l.openText ∧ r.valueField? l.context = some f := by
  obtain ⟨front, name, symbol, c, hts, hf, hc, hsupports⟩ := h.tokens
  have hp := h.position
  rw [hts] at hp
  have hcontext : l.context = .value name.text symbol.text l.openText := by
    rw [Line.context, hts]
    exact Replay.context_of_comparator hp l.openText
  refine ⟨_, _, hcontext, ?_⟩
  rw [hcontext]
  simp [valueField?, enabled?, hf, hc, hsupports, h.completionEnabled, h.valueCompletion]

namespace Engine

/-- Where a value comes next, every known value that starts with what has been typed is suggested,
and accepting it gives a line with that value exactly if the value is denotable and not empty. -/
theorem complete_known_values (e : Engine) {σ : Type} (lookup : Lookup (StateM σ)) (st : σ)
    {s : String} (hq : ∀ c ∈ s.toList, isQuote c = false) {l : Line} (hread : Line.read s = .ok l)
    {f : Field} (hvalue : e.registry.AwaitsValue l.closedTokens f) {known : List String}
    (hknown : ((lookup f).run st).1 = .ok known) :
    ∃ suggestions, ((e.complete lookup s).run st).1 = .ok suggestions
      ∧ ∀ v ∈ known, v.startsWith l.openText →
        (valueCandidate v).suggestion l.head ∈ suggestions
          ∧ (l.TakesValue ((valueCandidate v).suggestion l.head) v ↔ v ≠ "" ∧ Denotable v) := by
  obtain ⟨field, comparator, hcontext, hfield⟩ := hvalue.context
  refine ⟨render l.head (e.registry.candidates e.threshold known l.context), ?_, ?_⟩
  · rw [complete_eq hq hread, completeLine_run, Registry.enumerate_run, hfield]
    simp [hknown, Except.map]
  · intro v hv hstart
    refine ⟨mem_render.2 ⟨valueCandidate v, ?_, rfl⟩, Line.takesValue_iff hread hvalue.position⟩
    rw [hcontext, Registry.candidates]
    exact List.mem_map_of_mem (List.mem_filter.2 ⟨hv, hstart⟩)

def office : Engine where
  registry := { fields := [{ name := "owner", type := .string, valueCompletion := true }] }

def owners (known : List String) : Lookup (StateM Unit) :=
  KnownValues.lookupIn [("owner", known)]

theorem office_awaitsValue {l : Line} (h : Line.read "owner = " = .ok l) :
    office.registry.AwaitsValue l.closedTokens
      { name := "owner", type := .string, valueCompletion := true } := by
  obtain rfl := Except.ok.inj h
  exact ⟨by decide, ⟨[], _, _, .eq, rfl, rfl, rfl, rfl⟩, rfl, rfl⟩

/-- In double quotes the apostrophe is one more character of the value. -/
theorem complete_known_values_office : ∃ l f suggestions, Line.read "owner = " = .ok l
    ∧ office.registry.AwaitsValue l.closedTokens f
    ∧ ((owners ["the O'Briens"] f).run ()).1 = .ok ["the O'Briens"]
    ∧ ((office.complete (owners ["the O'Briens"]) "owner = ").run ()).1 = .ok suggestions
    ∧ "owner =  \"the O'Briens\" " ∈ suggestions
    ∧ l.TakesValue "owner =  \"the O'Briens\" " "the O'Briens" := by
  obtain ⟨l, hread⟩ : ∃ l, Line.read "owner = " = .ok l := ⟨_, rfl⟩
  have hvalue := office_awaitsValue hread
  have hknown : ((owners ["the O'Briens"]
      { name := "owner", type := .string, valueCompletion := true }).run ()).1
      = .ok ["the O'Briens"] := rfl
  obtain ⟨suggestions, hs, h⟩ :=
    complete_known_values office (owners ["the O'Briens"]) () (by simp [isQuote]) hread hvalue
      hknown
  obtain ⟨hhead, hopen⟩ : l.head = "owner = " ∧ l.openText = "" := by
    obtain rfl := Except.ok.inj hread
    decide
  obtain ⟨hmem, hiff⟩ := h "the O'Briens" (by simp) (by rw [hopen]; decide +kernel)
  rw [hhead] at hmem hiff
  exact ⟨l, _, suggestions, hread, hvalue, hknown, hs, hmem, hiff.2 ⟨by decide, by decide⟩⟩

/-- The apostrophe is missed: typed as it is, the value leaves a quote open. -/
theorem complete_known_values_apostrophe : office.registry.Built
    ∧ ∃ l f suggestions, Line.read "owner = " = .ok l
      ∧ office.registry.AwaitsValue l.closedTokens f
      ∧ ((owners ["O'Brien"] f).run ()).1 = .ok ["O'Brien"] ∧ "O'Brien".startsWith l.openText
      ∧ ((office.complete (owners ["O'Brien"]) "owner = ").run ()).1 = .ok suggestions
      ∧ ∀ text ∈ suggestions, ¬ l.TakesValue text "O'Brien" := by
  have hs : ((office.complete (owners ["O'Brien"]) "owner = ").run ()).1
      = .ok ["owner =  O'Brien "] := by decide +kernel
  have hopen : Line.read "owner =  O'Brien " = .error .unterminatedLiteral := rfl
  refine ⟨⟨{ fields := office.registry.fields }, by decide⟩, _, _, _, rfl, office_awaitsValue rfl,
    rfl, by decide +kernel, hs, ?_⟩
  intro text htext
  obtain rfl := List.mem_singleton.1 htext
  rintro ⟨l', t, kind, hread, -⟩
  simp [hopen] at hread

end Engine

end FieldQuery
