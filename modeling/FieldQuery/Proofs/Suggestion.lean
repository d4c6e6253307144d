import FieldQuery.Proofs.Completing
import FieldQuery.Proofs.Enumeration
import FieldQuery.Proofs.Held
import FieldQuery.Proofs.Keys

/-!
# Suggestions go one token further

A suggestion is the head of the line and one word more, so reading it gives the closed tokens of the
line and one token more (`Line.read_token`). In a registry with plain names a candidate is
replayed as the kind of word that its position asks for (`Completes.offers`), and with the
tokens that are held before it, it makes up phrases that pass (`Completes.passes`).
-/

namespace FieldQuery

structure IsPlainWord (s : String) : Prop extends IsWord s where
  noConnective : Connective.ofWord? s = none
  noPrefixOperator : PrefixOperator.ofWord? s = none

instance (s : String) : Decidable (IsPlainWord s) :=
  decidable_of_iff (IsWord s ∧ Connective.ofWord? s = none ∧ PrefixOperator.ofWord? s = none)
    ⟨fun ⟨h, hc, hp⟩ => ⟨h, hc, hp⟩, fun ⟨h, hc, hp⟩ => ⟨h, hc, hp⟩⟩

/-- The kinds of the words that a query may go on with. -/
def Position.offers : Position → TokenKind → Prop
  | .start, kind | .afterConnective, kind => kind = .field ∨ kind = .prefixOperator
  | .afterPrefix, kind => kind = .field
  | .afterField, kind => kind = .comparator
  | .afterComparator, kind => kind = .value ∨ kind = .literalValue
  | .afterClause, kind => kind = .connective

theorem Connective.isWord_keyword (c : Connective) : IsWord c.keyword := by
  cases c <;> decide

theorem PrefixOperator.isWord_keyword (op : PrefixOperator) : IsWord op.keyword := by
  cases op <;> decide

theorem PrefixOperator.ofWord?_keyword (op : PrefixOperator) :
    Connective.ofWord? op.keyword = none ∧ PrefixOperator.ofWord? op.keyword = some op := by
  cases op <;> decide

theorem Comparator.isWord_symbol (c : Comparator) : IsWord c.symbol := by
  cases c <;> decide

theorem Comparator.ofSymbol?_symbol (c : Comparator) : ofSymbol? c.symbol = some c := by
  cases c <;> decide

theorem Connective.ofWord?_keyword (c : Connective) : ofWord? c.keyword = some c := by
  cases c <;> decide

theorem Comparator.isSymbol_symbol {c : Comparator} {t : Token} (ht : t.text = c.symbol)
    (hl : t.literal = false) : t.isSymbol := by
  simp [Token.isSymbol, ht, hl, ofSymbol?_symbol]

theorem IsPlainWord.isName {s : String} (h : IsPlainWord s) {t : Token} (ht : t.text = s)
    (hl : t.literal = false) : t.isName :=
  Token.isName_iff.2 ⟨ht ▸ h.noConnective, ht ▸ h.noPrefixOperator, hl⟩

theorem IsWord.dot {s : String} (h : IsWord s) : IsWord (s ++ ".") := by
  obtain ⟨hne, hb, hq⟩ := h
  refine ⟨by simp, ?_, ?_⟩ <;> intro c hc <;>
    rw [String.toList_append] at hc <;> rcases List.mem_append.1 hc with hc | hc
  · exact hb c hc
  · rw [List.mem_singleton.1 hc]
    decide
  · exact hq c hc
  · rw [List.mem_singleton.1 hc]
    decide

theorem Field.mem_keys_of_advertised {f : Field} {name : String} (h : name ∈ f.advertisedNames) :
    name ∈ f.keys := by
  unfold advertisedNames at h
  split_ifs at h
  · exact List.mem_cons.2 (.inl (List.mem_singleton.1 h))
  · exact List.mem_cons_of_mem _ h

namespace Registry

/-- All names of the registry are plain words. -/
structure HasPlainNames (r : Registry) : Prop where
  keys : ∀ f ∈ r.fields, ∀ k ∈ f.keys, IsPlainWord k
  relations : ∀ relation ∈ r.relations, IsPlainWord relation

instance (r : Registry) : Decidable r.HasPlainNames :=
  decidable_of_iff ((∀ f ∈ r.fields, ∀ k ∈ f.keys, IsPlainWord k)
      ∧ ∀ relation ∈ r.relations, IsPlainWord relation)
    ⟨fun ⟨h, h'⟩ => ⟨h, h'⟩, fun ⟨h, h'⟩ => ⟨h, h'⟩⟩

variable {r : Registry}

theorem Advertises.isPlainWord (hr : r.HasPlainNames) {c : Candidate} (h : r.Advertises c) :
    IsPlainWord c.text ∧ c.terminal := by
  obtain ⟨f, hf, -, name, hname, rfl⟩ := h
  exact ⟨hr.keys f hf name (Field.mem_keys_of_advertised hname), rfl⟩

theorem Advertises.checkField (hb : r.Built) {c : Candidate} (h : r.Advertises c) :
    ∃ f, r.checkField c.text = .ok f := by
  obtain ⟨f, hf, henabled, name, hname, rfl⟩ := h
  refine ⟨f, ?_⟩
  rw [Registry.checkField, show (Candidate.name name f.name).text = name from rfl,
    hb.resolve? hf (Field.mem_keys_of_advertised hname)]
  simp [henabled]

theorem valueField?_context {p : Replay} {typed : String} (hp : p.position ≠ .afterComparator) :
    r.valueField? (p.context typed) = none := by
  unfold Replay.context
  split
  · rfl
  · rfl
  · rfl
  · split <;> rfl
  · rename_i h
    exact absurd h hp
  · rfl

theorem enabled?_eq_some_iff {name : String} {f : Field} :
    r.enabled? name = some f ↔ r.checkField name = .ok f := by
  rw [enabled?, checkField]
  rcases r.resolve? name with _ | g
  · simp
  · rw [Option.filter_some]
    by_cases henabled : g.completionEnabled <;> simp [henabled]

theorem checkComparator_symbol {f : Field} {c : Comparator} (h : c ∈ f.type.comparators) :
    f.checkComparator c.symbol = .ok c := by
  have hc : f.comparator? c.symbol = some c := by
    rw [Field.comparator?, Comparator.ofSymbol?_symbol, Option.filter_some]
    simp [FieldType.supports, h]
  rw [Field.checkComparator, hc]

theorem readPhrases_singleton (r : Registry) (t : Token) :
    ∃ cs, r.readPhrases .fieldsOnly (phrases [t]) = .ok cs := by
  rcases hc : Connective.ofWord? t.text with _ | c
  · refine ⟨[.freeText t.unquoted], ?_⟩
    rcases hp : PrefixOperator.ofWord? t.text with _ | op
    · by_cases hl : t.literal
      · rw [phrases_literal hc hp hl]
        rfl
      · rw [phrases_name (Token.isName_of hc hp hl) (by simp)]
        rfl
    · rw [phrases_prefixOperator hc hp (by simp)]
      rfl
  · rw [phrases_connective hc]
    exact ⟨[.logical c], rfl⟩

/-- What a candidate is at the position of a replay. -/
inductive Completes (r : Registry) (p : Replay) (c : Candidate) : Prop
  | advertised
    (h : p.position = .start ∨ p.position = .afterConnective ∨ p.position = .afterPrefix)
    (hc : r.Advertises c)
  | prefixOperator (h : p.position = .start ∨ p.position = .afterConnective)
    (op : PrefixOperator) (hc : c = { text := op.keyword })
  | group (relation : String) (hr : relation ∈ r.relations) (hc : c = .group relation)
  | comparator (h : p.position = .afterField) {subject : String} (hs : p.subject = some subject)
    {f : Field} (hf : r.enabled? subject = some f) {symbol : Comparator}
    (hsymbol : symbol ∈ f.type.comparators) (hc : c = { text := symbol.symbol })
  | connective (h : p.position = .afterClause) (k : Connective) (hc : c = { text := k.keyword })

theorem completes_of_mem_candidates {threshold : Nat} {p : Replay} {typed : String}
    (hp : p.position ≠ .afterComparator) {c : Candidate}
    (hc : c ∈ r.candidates threshold [] (p.context typed)) : r.Completes p c := by
  unfold Replay.context at hc
  split at hc
  · rename_i h
    rcases of_mem_fieldCandidates hc with hc | ⟨-, op, rfl⟩ | ⟨relation, hr, -, rfl⟩
    · exact .advertised (.inl h) hc
    · exact .prefixOperator (.inl h) op rfl
    · exact .group relation hr rfl
  · rename_i h
    rcases of_mem_fieldCandidates hc with hc | ⟨-, op, rfl⟩ | ⟨relation, hr, -, rfl⟩
    · exact .advertised (.inr (.inl h)) hc
    · exact .prefixOperator (.inr h) op rfl
    · exact .group relation hr rfl
  · rename_i h
    rcases of_mem_fieldCandidates hc with hc | ⟨hscope, -⟩ | ⟨relation, hr, -, rfl⟩
    · exact .advertised (.inr (.inr h)) hc
    · simp at hscope
    · exact .group relation hr rfl
  · rename_i h
    split at hc
    · rename_i subject hs
      obtain ⟨f, hf, symbol, hsymbol, rfl⟩ := of_mem_comparatorCandidates hc
      exact .comparator h hs hf hsymbol rfl
    · simp [candidates] at hc
  · rename_i h
    exact absurd h hp
  · rename_i h
    obtain ⟨w, hw, rfl⟩ := of_mem_wordCandidates hc
    obtain ⟨k, -, rfl⟩ := List.mem_map.1 hw
    exact .connective h k rfl

namespace Completes

variable {p : Replay} {c : Candidate}

theorem isWord (hr : r.HasPlainNames) (h : r.Completes p c) : IsWord c.text := by
  cases h with
  | advertised h hc => exact (hc.isPlainWord hr).1.toIsWord
  | prefixOperator h op hc => exact hc ▸ op.isWord_keyword
  | group relation hrelation hc => exact hc ▸ (hr.relations relation hrelation).toIsWord.dot
  | comparator h hs hf hsymbol hc => exact hc ▸ Comparator.isWord_symbol _
  | connective h k hc => exact hc ▸ k.isWord_keyword

theorem group_of_not_terminal (h : r.Completes p c) (hterminal : ¬ c.terminal) :
    ∃ relation ∈ r.relations, c = .group relation := by
  cases h with
  | group relation hrelation hc => exact ⟨relation, hrelation, hc⟩
  | advertised h hc =>
    obtain ⟨f, -, -, name, -, rfl⟩ := hc
    simp [Candidate.name] at hterminal
  | prefixOperator h op hc => simp [hc] at hterminal
  | comparator h hs hf hsymbol hc => simp [hc] at hterminal
  | connective h k hc => simp [hc] at hterminal

theorem offers (hr : r.HasPlainNames) (h : r.Completes p c) (hterminal : c.terminal) {t : Token}
    (ht : t.text = c.text) (hl : t.literal = false) :
    p.position.offers (p.position.next t).2 := by
  cases h with
  | advertised h hc =>
    have hn := (hc.isPlainWord hr).1.isName ht hl
    rcases h with h | h | h <;> rw [h]
    · exact .inl (by rw [Position.next_name hn])
    · exact .inl (by rw [Position.next_afterConnective, Position.next_name hn])
    · rw [Position.next_prefixed hn]
      rfl
  | prefixOperator h op hc =>
    have htext : t.text = op.keyword := ht.trans (congrArg Candidate.text hc)
    obtain ⟨hconnective, hop⟩ := op.ofWord?_keyword
    rw [← htext] at hconnective hop
    have hnext := Position.next_prefixOperator hconnective hop
    rcases h with h | h <;> rw [h]
    · exact .inr (by rw [hnext])
    · exact .inr (by rw [Position.next_afterConnective, hnext])
  | group relation hrelation hc =>
    subst hc
    simp [Candidate.group] at hterminal
  | comparator h hs hf hsymbol hc =>
    have htext := ht.trans (congrArg Candidate.text hc)
    rw [h, Position.next_symbol (Comparator.isSymbol_symbol htext hl)]
    rfl
  | connective h k hc =>
    have htext : t.text = k.keyword := ht.trans (congrArg Candidate.text hc)
    have hk := k.ofWord?_keyword
    rw [← htext] at hk
    rw [h, Position.next_afterClause, Position.next_connective hk]
    rfl

theorem passes (hb : r.Built) (hr : r.HasPlainNames) (h : r.Completes p c) (hterminal : c.terminal)
    {held : List Token} (hheld : Held p held) {t : Token} (ht : t.text = c.text)
    (hl : t.literal = false) :
    ∃ cs, r.readPhrases .fieldsOnly (phrases (held ++ [t])) = .ok cs := by
  cases hheld with
  | none h' => exact r.readPhrases_singleton t
  | @name n h' hn hs =>
    cases h with
    | advertised h hc => simp [h'] at h
    | prefixOperator h op hc => simp [h'] at h
    | group relation hrelation hc => simp [hc, Candidate.group] at hterminal
    | connective h k hc => simp [h'] at h
    | @comparator h subject hs' f hf symbol hsymbol hc =>
      have htext : t.text = symbol.symbol := ht.trans (congrArg Candidate.text hc)
      have hsubject : subject = n.text := Option.some.inj (hs'.symm.trans hs)
      have hfield : r.checkField n.text = .ok f := enabled?_eq_some_iff.1 (hsubject ▸ hf)
      have hcomparator : f.checkComparator t.text = .ok symbol :=
        htext ▸ checkComparator_symbol hsymbol
      refine ⟨[], ?_⟩
      rw [List.singleton_append, phrases_dangling hn (Comparator.isSymbol_symbol htext hl)]
      simp [readPhrases_cons, readPhrases_nil, readPhrase_dangling, hfield, hcomparator, bind,
        Except.bind, pure, Except.pure]
  | @prefixOperator q op h' hc hp =>
    cases h with
    | prefixOperator h op hc => simp [h'] at h
    | group relation hrelation hc => simp [hc, Candidate.group] at hterminal
    | connective h k hc => simp [h'] at h
    | comparator h => simp [h'] at h
    | advertised h hadvertised =>
      have hn := (hadvertised.isPlainWord hr).1.isName ht hl
      obtain ⟨f, hf⟩ := hadvertised.checkField hb
      rw [← ht] at hf
      refine ⟨[.presence op f.name], ?_⟩
      rw [List.singleton_append, phrases_presence hc hp hn]
      simp [readPhrases_cons, readPhrases_nil, readPhrase_presence, phrases, hf, bind, Except.bind,
        pure, Except.pure]
  | @comparator n symbol h' hn hs hsubject hcomparator =>
    -- A value comes next, and no candidate stands where a value does.
    cases h with
    | advertised h hc => simp [h'] at h
    | prefixOperator h op hc => simp [h'] at h
    | group relation hrelation hc => simp [hc, Candidate.group] at hterminal
    | comparator h => simp [h'] at h
    | connective h k hc => simp [h'] at h

end Completes

end Registry

namespace Candidate

theorem suggestion_terminal {c : Candidate} (hc : c.terminal) (head : String) :
    c.suggestion head = head ++ " " ++ c.text ++ " " := by
  simp [suggestion, hc]

theorem suggestion_open {c : Candidate} (hc : ¬ c.terminal) (head : String) :
    c.suggestion head = head ++ " " ++ c.text := by
  simp [suggestion, hc]

theorem suggestion_group (head relation : String) :
    (group relation).suggestion head = head ++ " " ++ relation ++ "." := by
  simp [suggestion, group, String.append_assoc]

end Candidate

/-- Accepting the candidate takes the line `l` at the position `p` to the line `l'`: a complete word
is one closed token more, of a kind that the position asks for, and the dot of a relation is the
open word. -/
structure Candidate.Accepted (c : Candidate) (r : Registry) (p : Position) (l l' : Line) :
    Prop where
  word : c.terminal → ∃ t kind, l'.tokens = l.closedTokens ++ [t] ∧ t.closed
    ∧ (Replay.run l'.tokens).kinds = (Replay.run l.closedTokens).kinds ++ [kind] ∧ p.offers kind
  group : ¬ c.terminal → ∃ relation ∈ r.relations, c = .group relation
    ∧ l'.closedTokens = l.closedTokens ∧ l'.openText = relation ++ "."

namespace Registry

variable {r : Registry} {s : String} {l : Line} {c : Candidate}

theorem Completes.accepted (hr : r.HasPlainNames) (hread : Line.read s = .ok l)
    (h : r.Completes (Replay.run l.closedTokens) c) :
    ∃ l', Line.read (c.suggestion l.head) = .ok l'
      ∧ c.Accepted r (Replay.run l.closedTokens).position l l' := by
  have hword := h.isWord hr
  by_cases hterminal : c.terminal
  · obtain ⟨l', t, hread', htokens, -, htext, hl, hclosed⟩ :=
      Line.read_token hread hword.isTokenText
    rw [Candidate.suggestion_terminal hterminal]
    refine ⟨l', hread', fun _ => ?_, by simp [hterminal]⟩
    refine ⟨t, _, htokens, hclosed, ?_, h.offers hr hterminal htext (hl.trans hword.no_literal)⟩
    rw [htokens, Replay.run_concat, Replay.step_kinds]
  · obtain ⟨l', hread', hclosed, hopen, -⟩ := Line.read_word hread hword
    rw [Candidate.suggestion_open hterminal]
    refine ⟨l', hread', by simp [hterminal], fun _ => ?_⟩
    obtain ⟨relation, hrelation, rfl⟩ := h.group_of_not_terminal hterminal
    exact ⟨relation, hrelation, rfl, hclosed, hopen⟩

theorem Completes.validate (hb : r.Built) (hr : r.HasPlainNames) (hread : Line.read s = .ok l)
    (h : r.Completes (Replay.run l.closedTokens) c) {q : Query}
    (hq : r.validate .fieldsOnly l.closedTokens = .ok q) (err : ValidationError) :
    r.validate .fieldsOnly (Reader.run (c.suggestion l.head).toList).tokens ≠ .error err := by
  have hhead := Line.run_head hread
  have hword := h.isWord hr
  by_cases hterminal : c.terminal
  · obtain ⟨t, m, hrun, htext, hl, -⟩ := Reader.run_closedWord hhead hword
    obtain ⟨ps, held, -, hheld, hps⟩ := exists_held l.closedTokens
    obtain ⟨cs, hcs⟩ := h.passes hb hr hterminal hheld htext hl
    rw [Candidate.suggestion_terminal hterminal, hrun, Ne, validate_append_error_iff hps hq, hcs]
    simp
  · have hrun := Reader.run_word hhead hword
    rw [Candidate.suggestion_open hterminal, hrun, hq]
    simp

end Registry

theorem mem_render {head text : String} {cs : List Candidate} :
    text ∈ render head cs ↔ ∃ c ∈ cs, text = c.suggestion head := by
  rw [render, List.mem_eraseDups, List.mem_map]
  simp only [eq_comm]

namespace Engine

theorem complete_words {e : Engine} {σ : Type} {lookup : Lookup (StateM σ)} {st : σ} {s : String}
    {p : Position} (hp : position? s = some p) (hvalue : p ≠ .afterComparator)
    {suggestions : List String} (hs : ((e.complete lookup s).run st).1 = .ok suggestions)
    {text : String} (htext : text ∈ suggestions) :
    (∀ c ∈ s.toList, isQuote c = false)
      ∧ ∃ l, Line.read s = .ok l ∧ (Replay.run l.closedTokens).position = p
        ∧ suggestions = render l.head (e.registry.candidates e.threshold [] l.context) := by
  by_cases hq : ∀ c ∈ s.toList, isQuote c = false
  · obtain ⟨l, hread⟩ := Line.read_of_no_quote hq
    have hposition : (Replay.run l.closedTokens).position = p := by
      simpa [position?, hread, Except.toOption] using hp
    have hvalue' : e.registry.valueField? l.context = none :=
      Registry.valueField?_context (hposition ▸ hvalue)
    refine ⟨hq, l, hread, hposition, ?_⟩
    rw [complete_eq hq hread, completeLine_run, Registry.enumerate_run, hvalue'] at hs
    exact (Except.ok.inj hs).symm
  · rw [complete, completable_of_quote hq] at hs
    obtain rfl : [] = suggestions := Except.ok.inj hs
    simp at htext

/-- The line of a suggestion goes one token further than the line that it completes. -/
structure Advances (e : Engine) {σ : Type} (lookup : Lookup (StateM σ)) (p : Position)
    (s text : String) (l l' : Line) : Prop where
  read : Line.read s = .ok l
  read_text : Line.read text = .ok l'
  candidate : ∃ c ∈ e.registry.candidates e.threshold [] l.context, text = c.suggestion l.head
  accepted : ∀ c ∈ e.registry.candidates e.threshold [] l.context, text = c.suggestion l.head →
    c.Accepted e.registry p l l'
  checked : lookup.NoValidation → (∃ st ok, ((e.completeChecked lookup s).run st).1 = .ok ok) →
    ∀ st err, ((e.completeChecked lookup text).run st).1 ≠ .error (.validation err)

theorem complete_advances {r : Registry} (hb : r.Built) (hr : r.HasPlainNames) (threshold : Nat)
    {σ : Type} (lookup : Lookup (StateM σ)) (st : σ) {s : String} {p : Position}
    (hp : position? s = some p) (hvalue : p ≠ .afterComparator) {suggestions : List String}
    (hs : ((complete { registry := r, threshold } lookup s).run st).1 = .ok suggestions)
    {text : String} (htext : text ∈ suggestions) :
    ∃ l l', Advances { registry := r, threshold } lookup p s text l l' := by
  obtain ⟨hquote, l, hread, rfl, hsuggestions⟩ := complete_words hp hvalue hs htext
  obtain ⟨c, hc, rfl⟩ := mem_render.1 (hsuggestions ▸ htext)
  have hcomplete := Registry.completes_of_mem_candidates hvalue hc
  obtain ⟨l', hread', haccepted⟩ := hcomplete.accepted hr hread
  refine ⟨l, l', hread, hread', ⟨c, hc, rfl⟩, ?_, ?_⟩
  · intro d hd hsame
    obtain ⟨m, hm, hd'⟩ := (Registry.completes_of_mem_candidates hvalue hd).accepted hr hread
    rw [← hsame, hread'] at hm
    exact Except.ok.inj hm ▸ hd'
  · rintro hlookup ⟨st, ok, hok⟩ st' err herr
    obtain ⟨-, herr⟩ := (completeChecked_error_iff hlookup).1 herr
    obtain ⟨-, hclosed, -⟩ := Line.read_ok hread
    rcases hv : r.validate .fieldsOnly l.closedTokens with e | q
    · rw [completeChecked_of_error hquote (hclosed ▸ hv)] at hok
      simp at hok
    · exact hcomplete.validate hb hr hread hv err herr

def stock : Registry where
  name := "stock"
  fields := [{ name := "size", type := .integer }, Field.related "owner" "name" .string]

/-- The relation is collapsed, and accepting its dot after a prefix operator leaves the phrase
open. -/
theorem complete_advances_stock :
    (Lookup.none : Lookup (StateM Unit)).NoValidation
      ∧ position? "size = 5 has o" = some .afterPrefix
      ∧ ((complete { registry := stock, threshold := 0 } (Lookup.none : Lookup (StateM Unit))
          "size = 5 has o").run ()).1 = .ok ["size = 5 has  owner."]
      ∧ ∃ l l', Advances { registry := stock, threshold := 0 } (Lookup.none : Lookup (StateM Unit))
          .afterPrefix "size = 5 has o" "size = 5 has  owner." l l' := by
  have hb : stock.Built := ⟨{ name := "stock", fields := stock.fields }, by decide⟩
  have hr : stock.HasPlainNames := by decide
  have hs : ((complete { registry := stock, threshold := 0 } (Lookup.none : Lookup (StateM Unit))
      "size = 5 has o").run ()).1 = .ok ["size = 5 has  owner."] := by decide +kernel
  exact ⟨Lookup.noValidation_none, by decide, hs,
    complete_advances hb hr 0 .none () (by decide) (by decide) hs (by decide)⟩

end Engine

end FieldQuery
