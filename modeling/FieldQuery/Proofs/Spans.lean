import FieldQuery.Proofs.Phrases
import Mathlib.Tactic.ByContra

/-!
# The tokens of a phrase

The phrases of a query take up its tokens one after another (`phrases_split`). The tokens of a
phrase are read as this phrase unless the token behind them would belong to it
(`phrases_of_not_takes`), which a connective never does (`phrases_of_spans`).
-/

namespace FieldQuery

namespace Token

variable {t : Token}

/-- The token joins clauses and is part of none. -/
def isConnective (t : Token) : Bool :=
  (Connective.ofWord? t.text).isSome

theorem not_isName_of_connective (h : t.isConnective) : ¬ t.isName := by
  intro hn
  rw [isConnective, (isName_iff.1 hn).1] at h
  simp at h

theorem not_isSymbol_of_connective (h : t.isConnective) : ¬ t.isSymbol := by
  intro hs
  rw [isSymbol, Bool.and_eq_true] at hs
  rw [isConnective, (Comparator.no_keyword hs.2).1] at h
  simp at h

theorem isConnective_of_isSymbol (h : t.isSymbol) : t.isConnective = false :=
  Bool.eq_false_iff.2 fun hc => not_isSymbol_of_connective hc h

end Token

/-- The tokens that a phrase is read off. -/
inductive Phrase.Spans : Phrase → List Token → Prop
  | connective {t : Token} {c : Connective} (h : Connective.ofWord? t.text = some c) :
    Spans (.connective c) [t]
  | presence {t name : Token} {op : PrefixOperator} (hc : Connective.ofWord? t.text = none)
    (hp : PrefixOperator.ofWord? t.text = some op) (hn : name.isName) :
    Spans (.presence op name) [t, name]
  | comparison {name symbol value : Token} (hn : name.isName) (hs : symbol.isSymbol) :
    Spans (.comparison name symbol value) [name, symbol, value]
  | dangling {name symbol : Token} (hn : name.isName) (hs : symbol.isSymbol) :
    Spans (.dangling name symbol) [name, symbol]
  | freeText {t : Token} (hc : Connective.ofWord? t.text = none) : Spans (.freeText t) [t]

theorem phrases_split {ts : List Token} : ts ≠ [] →
    ∃ us rest p, ts = us ++ rest ∧ p.Spans us ∧ phrases ts = p :: phrases rest := by
  fun_cases phrases ts with
  | case1 => simp
  | case2 t ts c hc => exact fun _ => ⟨[t], ts, _, rfl, .connective hc, rfl⟩
  | case3 t op hp hc => exact fun _ => ⟨[t], [], _, rfl, .freeText hc, rfl⟩
  | case4 t op hp hc name rest hn =>
    exact fun _ => ⟨[t, name], rest, _, rfl, .presence hc hp hn, rfl⟩
  | case5 t op hp hc name rest hn => exact fun _ => ⟨[t], name :: rest, _, rfl, .freeText hc, rfl⟩
  | case6 t ts hp hc hl => exact fun _ => ⟨[t], ts, _, rfl, .freeText hc, rfl⟩
  | case7 t hp hc hl => exact fun _ => ⟨[t], [], _, rfl, .freeText hc, rfl⟩
  | case8 t hp hc hl symbol hs =>
    exact fun _ => ⟨[t, symbol], [], _, rfl, .dangling (Token.isName_of hc hp hl) hs, rfl⟩
  | case9 t hp hc hl symbol hs value rest =>
    have hn := Token.isName_of hc hp hl
    exact fun _ => ⟨[t, symbol, value], rest, _, rfl, .comparison hn hs, rfl⟩
  | case10 t hp hc hl symbol rest hs =>
    exact fun _ => ⟨[t], symbol :: rest, _, rfl, .freeText hc, rfl⟩

theorem phrases_eq_nil {ts : List Token} (h : phrases ts = []) : ts = [] := by
  by_contra hne
  obtain ⟨us, rest, p, -, -, hp⟩ := phrases_split hne
  simp [h] at hp

theorem phrases_eq_cons {ts : List Token} {p : Phrase} {ps : List Phrase}
    (h : phrases ts = p :: ps) : ∃ us rest, ts = us ++ rest ∧ p.Spans us ∧ phrases rest = ps := by
  have hne : ts ≠ [] := by
    rintro rfl
    simp [phrases] at h
  obtain ⟨us, rest, q, hts, hspans, hq⟩ := phrases_split hne
  obtain ⟨rfl, hrest⟩ := List.cons.inj (hq.symm.trans h)
  exact ⟨us, rest, hts, hspans, hrest⟩

theorem exists_spans_of_mem {p : Phrase} {ps : List Phrase} : ∀ {ts : List Token},
    phrases ts = ps → p ∈ ps → ∃ us, us ⊆ ts ∧ p.Spans us := by
  induction ps with
  | nil => simp
  | cons q ps ih =>
    intro ts hts hp
    obtain ⟨us, rest, rfl, hspans, hrest⟩ := phrases_eq_cons hts
    rcases List.mem_cons.1 hp with rfl | hp
    · exact ⟨us, List.subset_append_left us rest, hspans⟩
    · obtain ⟨vs, hvs, hp⟩ := ih hrest hp
      exact ⟨vs, List.subset_append_of_subset_right us hvs, hp⟩

/-- The token would belong to the phrase if it came right behind. -/
def Phrase.takes : Phrase → Token → Bool
  | .freeText t, u => (PrefixOperator.ofWord? t.text).isSome && u.isName || t.isName && u.isSymbol
  | .dangling _ _, _ => true
  | _, _ => false

theorem phrases_of_not_takes {p : Phrase} {us rest : List Token} (h : p.Spans us)
    (hrest : ∀ u ∈ rest.head?, p.takes u = false) : phrases (us ++ rest) = p :: phrases rest := by
  cases h with
  | connective hc => exact phrases_connective hc
  | presence hc hop hn => exact phrases_presence hc hop hn
  | comparison hn hs => exact phrases_comparison hn hs
  | dangling hn hs =>
    cases rest with
    | nil => exact phrases_dangling hn hs
    | cons u rest => cases hrest u rfl
  | @freeText t hc =>
    rcases hop : PrefixOperator.ofWord? t.text with _ | op
    · by_cases hl : t.literal
      · exact phrases_literal hc hop hl
      · have hn := Token.isName_of hc hop hl
        refine phrases_name hn fun u hu hs => ?_
        simpa [Phrase.takes, hn, hs] using hrest u hu
    · refine phrases_prefixOperator hc hop fun u hu hn => ?_
      simpa [Phrase.takes, hop, hn] using hrest u hu

/-- What comes behind the tokens of a phrase does not belong to it. -/
theorem not_takes_of_phrases {p : Phrase} {us rest : List Token} {u : Token} {ps : List Phrase}
    (h : p.Spans us) (hp : phrases (us ++ u :: rest) = p :: ps) : p.takes u = false := by
  cases h with
  | connective hc => rfl
  | presence hc hop hn => rfl
  | comparison hn hs => rfl
  | dangling hn hs =>
    rw [List.cons_append, List.singleton_append, phrases_comparison hn hs] at hp
    simp at hp
  | @freeText t hc =>
    by_contra htakes
    simp only [Phrase.takes, Bool.not_eq_false, Bool.or_eq_true, Bool.and_eq_true] at htakes
    rcases htakes with ⟨hop, hn⟩ | ⟨hn, hs⟩
    · obtain ⟨op, hop⟩ := Option.isSome_iff_exists.1 hop
      simp [phrases_presence hc hop hn] at hp
    · cases rest with
      | nil => simp [phrases_dangling hn hs] at hp
      | cons value rest => simp [phrases_comparison hn hs] at hp

/-- A connective, or the end of the query, keeps the tokens of a phrase apart from what comes
next. A dangling phrase is the last one. -/
theorem phrases_of_spans {p : Phrase} {us rest : List Token} (h : p.Spans us)
    (hp : ∀ name symbol, p ≠ .dangling name symbol)
    (hrest : ∀ t ∈ rest.head?, t.isConnective) : phrases (us ++ rest) = p :: phrases rest := by
  refine phrases_of_not_takes h fun u hu => ?_
  have hname := Token.not_isName_of_connective (hrest u hu)
  have hsymbol := Token.not_isSymbol_of_connective (hrest u hu)
  cases p with
  | dangling name symbol => exact absurd rfl (hp name symbol)
  | freeText t => simp [Phrase.takes, hname, hsymbol]
  | _ => rfl

/-- With fewer tokens behind it, a phrase is still the first one. -/
theorem phrases_front {p : Phrase} {us front rest : List Token} {ps : List Phrase}
    (h : p.Spans us) (hp : phrases (us ++ rest) = p :: ps) (hfront : front <+: rest) :
    phrases (us ++ front) = p :: phrases front := by
  refine phrases_of_not_takes h fun u hu => ?_
  obtain ⟨front', rfl⟩ := List.head?_eq_some_iff.1 hu
  obtain ⟨back, rfl⟩ := hfront
  exact not_takes_of_phrases h hp

theorem phrases_connectives (ts : List Token) : ∀ {front : List Token},
    (∀ t ∈ front, t.isConnective) →
      ∃ ks : List Connective, phrases (front ++ ts) = ks.map .connective ++ phrases ts
  | [], _ => ⟨[], rfl⟩
  | t :: front, h => by
    obtain ⟨ht, hfront⟩ := List.forall_mem_cons.1 h
    obtain ⟨c, hc⟩ := Option.isSome_iff_exists.1 ht
    obtain ⟨ks, hks⟩ := phrases_connectives ts hfront
    exact ⟨c :: ks, by rw [List.cons_append, phrases_connective hc, hks]; rfl⟩

end FieldQuery
