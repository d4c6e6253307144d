import FieldQuery.Proofs.Indexing
import FieldQuery.Proofs.Literals

/-!
# Texts that name a field

A registry takes any name that is not blank, and any alias. A query is cut up at its blanks and its
keywords are looked for first, so not every key can be written in a query. In front of a comparator
a text stands for a field exactly if it ends in one word that is a key of the field and no keyword,
with nothing but connectives before that word (`Registry.validateText_name_iff`).
-/

namespace FieldQuery

/-- In a query the text names the field: its last token is a key of the field that is looked up as
such, and the tokens before it are connectives. -/
def Field.SpelledBy (f : Field) (s : String) : Prop :=
  ∃ l front name, Line.read s = .ok l ∧ l.tokens = front ++ [name]
    ∧ (∀ t ∈ front, t.isConnective) ∧ name.isName ∧ name.text ∈ f.keys

/-- A key that is read as one token is not looked up if it is in quotes or a keyword. -/
theorem Field.spelledBy_iff_of_isTokenText {f : Field} {s : String} (hs : IsTokenText s)
    (hkey : s ∈ f.keys) : f.SpelledBy s ↔ Connective.ofWord? s = none
      ∧ PrefixOperator.ofWord? s = none ∧ s.toList.head?.any isQuote = false := by
  obtain ⟨l, t, hread, hl, rfl, hliteral⟩ := Line.read_tokenText hs
  rw [← hliteral, ← Token.isName_iff]
  constructor
  · rintro ⟨l', front, name, hread', hl', -, hname, -⟩
    obtain rfl : l = l' := Except.ok.inj (hread.symm.trans hread')
    have hmem : name ∈ l.tokens := by simp [hl']
    obtain rfl : name = t := by simpa [hl] using hmem
    exact hname
  · intro hname
    exact ⟨l, [], t, hread, hl, by simp, hname, hkey⟩

namespace Line

variable {s v : String}

/-- A comparator and a word behind a line are two tokens more. -/
theorem read_comparison {l : Line} (h : read s = .ok l) (c : Comparator) (hv : IsWord v) :
    ∃ l' symbol value, read (s ++ " " ++ c.symbol ++ " " ++ v) = .ok l'
      ∧ l'.tokens = l.tokens.map Token.ended ++ [symbol, value]
      ∧ symbol.text = c.symbol ∧ symbol.literal = false
      ∧ value.text = v ∧ value.literal = false := by
  obtain ⟨symbol, n, hs, hsliteral, heq⟩ := tokens_between h c.isWord_symbol.isTokenText v
  obtain ⟨lv, value, hread, hlv, hvtext, hvliteral⟩ := read_tokenText hv.isTokenText
  rw [hread] at heq
  rcases hwhole : read (s ++ " " ++ c.symbol ++ " " ++ v) with e | l'
  · simp [hwhole, Except.map] at heq
  · refine ⟨l', symbol, value.moved n, rfl, ?_, hs, ?_, hvtext, ?_⟩
    · simpa [hwhole, hlv, Except.map] using heq
    · rw [hsliteral, c.isWord_symbol.no_literal]
    · rw [Token.moved_literal, hvliteral, hv.no_literal]

theorem read_comparison_of_open {e : TokenError} (h : read s = .error e) (c : Comparator)
    (hv : IsWord v) : read (s ++ " " ++ c.symbol ++ " " ++ v) = .error e := by
  rw [String.append_assoc, String.append_assoc, String.append_assoc]
  refine read_append_of_open h fun d hd => ?_
  have hspace : ∀ d ∈ " ".toList, isQuote d = false := fun d hd => by
    rw [eq_of_mem_space hd]
    decide
  simp only [String.toList_append, List.mem_append] at hd
  rcases hd with hd | hd | hd | hd
  · exact hspace d hd
  · exact c.isWord_symbol.noQuote d hd
  · exact hspace d hd
  · exact hv.noQuote d hd

end Line

/-- A comparison with connectives around it ends in its value if a comparator is last but one. -/
theorem eq_append_name {front back ts : List Token} {name symbol value s v : Token}
    (h : front ++ name :: symbol :: value :: back = ts ++ [s, v])
    (hback : ∀ t ∈ back, t.isConnective) (hs : s.isConnective = false)
    (hv : value = s → v.isConnective = false) : ts = front ++ [name] := by
  rcases List.eq_nil_or_concat back with rfl | ⟨back, b, rfl⟩
  · have hsplit : front ++ [name] ++ [symbol, value] = ts ++ [s, v] := by simpa using h
    exact (List.append_inj' hsplit rfl).1.symm
  · have hsplit : front ++ [name, symbol] ++ value :: back ++ [b] = ts ++ [s] ++ [v] := by
      simpa using h
    obtain ⟨hinit, hlast⟩ := List.append_inj' hsplit rfl
    obtain rfl : b = v := by simpa using hlast
    have hmem : s ∈ value :: back := by
      refine List.mem_of_getLast? ?_
      rw [← List.getLast?_append_of_ne_nil (front ++ [name, symbol]) (List.cons_ne_nil _ _), hinit]
      simp
    rcases List.mem_cons.1 hmem with rfl | hmem
    · have hb := hback b (by simp)
      simp [hv rfl] at hb
    · have hs' := hback s (by simp [hmem])
      simp [hs] at hs'

namespace Registry

variable {r : Registry}

/-- In front of a comparator and a value, a text gives a comparison of the field exactly if it
names the field. -/
theorem validateText_name_iff (hb : r.Built) {f : Field} (hf : f ∈ r.fields)
    (henabled : f.completionEnabled) {c : Comparator} (hc : c ∈ f.type.comparators) {v : String}
    (hv : IsWord v) (hvalue : f.checkValue c v = .ok ()) {s : String} :
    r.validateText .full (s ++ " " ++ c.symbol ++ " " ++ v)
      = .ok { clauses := [.comparison f.name c v] } ↔ f.SpelledBy s := by
  simp only [validateText_ok_iff, validate_comparison_iff]
  rcases hread : Line.read s with e | l
  · have hopen := Line.read_comparison_of_open hread c hv
    refine iff_of_false ?_ ?_
    · rintro ⟨l, h, -⟩
      simp [hopen] at h
    · rintro ⟨l, front, name, h, -⟩
      simp [hread] at h
  · obtain ⟨L, symbol, value, hL, htokens, hs, hsliteral, hvtext, hvliteral⟩ :=
      Line.read_comparison hread c hv
    have hsymbol : symbol.isSymbol := Comparator.isSymbol_symbol hs hsliteral
    have hconnective := Token.isConnective_of_isSymbol hsymbol
    constructor
    · rintro ⟨L', hL', front, name, symbol', value', back, g, hsplit, hfront, hback, hname, -, hg,
        hgname, -, -, hvalue'⟩
      obtain rfl : L = L' := Except.ok.inj (hL.symm.trans hL')
      have hnames : l.tokens.map Token.ended = front ++ [name] := by
        refine eq_append_name (hsplit.symm.trans htokens) hback hconnective ?_
        -- A value that is the comparator itself is no connective either.
        rintro rfl
        rw [← hvalue', Token.unquoted, if_neg (by simp [hsliteral])] at hvtext
        simpa [Token.isConnective, hvtext] using hconnective
      obtain ⟨front, names, hl, rfl, hlast⟩ := List.map_eq_append_iff.1 hnames
      obtain ⟨name, rfl, rfl⟩ := List.map_eq_singleton_iff.1 hlast
      obtain ⟨hg, hkey⟩ := hb.resolve?_iff.1 (checkField_ok_iff.1 hg).1
      obtain rfl : g = f := hb.eq_of_key hg hf List.mem_cons_self (hgname ▸ List.mem_cons_self)
      exact ⟨l, front, name, hread, hl, List.forall_mem_map.1 hfront, hname, hkey⟩
    · rintro ⟨l', front, name, hl, hsplit, hfront, hname, hkey⟩
      obtain rfl : l = l' := Except.ok.inj (hread.symm.trans hl)
      refine ⟨L, hL, front.map Token.ended, name.ended, symbol, value, [], f, ?_,
        List.forall_mem_map.2 hfront, by simp, hname, hsymbol, ?_, rfl, ?_, hvalue, ?_⟩
      · simp [htokens, hsplit]
      · exact checkField_ok_iff.2 ⟨hb.resolve? hf hkey, henabled⟩
      · rw [hs, checkComparator_symbol hc]
      · simp [Token.unquoted, hvliteral, hvtext]

/-- What the registry accepts as a key can be used in queries exactly if it names the field there. A
key that is read as one token does so if it is neither in quotes nor a keyword. -/
theorem validateText_key (hb : r.Built) {f : Field} (hf : f ∈ r.fields)
    (henabled : f.completionEnabled) {key : String} (hkey : key ∈ f.keys) {c : Comparator}
    (hc : c ∈ f.type.comparators) {v : String} (hv : IsWord v)
    (hvalue : f.checkValue c v = .ok ()) :
    (r.validateText .full (key ++ " " ++ c.symbol ++ " " ++ v)
        = .ok { clauses := [.comparison f.name c v] } ↔ f.SpelledBy key)
      ∧ (IsTokenText key → (r.validateText .full (key ++ " " ++ c.symbol ++ " " ++ v)
          = .ok { clauses := [.comparison f.name c v] } ↔ Connective.ofWord? key = none
            ∧ PrefixOperator.ofWord? key = none ∧ key.toList.head?.any isQuote = false)) := by
  have h := validateText_name_iff hb hf henabled hc hv hvalue (s := key)
  exact ⟨h, fun htext => h.trans (Field.spelledBy_iff_of_isTokenText htext hkey)⟩

def almanac : Registry where
  name := "almanac"
  fields := [{ name := "moon", type := .string, aliases := ["or moon", "has", "full moon",
    "o'clock", "and"] }]

/-- The alias `or moon` is read as a connective and a name, and this is the name of the field. -/
theorem validateText_key_almanac : almanac.Built ∧ ∃ f ∈ almanac.fields, f.completionEnabled
    ∧ "or moon" ∈ f.keys ∧ Comparator.like ∈ f.type.comparators ∧ IsWord "fu%"
    ∧ f.checkValue .like "fu%" = .ok ()
    ∧ almanac.validateText .full ("or moon" ++ " " ++ Comparator.symbol .like ++ " " ++ "fu%")
      = .ok { clauses := [.comparison f.name .like "fu%"] } := by
  have hb : almanac.Built := ⟨{ name := "almanac", fields := almanac.fields }, by decide⟩
  refine ⟨hb, _, List.mem_cons_self, rfl, by decide, by decide, by decide, by decide, ?_⟩
  exact (validateText_key hb List.mem_cons_self rfl (by decide) (by decide) (by decide)
    (by decide)).1.2 ⟨_, [_], _, rfl, rfl, by decide, by decide, by decide⟩

/-- Among the aliases, `and` is read as a connective and `has` as a prefix operator, `full moon` is
cut in two, and `o'clock` leaves a quote open. -/
theorem validateText_key_almanac_and : almanac.Built ∧ (∃ f ∈ almanac.fields, f.completionEnabled
      ∧ (∀ key ∈ ["and", "has", "full moon", "o'clock"], key ∈ f.keys)
      ∧ Comparator.eq ∈ f.type.comparators ∧ IsWord "new" ∧ f.checkValue .eq "new" = .ok ()
      ∧ f.name = "moon")
    ∧ almanac.validateText .full "and = new"
      = .ok { clauses := [.freeText "=", .logical .and, .freeText "new"] }
    ∧ almanac.validateText .full "has = new" = .error (.unknownField "=")
    ∧ almanac.validateText .full "full moon = new" = .ok { clauses := [.freeText "full",
      .logical .and, .comparison "moon" .eq "new"] }
    ∧ almanac.validateText .full "o'clock = new" = .error .unterminatedLiteral := by
  refine ⟨⟨{ name := "almanac", fields := almanac.fields }, by decide⟩, ?_⟩
  decide +kernel

end Registry

end FieldQuery
