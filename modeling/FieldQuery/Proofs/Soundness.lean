import FieldQuery.Proofs.Printing

/-!
# What a validated query says

The clauses of a validated query are terms with one connective between neighbours (`chain_joined`),
so the connectives are at the odd places (`Chain.isLogical_iff`). Every term comes from one phrase,
and what was checked of the phrase holds of the term (`Registry.Built.sound_of_readPhrase`): its
field is an enabled one by its own name, its comparator is one of the type, and its value is of the
type if values are looked at.
-/

namespace FieldQuery

theorem Chain.length_odd {cs : List Clause} (h : Chain cs) : cs = [] ∨ cs.length % 2 = 1 := by
  induction h with
  | nil => exact .inl rfl
  | term ht => exact .inr rfl
  | cons ht c h hu ih =>
    refine .inr ?_
    have hodd := ih.resolve_left (List.cons_ne_nil _ _)
    simp only [List.length_cons] at hodd ⊢
    omega

theorem Chain.isLogical_iff {cs : List Clause} (h : Chain cs) :
    ∀ (i : Nat) (hi : i < cs.length), cs[i].isLogical ↔ i % 2 = 1 := by
  induction h with
  | nil => intro i hi; simp at hi
  | term ht =>
    intro i hi
    obtain rfl : i = 0 := by simpa using hi
    simp [ht]
  | cons ht c h hu ih =>
    intro i hi
    match i with
    | 0 => simp [ht]
    | 1 => simp [Clause.isLogical]
    | i + 2 =>
      have hrest := ih i (by simpa using hi)
      rw [List.getElem_cons_succ, List.getElem_cons_succ, hrest]
      omega

/-- The value is a literal of the type, or a list of such literals with commas between them if the
comparator is one of the two that take a list. -/
def FieldType.Takes (type : FieldType) (c : Comparator) (value : String) : Prop :=
  if c = .among ∨ c = .notAmong then ∀ piece ∈ splitAtChar ',' value, type.accepts (trim piece)
  else type.accepts value

theorem Field.checkValue_ok_iff_items {f : Field} {c : Comparator} {value : String} :
    f.checkValue c value = .ok () ↔ ∀ item ∈ c.items value, f.type.accepts item := by
  rw [checkValue]
  split
  · rename_i item hitem
    have hmem := List.mem_of_find?_eq_some hitem
    have hrefused := List.find?_some hitem
    refine iff_of_false (fun h => nomatch h) fun h => ?_
    simp [h item hmem] at hrefused
  · rename_i hnone
    simpa using List.find?_eq_none.1 hnone

theorem Field.checkValue_ok_iff {f : Field} {c : Comparator} {value : String} :
    f.checkValue c value = .ok () ↔ f.type.Takes c value := by
  rw [checkValue_ok_iff_items, FieldType.Takes]
  cases c <;> simp [Comparator.items, Comparator.takesList]

namespace Registry

/-- The clause says nothing that the registry does not bear out. -/
def Sound (r : Registry) (mode : ValidationMode) : Clause → Prop
  | .comparison field c value => ∃ f, r.resolve? field = some f ∧ f.name = field
      ∧ f.completionEnabled ∧ c ∈ f.type.comparators ∧ (mode = .full → f.type.Takes c value)
  | .presence _ field => ∃ f, r.resolve? field = some f ∧ f.name = field ∧ f.completionEnabled
  | .freeText _ | .logical _ => True

variable {r : Registry} {mode : ValidationMode}

theorem Built.resolve_of_checkField (hb : r.Built) {name : String} {f : Field}
    (h : r.checkField name = .ok f) : r.resolve? f.name = some f ∧ f.completionEnabled :=
  checkField_ok_iff.1 (hb.checkField_name h).2

theorem Built.sound_of_readPhrase (hb : r.Built) {p : Phrase} {cs : List Clause}
    (h : r.readPhrase mode p = .ok cs) : ∀ c ∈ cs, r.Sound mode c := by
  cases p with
  | connective c =>
    obtain rfl : [.logical c] = cs := Except.ok.inj h
    exact List.forall_mem_singleton.2 trivial
  | presence op name =>
    obtain ⟨f, hf, rfl⟩ := readPhrase_presence_ok_iff.1 h
    obtain ⟨hresolve, henabled⟩ := hb.resolve_of_checkField hf
    exact List.forall_mem_singleton.2 ⟨f, hresolve, rfl, henabled⟩
  | comparison name symbol value =>
    obtain ⟨f, c, hf, hc, hvalue, rfl⟩ := readPhrase_comparison_ok_iff.1 h
    obtain ⟨hresolve, henabled⟩ := hb.resolve_of_checkField hf
    exact List.forall_mem_singleton.2 ⟨f, hresolve, rfl, henabled, Field.mem_comparators_of_ok hc,
      fun hmode => Field.checkValue_ok_iff.1 (hvalue hmode)⟩
  | dangling name symbol =>
    rcases hd : r.danglingComparison .ofLine mode name symbol with e | u
    · simp [readPhrase, readPhraseBy_dangling, hd, Except.map] at h
    · obtain rfl : [] = cs := by simpa [readPhrase, readPhraseBy_dangling, hd, Except.map] using h
      simp
  | freeText t =>
    obtain rfl : [.freeText t.unquoted] = cs := Except.ok.inj h
    exact List.forall_mem_singleton.2 trivial

/-- A validated query has terms with one connective between neighbours, and every term is borne out
by the registry. -/
theorem validate_sound (hb : r.Built) {ts : List Token} {q : Query}
    (h : r.validate mode ts = .ok q) :
    (q.clauses = [] ∨ q.clauses.length % 2 = 1)
      ∧ (∀ (i : Nat) (hi : i < q.clauses.length), q.clauses[i].isLogical ↔ i % 2 = 1)
      ∧ ∀ c ∈ q.clauses, r.Sound mode c := by
  obtain ⟨cs, hcs, rfl⟩ := validate_ok_iff.1 h
  refine ⟨(chain_joined cs).length_odd, (chain_joined cs).isLogical_iff, fun c hc => ?_⟩
  rcases mem_joined hc with hc | ⟨k, rfl⟩
  · exact forall_of_readPhrases hcs (fun _ _ _ hds => hb.sound_of_readPhrase hds) c hc
  · trivial

def ledger : Registry where
  name := "ledger"
  fields := [{ name := "amount", type := .integer, aliases := ["sum"] },
    { name := "note", type := .string, completionEnabled := false }]

/-- A list of integers behind an alias, a prefix operator, free text, and connectives at both
ends. -/
theorem validate_sound_ledger :
    ∃ q, ledger.validate .full [{ text := "or" }, { text := "sum" }, { text := "^" },
        { text := "'1, +2'", literal := true }, { text := "has" }, { text := "amount" },
        { text := "paid" }, { text := "|" }, { text := "and" }] = .ok q
      ∧ q.clauses = [.comparison "amount" .among "1, +2", .logical .and, .presence .has "amount",
          .logical .and, .freeText "paid"]
      ∧ (q.clauses = [] ∨ q.clauses.length % 2 = 1)
      ∧ (∀ (i : Nat) (hi : i < q.clauses.length), q.clauses[i].isLogical ↔ i % 2 = 1)
      ∧ ∀ c ∈ q.clauses, ledger.Sound .full c := by
  have hb : ledger.Built := ⟨{ name := "ledger", fields := ledger.fields }, by decide⟩
  have hq : ledger.validate .full [{ text := "or" }, { text := "sum" }, { text := "^" },
      { text := "'1, +2'", literal := true }, { text := "has" }, { text := "amount" },
      { text := "paid" }, { text := "|" }, { text := "and" }] = .ok { clauses := [.comparison
        "amount" .among "1, +2", .logical .and, .presence .has "amount", .logical .and,
        .freeText "paid"] } := by decide +kernel
  exact ⟨_, hq, rfl, validate_sound hb hq⟩

end Registry

end FieldQuery
