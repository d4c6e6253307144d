import FieldQuery.Proofs.Quoting

/-!
# When known values are looked up

After the closed tokens of a line, a value comes next that has known values exactly if the last two
tokens are a field that has its values completed and a comparator of its type
(`Registry.valueField?_context_iff`). Completion then asks for the values of this field and for no
others, and what it comes to is a function of the answer (`Engine.complete_of_asksFor`). On all
other lines it asks for nothing and cannot fail (`Engine.complete_of_not_asksFor`). A lookup that
keeps a list of the fields that it is asked for tells how often it was asked (`Lookup.logged`).
-/

namespace FieldQuery

/-- The context of a value is that of a field and a comparator at the end of the closed tokens. -/
theorem Registry.valueField?_context_iff {r : Registry} {l : Line} {f : Field} :
    r.valueField? l.context = some f ↔ r.AwaitsValue l.closedTokens f := by
  refine ⟨fun h => ?_, fun h => h.context.choose_spec.choose_spec.2⟩
  by_cases hp : (Replay.run l.closedTokens).position = .afterComparator
  · obtain ⟨ps, held, ⟨front, hfront⟩, hheld, -⟩ := exists_held l.closedTokens
    cases hheld with
    | none h => simp [hp] at h
    | name h => simp [hp] at h
    | prefixOperator h => simp [hp] at h
    | @comparator name symbol _ hn hs hsubject hcomparator =>
      rw [Line.context, Replay.context, hp, hsubject, hcomparator] at h
      obtain ⟨hresolve, hcompletes⟩ := Option.filter_eq_some_iff.1 h
      obtain ⟨hfield, henabled⟩ := Option.filter_eq_some_iff.1 hresolve
      obtain ⟨hvalues, hsupports⟩ := Bool.and_eq_true_iff.1 hcompletes
      obtain ⟨c, hc, hsupports⟩ := Option.any_eq_true _ _ |>.1 hsupports
      exact ⟨hp, ⟨front, name, symbol, c, hfront.symm, hfield, hc, hsupports⟩, henabled, hvalues⟩
  · rw [Line.context, valueField?_context hp] at h
    cases h

/-- The lookup with a list of the fields that it has been asked for. -/
def Lookup.logged {σ : Type} (lookup : Lookup (StateM σ)) : Lookup (StateM (List Field × σ)) :=
  fun f s =>
    let (result, st) := (lookup f).run s.2
    (result, (s.1 ++ [f], st))

namespace Engine

/-- The line asks for the known values of the field: no quote stands in it, and its closed tokens
end in the field, which has its values completed, and in a comparator of the type of the field. -/
structure AsksFor (e : Engine) (s : String) (f : Field) : Prop where
  noQuote : ∀ c ∈ s.toList, isQuote c = false
  awaits : ∃ l, Line.read s = .ok l ∧ e.registry.AwaitsValue l.closedTokens f

theorem asksFor_iff {e : Engine} {s : String} {f : Field} :
    e.AsksFor s f ↔ ∃ l, completable? s = some l ∧ e.registry.valueField? l.context = some f := by
  simp only [Registry.valueField?_context_iff]
  by_cases hq : ∀ c ∈ s.toList, isQuote c = false
  · obtain ⟨l, hl, hread⟩ := completable_of_no_quote hq
    constructor
    · rintro ⟨-, l', hread', h⟩
      obtain rfl := Except.ok.inj (hread.symm.trans hread')
      exact ⟨l, hl, h⟩
    · rintro ⟨l', hl', h⟩
      obtain rfl := Option.some.inj (hl.symm.trans hl')
      exact ⟨hq, l, hread, h⟩
  · constructor
    · exact fun h => absurd h.noQuote hq
    · rintro ⟨l, hl, -⟩
      rw [completable_of_quote hq] at hl
      cases hl

example : (completable? "owner = ").bind (fun l => office.registry.valueField? l.context)
    = some { name := "owner", type := .string, valueCompletion := true } := by
  decide

/-- A line asks for the values of one field at most. -/
theorem AsksFor.unique {e : Engine} {s : String} {f g : Field} (hf : e.AsksFor s f)
    (hg : e.AsksFor s g) : f = g := by
  obtain ⟨l, hl, hf⟩ := asksFor_iff.1 hf
  obtain ⟨l', hl', hg⟩ := asksFor_iff.1 hg
  obtain rfl := Option.some.inj (hl.symm.trans hl')
  exact Option.some.inj (hf.symm.trans hg)

/-- A completion that asks for the values of a field looks them up, and fails as the lookup does. -/
theorem complete_of_asksFor {e : Engine} {s : String} {f : Field} (h : e.AsksFor s f) :
    ∃ answer : KnownResult → Except Error (List String),
      (∀ err, answer (.error err) = .error err)
        ∧ (∀ known, ∃ suggestions, answer (.ok known) = .ok suggestions)
        ∧ ∀ {σ : Type} (lookup : Lookup (StateM σ)) (st : σ), (e.complete lookup s).run st
          = (answer ((lookup f).run st).1, ((lookup f).run st).2) := by
  obtain ⟨l, hl, hf⟩ := asksFor_iff.1 h
  refine ⟨fun result => (result.map fun known => e.registry.candidates e.threshold known
    l.context).map (render l.head), fun err => rfl, fun known => ⟨_, rfl⟩, ?_⟩
  intro σ lookup st
  rw [complete, hl]
  simp only [completeLine_run, Registry.enumerate_run, hf]

theorem complete_of_not_asksFor {e : Engine} {s : String} (h : ∀ f, ¬ e.AsksFor s f) :
    ∃ suggestions, ∀ {σ : Type} (lookup : Lookup (StateM σ)) (st : σ),
      (e.complete lookup s).run st = (.ok suggestions, st) := by
  simp only [asksFor_iff] at h
  rcases hl : completable? s with _ | l
  · refine ⟨[], fun lookup st => ?_⟩
    rw [complete, hl]
    rfl
  · rcases hf : e.registry.valueField? l.context with _ | f
    · refine ⟨render l.head (e.registry.candidates e.threshold [] l.context), ?_⟩
      intro σ lookup st
      rw [complete, hl]
      simp only [completeLine_run, Registry.enumerate_run, hf]
      rfl
    · exact absurd ⟨l, hl, hf⟩ (h f)

/-- A completion with a lookup that is asked for the fields `asked`, comes to `result`, and leaves
the state `st'`. -/
structure Consults (e : Engine) (s : String) {σ : Type} (lookup : Lookup (StateM σ)) (st : σ)
    (asked : List Field) (result : Except Error (List String)) (st' : σ) : Prop where
  run : (e.complete lookup s).run st = (result, st')
  logged : (e.complete lookup.logged s).run ([], st) = (result, (asked, st'))
  length_le : asked.length ≤ 1
  mem_iff : ∀ f, f ∈ asked ↔ e.AsksFor s f
  /-- It fails exactly if the lookup does, with the error of the lookup. -/
  error_iff : ∀ err, result = .error err ↔
    ∃ f ∈ asked, ((lookup f).run st).1 = .error err
  /-- With another lookup it comes to the same, unless the two answer differently when asked. -/
  agrees : ∀ {τ : Type} (other : Lookup (StateM τ)) (u : τ),
    (∀ f ∈ asked, ((other f).run u).1 = ((lookup f).run st).1) →
      ((e.complete other s).run u).1 = result

/-- A completion asks for the known values that its line asks for, once, and for nothing else, and
it fails only if it is refused them. -/
theorem complete_consults (e : Engine) (s : String) {σ : Type} (lookup : Lookup (StateM σ))
    (st : σ) : ∃ asked result st', e.Consults s lookup st asked result st' := by
  by_cases h : ∃ f, e.AsksFor s f
  · obtain ⟨f, hf⟩ := h
    obtain ⟨answer, herror, hok, hrun⟩ := complete_of_asksFor hf
    refine ⟨[f], _, _, hrun lookup st, hrun lookup.logged ([], st), Nat.le_refl 1, fun g => ?_,
      fun err => ?_, fun other u hagrees => ?_⟩
    · rw [List.mem_singleton]
      exact ⟨fun hg => hg ▸ hf, fun hg => hg.unique hf⟩
    · simp only [List.mem_singleton, exists_eq_left]
      rcases ((lookup f).run st).1 with err' | known
      · simp [herror]
      · obtain ⟨suggestions, hsuggestions⟩ := hok known
        simp [hsuggestions]
    · rw [hrun other u, hagrees f (List.mem_singleton_self f)]
  · have hnone : ∀ f, ¬ e.AsksFor s f := fun f hf => h ⟨f, hf⟩
    obtain ⟨suggestions, hrun⟩ := complete_of_not_asksFor hnone
    refine ⟨[], .ok suggestions, st, hrun lookup st, hrun lookup.logged ([], st),
      Nat.zero_le 1, fun f => ?_, fun err => ?_, fun other u _ => ?_⟩
    · simp [hnone f]
    · simp
    · rw [hrun other u]

end Engine

end FieldQuery
