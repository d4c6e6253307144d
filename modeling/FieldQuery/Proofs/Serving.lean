import FieldQuery.Proofs.Tables
import FieldQuery.Shell.Editing

/-!
# A cache that serves a table

A cache serves a table if every entry, fresh or not, holds what the table has for its name
(`ValueCache.Serves`). Asking through such a cache comes to what asking the table itself does, at
any time and with any time to live, and leaves a cache that serves the table
(`ValueCache.Answers`). An engine asks in no other way, so that its suggestions are those of the
table (`Session.complete_of_serves`).
-/

namespace FieldQuery

namespace ValueCache

/-- Every entry holds the values that the table has. -/
def Serves (c : ValueCache) (t : KnownValues) : Prop :=
  ∀ name e, c.entry? name = some e → e.values = t.get name

theorem serves_empty (t : KnownValues) : ({} : ValueCache).Serves t := by
  intro name e h
  simp [ entry?] at h

theorem entry?_store (c : ValueCache) (name other : String) (e : CacheEntry) :
    entry? (c.store name e) other = if other = name then some e else c.entry? other := by
  by_cases h : other = name
  · simp [store, entry?, h]
  · have hne : (other == name) = false := by simpa using h
    rw [if_neg h, store, entry?, List.lookup_cons, hne]
    exact lookup_filter_ne h c.entries

theorem Serves.store {c : ValueCache} {t : KnownValues} (h : c.Serves t) (name : String)
    (now : Nat) : (c.store name { values := t.get name, fetched := now }).Serves t := by
  intro other e he
  rw [entry?_store] at he
  split_ifs at he with hother
  · cases he
    rw [hother]
  · exact h other e he

/-- With a cache that serves the table, asking comes to the answer, and to a cache that still
serves it. -/
def Answers {α : Type} (t : KnownValues) (ask : StateM ValueCache α) (answer : α) : Prop :=
  ∀ c : ValueCache, c.Serves t → (ask.run c).1 = answer ∧ (ask.run c).2.Serves t

theorem Answers.pure {α : Type} (t : KnownValues) (a : α) :
    Answers t (Pure.pure a : StateM ValueCache α) a :=
  fun _ h => ⟨rfl, h⟩

theorem Answers.bind {α β : Type} {t : KnownValues} {ask : StateM ValueCache α} {a : α}
    {next : α → StateM ValueCache β} {b : β} (h : Answers t ask a) (hnext : Answers t (next a) b) :
    Answers t (ask >>= next) b := by
  intro c hc
  obtain ⟨rfl, hserves⟩ := h c hc
  exact hnext _ hserves

theorem fetch_run (t : KnownValues) (ttl now : Nat) (f : Field) (c : ValueCache) :
    (fetch (t.lookupIn (m := Id)) ttl now f).run c =
      match c.fresh? ttl now f.name with
      | some values => (.ok values, c)
      | none =>
        (.ok (t.get f.name), c.store f.name { values := t.get f.name, fetched := now }) := by
  simp only [fetch, fetchBy, StateT.run, pure_bind]
  rcases c.fresh? ttl now f.name with _ | values <;> rfl

/-- The cache answers for the table, whether an entry is fresh, stale or missing. -/
theorem answers_fetch (t : KnownValues) (ttl now : Nat) (f : Field) :
    Answers t (fetch (t.lookupIn (m := Id)) ttl now f) (.ok (t.get f.name)) := by
  intro c hc
  rw [fetch_run]
  rcases hfresh : c.fresh? ttl now f.name with _ | values
  · exact ⟨rfl, hc.store f.name now⟩
  · obtain ⟨e, he, rfl⟩ := Option.map_eq_some_iff.1 hfresh
    exact ⟨congrArg Except.ok (hc _ e (Option.filter_eq_some_iff.1 he).1), hc⟩

end ValueCache

open ValueCache

variable (t : KnownValues) (ttl now : Nat)

theorem Registry.answers_enumerate (r : Registry) (threshold : Nat) (c : Context) :
    Answers t (r.enumerate threshold (fetch (t.lookupIn (m := Id)) ttl now) c)
      (r.enumerate threshold (t.lookupIn (m := Id)) c) := by
  unfold enumerate
  rcases r.valueField? c with _ | f
  · exact Answers.pure t _
  · exact (answers_fetch t ttl now f).bind (Answers.pure t _)

namespace Engine

variable (e : Engine)

theorem answers_completeLine (l : Line) :
    Answers t (e.completeLine (fetch (t.lookupIn (m := Id)) ttl now) l)
      (e.completeLine (t.lookupIn (m := Id)) l) :=
  (e.registry.answers_enumerate t ttl now e.threshold l.context).bind (Answers.pure t _)

theorem completeLine_ok (l : Line) : ∃ rs, e.completeLine (t.lookupIn (m := Id)) l = .ok rs := by
  simp only [completeLine, Registry.enumerate]
  rcases e.registry.valueField? l.context with _ | f <;> exact ⟨_, rfl⟩

theorem complete_ok (line : String) : ∃ rs, e.complete (t.lookupIn (m := Id)) line = .ok rs := by
  simp only [complete]
  rcases completable? line with _ | l
  · exact ⟨_, rfl⟩
  · exact e.completeLine_ok t l

theorem answers_complete (line : String) :
    Answers t (e.complete (fetch (t.lookupIn (m := Id)) ttl now) line)
      (e.complete (t.lookupIn (m := Id)) line) := by
  unfold complete
  rcases completable? line with _ | l
  · exact Answers.pure t _
  · exact e.answers_completeLine t ttl now l

theorem answers_completeChecked (line : String) :
    Answers t (e.completeChecked (fetch (t.lookupIn (m := Id)) ttl now) line)
      (e.completeChecked (t.lookupIn (m := Id)) line) := by
  unfold completeChecked
  rcases completable? line with _ | l
  · exact Answers.pure t _
  · simp only []
    rcases e.registry.validate .fieldsOnly l.closedTokens with err | q
    · exact Answers.pure t _
    · exact e.answers_completeLine t ttl now l

end Engine

namespace Session

variable {s : Session}

theorem lookingUp_of_answers {α : Type} {ask : Engine → Lookup (StateT ValueCache Id) →
    StateT ValueCache Id α} {answer : α} {now : Nat} (h : s.cache.Serves s.known)
    (hask : Answers s.known (ask s.engine (fetch (s.known.lookupIn (m := Id)) s.ttl now)) answer) :
    ∃ c : ValueCache, c.Serves s.known ∧ s.lookingUp now ask = (answer, { s with cache := c }) := by
  obtain ⟨rfl, hserves⟩ := hask s.cache h
  exact ⟨_, hserves, rfl⟩

theorem complete_of_serves (h : s.cache.Serves s.known) (now : Nat) (line : String) :
    ∃ c : ValueCache, c.Serves s.known ∧
      s.complete now line
        = (s.engine.complete (s.known.lookupIn (m := Id)) line, { s with cache := c }) :=
  lookingUp_of_answers h (s.engine.answers_complete s.known s.ttl now line)

theorem completeChecked_of_serves (h : s.cache.Serves s.known) (now : Nat) (line : String) :
    ∃ c : ValueCache, c.Serves s.known ∧
      s.completeChecked now line
        = (s.engine.completeChecked (s.known.lookupIn (m := Id)) line, { s with cache := c }) :=
  lookingUp_of_answers h (s.engine.answers_completeChecked s.known s.ttl now line)

/-- A line that is refused is not looked up. -/
theorem completeChecked_of_error (h : s.cache.Serves s.known) {now : Nat} {line : String}
    {err : Error} (he : (s.completeChecked now line).1 = .error err) :
    (s.completeChecked now line).2 = s := by
  simp only [completeChecked, lookingUp, Engine.completeChecked] at he ⊢
  rcases hl : completable? line with _ | l
  · rfl
  · simp only [hl] at he ⊢
    rcases hv : s.engine.registry.validate .fieldsOnly l.closedTokens with err' | q
    · rfl
    · obtain ⟨rs, hrs⟩ := s.engine.completeLine_ok s.known l
      have hanswer := (s.engine.answers_completeLine s.known s.ttl now l s.cache h).1
      rw [hrs] at hanswer
      rw [hv] at he
      cases hanswer.symm.trans he

end Session

end FieldQuery
