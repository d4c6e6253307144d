import FieldQuery.Proofs.Serving

/-!
# A cache in front of a provider that changes

What a cache has to serve is said of the notes on the provider behind it: every answer of the
provider with its time, and when the cache was emptied. The entry of a name is the last successful
answer for it since then (`latest?`). Every event keeps the cache in step with the notes
(`Cached.Mirrors`), so a lookup is served from the last answer as long as this is young enough, and
otherwise asks the provider once (`Cached.run_faithful`). An answer is as old as the time since it
was given, not since it was asked for.
-/

namespace FieldQuery

/-! ## Providers that are asked through a cache -/

/-- What has happened behind a cache. -/
inductive Note where
  | answered (f : Field) (result : KnownResult) (time : Nat)
  | emptied

/-- A provider in some state, the time, and what has happened so far, the newest first. -/
structure Backend (σ : Type) where
  provider : σ
  now : Nat
  notes : List Note := []

namespace Backend

variable {σ : Type}

def clock : StateM (Backend σ) Nat :=
  fun b => (b.now, b)

/-- The lookup takes its time, and the answer is noted. -/
def ask (inner : Lookup (StateM σ)) (took : Nat) : Lookup (StateM (Backend σ)) := fun f b =>
  let (result, provider) := (inner f).run b.provider
  let now := b.now + took
  (result, { provider, now, notes := .answered f result now :: b.notes })

theorem ask_eq (inner : Lookup (StateM σ)) (took : Nat) (f : Field) (b : Backend σ) :
    ask inner took f b = (((inner f).run b.provider).1,
      { provider := ((inner f).run b.provider).2
        now := b.now + took
        notes := .answered f ((inner f).run b.provider).1 (b.now + took) :: b.notes }) :=
  rfl

end Backend

structure Cached (σ : Type) where
  backend : Backend σ
  cache : ValueCache := {}

inductive CacheEvent (σ : Type) where
  /-- A lookup, which takes some time if the provider has to be asked. -/
  | lookup (f : Field) (took : Nat)
  | wait (time : Nat)
  /-- The provider changes. -/
  | change (g : σ → σ)
  | invalidate

namespace Cached

variable {σ : Type} (inner : Lookup (StateM σ)) (ttl : Nat)

def lookup (w : Cached σ) (f : Field) (took : Nat) : KnownResult × Cached σ :=
  let fetch := ValueCache.fetchBy Backend.clock (Backend.ask inner took) ttl
  let ((result, cache), backend) := (fetch f w.cache).run w.backend
  (result, { backend, cache })

def step (w : Cached σ) : CacheEvent σ → Cached σ
  | .lookup f took => (w.lookup inner ttl f took).2
  | .wait time => { w with backend := { w.backend with now := w.backend.now + time } }
  | .change g => { w with backend := { w.backend with provider := g w.backend.provider } }
  | .invalidate =>
    { backend := { w.backend with notes := .emptied :: w.backend.notes }, cache := {} }

def run (w : Cached σ) (events : List (CacheEvent σ)) : Cached σ :=
  events.foldl (step inner ttl) w

end Cached

/-- The last successful answer for the name since the cache was emptied, with its time. -/
def latest? (name : String) : List Note → Option CacheEntry
  | [] => none
  | .emptied :: _ => none
  | .answered _ (.error _) _ :: notes => latest? name notes
  | .answered f (.ok values) time :: notes =>
    if name = f.name then some { values, fetched := time } else latest? name notes

/-! ## One lookup -/

/-- The cache after an answer for the name. -/
def ValueCache.learn (c : ValueCache) (name : String) (time : Nat) : KnownResult → ValueCache
  | .ok values => c.store name { values, fetched := time }
  | .error _ => c

theorem latest?_answered {c : ValueCache} {notes : List Note} {name : String}
    (h : c.entry? name = latest? name notes) (f : Field) (result : KnownResult) (time : Nat) :
    ValueCache.entry? (c.learn f.name time result) name =
      latest? name (.answered f result time :: notes) := by
  cases result with
  | error e => exact h
  | ok values => rw [ValueCache.learn, ValueCache.entry?_store, latest?, h]

theorem latest?_other {name : String} {f : Field} (hne : name ≠ f.name) (result : KnownResult)
    (time : Nat) (notes : List Note) :
    latest? name (.answered f result time :: notes) = latest? name notes := by
  cases result with
  | error e => rfl
  | ok values => rw [latest?, if_neg hne]

namespace Cached

variable {σ : Type} {inner : Lookup (StateM σ)} {ttl : Nat} {w : Cached σ} {f : Field}

theorem lookup_of_fresh {values : List String}
    (h : w.cache.fresh? ttl w.backend.now f.name = some values) (took : Nat) :
    w.lookup inner ttl f took = (.ok values, w) := by
  simp only [lookup, ValueCache.fetchBy, Backend.clock, StateT.run, bind, StateT.bind, h]
  rfl

/-- Without a fresh entry the provider is asked once, and the cache learns from the answer. -/
theorem lookup_of_stale (h : w.cache.fresh? ttl w.backend.now f.name = none) (took : Nat) :
    w.lookup inner ttl f took =
      (((inner f).run w.backend.provider).1,
        { backend := (Backend.ask inner took f w.backend).2
          cache := w.cache.learn f.name (w.backend.now + took)
            ((inner f).run w.backend.provider).1 }) := by
  simp only [lookup, ValueCache.fetchBy, Backend.clock, Backend.ask, StateT.run, bind, StateT.bind,
    h]
  rcases inner f w.backend.provider with ⟨e | values, provider⟩ <;> rfl

/-! ## The cache and the notes -/

/-- The entries are the last successful answers, and none of these is from the future. -/
structure Mirrors (w : Cached σ) : Prop where
  entries : ∀ name, w.cache.entry? name = latest? name w.backend.notes
  fetched_le : ∀ name e, latest? name w.backend.notes = some e → e.fetched ≤ w.backend.now

namespace Mirrors

theorem start (provider : σ) (now : Nat) : Mirrors { backend := { provider, now } } where
  entries _ := rfl
  fetched_le _ _ h := by cases h

/-- What is served is the last successful answer, if it is younger than the time to live. -/
theorem fresh?_eq (h : w.Mirrors) (ttl : Nat) (name : String) :
    w.cache.fresh? ttl w.backend.now name =
      ((latest? name w.backend.notes).filter fun e => w.backend.now < e.fetched + ttl).map
        (·.values) := by
  rw [ValueCache.fresh?, h.entries]
  rcases he : latest? name w.backend.notes with _ | e
  · rfl
  · -- as no answer is from the future, its age is a difference that is not cut off at zero
    have hle := h.fetched_le name e he
    have hiff : w.backend.now - e.fetched < ttl ↔ w.backend.now < e.fetched + ttl := by omega
    simp only [Option.filter_some, hiff]

theorem asked (h : w.Mirrors) (f : Field) (took : Nat) : Mirrors
    { backend := (Backend.ask inner took f w.backend).2
      cache := w.cache.learn f.name (w.backend.now + took)
        ((inner f).run w.backend.provider).1 } where
  entries name := latest?_answered (h.entries name) f _ _
  fetched_le name e he := by
    have hold : ∀ e, latest? name w.backend.notes = some e →
        e.fetched ≤ w.backend.now + took := fun e he => by
      have hle := h.fetched_le name e he
      omega
    simp only [Backend.ask_eq] at he ⊢
    rcases hanswer : ((inner f).run w.backend.provider).1 with err | values <;> rw [hanswer] at he
    · exact hold e he
    · rw [latest?] at he
      split_ifs at he with hname
      · cases he
        exact Nat.le_refl _
      · exact hold e he

theorem step (h : w.Mirrors) (a : CacheEvent σ) : (w.step inner ttl a).Mirrors := by
  cases a with
  | lookup f took =>
    rw [Cached.step]
    rcases hfresh : w.cache.fresh? ttl w.backend.now f.name with _ | values
    · rw [lookup_of_stale hfresh]
      exact h.asked f took
    · rw [lookup_of_fresh hfresh]
      exact h
  | wait time =>
    refine ⟨h.entries, fun name e he => ?_⟩
    have hle := h.fetched_le name e he
    simp only [Cached.step]
    omega
  | change g => exact ⟨h.entries, h.fetched_le⟩
  | invalidate => exact ⟨fun _ => rfl, fun _ _ he => by cases he⟩

theorem run (h : w.Mirrors) (events : List (CacheEvent σ)) : (w.run inner ttl events).Mirrors := by
  induction events generalizing w with
  | nil => exact h
  | cons a events ih => exact ih (h.step a)

end Mirrors

/-! ## Whole runs -/

/-- What a lookup has to do: the last successful answer is served for as long as it is younger than
the time to live, without asking anyone, and otherwise the provider is asked, once. -/
structure Faithful (inner : Lookup (StateM σ)) (ttl : Nat) (w : Cached σ) (f : Field) (took : Nat)
    (result : KnownResult) (w' : Cached σ) : Prop where
  served : ∀ e, latest? f.name w.backend.notes = some e → w.backend.now < e.fetched + ttl →
    result = .ok e.values ∧ w' = w
  asked : (∀ e, latest? f.name w.backend.notes = some e → e.fetched + ttl ≤ w.backend.now) →
    result = ((inner f).run w.backend.provider).1
      ∧ w'.backend.provider = ((inner f).run w.backend.provider).2
      ∧ w'.backend.now = w.backend.now + took
      ∧ w'.backend.notes = .answered f result w'.backend.now :: w.backend.notes
  /-- A failure changes no entry. -/
  failed : ∀ err, result = .error err → w'.cache = w.cache
  /-- What comes of other fields stays as it is. -/
  others : ∀ name, name ≠ f.name → w'.cache.entry? name = w.cache.entry? name
    ∧ latest? name w'.backend.notes = latest? name w.backend.notes
  zero : ttl = 0 → result = ((inner f).run w.backend.provider).1
    ∧ w'.backend.notes = .answered f result w'.backend.now :: w.backend.notes

theorem Mirrors.faithful (h : w.Mirrors) (f : Field) (took : Nat) :
    w.Faithful inner ttl f took (w.lookup inner ttl f took).1 (w.lookup inner ttl f took).2 := by
  -- either the last answer is young enough, or there is none, or it is too old
  by_cases hserved : ∃ e, latest? f.name w.backend.notes = some e ∧ w.backend.now < e.fetched + ttl
  · obtain ⟨e, he, hlt⟩ := hserved
    have hfresh : w.cache.fresh? ttl w.backend.now f.name = some e.values := by
      simp [h.fresh?_eq, he, Option.filter_some, hlt]
    have hle := h.fetched_le f.name e he
    rw [lookup_of_fresh hfresh]
    refine ⟨fun e' he' _ => ?_, fun hold => ?_, fun _ herr => ?_, fun _ _ => ⟨rfl, rfl⟩,
      fun hzero => ?_⟩
    · obtain rfl := Option.some.inj (he.symm.trans he')
      exact ⟨rfl, rfl⟩
    · have := hold e he
      omega
    · cases herr
    · omega
  · have hfresh : w.cache.fresh? ttl w.backend.now f.name = none := by
      rw [h.fresh?_eq, Option.map_eq_none_iff, Option.filter_eq_none_iff]
      exact fun e he hlt => hserved ⟨e, he, by simpa using hlt⟩
    rw [lookup_of_stale hfresh]
    refine ⟨fun e he hlt => absurd ⟨e, he, hlt⟩ hserved, fun _ => ⟨rfl, rfl, rfl, rfl⟩,
      fun err herr => ?_, fun name hne => ?_, fun _ => ⟨rfl, rfl⟩⟩
    · simp only [] at herr ⊢
      rw [herr, ValueCache.learn]
    · have hlatest := latest?_other hne ((inner f).run w.backend.provider).1
        (w.backend.now + took) w.backend.notes
      exact ⟨((h.asked f took).entries name).trans (hlatest.trans (h.entries name).symm), hlatest⟩

/-- Whatever has happened, a lookup serves the last answer while it is young enough, and otherwise
asks the provider. -/
theorem run_faithful (inner : Lookup (StateM σ)) (ttl : Nat) (provider : σ) (now : Nat)
    (events : List (CacheEvent σ)) (f : Field) (took : Nat) :
    ∃ w, run inner ttl { backend := { provider, now } } events = w
      ∧ w.Faithful inner ttl f took (w.lookup inner ttl f took).1 (w.lookup inner ttl f took).2 :=
  ⟨_, rfl, ((Mirrors.start provider now).run events).faithful f took⟩

end Cached

end FieldQuery
