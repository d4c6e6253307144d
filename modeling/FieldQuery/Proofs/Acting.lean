import FieldQuery.Proofs.Serving
import FieldQuery.Shell.Evaluate

/-!
# What an action does to a session

A reload replaces the schema by the one that its document loads as, or fails if there is none
(`Session.reload_of_loads`, `reload_of_not_loads`). An action changes the schema of a session only
by such a reload or by publishing fields (`Action.change?`), and a cache that serves the known
values serves those after it (`Session.act_after`). An action that fails changes nothing at all
(`Session.act_of_failure`).
-/

namespace FieldQuery

/-- What is done with a session. Actions that may look values up come with the time. -/
inductive Action where
  | evaluate (line : String)
  | complete (now : Nat) (line : String)
  | completeChecked (now : Nat) (line : String)
  | completeAt (now : Nat) (line : String) (cursor : Nat)
  | validate (line : String)
  | checkField (name : String)
  | setFormat (format : OutputFormat)
  | setColor (color : Bool)
  | reload
  | publish (r : Registry)

inductive Answer where
  | evaluation (e : Evaluation)
  | suggestions (r : Except Error (List String))
  | replacements (rs : List Replacement)
  | query (r : Except Error Query)
  | field (r : Except Error Field)
  | reloaded (r : Except Error Registry)
  | done

def Answer.isFailure : Answer → Bool
  | .evaluation (.fail _) => true
  | .suggestions (.error _) => true
  | .query (.error _) => true
  | .field (.error _) => true
  | .reloaded (.error _) => true
  | _ => false

def Session.act (s : Session) (fs : Files) : Action → Answer × Session
  | .evaluate line => (s.evaluate fs line).map .evaluation id
  | .complete now line => (s.complete now line).map .suggestions id
  | .completeChecked now line => (s.completeChecked now line).map .suggestions id
  | .completeAt now line cursor => (s.completeAt now line cursor).map .replacements id
  | .validate line => (.query (s.engine.validate line), s)
  | .checkField name => (.field (s.engine.checkField name), s)
  | .setFormat format => (.done, s.setFormat format)
  | .setColor color => (.done, s.setColor color)
  | .reload =>
    match s.reload fs with
    | .ok s => (.reloaded (.ok s.registry), s)
    | .error e => (.reloaded (.error e), s)
  | .publish r => (.done, s.publish r)

/-! ## Changes of the schema -/

/-- A schema that was loaded again, or fields that were published. -/
inductive Change where
  | reloaded (l : LoadedSchema)
  | published (r : Registry)
deriving DecidableEq, Repr

namespace Change

def registry : Change → Registry
  | reloaded l => l.registry
  | published r => r

/-- Publishing fields leaves the known values. -/
def known? : Change → Option KnownValues
  | reloaded l => some l.known
  | published _ => none

end Change

def isReload (line : String) : Bool :=
  match Input.read line with
  | .ok (.command .reload) => true
  | _ => false

/-- The schema that a reload from the path loads. -/
def Files.reloads? (fs : Files) (path : Option String) : Option LoadedSchema :=
  path.bind fun p => (fs.loadSchema p).toOption

def Action.change? (fs : Files) (path : Option String) : Action → Option Change
  | .evaluate line => if isReload line then (fs.reloads? path).map .reloaded else none
  | .reload => (fs.reloads? path).map .reloaded
  | .publish r => some (.published r)
  | _ => none

namespace Session

variable {s : Session} {fs : Files}

/-! ## Reloads -/

theorem reload_of_loads {l : LoadedSchema} (h : fs.reloads? s.schemaPath = some l) :
    s.reload fs = .ok { s with
      engine := { s.engine with registry := l.registry }
      known := l.known
      cache := {} } := by
  obtain ⟨path, hpath, hl⟩ := Option.bind_eq_some_iff.1 h
  rcases hload : fs.loadSchema path with e | l'
  · rw [hload] at hl
    cases hl
  · rw [hload] at hl
    cases hl
    simp only [reload, hpath, hload]
    rfl

theorem reload_of_not_loads (h : fs.reloads? s.schemaPath = none) :
    ∃ e, s.reload fs = .error e := by
  rcases hpath : s.schemaPath with _ | path
  · simp only [reload, hpath]
    exact ⟨_, rfl⟩
  · rw [hpath, Files.reloads?, Option.bind_some] at h
    rcases hload : fs.loadSchema path with e | l
    · simp only [reload, hpath, hload]
      exact ⟨_, rfl⟩
    · rw [hload] at h
      cases h

theorem isFailure_reload_iff :
    (s.act fs .reload).1.isFailure ↔ fs.reloads? s.schemaPath = none := by
  rcases h : fs.reloads? s.schemaPath with _ | l
  · obtain ⟨e, he⟩ := reload_of_not_loads h
    simp [act, he, Answer.isFailure]
  · simp [act, reload_of_loads h, Answer.isFailure]

/-! ## Evaluated lines -/

theorem isReload_iff {line : String} :
    isReload line ↔ Input.read line = .ok (.command .reload) := by
  rw [isReload]
  rcases Input.read line with e | _ | c | text
  · simp
  · simp
  · cases c <;> simp
  · simp

theorem evaluate_of_reload {line : String} (h : isReload line) :
    s.evaluate fs line =
      match s.reload fs with
      | .ok next =>
        let count := next.registry.fields.length
        (.print s!"Reloaded schema '{next.registry.name}' ({count} fields)", next)
      | .error e => (.fail (s.reporter.error e), s) := by
  simp only [evaluate, isReload_iff.1 h]
  rcases hr : s.reload fs with e | s' <;>
    simp [bind, Except.bind, runInput, runCommand, hr, pure, Except.pure]

theorem evaluate_of_not_reload {line : String} (h : isReload line = false) :
    (s.evaluate fs line).2 = s := by
  rw [evaluate]
  rcases hread : Input.read line with e | _ | c | text
  · rfl
  · rfl
  · cases c with
    | help => rfl
    | fields => rfl
    | quit => rfl
    | reload => simp [isReload, hread] at h
  · rcases hq : s.runQuery text with e | a <;>
      simp [bind, Except.bind, runInput, hq, pure, Except.pure]

theorem evaluate_of_fail {line text : String} (h : (s.evaluate fs line).1 = .fail text) :
    (s.evaluate fs line).2 = s := by
  by_cases hline : isReload line
  · rw [evaluate_of_reload hline] at h ⊢
    rcases hr : s.reload fs with e | s'
    · rfl
    · simp [hr] at h
  · exact evaluate_of_not_reload (by simpa using hline)

/-! ## Actions -/

/-- The session is `s` after the change, if there is one, with a cache that serves the values. -/
structure After (s : Session) (c : Option Change) (s' : Session) : Prop where
  engine : s'.engine = { s.engine with registry := (c.map Change.registry).getD s.registry }
  known : s'.known = (c.bind Change.known?).getD s.known
  schemaPath : s'.schemaPath = s.schemaPath
  serves : s'.cache.Serves s'.known

theorem after_none {c : ValueCache} (h : c.Serves s.known) :
    s.After none { s with cache := c } where
  engine := rfl
  known := rfl
  schemaPath := rfl
  serves := h

theorem after_reload (h : s.cache.Serves s.known) :
    s.After ((fs.reloads? s.schemaPath).map .reloaded) (s.act fs .reload).2 := by
  rcases hload : fs.reloads? s.schemaPath with _ | l
  · obtain ⟨e, he⟩ := reload_of_not_loads hload
    simp only [act, he]
    exact after_none h
  · simp only [act, reload_of_loads hload]
    exact ⟨rfl, rfl, rfl, ValueCache.serves_empty l.known⟩

/-- An action changes the schema as its change says, and keeps the cache in step. -/
theorem act_after (h : s.cache.Serves s.known) (a : Action) :
    s.After (a.change? fs s.schemaPath) (s.act fs a).2 := by
  cases a with
  | evaluate line =>
    by_cases hline : isReload line
    · have hact : (s.act fs (.evaluate line)).2 = (s.act fs .reload).2 := by
        simp only [act, evaluate_of_reload hline]
        rcases s.reload fs with e | s' <;> rfl
      rw [hact, Action.change?, if_pos hline]
      exact after_reload h
    · have hact : (s.act fs (.evaluate line)).2 = s := by
        simp only [act, Prod.map_snd, id_eq]
        exact evaluate_of_not_reload (by simpa using hline)
      rw [hact, Action.change?, if_neg hline]
      exact after_none h
  | complete now line =>
    obtain ⟨c, hc, he⟩ := complete_of_serves h now line
    simp only [act, he]
    exact after_none hc
  | completeChecked now line =>
    obtain ⟨c, hc, he⟩ := completeChecked_of_serves h now line
    simp only [act, he]
    exact after_none hc
  | completeAt now line cursor =>
    obtain ⟨c, hc, he⟩ := complete_of_serves h now (leftOf line cursor)
    simp only [act, completeAt, he]
    exact after_none hc
  | validate line => exact after_none h
  | checkField name => exact after_none h
  | setFormat format => exact ⟨rfl, rfl, rfl, h⟩
  | setColor color => exact ⟨rfl, rfl, rfl, h⟩
  | reload => exact after_reload h
  | publish r => exact ⟨rfl, rfl, rfl, h⟩

/-- An action that fails leaves the session as it is. -/
theorem act_of_failure (h : s.cache.Serves s.known) {a : Action}
    (hf : (s.act fs a).1.isFailure) : (s.act fs a).2 = s := by
  cases a with
  | evaluate line =>
    rcases he : (s.evaluate fs line).1 with _ | text | text | _
    all_goals simp only [act, Prod.map_fst, he, Answer.isFailure, Bool.false_eq_true] at hf
    simp only [act, Prod.map_snd, id_eq]
    exact evaluate_of_fail he
  | complete now line =>
    obtain ⟨c, -, he⟩ := complete_of_serves h now line
    obtain ⟨rs, hrs⟩ := s.engine.complete_ok s.known line
    simp [act, he, hrs, Answer.isFailure] at hf
  | completeChecked now line =>
    rcases he : (s.completeChecked now line).1 with err | rs
    · exact completeChecked_of_error h he
    · simp [act, he, Answer.isFailure] at hf
  | completeAt now line cursor => cases hf
  | validate line => rfl
  | checkField name => rfl
  | setFormat format => cases hf
  | setColor color => cases hf
  | reload =>
    obtain ⟨e, he⟩ := reload_of_not_loads (isFailure_reload_iff.1 hf)
    simp only [act, he]
  | publish r => cases hf

end Session

end FieldQuery
