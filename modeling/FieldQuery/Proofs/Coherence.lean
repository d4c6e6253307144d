import FieldQuery.Proofs.Acting
import FieldQuery.Proofs.Flattening

/-!
# Sessions behind several handles

A session is shared by the handles on it, with files around it that come and go. A clone of a handle
shares all of the session but the path of the schema, of which it has a copy. The changes of a run
are the reloads that succeeded and the fields that were published (`Scene.changes`): they say which
fields and which known values are current, whatever else has been done through any handle
(`Scene.Follows`). Suggestions are those of an engine that looks up the current values without a
cache (`Session.GoesBy`).
-/

namespace FieldQuery

/-- A session with its handles, and the files around it. -/
structure Scene where
  files : Files
  shared : Session
  /-- The schema path of every handle. -/
  paths : List (Option String)

inductive Step where
  | act (handle : Nat) (a : Action)
  | clone (handle : Nat)
  | write (path : String) (bytes : ByteArray)
  | remove (path : String)

namespace Scene

def start (fs : Files) (s : Session) : Scene where
  files := fs
  shared := s
  paths := [s.schemaPath]

variable (w : Scene)

/-- The session as a handle has it. -/
def session? (handle : Nat) : Option Session :=
  w.paths[handle]?.map fun schemaPath => { w.shared with schemaPath }

def step : Step → Scene
  | .act handle a =>
    match w.session? handle with
    | some s => { w with shared := (s.act w.files a).2 }
    | none => w
  | .clone handle => { w with paths := w.paths ++ w.paths[handle]?.toList }
  | .write path bytes => { w with files := w.files.write path bytes }
  | .remove path => { w with files := w.files.remove path }

def run (steps : List Step) : Scene :=
  steps.foldl step w

def change? : Step → Option Change
  | .act handle a => w.paths[handle]?.bind fun path => a.change? w.files path
  | _ => none

def changes (w : Scene) : List Step → List Change
  | [] => []
  | a :: as => (w.change? a).toList ++ (w.step a).changes as

end Scene

/-! ## What is current -/

/-- The fields of the last change, `r` before any. -/
def latestRegistry (r : Registry) (cs : List Change) : Registry :=
  (cs.getLast?.map Change.registry).getD r

/-- The known values of the last reload, `t` before any. -/
def latestKnown (t : KnownValues) (cs : List Change) : KnownValues :=
  (cs.filterMap Change.known?).getLast?.getD t

theorem latestRegistry_append (r : Registry) (cs : List Change) (c : Option Change) :
    latestRegistry r (cs ++ c.toList) = (c.map Change.registry).getD (latestRegistry r cs) := by
  rcases c with _ | c <;> simp [latestRegistry]

theorem latestKnown_append (t : KnownValues) (cs : List Change) (c : Option Change) :
    latestKnown t (cs ++ c.toList) = (c.bind Change.known?).getD (latestKnown t cs) := by
  rcases c with _ | l | r <;> simp [latestKnown, Change.known?]

def Engine.latest (e : Engine) (cs : List Change) : Engine :=
  { e with registry := latestRegistry e.registry cs }

/-- The suggestions at the cursor, with values that are looked up without a cache. -/
def Engine.replacements (e : Engine) (t : KnownValues) (line : String) (cursor : Nat) :
    List Replacement :=
  let left := leftOf line cursor
  let suggestions := (e.complete (t.lookupIn (m := Id)) left).toOption.getD []
  suggestions.map fun text => { text, stop := utf8Length left.toList }

/-- The session has this engine and these known values, and its suggestions are those of the engine
without a cache, at any time. -/
structure Session.GoesBy (s : Session) (e : Engine) (t : KnownValues) : Prop where
  engine : s.engine = e
  known : s.known = t
  complete : ∀ now line, (s.complete now line).1 = e.complete (t.lookupIn (m := Id)) line
  completeChecked : ∀ now line,
    (s.completeChecked now line).1 = e.completeChecked (t.lookupIn (m := Id)) line
  completeAt : ∀ now line cursor, (s.completeAt now line cursor).1 = e.replacements t line cursor

theorem Session.goesBy {s : Session} (h : s.cache.Serves s.known) : s.GoesBy s.engine s.known where
  engine := rfl
  known := rfl
  complete now line := by
    obtain ⟨c, -, he⟩ := complete_of_serves h now line
    rw [he]
  completeChecked now line := by
    obtain ⟨c, -, he⟩ := completeChecked_of_serves h now line
    rw [he]
  completeAt now line cursor := by
    obtain ⟨c, -, he⟩ := complete_of_serves h now (leftOf line cursor)
    simp only [completeAt, he, Engine.replacements]

/-! ## Runs -/

namespace Scene

variable {w : Scene} {s₀ : Session} {cs : List Change}

/-- The scene is one that the changes have led to from the session `s₀`. -/
structure Follows (w : Scene) (s₀ : Session) (cs : List Change) : Prop where
  engine : w.shared.engine = s₀.engine.latest cs
  known : w.shared.known = latestKnown s₀.known cs
  serves : w.shared.cache.Serves w.shared.known
  schemaPath : w.shared.schemaPath = s₀.schemaPath
  paths : ∀ path ∈ w.paths, path = s₀.schemaPath

namespace Follows

theorem start (fs : Files) (hcache : s₀.cache.Serves s₀.known) :
    (Scene.start fs s₀).Follows s₀ [] where
  engine := rfl
  known := rfl
  serves := hcache
  schemaPath := rfl
  paths := by simp [Scene.start]

theorem session? (h : w.Follows s₀ cs) {handle : Nat} {s : Session}
    (hs : w.session? handle = some s) : s = w.shared := by
  obtain ⟨path, hpath, rfl⟩ := Option.map_eq_some_iff.1 hs
  rw [h.paths path (List.mem_of_getElem? hpath), ← h.schemaPath]

theorem act (h : w.Follows s₀ cs) {handle : Nat} {s : Session} (hs : w.session? handle = some s)
    (a : Action) :
    w.step (.act handle a) = { w with shared := (w.shared.act w.files a).2 } ∧
      w.change? (.act handle a) = a.change? w.files w.shared.schemaPath := by
  refine ⟨?_, ?_⟩
  · rw [step, hs, h.session? hs]
  · obtain ⟨path, hpath, -⟩ := Option.map_eq_some_iff.1 hs
    rw [change?, hpath, Option.bind_some, h.paths path (List.mem_of_getElem? hpath), h.schemaPath]

theorem step (h : w.Follows s₀ cs) (a : Step) :
    (w.step a).Follows s₀ (cs ++ (w.change? a).toList) := by
  cases a with
  | act handle a =>
    rcases hs : w.session? handle with _ | s
    · have hstep : w.step (.act handle a) = w := by rw [Scene.step, hs]
      have hchange : w.change? (.act handle a) = none := by
        rw [change?, Option.map_eq_none_iff.1 hs, Option.bind_none]
      rw [hstep, hchange, Option.toList_none, List.append_nil]
      exact h
    · obtain ⟨hstep, hchange⟩ := h.act hs a
      have hafter : w.shared.After (a.change? w.files w.shared.schemaPath)
          (w.shared.act w.files a).2 := Session.act_after h.serves a
      rw [hstep, hchange]
      refine ⟨?_, ?_, hafter.serves, hafter.schemaPath.trans h.schemaPath, h.paths⟩
      · rw [hafter.engine, Session.registry, h.engine, Engine.latest, Engine.latest,
          latestRegistry_append]
      · rw [hafter.known, h.known, latestKnown_append]
  | clone handle =>
    simp only [change?, Option.toList_none, List.append_nil]
    refine ⟨h.engine, h.known, h.serves, h.schemaPath, ?_⟩
    intro path hpath
    rcases List.mem_append.1 hpath with hpath | hpath
    · exact h.paths path hpath
    · exact h.paths path (List.mem_of_getElem? (Option.mem_toList.1 hpath))
  | write path bytes =>
    simp only [change?, Option.toList_none, List.append_nil]
    exact ⟨h.engine, h.known, h.serves, h.schemaPath, h.paths⟩
  | remove path =>
    simp only [change?, Option.toList_none, List.append_nil]
    exact ⟨h.engine, h.known, h.serves, h.schemaPath, h.paths⟩

theorem run (h : w.Follows s₀ cs) (steps : List Step) :
    (w.run steps).Follows s₀ (cs ++ w.changes steps) := by
  induction steps generalizing w cs with
  | nil => simpa [Scene.run, changes] using h
  | cons a as ih =>
    rw [changes, ← List.append_assoc]
    exact ih (h.step a)

end Follows

/-- What holds of a scene after the changes, whatever else has happened: every handle goes by the
current fields and known values, a reload fails only if there is nothing to load, and an action that
fails leaves the whole scene as it is. -/
structure Coherent (w : Scene) (s₀ : Session) (cs : List Change) : Prop where
  goesBy : ∀ handle s, w.session? handle = some s →
    s.GoesBy (s₀.engine.latest cs) (latestKnown s₀.known cs)
  schemaPath : ∀ handle s, w.session? handle = some s → s.schemaPath = s₀.schemaPath
  reload : ∀ handle s, w.session? handle = some s →
    ((s.act w.files .reload).1.isFailure ↔ w.files.reloads? s₀.schemaPath = none)
  failure : ∀ handle s a, w.session? handle = some s → (s.act w.files a).1.isFailure →
    w.step (.act handle a) = w

theorem Follows.coherent (h : w.Follows s₀ cs) : w.Coherent s₀ cs where
  goesBy handle s hs := by
    rw [h.session? hs, ← h.engine, ← h.known]
    exact Session.goesBy h.serves
  schemaPath handle s hs := by rw [h.session? hs, h.schemaPath]
  reload handle s hs := by
    rw [h.session? hs, ← h.schemaPath]
    exact Session.isFailure_reload_iff
  failure handle s a hs hf := by
    rw [h.session? hs] at hf
    rw [(h.act hs a).1, Session.act_of_failure h.serves hf]

end Scene

/-- A session at its start, of a schema that was loaded or that the settings name. -/
inductive Session.Initial : Session → Prop
  | start (c : Config) (loaded : Option (String × LoadedSchema)) : Initial (start c loaded)
  | openWith {fs : Files} {c : Config} {s : Session} (h : openWith fs c = .ok s) : Initial s

theorem Session.Initial.cache_eq {s : Session} (h : s.Initial) : s.cache = {} := by
  cases h with
  | start c loaded => rfl
  | @openWith fs c _ h =>
    rw [Session.openWith] at h
    rcases hpath : c.schemaPath with _ | path
    · rw [hpath] at h
      cases h
      rfl
    · rw [hpath] at h
      simp only [] at h
      rcases hload : fs.loadSchema path with e | l
      · rw [hload] at h
        cases h
      · rw [hload] at h
        cases h
        rfl

/-- After any steps from the start of a session, what is current is what the last changes of the run
have made current, and no values of a replaced schema are served. -/
theorem Scene.run_coherent {s₀ : Session} (h₀ : s₀.Initial) (fs : Files) (steps : List Step) :
    ((start fs s₀).run steps).Coherent s₀ ((start fs s₀).changes steps) := by
  have hcache : s₀.cache.Serves s₀.known := by
    rw [h₀.cache_eq]
    exact ValueCache.serves_empty s₀.known
  exact ((Follows.start fs hcache).run steps).coherent

/-- A schema file with one field and one value that is known for it. -/
def studyFile (room : String) : ByteArray :=
  ("[[fields]]\nname = \"room\"\ncomplete_value = true\nvalues = [\"" ++ room ++ "\"]\n").toUTF8

def studySchema (room : String) : LoadedSchema where
  registry := {
    name := "study"
    fields := [{ name := "room", type := .string, valueCompletion := true }] }
  known := [("room", [room])]

def study : Files where
  entries := [(["study.toml"], .file (studyFile "attic"))]

def rewrittenStudy : Files :=
  study.write "study.toml" (studyFile "cellar")

def studySession : Session :=
  .start (.default "home") (some ("study.toml", studySchema "attic"))

def studyDocument (room : String) : SchemaDocument where
  fields := [{ name := "room", valueCompletion := true, values := some [room] }]

theorem loadSchema_study : study.loadSchema "study.toml" = .ok (studySchema "attic") := by
  have hl : study.locate "study.toml" = .ok ["study.toml"] := by
    rw [Files.locate, if_neg (by simp)]
    decide +kernel
  have hd : study.schemaDocument "study.toml" ["study.toml"] = .ok (studyDocument "attic") := by
    decide +kernel
  rw [Files.loadSchema_of_chain (Files.Lineage.base hl hd rfl).chain_nil]
  decide +kernel

theorem loadSchema_rewrittenStudy :
    rewrittenStudy.loadSchema "study.toml" = .ok (studySchema "cellar") := by
  have hl : rewrittenStudy.locate "study.toml" = .ok ["study.toml"] := by
    rw [Files.locate, if_neg (by simp)]
    decide +kernel
  have hd : rewrittenStudy.schemaDocument "study.toml" ["study.toml"]
      = .ok (studyDocument "cellar") := by decide +kernel
  rw [Files.loadSchema_of_chain (Files.Lineage.base hl hd rfl).chain_nil]
  decide +kernel

theorem loadSchema_removedStudy : (rewrittenStudy.remove "study.toml").loadSchema "study.toml"
    = .error (.unreadable "study.toml" .notFound) := by
  have hl : (rewrittenStudy.remove "study.toml").locate "study.toml" = .error .notFound := by
    rw [Files.locate, if_neg (by simp)]
    decide +kernel
  rw [Files.loadSchema, Files.chain, hl]
  rfl

/-- The known value is completed and cached, the schema file is rewritten, and a clone reloads it.
Later there is no file to reload. -/
def Step.errand : List Step :=
  [.act 0 (.complete 0 "room = "), .clone 0, .write "study.toml" (studyFile "cellar"),
    .act 1 .reload, .act 0 (.complete 1 "room = "), .remove "study.toml",
    .act 0 (.evaluate ":reload")]

theorem Scene.changes_errand : (start study studySession).changes Step.errand
    = [.reloaded (studySchema "cellar")] := by
  -- Two steps of the errand ask for a schema file, and no other step may change anything.
  have hchanges : (start study studySession).changes Step.errand
      = ((Files.reloads? rewrittenStudy (some "study.toml")).map Change.reloaded).toList
        ++ (((Files.reloads? (rewrittenStudy.remove "study.toml") (some "study.toml")).map
          Change.reloaded).toList ++ []) := rfl
  rw [hchanges, Files.reloads?, Files.reloads?, Option.bind_some, Option.bind_some,
    loadSchema_rewrittenStudy, loadSchema_removedStudy]
  rfl

/-- The value that was cached is not served any more. -/
theorem Scene.run_coherent_errand :
    Session.openWith study { Config.default "home" with schemaPath := some "study.toml" }
        = .ok studySession
      ∧ ((start study studySession).run (Step.errand.take 3)).shared.cache.entry? "room"
        = some { values := ["attic"], fetched := 0 }
      ∧ (start study studySession).changes Step.errand = [.reloaded (studySchema "cellar")]
      ∧ (∃ s, ((start study studySession).run Step.errand).session? 0 = some s
        ∧ (s.complete 2 "room = ").1 = .ok ["room =  cellar "])
      ∧ ((start study studySession).run Step.errand).Coherent studySession
          ((start study studySession).changes Step.errand) := by
  have hopen : Session.openWith study
      { Config.default "home" with schemaPath := some "study.toml" } = .ok studySession := by
    simp only [Session.openWith, loadSchema_study]
    rfl
  have hcoherent := run_coherent (.openWith hopen) study Step.errand
  obtain ⟨s, hs⟩ : ∃ s, ((start study studySession).run Step.errand).session? 0 = some s := ⟨_, rfl⟩
  refine ⟨hopen, by decide +kernel, changes_errand, ⟨s, hs, ?_⟩, hcoherent⟩
  rw [(hcoherent.goesBy 0 s hs).complete, changes_errand]
  decide +kernel

end FieldQuery
