import FieldQuery.CommandLine.Run
import FieldQuery.Proofs.Acting
import FieldQuery.Proofs.Flattening
import FieldQuery.Proofs.OpenQuotes

/-!
# One verdict in the shell and on the command line

The shell trims a line before it validates it, and the command line validates it as it is. This is
the same, as the blanks at the ends of a line belong to no token (`Engine.validate_trim`). So with
one schema and one way to report, both print the same query or find the same failure
(`launch_sameVerdict`). The shell reports a failure itself. On the command line it is reported at
the end of the run, and as an object before if the format asks for one.
-/

namespace FieldQuery

theorem Engine.validate_trim (e : Engine) (line : String) :
    e.validate (trim line) = e.validate line := by
  rw [validate, validate, e.registry.validateText_congr .full (Line.unplaced_trim line)]

namespace Session

variable {s : Session} {fs : Files} {c : Config}

theorem evaluate_query {line text : String} (h : Input.read line = .ok (.query text))
    (fs : Files) : (s.evaluate fs line).1 =
      match s.engine.validate line with
      | .ok q => if q.isEmpty then .nothing else .print (s.reporter.query q)
      | .error e => .fail (s.reporter.error e) := by
  obtain rfl := Input.text_of_read h
  rw [evaluate, h, ← s.engine.validate_trim line]
  rcases hq : s.engine.validate (trim line) with e | q <;>
    simp [bind, Except.bind, runInput, runQuery, hq, pure, Except.pure]

/-- The session has the schema that the settings name, as it is in the files, and reports as the
settings say. -/
structure Accords (s : Session) (fs : Files) (c : Config) : Prop where
  loaded : ∃ path l, c.schemaPath = some path ∧ fs.loadSchema path = .ok l
    ∧ s.registry = l.registry
  reporter : s.reporter = { format := c.format, color := c.colorOutput }

theorem openWith_of_path {path : String} (hpath : c.schemaPath = some path) :
    openWith fs c = ((fs.loadSchema path).mapError .schema).map fun l =>
      start c (some (path, l)) := by
  simp only [openWith, hpath]
  rcases fs.loadSchema path with e | l <;> rfl

theorem accords_of_openWith (h : openWith fs c = .ok s) (hpath : c.schemaPath.isSome) :
    s.Accords fs c := by
  obtain ⟨path, hpath⟩ := Option.isSome_iff_exists.1 hpath
  rw [openWith_of_path hpath] at h
  rcases hload : fs.loadSchema path with e | l
  · rw [hload] at h
    cases h
  · rw [hload] at h
    obtain rfl := Except.ok.inj h
    exact ⟨⟨path, l, hpath, hload, rfl⟩, rfl⟩

/-- A reload brings the session in accord with the files as they are now. -/
theorem Accords.reload {fs' : Files} {s' : Session} (h : s.Accords fs c)
    (hpath : s.schemaPath = c.schemaPath) (hreload : s.reload fs' = .ok s') : s'.Accords fs' c := by
  rcases hload : fs'.reloads? s.schemaPath with _ | l
  · obtain ⟨e, he⟩ := reload_of_not_loads hload
    rw [he] at hreload
    cases hreload
  · rw [reload_of_loads hload] at hreload
    obtain rfl := Except.ok.inj hreload
    obtain ⟨path, hs, hl⟩ := Option.bind_eq_some_iff.1 hload
    refine ⟨⟨path, l, hpath ▸ hs, ?_, rfl⟩, h.reporter⟩
    rcases hfs : fs'.loadSchema path with e | l' <;> rw [hfs] at hl
    · cases hl
    · rw [Option.some.inj hl]

end Session

/-! ## The command line -/

/-- The query as it is validated and reported by a session in accord with the settings. -/
theorem Subcommand.printQuery_of_accords {s : Session} {fs : Files} {c : Config}
    (h : s.Accords fs c) (query : String) : printQuery fs c query =
      match s.engine.validate query with
      | .ok q => .ok { output := [s.reporter.query q] }
      | .error e => .ok {
          output := if s.reporter.format = .json then [s.reporter.error e] else []
          failure := some e } := by
  obtain ⟨⟨path, l, hpath, hload, hregistry⟩, hreporter⟩ := h
  have hvalidate : (Session.start c (some (path, l))).engine.validate query
      = s.engine.validate query := by
    rw [Engine.validate, Engine.validate, ← show s.registry = s.engine.registry from rfl, hregistry]
    rfl
  have hrequire : requireSession fs c = .ok (Session.start c (some (path, l))) := by
    rw [requireSession, hpath, Option.isNone_some, if_neg (by decide),
      Session.openWith_of_path hpath, hload]
    rfl
  rw [printQuery, hrequire, hreporter, ← hvalidate]
  simp only [bind, Except.bind]
  rcases (Session.start c (some (path, l))).engine.validate query with e | q <;> rfl

theorem launch_validate {fs : Files} {home : String} {args : List String} {a : Arguments}
    {query : String} {c : Config} (ha : Arguments.read args = .ok a)
    (hsub : a.subcommand = some (.validate query)) (hc : (a.config fs home).result = .ok c) :
    launch fs home args = {
      outcome := (Printed.ofResult (Subcommand.printQuery fs c query)).outcome
        (a.config fs home).warnings } := by
  simp only [launch, ha, Arguments.launch, hc, hsub, Subcommand.run]

/-- What the shell makes of a line, and what the command line prints after the warnings. -/
inductive SameVerdict (s : Session) (line : String) (warnings : List String) :
    Evaluation → Outcome → Prop
  | print (text : String) : SameVerdict s line warnings (.print text) {
      output := text ++ "\n"
      errors := endedLines warnings }
  /-- The shell prints nothing for a query without clauses. -/
  | nothing (h : s.engine.validate line = .ok {}) : SameVerdict s line warnings .nothing {
      output := s.reporter.query {} ++ "\n"
      errors := endedLines warnings }
  | plain (text : String) (h : s.reporter.format = .plain) :
    SameVerdict s line warnings (.fail text) {
      status := 1
      errors := endedLines (warnings ++ [text]) }
  | json (e : Error) (h : s.reporter.format = .json) :
    SameVerdict s line warnings (.fail e.toJson.pretty) {
      status := 1
      output := e.toJson.pretty ++ "\n"
      errors := endedLines (warnings ++ ["Error: " ++ e.message]) }

/-- The command line comes to the verdict of a shell with the same settings, and ends with it. -/
theorem launch_sameVerdict {fs : Files} {home : String} {args : List String} {a : Arguments}
    {line text : String} {c : Config} {s : Session} (ha : Arguments.read args = .ok a)
    (hsub : a.subcommand = some (.validate line)) (hc : (a.config fs home).result = .ok c)
    (hcolor : c.colorOutput = false) (hs : s.Accords fs c)
    (hquery : Input.read line = .ok (.query text)) (fs' : Files) :
    ∃ o, launch fs home args = { outcome := o }
      ∧ SameVerdict s line (a.config fs home).warnings (s.evaluate fs' line).1 o := by
  have hreporter := hs.reporter
  rw [hcolor] at hreporter
  refine ⟨_, launch_validate ha hsub hc, ?_⟩
  rw [Subcommand.printQuery_of_accords hs, Session.evaluate_query hquery]
  rcases hq : s.engine.validate line with e | q
  · rcases hformat : s.reporter.format with _ | _
    · -- without colour a failure reads as it does at the end of a run
      have herror : s.reporter.error e = "Error: " ++ e.message := by
        rw [hreporter] at hformat ⊢
        simp only [] at hformat
        simp [Reporter.error, hformat, paintFailure, Role.paint]
      simpa [herror, Printed.ofResult, Printed.outcome] using SameVerdict.plain _ hformat
    · have herror : s.reporter.error e = e.toJson.pretty := by
        simp only [Reporter.error, hformat]
      simpa [herror, Printed.ofResult, Printed.outcome] using SameVerdict.json e hformat
  · by_cases hempty : q.isEmpty
    · obtain rfl : q = {} := by
        rcases q with ⟨clauses⟩
        simpa [Query.isEmpty] using hempty
      simpa [Query.isEmpty, Printed.ofResult, Printed.outcome] using SameVerdict.nothing hq
    · simpa [hempty, Printed.ofResult, Printed.outcome] using SameVerdict.print (s.reporter.query q)

def bakery : Files where
  entries := [(["bakery.toml"], .file "
[[fields]]
name = \"bread\"
".toUTF8)]

def bakeryArguments : Arguments where
  schema := some "bakery.toml"
  noColor := true
  subcommand := some (.validate " bread = 'rye '\n")

def bakeryConfig : Config where
  schemaPath := some "bakery.toml"
  colorOutput := false
  historyFile := "home/.searchline_history"

theorem bakery_config : (bakeryArguments.config bakery "home").result = .ok bakeryConfig
    ∧ (bakeryArguments.config bakery "home").warnings = [] := by
  have hpath : Config.defaultPath "home" = "home/.searchline/config.toml" := by decide +kernel
  have hlocate : bakery.locate "home/.searchline/config.toml" = .error .notFound := by
    rw [Files.locate, if_neg (by simp)]
    decide +kernel
  have hload : bakery.loadConfig "home" none = .ok (.default "home") := by
    rw [Files.loadConfig, hpath, Files.has, hlocate]
    rfl
  rw [Arguments.config, show bakeryArguments.configFile = none from rfl, hload]
  exact ⟨by decide +kernel, by decide +kernel⟩

def bakerySession : Session :=
  .start bakeryConfig (some ("bakery.toml", {
    registry := { name := "bakery", fields := [{ name := "bread", type := .string }] } }))

theorem bakery_openWith : Session.openWith bakery bakeryConfig = .ok bakerySession := by
  have hlocate : bakery.locate "bakery.toml" = .ok ["bakery.toml"] := by
    rw [Files.locate, if_neg (by simp)]
    decide +kernel
  have hdocument : bakery.schemaDocument "bakery.toml" ["bakery.toml"]
      = .ok { fields := [{ name := "bread" }] } := by decide +kernel
  have hchain : bakery.Lineage "bakery.toml" [["bakery.toml"]]
      [{ path := "bakery.toml", document := { fields := [{ name := "bread" }] } }] :=
    .base hlocate hdocument rfl
  rw [Session.openWith_of_path rfl, Files.loadSchema_of_chain hchain.chain_nil]
  decide +kernel

/-- The line is printed without the blanks around it, and with the blank inside the quotes. -/
theorem launch_sameVerdict_bakery :
    Arguments.read ["-s", "bakery.toml", "--no-color", "validate", " bread = 'rye '\n"]
        = .ok bakeryArguments
      ∧ (bakeryArguments.config bakery "home").result = .ok bakeryConfig
      ∧ Session.openWith bakery bakeryConfig = .ok bakerySession
      ∧ Input.read " bread = 'rye '\n" = .ok (.query "bread = 'rye '")
      ∧ (bakerySession.evaluate bakery " bread = 'rye '\n").1 = .print "bread = \"rye \""
      ∧ launch bakery "home"
          ["-s", "bakery.toml", "--no-color", "validate", " bread = 'rye '\n"]
        = { outcome := { output := "bread = \"rye \"\n" } } := by
  have hread : Arguments.read
      ["-s", "bakery.toml", "--no-color", "validate", " bread = 'rye '\n"]
      = .ok bakeryArguments := by decide +kernel
  have hinput : Input.read " bread = 'rye '\n" = .ok (.query "bread = 'rye '") := by
    decide +kernel
  have hprint : (bakerySession.evaluate bakery " bread = 'rye '\n").1
      = .print "bread = \"rye \"" := by decide +kernel
  obtain ⟨hconfig, hwarnings⟩ := bakery_config
  obtain ⟨o, hlaunch, hverdict⟩ := launch_sameVerdict hread rfl hconfig rfl
    (Session.accords_of_openWith bakery_openWith rfl) hinput bakery
  rw [hprint, hwarnings] at hverdict
  cases hverdict
  exact ⟨hread, hconfig, bakery_openWith, hinput, hprint, hlaunch⟩

end FieldQuery
