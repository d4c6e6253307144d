import FieldQuery.Config.Text
import FieldQuery.Error
import FieldQuery.Files.Tree

/-!
# Loading settings

A file that is named has to exist. Without the default file the settings are the defaults.
-/

namespace FieldQuery

/-- The settings of a file that exists. -/
def Files.readConfig (fs : Files) (home path : String) : Except Error Config := do
  let text ← (fs.read path).mapError .file
  ((Config.default home).read text).mapError .config

/-- The settings of the named file, or of the default file. -/
def Files.loadConfig (fs : Files) (home : String) (named : Option String) :
    Except Error Config :=
  match named with
  | some path =>
    if fs.has path then fs.readConfig home path else .error (.config (.fileNotFound path))
  | none =>
    if fs.has (Config.defaultPath home) then fs.readConfig home (Config.defaultPath home)
    else .ok (.default home)

end FieldQuery
