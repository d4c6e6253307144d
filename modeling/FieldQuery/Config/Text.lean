import FieldQuery.Config.Basic
import FieldQuery.Toml.Document
import FieldQuery.Toml.Fields

/-!
# Settings as text

Settings are written as a TOML document of five sections. A document may leave out any of them and
may have keys that mean nothing here, as long as no number under them is out of range.
-/

namespace FieldQuery

open Toml

/-- The entries of a section, none if the document does not have it. -/
def Toml.Entries.section (es : Entries) (key : String) (keys : List String) :
    Except TomlError Entries :=
  match es.lookup key with
  | none => .ok []
  | some t => record key keys t

namespace Config

def schemaKeys : List String := ["path"]

def completionKeys : List String := ["group_threshold", "value_cache_ttl"]

def displayKeys : List String := ["format", "color_output", "syntax_highlighting"]

def historyKeys : List String := ["max_size", "file_path", "persist"]

def loggingKeys : List String := ["level", "timestamps"]

def sectionNames : List String := ["schema", "completion", "display", "history", "logging"]

/-- The settings of a document, where `c` are the defaults. -/
def ofToml (c : Config) (t : Toml) : Except TomlError Config := do
  let _ ← Entries.inRange (t.entries.filter fun e => e.1 ∉ sectionNames)
  let schema ← t.entries.section "schema" schemaKeys
  let completion ← t.entries.section "completion" completionKeys
  let display ← t.entries.section "display" displayKeys
  let history ← t.entries.section "history" historyKeys
  let logging ← t.entries.section "logging" loggingKeys
  return {
    schemaPath := ← schema.string? "path"
    groupThreshold := ← completion.natural "group_threshold" c.groupThreshold
    valueCacheTtl := ← completion.natural "value_cache_ttl" c.valueCacheTtl
    format := ← display.withDefault "format" "an output format"
      (fun t => t.choice?.bind OutputFormat.ofName?) c.format
    colorOutput := ← display.boolean "color_output" c.colorOutput
    syntaxHighlighting := ← display.boolean "syntax_highlighting" c.syntaxHighlighting
    historySize := ← history.natural "max_size" c.historySize
    historyFile := ← history.withDefault "file_path" "a string" Toml.string? c.historyFile
    persistHistory := ← history.boolean "persist" c.persistHistory
    logLevel := ← logging.withDefault "level" "a log level"
      (fun t => t.choice?.bind LogLevel.ofName?) c.logLevel
    logTimestamps := ← logging.boolean "timestamps" c.logTimestamps }

/-- The settings that a text sets over the defaults. -/
def read (defaults : Config) (text : String) : Except ConfigError Config :=
  (Toml.read text >>= defaults.ofToml).mapError fun e => .invalidFormat e.message

def line (key value : String) : String :=
  key ++ " = " ++ value ++ "\n"

def sectionText (name : String) (lines : List String) : String :=
  "[" ++ name ++ "]\n" ++ String.join lines

/-- The settings as a document. A schema path that is not set is left out. -/
def text (c : Config) : String :=
  "\n".intercalate [
    sectionText "schema" (c.schemaPath.map fun path => line "path" (quoted path)).toList,
    sectionText "completion" [
      line "group_threshold" (toString c.groupThreshold),
      line "value_cache_ttl" (toString c.valueCacheTtl)],
    sectionText "display" [
      line "format" (quoted c.format.name),
      line "color_output" (toString c.colorOutput),
      line "syntax_highlighting" (toString c.syntaxHighlighting)],
    sectionText "history" [
      line "max_size" (toString c.historySize),
      line "file_path" (quoted c.historyFile),
      line "persist" (toString c.persistHistory)],
    sectionText "logging" [
      line "level" (quoted c.logLevel.name),
      line "timestamps" (toString c.logTimestamps)]]

end Config

end FieldQuery
