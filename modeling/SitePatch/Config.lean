import SitePatch.FileError
import SitePatch.Names
import SitePatch.Toml.Document

/-! # Run configuration

A configuration file may name the root and the extra names. `Config.parse` reads its text; a
configuration that it accepts names no empty root and only names that make a name set
(`Config.issues`). -/

namespace SitePatch

/-- **Extra names** as a configuration gives them. -/
inductive FunctionList
  /-- An array of entries. -/
  | list (entries : List Text)
  /-- One text with commas. -/
  | csv (text : Text)
deriving DecidableEq

/-- The name set of the entries. -/
def FunctionList.toNameSet : FunctionList → Except NameError NameSet
  | list entries => NameSet.ofEntries entries
  | csv text => NameSet.ofCsv text

/-- **A configuration.** -/
structure Config where
  luauRoot : Option Text
  functions : Option FunctionList
deriving DecidableEq

/-- What is wrong with a configuration. -/
inductive ConfigIssue
  /-- A field that may not be empty is. -/
  | emptyField (field : Text)
  /-- An entry is no name. -/
  | invalidFunction (name : Text)
deriving DecidableEq

/-- The wording of an issue. -/
def ConfigIssue.message : ConfigIssue → Text
  | emptyField field => "field '" ++ field ++ "' is empty"
  | invalidFunction name => "function name '" ++ name ++ "' is not a valid identifier"

/-- **Why a configuration is refused.** `path` is where its text comes from. -/
inductive ConfigError
  /-- The file cannot be read. -/
  | read (path : Text) (cause : FileError)
  /-- The text is no TOML document, or a field has the wrong type. -/
  | parse (path : Text)
  | invalid (path : Text) (issues : List ConfigIssue)
deriving DecidableEq

/-- The wording of a refusal. -/
def ConfigError.message : ConfigError → Text
  | read path cause => "failed to read config " ++ path ++ ": " ++ cause.message
  | parse path =>
    "failed to parse config " ++ path ++ ": no TOML document with fields of the right types"
  | invalid path issues =>
    "invalid config " ++ path ++ ": " ++ List.intercalate ['\n'] (issues.map ConfigIssue.message)

namespace Config

/-- The configuration without fields. -/
def empty : Config := ⟨none, none⟩

/-- The text of a value that is a string. -/
def textOf? : Toml.Value → Option Text
  | .string t => some t
  | _ => none

/-- The root that a value names. -/
def rootOf? (v : Toml.Value) : Option Text := textOf? v

/-- The extra names that a value gives: an array of strings, or a string. -/
def functionsOf? : Toml.Value → Option FunctionList
  | .array items => (items.mapM textOf?).map .list
  | .string t => some (.csv t)
  | _ => none

/-- A field that may be missing, but has to make sense if it is there. -/
def optional? {α : Type} (read? : Toml.Value → Option α) : Option Toml.Value → Option (Option α)
  | none => some none
  | some v => (read? v).map some

/-- The configuration that a table gives. Other keys do not matter. -/
def ofTable? (t : Toml.Table) : Option Config :=
  match optional? rootOf? (t.get? "luau_root"), optional? functionsOf? (t.get? "functions") with
  | some luauRoot, some functions => some ⟨luauRoot, functions⟩
  | _, _ => none

/-- What is wrong with the configuration: first its root, then its names. -/
def issues (c : Config) : List ConfigIssue :=
  (match c.luauRoot with
    | some [] => [.emptyField "luau_root"]
    | _ => [])
  ++ (match c.functions.map FunctionList.toNameSet with
    | some (.error (.invalidIdentifier name)) => [.invalidFunction name]
    | _ => [])

/-- **The configuration** that a text from `origin` gives. -/
def parse (t origin : Text) : Except ConfigError Config :=
  match (Toml.parse? t).bind ofTable? with
  | none => .error (.parse origin)
  | some c => if c.issues = [] then .ok c else .error (.invalid origin c.issues)

/-- An accepted configuration has no issues. -/
theorem issues_of_parse {t origin : Text} {c : Config} (h : parse t origin = .ok c) :
    c.issues = [] := by
  rw [parse] at h
  split at h
  · simp at h
  · split at h
    · rename_i hc
      simp only [Except.ok.injEq] at h
      exact h ▸ hc
    · simp at h

end Config

end SitePatch
