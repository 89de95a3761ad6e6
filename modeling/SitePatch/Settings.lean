import SitePatch.Config
import SitePatch.Path

/-! # Settings — what a run works with

The root of a run is given by a flag, else by the environment, else by the configuration, else it is
`luau`. The extra names are given by a flag, else by the configuration, else they are the default.
`Settings.resolve` decides between the sources. -/

namespace SitePatch

/-- The root that is used when none is configured. -/
def defaultRoot : Text := "luau"

/-- The name of the configuration file. -/
def configFileName : Text := "require-patcher.toml"

/-- The environment variable that names the root. -/
def rootVariable : Text := "LUAU_ROOT"

/-- **What is given outside the configuration**: two flags and an environment variable. -/
structure Overrides where
  luauRoot : Option Text
  functions : Option Text
  envRoot : Option Text
deriving DecidableEq

/-- **The settings of a run.** -/
structure Settings where
  luauRoot : Text
  names : NameSet
deriving DecidableEq

namespace Settings

/-- The root that the environment names; a blank value names none. -/
def envRoot? (value : Option Text) : Option Text :=
  (value.map Text.trim).filter fun t => !t.isEmpty

/-- The root as the first source that has one gives it. -/
def root (o : Overrides) (config : Option Config) : Text :=
  (o.luauRoot.or ((envRoot? o.envRoot).or (config.bind Config.luauRoot))).getD defaultRoot

/-- The names as the first source that has them gives them. -/
def nameSet (o : Overrides) (config : Option Config) : Except NameError NameSet :=
  match o.functions, config.bind Config.functions with
  | some csv, _ => NameSet.ofCsv csv
  | none, some functions => functions.toNameSet
  | none, none => NameSet.ofCsv defaultFunctions

/-- **The settings** of a run in the directory `cwd`, against which a relative root counts. -/
def resolve (o : Overrides) (config : Option Config) (cwd : Text) : Except NameError Settings :=
  match nameSet o config with
  | .ok names => .ok ⟨Path.join cwd (root o config), names⟩
  | .error e => .error e

end Settings

end SitePatch
