import SitePatch.CommandLine.Arguments
import SitePatch.CommandLine.Report
import SitePatch.Config.File

/-! # Command line sessions

A `Session` is what surrounds a call of the program: the working directory and the environment
variables. `Session.run` carries a call with its arguments out on a file tree; it gives the tree
afterwards and a `Transcript` of what was printed. Main statement: only the command `apply` changes
files (`Session.call_fst_of_ne_apply`). -/

namespace SitePatch

/-- **What a call has printed**, and its exit code. -/
structure Transcript where
  code : Nat
  stdout : List Line
  stderr : List Line
deriving DecidableEq

namespace Transcript

/-- The transcript of a call that ended well. -/
def success (printed : List Line) : Transcript := ⟨0, printed, []⟩

/-- The transcript of a call that a failure ended. -/
def failure (printed : List Line) (message : Text) : Transcript := ⟨1, printed, [.failure message]⟩

end Transcript

/-- **What surrounds a call**: the location of the working directory, and the environment. -/
structure Session where
  directory : Location
  environment : List (Text × Text)

/-- Why a call has no settings. -/
inductive SetupError
  | config (cause : ConfigError)
  | names (cause : NameError)
deriving DecidableEq

/-- The wording of a failed setup. -/
def SetupError.message : SetupError → Text
  | config cause => cause.message
  | names cause => cause.message

namespace Session

/-- The path of the working directory. -/
def cwd (s : Session) : Text := s.directory.path

/-- The value of an environment variable. -/
def valueOf? (s : Session) (name : Text) : Option Text := s.environment.lookup name

/-- The environment variable that asks for colours. -/
def colourVariable : Text := "CLICOLOR_FORCE"

/-- Whether colours are printed: only if they are asked for. -/
def coloured (s : Session) : Bool :=
  match s.valueOf? colourVariable with
  | none => false
  | some value => value != "0".toList

/-! ## Settings -/

/-- The configuration of a call: the file that is named, else the one in the working directory. -/
def config (s : Session) (named : Option Text) (t : FileTree) :
    Except ConfigError (Option Config) :=
  match named.or (Config.discover? t s.cwd) with
  | none => .ok none
  | some path => (Config.load t s.directory path).map some

/-- The settings that are given outside the configuration. -/
def overrides (s : Session) (a : Arguments) : Overrides :=
  ⟨a.luauRoot, a.functions, s.valueOf? rootVariable⟩

/-- **The settings of a call.** -/
def settings (s : Session) (a : Arguments) (t : FileTree) : Except SetupError Settings :=
  match s.config a.config t with
  | .error e => .error (.config e)
  | .ok config =>
    match Settings.resolve (s.overrides a) config s.cwd with
    | .error e => .error (.names e)
    | .ok settings => .ok settings

/-! ## Commands -/

/-- Patches the files of Luau's sites. -/
def apply (settings : Settings) (dryRun showDiff : Bool) (t : FileTree) : FileTree × Transcript :=
  let heading := RunReport.heading settings dryRun
  match Registry.luau.apply settings.luauRoot settings.names dryRun t with
  | (t', .error e) => (t', .failure heading e.message)
  | (t', .ok r) => (t', .success (heading ++ r.printed settings dryRun showDiff))

/-- Reports the state of Luau's sites. -/
def status (settings : Settings) (t : FileTree) : Transcript :=
  let heading := CheckReport.statusHeading settings
  match Registry.luau.check settings.luauRoot settings.names t with
  | .error e => .failure heading e.message
  | .ok r => .success (heading ++ CheckReport.status r)

/-- Fails unless all of Luau's sites are patched. -/
def verify (settings : Settings) (t : FileTree) : Transcript :=
  let heading := CheckReport.verdictHeading settings
  match Registry.luau.check settings.luauRoot settings.names t with
  | .error e => .failure heading e.message
  | .ok r =>
    ⟨if CheckReport.isComplete r then 0 else 1, heading ++ CheckReport.verdict r,
      CheckReport.mismatches r⟩

/-- Carries a command out. Only `apply` can change the tree. -/
def perform (settings : Settings) (command : Command) (t : FileTree) : FileTree × Transcript :=
  match command with
  | .apply dryRun showDiff => apply settings dryRun showDiff t
  | .status => (t, status settings t)
  | .verify => (t, verify settings t)

/-! ## Calls -/

/-- **The call** with arguments that ask for a run. Without settings nothing is done. -/
def call (s : Session) (a : Arguments) (t : FileTree) : FileTree × Transcript :=
  match s.settings a t with
  | .error e => (t, .failure [] e.message)
  | .ok settings => perform settings a.command t

/-- What is printed as the version. -/
def versionLine : Line := .plain "require-patcher 0.1.0"

/-- What is printed as help. -/
def helpLines : List Line :=
  ["Patch Luau so extra functions resolve modules like require", "",
    "Usage: require-patcher [OPTIONS] [COMMAND]", "", "Commands:",
    "  apply   Apply the patch to the Luau checkout (default)",
    "  status  Show the patch state of every target file",
    "  verify  Fail unless every target file is already patched", "", "Options:",
    "      --luau-root <LUAU_ROOT>  Path to the Luau checkout [default: luau]",
    "      --functions <FUNCTIONS>  Comma-separated function names to treat like require",
    "      --config <CONFIG>        Run config file",
    "  -n, --dry-run                Show what would be changed without writing",
    "  -d, --diff                   Show the lines that change",
    "  -v, --verbose                Increase log verbosity",
    "  -h, --help                   Print help",
    "  -V, --version                Print version"].map fun (t : String) => .plain t

/-- **The call** with the given arguments. -/
def run (s : Session) (arguments : List Text) (t : FileTree) : FileTree × Transcript :=
  match Request.ofArguments arguments with
  | .run a => s.call a t
  | .help => (t, .success helpLines)
  | .version => (t, .success [versionLine])
  | .invalid => (t, ⟨2, [], [.failure "invalid arguments; see --help"]⟩)

/-- Only `apply` changes files. -/
theorem call_fst_of_ne_apply {s : Session} {a : Arguments} {t : FileTree}
    (h : ∀ dryRun showDiff, a.command ≠ .apply dryRun showDiff) : (s.call a t).1 = t := by
  rw [call]
  split
  · rfl
  · rename_i settings _
    cases hc : a.command with
    | apply dryRun showDiff => exact absurd hc (h dryRun showDiff)
    | status => rfl
    | verify => rfl

end Session

end SitePatch
