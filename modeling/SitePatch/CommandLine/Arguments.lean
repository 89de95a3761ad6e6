import SitePatch.Text

/-! # Command line arguments

Arguments are options and at most one command. Options may stand before the command and behind it; a
value that is given in both places counts as given behind it. `Request.ofArguments` reads the
arguments in order, and the first one that asks for help or makes no sense decides. -/

namespace SitePatch

/-! ## What is asked for -/

/-- **A command.** -/
inductive Command
  /-- Patch the files, or only say what would be done; on request, show the lines that change. -/
  | apply (dryRun showDiff : Bool)
  /-- Report the state of every site. -/
  | status
  /-- Fail unless every site is patched. -/
  | verify
deriving DecidableEq, Repr

/-- The command that is meant if none is given. -/
def Command.default : Command := .apply false false

/-- **The arguments of a run.** -/
structure Arguments where
  luauRoot : Option Text
  functions : Option Text
  config : Option Text
  command : Command
deriving DecidableEq

/-- **What the arguments ask for.** -/
inductive Request
  | run (a : Arguments)
  | help
  | version
  /-- Nothing that makes sense. -/
  | invalid
deriving DecidableEq

/-! ## Options -/

/-- An option with a value. -/
inductive Parameter
  | luauRoot
  | functions
  | config
  /-- A file, which is ignored. -/
  | file
deriving DecidableEq, Repr

namespace Parameter

/-- All options with a value. -/
def all : List Parameter := [luauRoot, functions, config, file]

/-- The name behind the dashes. -/
def name : Parameter → Text
  | luauRoot => "luau-root"
  | functions => "functions"
  | config => "config"
  | file => "file"

/-- Whether the value may be empty. A path may not. -/
def admitsEmpty (p : Parameter) : Bool := p == functions

end Parameter

/-- An option without a value. -/
inductive Switch
  | verbose
  | dryRun
  | diff
  | help
  | version
deriving DecidableEq, Repr

namespace Switch

/-- All options without a value. -/
def all : List Switch := [verbose, dryRun, diff, help, version]

/-- The name behind two dashes. -/
def name : Switch → Text
  | verbose => "verbose"
  | dryRun => "dry-run"
  | diff => "diff"
  | help => "help"
  | version => "version"

/-- The letter behind one dash. -/
def letter : Switch → Char
  | verbose => 'v'
  | dryRun => 'n'
  | diff => 'd'
  | help => 'h'
  | version => 'V'

/-- Whether the switch may be given again. -/
def isRepeatable (s : Switch) : Bool := s == verbose

end Switch

/-- The name of a command. -/
inductive CommandName
  | apply
  | status
  | verify
deriving DecidableEq, Repr

/-- The command that a word names. -/
def CommandName.ofWord? (word : Text) : Option CommandName :=
  if word = "apply".toList then some apply
  else if word = "status".toList then some status
  else if word = "verify".toList then some verify
  else none

/-- The word that asks for help on a command. -/
def helpWord : Text := "help"

/-! ## Reading options -/

/-- Where options stand: before the command, or behind it. -/
inductive Place
  | before
  | behind (command : CommandName)
deriving DecidableEq, Repr

namespace Place

/-- The option with a value that a name stands for here. -/
def parameter? (place : Place) (name : Text) : Option Parameter :=
  Parameter.all.find? fun p => p.name == name && (p != .file || place == before)

/-- Whether a switch can be given here. -/
def admits (place : Place) : Switch → Bool
  | .verbose | .help => true
  | .version => place == before
  | .dryRun | .diff => place == behind .apply

/-- The switch that a name stands for here. -/
def switch? (place : Place) (name : Text) : Option Switch :=
  Switch.all.find? fun s => s.name == name && place.admits s

/-- The switch that a letter stands for here. -/
def switchOfLetter? (place : Place) (letter : Char) : Option Switch :=
  Switch.all.find? fun s => s.letter == letter && place.admits s

end Place

/-- **The options given in one place.** -/
structure Options where
  values : List (Parameter × Text)
  switches : List Switch
deriving DecidableEq

namespace Options

/-- No options. -/
def empty : Options := ⟨[], []⟩

/-- The value of an option. -/
def value? (o : Options) (p : Parameter) : Option Text := o.values.lookup p

/-- Whether a switch is given. -/
def has (o : Options) (s : Switch) : Bool := o.switches.contains s

/-- The options with one more value, which has to be the first for its option. -/
def addValue (o : Options) (p : Parameter) (value : Text) : Except Request Options :=
  if (o.value? p).isSome || (value.isEmpty && !p.admitsEmpty) then .error .invalid
  else .ok { o with values := (p, value) :: o.values }

/-- The options with one more switch. Asking for help or for the version ends the reading. -/
def addSwitch (o : Options) (s : Switch) : Except Request Options :=
  match s with
  | .help => .error .help
  | .version => .error .version
  | s =>
    if o.has s && !s.isRepeatable then .error .invalid
    else .ok { o with switches := s :: o.switches }

/-- The options with the switches that the letters behind one dash stand for. -/
def addLetters (place : Place) (o : Options) : Text → Except Request Options
  | [] => .ok o
  | letter :: rest =>
    match place.switchOfLetter? letter with
    | none => .error .invalid
    | some s =>
      match o.addSwitch s with
      | .error r => .error r
      | .ok o => addLetters place o rest

end Options

/-- What one argument is. -/
inductive ArgumentForm
  /-- Two dashes alone: no more options. -/
  | separator
  /-- A name behind two dashes, with a value behind an equals sign or without. -/
  | long (name : Text) (value : Option Text)
  /-- Letters behind one dash. -/
  | letters (letters : Text)
  | word (word : Text)
deriving DecidableEq

/-- The form of an argument. A dash alone is a word. -/
def ArgumentForm.of : Text → ArgumentForm
  | ['-', '-'] => separator
  | '-' :: '-' :: body =>
    let name := body.takeWhile (· != '=')
    long name (if body.contains '=' then some (body.drop (name.length + 1)) else none)
  | '-' :: c :: cs => letters (c :: cs)
  | w => word w

/-- Whether the argument can be a value of the option before it. -/
def ArgumentForm.isWord : ArgumentForm → Bool
  | word _ => true
  | _ => false

/-- The options at the start of the arguments, and the word that ends them with the arguments behind
it. -/
def Options.read (place : Place) :
    List Text → Options → Except Request (Options × Option (Text × List Text))
  | [], o => .ok (o, none)
  | argument :: rest, o =>
    match ArgumentForm.of argument with
    | .separator => if rest = [] then .ok (o, none) else .error .invalid
    | .word w => .ok (o, some (w, rest))
    | .letters ls =>
      match addLetters place o ls with
      | .error r => .error r
      | .ok o => Options.read place rest o
    | .long name value =>
      match place.parameter? name, place.switch? name, value, rest with
      -- the value stands in the same argument
      | some p, _, some value, rest =>
        match o.addValue p value with
        | .error r => .error r
        | .ok o => Options.read place rest o
      -- the value is the next argument, unless that is an option itself
      | some p, _, none, value :: rest =>
        if (ArgumentForm.of value).isWord then
          match o.addValue p value with
          | .error r => .error r
          | .ok o => Options.read place rest o
        else .error .invalid
      -- a switch takes no value
      | none, some s, none, rest =>
        match o.addSwitch s with
        | .error r => .error r
        | .ok o => Options.read place rest o
      | _, _, _, _ => .error .invalid

/-! ## Reading arguments -/

namespace Request

/-- What the word `help` asks for, with the words behind it. -/
def ofHelpWords : List Text → Request
  | [] => help
  | [word] => if word = helpWord ∨ (CommandName.ofWord? word).isSome then help else invalid
  | _ => invalid

/-- The command of a name with the options behind it. -/
def commandOf (o : Options) : CommandName → Command
  | .apply => .apply (o.has .dryRun) (o.has .diff)
  | .status => .status
  | .verify => .verify

/-- The run of a command with the options before and behind it. -/
def ofOptions (before behind : Options) (command : Command) : Request :=
  let value := fun p => (behind.value? p).or (before.value? p)
  run ⟨value .luauRoot, value .functions, value .config, command⟩

/-- What a command's name asks for, with the options before it and the arguments behind it. -/
def ofCommand (before : Options) (name : CommandName) (rest : List Text) : Request :=
  match Options.read (.behind name) rest .empty with
  | .error r => r
  | .ok (_, some _) => invalid
  | .ok (behind, none) => ofOptions before behind (commandOf behind name)

/-- **What the arguments ask for.** -/
def ofArguments (arguments : List Text) : Request :=
  match Options.read .before arguments .empty with
  | .error r => r
  | .ok (before, none) => ofOptions before .empty .default
  | .ok (before, some (word, rest)) =>
    if word = helpWord then ofHelpWords rest
    else
      match CommandName.ofWord? word with
      | none => invalid
      | some name => ofCommand before name rest

end Request

end SitePatch
