import Mathlib.Logic.ExistsUnique
import SitePatch.Proofs.Names
import SitePatch.Settings

/-! # Which source decides

The root and the names of a run may be given in several places. `RootFrom` and `NamesFrom` say which
of them is the first that has something to say, and each of these sources gives its value alone
(`Settings.resolve_eq`). A configuration that was accepted has names that can be read, and so has
the default; what is left to be refused is the flag. Main statement: what a run works with is
decided by the first source of the root and the first source of the names, and by nothing else
(`Settings.resolve_spec`). -/

namespace SitePatch

/-! ## Accepted configurations -/

namespace Config

/-- **The configuration is accepted**: it was read from some text. -/
def IsAccepted (c : Config) : Prop := ∃ t origin, parse t origin = .ok c

/-- The names of an accepted configuration can be read. -/
theorem IsAccepted.exists_toNameSet {c : Config} {functions : FunctionList} (hc : c.IsAccepted)
    (h : c.functions = some functions) : ∃ names, functions.toNameSet = .ok names := by
  obtain ⟨t, origin, hparse⟩ := hc
  have hissues := issues_of_parse hparse
  rcases hread : functions.toNameSet with ⟨name⟩ | names
  · simp [issues, h, hread] at hissues
  · exact ⟨names, rfl⟩

end Config

/-! ## Sources -/

/-- **A source of the root**, with the path as it is given there. -/
inductive RootSource
  /-- The flag. -/
  | flag (path : Text)
  /-- The environment, whose path is without the white space around it. -/
  | environment (path : Text)
  /-- The configuration. -/
  | configuration (path : Text)
  /-- None of them. -/
  | default
deriving DecidableEq

/-- **A source of the names**, with the names as they are given there. -/
inductive NamesSource
  /-- The flag. -/
  | flag (csv : Text)
  /-- The configuration. -/
  | configuration (functions : FunctionList)
  /-- None of them. -/
  | default
deriving DecidableEq

/-- The root that a source gives. -/
def RootSource.path : RootSource → Text
  | flag path => path
  | environment path => path
  | configuration path => path
  | default => defaultRoot

/-- The names that a source gives. -/
def NamesSource.read : NamesSource → Except NameError NameSet
  | flag csv => NameSet.ofCsv csv
  | configuration functions => functions.toNameSet
  | default => NameSet.ofCsv defaultFunctions

variable {o : Overrides} {config : Option Config} {cwd p : Text} {value : Option Text}
  {s : Settings} {e : NameError}

/-- **The first source of the root**: the flag, else the environment unless its value is blank, else
the configuration. -/
inductive RootFrom (o : Overrides) (config : Option Config) : RootSource → Prop
  | flag {p : Text} (hflag : o.luauRoot = some p) : RootFrom o config (.flag p)
  | environment {raw p : Text} (hflag : o.luauRoot = none) (henv : o.envRoot = some raw)
    (htrims : raw.Trims p) (hp : p ≠ []) : RootFrom o config (.environment p)
  | configuration {c : Config} {p : Text} (hflag : o.luauRoot = none)
    (henv : ∀ raw ∈ o.envRoot, raw.Blank) (hconfig : config = some c)
    (hroot : c.luauRoot = some p) : RootFrom o config (.configuration p)
  | default (hflag : o.luauRoot = none) (henv : ∀ raw ∈ o.envRoot, raw.Blank)
    (hconfig : ∀ c ∈ config, c.luauRoot = none) : RootFrom o config .default

/-- **The first source of the names**: the flag, else the configuration. -/
inductive NamesFrom (o : Overrides) (config : Option Config) : NamesSource → Prop
  | flag {csv : Text} (hflag : o.functions = some csv) : NamesFrom o config (.flag csv)
  | configuration {c : Config} {functions : FunctionList} (hflag : o.functions = none)
    (hconfig : config = some c) (hfunctions : c.functions = some functions) :
    NamesFrom o config (.configuration functions)
  | default (hflag : o.functions = none) (hconfig : ∀ c ∈ config, c.functions = none) :
    NamesFrom o config .default

namespace Settings

/-! ## Finding the first source -/

/-- The first source of the root. -/
def rootSource (o : Overrides) (config : Option Config) : RootSource :=
  match o.luauRoot, envRoot? o.envRoot, config.bind Config.luauRoot with
  | some p, _, _ => .flag p
  | none, some p, _ => .environment p
  | none, none, some p => .configuration p
  | none, none, none => .default

/-- The first source of the names. -/
def namesSource (o : Overrides) (config : Option Config) : NamesSource :=
  match o.functions, config.bind Config.functions with
  | some csv, _ => .flag csv
  | none, some functions => .configuration functions
  | none, none => .default

/-- The environment names a root exactly if its value, without the white space around it, is that
root and is not empty. -/
theorem envRoot?_eq_some_iff :
    envRoot? value = some p ↔ ∃ raw, value = some raw ∧ raw.Trims p ∧ p ≠ [] := by
  cases value with
  | none => simp [envRoot?]
  | some raw => simp [envRoot?, Text.trims_iff]

/-- The environment names no root exactly if it has no value but white space. -/
theorem envRoot?_eq_none_iff : envRoot? value = none ↔ ∀ raw ∈ value, raw.Blank := by
  cases value with
  | none => simp [envRoot?]
  | some raw => simp [envRoot?, Text.trim_eq_nil_iff]

/-- The root always has a first source. -/
theorem exists_rootFrom (o : Overrides) (config : Option Config) :
    ∃ src, RootFrom o config src := by
  cases hflag : o.luauRoot with
  | some p => exact ⟨_, .flag hflag⟩
  | none =>
    cases henv : envRoot? o.envRoot with
    | some p =>
      obtain ⟨raw, hraw, htrims, hp⟩ := envRoot?_eq_some_iff.mp henv
      exact ⟨_, .environment hflag hraw htrims hp⟩
    | none =>
      have hblank := envRoot?_eq_none_iff.mp henv
      cases config with
      | none => exact ⟨_, .default hflag hblank (by simp)⟩
      | some c =>
        cases hroot : c.luauRoot with
        | some p => exact ⟨_, .configuration hflag hblank rfl hroot⟩
        | none => exact ⟨_, .default hflag hblank (by simpa using hroot)⟩

/-- The names always have a first source. -/
theorem exists_namesFrom (o : Overrides) (config : Option Config) :
    ∃ src, NamesFrom o config src := by
  cases hflag : o.functions with
  | some csv => exact ⟨_, .flag hflag⟩
  | none =>
    cases config with
    | none => exact ⟨_, .default hflag (by simp)⟩
    | some c =>
      cases hfunctions : c.functions with
      | some functions => exact ⟨_, .configuration hflag rfl hfunctions⟩
      | none => exact ⟨_, .default hflag (by simpa using hfunctions)⟩

/-- The first source of the root is the one that is found. -/
theorem rootSource_eq {src : RootSource} (h : RootFrom o config src) :
    rootSource o config = src := by
  cases h with
  | flag hflag => simp [rootSource, hflag]
  | environment hflag henv htrims hp =>
    simp [rootSource, hflag, envRoot?_eq_some_iff.mpr ⟨_, henv, htrims, hp⟩]
  | configuration hflag henv hconfig hroot =>
    simp [rootSource, hflag, envRoot?_eq_none_iff.mpr henv, hconfig, hroot]
  | default hflag henv hconfig =>
    have hnone : config.bind Config.luauRoot = none := Option.bind_eq_none_iff.mpr hconfig
    simp [rootSource, hflag, envRoot?_eq_none_iff.mpr henv, hnone]

/-- The first source of the names is the one that is found. -/
theorem namesSource_eq {src : NamesSource} (h : NamesFrom o config src) :
    namesSource o config = src := by
  cases h with
  | flag hflag => simp [namesSource, hflag]
  | configuration hflag hconfig hfunctions => simp [namesSource, hflag, hconfig, hfunctions]
  | default hflag hconfig =>
    have hnone : config.bind Config.functions = none := Option.bind_eq_none_iff.mpr hconfig
    simp [namesSource, hflag, hnone]

/-- There is one first source of the root. -/
theorem existsUnique_rootFrom (o : Overrides) (config : Option Config) :
    ∃! src, RootFrom o config src := by
  obtain ⟨src, h⟩ := exists_rootFrom o config
  exact ⟨src, h, fun src' h' => (rootSource_eq h').symm.trans (rootSource_eq h)⟩

/-- There is one first source of the names. -/
theorem existsUnique_namesFrom (o : Overrides) (config : Option Config) :
    ∃! src, NamesFrom o config src := by
  obtain ⟨src, h⟩ := exists_namesFrom o config
  exact ⟨src, h, fun src' h' => (namesSource_eq h').symm.trans (namesSource_eq h)⟩

/-! ## What the first sources decide -/

/-- The root is what its first source gives. -/
theorem root_eq (o : Overrides) (config : Option Config) :
    root o config = (rootSource o config).path := by
  unfold root rootSource
  cases o.luauRoot with
  | some p => rfl
  | none =>
    cases envRoot? o.envRoot with
    | some p => rfl
    | none => cases config.bind Config.luauRoot <;> rfl

/-- The names are what their first source gives. -/
theorem nameSet_eq (o : Overrides) (config : Option Config) :
    nameSet o config = (namesSource o config).read := by
  unfold nameSet namesSource
  cases o.functions with
  | some csv => rfl
  | none => cases config.bind Config.functions <;> rfl

/-- **The settings of a run are the root of the first source that has one and the names of the first
source that has some.** -/
theorem resolve_eq {root : RootSource} {names : NamesSource} (hroot : RootFrom o config root)
    (hnames : NamesFrom o config names) (cwd : Text) :
    resolve o config cwd = names.read.map fun set => ⟨Path.join cwd root.path, set⟩ := by
  rw [resolve, root_eq, nameSet_eq, rootSource_eq hroot, namesSource_eq hnames]
  cases names.read <;> rfl

/-- The root of a run is that of its first source. -/
theorem luauRoot_of_resolve {src : RootSource} (h : RootFrom o config src)
    (hs : resolve o config cwd = .ok s) : s.luauRoot = Path.join cwd src.path := by
  obtain ⟨names, hnames⟩ := exists_namesFrom o config
  rw [resolve_eq h hnames] at hs
  cases hread : names.read with
  | error e => simp [hread, Except.map] at hs
  | ok set =>
    rw [hread] at hs
    exact (congrArg luauRoot (Except.ok.inj hs)).symm

/-- The names of a run are those of their first source, be they a set or a refusal. -/
theorem map_names_resolve {src : NamesSource} (h : NamesFrom o config src) (cwd : Text) :
    (resolve o config cwd).map names = src.read := by
  obtain ⟨root, hroot⟩ := exists_rootFrom o config
  rw [resolve_eq hroot h]
  cases src.read <;> rfl

/-- **Only the flag is refused**, if the configuration was accepted. -/
theorem resolve_eq_error_iff (hconfig : ∀ c ∈ config, c.IsAccepted) :
    resolve o config cwd = .error e ↔
      ∃ csv, o.functions = some csv ∧ NameSet.ofCsv csv = .error e := by
  obtain ⟨root, hroot⟩ := exists_rootFrom o config
  obtain ⟨names, hnames⟩ := exists_namesFrom o config
  have hread : resolve o config cwd = .error e ↔ names.read = .error e := by
    rw [resolve_eq hroot hnames]
    cases names.read <;> simp [Except.map]
  rw [hread]
  cases hnames with
  | flag hflag => simp [NamesSource.read, hflag]
  | configuration hflag hc hfunctions =>
    obtain ⟨set, hset⟩ := (hconfig _ hc).exists_toNameSet hfunctions
    simp [NamesSource.read, hset, hflag]
  | default hflag _ =>
    obtain ⟨set, hset⟩ : ∃ set, NameSet.ofCsv defaultFunctions = .ok set := ⟨_, rfl⟩
    simp [NamesSource.read, hset, hflag]

/-- **The first sources decide.** If the configuration was accepted, or there is none, nothing is
refused but names of the flag that cannot be read, with the refusal they have alone. The root and
the names have one first source each, and are what it gives. So two runs in one directory with the
same first source of the root have the same root, whatever else they are given; and two runs with
the same first source of the names have the same names, or the same refusal, wherever they are and
whatever root they have. -/
theorem resolve_spec (hconfig : ∀ c ∈ config, c.IsAccepted) :
    (∀ cwd e, resolve o config cwd = .error e ↔
      ∃ csv, o.functions = some csv ∧ NameSet.ofCsv csv = .error e) ∧
    (∃! src, RootFrom o config src) ∧ (∃! src, NamesFrom o config src) ∧
    (∀ src, RootFrom o config src → ∀ cwd s, resolve o config cwd = .ok s →
      s.luauRoot = Path.join cwd src.path ∧
      ∀ o' config' s', RootFrom o' config' src → resolve o' config' cwd = .ok s' →
        s'.luauRoot = s.luauRoot) ∧
    ∀ src, NamesFrom o config src → ∀ cwd,
      (resolve o config cwd).map names = src.read ∧
      ∀ o' config' cwd', NamesFrom o' config' src →
        (resolve o' config' cwd').map names = (resolve o config cwd).map names := by
  refine ⟨fun cwd e => resolve_eq_error_iff hconfig, existsUnique_rootFrom o config,
    existsUnique_namesFrom o config, ?_, ?_⟩
  · intro src hsrc cwd s hs
    refine ⟨luauRoot_of_resolve hsrc hs, fun o' config' s' hsrc' hs' => ?_⟩
    rw [luauRoot_of_resolve hsrc' hs', luauRoot_of_resolve hsrc hs]
  · intro src hsrc cwd
    refine ⟨map_names_resolve hsrc cwd, fun o' config' cwd' hsrc' => ?_⟩
    rw [map_names_resolve hsrc' cwd', map_names_resolve hsrc cwd]

/-- A configuration that gives a root and names. -/
def vendored : Config := ⟨some "vendor/luau", some (.csv "fetch, load")⟩

/-- The configuration above is what a file gives. With it, a value of the environment decides the
root as it does without a configuration, be there white space around it or not; and the names are
those of the configuration, be there a flag for the root or not. -/
theorem resolve_vendored :
    (∀ c ∈ some vendored, c.IsAccepted) ∧
    (∃ s s', resolve ⟨none, none, some "\t/opt/luau "⟩ (some vendored) "/work" = .ok s ∧
      resolve ⟨none, some "load", some "/opt/luau"⟩ none "/work" = .ok s' ∧
      s'.luauRoot = s.luauRoot) ∧
    (resolve ⟨some "deps", none, none⟩ (some vendored) "/home").map names
      = (resolve ⟨none, none, some "\t/opt/luau "⟩ (some vendored) "/work").map names := by
  have haccepted : ∀ c ∈ some vendored, c.IsAccepted := by
    intro c hc
    cases hc
    exact ⟨"luau_root = \"vendor/luau\"\nfunctions = \"fetch, load\"\n", configFileName,
      by decide +kernel⟩
  obtain ⟨-, -, -, hroot, hnames⟩ :=
    resolve_spec (o := ⟨none, none, some "\t/opt/luau "⟩) haccepted
  have henv :
      RootFrom ⟨none, none, some "\t/opt/luau "⟩ (some vendored) (.environment "/opt/luau") :=
    .environment rfl rfl (Text.trims_iff.mpr (by decide +kernel)) (by decide)
  have henv' : RootFrom ⟨none, some "load", some "/opt/luau"⟩ none (.environment "/opt/luau") :=
    .environment rfl rfl (Text.trims_iff.mpr (by decide +kernel)) (by decide)
  refine ⟨haccepted, ?_, ?_⟩
  · have hs : resolve ⟨none, none, some "\t/opt/luau "⟩ (some vendored) "/work"
        = .ok ⟨"/opt/luau", Luau.fetchAndLoad⟩ := by decide +kernel
    have hs' : resolve ⟨none, some "load", some "/opt/luau"⟩ none "/work"
        = .ok ⟨"/opt/luau", Luau.loadOnly⟩ := by decide +kernel
    exact ⟨_, _, hs, hs', (hroot _ henv _ _ hs).2 _ _ _ henv' hs'⟩
  · exact (hnames (.configuration (.csv "fetch, load")) (.configuration rfl rfl rfl) _).2 _ _ _
      (.configuration rfl rfl rfl)

end Settings

end SitePatch
