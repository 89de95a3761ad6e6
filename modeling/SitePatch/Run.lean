import SitePatch.FileTree.Edit
import SitePatch.Plan
import SitePatch.Registry
import SitePatch.Root

/-! # Runs — all sites of a registry, one after the other

A run first locates the files of all sites, and changes nothing if one is missing. It then plans and
edits site by site; the first site that fails ends the run, and what was written before stays
written. `apply` does this, really or only on paper; `check` plans every site and changes nothing.
-/

namespace SitePatch

/-! ## Results -/

/-- **What a run did, or would do, at a site.** -/
inductive PatchResult
  /-- The delivered region was rewritten. -/
  | applied (file : Text)
  /-- The condition of the patched region was extended by the checks `added`. -/
  | merged (file : Text) (added : List Text)
  /-- Nothing was to do. -/
  | alreadyApplied (file : Text) (evidence : AppliedBy)
deriving DecidableEq

namespace PatchResult

/-- The path of the site's file. -/
def file : PatchResult → Text
  | applied file | merged file _ | alreadyApplied file _ => file

/-- Whether something was to do. -/
def isChange : PatchResult → Bool
  | alreadyApplied _ _ => false
  | _ => true

/-- The result of a plan for a file. -/
def ofState (file : Text) : PatchState → PatchResult
  | .pristine => applied file
  | .needsMerge added => merged file added
  | .applied evidence => alreadyApplied file evidence

/-- One line about the result. -/
def display : PatchResult → Text
  | applied file => "Applied patch to " ++ file
  | merged file added =>
    "Merged " ++ Text.ofNat added.length ++ " check(s) into " ++ file
  | alreadyApplied file _ => "Already applied to " ++ file

/-- The result of a plan is about the file of the plan. -/
@[simp] theorem file_ofState (file : Text) (s : PatchState) : (ofState file s).file = file := by
  cases s <;> rfl

end PatchResult

/-- **The report on one site**: its text before the run, and after it. -/
structure SiteReport where
  id : Text
  result : PatchResult
  before : Text
  after : Text
deriving DecidableEq

/-- **The report of a run.** -/
structure RunReport where
  sites : List SiteReport
  changed : Nat
deriving DecidableEq

/-- Whether no site needed a change. -/
def RunReport.isNoop (r : RunReport) : Bool := r.changed == 0

/-! ## Targets -/

/-- A site and the location of its file. -/
structure Target where
  site : Site
  location : Location

/-- The path of the target's file. -/
def Target.file (x : Target) : Text := x.location.path

/-- The root error as an error at a site. -/
def RootError.atSite (id : Text) : RootError → PatchError
  | .missingRoot path => .missingRoot path
  | .missingFile path => .missingFile id path
  | .outside path root => .outsideRoot path root
  | .notCanonical path cause => .io path cause

/-- The targets of the sites, or the error of the first site that has none. -/
def Root.targets (r : Root) (t : FileTree) : List Site → Except PatchError (List Target)
  | [] => .ok []
  | s :: rest =>
    match r.locate t s.path with
    | .error e => .error (e.atSite s.id)
    | .ok l =>
      match r.targets t rest with
      | .error e => .error e
      | .ok targets => .ok (⟨s, l⟩ :: targets)

/-- The targets of a registry below a root. -/
def Registry.targets (registry : Registry) (t : FileTree) (root : Text) :
    Except PatchError (List Target) :=
  match Root.ofPath t root with
  | .error e => .error (e.atSite [])
  | .ok r => r.targets t registry.sites

namespace Target

/-- The text of the target's file, and the plan for it. -/
def plan (x : Target) (names : NameSet) (t : FileTree) : Except PatchError (Text × Plan) :=
  match t.readText x.file with
  | .error cause => .error (.io x.file cause)
  | .ok content =>
    match x.site.plan names x.file content with
    | .error e => .error e
    | .ok p => .ok (content, p)

/-- What the plan for the target comes to. -/
def check (x : Target) (names : NameSet) (t : FileTree) : Except PatchError PatchResult :=
  match x.plan names t with
  | .error e => .error e
  | .ok (_, p) => .ok (.ofState x.file p.state)

/-- The tree after a plan's edit, and how many files that changed; without an edit nothing happens,
and on paper an edit only counts. -/
def write (p : Plan) (dryRun : Bool) (t : FileTree) : FileTree × Except PatchError Nat :=
  match p.edit with
  | none => (t, .ok 0)
  | some e =>
    if dryRun then (t, .ok 1)
    else
      -- the file is read again, so it may differ from what was planned on
      match e.applyIn t with
      | (t', .error cause) => (t', .error (.edit cause))
      | (t', .ok (.applied _)) => (t', .ok 1)
      | (t', .ok .alreadyApplied) => (t', .ok 0)

/-- The tree after the target has been patched, the report on it, and how many files changed. -/
def apply (x : Target) (names : NameSet) (dryRun : Bool) (t : FileTree) :
    FileTree × Except PatchError (SiteReport × Nat) :=
  match x.plan names t with
  | .error e => (t, .error e)
  | .ok (before, p) =>
    match p.applyTo before with
    | .error e => (t, .error e)
    | .ok after =>
      match write p dryRun t with
      | (t', .error e) => (t', .error e)
      | (t', .ok n) => (t', .ok (⟨x.site.id, .ofState x.file p.state, before, after⟩, n))

/-- The tree after the targets have been patched up to the first that fails, and the report on
them. -/
def applyAll (names : NameSet) (dryRun : Bool) :
    List Target → FileTree → FileTree × Except PatchError RunReport
  | [], t => (t, .ok ⟨[], 0⟩)
  | x :: rest, t =>
    match x.apply names dryRun t with
    | (t', .error e) => (t', .error e)
    | (t', .ok (site, n)) =>
      match applyAll names dryRun rest t' with
      | (t'', .error e) => (t'', .error e)
      | (t'', .ok r) => (t'', .ok ⟨site :: r.sites, n + r.changed⟩)

end Target

/-! ## Runs -/

namespace Registry

/-- **The run** over the files below `root`: the tree after it, and its report. On a dry run the
tree stays as it is. -/
def apply (registry : Registry) (root : Text) (names : NameSet) (dryRun : Bool) (t : FileTree) :
    FileTree × Except PatchError RunReport :=
  match registry.targets t root with
  | .error e => (t, .error e)
  | .ok targets => Target.applyAll names dryRun targets t

/-- **What a run would do** at every site, or why it would fail there. -/
def check (registry : Registry) (root : Text) (names : NameSet) (t : FileTree) :
    Except PatchError (List (Text × Except PatchError PatchResult)) :=
  match registry.targets t root with
  | .error e => .error e
  | .ok targets => .ok (targets.map fun x => (x.site.id, x.check names t))

end Registry

end SitePatch
