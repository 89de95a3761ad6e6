import SitePatch.LineDiff
import SitePatch.Printed
import SitePatch.Run
import SitePatch.Settings

/-! # Printed reports

What the three commands print. `apply` reports on a run, with the lines that changed if they are
asked for; `status` and `verify` report on a check, the one in words, the other as a verdict. -/

namespace SitePatch

/-! ## Marked lines -/

namespace Line

/-- A line about something that is in order. -/
def success (t : Text) : Line := ofSpans [.styled .green "✓", .plain (" " ++ t)]

/-- A line about something to note. -/
def notice (t : Text) : Line := ofSpans [.styled .yellow "⊙", .plain (" " ++ t)]

/-- A line about a failure. -/
def failure (t : Text) : Line := ofSpans [.styled .red "✗", .plain (" " ++ t)]

/-- An indented line with a number in a style. -/
def count (before : Text) (s : Style) (n : Nat) (after : Text) : Line :=
  ofSpans [.plain ("  " ++ before), .styled s (Text.ofNat n), .plain after]

end Line

/-- The line with the root of a run. -/
def Settings.rootLine (s : Settings) : Line := .plain ("Luau root: " ++ s.luauRoot)

/-- The line with all names that are patched. -/
def Settings.namesLine (s : Settings) : Line := .plain ("Functions: " ++ s.names.display)

/-! ## Differences -/

/-- The lines of a difference, removed ones first. Each keeps the characters that end it. -/
def LineDiff.printed (d : LineDiff) : List Line :=
  (d.removed.map fun l => [.styled .red ("-" ++ Text.closeLine l)])
    ++ d.added.map fun l => [.styled .green ("+" ++ Text.closeLine l)]

/-- The difference that a run made to a site's file. -/
def SiteReport.diff (r : SiteReport) : List Line :=
  [.blank, .styled .dim ("--- " ++ r.result.file ++ " (original)"),
      .styled .dim ("+++ " ++ r.result.file ++ " (patched)")]
    ++ (LineDiff.between r.before r.after).printed ++ [.blank]

/-! ## Runs -/

/-- The line on what a run did, or on a dry run would do, at a site. -/
def SiteReport.outcome (r : SiteReport) (dryRun : Bool) : Line :=
  match r.result with
  | .applied file =>
    .success (r.id ++ ": " ++ (if dryRun then "Would patch " else "Patched ") ++ file)
  | .merged file added =>
    .success (r.id ++ ": " ++ (if dryRun then "Would merge " else "Merged ")
      ++ Text.ofNat added.length ++ " check(s) into " ++ file)
  | .alreadyApplied file _ => .notice (r.id ++ ": Already applied to " ++ file)

/-- The lines on one site of a run. -/
def SiteReport.printed (r : SiteReport) (dryRun showDiff : Bool) : List Line :=
  r.outcome dryRun :: if showDiff && r.result.isChange then r.diff else []

namespace RunReport

/-- The line that says that nothing was to do. -/
def noChanges : Line := .plain "No changes applied (already patched)."

/-- The lines before a run. -/
def heading (s : Settings) (dryRun : Bool) : List Line :=
  [s.rootLine, s.namesLine]
    ++ (if dryRun then [.styled .cyan "[DRY RUN - no files will be written]"] else []) ++ [.blank]

/-- The lines at the end of a run. -/
def summary (r : RunReport) (s : Settings) (dryRun : Bool) : List Line :=
  if r.isNoop then [noChanges]
  else
    [.styled .bold "Summary:", .plain ("  Applied require-like patch for: " ++ s.names.display),
      .count (if dryRun then "Would update files: " else "Updated files: ") .green r.changed []]

/-- **The lines on a run.** -/
def printed (r : RunReport) (s : Settings) (dryRun showDiff : Bool) : List Line :=
  r.sites.flatMap (·.printed dryRun showDiff) ++ .blank :: r.summary s dryRun

end RunReport

/-! ## Checks -/

/-- **What a check found**, site by site. -/
abbrev CheckReport := List (Text × Except PatchError PatchResult)

namespace CheckReport

/-- The lines before the state of the sites. -/
def statusHeading (s : Settings) : List Line :=
  [.styled .bold "Patch Status Report", s.rootLine, s.namesLine, .blank]

/-- The lines on the state of a site. -/
def statusOf (id : Text) : Except PatchError PatchResult → List Line
  | .ok (.alreadyApplied file _) => [.success (id ++ ": applied (" ++ file ++ ")")]
  | .ok (.applied file) => [.notice (id ++ ": pristine (" ++ file ++ ")")]
  | .ok (.merged file added) =>
    .notice (id ++ ": missing " ++ Text.ofNat added.length ++ " check(s) (" ++ file ++ ")")
      :: added.map fun check => .ofSpans [.plain "    ", .styled .dim check]
  | .error e => [.failure (id ++ ": " ++ e.message)]

/-- **The lines on the state of the sites.** -/
def status (r : CheckReport) : List Line := r.flatMap fun (id, found) => statusOf id found

/-- The lines before a verdict. -/
def verdictHeading (s : Settings) : List Line :=
  [.styled .bold "Verifying patches...", s.rootLine, .blank]

/-- Whether a site is patched. -/
def isVerified : Except PatchError PatchResult → Bool
  | .ok r => !r.isChange
  | .error _ => false

/-- What a result that needs a change was found to be. -/
def findingOf : PatchResult → Text
  | .merged _ added => "patched form missing " ++ Text.ofNat added.length ++ " check(s)"
  | _ => "pristine form, patch not yet applied"

/-- The lines on a site that is not patched. -/
def mismatchOf (id : Text) : Except PatchError PatchResult → List Line
  | .ok r =>
    [.failure (id ++ ": MISMATCH"), .plain "  Expected: patch already applied",
      .plain ("  Found: " ++ findingOf r), .plain ("  Location: " ++ r.file)]
  | .error e => [.failure (id ++ ": MISMATCH"), .plain ("  Error: " ++ e.message)]

/-- The sites that are patched. -/
def verified (r : CheckReport) : CheckReport := r.filter fun (_, found) => isVerified found

/-- The sites that are not. -/
def mismatched (r : CheckReport) : CheckReport := r.filter fun (_, found) => !isVerified found

/-- The lines on the sites that are patched, and the numbers of both kinds. -/
def verdict (r : CheckReport) : List Line :=
  (r.verified.map fun (id, _) => .success (id ++ ": Verified (already applied)"))
    ++ [.blank, .styled .bold "Summary:", .count [] .green r.verified.length " verified",
      .count [] .red r.mismatched.length " mismatch"]

/-- The lines on the sites that are not patched. -/
def mismatches (r : CheckReport) : List Line :=
  r.mismatched.flatMap fun (id, found) => mismatchOf id found

/-- **Whether all sites are patched.** -/
def isComplete (r : CheckReport) : Bool := r.mismatched.isEmpty

/-- A check is complete exactly when every site is patched. -/
theorem isComplete_iff {r : CheckReport} :
    r.isComplete = true ↔ ∀ entry ∈ r, isVerified entry.2 = true := by
  simp [isComplete, mismatched, List.filter_eq_nil_iff]

end CheckReport

end SitePatch
