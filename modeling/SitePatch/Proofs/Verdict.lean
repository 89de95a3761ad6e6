import SitePatch.CommandLine.Session
import SitePatch.Proofs.Effect
import SitePatch.Proofs.Rerun

/-! # Verdicts and runs

`verify` plans at every target and counts those that are not patched; `apply` writes, and counts the
files that it has changed. A step that counts nothing was a step at a quiet target
(`Target.isQuiet_of_apply`), so a run that has counted nothing has come to quiet targets only, each
in the tree that the run started from. The files need not be distinct for that: where nothing is
written, no target can see another. Main statement: `verify` ends well exactly when `apply` ends well
and says that nothing was to do (`Luau.verify_iff_apply`). -/

namespace SitePatch

/-! ## Quiet targets -/

/-- **A plan without an edit** finds that nothing is to do. -/
theorem Site.unchanged_of_not_needsChange {s : Site} {names : NameSet} {file c : Text} {p : Plan}
    (hplan : s.plan names file c = .ok p) (h : p.needsChange = false) :
    ∃ evidence, p = .unchanged evidence := by
  rcases Site.plan_cases hplan with ⟨o, -, rfl⟩ | ⟨m, o, -, -, rfl⟩ | rfl
  · unfold planRewrite at h ⊢
    split at h
    · rename_i hnames
      exact ⟨.baseOnly, by rw [if_pos hnames]⟩
    · simp [Plan.needsChange] at h
  · unfold planMerge at h ⊢
    dsimp only at h ⊢
    split at h
    · rename_i hmissing
      exact ⟨.mergePattern, by rw [if_pos hmissing]⟩
    · simp [Plan.needsChange] at h
  · exact ⟨.tokens, rfl⟩

namespace Target

variable {x : Target} {names : NameSet} {dryRun : Bool} {t t' : FileTree} {e : SiteReport}
  {r : RunReport} {targets : List Target}

/-- **A step that counts nothing** is a step at a quiet target, and changes nothing. -/
theorem isQuiet_of_apply (hx : x.IsReady t) (h : x.apply names dryRun t = (t', .ok (e, 0))) :
    t' = t ∧ x.IsQuiet names t := by
  rcases hplan : x.plan names t with err | ⟨c, p⟩
  · rw [apply_of_plan_eq_error hplan] at h
    simp at h
  by_cases hdue : p.needsChange = true
  · -- an edit that is due is counted, on paper and really
    exfalso
    obtain ⟨c', -, hpaper⟩ := apply_paper hplan
    rw [hx.apply_paper_of_apply h, isDue_of_plan hplan, if_pos hdue] at hpaper
    simp at hpaper
  · obtain ⟨evidence, rfl⟩ := Site.unchanged_of_not_needsChange (plan_eq_ok_iff.mp hplan).2
      (by simpa using hdue)
    have hquiet : x.IsQuiet names t := ⟨c, evidence, hplan⟩
    obtain ⟨e', hstep, -⟩ := hquiet.apply dryRun
    exact ⟨(Prod.mk.inj (h.symm.trans hstep)).1, hquiet⟩

/-- **A run that counts nothing** comes to quiet targets only, and changes nothing. -/
theorem forall_isQuiet_of_applyAll (hready : ∀ x ∈ targets, x.IsReady t)
    (h : applyAll names dryRun targets t = (t', .ok r)) (hchanged : r.changed = 0) :
    t' = t ∧ ∀ x ∈ targets, x.IsQuiet names t := by
  induction targets generalizing t r with
  | nil =>
    unfold applyAll at h
    exact ⟨(Prod.mk.inj h).1.symm, by simp⟩
  | cons x targets ih =>
    obtain ⟨hx, hrest⟩ := List.forall_mem_cons.mp hready
    obtain ⟨t₁, e, n, r₁, hstep, hrun, rfl⟩ := exists_of_applyAll h
    obtain ⟨rfl, hr₁⟩ : n = 0 ∧ r₁.changed = 0 := Nat.add_eq_zero_iff.mp hchanged
    obtain ⟨rfl, hquiet⟩ := isQuiet_of_apply hx hstep
    obtain ⟨rfl, hall⟩ := ih hrest hrun hr₁
    exact ⟨rfl, List.forall_mem_cons.mpr ⟨hquiet, hall⟩⟩

/-! ## What is printed on quiet targets -/

/-- The line of a run on a target where nothing was to do. -/
def idleLine (x : Target) : Line := .notice (x.site.id ++ ": Already applied to " ++ x.file)

/-- The line of a status report on a target that is patched. -/
def appliedLine (x : Target) : Line := .success (x.site.id ++ ": applied (" ++ x.file ++ ")")

/-- A report that nothing was to do is printed in one line. -/
theorem IsIdle.printed (h : x.IsIdle e) (dryRun showDiff : Bool) :
    e.printed dryRun showDiff = [x.idleLine] := by
  obtain ⟨hid, evidence, hresult⟩ := h
  rw [SiteReport.printed, SiteReport.outcome, hresult, hid, PatchResult.isChange, Bool.and_false]
  rfl

/-- Reports that nothing was to do are printed in one line each. -/
theorem flatMap_printed_of_isIdle {reports : List SiteReport}
    (h : List.Forall₂ IsIdle targets reports) (dryRun showDiff : Bool) :
    (reports.flatMap fun e => e.printed dryRun showDiff) = targets.map idleLine := by
  induction h with
  | nil => rfl
  | cons hidle _ ih => rw [List.flatMap_cons, hidle.printed, ih, List.map_cons, List.singleton_append]

/-- A quiet target is reported as patched. -/
theorem IsQuiet.statusOf (h : x.IsQuiet names t) :
    CheckReport.statusOf x.site.id (x.check names t) = [x.appliedLine] := by
  obtain ⟨c, evidence, hplan⟩ := h
  rw [check, hplan]
  rfl

/-- A check verifies the quiet targets. -/
theorem isVerified_iff_isQuiet (hx : x.IsReady t) :
    CheckReport.isVerified (x.check names t) = true ↔ x.IsQuiet names t := by
  obtain ⟨k, m, hs⟩ := hx.patchable
  rw [isQuiet_iff_check hs]
  constructor
  · intro h
    rcases hcheck : x.check names t with err | file | ⟨file, added⟩ | ⟨file, evidence⟩
    · simp [hcheck, CheckReport.isVerified] at h
    · simp [hcheck, CheckReport.isVerified, PatchResult.isChange] at h
    · simp [hcheck, CheckReport.isVerified, PatchResult.isChange] at h
    · exact ⟨file, evidence, rfl⟩
  · rintro ⟨file, evidence, hcheck⟩
    rw [hcheck]
    rfl

end Target

/-! ## Lines -/

namespace RunReport

variable {settings : Settings} {dryRun showDiff : Bool}

/-- The line that says that nothing was to do has two spans. -/
theorem ne_noChanges_of_length {l : Line} (h : l.length ≠ 2) : l ≠ noChanges :=
  fun hl => h (congrArg List.length hl)

/-- Its first span is plain. -/
theorem ne_noChanges_of_style {l : Line} {style : Style}
    (h : l.head?.map Span.style = some (some style)) : l ≠ noChanges := by
  rintro rfl
  exact nomatch h

/-- Its text starts with a capital. -/
theorem plain_ne_noChanges {text : Text} (h : text.head? ≠ some 'N') :
    Line.plain text ≠ noChanges := by
  intro hl
  exact h (congrArg (fun l : Line => l.head?.bind fun s => s.text.head?) hl)

/-- The heading of a report does not say that nothing was to do. -/
theorem noChanges_notMem_heading : noChanges ∉ heading settings dryRun := by
  intro h
  simp only [heading, List.mem_append, List.mem_cons, List.not_mem_nil, or_false] at h
  rcases h with ((h | h) | h) | h
  · exact plain_ne_noChanges (by simp) h.symm
  · exact plain_ne_noChanges (by simp) h.symm
  · split at h
    · exact ne_noChanges_of_style rfl (List.mem_singleton.mp h).symm
    · exact List.not_mem_nil h
  · exact ne_noChanges_of_length (by decide) h.symm

/-- A difference does not say that nothing was to do, whatever its lines hold. -/
theorem noChanges_notMem_diff (e : SiteReport) : noChanges ∉ e.diff := by
  intro h
  simp only [SiteReport.diff, LineDiff.printed, List.mem_append, List.mem_map, List.mem_cons,
    List.not_mem_nil, or_false] at h
  rcases h with ((h | h | h) | ⟨removed, -, h⟩ | ⟨added, -, h⟩) | h
  · exact ne_noChanges_of_length (by decide) h.symm
  · exact ne_noChanges_of_style rfl h.symm
  · exact ne_noChanges_of_style rfl h.symm
  · exact ne_noChanges_of_style rfl h
  · exact ne_noChanges_of_style rfl h
  · exact ne_noChanges_of_length (by decide) h.symm

/-- What is printed of a site does not say that nothing was to do. -/
theorem noChanges_notMem_printed (e : SiteReport) : noChanges ∉ e.printed dryRun showDiff := by
  have houtcome : e.outcome dryRun ≠ noChanges := by
    unfold SiteReport.outcome
    split
    · exact ne_noChanges_of_style rfl
    · exact ne_noChanges_of_style rfl
    · exact ne_noChanges_of_style rfl
  rw [SiteReport.printed, List.mem_cons, not_or]
  refine ⟨houtcome.symm, ?_⟩
  split
  · exact noChanges_notMem_diff e
  · exact List.not_mem_nil

/-- **A run that has changed no file says so**, and no other. -/
theorem noChanges_mem_iff {r : RunReport} :
    noChanges ∈ heading settings dryRun ++ r.printed settings dryRun showDiff ↔ r.changed = 0 := by
  have hsites : noChanges ∉ r.sites.flatMap (·.printed dryRun showDiff) := by
    rw [List.mem_flatMap]
    rintro ⟨e, -, he⟩
    exact noChanges_notMem_printed e he
  have hblank : Line.blank ≠ noChanges := ne_noChanges_of_length (by decide)
  rw [List.mem_append, or_iff_right noChanges_notMem_heading, printed, List.mem_append,
    or_iff_right hsites, List.mem_cons, or_iff_right hblank.symm, summary, isNoop]
  split
  · rename_i hr
    exact iff_of_true (List.mem_singleton_self _) (beq_iff_eq.mp hr)
  · rename_i hr
    refine iff_of_false (fun h => ?_) fun hzero => hr (beq_iff_eq.mpr hzero)
    simp only [List.mem_cons, List.not_mem_nil, or_false] at h
    rcases h with h | h | h
    · exact ne_noChanges_of_style rfl h.symm
    · exact plain_ne_noChanges (by simp) h.symm
    · have hlength : 2 = 4 := congrArg List.length h
      omega

end RunReport

/-! ## Calls -/

namespace Session

variable {session : Session} {a : Arguments} {settings : Settings} {t : FileTree}
  {targets : List Target} {dryRun showDiff : Bool}

/-- A command that has settings is carried out with them. -/
theorem call_of_settings (h : session.settings a t = .ok settings) (command : Command) :
    session.call { a with command := command } t = perform settings command t := by
  have hsame : session.settings { a with command := command } t = .ok settings := h
  rw [call, hsame]

/-- A command without settings fails. -/
theorem code_call_of_settings_eq_error {e : SetupError} (h : session.settings a t = .error e)
    (command : Command) : (session.call { a with command := command } t).2.code = 1 := by
  have hsame : session.settings { a with command := command } t = .error e := h
  rw [call, hsame]
  rfl

/-- **`verify` ends well** exactly where all targets are quiet. -/
theorem code_verify_eq_zero_iff (htargets : Registry.luau.targets t settings.luauRoot = .ok targets) :
    (verify settings t).code = 0 ↔ ∀ x ∈ targets, x.IsQuiet settings.names t := by
  have hready := Registry.isReady_of_targets htargets fun _ hs => Luau.exists_patchable hs
  have hcomplete : CheckReport.isComplete
      (targets.map fun x => (x.site.id, x.check settings.names t)) = true ↔
        ∀ x ∈ targets, x.IsQuiet settings.names t := by
    rw [CheckReport.isComplete_iff, List.forall_mem_map]
    exact forall₂_congr fun x hx => Target.isVerified_iff_isQuiet (hready x hx)
  rw [verify, Registry.check, htargets, ← hcomplete]
  dsimp only
  split <;> simp_all

/-- **`apply` ends well and says that nothing was to do** exactly where all targets are quiet. -/
theorem apply_eq_zero_iff (htargets : Registry.luau.targets t settings.luauRoot = .ok targets) :
    ((apply settings dryRun showDiff t).2.code = 0 ∧
        RunReport.noChanges ∈ (apply settings dryRun showDiff t).2.stdout) ↔
      ∀ x ∈ targets, x.IsQuiet settings.names t := by
  have hready := Registry.isReady_of_targets htargets fun _ hs => Luau.exists_patchable hs
  rw [apply, Registry.apply_of_targets htargets]
  constructor
  · rintro ⟨hcode, hprinted⟩
    rcases hrun : Target.applyAll settings.names dryRun targets t with ⟨t', e | r⟩
    · rw [hrun] at hcode
      exact absurd hcode (by simp [Transcript.failure])
    · rw [hrun] at hprinted
      exact (Target.forall_isQuiet_of_applyAll hready hrun
        (RunReport.noChanges_mem_iff.mp hprinted)).2
  · intro hquiet
    obtain ⟨r, hrun, hchanged, -⟩ := Target.applyAll_of_isQuiet hquiet dryRun
    rw [hrun]
    exact ⟨rfl, RunReport.noChanges_mem_iff.mpr hchanged⟩

/-- **What `apply` does where all targets are quiet**: it changes nothing, and prints a line for
each, and that nothing was to do. -/
theorem apply_of_isQuiet (htargets : Registry.luau.targets t settings.luauRoot = .ok targets)
    (hquiet : ∀ x ∈ targets, x.IsQuiet settings.names t) :
    apply settings dryRun showDiff t = (t, .success (RunReport.heading settings dryRun
      ++ (targets.map Target.idleLine ++ [.blank, RunReport.noChanges]))) := by
  obtain ⟨r, hrun, hchanged, hidle⟩ := Target.applyAll_of_isQuiet hquiet dryRun
  have hnoop : r.isNoop = true := beq_iff_eq.mpr hchanged
  rw [apply, Registry.apply_of_targets htargets, hrun]
  dsimp only
  rw [RunReport.printed, Target.flatMap_printed_of_isIdle hidle, RunReport.summary, if_pos hnoop]

/-- What `status` reports where all targets are quiet. -/
theorem status_of_isQuiet (htargets : Registry.luau.targets t settings.luauRoot = .ok targets)
    (hquiet : ∀ x ∈ targets, x.IsQuiet settings.names t) :
    status settings t
      = .success (CheckReport.statusHeading settings ++ targets.map Target.appliedLine) := by
  have hlines : CheckReport.status (targets.map fun x => (x.site.id, x.check settings.names t))
      = targets.map Target.appliedLine := by
    rw [CheckReport.status, List.flatMap_map, List.flatMap_congr fun x hx => (hquiet x hx).statusOf]
    exact List.flatMap_pure_eq_map _ _
  rw [status, Registry.check, htargets]
  dsimp only
  rw [hlines]

end Session

namespace Luau

/-- **`verify` and `apply` tell the same story.** Whatever the tree holds, `verify` ends well exactly
when `apply`, called alike, ends well and says that nothing was to do. Then `apply` leaves the tree
as it is and finds every site patched, and `status` ends well and reports every site as applied. -/
theorem verify_iff_apply (session : Session) (a : Arguments) (dryRun showDiff : Bool) (t : FileTree) :
    ((session.call { a with command := .verify } t).2.code = 0 ↔
        (session.call { a with command := .apply dryRun showDiff } t).2.code = 0 ∧
          RunReport.noChanges ∈
            (session.call { a with command := .apply dryRun showDiff } t).2.stdout) ∧
      ((session.call { a with command := .verify } t).2.code = 0 →
        ∃ settings targets, session.settings a t = .ok settings ∧
          Registry.luau.targets t settings.luauRoot = .ok targets ∧
            targets.map Target.site = sites ∧
              session.call { a with command := .apply dryRun showDiff } t
                = (t, .success (RunReport.heading settings dryRun
                    ++ (targets.map Target.idleLine ++ [.blank, RunReport.noChanges]))) ∧
                session.call { a with command := .status } t
                  = (t, .success (CheckReport.statusHeading settings
                      ++ targets.map Target.appliedLine))) := by
  rcases hsettings : session.settings a t with e | settings
  · simp only [Session.code_call_of_settings_eq_error hsettings]
    simp
  simp only [Session.call_of_settings hsettings, Session.perform]
  rcases htargets : Registry.luau.targets t settings.luauRoot with e | targets
  · -- without targets, both fail
    have hverify : (Session.verify settings t).code = 1 := by
      rw [Session.verify, Registry.check, htargets]
      rfl
    have happly : (Session.apply settings dryRun showDiff t).2.code = 1 := by
      rw [Session.apply, Registry.apply_of_targets_eq_error htargets]
      rfl
    simp [hverify, happly]
  · rw [Session.code_verify_eq_zero_iff htargets, Session.apply_eq_zero_iff htargets]
    refine ⟨Iff.rfl, fun hquiet => ⟨settings, targets, rfl, htargets,
      (Registry.spec_of_targets htargets).1, Session.apply_of_isQuiet htargets hquiet, ?_⟩⟩
    rw [Session.status_of_isQuiet htargets hquiet]

/-- A checkout of the library's four files, in which every site is patched for the name `load`. -/
def patchedCheckout : FileTree :=
  checkout FileTree.directoryMode
    [("RequireTracer.cpp", tracer.patched "    " loadOnly),
      ("ConstraintGenerator.cpp", constraintGenerator.patched "    " loadOnly),
      ("TypeInfer.cpp", typeInfer.patched "    " loadOnly),
      ("Linter.cpp", linter.patched "    " loadOnly)]

/-- The targets of a run over the patched checkout. -/
theorem targets_patchedCheckout :
    Registry.luau.targets patchedCheckout "/luau" = .ok checkoutTargets := rfl

/-- Every file of the patched checkout holds the replacement of its site. -/
theorem readText_patchedCheckout : ∀ x ∈ checkoutTargets,
    patchedCheckout.readText x.file = .ok (x.site.patched "    " loadOnly) := by
  simp only [checkoutTargets, List.forall_mem_cons]
  exact ⟨FileTree.readText_of_get? rfl rfl rfl, FileTree.readText_of_get? rfl rfl rfl,
    FileTree.readText_of_get? rfl rfl rfl, FileTree.readText_of_get? rfl rfl rfl, by simp⟩

/-- In the patched checkout nothing is to do. -/
theorem isQuiet_patchedCheckout : ∀ x ∈ checkoutTargets, x.IsQuiet loadOnly patchedCheckout := by
  have hplan : ∀ x ∈ checkoutTargets, x.site.plan loadOnly x.file (x.site.patched "    " loadOnly)
      = .ok (.unchanged .mergePattern) := by decide +kernel
  intro x hx
  exact ⟨_, _, Target.plan_eq_ok_iff.mpr ⟨readText_patchedCheckout x hx, hplan x hx⟩⟩

/-- A call in the top directory, without environment variables. -/
def topSession : Session := ⟨[], []⟩

/-- The arguments for a checkout and the name `load`. -/
def loadArguments : Arguments := ⟨some "/luau", some "load", none, .default⟩

/-- What a call with these arguments works with in the patched checkout. -/
theorem settings_patchedCheckout :
    topSession.settings loadArguments patchedCheckout = .ok ⟨"/luau", loadOnly⟩ := rfl

/-- In the patched checkout, `verify` ends well, and `apply` changes nothing. -/
theorem verify_iff_apply_patchedCheckout :
    (topSession.call { loadArguments with command := .verify } patchedCheckout).2.code = 0 ∧
      (topSession.call { loadArguments with command := .apply false true } patchedCheckout).1
        = patchedCheckout ∧
      RunReport.noChanges ∈
        (topSession.call { loadArguments with command := .apply false true } patchedCheckout).2.stdout
      := by
  have hsettings := settings_patchedCheckout
  -- only the settings matter from here on
  generalize loadArguments = a at hsettings ⊢
  have hcode : (Session.verify ⟨"/luau", loadOnly⟩ patchedCheckout).code = 0 :=
    (Session.code_verify_eq_zero_iff targets_patchedCheckout).mpr isQuiet_patchedCheckout
  have hverify : (topSession.call { a with command := .verify } patchedCheckout).2.code = 0 := by
    rw [Session.call_of_settings hsettings]
    exact hcode
  obtain ⟨hiff, hstory⟩ := verify_iff_apply topSession a false true patchedCheckout
  obtain ⟨settings, targets, -, -, -, happly, -⟩ := hstory hverify
  exact ⟨hverify, by rw [happly], (hiff.mp hverify).2⟩

end Luau

end SitePatch
