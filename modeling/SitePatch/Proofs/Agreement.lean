import SitePatch.Proofs.Effect

/-! # Checks and runs agree

A check plans at every target and goes on where there is no plan; a run on paper plans, too, and
applies the plans to the texts that it has read; a real run reads each file again before it writes.
Main statement: they come to the same results, or to the same first error, but for a real run in
which an edit is due in a directory that is not open (`Luau.runs_agree`). That run fails, and the one
on paper does not (`Luau.runs_differ`). -/

namespace SitePatch

/-! ## Checks and runs on paper -/

/-- **The first error that a check has found.** -/
def Registry.firstError? (results : List (Text × Except PatchError PatchResult)) :
    Option PatchError :=
  results.findSome? fun result =>
    match result.2 with
    | .error e => some e
    | .ok _ => none

namespace Target

variable {x : Target} {names : NameSet} {t : FileTree} {e : PatchError} {targets : List Target}

/-- A check fails exactly where there is no plan, and for the same reason. -/
theorem check_eq_error_iff : x.check names t = .error e ↔ x.plan names t = .error e := by
  unfold check
  rcases x.plan names t with e' | ⟨c, p⟩
  · simp
  · simp

/-- Where there is a plan, a check has a result. -/
theorem exists_check_of_isPlanned (h : x.isPlanned names t = true) :
    ∃ result, x.check names t = .ok result := by
  obtain ⟨c, p, hplan⟩ := exists_of_isPlanned h
  exact ⟨.ofState x.file p.state, by rw [check, hplan]⟩

/-- The results of a check over the targets. -/
def checkAll (names : NameSet) (t : FileTree) (targets : List Target) :
    List (Text × Except PatchError PatchResult) :=
  targets.map fun x => (x.site.id, x.check names t)

/-- Where every target has a plan, a check finds no error. -/
theorem firstError?_of_isPlanned (h : ∀ x ∈ targets, x.isPlanned names t = true) :
    Registry.firstError? (checkAll names t targets) = none := by
  rw [Registry.firstError?, List.findSome?_eq_none_iff]
  intro result hresult
  obtain ⟨x, hx, rfl⟩ := List.mem_map.mp hresult
  obtain ⟨found, hcheck⟩ := exists_check_of_isPlanned (h x hx)
  simp only [hcheck]

/-- The first error that a check finds is that of the first target without a plan. -/
theorem firstError?_of_plan_eq_error {done rest : List Target}
    (hdone : ∀ y ∈ done, y.isPlanned names t = true) (hx : x.plan names t = .error e) :
    Registry.firstError? (checkAll names t (done ++ x :: rest)) = some e := by
  have hnone := firstError?_of_isPlanned hdone
  have hcheck := check_eq_error_iff.mpr hx
  rw [Registry.firstError?] at hnone ⊢
  rw [checkAll, List.map_append, List.findSome?_append, ← checkAll, hnone, List.map_cons,
    List.findSome?_cons]
  simp only [hcheck, Option.none_or]

/-- What reports say is what a check finds. -/
theorem map_of_reports {reports : List SiteReport}
    (h : List.Forall₂ (Reports names t) targets reports) :
    reports.map (fun s => (s.id, Except.ok s.result)) = checkAll names t targets := by
  induction h with
  | nil => rfl
  | cons hx _ ih => rw [List.map_cons, ih, checkAll, checkAll, List.map_cons, hx.id, hx.check]

end Target

/-! ## Real steps -/

namespace Target

variable {x : Target} {names : NameSet} {t : FileTree} {c : Text} {p : Plan} {edit : Edit}

/-- Where a target is barred, an edit is due. -/
theorem isDue_of_isBarred (h : x.isBarred names t = true) : x.isDue names t = true := by
  rw [isBarred, Bool.and_eq_true] at h
  exact h.1

/-- A real step whose edit puts back what it takes away changes nothing, and counts nothing. -/
theorem apply_of_applyTo_eq (hplan : x.plan names t = .ok (c, p)) (hedit : p.edit = some edit)
    (hkeep : edit.applyTo c = .ok c) :
    x.apply names false t = (t, .ok (⟨x.site.id, .ofState x.file p.state, c, c⟩, 0)) := by
  obtain ⟨hread, hsite⟩ := plan_eq_ok_iff.mp hplan
  have hafter : p.applyTo c = .ok c := by
    simp only [Plan.applyTo, hedit, hkeep]
  have hin : edit.applyIn t = (t, .ok .alreadyApplied) := by
    rw [Edit.applyIn_eq_alreadyApplied_iff, Site.file_of_plan hsite hedit]
    exact ⟨rfl, c, hread, hkeep⟩
  rw [apply, hplan]
  simp only [hafter, write, hedit, hin, Bool.false_eq_true, if_false]

end Target

/-! ## Runs -/

namespace Registry

variable {registry : Registry} {root : Text} {names : NameSet} {t : FileTree}

/-- Where a check fails, a run fails alike, and changes nothing. -/
theorem apply_of_check_eq_error {e : PatchError} (h : registry.check root names t = .error e)
    (dryRun : Bool) : registry.apply root names dryRun t = (t, .error e) := by
  unfold check at h
  rcases htargets : registry.targets t root with e' | targets
  · rw [htargets] at h
    rw [apply_of_targets_eq_error htargets, Except.error.inj h]
  · simp [htargets] at h

/-- **A run on paper ends with the first error that a check finds**, or reports what it finds. -/
theorem apply_paper_of_check {results : List (Text × Except PatchError PatchResult)}
    (h : registry.check root names t = .ok results) :
    (∀ e, firstError? results = some e → registry.apply root names true t = (t, .error e)) ∧
      (firstError? results = none → ∃ r, registry.apply root names true t = (t, .ok r) ∧
        r.sites.map (fun s => (s.id, Except.ok s.result)) = results) := by
  unfold check at h
  rcases htargets : registry.targets t root with e' | targets
  · simp [htargets] at h
  rw [apply_of_targets htargets]
  rw [htargets] at h
  obtain rfl : Target.checkAll names t targets = results := Except.ok.inj h
  rcases Target.applyAll_paper_cases names targets t with
    ⟨done, x, rest, e, rfl, hdone, hfails, hrun⟩ | ⟨hplanned, r, hrun, hreports, -⟩
  · rw [Target.firstError?_of_plan_eq_error hdone hfails]
    refine ⟨fun e' he => ?_, fun hnone => by simp at hnone⟩
    rw [hrun, Option.some.inj he]
  · rw [Target.firstError?_of_isPlanned hplanned]
    exact ⟨fun e he => by simp at he, fun _ => ⟨r, hrun, Target.map_of_reports hreports⟩⟩

/-- **A real run over distinct files has the result that it has on paper**, unless it comes to a
target that is barred. -/
theorem apply_eq_paper {targets : List Target}
    (hpatchable : ∀ s ∈ registry.sites, ∃ k m, s.Patchable k m)
    (htargets : registry.targets t root = .ok targets)
    (hdistinct : (targets.map Target.location).Nodup) :
    (registry.apply root names false t).2 =
      if (Target.planned names t targets).any (Target.isBarred names t) = true then
        .error (.edit (.io .permissionDenied))
      else (registry.apply root names true t).2 := by
  have hready := isReady_of_targets htargets hpatchable
  rw [apply_of_targets htargets, apply_of_targets htargets]
  split
  · rename_i hbarred
    exact Target.applyAll_of_isBarred hready hdistinct (List.any_eq_true.mp hbarred)
  · rename_i hopen
    rw [Bool.not_eq_true, List.any_eq_false] at hopen
    obtain ⟨t', hrun, -⟩ := Target.exists_effect_of_applyAll hready hdistinct
      fun x hx => by simpa using hopen x hx
    rw [hrun]

end Registry

/-! ## Luau -/

namespace Luau

/-- **Checks, runs on paper and real runs agree.** Without targets, all fail alike. Else a run on
paper ends with the first error that a check finds, or reports what the check finds, and changes
nothing. A real run over sites of Luau's Analysis library, in distinct files, has the result that it
has on paper, unless it comes to a target where an edit is due in a directory that is not open. -/
theorem runs_agree (registry : Registry) (root : Text) (names : NameSet) (t : FileTree) :
    (∀ e, registry.check root names t = .error e →
        ∀ dryRun, registry.apply root names dryRun t = (t, .error e)) ∧
      (∀ results, registry.check root names t = .ok results →
        (∀ e, Registry.firstError? results = some e →
            registry.apply root names true t = (t, .error e)) ∧
          (Registry.firstError? results = none → ∃ r,
            registry.apply root names true t = (t, .ok r) ∧
              r.sites.map (fun s => (s.id, Except.ok s.result)) = results)) ∧
        ∀ targets, (∀ s ∈ registry.sites, IsPlaced s) → registry.targets t root = .ok targets →
          (targets.map Target.location).Nodup →
            (registry.apply root names false t).2 =
              if (Target.planned names t targets).any (Target.isBarred names t) = true then
                .error (.edit (.io .permissionDenied))
              else (registry.apply root names true t).2 :=
  ⟨fun _ he => Registry.apply_of_check_eq_error he, fun _ hresults =>
    Registry.apply_paper_of_check hresults, fun _ hplaced htargets hdistinct =>
      Registry.apply_eq_paper (fun s hs => (hplaced s hs).exists_patchable) htargets hdistinct⟩

/-- A run over the broken checkout fails on paper as it really does. -/
theorem runs_agree_brokenCheckout :
    linterAndTracer.targets brokenCheckout "/luau" = .ok brokenTargets ∧
      (linterAndTracer.apply "/luau" loadOnly false brokenCheckout).2
        = (linterAndTracer.apply "/luau" loadOnly true brokenCheckout).2 := by
  refine ⟨targets_brokenCheckout, ?_⟩
  obtain ⟨-, -, hreal⟩ := runs_agree linterAndTracer "/luau" loadOnly brokenCheckout
  rw [hreal brokenTargets isPlaced_linterAndTracer targets_brokenCheckout (by decide), if_neg]
  rw [Bool.not_eq_true, List.any_eq_false]
  intro x hx
  rw [isBarred_brokenTargets x (List.takeWhile_subset _ hx)]
  simp

/-- The registry of the linter alone. -/
def linterAlone : Registry := ⟨[linter], by decide⟩

/-- A checkout whose linter is as it was delivered, in a directory that is not open. -/
def closedCheckout : FileTree :=
  checkout 0o555 [("Linter.cpp", deliveredAnswer), ("RequireTracer.cpp", [])]

/-- In the closed checkout, the linter has a plan, and its edit is barred. -/
theorem isBarred_closedCheckout :
    (⟨linter, analysisFile "Linter.cpp"⟩ : Target).isPlanned loadOnly closedCheckout = true ∧
      (⟨linter, analysisFile "Linter.cpp"⟩ : Target).isBarred loadOnly closedCheckout = true := by
  have hread : closedCheckout.readText (analysisFile "Linter.cpp").path = .ok deliveredAnswer :=
    FileTree.readText_of_readFrom rfl
  simp only [Target.isBarred, Target.isDue, Target.isPlanned, Target.plan, Target.file, hread]
  decide +kernel

/-- The linter, with the shape of its patched region also in place of the delivered one. -/
def mergeLinter : Site := { linter with pristine := linterMerge }

/-- The registry of that site alone. -/
def mergeLinterAlone : Registry := ⟨[mergeLinter], by decide⟩

/-- A checkout whose linter is patched for the name `load`. -/
def answeredCheckout : FileTree :=
  checkout FileTree.directoryMode [("Linter.cpp", linter.patched [] loadOnly)]

/-- The edit that replaces the patched answer by itself. -/
def keepAnswer : Edit :=
  .replacing (analysisFile "Linter.cpp").path 0 (linter.patched [] loadOnly)
    (linter.patched [] loadOnly)

/-- The answer of the linter in the checkout. -/
theorem readText_answeredCheckout :
    answeredCheckout.readText (analysisFile "Linter.cpp").path = .ok (linter.patched [] loadOnly) :=
  FileTree.readText_of_readFrom rfl

/-- In the answered checkout, the plan is to replace the answer by itself. -/
theorem plan_mergeLinter :
    (⟨mergeLinter, analysisFile "Linter.cpp"⟩ : Target).plan loadOnly answeredCheckout
      = .ok (linter.patched [] loadOnly, ⟨.pristine, some keepAnswer⟩) := by
  refine Target.plan_eq_ok_iff.mpr ⟨readText_answeredCheckout, ?_⟩
  decide +kernel

/-- **Where a real run differs from the one on paper.** Where an edit is due in a directory that is
not open, the real run fails, and the one on paper does not. Where a site takes what is patched for
what was delivered, the one on paper counts an edit that changes nothing, and the real run does
not. -/
theorem runs_differ :
    ((∀ s ∈ linterAlone.sites, IsPlaced s) ∧
        linterAlone.targets closedCheckout "/luau" = .ok [⟨linter, analysisFile "Linter.cpp"⟩] ∧
          (linterAlone.apply "/luau" loadOnly false closedCheckout).2
              = .error (.edit (.io .permissionDenied)) ∧
            ∃ r, (linterAlone.apply "/luau" loadOnly true closedCheckout).2 = .ok r ∧
              r.changed = 1) ∧
      mergeLinterAlone.targets answeredCheckout "/luau"
          = .ok [⟨mergeLinter, analysisFile "Linter.cpp"⟩] ∧
        (∃ r, (mergeLinterAlone.apply "/luau" loadOnly false answeredCheckout).2 = .ok r ∧
            r.changed = 0) ∧
          ∃ r, (mergeLinterAlone.apply "/luau" loadOnly true answeredCheckout).2 = .ok r ∧
            r.changed = 1 := by
  have hplaced : ∀ s ∈ linterAlone.sites, IsPlaced s := by
    have hsites : ∀ s ∈ [linter], s ∈ sites := by decide
    exact fun s hs => isPlaced_of_mem (hsites s hs)
  have hclosed : linterAlone.targets closedCheckout "/luau"
      = .ok [⟨linter, analysisFile "Linter.cpp"⟩] := rfl
  have hready := Registry.isReady_of_targets hclosed fun s hs => (hplaced s hs).exists_patchable
  have hanswered : mergeLinterAlone.targets answeredCheckout "/luau"
      = .ok [⟨mergeLinter, analysisFile "Linter.cpp"⟩] := rfl
  obtain ⟨hplanned, hbarred⟩ := isBarred_closedCheckout
  have hdue := Target.isDue_of_isBarred hbarred
  refine ⟨⟨hplaced, hclosed, ?_, ?_⟩, hanswered, ?_, ?_⟩
  · rw [Registry.apply_of_targets hclosed, Target.applyAll_cons_of_error
      (Target.apply_of_isBarred (hready _ List.mem_cons_self) hbarred)]
  · obtain ⟨c, p, hplan⟩ := Target.exists_of_isPlanned hplanned
    obtain ⟨c', -, hstep⟩ := Target.apply_paper hplan
    rw [Registry.apply_of_targets hclosed, Target.applyAll_singleton hstep, if_pos hdue]
    exact ⟨_, rfl, rfl⟩
  · have happly : keepAnswer.applyTo (linter.patched [] loadOnly)
        = .ok (linter.patched [] loadOnly) := by decide +kernel
    have hstep := Target.apply_of_applyTo_eq plan_mergeLinter rfl happly
    rw [Registry.apply_of_targets hanswered, Target.applyAll_singleton hstep]
    exact ⟨_, rfl, rfl⟩
  · obtain ⟨c', -, hstep⟩ := Target.apply_paper plan_mergeLinter
    rw [Registry.apply_of_targets hanswered, Target.applyAll_singleton hstep,
      Target.isDue_of_plan plan_mergeLinter]
    exact ⟨_, rfl, rfl⟩

end Luau

end SitePatch
