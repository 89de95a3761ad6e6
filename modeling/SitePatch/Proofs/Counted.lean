import SitePatch.Proofs.Planned

/-! # What counts as a change

A change is told in several ways: by the state and the edit of a plan, by the result and the texts of
a report, and by the number that a run counts up. They are kept apart, and come to the same. A plan
asks for a change exactly if it was made for a delivered region or for missing checks
(`Site.needsChange_iff_state`), exactly if it changes the text; and a step counts one exactly if it
reports one (`Target.IsReady.spec_of_apply`). Main statement: this holds of every site of Luau's
Analysis library, and of every run over such sites (`Luau.changed_iff_ne`). -/

namespace SitePatch

/-! ## Plans -/

/-- The state that asks for a change. -/
def PatchState.IsChange (state : PatchState) : Prop :=
  state = .pristine ∨ ∃ added, state = .needsMerge added

/-- A report tells a change exactly if the state of the plan does. -/
theorem PatchResult.isChange_ofState_iff {file : Text} {state : PatchState} :
    (ofState file state).isChange = true ↔ state.IsChange := by
  cases state <;> simp [ofState, isChange, PatchState.IsChange]

/-- **A plan has an edit exactly if its state asks for a change.** -/
theorem Site.needsChange_iff_state {s : Site} {names : NameSet} {file c : Text} {p : Plan}
    (hplan : s.plan names file c = .ok p) : p.needsChange = true ↔ p.state.IsChange := by
  rcases plan_cases hplan with ⟨o, -, rfl⟩ | ⟨m, o, -, -, rfl⟩ | rfl
  · unfold planRewrite
    split <;> simp [Plan.needsChange, Plan.unchanged, PatchState.IsChange]
  · unfold planMerge
    dsimp only
    split <;> simp [Plan.needsChange, Plan.unchanged, PatchState.IsChange]
  · simp [Plan.needsChange, Plan.unchanged, PatchState.IsChange]

/-- **A plan has an edit exactly if it changes the text.** -/
theorem Site.Patchable.needsChange_iff_ne {s : Site} {k : Opening} {m : Shape} {names : NameSet}
    {file c c' : Text} {p : Plan} (hs : s.Patchable k m) (hplan : s.plan names file c = .ok p)
    (happly : p.applyTo c = .ok c') : p.needsChange = true ↔ c' ≠ c := by
  refine ⟨fun hdue => hs.ne_of_needsChange hplan hdue happly, fun hne => ?_⟩
  by_contra hnot
  rw [Bool.not_eq_true] at hnot
  rw [Plan.applyTo_of_not_needsChange hnot] at happly
  exact hne (Except.ok.inj happly).symm

/-! ## Steps and runs -/

namespace Target

variable {x : Target} {names : NameSet} {dryRun : Bool} {t t' : FileTree} {e : SiteReport} {n : Nat}
  {targets : List Target} {r : RunReport}

/-- **What a step counts and reports**: one exactly if the report tells a change, exactly if the text
has changed. -/
theorem IsReady.spec_of_apply (hx : x.IsReady t) (h : x.apply names dryRun t = (t', .ok (e, n))) :
    n = (if e.result.isChange then 1 else 0) ∧ (e.result.isChange = true ↔ e.before ≠ e.after) := by
  have hpaper := hx.apply_paper_of_apply h
  rcases hplan : x.plan names t with err | ⟨c, p⟩
  · rw [apply_of_plan_eq_error hplan] at hpaper
    simp at hpaper
  obtain ⟨c', hafter, hresult⟩ := apply_paper hplan
  obtain ⟨-, hsite⟩ := plan_eq_ok_iff.mp hplan
  obtain ⟨k, m, hs⟩ := hx.patchable
  rw [hresult] at hpaper
  simp only [Prod.mk.injEq, Except.ok.injEq, true_and] at hpaper
  obtain ⟨rfl, rfl⟩ := hpaper
  have hchange : (PatchResult.ofState x.file p.state).isChange = true ↔ p.needsChange = true :=
    PatchResult.isChange_ofState_iff.trans (Site.needsChange_iff_state hsite).symm
  refine ⟨?_, hchange.trans ((hs.needsChange_iff_ne hsite hafter).trans ne_comm)⟩
  rw [isDue_of_plan hplan, Bool.eq_iff_iff.mpr hchange]

/-- **What a run counts**: the reports that tell a change, which are those with another text
afterwards. -/
theorem changed_of_applyAll (hready : ∀ x ∈ targets, x.IsReady t)
    (h : applyAll names dryRun targets t = (t', .ok r)) :
    (r.changed = r.sites.countP fun e => e.result.isChange) ∧
      ∀ e ∈ r.sites, e.result.isChange = true ↔ e.before ≠ e.after := by
  induction targets generalizing t r with
  | nil =>
    obtain ⟨-, hr⟩ := Prod.mk.inj h
    obtain rfl := Except.ok.inj hr
    simp
  | cons x targets ih =>
    obtain ⟨hx, hrest⟩ := List.forall_mem_cons.mp hready
    obtain ⟨t₁, e, n, r₁, hstep, hrun, rfl⟩ := exists_of_applyAll h
    obtain ⟨rfl, hfirst⟩ := hx.spec_of_apply hstep
    have halike : t.Alike t₁ := by
      have hkept := (IsReached.kept_apply ⟨hx.reaches, hx.ne_nil⟩ names dryRun).1
      rwa [hstep] at hkept
    obtain ⟨hcount, hothers⟩ := ih (fun y hy => (hrest y hy).of_alike halike) hrun
    refine ⟨?_, List.forall_mem_cons.mpr ⟨hfirst, hothers⟩⟩
    rw [addReport, hcount, List.countP_cons, Nat.add_comm]

end Target

/-! ## Luau -/

namespace Luau

/-- **A change is reported exactly when the text changes.** A plan for a site of Luau's Analysis
library has an edit exactly if a delivered region is rewritten or checks are missing, exactly if
patching makes another text; and a run over such sites, real or on paper, counts the reports that
tell a change, and thereby those whose texts differ. -/
theorem changed_iff_ne :
    (∀ (s : Site) (names : NameSet) (file c : Text) (p : Plan), IsPlaced s →
        s.plan names file c = .ok p → ∃ c', s.patch names c = .ok c' ∧
          (p.needsChange = true ↔ p.state = .pristine ∨ ∃ added, p.state = .needsMerge added) ∧
            (p.needsChange = true ↔ c' ≠ c)) ∧
      ∀ (registry : Registry) (root : Text) (names : NameSet) (dryRun : Bool) (t t' : FileTree)
        (r : RunReport), (∀ s ∈ registry.sites, IsPlaced s) →
          registry.apply root names dryRun t = (t', .ok r) →
            (r.changed = r.sites.countP fun e => e.result.isChange) ∧
              r.changed = r.sites.countP fun e => e.before ≠ e.after := by
  refine ⟨fun s names file c p hs hplan => ?_, fun registry root names dryRun t t' r hs hrun => ?_⟩
  · obtain ⟨k, m, hpatchable⟩ := hs.exists_patchable
    obtain ⟨c', hafter⟩ := Site.exists_applyTo hplan
    exact ⟨c', (hpatchable.patch_of_plan hplan).trans hafter, Site.needsChange_iff_state hplan,
      hpatchable.needsChange_iff_ne hplan hafter⟩
  · rcases htargets : registry.targets t root with err | targets
    · rw [Registry.apply_of_targets_eq_error htargets] at hrun
      simp at hrun
    rw [Registry.apply_of_targets htargets] at hrun
    obtain ⟨hcount, hchange⟩ := Target.changed_of_applyAll
      (Registry.isReady_of_targets htargets fun s h => (hs s h).exists_patchable) hrun
    refine ⟨hcount, hcount.trans (List.countP_congr fun e he => ?_)⟩
    rw [hchange e he, decide_eq_true_eq]

/-- What the plan for a delivered answer asks for, and what a run over a checkout counts. -/
theorem changed_iff_ne_mixedCheckout :
    (IsPlaced linter ∧ linter.plan loadOnly "Linter.cpp" deliveredAnswer
          = .ok ⟨.pristine, some rewriteAnswer⟩ ∧
        ∃ c', linter.patch loadOnly deliveredAnswer = .ok c' ∧ c' ≠ deliveredAnswer) ∧
      (∀ s ∈ Registry.luau.sites, IsPlaced s) ∧
        ∃ t' r, Registry.luau.apply "/luau" loadOnly false mixedCheckout = (t', .ok r) ∧
          (r.changed = r.sites.countP fun e => e.result.isChange) ∧
            r.changed = r.sites.countP fun e => e.before ≠ e.after := by
  have hplaced : IsPlaced linter := isPlaced_of_mem (by decide)
  have hall : ∀ s ∈ Registry.luau.sites, IsPlaced s := fun _ hs => isPlaced_of_mem hs
  obtain ⟨c', hpatch, -, hne⟩ := changed_iff_ne.1 _ _ _ _ _ hplaced plan_deliveredAnswer
  obtain ⟨t', r, hrun⟩ := exists_apply_mixedCheckout
  exact ⟨⟨hplaced, plan_deliveredAnswer, c', hpatch, hne.mp rfl⟩, hall, t', r, hrun,
    changed_iff_ne.2 _ _ _ _ _ _ _ hall hrun⟩

end Luau

end SitePatch
