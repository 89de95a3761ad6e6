import Mathlib.Data.List.Forall2
import SitePatch.Proofs.Crossing
import SitePatch.Proofs.Effect

/-! # A run after a run

A run patches its targets one after the other, and a later target may patch the file of an earlier
one. What a step has made of its target's text stays so nevertheless (`Target.left_of_applyAll`), so
a second run for the same names, or for fewer, finds nothing to do. The exception is a text that
held a delivered and a patched region of one site: it has two patched regions afterwards, and the
second run refuses it. Main statement: that is the only exception
(`Registry.isSettled_iff_of_apply`, and `Luau.isSettled_iff` for the sites of Luau's Analysis
library). -/

namespace SitePatch

namespace Target

variable {x y : Target} {names fewer : NameSet} {t t' : FileTree} {c before : Text}
  {targets : List Target} {p : Plan} {e : SiteReport} {r : RunReport}

/-! ## All targets -/

/-- **Targets that can be patched one after the other**: each can be patched, and its site is spared
by those behind it. -/
structure AreReady (targets : List Target) (t : FileTree) : Prop where
  ready : ∀ x ∈ targets, x.IsReady t
  spares : targets.Pairwise fun x y => x.site.Spares y.site

/-- Behind the first target, the others can be patched in every tree that is alike. -/
theorem AreReady.tail (h : AreReady (x :: targets) t) (halike : t.Alike t') : AreReady targets t' where
  ready y hy := (h.ready y (List.mem_cons_of_mem _ hy)).of_alike halike
  spares := (List.pairwise_cons.mp h.spares).2

/-- The target's file holds what a step has made of the text `before`. -/
def Left (x : Target) (names : NameSet) (before : Text) (t : FileTree) : Prop :=
  ∃ c, t.readText x.file = .ok c ∧ x.site.Outcome names before c

/-- A step at another target leaves what was made of the target's text, also in the same file. -/
theorem Left.of_patches (h : x.Left names before t) (hx : x.IsReady t)
    (hspares : x.site.Spares y.site) (hy : y.Patches names p e t t') : x.Left names before t' := by
  obtain ⟨c, hread, hleft⟩ := h
  -- both sites may have one file: then the other step has to spare this site
  by_cases hsame : x.location = y.location
  · have hfile : x.file = y.file := by rw [file, hsame, file]
    rw [hfile, hy.read] at hread
    obtain rfl := Except.ok.inj hread
    exact ⟨e.after, by rw [hfile, hy.written], hspares.outcome hleft hy.plan hy.applyTo⟩
  · refine ⟨c, ?_, hleft⟩
    have hcongr := FileTree.readText_congr hy.alike hx.reaches hx.ne_nil (hy.others _ hsame)
    exact hcongr.trans hread

/-- The steps at the targets behind leave what was made of a target's text. -/
theorem Left.of_applyAll (h : x.Left names before t) (hx : x.IsReady t)
    (hspares : ∀ y ∈ targets, x.site.Spares y.site) (hready : AreReady targets t)
    (happly : applyAll names false targets t = (t', .ok r)) : x.Left names before t' := by
  induction targets generalizing t r with
  | nil =>
    unfold applyAll at happly
    rwa [← (Prod.mk.inj happly).1]
  | cons y targets ih =>
    obtain ⟨t₁, e, n, r₁, hstep, hrest, -⟩ := exists_of_applyAll happly
    obtain ⟨p, hy⟩ := exists_patches_of_apply (hready.ready y (by simp)) hstep
    have hleft := h.of_patches hx (hspares y (by simp)) hy
    exact ih hleft (hx.of_alike hy.alike) (fun z hz => hspares z (List.mem_cons_of_mem _ hz))
      (hready.tail hy.alike) hrest

/-- **What a run leaves**: every target's file holds what its step made of the text that the report
has for it. -/
theorem left_of_applyAll (hready : AreReady targets t) (hnames : names.isEmpty = false)
    (happly : applyAll names false targets t = (t', .ok r)) :
    t.Alike t' ∧
      List.Forall₂ (fun x e => e.id = x.site.id ∧ x.Left names e.before t') targets r.sites := by
  induction targets generalizing t r with
  | nil =>
    unfold applyAll at happly
    obtain ⟨rfl, hr⟩ := Prod.mk.inj happly
    rw [← Except.ok.inj hr]
    exact ⟨.refl _, .nil⟩
  | cons x targets ih =>
    obtain ⟨t₁, e, n, r₁, hstep, hrest, rfl⟩ := exists_of_applyAll happly
    have hx := hready.ready x (by simp)
    obtain ⟨p, hpatches⟩ := exists_patches_of_apply hx hstep
    have hready₁ := hready.tail hpatches.alike
    obtain ⟨halike, hall⟩ := ih hready₁ hrest
    -- the step leaves an outcome, which the steps behind it keep
    obtain ⟨k, m, hs⟩ := hx.patchable
    have hleft : x.Left names e.before t₁ :=
      ⟨e.after, hpatches.written, hs.outcome_of_plan hnames hpatches.plan hpatches.applyTo⟩
    refine ⟨hpatches.alike.trans halike, .cons ⟨hpatches.id, ?_⟩ hall⟩
    exact hleft.of_applyAll (hx.of_alike hpatches.alike) (List.pairwise_cons.mp hready.spares).1
      hready₁ hrest

/-- **A run over distinct files succeeds** if there is a plan for each of their texts, and their
directories are open; its report has these texts. -/
theorem exists_applyAll (hready : AreReady targets t)
    (hdistinct : targets.Pairwise fun x y => x.location ≠ y.location)
    (hopen : ∀ x ∈ targets, t.isOpenAt x.location.dropLast = true)
    (hplan : ∀ x ∈ targets, ∃ c p, t.readText x.file = .ok c ∧ x.site.plan names x.file c = .ok p) :
    ∃ t' r, applyAll names false targets t = (t', .ok r) ∧
      List.Forall₂ (fun x e => e.id = x.site.id ∧ t.readText x.file = .ok e.before) targets
        r.sites := by
  induction targets generalizing t with
  | nil => exact ⟨t, ⟨[], 0⟩, rfl, .nil⟩
  | cons x targets ih =>
    have hx := hready.ready x (by simp)
    obtain ⟨c, p, hread, hsite⟩ := hplan x (by simp)
    obtain ⟨t₁, e, n, hstep⟩ := exists_apply hx hread hsite (hopen x (by simp))
    obtain ⟨p₁, hpatches⟩ := exists_patches_of_apply hx hstep
    -- the files behind are read as before
    have hrest : ∀ y ∈ targets, t₁.readText y.file = t.readText y.file := by
      intro y hy
      have hy' := hready.ready y (List.mem_cons_of_mem _ hy)
      have hne := (List.pairwise_cons.mp hdistinct).1 y hy
      exact FileTree.readText_congr hpatches.alike hy'.reaches hy'.ne_nil
        (hpatches.others _ (Ne.symm hne))
    obtain ⟨t', r, hrun, hall⟩ := ih (hready.tail hpatches.alike) (List.pairwise_cons.mp hdistinct).2
      (fun y hy => by rw [hpatches.alike.isOpenAt_eq, hopen y (List.mem_cons_of_mem _ hy)])
      (fun y hy => by rw [hrest y hy]; exact hplan y (List.mem_cons_of_mem _ hy))
    refine ⟨t', addReport e n r, ?_, .cons ⟨hpatches.id, hpatches.read⟩ ?_⟩
    · rw [applyAll_cons_of_ok hstep, hrun]
      rfl
    · refine ((List.forall₂_and_left _ _).mpr ⟨hrest, hall⟩).imp ?_
      rintro y f ⟨hsame, hid, hread⟩
      exact ⟨hid, hsame ▸ hread⟩

/-! ## Quiet targets -/

/-- The target's text needs no change. -/
def IsQuiet (x : Target) (names : NameSet) (t : FileTree) : Prop :=
  ∃ c evidence, x.plan names t = .ok (c, .unchanged evidence)

/-- A target is quiet exactly when a check finds it patched. -/
theorem isQuiet_iff_check {k : Opening} {m : Shape} (hs : x.site.Patchable k m) :
    x.IsQuiet names t ↔
      ∃ file evidence, x.check names t = .ok (.alreadyApplied file evidence) := by
  constructor
  · rintro ⟨c, evidence, hplan⟩
    exact ⟨x.file, evidence, by rw [check, hplan]; rfl⟩
  · rintro ⟨f, evidence, hcheck⟩
    unfold check at hcheck
    rcases hplan : x.plan names t with err | ⟨c, p⟩
    · simp [hplan] at hcheck
    · have hstate : p.state = .applied evidence := by
        simp only [hplan, Except.ok.injEq] at hcheck
        cases hp : p.state <;> simp_all [PatchResult.ofState]
      obtain ⟨-, hsite⟩ := plan_eq_ok_iff.mp hplan
      rw [hs.unchanged_of_state hsite hstate] at hplan
      exact ⟨c, evidence, hplan⟩

/-- **A report says that nothing was to do** at the target. -/
structure IsIdle (x : Target) (e : SiteReport) : Prop where
  id : e.id = x.site.id
  result : ∃ evidence, e.result = .alreadyApplied x.file evidence

/-- Patching a quiet target changes nothing. -/
theorem IsQuiet.apply (h : x.IsQuiet names t) (dryRun : Bool) :
    ∃ e, x.apply names dryRun t = (t, .ok (e, 0)) ∧ x.IsIdle e := by
  obtain ⟨c, evidence, hplan⟩ := h
  exact ⟨_, by rw [Target.apply, hplan]; rfl, rfl, evidence, rfl⟩

/-- A run over quiet targets changes nothing. -/
theorem applyAll_of_isQuiet (h : ∀ x ∈ targets, x.IsQuiet names t) (dryRun : Bool) :
    ∃ r, applyAll names dryRun targets t = (t, .ok r) ∧ r.changed = 0 ∧
      List.Forall₂ IsIdle targets r.sites := by
  induction targets with
  | nil => exact ⟨_, rfl, rfl, .nil⟩
  | cons x targets ih =>
    obtain ⟨e, hx, hidle⟩ := (h x (by simp)).apply dryRun
    obtain ⟨r, hrest, hr, hall⟩ := ih fun y hy => h y (List.mem_cons_of_mem _ hy)
    refine ⟨addReport e 0 r, ?_, by rw [addReport, hr], .cons hidle hall⟩
    rw [applyAll_cons_of_ok hx, hrest]
    rfl

/-- A run without extra names finds every target quiet. -/
theorem isQuiet_of_applyAll (hready : AreReady targets t) (hnames : names.isEmpty = true)
    (happly : applyAll names false targets t = (t', .ok r)) :
    t' = t ∧ ∀ x ∈ targets, x.IsQuiet names t := by
  induction targets generalizing r with
  | nil =>
    unfold applyAll at happly
    exact ⟨(Prod.mk.inj happly).1.symm, by simp⟩
  | cons x targets ih =>
    obtain ⟨t₁, e, n, r₁, hstep, hrest, -⟩ := exists_of_applyAll happly
    have hx := hready.ready x (by simp)
    obtain ⟨p, hpatches⟩ := exists_patches_of_apply hx hstep
    obtain ⟨k, m, hs⟩ := hx.patchable
    obtain ⟨evidence, rfl⟩ := hs.plan_of_isEmpty hnames hpatches.plan
    obtain rfl := hpatches.same rfl
    obtain ⟨ht, hall⟩ := ih (hready.tail (.refl _)) hrest
    refine ⟨ht, ?_⟩
    intro y hy
    rcases List.mem_cons.mp hy with rfl | hy
    · exact ⟨e.before, evidence, plan_eq_ok_iff.mpr ⟨hpatches.read, hpatches.plan⟩⟩
    · exact hall y hy

/-- **A target is quiet after a step** for the same names or for fewer, unless its text held both a
delivered and a patched region. -/
theorem Left.isQuiet_iff {k : Opening} {m : Shape} (h : x.Left names before t)
    (hs : x.site.Patchable k m) (hfewer : ∀ n ∈ fewer.toList, n ∈ names.toList) :
    x.IsQuiet fewer t ↔ ¬ x.site.HoldsBoth before := by
  -- a settled text needs no change, and every step over a stuck text fails
  obtain ⟨c, hread, ⟨hnot, hsettled⟩ | ⟨hboth, hstuck⟩⟩ := h
  · obtain ⟨evidence, hplan⟩ := hs.plan_of_settled hsettled hfewer x.file
    exact iff_of_true ⟨c, evidence, plan_eq_ok_iff.mpr ⟨hread, hplan⟩⟩ hnot
  · refine iff_of_false ?_ (not_not_intro hboth)
    rintro ⟨d, evidence, hplan⟩
    obtain ⟨hd, hsite⟩ := plan_eq_ok_iff.mp hplan
    rw [hread] at hd
    obtain rfl := Except.ok.inj hd
    obtain ⟨err, hfails⟩ := hs.plan_of_stuck hstuck fewer x.file
    rw [hfails] at hsite
    simp at hsite

/-- All targets are quiet after their steps, unless the report has a text that held both a delivered
and a patched region. -/
theorem forall_isQuiet_iff {registry : Registry} {reports : List SiteReport}
    (hpatchable : ∀ x ∈ targets, ∃ k m, x.site.Patchable k m)
    (hfewer : ∀ n ∈ fewer.toList, n ∈ names.toList)
    (hfound : ∀ x ∈ targets, registry.get? x.site.id = some x.site)
    (hall : List.Forall₂ (fun x e => e.id = x.site.id ∧ x.Left names e.before t) targets reports) :
    (∀ x ∈ targets, x.IsQuiet fewer t) ↔
      ∀ e ∈ reports, ∀ s, registry.get? e.id = some s → ¬ s.HoldsBoth e.before := by
  induction hall with
  | nil => simp
  | @cons x e targets reports hx hall ih =>
    obtain ⟨hid, hleft⟩ := hx
    obtain ⟨k, m, hs⟩ := hpatchable x (by simp)
    have hrest := ih (fun y hy => hpatchable y (List.mem_cons_of_mem _ hy))
      fun y hy => hfound y (List.mem_cons_of_mem _ hy)
    have hhead : x.IsQuiet fewer t ↔
        ∀ s, registry.get? e.id = some s → ¬ s.HoldsBoth e.before := by
      rw [hleft.isQuiet_iff hs hfewer, hid, hfound x (by simp)]
      simp
    rw [List.forall_mem_cons, List.forall_mem_cons, hhead, hrest]

end Target

/-! ## Runs -/

/-- Whether a site of the run found a delivered and a patched region in its text. -/
def RunReport.HeldBoth (r : RunReport) (registry : Registry) : Prop :=
  ∃ e ∈ r.sites, ∃ s, registry.get? e.id = some s ∧ s.HoldsBoth e.before

namespace Registry

/-- **Nothing is to do below the root**: a check finds every site patched, and a run, real or only
on paper, succeeds and leaves the tree as it is. -/
structure IsSettled (registry : Registry) (root : Text) (names : NameSet) (t : FileTree) : Prop where
  check : ∃ results, registry.check root names t = .ok results ∧
    results.map Prod.fst = registry.sites.map Site.id ∧
      ∀ x ∈ results, ∃ file evidence, x.2 = .ok (.alreadyApplied file evidence)
  apply : ∀ dryRun, ∃ r, registry.apply root names dryRun t = (t, .ok r) ∧ r.changed = 0

variable {registry : Registry} {root : Text} {names fewer : NameSet} {t t' : FileTree}
  {targets : List Target} {r : RunReport}

/-- Nothing is to do exactly when all targets are quiet. -/
theorem isSettled_iff_isQuiet (htargets : registry.targets t root = .ok targets)
    (hpatchable : ∀ s ∈ registry.sites, ∃ k m, s.Patchable k m) :
    registry.IsSettled root names t ↔ ∀ x ∈ targets, x.IsQuiet names t := by
  obtain ⟨hsites, -⟩ := spec_of_targets htargets
  have hcheck : registry.check root names t
      = .ok (targets.map fun x => (x.site.id, x.check names t)) := by
    rw [check, htargets]
  have hquiet : ∀ x ∈ targets, (x.IsQuiet names t ↔
      ∃ file evidence, x.check names t = .ok (.alreadyApplied file evidence)) := by
    intro x hx
    obtain ⟨k, m, hs⟩ := hpatchable x.site (hsites ▸ List.mem_map_of_mem hx)
    exact Target.isQuiet_iff_check hs
  constructor
  · rintro ⟨⟨results, hresults, -, hall⟩, -⟩ x hx
    obtain rfl := Except.ok.inj (hcheck.symm.trans hresults)
    exact (hquiet x hx).mpr (hall _ (List.mem_map_of_mem hx))
  · intro h
    refine ⟨⟨_, hcheck, ?_, ?_⟩, fun dryRun => ?_⟩
    · rw [← hsites, List.map_map, List.map_map]
      rfl
    · intro result hresult
      obtain ⟨x, hx, rfl⟩ := List.mem_map.mp hresult
      exact (hquiet x hx).mp (h x hx)
    · obtain ⟨r, hr, hchanged, -⟩ := Target.applyAll_of_isQuiet h dryRun
      exact ⟨r, by rw [Registry.apply, htargets]; exact hr, hchanged⟩

/-- The targets of a run can be patched one after the other. -/
theorem ready_of_targets (htargets : registry.targets t root = .ok targets)
    (hpatchable : ∀ s ∈ registry.sites, ∃ k m, s.Patchable k m)
    (hspares : registry.sites.Pairwise Site.Spares) : Target.AreReady targets t := by
  refine ⟨isReady_of_targets htargets hpatchable, ?_⟩
  obtain ⟨hsites, -⟩ := spec_of_targets htargets
  rw [← hsites] at hspares
  exact List.pairwise_map.mp hspares

/-- **After a run, nothing is left to do** for its names or for fewer, unless it ran for some name
and a site of it found both a delivered and a patched region. -/
theorem isSettled_iff_of_apply (hpatchable : ∀ s ∈ registry.sites, ∃ k m, s.Patchable k m)
    (hspares : registry.sites.Pairwise Site.Spares)
    (hids : ∀ s ∈ registry.sites, registry.get? s.id = some s)
    (hrun : registry.apply root names false t = (t', .ok r))
    (hfewer : ∀ n ∈ fewer.toList, n ∈ names.toList) :
    registry.IsSettled root fewer t' ↔ names.isEmpty = true ∨ ¬ r.HeldBoth registry := by
  unfold apply at hrun
  rcases htargets : registry.targets t root with err | targets
  · simp [htargets] at hrun
  simp only [htargets] at hrun
  have hready := ready_of_targets htargets hpatchable hspares
  by_cases hnames : names.isEmpty = true
  · obtain ⟨rfl, hquiet⟩ := Target.isQuiet_of_applyAll hready hnames hrun
    -- a set with no more names than the empty one is the empty one
    have hnone : names.toList = [] := by
      rw [NameSet.toList, List.map_eq_nil_iff]
      exact List.isEmpty_iff.mp hnames
    have hsame : fewer = names := by
      refine NameSet.ext_toList (hnone ▸ List.eq_nil_iff_forall_not_mem.mpr fun n hn => ?_)
      have hn' := hfewer n hn
      rw [hnone] at hn'
      exact List.not_mem_nil hn'
    rw [hsame, isSettled_iff_isQuiet htargets hpatchable]
    exact iff_of_true hquiet (.inl hnames)
  · obtain ⟨halike, hall⟩ := Target.left_of_applyAll hready (by simpa using hnames) hrun
    obtain ⟨hsites, -⟩ := spec_of_targets htargets
    have hfound : ∀ x ∈ targets, registry.get? x.site.id = some x.site :=
      fun x hx => hids x.site (hsites ▸ List.mem_map_of_mem hx)
    -- the second run has the targets of the first
    rw [isSettled_iff_isQuiet ((targets_eq halike registry root).trans htargets) hpatchable,
      or_iff_right hnames, RunReport.HeldBoth]
    simp only [Target.forall_isQuiet_iff (fun x hx => (hready.ready x hx).patchable) hfewer hfound
      hall, not_exists, not_and]

end Registry

/-! ## Luau -/

namespace Luau

/-- A site of the library is found in its registry by its id. -/
theorem get?_luau {s : Site} (hs : s ∈ sites) : Registry.luau.get? s.id = some s := by
  simp only [sites, List.mem_cons, List.not_mem_nil, or_false] at hs
  rcases hs with rfl | rfl | rfl | rfl <;> rfl

/-- **After a run over Luau's Analysis library, nothing is left to do** for the names of the run or
for fewer, whatever its files held, unless it ran for some name and a site of it found both a
delivered and a patched region. -/
theorem isSettled_iff {root : Text} {names fewer : NameSet} {t t' : FileTree} {r : RunReport}
    (hrun : Registry.luau.apply root names false t = (t', .ok r))
    (hfewer : ∀ n ∈ fewer.toList, n ∈ names.toList) :
    Registry.luau.IsSettled root fewer t' ↔
      names.isEmpty = true ∨ ¬ r.HeldBoth Registry.luau :=
  Registry.isSettled_iff_of_apply (fun _ hs => exists_patchable hs) pairwise_spares
    (fun _ hs => get?_luau hs) hrun hfewer

/-- A delivered guard of a matcher. -/
def deliveredMatcher : Text :=
  "    if (!funcAsGlobal || funcAsGlobal->name != require)\n"
    ++ "        return std::nullopt;\n"

/-- A delivered answer of the linter, and below it a patched one. -/
def mixedAnswers : Text :=
  "    return glob->name == \"require\";\n"
    ++ "    return glob->name == \"require\" || glob->name == \"shared\";\n"

/-- A checkout as it was delivered, but for the linter's answer, which stands there patched, too. -/
def mixedCheckout : FileTree where
  entries :=
    [(["luau"], .directory ⟨FileTree.directoryMode, 0⟩),
      (["luau", "Analysis"], .directory ⟨FileTree.directoryMode, 0⟩),
      (["luau", "Analysis", "src"], .directory ⟨FileTree.directoryMode, 0⟩),
      (analysisFile "RequireTracer.cpp", .file ⟨⟨0o644, 0⟩, Utf8.encode deliveredGuard⟩),
      (analysisFile "ConstraintGenerator.cpp", .file ⟨⟨0o644, 0⟩, Utf8.encode deliveredMatcher⟩),
      (analysisFile "TypeInfer.cpp", .file ⟨⟨0o644, 0⟩, Utf8.encode deliveredMatcher⟩),
      (analysisFile "Linter.cpp", .file ⟨⟨0o644, 0⟩, Utf8.encode mixedAnswers⟩)]
  clock := 0

/-- The targets of a run over the checkout. -/
def checkoutTargets : List Target :=
  [⟨tracer, analysisFile "RequireTracer.cpp"⟩,
    ⟨constraintGenerator, analysisFile "ConstraintGenerator.cpp"⟩,
    ⟨typeInfer, analysisFile "TypeInfer.cpp"⟩, ⟨linter, analysisFile "Linter.cpp"⟩]

/-- In the mixed checkout, every site has its target. -/
theorem targets_mixedCheckout :
    Registry.luau.targets mixedCheckout "/luau" = .ok checkoutTargets := rfl

/-- In the mixed checkout, there is a plan for every target. -/
theorem exists_plan_mixedCheckout : ∀ x ∈ checkoutTargets, ∃ c p,
    mixedCheckout.readText x.file = .ok c ∧ x.site.plan loadOnly x.file c = .ok p := by
  have hplan : ∀ {x : Target} (c : Text),
      mixedCheckout.readFrom [] x.file = .ok (Utf8.encode c) →
      (x.site.plan loadOnly x.file c).isOk = true →
      ∃ c p, mixedCheckout.readText x.file = .ok c ∧ x.site.plan loadOnly x.file c = .ok p := by
    intro x c hread hok
    cases hp : x.site.plan loadOnly x.file c with
    | error e =>
      rw [hp] at hok
      cases hok
    | ok p => exact ⟨c, p, FileTree.readText_of_readFrom hread, hp⟩
  simp only [checkoutTargets, List.forall_mem_cons]
  exact ⟨hplan deliveredGuard rfl (by decide +kernel), hplan deliveredMatcher rfl (by decide +kernel),
    hplan deliveredMatcher rfl (by decide +kernel), hplan mixedAnswers rfl (by decide +kernel),
    by simp⟩

/-- A run over the checkout succeeds, and leaves a checkout in which something is left to do. -/
theorem not_isSettled_mixedCheckout :
    ∃ t' r, Registry.luau.apply "/luau" loadOnly false mixedCheckout = (t', .ok r) ∧
      ¬ Registry.luau.IsSettled "/luau" loadOnly t' := by
  have hready := Registry.ready_of_targets targets_mixedCheckout (fun _ hs => exists_patchable hs)
    pairwise_spares
  have hdistinct : checkoutTargets.Pairwise fun x y => x.location ≠ y.location :=
    List.pairwise_map.mp (show (checkoutTargets.map Target.location).Nodup by decide)
  obtain ⟨t', r, happly, hall⟩ := Target.exists_applyAll hready hdistinct
    (List.all_eq_true.mp (by decide)) exists_plan_mixedCheckout
  have hrun : Registry.luau.apply "/luau" loadOnly false mixedCheckout = (t', .ok r) := by
    rw [Registry.apply, targets_mixedCheckout]
    exact happly
  refine ⟨t', r, hrun, fun hsettled => ?_⟩
  -- the linter's target is the last one
  have hlast : 3 < r.sites.length := hall.length_eq ▸ (by decide : 3 < checkoutTargets.length)
  obtain ⟨hid, hread⟩ := hall.get (by decide) hlast
  have hmixed : mixedCheckout.readText (analysisFile "Linter.cpp").path = .ok mixedAnswers :=
    FileTree.readText_of_readFrom rfl
  have hbefore := Except.ok.inj (hmixed.symm.trans hread)
  rcases (isSettled_iff hrun fun _ hn => hn).mp hsettled with hnames | hnot
  · exact absurd hnames (by decide)
  · refine hnot ⟨_, List.get_mem _ _, linter, hid ▸ get?_luau (by decide), ?_⟩
    rw [← hbefore]
    decide +kernel

end Luau

end SitePatch
