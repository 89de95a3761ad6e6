import SitePatch.Run
import SitePatch.Proofs.FileTree
import SitePatch.Proofs.Settled

/-! # What patching a target does

A target is a site with the location of its file. Locations are found once, before the first step,
and no step moves them (`Registry.targets_eq`). Main statement: a step at a target puts the text
that its plan makes of the file's text into the file, and leaves every other file as it is
(`Target.exists_patches_of_apply`). -/

namespace SitePatch

/-! ## Targets in trees that are walked alike -/

section Alike

variable {t t' : FileTree} (h : t.Alike t')

include h

/-- In trees that are alike, a path has the same root. -/
theorem Root.ofPath_eq (path : Text) : Root.ofPath t' path = Root.ofPath t path := by
  unfold Root.ofPath
  rw [h.isDirectory_eq, h.canonicalize_eq]

/-- In trees that are alike, a path leads to the same file below a root. -/
theorem Root.locate_eq (r : Root) (relative : Text) : r.locate t' relative = r.locate t relative := by
  unfold Root.locate
  simp only [h.isFile_eq, h.canonicalize_eq]

/-- In trees that are alike, sites have the same targets below a root. -/
theorem Root.targets_eq (r : Root) (sites : List Site) : r.targets t' sites = r.targets t sites := by
  induction sites with
  | nil => rfl
  | cons s sites ih =>
    unfold Root.targets
    rw [Root.locate_eq h, ih]

/-- **In trees that are alike, a registry has the same targets.** -/
theorem Registry.targets_eq (registry : Registry) (root : Text) :
    registry.targets t' root = registry.targets t root := by
  unfold Registry.targets
  rw [Root.ofPath_eq h]
  cases Root.ofPath t root with
  | error e => rfl
  | ok r => exact Root.targets_eq h r registry.sites

end Alike

/-! ## Targets -/

/-- A file is located where its path leads. -/
theorem Root.resolve_of_locate {r : Root} {t : FileTree} {relative : Text} {l : Location}
    (h : r.locate t relative = .ok l) : t.resolve (Path.join r.path relative) = .ok l :=
  FileTree.resolve_of_canonicalize (Root.locate_eq_ok_iff.mp h).2.1

/-- A file that is located can be reached. -/
theorem Root.reaches_of_locate {r : Root} {t : FileTree} {relative : Text} {l : Location}
    (h : r.locate t relative = .ok l) : t.Reaches l ∧ l ≠ [] := by
  refine ⟨FileTree.Reaches.of_resolve (Root.resolve_of_locate h), ?_⟩
  obtain ⟨⟨f, hf⟩, -⟩ := Root.locate_spec h
  -- the top is no file
  rintro rfl
  simp [FileTree.get?] at hf

/-- The targets of the sites are files that can be reached, one for each site. -/
theorem Root.spec_of_targets {r : Root} {t : FileTree} {sites : List Site} {targets : List Target}
    (h : r.targets t sites = .ok targets) :
    targets.map Target.site = sites ∧ ∀ x ∈ targets, t.Reaches x.location ∧ x.location ≠ [] := by
  induction sites generalizing targets with
  | nil =>
    unfold Root.targets at h
    obtain rfl := Except.ok.inj h
    simp
  | cons s sites ih =>
    unfold Root.targets at h
    cases hlocate : r.locate t s.path with
    | error e => simp [hlocate] at h
    | ok l =>
      cases hrest : r.targets t sites with
      | error e => simp [hlocate, hrest] at h
      | ok rest =>
        simp only [hlocate, hrest, Except.ok.injEq] at h
        subst h
        obtain ⟨hsites, hall⟩ := ih hrest
        refine ⟨by rw [List.map_cons, hsites], ?_⟩
        intro x hx
        rcases List.mem_cons.mp hx with rfl | hx
        · exact Root.reaches_of_locate hlocate
        · exact hall x hx

/-- **The targets of a registry** are its sites in their order, each at a location that is reached
and is not the top. -/
theorem Registry.spec_of_targets {registry : Registry} {t : FileTree} {root : Text}
    {targets : List Target} (h : registry.targets t root = .ok targets) :
    targets.map Target.site = registry.sites ∧
      ∀ x ∈ targets, t.Reaches x.location ∧ x.location ≠ [] := by
  unfold Registry.targets at h
  cases hroot : Root.ofPath t root with
  | error e => simp [hroot] at h
  | ok r =>
    simp only [hroot] at h
    exact Root.spec_of_targets h

/-- What a plan with an edit does is what the edit does. -/
theorem Plan.applyTo_edit {p : Plan} {edit : Edit} {c c' : Text} (hedit : p.edit = some edit)
    (h : p.applyTo c = .ok c') : edit.applyTo c = .ok c' := by
  unfold applyTo at h
  rw [hedit] at h
  cases hresult : edit.applyTo c with
  | error cause => simp [hresult] at h
  | ok result => simpa [hresult] using h

namespace Target

variable {x : Target} {names : NameSet} {t t' : FileTree} {c : Text} {p : Plan} {e : SiteReport}
  {n : Nat} {targets : List Target}

/-! ## One target -/

/-- **A target that can be patched**: its site recognises its own work, and its file is reached. -/
structure IsReady (x : Target) (t : FileTree) : Prop where
  patchable : ∃ k m, x.site.Patchable k m
  reaches : t.Reaches x.location
  ne_nil : x.location ≠ []

/-- A target that can be patched can be in every tree that is alike. -/
theorem IsReady.of_alike (h : x.IsReady t) (halike : t.Alike t') : x.IsReady t' :=
  ⟨h.patchable, halike.reaches h.reaches, h.ne_nil⟩

/-- A target's plan is its site's, for the text of its file. -/
theorem plan_eq_ok_iff :
    x.plan names t = .ok (c, p) ↔
      t.readText x.file = .ok c ∧ x.site.plan names x.file c = .ok p := by
  unfold plan
  constructor
  · intro h
    cases hread : t.readText x.file with
    | error cause => simp [hread] at h
    | ok content =>
      cases hsite : x.site.plan names x.file content with
      | error err => simp [hread, hsite] at h
      | ok p' =>
        simp only [hread, hsite, Except.ok.injEq, Prod.mk.injEq] at h
        obtain ⟨rfl, rfl⟩ := h
        exact ⟨rfl, hsite⟩
  · rintro ⟨hread, hsite⟩
    rw [hread]
    simp only [hsite]

/-- **What patching a target does**, by the plan `p` and with the report `e`. -/
structure Patches (x : Target) (names : NameSet) (p : Plan) (e : SiteReport) (t t' : FileTree) :
    Prop where
  id : e.id = x.site.id
  read : t.readText x.file = .ok e.before
  plan : x.site.plan names x.file e.before = .ok p
  applyTo : p.applyTo e.before = .ok e.after
  written : t'.readText x.file = .ok e.after
  alike : t.Alike t'
  others : ∀ l, l ≠ x.location → t'.readIn l = t.readIn l
  same : p.edit = none → t' = t

/-- **A target that is patched holds the text that its plan makes of the old one**, and every other
file what it held before. -/
theorem exists_patches_of_apply (hx : x.IsReady t)
    (happly : x.apply names false t = (t', .ok (e, n))) : ∃ p, x.Patches names p e t t' := by
  unfold apply at happly
  rcases hplan : x.plan names t with err | ⟨c, p⟩
  · simp [hplan] at happly
  simp only [hplan] at happly
  obtain ⟨hread, hsite⟩ := plan_eq_ok_iff.mp hplan
  cases hafter : p.applyTo c with
  | error err => simp [hafter] at happly
  | ok c' =>
    simp only [hafter] at happly
    unfold write at happly
    cases hedit : p.edit with
    | none =>
      simp only [hedit, Prod.mk.injEq, Except.ok.injEq] at happly
      obtain ⟨rfl, rfl, -⟩ := happly
      have hsame : c' = c := by
        unfold Plan.applyTo at hafter
        simp only [hedit, Except.ok.injEq] at hafter
        exact hafter.symm
      exact ⟨p, rfl, hread, hsite, hafter, hsame ▸ hread, .refl t, fun _ _ => rfl, fun _ => rfl⟩
    | some edit =>
      have hwritten : ∃ outcome, edit.applyIn t = (t', .ok outcome) ∧
          e = ⟨x.site.id, .ofState x.file p.state, c, c'⟩ := by
        simp only [hedit, Bool.false_eq_true, if_false] at happly
        rcases hin : edit.applyIn t with ⟨t₁, cause | bytes | _⟩
        · simp [hin] at happly
        · simp only [hin, Prod.mk.injEq, Except.ok.injEq] at happly
          obtain ⟨rfl, rfl, -⟩ := happly
          exact ⟨_, rfl, rfl⟩
        · simp only [hin, Prod.mk.injEq, Except.ok.injEq] at happly
          obtain ⟨rfl, rfl, -⟩ := happly
          exact ⟨_, rfl, rfl⟩
      obtain ⟨outcome, hin, rfl⟩ := hwritten
      obtain ⟨halike, hnew, hothers⟩ := Edit.spec_of_applyIn hx.reaches hx.ne_nil
        (Site.file_of_plan hsite hedit) hread (Plan.applyTo_edit hedit hafter) hin
      refine ⟨p, rfl, hread, hsite, hafter, hnew, halike, hothers, fun h => ?_⟩
      rw [hedit] at h
      simp at h

/-- A target is patched if there is a plan for its text, and its directory is open. -/
theorem exists_apply (hx : x.IsReady t) (hread : t.readText x.file = .ok c)
    (hplan : x.site.plan names x.file c = .ok p) (hopen : t.isOpenAt x.location.dropLast = true) :
    ∃ t' e n, x.apply names false t = (t', .ok (e, n)) := by
  obtain ⟨c', hafter⟩ := Site.exists_applyTo hplan
  have hfound : x.plan names t = .ok (c, p) := plan_eq_ok_iff.mpr ⟨hread, hplan⟩
  have hwritten : ∃ t' n, write p false t = (t', .ok n) := by
    unfold write
    cases hedit : p.edit with
    | none => exact ⟨t, 0, rfl⟩
    | some edit =>
      obtain ⟨t', outcome, hin⟩ := Edit.exists_applyIn hx.reaches hx.ne_nil
        (Site.file_of_plan hplan hedit) hread (Plan.applyTo_edit hedit hafter) hopen
      cases outcome with
      | applied bytes => exact ⟨t', 1, by simp [hin]⟩
      | alreadyApplied => exact ⟨t', 0, by simp [hin]⟩
  obtain ⟨t', n, hwritten⟩ := hwritten
  refine ⟨t', ⟨x.site.id, .ofState x.file p.state, c, c'⟩, n, ?_⟩
  unfold apply
  simp only [hfound, hafter, hwritten]

/-! ## Targets, one after the other -/

/-- Behind the first of distinct files, the others are other files. -/
theorem ne_location_of_nodup (h : ((x :: targets).map Target.location).Nodup) :
    (∀ y ∈ targets, y.location ≠ x.location) ∧ (targets.map Target.location).Nodup := by
  rw [List.map_cons, List.nodup_cons] at h
  exact ⟨fun y hy hsame => h.1 (hsame ▸ List.mem_map_of_mem hy), h.2⟩

/-- The report on a run, with one more site in front. -/
def addReport (first : SiteReport) (n : Nat) (r : RunReport) : RunReport :=
  ⟨first :: r.sites, n + r.changed⟩

/-- A run ends at a step that fails. -/
theorem applyAll_cons_of_error {dryRun : Bool} {err : PatchError}
    (h : x.apply names dryRun t = (t', .error err)) :
    applyAll names dryRun (x :: targets) t = (t', .error err) := by
  rw [applyAll, h]

/-- Behind a step, a run goes on in the tree that the step leaves. -/
theorem applyAll_cons_of_ok {dryRun : Bool} {first : SiteReport}
    (h : x.apply names dryRun t = (t', .ok (first, n))) :
    applyAll names dryRun (x :: targets) t = ((applyAll names dryRun targets t').1,
      (applyAll names dryRun targets t').2.map (addReport first n)) := by
  rw [applyAll, h]
  dsimp only
  rcases applyAll names dryRun targets t' with ⟨t'', err | r⟩ <;> rfl

/-- A run over one target reports what its step reports. -/
theorem applyAll_singleton {dryRun : Bool} {first : SiteReport}
    (h : x.apply names dryRun t = (t', .ok (first, n))) :
    applyAll names dryRun [x] t = (t', .ok ⟨[first], n⟩) := by
  rw [applyAll_cons_of_ok h]
  rfl

/-- A run over targets patches the first, and then the others. -/
theorem exists_of_applyAll {dryRun : Bool} {r : RunReport}
    (h : applyAll names dryRun (x :: targets) t = (t', .ok r)) :
    ∃ t₁ e n r₁, x.apply names dryRun t = (t₁, .ok (e, n)) ∧
      applyAll names dryRun targets t₁ = (t', .ok r₁) ∧ r = addReport e n r₁ := by
  rcases hstep : x.apply names dryRun t with ⟨t₁, err | ⟨e, n⟩⟩
  · rw [applyAll_cons_of_error hstep] at h
    simp at h
  · rw [applyAll_cons_of_ok hstep] at h
    rcases hrest : applyAll names dryRun targets t₁ with ⟨t₂, err | r₁⟩
    · rw [hrest] at h
      simp [Except.map] at h
    · simp only [hrest, Except.map, Prod.mk.injEq, Except.ok.injEq] at h
      obtain ⟨rfl, rfl⟩ := h
      exact ⟨t₁, e, n, r₁, rfl, hrest, rfl⟩

end Target

namespace Registry

variable {registry : Registry} {root : Text} {t : FileTree} {targets : List Target}

/-- The targets of sites that recognise their own work can be patched. -/
theorem isReady_of_targets (htargets : registry.targets t root = .ok targets)
    (hpatchable : ∀ s ∈ registry.sites, ∃ k m, s.Patchable k m) : ∀ x ∈ targets, x.IsReady t := by
  obtain ⟨hsites, hreaches⟩ := spec_of_targets htargets
  intro x hx
  obtain ⟨hreach, hne⟩ := hreaches x hx
  exact ⟨hpatchable x.site (hsites ▸ List.mem_map_of_mem hx), hreach, hne⟩

/-- A run with targets is a run over them. -/
theorem apply_of_targets (htargets : registry.targets t root = .ok targets) (names : NameSet)
    (dryRun : Bool) :
    registry.apply root names dryRun t = Target.applyAll names dryRun targets t := by
  rw [apply, htargets]

/-- A run without targets fails, and changes nothing. -/
theorem apply_of_targets_eq_error {e : PatchError} (htargets : registry.targets t root = .error e)
    (names : NameSet) (dryRun : Bool) : registry.apply root names dryRun t = (t, .error e) := by
  rw [apply, htargets]

end Registry

end SitePatch
