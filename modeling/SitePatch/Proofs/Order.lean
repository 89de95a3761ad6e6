import SitePatch.Proofs.Resume

/-! # The order of the sites

A step of a run reads one file and replaces one file, its target's own. Where the files of a run are
distinct, a step therefore comes to what it would have come to in the tree before the run
(`Target.agreeAt_apply_of_ne`), and a run to what its steps come to, each on its own
(`Target.applyAll_of_steps`). In that description no order is left. Nothing is asked of the sites
here. Main statement: a run that succeeds does so in every order of its sites, with the same files
and the same reports (`Registry.apply_of_perm`). -/

namespace SitePatch

/-! ## Agreement at a location -/

/-- **Two outcomes agree at a location**: the same has come of both, and both trees show the same
there. -/
def AgreeAt {α : Type} (l : Location) (outcome outcome' : FileTree × α) : Prop :=
  outcome'.1.shown? l = outcome.1.shown? l ∧ outcome'.2 = outcome.2

/-- Outcomes that agree have come to the same, in trees that show the same at the location. -/
theorem AgreeAt.exists_eq {α : Type} {l : Location} {outcome outcome' : FileTree × α}
    (h : AgreeAt l outcome outcome') :
    ∃ t t' a, outcome = (t, a) ∧ outcome' = (t', a) ∧ t'.shown? l = t.shown? l :=
  ⟨outcome.1, outcome'.1, outcome.2, rfl, Prod.ext rfl h.2, h.1⟩

namespace FileTree

variable {t t' : FileTree} {l : Location} {path : Text}

/-- A path leads to files of one mode in trees that are walked alike, or to none. -/
theorem Alike.fileAt_cases (h : t.Alike t') (path : Text) :
    (∃ cause, t.fileAt path = .error cause ∧ t'.fileAt path = .error cause) ∨
      ∃ f f', t.fileAt path = .ok f ∧ t'.fileAt path = .ok f' ∧ f'.mode = f.mode := by
  unfold fileAt
  rw [h.resolve_eq]
  cases t.resolve path with
  | error cause => exact .inl ⟨cause, rfl, rfl⟩
  | ok l =>
    have hl := h l
    unfold fileIn
    dsimp only
    generalize t.get? l = e at hl ⊢
    generalize t'.get? l = e' at hl ⊢
    cases hl with
    | none => exact .inl ⟨_, rfl, rfl⟩
    | directory => exact .inl ⟨_, rfl, rfl⟩
    | file hmode => exact .inr ⟨_, _, rfl, rfl, hmode⟩
    | link => exact .inl ⟨_, rfl, rfl⟩

/-- The file that has been put at a location is shown there. -/
theorem shown?_writeAt_touch (t : FileTree) (hl : l ≠ []) (d : Location) (content : ByteArray)
    (mode : Nat) :
    ((t.touch d).writeAt l content mode).shown? l = some (.file ⟨⟨mode, 0⟩, content⟩) :=
  shown?_of_file (get?_writeAt_touch_self t d content mode hl)

/-- Files are replaced alike in trees that are walked alike. -/
theorem Alike.replaceFile_cases (halike : t.Alike t') (h : t.Reaches l) (hl : l ≠ [])
    (content : ByteArray) :
    (∃ cause, t.replaceFile l.path content = .error cause ∧
        t'.replaceFile l.path content = .error cause) ∨
      ∃ u u', t.replaceFile l.path content = .ok u ∧ t'.replaceFile l.path content = .ok u' ∧
        u'.shown? l = u.shown? l := by
  have h' := halike.reaches h
  rcases halike.fileAt_cases l.path with ⟨cause, hfile, hfile'⟩ | ⟨f, f', hfile, hfile', hmode⟩
  · refine .inl ⟨cause, ?_, ?_⟩
    · simp only [replaceFile, h.slot_path hl, hfile]
    · simp only [replaceFile, h'.slot_path hl, hfile']
  · have hopen' := halike.isOpenAt_eq l.dropLast
    by_cases hopen : t.isOpenAt l.dropLast = true
    · refine .inr ⟨_, _, (replaceFile_path_eq_ok_iff h hl).mpr ⟨f, hfile, hopen, rfl⟩,
        (replaceFile_path_eq_ok_iff h' hl).mpr ⟨f', hfile', hopen'.trans hopen, rfl⟩, ?_⟩
      rw [shown?_writeAt_touch t hl, shown?_writeAt_touch t' hl, hmode]
    · rw [Bool.not_eq_true] at hopen
      exact .inl ⟨.permissionDenied, replaceFile_path_of_not_isOpenAt h hl hfile hopen,
        replaceFile_path_of_not_isOpenAt h' hl hfile' (hopen'.trans hopen)⟩

end FileTree

/-- **An edit depends on what its file shows only**, and on where paths lead. -/
theorem Edit.agreeAt_applyIn {e : Edit} {t t' : FileTree} {l : Location} (h : t.Reaches l)
    (hl : l ≠ []) (hfile : e.file = l.path) (halike : t.Alike t')
    (hshown : t'.shown? l = t.shown? l) : AgreeAt l (e.applyIn t) (e.applyIn t') := by
  have hread := FileTree.read_congr halike h hl (FileTree.readIn_of_shown?_eq hshown)
  rw [← hfile] at hread
  unfold applyIn
  rw [hread]
  rcases t.read e.file with cause | bytes
  · exact ⟨hshown, rfl⟩
  dsimp only
  rcases Utf8.decode bytes with fault | content
  · exact ⟨hshown, rfl⟩
  dsimp only
  rcases e.verify content with err | cut
  · exact ⟨hshown, rfl⟩
  dsimp only
  by_cases hsame : cut.stretch = e.newText
  · rw [if_pos hsame, if_pos hsame]
    exact ⟨hshown, rfl⟩
  rw [if_neg hsame, if_neg hsame, hfile]
  rcases halike.replaceFile_cases h hl (Utf8.encode (cut.before ++ e.newText ++ cut.after)) with
    ⟨cause, hfails, hfails'⟩ | ⟨u, u', hdone, hdone', hnew⟩
  · rw [hfails, hfails']
    exact ⟨hshown, rfl⟩
  · rw [hdone, hdone']
    exact ⟨hnew, rfl⟩

namespace Target

variable {x y : Target} {names : NameSet} {dryRun : Bool} {t t' t₁ : FileTree} {r : RunReport}
  {targets : List Target}

/-! ## One step -/

/-- **The target's file is reached** without links. -/
structure IsReached (x : Target) (t : FileTree) : Prop where
  reaches : t.Reaches x.location
  ne_nil : x.location ≠ []

/-- A target is reached in trees that are alike. -/
theorem IsReached.of_alike (h : x.IsReached t) (halike : t.Alike t') : x.IsReached t' :=
  ⟨halike.reaches h.reaches, h.ne_nil⟩

/-- A step moves no file, and leaves what other locations show. -/
theorem IsReached.kept_apply (h : x.IsReached t) (names : NameSet) (dryRun : Bool) :
    t.Alike (x.apply names dryRun t).1 ∧
      ∀ k, k ≠ x.location → (x.apply names dryRun t).1.shown? k = t.shown? k := by
  have hbelow : x.IsBelow x.location.dropLast t := by
    refine ⟨h.reaches, List.dropLast_prefix _, fun hsame => ?_⟩
    have hlength := congrArg List.length hsame
    have hpos := List.length_pos_of_ne_nil h.ne_nil
    rw [List.length_dropLast] at hlength
    omega
  refine ⟨(confined_apply hbelow names dryRun).alike, fun k hk => ?_⟩
  rcases fst_apply x names dryRun t with hsame | ⟨edit, hfile, hstep⟩
  · rw [hsame]
  · rw [hstep]
    rcases Edit.applyIn_cases h.reaches h.ne_nil hfile with hsame | ⟨f, content, -, hwritten⟩
    · rw [hsame]
    · rw [hwritten]
      exact (FileTree.kept_writeAt_touch x.location.dropLast hk).map_undated

/-- **A step depends on what its target shows only**, and on where paths lead. -/
theorem IsReached.agreeAt_apply (h : x.IsReached t) (halike : t.Alike t')
    (hshown : t'.shown? x.location = t.shown? x.location) (names : NameSet) (dryRun : Bool) :
    AgreeAt x.location (x.apply names dryRun t) (x.apply names dryRun t') := by
  have hplan : x.plan names t' = x.plan names t := by
    rw [plan, plan, file, FileTree.readText_congr halike h.reaches h.ne_nil
      (FileTree.readIn_of_shown?_eq hshown)]
  rcases hfound : x.plan names t with e | ⟨c, p⟩
  · rw [apply_of_plan_eq_error hfound, apply_of_plan_eq_error (hplan.trans hfound)]
    exact ⟨hshown, rfl⟩
  obtain ⟨-, hsite⟩ := plan_eq_ok_iff.mp hfound
  obtain ⟨c', hafter⟩ := Site.exists_applyTo hsite
  have hwrite : AgreeAt x.location (write p dryRun t) (write p dryRun t') := by
    unfold write
    rcases hedit : p.edit with _ | edit
    · exact ⟨hshown, rfl⟩
    cases dryRun with
    | true => exact ⟨hshown, rfl⟩
    | false =>
      obtain ⟨u, u', outcome, hin, hin', hnew⟩ := (Edit.agreeAt_applyIn h.reaches h.ne_nil
        (Site.file_of_plan hsite hedit) halike hshown).exists_eq
      simp only [Bool.false_eq_true, if_false, hin, hin']
      rcases outcome with err | bytes | _ <;> exact ⟨hnew, rfl⟩
  unfold apply
  rw [hplan, hfound]
  obtain ⟨u, u', outcome, hin, hin', hnew⟩ := hwrite.exists_eq
  simp only [hafter, hin, hin']
  rcases outcome with err | n <;> exact ⟨hnew, rfl⟩

/-- **A step at another file makes no difference** to a step. -/
theorem IsReached.agreeAt_apply_of_ne (hx : x.IsReached t) (hy : y.IsReached t)
    (hne : y.location ≠ x.location) (names : NameSet) (dryRun : Bool) :
    AgreeAt y.location (y.apply names dryRun t)
      (y.apply names dryRun (x.apply names dryRun t).1) := by
  obtain ⟨halike, hkept⟩ := hx.kept_apply names dryRun
  exact hy.agreeAt_apply halike (hkept _ hne) names dryRun

/-! ## Runs -/

/-- **The tree shows what single steps leave**: at each target, what a step there alone leaves of
the tree `t`, and elsewhere what `t` shows. -/
structure ShowsSteps (names : NameSet) (dryRun : Bool) (targets : List Target) (t t' : FileTree) :
    Prop where
  step : ∀ x ∈ targets, t'.shown? x.location = (x.apply names dryRun t).1.shown? x.location
  other : ∀ k, k ∉ targets.map location → t'.shown? k = t.shown? k

/-- Trees that show what the same steps leave show the same. -/
theorem ShowsSteps.sameShown {targets' : List Target} (h : ShowsSteps names dryRun targets t t₁)
    (h' : ShowsSteps names dryRun targets' t t') (hperm : targets'.Perm targets) :
    t₁.SameShown t' := by
  intro k
  by_cases hk : k ∈ targets.map location
  · obtain ⟨x, hx, rfl⟩ := List.mem_map.mp hk
    exact (h'.step x (hperm.mem_iff.mpr hx)).trans (h.step x hx).symm
  · have hk' : k ∉ targets'.map location := fun hk' => hk ((hperm.map location).mem_iff.mp hk')
    exact (h'.other k hk').trans (h.other k hk).symm

/-- **Behind the first step of a run over distinct files**, the other targets are reached as before,
and their steps come to the same. -/
theorem agreeAt_of_cons (hreached : ∀ y ∈ x :: targets, y.IsReached t)
    (hdistinct : ((x :: targets).map location).Nodup) (names : NameSet) (dryRun : Bool) :
    ∀ y ∈ targets, y.IsReached (x.apply names dryRun t).1 ∧
      AgreeAt y.location (y.apply names dryRun t)
        (y.apply names dryRun (x.apply names dryRun t).1) := by
  intro y hy
  have hx := hreached x List.mem_cons_self
  have hy' := hreached y (List.mem_cons_of_mem _ hy)
  have hne : y.location ≠ x.location := (ne_location_of_nodup hdistinct).1 y hy
  exact ⟨hy'.of_alike (hx.kept_apply names dryRun).1, hx.agreeAt_apply_of_ne hy' hne names dryRun⟩

section Distinct

variable (hreached : ∀ x ∈ targets, x.IsReached t) (hdistinct : (targets.map location).Nodup)

include hreached hdistinct

/-- The steps of a run that succeeds succeed on their own. -/
theorem exists_step_of_applyAll (h : applyAll names dryRun targets t = (t', .ok r)) :
    ∀ x ∈ targets, ∃ step, (x.apply names dryRun t).2 = .ok step := by
  induction targets generalizing t r with
  | nil => simp
  | cons x targets ih =>
    obtain ⟨t₁, e, n, r₁, hstep, hrest, -⟩ := exists_of_applyAll h
    have hbehind := agreeAt_of_cons hreached hdistinct names dryRun
    rw [hstep] at hbehind
    refine List.forall_mem_cons.mpr ⟨⟨(e, n), by rw [hstep]⟩, fun y hy => ?_⟩
    obtain ⟨step, hy₁⟩ :=
      ih (fun y hy => (hbehind y hy).1) (List.nodup_cons.mp hdistinct).2 hrest y hy
    exact ⟨step, (hbehind y hy).2.2.symm.trans hy₁⟩

/-- **A run comes to what its steps come to**, each of them on its own. -/
theorem applyAll_of_steps {step : Target → SiteReport × Nat}
    (h : ∀ x ∈ targets, (x.apply names dryRun t).2 = .ok (step x)) :
    ∃ t', applyAll names dryRun targets t = (t', .ok ⟨targets.map fun x => (step x).1,
        (targets.map fun x => (step x).2).sum⟩) ∧ ShowsSteps names dryRun targets t t' := by
  induction targets generalizing t with
  | nil => exact ⟨t, rfl, by simp, fun _ _ => rfl⟩
  | cons x targets ih =>
    obtain ⟨hfirst, hrest⟩ := List.forall_mem_cons.mp h
    have hbehind := agreeAt_of_cons hreached hdistinct names dryRun
    obtain ⟨-, hkept⟩ := (hreached x List.mem_cons_self).kept_apply names dryRun
    obtain ⟨hne, hdistinct⟩ := List.nodup_cons.mp hdistinct
    obtain ⟨t', hrun, hshows⟩ := ih (fun y hy => (hbehind y hy).1) hdistinct
      fun y hy => (hbehind y hy).2.2.trans (hrest y hy)
    refine ⟨t', ?_, List.forall_mem_cons.mpr ⟨hshows.other _ hne, fun y hy => ?_⟩, fun k hk => ?_⟩
    · rw [applyAll_cons_of_ok (Prod.ext rfl hfirst), hrun]
      rfl
    · exact (hshows.step y hy).trans (hbehind y hy).2.1
    · rw [List.map_cons, List.mem_cons, not_or] at hk
      exact (hshows.other k hk.2).trans (hkept k hk.1)

end Distinct

end Target

/-! ## Sites in another order -/

/-- Sites have targets if their files are located. -/
theorem Root.targets_eq_ok_iff {r : Root} {t : FileTree} {sites : List Site} {targets : List Target} :
    r.targets t sites = .ok targets ↔
      targets.map Target.site = sites ∧ ∀ x ∈ targets, r.locate t x.site.path = .ok x.location := by
  induction sites generalizing targets with
  | nil =>
    rw [Root.targets, Except.ok.injEq, eq_comm, List.map_eq_nil_iff]
    exact ⟨fun h => ⟨h, by simp [h]⟩, And.left⟩
  | cons s sites ih =>
    unfold Root.targets
    constructor
    · intro h
      rcases hlocate : r.locate t s.path with e | l
      · simp [hlocate] at h
      rcases hrest : r.targets t sites with e | rest
      · simp [hlocate, hrest] at h
      simp only [hlocate, hrest, Except.ok.injEq] at h
      subst h
      obtain ⟨hsites, hall⟩ := ih.mp hrest
      exact ⟨by rw [List.map_cons, hsites], List.forall_mem_cons.mpr ⟨hlocate, hall⟩⟩
    · rintro ⟨hsites, hall⟩
      rcases targets with _ | ⟨x, rest⟩
      · simp at hsites
      rw [List.map_cons, List.cons.injEq] at hsites
      obtain ⟨rfl, hsites⟩ := hsites
      obtain ⟨hlocate, hall⟩ := List.forall_mem_cons.mp hall
      simp only [hlocate, ih.mpr ⟨hsites, hall⟩]

namespace Registry

variable {registry registry' : Registry} {root : Text} {names : NameSet} {dryRun : Bool}
  {t t' : FileTree} {targets : List Target} {r : RunReport}

/-- In another order, the sites have the same targets in that order. -/
theorem exists_targets_of_perm (htargets : registry.targets t root = .ok targets)
    (hperm : registry'.sites.Perm registry.sites) :
    ∃ target : Site → Target, targets = registry.sites.map target ∧
      registry'.targets t root = .ok (registry'.sites.map target) := by
  rcases hroot : Root.ofPath t root with e | r
  · simp [Registry.targets, hroot] at htargets
  simp only [Registry.targets, hroot] at htargets ⊢
  obtain ⟨hsites, hall⟩ := Root.targets_eq_ok_iff.mp htargets
  have hlocated : ∀ s ∈ registry.sites, ∃ l, r.locate t s.path = .ok l := by
    rw [← hsites]
    intro s hs
    obtain ⟨x, hx, rfl⟩ := List.mem_map.mp hs
    exact ⟨_, hall x hx⟩
  choose! location hlocation using hlocated
  have htarget : ∀ sites : List Site, (∀ s ∈ sites, s ∈ registry.sites) →
      r.targets t sites = .ok (sites.map fun s => ⟨s, location s⟩) := by
    intro sites hmem
    refine Root.targets_eq_ok_iff.mpr ⟨by simp [Function.comp_def], fun x hx => ?_⟩
    obtain ⟨s, hs, rfl⟩ := List.mem_map.mp hx
    exact hlocation s (hmem s hs)
  refine ⟨fun s => ⟨s, location s⟩, ?_, htarget _ fun s hs => hperm.mem_iff.mp hs⟩
  exact Except.ok.inj (htargets.symm.trans (htarget _ fun _ hs => hs))

/-- **The order of the sites does not matter.** If a run, real or on paper, whose targets are
distinct files succeeds, the sites are a registry in every other order, too, and its run succeeds:
the trees show the same afterwards, as many files are changed, and every site has the same report.
-/
theorem apply_of_perm {sites : List Site} (htargets : registry.targets t root = .ok targets)
    (hdistinct : (targets.map Target.location).Nodup) (hperm : sites.Perm registry.sites)
    (hrun : registry.apply root names dryRun t = (t', .ok r)) :
    ∃ (registry' : Registry) (t'' : FileTree) (r' : RunReport) (report : Site → SiteReport),
      ofSites sites = .ok registry' ∧ registry'.apply root names dryRun t = (t'', .ok r') ∧
        t'.SameShown t'' ∧ r'.changed = r.changed ∧ r.sites = registry.sites.map report ∧
          r'.sites = sites.map report := by
  have hnodup : (sites.map Site.path).Nodup :=
    (hperm.map Site.path).nodup_iff.mpr registry.nodup_paths
  let registry' : Registry := ⟨sites, hnodup⟩
  have hperm' : registry'.sites.Perm registry.sites := hperm
  obtain ⟨target, rfl, htargets'⟩ := exists_targets_of_perm htargets hperm'
  have hall : ∀ x ∈ registry.sites.map target, x.IsReached t := fun x hx =>
    ⟨((spec_of_targets htargets).2 x hx).1, ((spec_of_targets htargets).2 x hx).2⟩
  have hmap : (sites.map target).Perm (registry.sites.map target) := hperm.map target
  rw [apply_of_targets htargets] at hrun
  have hsteps := Target.exists_step_of_applyAll hall hdistinct hrun
  have : Nonempty (SiteReport × Nat) := ⟨⟨[], .applied [], [], []⟩, 0⟩
  choose! step hstep using hsteps
  -- both runs come to what the same steps come to
  obtain ⟨u, hu, hshows⟩ := Target.applyAll_of_steps hall hdistinct hstep
  obtain ⟨u', hu', hshows'⟩ := Target.applyAll_of_steps (fun x hx => hall x (hmap.mem_iff.mp hx))
    ((hmap.map Target.location).nodup_iff.mpr hdistinct) fun x hx => hstep x (hmap.mem_iff.mp hx)
  obtain ⟨rfl, hr⟩ := Prod.mk.inj (hrun.symm.trans hu)
  obtain rfl := Except.ok.inj hr
  refine ⟨registry', u', _, fun s => (step (target s)).1, ofSites_eq_ok_iff.mpr ⟨rfl, hnodup⟩,
    (apply_of_targets htargets' names dryRun).trans hu', hshows.sameShown hshows' hmap, ?_, ?_, ?_⟩
  · exact (hmap.map fun x => (step x).2).sum_eq
  · rw [List.map_map]
    rfl
  · rw [List.map_map]
    rfl

end Registry

/-! ## Luau -/

namespace Luau

/-- A run over the mixed checkout succeeds. -/
theorem exists_apply_mixedCheckout :
    ∃ t' r, Registry.luau.apply "/luau" loadOnly false mixedCheckout = (t', .ok r) := by
  have hready := Registry.ready_of_targets targets_mixedCheckout (fun _ hs => exists_patchable hs)
    pairwise_spares
  have hdistinct : checkoutTargets.Pairwise fun x y => x.location ≠ y.location :=
    List.pairwise_map.mp (show (checkoutTargets.map Target.location).Nodup by decide)
  obtain ⟨t', r, hrun, -⟩ := Target.exists_applyAll hready hdistinct
    (List.all_eq_true.mp (by decide)) exists_plan_mixedCheckout
  exact ⟨t', r, (Registry.apply_of_targets targets_mixedCheckout loadOnly false).trans hrun⟩

/-- The sites of Luau's Analysis library in the opposite order, over a checkout. -/
theorem apply_of_perm_mixedCheckout :
    (checkoutTargets.map Target.location).Nodup ∧ sites.reverse.Perm Registry.luau.sites ∧
      ∃ t' r, Registry.luau.apply "/luau" loadOnly false mixedCheckout = (t', .ok r) ∧
        ∃ (registry' : Registry) (t'' : FileTree) (r' : RunReport) (report : Site → SiteReport),
          Registry.ofSites sites.reverse = .ok registry' ∧
            registry'.apply "/luau" loadOnly false mixedCheckout = (t'', .ok r') ∧
              t'.SameShown t'' ∧ r'.changed = r.changed ∧ r.sites = sites.map report ∧
                r'.sites = sites.reverse.map report := by
  have hdistinct : (checkoutTargets.map Target.location).Nodup := by decide
  have hperm : sites.reverse.Perm Registry.luau.sites := List.reverse_perm sites
  obtain ⟨t', r, hrun⟩ := exists_apply_mixedCheckout
  exact ⟨hdistinct, hperm, t', r, hrun,
    Registry.apply_of_perm targets_mixedCheckout hdistinct hperm hrun⟩

end Luau

end SitePatch
