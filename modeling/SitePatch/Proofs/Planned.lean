import SitePatch.Proofs.Agreement
import SitePatch.Proofs.Order

/-! # Edits apply where they were planned

The edit of a plan replaces a stretch of the text that the plan was made for, and expects what stands
there: the stretch itself if it is short, else its digest (`Edit.Suits`). So it applies, and patching
a text never fails in its edit. A run reads a file again before it edits it, and finds the text that
it has planned on: a step can only fail in its edit because the tree does not let the file be
replaced (`Target.IsReached.closed_of_apply`). Main statement: all this holds of every site, whatever
its shapes are (`Registry.suits_of_plan`). -/

namespace SitePatch

/-! ## Edits and the texts they were planned on -/

/-- **The edit suits the text**, which is cut around its stretch: the offsets lie in the text and
between characters, the stretch is what is expected there, and the edit puts its new text in the
place of the stretch. -/
structure Edit.Suits (e : Edit) (content : Text) (cut : Cut) : Prop where
  content_eq : content = cut.before ++ cut.stretch ++ cut.after
  start_eq : e.start = cut.before.byteSize
  stop_eq : e.stop = cut.before.byteSize + cut.stretch.byteSize
  start_le : e.start ≤ e.stop
  stop_le : e.stop ≤ content.byteSize
  cut_eq : e.cut? content = some cut
  /-- A short stretch is kept as it is. -/
  short : cut.stretch.byteSize ≤ Verification.exactLimit → e.expected = .exact cut.stretch
  /-- Of a long one, the digest is kept. -/
  long : Verification.exactLimit < cut.stretch.byteSize →
    e.expected = .digest (Verification.digestOf cut.stretch)
  accepts : e.expected.accepts cut.stretch = true
  applyTo : e.applyTo content = .ok (cut.before ++ e.newText ++ cut.after)

/-- The edit of a stretch suits the text that holds it. -/
theorem Edit.suits_replacing (file before old after newText : Text) :
    (replacing file before.byteSize old newText).Suits (before ++ old ++ after)
      ⟨before, old, after⟩ where
  content_eq := rfl
  start_eq := rfl
  stop_eq := rfl
  start_le := Nat.le_add_right _ _
  stop_le := by
    rw [Text.byteSize_append, Text.byteSize_append, replacing]
    exact Nat.le_add_right _ _
  cut_eq := cut?_append rfl rfl
  short h := if_neg (Nat.not_lt.mpr h)
  long h := if_pos h
  accepts := Verification.accepts_ofText old
  applyTo := applyTo_replace file before old after newText

/-- **An edit that applies to the text of its file is carried out**, or its directory is closed. -/
theorem Edit.applyIn_cases_of_applyTo {e : Edit} {t : FileTree} {l : Location} {c c' : Text}
    (h : t.Reaches l) (hl : l ≠ []) (hfile : e.file = l.path) (hread : t.readText l.path = .ok c)
    (happly : e.applyTo c = .ok c') :
    (∃ t' outcome, e.applyIn t = (t', .ok outcome)) ∨
      t.isOpenAt l.dropLast = false ∧ e.applyIn t = (t, .error (.io .permissionDenied)) := by
  by_cases hopen : t.isOpenAt l.dropLast = true
  · exact .inl (exists_applyIn h hl hfile hread happly hopen)
  rw [Bool.not_eq_true] at hopen
  by_cases hsame : c' = c
  · rw [hsame] at happly
    exact .inl ⟨t, .alreadyApplied,
      applyIn_eq_alreadyApplied_iff.mpr ⟨rfl, c, hfile ▸ hread, happly⟩⟩
  · obtain ⟨hresolve, _, -, hin, -⟩ := FileTree.exists_of_readText h hl hread
    obtain ⟨f, hf, -⟩ := FileTree.readIn_eq_ok_iff.mp hin
    have hfileAt := FileTree.fileAt_eq_ok_iff.mpr ⟨l, hresolve, hf⟩
    refine .inr ⟨hopen, ?_⟩
    rw [applyIn_of_ne (hfile ▸ hread) happly hsame, hfile,
      FileTree.replaceFile_path_of_not_isOpenAt h hl hfileAt hopen]

/-! ## Plans -/

namespace Site

variable {s : Site} {names : NameSet} {file c : Text} {p : Plan}

/-- **Why there is no plan**: a region stands in the text several times, or none does. -/
theorem error_of_plan {e : PatchError} (h : s.plan names file c = .error e) :
    (∃ count, e = .ambiguousMatch s.id file count) ∨ e = .patternMismatch s.id file := by
  have hsingle : ∀ {shape : Shape} {e : PatchError}, shape.single? s file c = .error e →
      ∃ count, e = .ambiguousMatch s.id file count := by
    intro shape e h
    unfold Shape.single? at h
    split at h
    · simp at h
    · simp at h
    · exact ⟨_, (Except.error.inj h).symm⟩
  unfold plan at h
  rcases hp : s.pristine.single? s file c with e' | _ | o
  · simp only [hp] at h
    exact .inl (Except.error.inj h ▸ hsingle hp)
  · simp only [hp] at h
    rcases hregion : s.mergeRegion? file c with e' | _ | ⟨o, condition⟩
    · simp only [hregion] at h
      unfold mergeRegion? at hregion
      cases hmerge : s.merge with
      | none => simp [hmerge] at hregion
      | some m =>
        rcases hm : m.single? s file c with e'' | _ | o
        · simp only [hmerge, hm] at hregion
          rw [← Except.error.inj h, ← Except.error.inj hregion]
          exact .inl (hsingle hm)
        all_goals simp [hmerge, hm] at hregion
    · simp only [hregion, planTokens] at h
      split at h
      · simp at h
      · exact .inr (Except.error.inj h).symm
    · simp [hregion] at h
  · simp [hp] at h

/-- The edit of a plan suits the text that the plan was made for. -/
theorem exists_suits_of_plan {e : Edit} (hplan : s.plan names file c = .ok p)
    (hedit : p.edit = some e) : ∃ cut, e.Suits c cut := by
  obtain ⟨before, old, after, newText, rfl, rfl⟩ := exists_replacing_of_plan hplan hedit
  exact ⟨⟨before, old, after⟩, Edit.suits_replacing file before old after newText⟩

/-- Patching a text does not fail in its edit. -/
theorem patch_ne_edit (s : Site) (names : NameSet) (c : Text) (cause : EditError) :
    s.patch names c ≠ .error (.edit cause) := by
  intro h
  unfold patch at h
  rcases hplan : s.plan names s.path c with e | p
  · simp only [hplan, Except.error.injEq] at h
    subst h
    rcases error_of_plan hplan with ⟨count, he⟩ | he <;> simp at he
  · obtain ⟨c', happly⟩ := exists_applyTo hplan
    simp [hplan, happly] at h

end Site

/-! ## Runs -/

namespace Target

variable {x : Target} {names : NameSet} {dryRun : Bool} {t : FileTree} {cause : EditError}
  {targets : List Target}

/-- A target without a plan does not fail in its edit. -/
theorem plan_ne_edit (x : Target) (names : NameSet) (t : FileTree) (cause : EditError) :
    x.plan names t ≠ .error (.edit cause) := by
  intro h
  unfold plan at h
  rcases hread : t.readText x.file with fault | c
  · simp [hread] at h
  rcases hsite : x.site.plan names x.file c with e | p
  · simp only [hread, hsite, Except.error.injEq] at h
    subst h
    rcases Site.error_of_plan hsite with ⟨count, he⟩ | he <;> simp at he
  · simp [hread, hsite] at h

/-- **A step fails in its edit only in a closed directory.** -/
theorem IsReached.closed_of_apply (h : x.IsReached t)
    (hstep : (x.apply names dryRun t).2 = .error (.edit cause)) :
    dryRun = false ∧ cause = .io .permissionDenied ∧ t.isOpenAt x.location.dropLast = false := by
  unfold apply at hstep
  rcases hplan : x.plan names t with e | ⟨c, p⟩
  · simp only [hplan, Except.error.injEq] at hstep
    exact absurd (hstep ▸ hplan) (plan_ne_edit x names t cause)
  obtain ⟨hread, hsite⟩ := plan_eq_ok_iff.mp hplan
  obtain ⟨c', hafter⟩ := Site.exists_applyTo hsite
  simp only [hplan, hafter] at hstep
  unfold write at hstep
  cases hedit : p.edit with
  | none => simp [hedit] at hstep
  | some edit =>
    cases dryRun with
    | true => simp [hedit] at hstep
    | false =>
      rcases Edit.applyIn_cases_of_applyTo h.reaches h.ne_nil (Site.file_of_plan hsite hedit) hread
        (Plan.applyTo_edit hedit hafter) with ⟨t', bytes | _, hin⟩ | ⟨hclosed, hin⟩
      · simp [hedit, hin] at hstep
      · simp [hedit, hin] at hstep
      · simp only [hedit, hin, Bool.false_eq_true, if_false, Except.error.injEq,
          PatchError.edit.injEq] at hstep
        exact ⟨rfl, hstep.symm, hclosed⟩

/-- **A run fails in an edit only in a closed directory**, for no step changes how open one is. -/
theorem closed_of_applyAll (h : ∀ x ∈ targets, x.IsReached t)
    (hrun : (applyAll names dryRun targets t).2 = .error (.edit cause)) :
    dryRun = false ∧ cause = .io .permissionDenied ∧
      ∃ x ∈ targets, t.isOpenAt x.location.dropLast = false := by
  induction targets generalizing t with
  | nil => simp [applyAll] at hrun
  | cons x targets ih =>
    obtain ⟨hx, hrest⟩ := List.forall_mem_cons.mp h
    rcases hstep : x.apply names dryRun t with ⟨t', e | ⟨report, n⟩⟩
    · rw [applyAll_cons_of_error hstep] at hrun
      obtain ⟨hreal, hcause, hclosed⟩ := hx.closed_of_apply
        ((congrArg Prod.snd hstep).trans (congrArg Except.error (Except.error.inj hrun)))
      exact ⟨hreal, hcause, x, List.mem_cons_self, hclosed⟩
    · have halike := (hx.kept_apply names dryRun).1
      rw [hstep] at halike
      rw [applyAll_cons_of_ok hstep] at hrun
      rcases hlater : (applyAll names dryRun targets t').2 with e | r
      · simp only [hlater, Except.map, Except.error.injEq] at hrun
        obtain ⟨hreal, hcause, y, hy, hclosed⟩ :=
          ih (fun y hy => (hrest y hy).of_alike halike) (hlater.trans (by rw [hrun]))
        exact ⟨hreal, hcause, y, List.mem_cons_of_mem _ hy, halike.isOpenAt_eq _ ▸ hclosed⟩
      · simp [hlater, Except.map] at hrun

end Target

namespace Registry

/-- A run without targets does not fail in an edit. -/
theorem targets_ne_edit (registry : Registry) (root : Text) (t : FileTree) (cause : EditError) :
    registry.targets t root ≠ .error (.edit cause) := by
  have hatSite : ∀ (id : Text) (e : RootError), .edit cause ≠ e.atSite id := by
    intro id e
    cases e <;> simp [RootError.atSite]
  intro h
  generalize he : PatchError.edit cause = e at h
  cases unresolved_of_targets h with
  | root => exact hatSite _ _ he
  | site => exact hatSite _ _ he

/-- **A planned edit applies to the text that it was planned on**, whatever the shapes of its site
are. So patching a text does not fail in its edit, and neither does a run, but for a file that cannot
be replaced because its directory is closed. -/
theorem suits_of_plan :
    (∀ (s : Site) (names : NameSet) (file content : Text) (p : Plan) (e : Edit),
        s.plan names file content = .ok p → p.edit = some e → ∃ cut, e.Suits content cut) ∧
      (∀ (s : Site) (names : NameSet) (content : Text) (cause : EditError),
        s.patch names content ≠ .error (.edit cause)) ∧
      ∀ (registry : Registry) (root : Text) (names : NameSet) (dryRun : Bool) (t : FileTree)
        (cause : EditError), (registry.apply root names dryRun t).2 = .error (.edit cause) →
          dryRun = false ∧ cause = .io .permissionDenied ∧
            ∃ targets, registry.targets t root = .ok targets ∧
              ∃ x ∈ targets, t.isOpenAt x.location.dropLast = false := by
  refine ⟨fun _ _ _ _ _ _ => Site.exists_suits_of_plan, Site.patch_ne_edit, ?_⟩
  intro registry root names dryRun t cause hrun
  rcases htargets : registry.targets t root with e | targets
  · rw [apply_of_targets_eq_error htargets] at hrun
    exact absurd (Except.error.inj hrun ▸ htargets) (targets_ne_edit registry root t cause)
  · rw [apply_of_targets htargets] at hrun
    obtain ⟨-, hreached⟩ := spec_of_targets htargets
    obtain ⟨hreal, hcause, hclosed⟩ := Target.closed_of_applyAll
      (fun x hx => ⟨(hreached x hx).1, (hreached x hx).2⟩) hrun
    exact ⟨hreal, hcause, targets, rfl, hclosed⟩

end Registry

/-! ## Luau -/

namespace Luau

/-- In the closed checkout, both sites have targets. -/
theorem targets_closedCheckout :
    linterAndTracer.targets closedCheckout "/luau" = .ok brokenTargets := rfl

/-- The edit that rewrites the delivered answer. -/
def rewriteAnswer : Edit :=
  .replacing "Linter.cpp" 0 deliveredAnswer (linter.patched "    " loadOnly)

/-- The plan for a delivered answer is to rewrite it. -/
theorem plan_deliveredAnswer : linter.plan loadOnly "Linter.cpp" deliveredAnswer
    = .ok ⟨.pristine, some rewriteAnswer⟩ := by
  decide +kernel

/-- A run over the closed checkout fails in its edit. -/
theorem apply_closedCheckout :
    (linterAndTracer.apply "/luau" loadOnly false closedCheckout).2
      = .error (.edit (.io .permissionDenied)) := by
  have hready := Registry.isReady_of_targets targets_closedCheckout
    fun s hs => (isPlaced_linterAndTracer s hs).exists_patchable
  rw [Registry.apply_of_targets targets_closedCheckout, brokenTargets,
    Target.applyAll_cons_of_error
      (Target.apply_of_isBarred (hready _ List.mem_cons_self) isBarred_closedCheckout.2)]

/-- The edit planned for a delivered answer suits it, and fails only where the directory is closed.
-/
theorem suits_rewriteAnswer :
    linter.plan loadOnly "Linter.cpp" deliveredAnswer = .ok ⟨.pristine, some rewriteAnswer⟩ ∧
      (∃ cut, rewriteAnswer.Suits deliveredAnswer cut) ∧
        (linterAndTracer.apply "/luau" loadOnly false closedCheckout).2
            = .error (.edit (.io .permissionDenied)) ∧
          ∃ targets, linterAndTracer.targets closedCheckout "/luau" = .ok targets ∧
            ∃ x ∈ targets, closedCheckout.isOpenAt x.location.dropLast = false :=
  ⟨plan_deliveredAnswer, Registry.suits_of_plan.1 _ _ _ _ _ _ plan_deliveredAnswer rfl,
    apply_closedCheckout,
    (Registry.suits_of_plan.2.2 _ _ _ _ _ _ apply_closedCheckout).2.2⟩

end Luau

end SitePatch
