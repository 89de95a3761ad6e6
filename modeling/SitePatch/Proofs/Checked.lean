import SitePatch.Proofs.Luau
import SitePatch.Proofs.Patch

/-! # Every name is checked

A step that succeeds leaves a text in which the check of every name of the set stands, as the site
writes it. Each way to succeed has its own reason: a rewritten region holds the whole condition
(`Template.occursIn_fill`), a condition that is extended is given the checks that it lacks
(`ConditionForm.occursIn_extended`), and where the text is left alone, the checks were found in it
or no name was asked for. Shapes, templates and conditions may be combined at will for that: nothing
has to be recognised again. Main statement: `Luau.checks_of_patch`. -/

namespace SitePatch

/-! ## Conditions -/

namespace ConditionForm

variable {f : ConditionForm} {condition n : Text} {names : NameSet} {ns : List Text}

/-- What stands in a condition stands in every extension of it. -/
theorem occursIn_extend {needle : Text} (h : needle.occursIn condition = true) (ns : List Text) :
    needle.occursIn (f.extend condition ns) = true :=
  Text.occursIn_append_left h

/-- The checks that a condition is extended by stand in it. -/
theorem occursIn_extend_of_mem (condition : Text) (hn : n ∈ ns) :
    (f.check n).occursIn (f.extend condition ns) = true := by
  induction ns generalizing condition with
  | nil => simp at hn
  | cons m ns ih =>
    rw [extend_cons]
    rcases List.mem_cons.mp hn with rfl | hn
    · refine occursIn_extend (Text.occursIn_append_right (Text.occursIn_append_right ?_)) ns
      exact Text.occursIn_iff_isInfix.mpr (List.infix_refl _)
    · exact ih _ hn

/-- **A condition with the missing checks behind it has the check of every name.** -/
theorem occursIn_extended (condition : Text) (hn : n ∈ names.toList) :
    (f.check n).occursIn (f.extended condition names) = true := by
  by_cases hfound : (f.check n).occursIn condition = true
  · exact occursIn_extend hfound _
  · rw [Bool.not_eq_true] at hfound
    exact occursIn_extend_of_mem condition (mem_absent_iff.mpr ⟨hn, hfound⟩)

/-- **The whole condition has all its tokens.** -/
theorem occursIn_build {token : Text} (h : token ∈ f.tokens names) :
    token.occursIn (f.build names) = true := by
  rw [build_eq]
  rcases List.mem_cons.mp h with rfl | h
  · exact occursIn_extend (Text.occursIn_iff_isInfix.mpr (List.infix_refl _)) _
  · obtain ⟨n, hn, rfl⟩ := List.mem_map.mp h
    exact occursIn_extend_of_mem _ hn

end ConditionForm

/-! ## Templates -/

/-- What stands in the condition stands in the region of a template that has a place for it. -/
theorem Template.occursIn_fill {template : Template} (htemplate : .condition ∈ template)
    {needle condition : Text} (h : needle.occursIn condition = true) (indent : Text) :
    needle.occursIn (template.fill indent condition) = true := by
  obtain ⟨front, back, rfl⟩ := List.append_of_mem htemplate
  rw [fill, List.flatMap_append, List.flatMap_cons]
  exact Text.occursIn_append_right (Text.occursIn_append_left h)

namespace Site

variable {s : Site} {names : NameSet} {file c t : Text} {p : Plan}

/-! ## What is left alone -/

/-- All tokens together have the check of every name. -/
theorem occursIn_of_isFullyApplied {n : Text} (h : s.isFullyApplied c names = true)
    (hn : n ∈ names.toList) : (s.condition.check n).occursIn c = true :=
  List.all_eq_true.mp h _ (List.mem_cons_of_mem _ (List.mem_map_of_mem hn))

/-- **Where no region tells, the tokens do.** -/
theorem isFullyApplied_of_plan (hplan : s.plan names file c = .ok (.unchanged .tokens)) :
    s.isFullyApplied c names = true := by
  unfold plan at hplan
  rcases hp : s.pristine.single? s file c with e | _ | o
  · simp [hp] at hplan
  · simp only [hp] at hplan
    rcases hm : s.mergeRegion? file c with e | _ | ⟨o, condition⟩
    · simp [hm] at hplan
    · simp only [hm, planTokens] at hplan
      split at hplan
      · assumption
      · simp at hplan
    · -- a patched region is evidence of its own
      simp only [hm, Except.ok.injEq, planMerge] at hplan
      split at hplan <;> simp [Plan.unchanged] at hplan
  · simp only [hp, Except.ok.injEq, planRewrite] at hplan
    split at hplan <;> simp [Plan.unchanged] at hplan

/-! ## Steps -/

/-- **A delivered region that is rewritten leaves all tokens**, whatever stands around it. -/
theorem isFullyApplied_of_rewrite (hreplacement : .condition ∈ s.replacement)
    (before indent after : Text) :
    s.isFullyApplied (before ++ s.patched indent names ++ after) names = true := by
  rw [isFullyApplied, List.all_eq_true]
  intro token htoken
  exact Text.occursIn_append_left (Text.occursIn_append_right
    (Template.occursIn_fill hreplacement (ConditionForm.occursIn_build htoken) indent))

/-- **What a plan leaves**: the check of every name, and all tokens where a delivered region was to
be rewritten. -/
theorem checks_of_plan (hreplacement : .condition ∈ s.replacement)
    (hplan : s.plan names file c = .ok p) (happly : p.applyTo c = .ok t) :
    (∀ n ∈ names.toList, (s.condition.check n).occursIn t = true) ∧
      (p.state = .pristine → s.isFullyApplied t names = true) := by
  rcases plan_cases hplan with ⟨o, hp, rfl⟩ | ⟨m, o, -, hm, rfl⟩ | rfl
  · have htext : o.text = c := Shape.text_of_mem_occurrences (hp ▸ List.mem_singleton_self o)
    rw [← htext, applyTo_planRewrite, Except.ok.injEq] at happly
    by_cases hnames : names.isEmpty = true
    · -- without names, nothing is asked for, and the region stays
      have hnone : names.toList = [] := by
        rw [NameSet.toList, List.isEmpty_iff.mp hnames, List.map_nil]
      rw [planRewrite, if_pos hnames, hnone]
      exact ⟨fun _ hn => absurd hn List.not_mem_nil, fun h => by simp [Plan.unchanged] at h⟩
    · rw [if_neg hnames] at happly
      have hall : s.isFullyApplied t names = true :=
        happly ▸ isFullyApplied_of_rewrite hreplacement o.before _ o.after
      exact ⟨fun n hn => occursIn_of_isFullyApplied hall hn, fun _ => hall⟩
  · have htext : o.text = c := Shape.text_of_mem_occurrences (hm ▸ List.mem_singleton_self o)
    rw [← htext, applyTo_planMerge, Except.ok.injEq] at happly
    refine ⟨fun n hn => ?_, fun h => ?_⟩
    · rw [← happly, Occurrence.extended, Occurrence.text_withMarked]
      exact Text.occursIn_append_left (Text.occursIn_append_right (Text.occursIn_append_left
        (ConditionForm.occursIn_extended o.marked.trimEnd hn)))
    · -- the state of such a plan is another one
      rw [planMerge] at h
      dsimp only at h
      split at h <;> simp [Plan.unchanged] at h
  · obtain rfl := Except.ok.inj happly
    have hall := isFullyApplied_of_plan hplan
    exact ⟨fun n hn => occursIn_of_isFullyApplied hall hn, fun _ => hall⟩

end Site

/-! ## Luau -/

namespace Luau

/-- The templates of the sites of Luau's Analysis library. -/
def templates : List Template := [tracerTemplate, matcherTemplate, linterTemplate]

/-- Every template of the library has the condition in it. -/
theorem condition_mem_of_mem_templates : ∀ template ∈ templates, .condition ∈ template := by decide

/-- **Every name that is asked for is checked.** Whatever shapes and conditions a site combines with
one of the templates of Luau's Analysis library, a text that it patches has the check of every name,
and all tokens if the plan was to rewrite the delivered region. -/
theorem checks_of_patch {s : Site} {names : NameSet} {c t : Text}
    (hreplacement : s.replacement ∈ templates) (hpatch : s.patch names c = .ok t) :
    (∀ n ∈ names.toList, (s.condition.check n).occursIn t = true) ∧
      ∀ p, s.plan names s.path c = .ok p → p.state = .pristine → s.isFullyApplied t names = true := by
  have hcondition := condition_mem_of_mem_templates _ hreplacement
  unfold Site.patch at hpatch
  rcases hplan : s.plan names s.path c with e | p
  · simp [hplan] at hpatch
  simp only [hplan] at hpatch
  obtain ⟨hchecks, hall⟩ := Site.checks_of_plan hcondition hplan hpatch
  refine ⟨hchecks, fun q hq hstate => ?_⟩
  obtain rfl := Except.ok.inj hq
  exact hall hstate

/-- A site that looks for the tracer's guard, and for the linter's answer once it is patched. -/
def mixedSite : Site :=
  { tracer with
    merge := some linterMerge
    replacement := linterTemplate
    condition := .noneOf "glob->name" }

/-- The delivered guard, patched at the mixed site for two names. -/
theorem checks_of_patch_mixedSite :
    mixedSite.replacement ∈ templates ∧ ∃ t, mixedSite.patch fetchAndLoad deliveredGuard = .ok t ∧
      Text.occursIn "glob->name != \"load\"" t = true := by
  have htemplate : mixedSite.replacement ∈ templates := by decide
  have hok : (mixedSite.patch fetchAndLoad deliveredGuard).isOk = true := by decide +kernel
  rcases hpatch : mixedSite.patch fetchAndLoad deliveredGuard with e | t
  · rw [hpatch] at hok
    cases hok
  · exact ⟨htemplate, t, rfl, (checks_of_patch htemplate hpatch).1 "load" (by decide)⟩

end Luau

end SitePatch
