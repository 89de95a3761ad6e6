import Mathlib.Data.List.Forall2
import SitePatch.Proofs.Luau
import SitePatch.Proofs.Target

/-! # Runs on paper

A target's plan decides what happens there: it fails, it leaves the text alone, or its edit is due.
A run on paper does nothing but plan. It ends with the error of the first target without a plan, or
reports what a check finds at every target (`Target.applyAll_paper_cases`); it counts the targets at
which an edit is due. Main statement: at a site that recognises its own work, an edit that is due
changes the text (`Site.Patchable.ne_of_needsChange`), so what is counted is a change. -/

namespace SitePatch

/-! ## Edits that are due -/

/-- A plan with an edit asks for a change. -/
theorem Plan.needsChange_eq_true_iff {p : Plan} :
    p.needsChange = true ↔ ∃ edit, p.edit = some edit := by
  rw [needsChange, Option.isSome_iff_exists]

/-- A plan without an edit leaves the text alone. -/
theorem Plan.applyTo_of_not_needsChange {p : Plan} (h : p.needsChange = false) (c : Text) :
    p.applyTo c = .ok c := by
  obtain ⟨state, edit⟩ := p
  cases edit with
  | none => rfl
  | some edit => simp [needsChange] at h

/-- An edit whose new text has another size than its stretch changes the text. -/
theorem Edit.ne_of_byteSize_ne {e : Edit} {c c' : Text} (h : e.applyTo c = .ok c')
    (hsize : e.newText.byteSize ≠ e.stop - e.start) : c' ≠ c := by
  obtain ⟨cut, hcut, -, rfl⟩ := applyTo_eq_ok_iff.mp h
  obtain ⟨htext, hstart, hstop⟩ := eq_of_cut? hcut
  intro hsame
  have hlength := congrArg Text.byteSize hsame
  rw [htext] at hlength
  simp only [Text.byteSize_append] at hlength
  omega

namespace Site.Patchable

variable {s : Site} {k : Opening} {m : Shape} {names : NameSet} {file c c' : Text} {p : Plan}

/-- **An edit that is due changes the text**: no delivered region is left where one was rewritten,
and an extended condition is longer than it was. -/
theorem ne_of_needsChange (hs : s.Patchable k m) (hplan : s.plan names file c = .ok p)
    (hdue : p.needsChange = true) (happly : p.applyTo c = .ok c') : c' ≠ c := by
  obtain ⟨edit, hedit⟩ := Plan.needsChange_eq_true_iff.mp hdue
  rcases hs.plan_cases hplan with ⟨o, hp, rfl⟩ | ⟨o, -, -, rfl⟩ | ⟨-, -, -, rfl⟩
  · by_cases hnames : names.isEmpty = true
    · rw [Site.planRewrite, if_pos hnames] at hedit
      simp [Plan.unchanged] at hedit
    · obtain ⟨lead, tail, hrewrite⟩ := hs.rewrite_step hp
      obtain ⟨hstep, hgone, -⟩ := hrewrite names (by simpa using hnames)
      obtain rfl := Except.ok.inj ((hstep file).symm.trans happly)
      rintro rfl
      rw [hgone] at hp
      simp at hp
  · refine Edit.ne_of_byteSize_ne (Plan.applyTo_edit hedit happly) ?_
    unfold Site.planMerge at hedit
    dsimp only at hedit
    split at hedit
    · simp [Plan.unchanged] at hedit
    · obtain rfl := Option.some.inj hedit
      obtain ⟨d, hconnective, -⟩ := s.condition.exists_connective
      have hpos := Char.utf8Size_pos ' '
      simp only [Edit.replacing, Text.byteSize_append, hconnective, Text.byteSize_cons]
      omega
  · simp [Plan.unchanged] at hedit

/-- The text that a plan makes is the patched text, whatever file the plan was made for. -/
theorem patch_of_plan (hs : s.Patchable k m) (hplan : s.plan names file c = .ok p) :
    s.patch names c = p.applyTo c := by
  rw [Site.patch]
  rcases hs.plan_cases hplan with ⟨o, hp, rfl⟩ | ⟨o, hp, hm, rfl⟩ | ⟨hp, hm, happlied, rfl⟩
  · have htext : o.text = c := Shape.text_of_mem_occurrences (hp ▸ List.mem_singleton_self o)
    rw [Site.plan_of_pristine hp, ← htext]
    dsimp only
    rw [Site.applyTo_planRewrite, Site.applyTo_planRewrite]
  · have htext : o.text = c := Shape.text_of_mem_occurrences (hm ▸ List.mem_singleton_self o)
    rw [hs.plan_of_merge hp hm, ← htext]
    dsimp only
    rw [Site.applyTo_planMerge, Site.applyTo_planMerge]
  · rw [hs.plan_of_neither hp hm, Site.planTokens, if_pos happlied]

end Site.Patchable

/-! ## Placed sites -/

/-- A site recognises its own work under any name, and in any file. -/
theorem Site.Patchable.placed {s : Site} {k : Opening} {m : Shape} (hs : s.Patchable k m)
    (id path : Text) : Site.Patchable { s with id := id, path := path } k m :=
  ⟨hs.merge, hs.pristine_mark, hs.merge_mark, hs.pristine_anchors, hs.merge_anchors, hs.apart,
    hs.plain, hs.rewrite, hs.extend⟩

/-- **The site is one of Luau's Analysis library**, possibly under another id, and in another
file. -/
def Luau.IsPlaced (s : Site) : Prop :=
  ∃ original ∈ sites, s = { original with id := s.id, path := s.path }

/-- A site of the library is one of it under its own id, in its own file. -/
theorem Luau.isPlaced_of_mem {s : Site} (hs : s ∈ sites) : IsPlaced s := ⟨s, hs, rfl⟩

/-- A site of the library, wherever it is placed, recognises its own work. -/
theorem Luau.IsPlaced.exists_patchable {s : Site} (hs : IsPlaced s) : ∃ k m, s.Patchable k m := by
  obtain ⟨original, horiginal, h⟩ := hs
  obtain ⟨k, m, hpatchable⟩ := Luau.exists_patchable horiginal
  rw [h]
  exact ⟨k, m, hpatchable.placed s.id s.path⟩

namespace Target

variable {x : Target} {names : NameSet} {t t' : FileTree} {c : Text} {p : Plan} {e : PatchError}
  {targets : List Target} {dryRun : Bool}

/-! ## What a plan decides -/

/-- Whether there is a plan for the target. -/
def isPlanned (x : Target) (names : NameSet) (t : FileTree) : Bool := (x.plan names t).isOk

/-- **Whether an edit is due** at the target. -/
def isDue (x : Target) (names : NameSet) (t : FileTree) : Bool :=
  match x.plan names t with
  | .error _ => false
  | .ok (_, p) => p.needsChange

/-- An edit is due if the plan has one. -/
theorem isDue_of_plan (h : x.plan names t = .ok (c, p)) : x.isDue names t = p.needsChange := by
  rw [isDue, h]

/-- A target with a plan is planned. -/
theorem isPlanned_of_plan (h : x.plan names t = .ok (c, p)) : x.isPlanned names t = true := by
  rw [isPlanned, h]
  rfl

/-- A target whose plan fails is not planned. -/
theorem not_isPlanned_of_plan (h : x.plan names t = .error e) : x.isPlanned names t = false := by
  rw [isPlanned, h]
  rfl

/-- A target that is planned has a plan. -/
theorem exists_of_isPlanned (h : x.isPlanned names t = true) :
    ∃ c p, x.plan names t = .ok (c, p) := by
  rw [isPlanned] at h
  rcases hplan : x.plan names t with e | ⟨c, p⟩
  · rw [hplan] at h
    simp [Except.isOk, Except.toBool] at h
  · exact ⟨c, p, rfl⟩

/-- **The targets that a run comes to** before the first without a plan. -/
def planned (names : NameSet) (t : FileTree) (targets : List Target) : List Target :=
  targets.takeWhile fun x => x.isPlanned names t

/-! ## Steps on paper -/

/-- Without a plan, a step fails and changes nothing. -/
theorem apply_of_plan_eq_error (h : x.plan names t = .error e) (dryRun : Bool) :
    x.apply names dryRun t = (t, .error e) := by
  rw [apply, h]

/-- **A step on paper** leaves the tree as it is, reports what the plan makes of the text, and counts
the edit that is due. -/
theorem apply_paper (h : x.plan names t = .ok (c, p)) :
    ∃ c', p.applyTo c = .ok c' ∧ x.apply names true t
      = (t, .ok (⟨x.site.id, .ofState x.file p.state, c, c'⟩, if x.isDue names t then 1 else 0)) := by
  obtain ⟨c', hafter⟩ := Site.exists_applyTo (plan_eq_ok_iff.mp h).2
  refine ⟨c', hafter, ?_⟩
  rw [isDue_of_plan h, Plan.needsChange, apply, h]
  simp only [hafter, write]
  cases p.edit <;> rfl

/-- **A report says what the plan makes of the target's text.** -/
structure Reports (names : NameSet) (t : FileTree) (x : Target) (r : SiteReport) : Prop where
  id : r.id = x.site.id
  read : t.readText x.file = .ok r.before
  check : x.check names t = .ok r.result
  after : ∃ p, x.site.plan names x.file r.before = .ok p ∧ p.applyTo r.before = .ok r.after

/-- What a report says of a target with a plan. -/
theorem reports_of_plan {c' : Text} (h : x.plan names t = .ok (c, p)) (hafter : p.applyTo c = .ok c') :
    Reports names t x ⟨x.site.id, .ofState x.file p.state, c, c'⟩ := by
  obtain ⟨hread, hsite⟩ := plan_eq_ok_iff.mp h
  exact ⟨rfl, hread, by rw [check, h], p, hsite, hafter⟩

/-! ## Runs on paper -/

/-- **What a run on paper comes to**: the error of the first target without a plan, or a report on
every target and the number of targets at which an edit is due. -/
theorem applyAll_paper_cases (names : NameSet) (targets : List Target) (t : FileTree) :
    (∃ done x rest e, targets = done ++ x :: rest ∧ (∀ y ∈ done, y.isPlanned names t = true) ∧
        x.plan names t = .error e ∧ applyAll names true targets t = (t, .error e)) ∨
      (∀ x ∈ targets, x.isPlanned names t = true) ∧
        ∃ r, applyAll names true targets t = (t, .ok r) ∧
          List.Forall₂ (Reports names t) targets r.sites ∧
            r.changed = targets.countP fun x => x.isDue names t := by
  induction targets with
  | nil => exact .inr ⟨by simp, ⟨[], 0⟩, rfl, .nil, rfl⟩
  | cons x targets ih =>
    rcases hplan : x.plan names t with e | ⟨c, p⟩
    · refine .inl ⟨[], x, targets, e, rfl, by simp, hplan, ?_⟩
      exact applyAll_cons_of_error (apply_of_plan_eq_error hplan true)
    · obtain ⟨c', hafter, hstep⟩ := apply_paper hplan
      have hx := isPlanned_of_plan hplan
      rcases ih with ⟨done, y, rest, e, rfl, hdone, hy, hrun⟩ | ⟨hall, r, hrun, hreports, hcount⟩
      · refine .inl ⟨x :: done, y, rest, e, rfl, List.forall_mem_cons.mpr ⟨hx, hdone⟩, hy, ?_⟩
        rw [applyAll_cons_of_ok hstep, hrun]
        rfl
      · refine .inr ⟨List.forall_mem_cons.mpr ⟨hx, hall⟩,
          addReport _ (if x.isDue names t then 1 else 0) r, ?_,
          .cons (reports_of_plan hplan hafter) hreports, ?_⟩
        · rw [applyAll_cons_of_ok hstep, hrun]
          rfl
        · rw [addReport, hcount, List.countP_cons, Nat.add_comm]

/-- A run on paper succeeds if there is a plan for every target. -/
theorem exists_applyAll_paper (h : ∀ x ∈ targets, x.isPlanned names t = true) :
    ∃ r, applyAll names true targets t = (t, .ok r) := by
  rcases applyAll_paper_cases names targets t with
    ⟨done, x, rest, e, hsplit, -, hfails, -⟩ | ⟨-, r, hrun, -⟩
  · have hx := h x (by rw [hsplit]; simp)
    rw [not_isPlanned_of_plan hfails] at hx
    simp at hx
  · exact ⟨r, hrun⟩

/-- A run on paper depends on the plans only. -/
theorem applyAll_paper_congr (h : ∀ x ∈ targets, x.plan names t' = x.plan names t) :
    (applyAll names true targets t').2 = (applyAll names true targets t).2 := by
  induction targets with
  | nil => rfl
  | cons x targets ih =>
    have hx := h x (by simp)
    have hrest := ih fun y hy => h y (List.mem_cons_of_mem _ hy)
    rcases hplan : x.plan names t with e | ⟨c, p⟩
    · rw [applyAll_cons_of_error (apply_of_plan_eq_error hplan true),
        applyAll_cons_of_error (apply_of_plan_eq_error (hx.trans hplan) true)]
    · obtain ⟨c₁, hafter, hstep⟩ := apply_paper hplan
      obtain ⟨c₂, hafter', hstep'⟩ := apply_paper (hx.trans hplan)
      obtain rfl := Except.ok.inj (hafter.symm.trans hafter')
      rw [isDue_of_plan (hx.trans hplan)] at hstep'
      rw [isDue_of_plan hplan] at hstep
      rw [applyAll_cons_of_ok hstep, applyAll_cons_of_ok hstep', hrest]

end Target

end SitePatch
