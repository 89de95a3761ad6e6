import SitePatch.Plan
import SitePatch.Proofs.Condition
import SitePatch.Proofs.Shape

/-! # Patching step by step

What one step does to a text: it rewrites the delivered region, or extends the condition of the
patched region, or leaves the text alone. `Site.Patchable` says what the shapes of a site have to
satisfy for the next step to recognise what the last one wrote. Main statement: patching for several
sets of names, one after the other, is patching once for their union (`Site.Patchable.patchAll_eq`).
-/

namespace SitePatch

namespace Occurrence

/-- The occurrence with another marked part. -/
def withMarked (o : Occurrence) (t : Text) : Occurrence := { o with marked := t }

/-- The occurrence of a patched region whose condition has been extended. -/
def extended (f : ConditionForm) (names : NameSet) (o : Occurrence) : Occurrence :=
  o.withMarked (f.extended o.marked.trimEnd names ++ o.marked.blankEnd)

/-- The text of an occurrence with another marked part. -/
theorem text_withMarked (o : Occurrence) (t : Text) :
    (o.withMarked t).text = (o.before ++ o.lead) ++ t ++ (o.tail ++ o.after) := by
  simp [withMarked, text, region]

/-- With its own marked part, an occurrence stays as it is. -/
@[simp] theorem withMarked_marked (o : Occurrence) : o.withMarked o.marked = o := rfl

/-- The marked part starts where the text before it ends. -/
theorem markedStart_eq (o : Occurrence) : o.markedStart = (o.before ++ o.lead).byteSize := by
  rw [markedStart, start, Text.byteSize_append]

/-- The text, cut around the marked part without the white space at its end. -/
theorem text_eq_trimEnd (o : Occurrence) :
    o.text = (o.before ++ o.lead) ++ o.marked.trimEnd
      ++ (o.marked.blankEnd ++ (o.tail ++ o.after)) := by
  have h := o.text_withMarked o.marked
  rw [withMarked_marked] at h
  conv at h => rhs; rw [← o.marked.trimEnd_append_blankEnd]
  rw [h]
  simp

end Occurrence

namespace Site

variable {s : Site} {names : NameSet} {file c : Text} {o : Occurrence}

/-! ## Plans and their effect -/

/-- What the plan for a delivered region does. -/
theorem applyTo_planRewrite (s : Site) (names : NameSet) (file : Text) (o : Occurrence) :
    (s.planRewrite names file o).applyTo o.text =
      .ok (if names.isEmpty = true then o.text
        else o.before ++ s.patched (s.pristine.indentOf o) names ++ o.after) := by
  rw [planRewrite]
  by_cases h : names.isEmpty = true
  · rw [if_pos h, if_pos h]
    rfl
  · rw [if_neg h, if_neg h, Occurrence.text]
    simp only [Plan.applyTo, Occurrence.start, Edit.applyTo_replace]

/-- What the plan for a patched region does: it extends the condition. -/
theorem applyTo_planMerge (s : Site) (names : NameSet) (file : Text) (o : Occurrence) :
    (s.planMerge names file o.markedStart o.marked).applyTo o.text =
      .ok (o.extended s.condition names).text := by
  have hmissing := s.condition.missing_eq o.marked.trimEnd names
  rw [planMerge, Occurrence.extended, Occurrence.text_withMarked, ConditionForm.extended]
  by_cases h : s.condition.absent o.marked.trimEnd names = []
  · have hnone : (s.condition.missing o.marked.trimEnd names).isEmpty = true := by
      rw [hmissing, h]
      rfl
    simp only [hnone, if_true, h, ConditionForm.extend_nil, Plan.unchanged, Plan.applyTo]
    rw [o.text_eq_trimEnd]
    simp
  · have hsome : (s.condition.missing o.marked.trimEnd names).isEmpty = false := by
      rw [hmissing]
      simpa using h
    simp only [hsome, Bool.false_eq_true, if_false, Plan.applyTo, o.markedStart_eq]
    rw [o.text_eq_trimEnd, Edit.applyTo_replace, s.condition.extend_eq_intercalate _ h, hmissing]
    simp [ConditionForm.connective]

/-! ## What is found decides the plan -/

/-- A shape that occurs nowhere has no single occurrence. -/
theorem single?_of_nil {shape : Shape} (h : shape.occurrences c = []) :
    shape.single? s file c = .ok none := by
  rw [Shape.single?, h]

/-- A shape that occurs once has that occurrence as its single one. -/
theorem single?_of_singleton {shape : Shape} (h : shape.occurrences c = [o]) :
    shape.single? s file c = .ok (some o) := by
  rw [Shape.single?, h]

/-- A shape that occurs more than once is ambiguous, and the error tells how often it occurs. -/
theorem single?_of_length {shape : Shape} (h : 2 ≤ (shape.occurrences c).length) :
    shape.single? s file c
      = .error (.ambiguousMatch s.id file (shape.occurrences c).length) := by
  rw [Shape.single?]
  split
  · rename_i heq
    rw [heq] at h
    exact absurd h (by decide)
  · rename_i heq
    rw [heq] at h
    exact absurd h (by simp)
  · rfl

/-- A patched region with its condition is the only occurrence, with its marked part. -/
theorem exists_of_mergeRegion? {condition : Text}
    (h : s.mergeRegion? file c = .ok (some (o, condition))) :
    ∃ m, s.merge = some m ∧ m.occurrences c = [o] ∧ condition = o.marked := by
  unfold mergeRegion? at h
  cases hmerge : s.merge with
  | none => simp [hmerge] at h
  | some m =>
    simp only [hmerge] at h
    rcases hm : m.occurrences c with _ | ⟨o₁, _ | ⟨o₂, os⟩⟩
    · simp [single?_of_nil hm] at h
    · simp only [single?_of_singleton hm, Except.ok.injEq, Option.map_eq_some_iff,
        Prod.mk.injEq, Shape.conditionOf?] at h
      obtain ⟨d, hd, rfl, rfl⟩ := h
      split at hd
      · simp at hd
      · exact ⟨m, rfl, hm, (Option.some.inj hd).symm⟩
    · have hmany : 2 ≤ (m.occurrences c).length := by
        rw [hm, List.length_cons, List.length_cons]
        omega
      simp [single?_of_length hmany] at h

/-- The plan where the delivered region stands once. -/
theorem plan_of_pristine (h : s.pristine.occurrences c = [o]) :
    s.plan names file c = .ok (s.planRewrite names file o) := by
  rw [plan, single?_of_singleton h]

/-- Where the delivered region stands several times, there is no plan. -/
theorem plan_of_pristines (h : 2 ≤ (s.pristine.occurrences c).length) :
    s.plan names file c
      = .error (.ambiguousMatch s.id file (s.pristine.occurrences c).length) := by
  rw [plan, single?_of_length h]

/-- **What a plan was made for**: the only delivered region, the only patched region, or the tokens.
-/
theorem plan_cases {p : Plan} (hplan : s.plan names file c = .ok p) :
    (∃ o, s.pristine.occurrences c = [o] ∧ p = s.planRewrite names file o) ∨
      (∃ m o, s.merge = some m ∧ m.occurrences c = [o] ∧
        p = s.planMerge names file o.markedStart o.marked) ∨
      p = .unchanged .tokens := by
  unfold plan at hplan
  rcases hp : s.pristine.occurrences c with _ | ⟨o, _ | ⟨o₂, os⟩⟩
  · simp only [single?_of_nil hp] at hplan
    rcases hregion : s.mergeRegion? file c with e | _ | ⟨o, condition⟩
    · simp [hregion] at hplan
    · simp only [hregion, planTokens] at hplan
      split at hplan
      · exact .inr (.inr (Except.ok.inj hplan).symm)
      · simp at hplan
    · simp only [hregion] at hplan
      obtain ⟨m, hmerge, hm, rfl⟩ := exists_of_mergeRegion? hregion
      exact .inr (.inl ⟨m, o, hmerge, hm, (Except.ok.inj hplan).symm⟩)
  · rw [single?_of_singleton hp] at hplan
    exact .inl ⟨o, rfl, (Except.ok.inj hplan).symm⟩
  · have hmany : 2 ≤ (s.pristine.occurrences c).length := by
      rw [hp, List.length_cons, List.length_cons]
      omega
    rw [single?_of_length hmany] at hplan
    simp at hplan

/-- **The edit of a plan** replaces a stretch of the text that the plan was made for. -/
theorem exists_replacing_of_plan {p : Plan} {edit : Edit} (hplan : s.plan names file c = .ok p)
    (hedit : p.edit = some edit) : ∃ before old after newText, c = before ++ old ++ after ∧
      edit = .replacing file before.byteSize old newText := by
  rcases plan_cases hplan with ⟨o, hp, rfl⟩ | ⟨m, o, -, hm, rfl⟩ | rfl
  · have htext : o.text = c := Shape.text_of_mem_occurrences (hp ▸ List.mem_singleton_self o)
    unfold planRewrite at hedit
    split at hedit
    · simp [Plan.unchanged] at hedit
    · exact ⟨o.before, o.region, o.after, _, htext.symm, (Option.some.inj hedit).symm⟩
  · have htext : o.text = c := Shape.text_of_mem_occurrences (hm ▸ List.mem_singleton_self o)
    unfold planMerge at hedit
    dsimp only at hedit
    split at hedit
    · simp [Plan.unchanged] at hedit
    · rw [o.markedStart_eq] at hedit
      exact ⟨o.before ++ o.lead, o.marked.trimEnd, _, _, htext ▸ o.text_eq_trimEnd,
        (Option.some.inj hedit).symm⟩
  · simp [Plan.unchanged] at hedit

/-- The edit that is due at a file is an edit of that file. -/
theorem file_of_plan {p : Plan} {edit : Edit} (hplan : s.plan names file c = .ok p)
    (hedit : p.edit = some edit) : edit.file = file := by
  obtain ⟨_, _, _, _, -, rfl⟩ := exists_replacing_of_plan hplan hedit
  rfl

/-- **A plan applies to the text that it was made for.** -/
theorem exists_applyTo {p : Plan} (hplan : s.plan names file c = .ok p) :
    ∃ c', p.applyTo c = .ok c' := by
  have htext : ∀ {shape : Shape} {o : Occurrence}, shape.occurrences c = [o] → o.text = c :=
    fun h => Shape.text_of_mem_occurrences (h ▸ List.mem_singleton_self _)
  rcases plan_cases hplan with ⟨o, hp, rfl⟩ | ⟨m, o, -, hm, rfl⟩ | rfl
  · exact ⟨_, htext hp ▸ s.applyTo_planRewrite names file o⟩
  · exact ⟨_, htext hm ▸ s.applyTo_planMerge names file o⟩
  · exact ⟨c, rfl⟩

end Site

/-! ## Several steps, one after the other -/

namespace Site

/-- The regions in the text that the site recognises as patched. -/
def patchedRegions (s : Site) (c : Text) : List Occurrence :=
  match s.merge with
  | none => []
  | some m => m.occurrences c

/-- The text holds a delivered and a patched region of the site. -/
def HoldsBoth (s : Site) (c : Text) : Prop :=
  s.pristine.occurrences c ≠ [] ∧ s.patchedRegions c ≠ []

instance (s : Site) (c : Text) : Decidable (s.HoldsBoth c) :=
  inferInstanceAs (Decidable (s.pristine.occurrences c ≠ [] ∧ s.patchedRegions c ≠ []))

/-- **The text patched for several sets of names**, one after the other, up to the first error. -/
def patchAll (s : Site) : List NameSet → Text → Except PatchError Text
  | [], c => .ok c
  | names :: rest, c =>
    match s.patch names c with
    | .error e => .error e
    | .ok c' => s.patchAll rest c'

end Site

/-! ## Sites whose steps recognise each other -/

/-- **What the shapes of a site have to satisfy** for the next step to recognise what the last one
wrote: the delivered and the patched region start with one opening and are told apart; a rewritten
region is a patched region, with the whole condition as its marked part; and a patched region stays
one when checks are put behind its condition. -/
structure Site.Patchable (s : Site) (k : Opening) (m : Shape) : Prop where
  merge : s.merge = some m
  pristine_mark : s.pristine.mark = .indent
  merge_mark : m.mark = .condition
  pristine_anchors : k.anchors s.pristine = true
  merge_anchors : k.anchors m = true
  apart : Pattern.apart s.pristine.pattern m.pattern = true
  plain : s.condition.isPlain = true
  rewrite : ∀ o, s.pristine.Fits o → ∃ lead tail, ∀ names : NameSet, names.isEmpty = false →
    s.patched o.marked names = lead ++ s.condition.build names ++ tail ∧
      m.Fits ⟨o.before, lead, s.condition.build names, tail, o.after⟩
  extend : ∀ o, m.Fits o → ∀ ns : List Text, (∀ n ∈ ns, n.IsWord) →
    m.Fits (o.withMarked (s.condition.extend o.marked.trimEnd ns ++ o.marked.blankEnd))

namespace Site.Patchable

variable {s : Site} {k : Opening} {m : Shape} {names : NameSet} {file c : Text}
  {o o' : Occurrence}

/-- The plan where no delivered region stands, and the patched region stands once. -/
theorem plan_of_merge (hs : s.Patchable k m) (hp : s.pristine.occurrences c = [])
    (hm : m.occurrences c = [o]) :
    s.plan names file c = .ok (s.planMerge names file o.markedStart o.marked) := by
  rw [Site.plan, single?_of_nil hp]
  simp only [Site.mergeRegion?, hs.merge, single?_of_singleton hm, Shape.conditionOf?,
    hs.merge_mark, Option.map_some]

/-- Where no delivered region stands, and the patched region stands several times, there is no plan.
-/
theorem plan_of_merges (hs : s.Patchable k m) (hp : s.pristine.occurrences c = [])
    (hm : 2 ≤ (m.occurrences c).length) :
    s.plan names file c = .error (.ambiguousMatch s.id file (m.occurrences c).length) := by
  rw [Site.plan, single?_of_nil hp]
  simp only [Site.mergeRegion?, hs.merge, single?_of_length hm]

/-- The plan where neither region stands. -/
theorem plan_of_neither (hs : s.Patchable k m) (hp : s.pristine.occurrences c = [])
    (hm : m.occurrences c = []) : s.plan names file c = s.planTokens names file c := by
  rw [Site.plan, single?_of_nil hp]
  simp only [Site.mergeRegion?, hs.merge, single?_of_nil hm]

/-! ## One step -/

/-- The condition that a step leaves behind does not end with white space, so the white space at the
end of the marked part stays what it was. -/
theorem trimEnd_extended (o : Occurrence) (f : ConditionForm) (names : NameSet) :
    (o.extended f names).marked.trimEnd = f.extended o.marked.trimEnd names ∧
      (o.extended f names).marked.blankEnd = o.marked.blankEnd := by
  have htrim : (f.extended o.marked.trimEnd names).Trimmed :=
    f.trimmed_extend (Text.trimmed_trimEnd _)
  have hblank : ∀ c ∈ o.marked.blankEnd, Text.isBlank c = true := fun _ => Text.blank_of_mem_blankEnd _
  exact ⟨Text.trimEnd_append htrim hblank, Text.blankEnd_append htrim hblank⟩

/-- **The step over a delivered region** puts a patched region in its place: no delivered region is
left, and there is one patched region more. -/
theorem rewrite_step (hs : s.Patchable k m) (hp : s.pristine.occurrences c = [o]) :
    ∃ lead tail, ∀ names : NameSet, names.isEmpty = false →
      let o' : Occurrence := ⟨o.before, lead, s.condition.build names, tail, o.after⟩
      (∀ file, (s.planRewrite names file o).applyTo c = .ok o'.text) ∧
        s.pristine.occurrences o'.text = [] ∧ m.Fits o' ∧
          (m.occurrences o'.text).length = (m.occurrences c).length + 1 := by
  obtain ⟨hfits, rfl, honly⟩ := (Opening.occurrences_eq_singleton_iff hs.pristine_anchors).mp hp
  obtain ⟨lead, tail, hrewrite⟩ := hs.rewrite o hfits
  refine ⟨lead, tail, fun names hnames => ?_⟩
  obtain ⟨hpatched, hfits'⟩ := hrewrite names hnames
  intro o'
  -- the delivered region is gone, for a patched one stands in its place
  have hgone : Shape.startingAt? s.pristine o' = none := Shape.startingAt?_of_apart hs.apart hfits'
  have hnew : Shape.startingAt? m o = none :=
    Shape.startingAt?_eq_none fun p hp htext hbefore =>
      Shape.before_ne_of_apart hs.apart hfits hp htext.symm hbefore.symm
  refine ⟨fun file => ?_, ?_, hfits', ?_⟩
  · have hindent : s.pristine.indentOf o = o.marked := by
      rw [Shape.indentOf, hs.pristine_mark]
    rw [Site.applyTo_planRewrite, if_neg (by simp [hnames]), hindent, hpatched]
    rfl
  · rw [Opening.occurrences_of_replaced hs.pristine_anchors
      (Opening.clear_of_anchors hs.pristine_anchors hs.pristine_anchors hfits)
      (Opening.clear_of_anchors hs.pristine_anchors hs.merge_anchors hfits') rfl rfl
      (fun p hp => ?_), hgone]
    · rfl
    · obtain ⟨hpfits, htext⟩ := (Opening.mem_occurrences_iff hs.pristine_anchors).mp hp
      rw [honly p hpfits htext]
  · exact Opening.length_occurrences_of_replaced hs.merge_anchors
      (Opening.clear_of_anchors hs.merge_anchors hs.pristine_anchors hfits)
      (Opening.clear_of_anchors hs.merge_anchors hs.merge_anchors hfits') rfl rfl hnew hfits'

/-- **The step over a patched region** extends its condition: the patched region stays, and no other
region appears. -/
theorem extend_step (hs : s.Patchable k m) (hp : s.pristine.occurrences c = [])
    (hm : m.occurrences c = [o]) (names : NameSet) :
    let o' := o.extended s.condition names
    (∀ file, (s.planMerge names file o.markedStart o.marked).applyTo c = .ok o'.text) ∧
      s.pristine.occurrences o'.text = [] ∧ m.occurrences o'.text = [o'] := by
  intro o'
  obtain ⟨hfits, rfl, honly⟩ := (Opening.occurrences_eq_singleton_iff hs.merge_anchors).mp hm
  have hfits' : m.Fits o' :=
    hs.extend o hfits _ fun _ => ConditionForm.isWord_of_mem_absent
  have hnone : Shape.startingAt? s.pristine o' = none := Shape.startingAt?_of_apart hs.apart hfits'
  refine ⟨fun file => s.applyTo_planMerge names file o, ?_, ?_⟩
  · rw [Opening.occurrences_of_replaced hs.pristine_anchors
      (Opening.clear_of_anchors hs.pristine_anchors hs.merge_anchors hfits)
      (Opening.clear_of_anchors hs.pristine_anchors hs.merge_anchors hfits') rfl rfl
      (fun p h => by simp [hp] at h), hnone]
    rfl
  · rw [Opening.occurrences_of_replaced hs.merge_anchors
      (Opening.clear_of_anchors hs.merge_anchors hs.merge_anchors hfits)
      (Opening.clear_of_anchors hs.merge_anchors hs.merge_anchors hfits') rfl rfl
      (fun p h => ?_), Shape.startingAt?_of_fits hfits']
    · rfl
    · rw [hm, List.mem_singleton] at h
      rw [h]

/-! ## One step after another -/

/-- A patched region that stands in a text with only one is that one. -/
theorem occurrences_eq_of_length (hs : s.Patchable k m) (hfits : m.Fits o)
    (hlength : (m.occurrences o.text).length = 1) : m.occurrences o.text = [o] := by
  obtain ⟨p, hp⟩ := List.length_eq_one_iff.mp hlength
  have hmem : o ∈ m.occurrences o.text :=
    (Opening.mem_occurrences_iff hs.merge_anchors).mpr ⟨hfits, rfl⟩
  rw [hp, List.mem_singleton] at hmem
  rw [hp, ← hmem]

/-- What one step makes of a text with one delivered region and no patched one. -/
theorem patch_of_pristine (hs : s.Patchable k m) (hp : s.pristine.occurrences c = [o])
    (hm : m.occurrences c = []) :
    ∃ lead tail, ∀ names : NameSet, names.isEmpty = false →
      let o' : Occurrence := ⟨o.before, lead, s.condition.build names, tail, o.after⟩
      s.patch names c = .ok o'.text ∧
        s.pristine.occurrences o'.text = [] ∧ m.occurrences o'.text = [o'] := by
  obtain ⟨lead, tail, hstep⟩ := hs.rewrite_step hp
  refine ⟨lead, tail, fun names hnames => ?_⟩
  intro o'
  obtain ⟨hpatch, hgone, hfits, hlength⟩ := hstep names hnames
  refine ⟨?_, hgone, ?_⟩
  · rw [Site.patch, Site.plan_of_pristine hp]
    exact hpatch s.path
  · rw [hm, List.length_nil, Nat.zero_add] at hlength
    exact hs.occurrences_eq_of_length hfits hlength

/-- What one step makes of a text with one patched region and no delivered one. -/
theorem patch_of_merge (hs : s.Patchable k m) (hp : s.pristine.occurrences c = [])
    (hm : m.occurrences c = [o]) (names : NameSet) :
    let o' := o.extended s.condition names
    s.patch names c = .ok o'.text ∧
      s.pristine.occurrences o'.text = [] ∧ m.occurrences o'.text = [o'] := by
  intro o'
  obtain ⟨hpatch, hgone, hnew⟩ := hs.extend_step hp hm names
  refine ⟨?_, hgone, hnew⟩
  rw [Site.patch, hs.plan_of_merge hp hm]
  exact hpatch s.path

/-- The patched regions are the occurrences of the shape for them. -/
theorem patchedRegions_eq (hs : s.Patchable k m) (c : Text) :
    s.patchedRegions c = m.occurrences c := by
  rw [Site.patchedRegions, hs.merge]

/-- A text does not hold both regions exactly if it has no delivered one, or no patched one. -/
theorem not_holdsBoth_iff (hs : s.Patchable k m) :
    ¬ s.HoldsBoth c ↔ s.pristine.occurrences c = [] ∨ m.occurrences c = [] := by
  rw [Site.HoldsBoth, hs.patchedRegions_eq]
  constructor
  · intro h
    by_cases hp : s.pristine.occurrences c = []
    · exact .inl hp
    · by_cases hm : m.occurrences c = []
      · exact .inr hm
      · exact absurd ⟨hp, hm⟩ h
  · rintro (hp | hm) ⟨hp', hm'⟩
    · exact hp' hp
    · exact hm' hm

/-- Where the delivered region stands several times, every step fails alike. -/
theorem patch_of_pristines (h : 2 ≤ (s.pristine.occurrences c).length) :
    s.patch names c
      = .error (.ambiguousMatch s.id s.path (s.pristine.occurrences c).length) := by
  rw [Site.patch, Site.plan_of_pristines h]

/-- Where the patched region stands several times, every step fails alike. -/
theorem patch_of_merges (hs : s.Patchable k m) (hp : s.pristine.occurrences c = [])
    (hm : 2 ≤ (m.occurrences c).length) :
    s.patch names c = .error (.ambiguousMatch s.id s.path (m.occurrences c).length) := by
  rw [Site.patch, hs.plan_of_merges hp hm]

/-- Where neither region stands, a step only looks for the tokens. -/
theorem patch_of_neither (hs : s.Patchable k m) (hp : s.pristine.occurrences c = [])
    (hm : m.occurrences c = []) :
    s.patch names c
      = if s.isFullyApplied c names = true then .ok c
        else .error (.patternMismatch s.id s.path) := by
  rw [Site.patch, hs.plan_of_neither hp hm, Site.planTokens]
  by_cases h : s.isFullyApplied c names = true
  · rw [if_pos h, if_pos h]
    rfl
  · rw [if_neg h, if_neg h]

/-- Without extra names, a step leaves a delivered region alone. -/
theorem patch_of_isEmpty (hp : s.pristine.occurrences c = [o]) (hnames : names.isEmpty = true) :
    s.patch names c = .ok c := by
  rw [Site.patch, Site.plan_of_pristine hp, Site.planRewrite, if_pos hnames]
  rfl

/-- All the tokens for two sets of names stand in a text exactly when those for each set do. -/
theorem isFullyApplied_union (s : Site) (c : Text) (a b : NameSet) :
    s.isFullyApplied c (a.union b) = (s.isFullyApplied c a && s.isFullyApplied c b) := by
  rw [Bool.eq_iff_iff, Bool.and_eq_true]
  simp only [Site.isFullyApplied, Site.tokens, ConditionForm.tokens, ConditionForm.checks,
    List.all_cons, List.all_map, Bool.and_eq_true, List.all_eq_true, Function.comp_apply,
    NameSet.mem_toList_union]
  constructor
  · rintro ⟨hbase, hall⟩
    exact ⟨⟨hbase, fun n hn => hall n (.inl hn)⟩, hbase, fun n hn => hall n (.inr hn)⟩
  · rintro ⟨⟨hbase, ha⟩, -, hb⟩
    exact ⟨hbase, fun n hn => hn.elim (ha n) (hb n)⟩

/-- A union with a set that is not empty is not empty. -/
theorem isEmpty_union {a b : NameSet} (h : a.isEmpty = false) : (a.union b).isEmpty = false := by
  rw [NameSet.isEmpty_eq_false_iff] at h ⊢
  obtain ⟨n, hn⟩ := h
  exact ⟨n, NameSet.mem_toList_union.mpr (.inl hn)⟩

/-- Extending an occurrence twice is extending it for both sets of names. -/
theorem extended_extended (hs : s.Patchable k m) (o : Occurrence) (a b : NameSet) :
    (o.extended s.condition a).extended s.condition b = o.extended s.condition (a.union b) := by
  obtain ⟨htrim, hblank⟩ := trimEnd_extended o s.condition a
  rw [Occurrence.extended, htrim, hblank, ConditionForm.extended_extended hs.plain]
  rfl

/-- Where neither region stands, two steps look for the tokens of both sets in the same text. -/
theorem patch_union_of_neither (hs : s.Patchable k m) (hp : s.pristine.occurrences c = [])
    (hm : m.occurrences c = []) (a b : NameSet) :
    (∃ e, s.patch a c = .error e ∧ s.patch (a.union b) c = .error e) ∨
      s.patch a c = .ok c ∧ s.patch b c = s.patch (a.union b) c := by
  by_cases ha : s.isFullyApplied c a = true
  · refine .inr ⟨?_, ?_⟩
    · rw [hs.patch_of_neither hp hm, if_pos ha]
    · rw [hs.patch_of_neither hp hm, hs.patch_of_neither hp hm, isFullyApplied_union, ha,
        Bool.true_and]
  · refine .inl ⟨.patternMismatch s.id s.path, ?_, ?_⟩
    · rw [hs.patch_of_neither hp hm, if_neg ha]
    · have hunion : ¬ s.isFullyApplied c (a.union b) = true := by
        rw [isFullyApplied_union, Bool.and_eq_true]
        exact fun h => ha h.1
      rw [hs.patch_of_neither hp hm, if_neg hunion]

/-- Where the delivered region stands alone, the first step rewrites it, and the second extends what
the first has written. -/
theorem patch_union_of_pristine (hs : s.Patchable k m) (hp : s.pristine.occurrences c = [o])
    (hm : m.occurrences c = []) {a : NameSet} (ha : a.isEmpty = false) (b : NameSet) :
    ∃ c', s.patch a c = .ok c' ∧ s.patch b c' = s.patch (a.union b) c := by
  obtain ⟨lead, tail, hstep⟩ := hs.patch_of_pristine hp hm
  obtain ⟨hpatch, hgone, hnew⟩ := hstep a ha
  obtain ⟨hpatch', -, -⟩ := hstep (a.union b) (isEmpty_union ha)
  refine ⟨_, hpatch, ?_⟩
  have htrim : (s.condition.build a).Trimmed := by
    rw [ConditionForm.build_eq]
    exact s.condition.trimmed_extend s.condition.trimmed_baseCheck
  have hcondition : s.condition.extended (s.condition.build a) b
      = s.condition.build (a.union b) := by
    rw [ConditionForm.build_eq_extended hs.plain, ConditionForm.build_eq_extended hs.plain,
      ConditionForm.extended_extended hs.plain]
  have hblank : (s.condition.build a).blankEnd = [] := Text.blankEnd_of_trimmed htrim
  rw [(hs.patch_of_merge hgone hnew b).1, hpatch']
  simp only [Occurrence.extended, Occurrence.withMarked, Text.trimEnd_of_trimmed htrim, hblank,
    List.append_nil, hcondition]

/-- **Two steps are one step for both sets of names**: the first fails as the one step does, or the
second goes on to where the one step leads. -/
theorem patch_union (hs : s.Patchable k m)
    (hnot : s.pristine.occurrences c = [] ∨ m.occurrences c = []) (a b : NameSet) :
    (∃ e, s.patch a c = .error e ∧ s.patch (a.union b) c = .error e) ∨
      ∃ c', s.patch a c = .ok c' ∧ s.patch b c' = s.patch (a.union b) c := by
  rcases hp : s.pristine.occurrences c with _ | ⟨o, _ | ⟨p, os⟩⟩
  · rcases hm : m.occurrences c with _ | ⟨o, _ | ⟨p, os⟩⟩
    · exact (hs.patch_union_of_neither hp hm a b).imp_right fun h => ⟨c, h⟩
    · -- both steps extend the condition of the patched region
      obtain ⟨hpatch, hgone, hnew⟩ := hs.patch_of_merge hp hm a
      refine .inr ⟨_, hpatch, ?_⟩
      rw [(hs.patch_of_merge hgone hnew b).1, (hs.patch_of_merge hp hm (a.union b)).1,
        hs.extended_extended]
    · have hmany : 2 ≤ (m.occurrences c).length := by
        rw [hm, List.length_cons, List.length_cons]
        omega
      exact .inl ⟨_, hs.patch_of_merges hp hmany, hs.patch_of_merges hp hmany⟩
  · have hm : m.occurrences c = [] := by
      refine hnot.resolve_left fun h => ?_
      rw [hp] at h
      exact absurd h (by simp)
    by_cases ha : a.isEmpty = true
    · refine .inr ⟨c, patch_of_isEmpty hp ha, ?_⟩
      rw [NameSet.union_of_isEmpty ha]
    · exact .inr (hs.patch_union_of_pristine hp hm (by simpa using ha) b)
  · have hmany : 2 ≤ (s.pristine.occurrences c).length := by
      rw [hp, List.length_cons, List.length_cons]
      omega
    exact .inl ⟨_, patch_of_pristines hmany, patch_of_pristines hmany⟩

/-- Two steps at the start of several can be made one. -/
theorem patchAll_cons_cons (hs : s.Patchable k m)
    (hnot : s.pristine.occurrences c = [] ∨ m.occurrences c = []) (a b : NameSet)
    (rest : List NameSet) : s.patchAll (a :: b :: rest) c = s.patchAll (a.union b :: rest) c := by
  rw [Site.patchAll, Site.patchAll]
  rcases hs.patch_union hnot a b with ⟨e, ha, hunion⟩ | ⟨c', ha, hb⟩
  · rw [ha, hunion]
  · rw [ha, ← hb]
    rfl

/-- Steps for several sets of names, the first of which is `a`. -/
theorem patchAll_cons (hs : s.Patchable k m)
    (hnot : s.pristine.occurrences c = [] ∨ m.occurrences c = []) (a : NameSet)
    (rest : List NameSet) : s.patchAll (a :: rest) c = s.patch (rest.foldl NameSet.union a) c := by
  induction rest generalizing a with
  | nil =>
    rw [List.foldl_nil, Site.patchAll]
    cases s.patch a c <;> rfl
  | cons b rest ih =>
    rw [hs.patchAll_cons_cons hnot, List.foldl_cons]
    exact ih (a.union b)

/-- **Patching for several sets of names, one after the other, is patching once for their union**,
unless the text holds both a delivered and a patched region. -/
theorem patchAll_eq (hs : s.Patchable k m) (hc : ¬ s.HoldsBoth c) {sets : List NameSet}
    (hsets : sets ≠ []) :
    ∃ u, NameSet.ofEntries (sets.flatMap NameSet.toList) = .ok u ∧
      s.patchAll sets c = s.patch u c := by
  cases sets with
  | nil => exact absurd rfl hsets
  | cons a rest =>
    refine ⟨rest.foldl NameSet.union a, ?_, hs.patchAll_cons (hs.not_holdsBoth_iff.mp hc) a rest⟩
    rw [NameSet.ofEntries_flatMap, List.foldl_cons, NameSet.empty_union]

end Site.Patchable

end SitePatch
