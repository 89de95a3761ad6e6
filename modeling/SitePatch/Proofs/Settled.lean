import SitePatch.Proofs.Overlap

/-! # Texts that are settled

A text is settled for a site and a set of names if the site finds no delivered region and all the
checks, either in the only patched region or, where there is none, anywhere. Then no step for these
names, or for fewer, has anything to do (`Site.Patchable.plan_of_settled`). A step settles the text,
unless it held both a delivered and a patched region: then it leaves two patched regions, and the
text is stuck, for every further step fails (`Site.Patchable.plan_of_stuck`). Main statement: a text
stays settled, or stuck, when whole lines are exchanged for others that hold the same words
(`Site.Patchable.settled_of_exchanged`). -/

namespace SitePatch

namespace Site

/-- **No step for the names, or for fewer, has anything to do.** -/
structure Settled (s : Site) (names : NameSet) (c : Text) : Prop where
  pristine : s.pristine.occurrences c = []
  checks : (∃ m, (s.patchedRegions c).map Occurrence.marked = [m] ∧
      ∀ n ∈ names.toList, (s.condition.check n).occursIn m = true) ∨
    (s.patchedRegions c).map Occurrence.marked = [] ∧ s.isFullyApplied c names = true

/-- **Every step fails**, for the patched region stands several times. -/
structure Stuck (s : Site) (c : Text) : Prop where
  pristine : s.pristine.occurrences c = []
  several : 2 ≤ (s.patchedRegions c).length

/-- **What a step makes of the text `c`**: the text is settled, or stuck if it held both a delivered
and a patched region. -/
def Outcome (s : Site) (names : NameSet) (c c' : Text) : Prop :=
  (¬ s.HoldsBoth c ∧ s.Settled names c') ∨ (s.HoldsBoth c ∧ s.Stuck c')

/-- What a step does to the lines of a region: it rewrites a delivered region, or extends the
condition of a patched region. -/
inductive Exchanges (s : Site) (m : Shape) (names : NameSet) : Occurrence → Occurrence → Prop
  | rewrite {o o' : Occurrence} (h : s.pristine.Fits o) (h' : m.Fits o')
      (hbefore : o'.before = o.before) (hafter : o'.after = o.after)
      (hregion : o'.region = s.patched o.marked names) : Exchanges s m names o o'
  | extend {o : Occurrence} (h : m.Fits o) (h' : m.Fits (o.extended s.condition names)) :
    Exchanges s m names o (o.extended s.condition names)

/-- Whether a step at `s'`, whose patched regions have the shape `m'`, spares the checks of `s`: no
delivered region of `s'` has the field of `s`, and behind its conditions stands a character of which
no check is made. -/
def sparesChecks (s s' : Site) (m' : Shape) : Bool :=
  (s'.pristine.pattern.solid?.any fun t => !s.condition.field.occursIn t) &&
    m'.tail.firstChar?.any fun d => !ConditionForm.isCheckChar d

/-- **A step at `s'` leaves a text settled for `s`, or stuck.** -/
structure Spares (s s' : Site) : Prop where
  settled : ∀ {names : NameSet} {file c c' : Text} {p : Plan}, s.Settled names c →
    s'.plan names file c = .ok p → p.applyTo c = .ok c' → s.Settled names c'
  stuck : ∀ {names : NameSet} {file c c' : Text} {p : Plan}, s.Stuck c →
    s'.plan names file c = .ok p → p.applyTo c = .ok c' → s.Stuck c'

/-- What a step has made of a text is not undone by a step that spares the site. -/
theorem Spares.outcome {s s' : Site} {names : NameSet} {file c c' before : Text} {p : Plan}
    (hspares : s.Spares s') (h : s.Outcome names before c) (hplan : s'.plan names file c = .ok p)
    (happly : p.applyTo c = .ok c') : s.Outcome names before c' := by
  rcases h with ⟨hnot, hsettled⟩ | ⟨hboth, hstuck⟩
  · exact .inl ⟨hnot, hspares.settled hsettled hplan happly⟩
  · exact .inr ⟨hboth, hspares.stuck hstuck hplan happly⟩

namespace Patchable

variable {s s' : Site} {k k' : Opening} {m m' : Shape} {names fewer : NameSet} {file c c' : Text}
  {o o' : Occurrence} {p : Plan}

/-! ## Steps over settled and stuck texts -/

/-- **What a plan was made for**: the only delivered region; the only patched region, where no
delivered one stands; or the tokens, where neither stands. -/
theorem plan_cases (hs : s.Patchable k m) (hplan : s.plan names file c = .ok p) :
    (∃ o, s.pristine.occurrences c = [o] ∧ p = s.planRewrite names file o) ∨
      (∃ o, s.pristine.occurrences c = [] ∧ m.occurrences c = [o] ∧
        p = s.planMerge names file o.markedStart o.marked) ∨
      (s.pristine.occurrences c = [] ∧ m.occurrences c = [] ∧
        s.isFullyApplied c names = true ∧ p = .unchanged .tokens) := by
  rcases hp : s.pristine.occurrences c with _ | ⟨o, _ | ⟨o₂, os⟩⟩
  · rcases hm : m.occurrences c with _ | ⟨o, _ | ⟨o₂, os⟩⟩
    · rw [hs.plan_of_neither hp hm, Site.planTokens] at hplan
      split at hplan
      · rename_i happlied
        exact .inr (.inr ⟨rfl, rfl, happlied, (Except.ok.inj hplan).symm⟩)
      · simp at hplan
    · rw [hs.plan_of_merge hp hm] at hplan
      exact .inr (.inl ⟨o, rfl, rfl, (Except.ok.inj hplan).symm⟩)
    · have hmany : 2 ≤ (m.occurrences c).length := by
        rw [hm, List.length_cons, List.length_cons]
        omega
      rw [hs.plan_of_merges hp hmany] at hplan
      simp at hplan
  · rw [Site.plan_of_pristine hp] at hplan
    exact .inl ⟨o, rfl, (Except.ok.inj hplan).symm⟩
  · have hmany : 2 ≤ (s.pristine.occurrences c).length := by
      rw [hp, List.length_cons, List.length_cons]
      omega
    rw [Site.plan_of_pristines hmany] at hplan
    simp at hplan

/-- A plan for a text that needs no change has no edit. -/
theorem unchanged_of_state (hs : s.Patchable k m) {evidence : AppliedBy}
    (hplan : s.plan names file c = .ok p) (hstate : p.state = .applied evidence) :
    p = .unchanged evidence := by
  have hedit : p.edit = none := by
    rcases hs.plan_cases hplan with ⟨o, -, rfl⟩ | ⟨o, -, -, rfl⟩ | ⟨-, -, -, rfl⟩
    · unfold Site.planRewrite at hstate ⊢
      split at hstate
      · rename_i hnames
        rw [if_pos hnames]
        rfl
      · simp at hstate
    · unfold Site.planMerge at hstate ⊢
      dsimp only at hstate ⊢
      split at hstate
      · rename_i hmissing
        rw [if_pos hmissing]
        rfl
      · simp at hstate
    · rfl
  obtain ⟨state, edit⟩ := p
  subst hstate hedit
  rfl

/-- In a settled text, there is nothing to do. -/
theorem plan_of_settled (hs : s.Patchable k m) (h : s.Settled names c)
    (hfewer : ∀ n ∈ fewer.toList, n ∈ names.toList) (file : Text) :
    ∃ evidence, s.plan fewer file c = .ok (.unchanged evidence) := by
  obtain ⟨hp, hchecks⟩ := h
  rw [hs.patchedRegions_eq] at hchecks
  rcases hchecks with ⟨t, hm, hall⟩ | ⟨hm, happlied⟩
  · obtain ⟨o, honly, rfl⟩ := List.map_eq_singleton_iff.mp hm
    -- every check of the smaller set stands in the condition already
    have hmissing : (s.condition.missing o.marked.trimEnd fewer).isEmpty = true := by
      rw [List.isEmpty_iff, List.eq_nil_iff_forall_not_mem]
      intro check hmem
      obtain ⟨hcheck, habsent⟩ := ConditionForm.mem_missing.mp hmem
      obtain ⟨n, hn, rfl⟩ := List.mem_map.mp hcheck
      have hpresent := hall n (hfewer n hn)
      rw [← Text.occursIn_trimEnd_iff (s.condition.check_ne_nil n) (s.condition.trimmed_check n),
        habsent] at hpresent
      exact absurd hpresent (by simp)
    refine ⟨.mergePattern, ?_⟩
    rw [hs.plan_of_merge hp honly, Site.planMerge]
    simp only [hmissing, if_true]
  · rw [List.map_eq_nil_iff] at hm
    have happlied' : s.isFullyApplied c fewer = true := by
      simp only [Site.isFullyApplied, Site.tokens, ConditionForm.tokens, ConditionForm.checks,
        List.all_cons, List.all_map, Bool.and_eq_true, List.all_eq_true,
        Function.comp_apply] at happlied ⊢
      exact ⟨happlied.1, fun n hn => happlied.2 n (hfewer n hn)⟩
    refine ⟨.tokens, ?_⟩
    rw [hs.plan_of_neither hp hm, Site.planTokens, if_pos happlied']

/-- In a stuck text, every step fails. -/
theorem plan_of_stuck (hs : s.Patchable k m) (h : s.Stuck c) (names : NameSet) (file : Text) :
    ∃ e, s.plan names file c = .error e := by
  obtain ⟨hp, hmany⟩ := h
  rw [hs.patchedRegions_eq] at hmany
  exact ⟨_, hs.plan_of_merges hp hmany⟩

/-- Without extra names, a step never has anything to do. -/
theorem plan_of_isEmpty (hs : s.Patchable k m) (hnames : names.isEmpty = true)
    (hplan : s.plan names file c = .ok p) : ∃ evidence, p = .unchanged evidence := by
  have hlist : names.toList = [] := by
    rw [NameSet.toList, List.map_eq_nil_iff]
    exact List.isEmpty_iff.mp hnames
  rcases hs.plan_cases hplan with ⟨o, -, rfl⟩ | ⟨o, -, -, rfl⟩ | ⟨-, -, -, rfl⟩
  · exact ⟨.baseOnly, by rw [Site.planRewrite, if_pos hnames]⟩
  · refine ⟨.mergePattern, ?_⟩
    rw [Site.planMerge, ConditionForm.missing, ConditionForm.checks, hlist]
    rfl
  · exact ⟨.tokens, rfl⟩

/-! ## What a step leaves -/

/-- The checks of all the names stand in the condition that a step leaves. -/
theorem occursIn_extended (hs : s.Patchable k m) (t g : Text) (names : NameSet) :
    ∀ n ∈ names.toList,
      (s.condition.check n).occursIn (s.condition.extended t names ++ g) = true := by
  intro n hn
  apply Text.occursIn_append_left
  exact (ConditionForm.occursIn_extended_iff hs.plain (NameSet.isWord_of_mem hn)).mpr (.inr hn)

/-- The lines that a step exchanges, if it changes the text at all. -/
theorem exists_exchanges (hs : s.Patchable k m) (hplan : s.plan names file c = .ok p)
    (happly : p.applyTo c = .ok c') :
    c' = c ∨ ∃ o o', s.Exchanges m names o o' ∧ o.text = c ∧ o'.text = c' := by
  rcases hs.plan_cases hplan with ⟨o, hp, rfl⟩ | ⟨o, hp, hm, rfl⟩ | ⟨-, -, -, rfl⟩
  · obtain ⟨hfits, htext, -⟩ := (Opening.occurrences_eq_singleton_iff hs.pristine_anchors).mp hp
    by_cases hnames : names.isEmpty = true
    · left
      rw [Site.planRewrite, if_pos hnames] at happly
      exact (Except.ok.inj happly).symm
    · right
      obtain ⟨lead, tail, hrewrite⟩ := hs.rewrite o hfits
      obtain ⟨hpatched, hfits'⟩ := hrewrite names (by simpa using hnames)
      have hindent : s.pristine.indentOf o = o.marked := by
        rw [Shape.indentOf, hs.pristine_mark]
      rw [← htext, Site.applyTo_planRewrite, if_neg hnames, hindent, hpatched,
        Except.ok.injEq] at happly
      exact ⟨o, _, .rewrite hfits hfits' rfl rfl hpatched.symm, htext, happly⟩
  · right
    obtain ⟨hstep, -, hnew⟩ := hs.extend_step hp hm names
    obtain ⟨hfits, htext, -⟩ := (Opening.occurrences_eq_singleton_iff hs.merge_anchors).mp hm
    obtain ⟨hfits', -, -⟩ := (Opening.occurrences_eq_singleton_iff hs.merge_anchors).mp hnew
    rw [hstep, Except.ok.injEq] at happly
    exact ⟨o, _, .extend hfits hfits', htext, happly⟩
  · exact .inl (Except.ok.inj happly).symm

/-- **A step settles the text, or leaves it stuck** if it held both a delivered and a patched
region. -/
theorem outcome_of_plan (hs : s.Patchable k m) (hnames : names.isEmpty = false)
    (hplan : s.plan names file c = .ok p) (happly : p.applyTo c = .ok c') :
    s.Outcome names c c' := by
  rcases hs.plan_cases hplan with ⟨o, hp, rfl⟩ | ⟨o, hp, hm, rfl⟩ | ⟨hp, hm, happlied, rfl⟩
  · obtain ⟨lead, tail, hrewrite⟩ := hs.rewrite_step hp
    obtain ⟨hstep, hgone, hfits, hlength⟩ := hrewrite names hnames
    rw [hstep, Except.ok.injEq] at happly
    subst happly
    by_cases hm : m.occurrences c = []
    · left
      refine ⟨fun h => h.2 (by rw [hs.patchedRegions_eq, hm]), hgone, ?_⟩
      -- the new region is the only patched one
      rw [hm, List.length_nil, Nat.zero_add] at hlength
      have honly := hs.occurrences_eq_of_length hfits hlength
      refine .inl ⟨s.condition.build names, by rw [hs.patchedRegions_eq, honly]; rfl, ?_⟩
      have hall := hs.occursIn_extended s.condition.baseCheck [] names
      rwa [List.append_nil, ← ConditionForm.build_eq_extended hs.plain] at hall
    · right
      refine ⟨⟨by rw [hp]; simp, by rwa [hs.patchedRegions_eq]⟩, hgone, ?_⟩
      rw [hs.patchedRegions_eq, hlength]
      have hpos := List.length_pos_iff.mpr hm
      omega
  · left
    obtain ⟨hstep, hgone, hnew⟩ := hs.extend_step hp hm names
    rw [hstep, Except.ok.injEq] at happly
    subst happly
    refine ⟨fun h => h.1 hp, hgone, .inl ⟨_, by rw [hs.patchedRegions_eq, hnew]; rfl, ?_⟩⟩
    exact hs.occursIn_extended _ _ names
  · left
    obtain rfl := Except.ok.inj happly
    exact ⟨fun h => h.1 hp, hp, .inr ⟨by rw [hs.patchedRegions_eq, hm, List.map_nil], happlied⟩⟩

/-! ## Exchanged lines -/

/-- The tokens of a site are written like comparisons of its field. -/
theorem isToken_of_mem_tokens (hs : s.Patchable k m) {t : Text} (ht : t ∈ s.tokens names) :
    s.condition.IsToken t := by
  rcases List.mem_cons.mp ht with rfl | ht
  · exact ConditionForm.isToken_baseCheck hs.plain
  · obtain ⟨n, hn, rfl⟩ := List.mem_map.mp ht
    exact ConditionForm.isToken_check hs.plain (NameSet.isWord_of_mem hn)

/-- The tokens of a site stand in one line. -/
theorem newline_not_mem_of_mem_tokens (hs : s.Patchable k m) {t : Text}
    (ht : t ∈ s.tokens names) : '\n' ∉ t := by
  intro hmem
  have hcheck := (hs.isToken_of_mem_tokens ht).chars _ hmem
  exact absurd hcheck (by decide)

/-- The field of a site has no white space. -/
theorem filter_field (hs : s.Patchable k m) :
    (s.condition.field.filter fun c => !Text.isBlank c) = s.condition.field := by
  rw [List.filter_eq_self]
  intro c hc
  have hplain := hs.plain
  simp only [ConditionForm.isPlain, Bool.and_eq_true, List.all_eq_true, Bool.or_eq_true,
    beq_iff_eq] at hplain
  rcases hplain.2 c hc with (h | rfl) | rfl
  · rw [Text.not_isBlank_of_isIdentChar h]
    rfl
  · decide
  · decide

/-- **No token is lost in the lines that a step exchanges**, if the step spares the checks. -/
theorem occursIn_of_exchanges (hs : s.Patchable k m) (hspares : s.sparesChecks s' m' = true)
    (hex : s'.Exchanges m' names o o') {t : Text} (ht : t ∈ s.tokens fewer)
    (hoccurs : t.occursIn o.region = true) : t.occursIn o'.region = true := by
  obtain ⟨⟨rest, hfield⟩, hchars, htrim⟩ := hs.isToken_of_mem_tokens ht
  rw [Site.sparesChecks, Bool.and_eq_true] at hspares
  obtain ⟨hsolid, htail⟩ := hspares
  cases hex with
  | rewrite h =>
    -- the field does not stand in a delivered region at all
    obtain ⟨x, hx, hlacks⟩ := (Option.any_eq_true _ _).mp hsolid
    rw [Text.occursIn_iff_isInfix, ← hfield] at hoccurs
    -- without its white space, the region is what its words make up
    have hinside : s.condition.field <:+: x := by
      have hfilter := ((List.prefix_append _ _).isInfix.trans hoccurs).filter
        fun c => !Text.isBlank c
      rwa [hs.filter_field, Pattern.filter_of_solid? hx h.takes] at hfilter
    rw [← Text.occursIn_iff_isInfix] at hinside
    rw [hinside] at hlacks
    exact absurd hlacks (by simp)
  | extend h h' =>
    obtain ⟨d, hd, hcheck⟩ := (Option.any_eq_true _ _).mp htail
    obtain ⟨-, g, u, hg, hblank⟩ := Pattern.exists_of_firstChar? hd h.tail
    -- no token has the character behind the condition, so none reaches over it
    have hmem : d ∉ t := by
      intro hmem
      rw [hchars d hmem] at hcheck
      exact absurd hcheck (by simp)
    have hregion : o.region = (o.lead ++ o.marked.trimEnd)
        ++ ((o.marked.blankEnd ++ g) ++ d :: u) := by
      rw [Occurrence.region, hg]
      conv => lhs; rw [← o.marked.trimEnd_append_blankEnd]
      simp
    have hregion' : ∃ ins, (o.extended s'.condition names).region
        = (o.lead ++ o.marked.trimEnd) ++ ins ++ ((o.marked.blankEnd ++ g) ++ d :: u) := by
      refine ⟨(s'.condition.absent o.marked.trimEnd names).flatMap fun n =>
        s'.condition.connective ++ s'.condition.check n, ?_⟩
      rw [Occurrence.extended, Occurrence.withMarked, Occurrence.region, hg,
        ConditionForm.extended, ConditionForm.extend]
      simp
    obtain ⟨ins, hregion'⟩ := hregion'
    rw [hregion']
    rw [hregion] at hoccurs
    refine Text.occursIn_insert htrim hmem (fun c hc => ?_) hoccurs
    exact (List.mem_append.mp hc).elim (Text.blank_of_mem_blankEnd c) (hblank c)

section Exchanged

variable (hs : s.Patchable k m)
  (hp : Exchanged o.region o'.region ((s.pristine.occurrences o.text).map Occurrence.marked)
    ((s.pristine.occurrences o'.text).map Occurrence.marked))
  (hm : Exchanged o.region o'.region ((m.occurrences o.text).map Occurrence.marked)
    ((m.occurrences o'.text).map Occurrence.marked))

include hs hp hm

/-- **A text stays settled when whole lines are exchanged for others that hold the same tokens.** -/
theorem settled_of_exchanged (hline : o.before.EndsLine) (hlines : o.region.EndsLine)
    (hlines' : o'.region.EndsLine) (hbefore : o'.before = o.before) (hafter : o'.after = o.after)
    (htokens : ∀ t ∈ s.tokens names, t.occursIn o.region = true → t.occursIn o'.region = true)
    (h : s.Settled names o.text) : s.Settled names o'.text := by
  obtain ⟨hgone, hchecks⟩ := h
  -- as many regions are found as before
  have hgone' : s.pristine.occurrences o'.text = [] := by
    have hlength := hp.length_eq
    rw [hgone, List.map_nil, List.length_nil, List.length_map] at hlength
    exact List.length_eq_zero_iff.mp hlength
  refine ⟨hgone', ?_⟩
  rw [hs.patchedRegions_eq] at hchecks ⊢
  rcases hchecks with ⟨t, ht, hall⟩ | ⟨hnone, happlied⟩
  · left
    rw [ht] at hm
    obtain ⟨t', ht', hsame | ⟨p, q, hp, rfl, rfl⟩⟩ := hm.exists_of_singleton
    · exact ⟨t', ht', hsame ▸ hall⟩
    · -- the lines stand inside the condition
      refine ⟨_, ht', fun n hn => ?_⟩
      have hmem : s.condition.check n ∈ s.tokens names :=
        List.mem_cons_of_mem _ (List.mem_map_of_mem hn)
      have hnewline := hs.newline_not_mem_of_mem_tokens hmem
      have hn' := hall n hn
      rw [Text.occursIn_lines_iff hnewline hp hlines] at hn'
      rw [Text.occursIn_lines_iff hnewline hp hlines']
      exact hn'.imp_right (Or.imp_left (htokens _ hmem))
  · right
    have hlength := hm.length_eq
    rw [hnone, List.length_nil] at hlength
    refine ⟨List.length_eq_zero_iff.mp hlength, ?_⟩
    rw [Site.isFullyApplied, List.all_eq_true] at happlied ⊢
    intro t ht
    have hnewline := hs.newline_not_mem_of_mem_tokens ht
    have ht' := happlied t ht
    rw [Occurrence.text, Text.occursIn_lines_iff hnewline hline hlines] at ht'
    rw [Occurrence.text, hbefore, hafter, Text.occursIn_lines_iff hnewline hline hlines']
    exact ht'.imp_right (Or.imp_left (htokens t ht))

/-- A text stays stuck when whole lines are exchanged. -/
theorem stuck_of_exchanged (h : s.Stuck o.text) : s.Stuck o'.text := by
  obtain ⟨hgone, hmany⟩ := h
  constructor
  · have hlength := hp.length_eq
    rw [hgone, List.map_nil, List.length_nil, List.length_map] at hlength
    exact List.length_eq_zero_iff.mp hlength
  · have hlength := hm.length_eq
    rw [List.length_map, List.length_map] at hlength
    rw [hs.patchedRegions_eq] at hmany ⊢
    omega

end Exchanged

/-! ## Steps at other sites -/

/-- The lines that a step exchanges stand in one place, and are whole lines. -/
theorem spec_of_exchanges (hs : s.Patchable k m) (hex : s.Exchanges m names o o') :
    (o'.before = o.before ∧ o'.after = o.after) ∧ o.before.EndsLine ∧
      (∃ u, o.region = u ++ ['\n']) ∧ ∃ u, o'.region = u ++ ['\n'] := by
  cases hex with
  | rewrite h h' hbefore hafter =>
    exact ⟨⟨hbefore, hafter⟩, h.endsLine, Opening.exists_region_of_fits hs.pristine_anchors h,
      Opening.exists_region_of_fits hs.merge_anchors h'⟩
  | extend h h' =>
    exact ⟨⟨rfl, rfl⟩, h.endsLine, Opening.exists_region_of_fits hs.merge_anchors h,
      Opening.exists_region_of_fits hs.merge_anchors h'⟩

/-- **A site is spared if it finds the same regions** before and after a step at the other site, but
for the lines that the step exchanges, and if its checks are spared. -/
theorem spares_of_exchanged (hs : s.Patchable k m) (hs' : s'.Patchable k' m')
    (hspares : s.sparesChecks s' m' = true)
    (hex : ∀ names o o', s'.Exchanges m' names o o' →
      Exchanged o.region o'.region ((s.pristine.occurrences o.text).map Occurrence.marked)
          ((s.pristine.occurrences o'.text).map Occurrence.marked) ∧
        Exchanged o.region o'.region ((m.occurrences o.text).map Occurrence.marked)
          ((m.occurrences o'.text).map Occurrence.marked)) : s.Spares s' where
  settled {names file c c' p} hsettled hplan happly := by
    rcases hs'.exists_exchanges hplan happly with rfl | ⟨o, o', h, rfl, rfl⟩
    · exact hsettled
    · obtain ⟨hp, hm⟩ := hex names o o' h
      obtain ⟨⟨hbefore, hafter⟩, hline, ⟨u, hu⟩, u', hu'⟩ := hs'.spec_of_exchanges h
      refine hs.settled_of_exchanged hp hm hline ?_ ?_ hbefore hafter
        (fun t ht => hs.occursIn_of_exchanges hspares h ht) hsettled
      · rw [hu]
        exact Text.endsLine_append_newline u
      · rw [hu']
        exact Text.endsLine_append_newline u'
  stuck {names file c c' p} hstuck hplan happly := by
    rcases hs'.exists_exchanges hplan happly with rfl | ⟨o, o', h, rfl, rfl⟩
    · exact hstuck
    · obtain ⟨hp, hm⟩ := hex names o o' h
      exact hs.stuck_of_exchanged hp hm hstuck

/-- A shape with the opening of a site finds the same regions before and after a step there, if no
region of the site starts like the shape's. -/
theorem exchanged_of_apart {g : Shape} (hk : k'.anchors g = true) (hs' : s'.Patchable k' m')
    (hp : Pattern.apart g.pattern s'.pristine.pattern = true)
    (hm : Pattern.apart g.pattern m'.pattern = true) (hex : s'.Exchanges m' names o o') :
    Exchanged o.region o'.region ((g.occurrences o.text).map Occurrence.marked)
      ((g.occurrences o'.text).map Occurrence.marked) := by
  cases hex with
  | rewrite h h' hbefore hafter =>
    exact Opening.exchanged_of_clear hk (Opening.clear_of_anchors hk hs'.pristine_anchors h)
      (Opening.clear_of_anchors hk hs'.merge_anchors h') hbefore hafter
      (Shape.startingAt?_of_apart hp h) (Shape.startingAt?_of_apart hm h')
  | extend h h' =>
    exact Opening.exchanged_of_clear hk (Opening.clear_of_anchors hk hs'.merge_anchors h)
      (Opening.clear_of_anchors hk hs'.merge_anchors h') rfl rfl
      (Shape.startingAt?_of_apart hm h) (Shape.startingAt?_of_apart hm h')

/-- Sites with the same shapes and conditions spare each other, for what is settled for one is
settled for the other. -/
theorem spares_of_same (hs : s.Patchable k m) (hs' : s'.Patchable k m)
    (hpristine : s'.pristine = s.pristine) (hcondition : s'.condition = s.condition) :
    s.Spares s' where
  settled {names file c c' p} hsettled hplan happly := by
    have hsettled' : s'.Settled names c := by
      obtain ⟨hp, hchecks⟩ := hsettled
      rw [hs.patchedRegions_eq] at hchecks
      refine ⟨by rw [hpristine, hp], ?_⟩
      rw [hs'.patchedRegions_eq, hcondition, Site.isFullyApplied, Site.tokens, hcondition]
      exact hchecks
    obtain ⟨evidence, hquiet⟩ := hs'.plan_of_settled hsettled' (fun _ hn => hn) file
    rw [hquiet] at hplan
    rw [← Except.ok.inj hplan] at happly
    rwa [← Except.ok.inj happly]
  stuck {names file c c' p} hstuck hplan happly := by
    have hstuck' : s'.Stuck c := by
      obtain ⟨hp, hmany⟩ := hstuck
      rw [hs.patchedRegions_eq] at hmany
      exact ⟨by rw [hpristine, hp], by rwa [hs'.patchedRegions_eq]⟩
    obtain ⟨e, hfails⟩ := hs'.plan_of_stuck hstuck' names file
    rw [hfails] at hplan
    exact absurd hplan (by simp)

end Patchable

end Site

end SitePatch
