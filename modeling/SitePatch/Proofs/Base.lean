import SitePatch.Proofs.Crossing
import SitePatch.Proofs.Meaning
import SitePatch.Proofs.Presence

/-! # Conditions that do not test the base name

Checks are put behind a condition that was found, so the check of the base name has to be there
already. The conditions that the matchers and the linter recognise start with it. The tracer
recognises any text without parentheses: white space, or a condition that only tests other names
(`Luau.recognises_of_parenFree`). Main statement: which conditions test the base name, and that a
step neither adds nor removes the test (`Luau.testsBase_of_merge`). -/

namespace SitePatch

namespace Text

variable {needle t u v w : Text} {d : Char}

/-- The text is white space. -/
def Blank (t : Text) : Prop := ∀ c ∈ t, isBlank c = true

instance (t : Text) : Decidable t.Blank :=
  decidable_of_decidable_of_iff (p := t.all isBlank = true) List.all_eq_true

/-- White space is what trimming takes away. -/
theorem trimEnd_eq_nil_iff : t.trimEnd = [] ↔ t.Blank := by
  constructor
  · intro h
    have hsplit := t.trimEnd_append_blankEnd
    rw [h, List.nil_append] at hsplit
    rw [← hsplit]
    exact fun _ => blank_of_mem_blankEnd _
  · intro h
    have htrim := trimEnd_append (u := []) (w := t) (by simp [Trimmed]) h
    rwa [List.nil_append] at htrim

/-! ## Whole tokens in parts of a text -/

/-- Where a text stops a run, so does its beginning. -/
theorem StopsAt.left {has : Char → Bool} (h : StopsAt has (u ++ v)) : StopsAt has u := by
  by_cases hu : u = []
  · simp [hu]
  · exact (stopsAt_append_iff hu).mp h

/-- A whole token stays one when what follows the text is no identifier. -/
theorem DelimitedIn.append_right (h : needle.DelimitedIn t) (hu : u.StopsAt isIdentChar) :
    needle.DelimitedIn (t ++ u) := by
  obtain ⟨before, after, rfl, hbefore, hafter⟩ := h
  refine ⟨before, after ++ u, by simp, hbefore, fun hend => ?_⟩
  by_cases hne : after = []
  · rwa [hne, List.nil_append]
  · exact (stopsAt_append_iff hne).mpr (hafter hend)

/-- A whole token does not lie in the white space at the end. -/
theorem delimitedIn_append_blank_iff (hne : needle ≠ []) (hn : needle.Trimmed) (hw : w.Blank) :
    needle.DelimitedIn (t ++ w) ↔ needle.DelimitedIn t := by
  constructor
  · rintro ⟨before, after, heq, hbefore, hafter⟩
    rcases List.append_eq_append_iff.mp heq with ⟨x, hx, hwx⟩ | ⟨x, rfl, rfl⟩
    · cases x with
      | nil => exact ⟨before, [], by simpa using hx.symm, hbefore, by simp⟩
      | cons c x =>
        -- the token would end with white space
        have htrim : Trimmed (before ++ needle) := (trimmed_append_iff hne).mpr hn
        rw [hx, trimmed_append_iff (by simp)] at htrim
        have hlast := htrim _ (List.getLast?_eq_some_getLast (List.cons_ne_nil c x))
        rw [hw _ (by rw [hwx]; exact List.mem_append_left _ (List.getLast_mem _))] at hlast
        exact absurd hlast (by simp)
    · exact ⟨before, x, rfl, hbefore, fun hend => (hafter hend).left⟩
  · intro h
    refine h.append_right fun c hc => ?_
    exact not_isIdentChar_of_isBlank (hw c (List.mem_of_mem_head? hc))

/-- A whole token lies on one side of a character that it lacks. -/
theorem DelimitedIn.of_append_cons (h : needle.DelimitedIn (u ++ d :: v)) (hd : d ∉ needle) :
    needle.DelimitedIn u ∨ needle.DelimitedIn v := by
  obtain ⟨before, after, heq, hbefore, hafter⟩ := h
  rcases Luau.exists_of_append_eq heq.symm with ⟨y, hy, rfl⟩ | ⟨x, rfl, rfl⟩
  · rcases Luau.exists_of_append_eq hy with ⟨b, rfl, rfl⟩ | ⟨x, -, hx⟩
    · refine .inr ⟨b, after, rfl, ?_, hafter⟩
      by_cases hb : b = []
      · simp [hb, EndsFree]
      · rw [endsFree_append_iff (by simp)] at hbefore
        exact (endsFree_append_iff (u := [d]) hb).mp hbefore
    · exact absurd (by rw [hx]; simp) hd
  · exact .inl ⟨before, x, rfl, hbefore, fun hend => (hafter hend).left⟩

end Text

/-! ## The test of the base name -/

namespace ConditionForm

variable {f : ConditionForm} {g g' t u v w n : Text} {ns : List Text} {names : NameSet}

/-- The base name as it is written at a site. -/
def baseOperand (f : ConditionForm) : Text :=
  match f.base with
  | .literal => '"' :: (baseName ++ ['"'])
  | .identifier => baseName

/-- The comparison of the field with the base name, with `g` and `g'` around the operator. -/
def baseTest (f : ConditionForm) (g g' : Text) : Text :=
  f.field ++ g ++ f.comparison.operator ++ g' ++ f.baseOperand

/-- **The text tests the base name**: the comparison with it stands there as a whole token, up to
white space. -/
def TestsBase (f : ConditionForm) (t : Text) : Prop :=
  ∃ g g', Text.Blank (g ++ g') ∧ (f.baseTest g g').DelimitedIn t

/-- **The text starts with the connective**, behind white space. -/
def LeadsWithConnective (f : ConditionForm) (t : Text) : Prop :=
  f.connective.trim <+: t.dropWhile Text.isBlank

instance (f : ConditionForm) (t : Text) : Decidable (f.LeadsWithConnective t) :=
  inferInstanceAs (Decidable (f.connective.trim <+: t.dropWhile Text.isBlank))

/-- Without the spaces around it, a connective is its joint twice. -/
theorem trim_connective (f : ConditionForm) :
    f.connective.trim = [f.comparison.joint, f.comparison.joint] := by
  rw [connective]
  cases f.comparison <;> decide

/-- The joint of a connective is no white space. -/
theorem isBlank_joint (c : Comparison) : Text.isBlank c.joint = false := by
  cases c <;> decide

/-- The base operand is made of the characters of checks, and the first one is no white space. -/
theorem exists_baseOperand (f : ConditionForm) :
    (∃ c cs, f.baseOperand = c :: cs ∧ Text.isBlank c = false) ∧ f.baseOperand.Trimmed ∧
      ∀ c ∈ f.baseOperand, isCheckChar c = true := by
  rw [baseOperand]
  cases f.base with
  | literal => exact ⟨⟨_, _, rfl, by decide⟩, by decide, List.all_eq_true.mp (by decide)⟩
  | identifier => exact ⟨⟨_, _, rfl, by decide⟩, by decide, List.all_eq_true.mp (by decide)⟩

/-- The comparison with the base name is not empty. -/
theorem baseTest_ne_nil (f : ConditionForm) (g g' : Text) : f.baseTest g g' ≠ [] := by
  obtain ⟨⟨c, cs, h, -⟩, -⟩ := f.exists_baseOperand
  simp [baseTest, h]

/-- The comparison with the base name does not end with white space. -/
theorem trimmed_baseTest (f : ConditionForm) (g g' : Text) : (f.baseTest g g').Trimmed := by
  obtain ⟨⟨c, cs, h, -⟩, htrim, -⟩ := f.exists_baseOperand
  rw [baseTest, Text.trimmed_append_iff (by simp [h])]
  exact htrim

/-- Every character of a test is white space or one of those that checks are made of. -/
theorem isCheckChar_of_mem_baseTest (hf : f.isPlain = true) (hg : Text.Blank (g ++ g')) {c : Char}
    (hc : c ∈ f.baseTest g g') : Text.isBlank c = true ∨ isCheckChar c = true := by
  simp only [baseTest, List.mem_append] at hc
  have hstem : ∀ d ∈ f.field ++ f.comparison.operator, isCheckChar d = true := by
    intro d hd
    refine isCheckChar_of_mem_stem hf d ?_
    rcases List.mem_append.mp hd with h | h
    all_goals simp [stem, h]
  rcases hc with (((hc | hc) | hc) | hc) | hc
  · exact .inr (hstem c (List.mem_append_left _ hc))
  · exact .inl (hg c (List.mem_append_left _ hc))
  · exact .inr (hstem c (List.mem_append_right _ hc))
  · exact .inl (hg c (List.mem_append_right _ hc))
  · exact .inr (f.exists_baseOperand.2.2 c hc)

/-- The joint of the connective does not stand in the comparison with the base name. -/
theorem joint_not_mem_baseTest (hf : f.isPlain = true) (hg : Text.Blank (g ++ g')) :
    f.comparison.joint ∉ f.baseTest g g' := by
  intro hmem
  have hjoint := isCheckChar_of_mem_baseTest hf hg hmem
  rw [isBlank_joint, isCheckChar_joint] at hjoint
  exact absurd hjoint (by simp)

/-- White space does not test the base name. -/
theorem TestsBase.not_blank (h : f.TestsBase t) : ¬ t.Blank := by
  obtain ⟨g, g', -, hdelimited⟩ := h
  obtain ⟨⟨c, cs, hoperand, hc⟩, -⟩ := f.exists_baseOperand
  intro hblank
  have hmem : c ∈ f.baseTest g g' := by
    rw [baseTest, hoperand]
    simp
  rw [hblank c (Text.mem_of_occursIn hdelimited.occursIn hmem)] at hc
  exact absurd hc (by simp)

/-- The two characters of an operator. -/
theorem exists_operator (hf : f.isPlain = true) :
    ∃ e, f.comparison.operator = [e, '='] ∧ e ∉ f.field ∧ Text.isIdentChar e = false ∧
      Text.isBlank e = false ∧ e ≠ '"' := by
  simp only [isPlain, Bool.and_eq_true, List.all_eq_true] at hf
  have hfield : ∀ e : Char, (Text.isIdentChar e || e == '-' || e == '>') = false → e ∉ f.field := by
    intro e he hmem
    rw [hf.2 e hmem] at he
    exact absurd he (by simp)
  cases f.comparison
  · exact ⟨'=', rfl, hfield _ (by decide), by decide⟩
  · exact ⟨'!', rfl, hfield _ (by decide), by decide⟩

/-- The operand of a check is the base operand only if the name is the base name. -/
theorem eq_baseName_of_baseOperand (hn : n.IsWord) (hg : g.Blank)
    (h : ' ' :: '"' :: (n ++ ['"']) = g ++ (f.baseOperand ++ t)) : n = baseName := by
  have hspace : Text.Blank [' '] := by decide
  rw [baseOperand] at h
  cases hbase : f.base with
  | literal =>
    rw [hbase] at h
    obtain ⟨-, -, hname⟩ := Text.blank_append_inj hspace hg (by decide) (by decide) h
    have hcut : n ++ '"' :: [] = baseName ++ '"' :: t := by simpa using hname
    exact ((Text.append_cons_inj hn.quote_not_mem (by decide)).mp hcut).1
  | identifier =>
    rw [hbase] at h
    obtain ⟨-, hfirst, -⟩ := Text.blank_append_inj hspace hg (d := 'r') (by decide) (by decide) h
    exact absurd hfirst (by decide)

/-- A check of an extra name does not test the base name. -/
theorem not_delimitedIn_check (hf : f.isPlain = true) (hn : n.IsWord) (hbase : n ≠ baseName)
    (hg : Text.Blank (g ++ g')) : ¬ (f.baseTest g g').DelimitedIn (' ' :: f.check n) := by
  rintro ⟨before, after, heq, -⟩
  obtain ⟨e, hop, hfield, hident, hblank, hquote⟩ := exists_operator hf
  have hspace : e ≠ ' ' := by
    rintro rfl
    exact absurd hblank (by decide)
  have hname : e ∉ n := fun h => by simp [hn e h] at hident
  have hleft : e ∉ ' ' :: (f.field ++ [' ']) := by simp [hspace, hfield]
  have hright : e ∉ ' ' :: '"' :: (n ++ ['"']) := by simp [hspace, hquote, hname]
  have hcheck : ' ' :: f.check n
      = (' ' :: (f.field ++ [' '])) ++ e :: '=' :: (' ' :: '"' :: (n ++ ['"'])) := by
    simp [check_eq, stem, hop]
  have htest : before ++ f.baseTest g g' ++ after
      = (before ++ f.field ++ g) ++ e :: '=' :: (g' ++ (f.baseOperand ++ after)) := by
    simp [baseTest, hop]
  rw [hcheck, htest] at heq
  -- the check has one operator, so the one of the test is at the same place
  have hbefore : e ∉ before ++ f.field ++ g := by
    have hcut : ∀ u : Text, List.count e ('=' :: u) = List.count e ['='] + List.count e u := by
      intro u
      rw [← List.count_append, List.singleton_append]
    have hcount := congrArg (List.count e) heq
    rw [List.count_append, List.count_append, List.count_eq_zero_of_not_mem hleft,
      List.count_cons_self, List.count_cons_self, hcut (' ' :: _), hcut (g' ++ _),
      List.count_eq_zero_of_not_mem hright] at hcount
    exact List.count_eq_zero.mp (by omega)
  obtain ⟨-, hrest⟩ := (Text.append_cons_inj hleft hbefore).mp heq
  rw [List.cons.injEq, and_iff_right rfl] at hrest
  exact hbase (eq_baseName_of_baseOperand hn (fun c hc => hg c (List.mem_append_right _ hc)) hrest)

/-! ## Further checks -/

/-- White space at the end does not matter to whether a text tests the base name. -/
theorem testsBase_append_blank_iff (hw : w.Blank) : f.TestsBase (t ++ w) ↔ f.TestsBase t :=
  exists₂_congr fun g g' => and_congr_right fun _ =>
    Text.delimitedIn_append_blank_iff (f.baseTest_ne_nil g g') (f.trimmed_baseTest g g') hw

/-- **A check of an extra name neither adds nor removes the test of the base name.** -/
theorem testsBase_append_check_iff (hf : f.isPlain = true) (hn : n.IsWord) (hbase : n ≠ baseName) :
    f.TestsBase (t ++ (f.connective ++ f.check n)) ↔ f.TestsBase t := by
  rw [connective_eq]
  constructor
  · rintro ⟨g, g', hg, h⟩
    have hjoint := joint_not_mem_baseTest hf hg
    have hcut : t ++ ([' ', f.comparison.joint, f.comparison.joint, ' '] ++ f.check n)
        = (t ++ [' ']) ++ f.comparison.joint ::
          ([] ++ f.comparison.joint :: (' ' :: f.check n)) := by
      simp
    rw [hcut] at h
    -- the test stands before the connective, between its two characters, or behind it
    rcases h.of_append_cons hjoint with h | h
    · exact (testsBase_append_blank_iff (by decide)).mp ⟨g, g', hg, h⟩
    · rcases h.of_append_cons hjoint with h | h
      · obtain ⟨before, after, hnil, -⟩ := h
        simp [f.baseTest_ne_nil g g'] at hnil
      · exact absurd h (not_delimitedIn_check hf hn hbase hg)
  · rintro ⟨g, g', hg, h⟩
    exact ⟨g, g', hg, h.append_right (Text.stopsAt_cons.mpr (by decide))⟩

/-- **Checks of other names do not matter** to whether a condition tests the base name. -/
theorem testsBase_extend_iff (hf : f.isPlain = true) (hns : ∀ n ∈ ns, n.IsWord ∧ n ≠ baseName) :
    f.TestsBase (f.extend t ns) ↔ f.TestsBase t := by
  induction ns generalizing t with
  | nil => rw [extend_nil]
  | cons n ns ih =>
    rw [extend_cons, ih fun m hm => hns m (List.mem_cons_of_mem _ hm)]
    exact testsBase_append_check_iff hf (hns n (by simp)).1 (hns n (by simp)).2

/-- What comes behind a text decides nothing about its start, if white space separates it. -/
theorem leadsWithConnective_append_iff (hne : t ≠ []) (ht : t.Trimmed)
    (hv : ∀ c ∈ v.head?, Text.isBlank c = true) :
    f.LeadsWithConnective (t ++ v) ↔ f.LeadsWithConnective t := by
  have hdrop : t.dropWhile Text.isBlank ≠ [] := by
    intro hnil
    have hblank : ∀ c ∈ t, Text.isBlank c = true := by
      rw [← List.takeWhile_append_dropWhile (p := Text.isBlank) (l := t), hnil, List.append_nil]
      exact List.all_eq_true.mp List.all_takeWhile
    have hlast := ht _ (List.getLast?_eq_some_getLast hne)
    rw [hblank _ (List.getLast_mem hne)] at hlast
    exact absurd hlast (by simp)
  have hcut : (t ++ v).dropWhile Text.isBlank = t.dropWhile Text.isBlank ++ v := by
    rw [List.dropWhile_append, if_neg (by simpa using hdrop)]
  rw [LeadsWithConnective, LeadsWithConnective, hcut, trim_connective]
  obtain ⟨c, cs, hcs⟩ := List.exists_cons_of_ne_nil hdrop
  rw [hcs]
  cases cs with
  | cons d ds => simp
  | nil =>
    cases v with
    | nil => simp
    | cons d v =>
      have hd : f.comparison.joint ≠ d := by
        rintro rfl
        have hblank := hv f.comparison.joint (by simp)
        rw [isBlank_joint] at hblank
        exact absurd hblank (by simp)
      simp [hd]

/-- **Checks behind a text make it start with a connective** exactly where it is white space. -/
theorem leadsWithConnective_extend_iff (hw : w.Blank) (ht : t.Trimmed) :
    f.LeadsWithConnective (f.extend t ns ++ w) ↔
      f.LeadsWithConnective (t ++ w) ∨ t = [] ∧ ns ≠ [] := by
  cases ns with
  | nil => simp
  | cons n ns =>
    by_cases hne : t = []
    · have hleads : f.LeadsWithConnective (f.extend t (n :: ns) ++ w) := by
        have hspace : Text.isBlank ' ' = true := by decide
        rw [LeadsWithConnective, trim_connective, hne, extend_cons, extend, connective_eq]
        simp [hspace, isBlank_joint]
      exact iff_of_true hleads (.inr ⟨hne, by simp⟩)
    · rw [extend, List.append_assoc, leadsWithConnective_append_iff hne ht,
        leadsWithConnective_append_iff hne ht]
      · simp [hne]
      · intro c hc
        exact hw c (List.mem_of_mem_head? hc)
      · rw [List.flatMap_cons, connective_eq]
        intro c hc
        obtain rfl : c = ' ' := by simpa using hc.symm
        decide

end ConditionForm

/-! ## Extended conditions -/

section Extended

variable {f : ConditionForm} {names : NameSet} {o : Occurrence}

/-- **A step neither adds nor removes the test of the base name.** -/
theorem testsBase_extended_iff (hf : f.isPlain = true) :
    f.TestsBase (o.extended f names).marked ↔ f.TestsBase o.marked := by
  have hblank : o.marked.blankEnd.Blank := fun _ => Text.blank_of_mem_blankEnd _
  have hnames : ∀ n ∈ f.absent o.marked.trimEnd names, n.IsWord ∧ n ≠ baseName := fun _ hn =>
    ⟨ConditionForm.isWord_of_mem_absent hn, ConditionForm.ne_baseName_of_mem_absent hn⟩
  calc f.TestsBase (f.extended o.marked.trimEnd names ++ o.marked.blankEnd)
      ↔ f.TestsBase (f.extended o.marked.trimEnd names) :=
        ConditionForm.testsBase_append_blank_iff hblank
    _ ↔ f.TestsBase o.marked.trimEnd := ConditionForm.testsBase_extend_iff hf hnames
    _ ↔ f.TestsBase (o.marked.trimEnd ++ o.marked.blankEnd) :=
        (ConditionForm.testsBase_append_blank_iff hblank).symm
    _ ↔ f.TestsBase o.marked := by rw [Text.trimEnd_append_blankEnd]

/-- **A step makes a condition start with a connective** exactly where it puts checks behind white
space. -/
theorem leadsWithConnective_extended_iff :
    f.LeadsWithConnective (o.extended f names).marked ↔
      f.LeadsWithConnective o.marked ∨
        o.marked.Blank ∧ f.missing o.marked.trimEnd names ≠ [] := by
  have hblank : o.marked.blankEnd.Blank := fun _ => Text.blank_of_mem_blankEnd _
  calc f.LeadsWithConnective (f.extended o.marked.trimEnd names ++ o.marked.blankEnd)
      ↔ f.LeadsWithConnective (o.marked.trimEnd ++ o.marked.blankEnd) ∨
          o.marked.trimEnd = [] ∧ f.absent o.marked.trimEnd names ≠ [] :=
        ConditionForm.leadsWithConnective_extend_iff hblank o.marked.trimmed_trimEnd
    _ ↔ f.LeadsWithConnective o.marked ∨
          o.marked.Blank ∧ f.missing o.marked.trimEnd names ≠ [] := by
        rw [Text.trimEnd_append_blankEnd, Text.trimEnd_eq_nil_iff, ConditionForm.missing_eq, ne_eq,
          ne_eq, List.map_eq_nil_iff]

end Extended

/-- **The site recognises the condition**: a plan is made for a patched region with it. -/
def Site.Recognises (s : Site) (names : NameSet) (file w : Text) : Prop :=
  ∃ c p added o, s.plan names file c = .ok p ∧ p.state.added? = some added ∧
    s.patchedRegions c = [o] ∧ o.marked = w

namespace Luau

open Pattern Cpp

variable {s : Site} {names : NameSet} {file : Text} {o : Occurrence}

/-- **A step leaves the value for the base name.** -/
theorem exists_read_extended (hs : s ∈ sites) {old : Formula} (hold : read o.marked = some old) :
    ∃ new, read (o.extended s.condition names).marked = some new ∧
      ∀ v : Valuation, v.called = baseName → value s.condition v new = value s.condition v old := by
  obtain ⟨fs, hf⟩ := exists_readsAs hs
  have hwords : ∀ n ∈ s.condition.absent o.marked.trimEnd names, n.IsWord :=
    fun _ => ConditionForm.isWord_of_mem_absent
  have htrim : read o.marked.trimEnd = some old := (read_trimEnd _).trans hold
  obtain ⟨earlier, last, rfl, hread⟩ := read_extend hf hwords htrim
  refine ⟨_, (read_append_blankEnd _ _).trans hread, fun v hcalled => ?_⟩
  -- the base name is not among the new names
  have hnot : (s.condition.absent o.marked.trimEnd names).contains v.called = false := by
    rw [Bool.eq_false_iff, ne_eq, List.contains_iff_mem, hcalled]
    exact fun h => ConditionForm.ne_baseName_of_mem_absent h rfl
  rw [value_extended hf hwords, hnot, value_append, value_singleton]
  cases s.condition.comparison <;> simp

/-! ## Recognised conditions -/

/-- A condition that starts with the field does not start with a connective. -/
theorem not_leadsWithConnective {f : ConditionForm} {e : Char} {w : Text}
    (he : Text.isBlank e = false) (hjoint : f.comparison.joint ≠ e) :
    ¬ f.LeadsWithConnective (e :: w) := by
  rw [ConditionForm.LeadsWithConnective, ConditionForm.trim_connective,
    List.dropWhile_cons_of_neg (by simp [he])]
  simp [hjoint]

/-- A matcher recognises only conditions that test the base name. -/
theorem testsBase_of_matcher {w rest : Text} (id path : Text)
    (h : matcherMerge.marked.Takes w rest) :
    (matcher id path).condition.TestsBase w ∧
      ¬ (matcher id path).condition.LeadsWithConnective w := by
  obtain ⟨u, v, rfl, hu, hend, -⟩ := takes_matcherMarked_iff.mp h
  obtain ⟨g, u', rfl, hg, hu⟩ := exists_of_takes_spaced hu
  obtain ⟨g', u'', rfl, hg', hu⟩ := exists_of_takes_spaced hu
  obtain rfl := eq_of_takes_spaced hu
  have htest : (matcher id path).condition.baseTest g g'
      = "funcAsGlobal->name" ++ g ++ ("!=" ++ g' ++ "require") := by
    show "funcAsGlobal->name" ++ g ++ "!=" ++ g' ++ "require" = _
    simp
  refine ⟨⟨g, g', ?_, [], v, by rw [htest]; simp, by simp [Text.EndsFree], fun _ => ?_⟩, ?_⟩
  · exact fun c hc => (List.mem_append.mp hc).elim (hg c) (hg' c)
  · intro c hc
    have hword : Text.isWordChar c = false := hend.left c hc
    rw [← Bool.not_eq_true] at hword ⊢
    exact fun hident => hword (Text.isWordChar_of_isIdentChar hident)
  · have hjoint : Comparison.joint .notEqual ≠ 'f' := by decide
    exact not_leadsWithConnective (e := 'f') (by decide) hjoint

/-- The linter recognises only conditions that test the base name. -/
theorem testsBase_of_linter {w rest : Text} (h : linterMerge.marked.Takes w rest) :
    linter.condition.TestsBase w ∧ ¬ linter.condition.LeadsWithConnective w := by
  obtain ⟨u, rs, rfl, hu, -⟩ := takes_linterMarked_iff.mp h
  obtain ⟨g, u', rfl, hg, hu⟩ := exists_of_takes_spaced hu
  obtain ⟨g', u'', rfl, hg', hu⟩ := exists_of_takes_spaced hu
  obtain rfl := eq_of_takes_spaced hu
  have htest : linter.condition.baseTest g g'
      = "glob->name" ++ g ++ ("==" ++ g' ++ "\"require\"") := by
    show "glob->name" ++ g ++ "==" ++ g' ++ '"' :: ("require" ++ ['"']) = _
    simp
  refine ⟨⟨g, g', ?_, [], rs.flatten, by rw [htest]; simp, by simp [Text.EndsFree], ?_⟩, ?_⟩
  · exact fun c hc => (List.mem_append.mp hc).elim (hg c) (hg' c)
  · -- the test ends with a quote, so anything may follow
    have hquote : linter.condition.baseTest g g'
        = ("glob->name" ++ g ++ "==" ++ g' ++ "\"require") ++ ['"'] := by
      rw [htest]
      simp
    rw [hquote, Text.endsInWord, List.getLast?_concat]
    exact fun h => absurd h (by decide)
  · exact not_leadsWithConnective (e := 'g') (by decide) (by decide)

/-- A patched guard of the tracer with the condition `w`. -/
def guardWith (w : Text) : Occurrence :=
  ⟨[], "if (global && expr->args.size >= 1 && (", w, "))\n    requireCalls.push_back(expr);\n", []⟩

/-- The patched guard stands there with any condition that is not empty and has no parentheses. -/
theorem fits_guardWith {w : Text} (hne : w ≠ []) (hfree : ParenFree w) :
    tracerMerge.Fits (guardWith w) := by
  have hlead : Pattern.Takes tracerMerge.lead "if (global && expr->args.size >= 1 && (" [] := by
    decide
  have htail : Pattern.Takes tracerMerge.tail "))\n    requireCalls.push_back(expr);\n" [] := by
    decide
  have hstop : Text.StopsAt (CharClass.noneOf ['(', ')']).has
      "))\n    requireCalls.push_back(expr);\n" := by decide
  refine ⟨by simp [guardWith, Text.EndsLine], (takes_of_isClosed (by decide) hlead).2 _, ?_, htail⟩
  exact takes_singleton.mpr
    (takes_parenFree hfree (List.length_pos_iff.mpr hne) hstop (by simp [guardWith]))

/-- **The tracer recognises any condition without parentheses**, whatever it tests. -/
theorem recognises_of_parenFree {w : Text} (hne : w ≠ []) (hfree : ParenFree w) (names : NameSet)
    (file : Text) : tracer.Recognises names file w := by
  have hs := patchable_tracer
  have hfits := fits_guardWith hne hfree
  -- nothing stands before the guard or behind it
  have hfound : ∀ g : Shape, guardOpening.anchors g = true → g.occurrences [] = [] →
      g.occurrences (guardWith w).text = (Shape.startingAt? g (guardWith w)).toList := by
    intro g hg hnil
    rw [Opening.occurrences_around hg (Opening.clear_of_anchors hg hs.merge_anchors hfits)]
    simp [guardWith, hnil]
  have hp : tracer.pristine.occurrences (guardWith w).text = [] := by
    rw [hfound _ hs.pristine_anchors (by decide), Shape.startingAt?_of_apart hs.apart hfits,
      Option.toList_none]
  have hm : tracerMerge.occurrences (guardWith w).text = [guardWith w] := by
    rw [hfound _ hs.merge_anchors (by decide), Shape.startingAt?_of_fits hfits, Option.toList_some]
  exact ⟨_, _, _, guardWith w, hs.plan_of_merge hp hm, Site.added?_planMerge _ _ _ _ _,
    (hs.patchedRegions_eq _).trans hm, rfl⟩

/-- The tracer recognises nothing else. -/
theorem parenFree_of_recognises {w : Text} (h : tracer.Recognises names file w) :
    w ≠ [] ∧ ParenFree w := by
  obtain ⟨c, p, added, o, -, -, hm, rfl⟩ := h
  have hmarked := (patchable_tracer.fits_of_patchedRegions hm).marked
  obtain ⟨hfree, hlength, -⟩ := Atom.takes_run.mp (takes_singleton.mp hmarked)
  exact ⟨List.length_pos_iff.mp hlength, hfree⟩

/-- All sites but the tracer recognise only conditions that test the base name. -/
theorem testsBase_of_recognises {w : Text} (hs : s ∈ sites) (hne : s ≠ tracer)
    (h : s.Recognises names file w) :
    s.condition.TestsBase w ∧ ¬ s.condition.LeadsWithConnective w := by
  obtain ⟨c, p, added, o, -, -, hm, rfl⟩ := h
  simp only [sites, List.mem_cons, List.not_mem_nil, or_false] at hs
  rcases hs with rfl | rfl | rfl | rfl
  · exact absurd rfl hne
  · exact testsBase_of_matcher _ _ ((patchable_matcher _ _).fits_of_patchedRegions hm).marked
  · exact testsBase_of_matcher _ _ ((patchable_matcher _ _).fits_of_patchedRegions hm).marked
  · exact testsBase_of_linter (patchable_linter.fits_of_patchedRegions hm).marked

/-- **Which recognised conditions test the base name.** All those of the matchers and the linter do,
and start with no connective. The tracer recognises all texts without parentheses. A step neither
adds nor removes the test, and leaves what the condition is for a call of the base name; it makes the
condition start with a connective exactly where it adds checks to white space. -/
theorem testsBase_of_merge (hs : s ∈ sites) (names : NameSet) (file : Text) :
    (s ≠ tracer → ∀ w, s.Recognises names file w →
      s.condition.TestsBase w ∧ ¬ Text.Blank w ∧ ¬ s.condition.LeadsWithConnective w) ∧
    (s = tracer → ∀ w, s.Recognises names file w ↔ w ≠ [] ∧ ParenFree w) ∧
    ∀ c p added, s.plan names file c = .ok p → p.state.added? = some added →
      ∃ o o', s.patchedRegions c = [o] ∧ p.applyTo c = .ok o'.text ∧
        s.patchedRegions o'.text = [o'] ∧
        (s.condition.TestsBase o'.marked ↔ s.condition.TestsBase o.marked) ∧
        (s.condition.LeadsWithConnective o'.marked ↔
          s.condition.LeadsWithConnective o.marked ∨ o.marked.Blank ∧ added ≠ []) ∧
        ∀ old, read o.marked = some old → ∃ new, read o'.marked = some new ∧
          ∀ v : Valuation, v.called = baseName →
            value s.condition v new = value s.condition v old := by
  refine ⟨fun hne w h => ?_, ?_, fun c p added hplan hadded => ?_⟩
  · obtain ⟨htests, hleads⟩ := testsBase_of_recognises hs hne h
    exact ⟨htests, htests.not_blank, hleads⟩
  · rintro rfl w
    exact ⟨parenFree_of_recognises, fun ⟨hne, hfree⟩ => recognises_of_parenFree hne hfree _ _⟩
  · obtain ⟨k, m, hpatchable⟩ := exists_patchable hs
    obtain ⟨o, hp, hm, rfl, rfl⟩ := hpatchable.exists_of_added? hplan hadded
    obtain ⟨happly, -, hfound⟩ := hpatchable.extend_step hp hm names
    rw [← hpatchable.patchedRegions_eq] at hm hfound
    exact ⟨o, o.extended s.condition names, hm, happly file, hfound,
      testsBase_extended_iff hpatchable.plain, leadsWithConnective_extended_iff,
      fun old hold => exists_read_extended hs hold⟩

/-- A patched guard of the tracer with white space for a condition. -/
def blankGuard : Occurrence := guardWith " "

/-- A step puts the check of `load` behind white space: what it writes starts with a connective, and
does not test the base name. -/
theorem testsBase_of_merge_blankGuard :
    ∃ p, tracer.plan loadOnly tracer.path blankGuard.text = .ok p ∧
      p.state = .needsMerge ["global->name == \"load\""] ∧
        ∃ o', p.applyTo blankGuard.text = .ok o'.text ∧ tracer.patchedRegions o'.text = [o'] ∧
          ¬ tracer.condition.TestsBase o'.marked ∧
            tracer.condition.LeadsWithConnective o'.marked := by
  have hsite : tracer ∈ sites := by decide
  have hp : tracer.pristine.occurrences blankGuard.text = [] := by decide +kernel
  have hm : tracer.patchedRegions blankGuard.text = [guardWith " "] := by decide +kernel
  have hplan : tracer.plan loadOnly tracer.path blankGuard.text
      = .ok (tracer.planMerge loadOnly tracer.path blankGuard.markedStart blankGuard.marked) :=
    patchable_tracer.plan_of_merge hp hm
  have hstate : (tracer.planMerge loadOnly tracer.path blankGuard.markedStart
      blankGuard.marked).state = .needsMerge ["global->name == \"load\""] := by decide +kernel
  obtain ⟨o, o', hfound, happly, hfound', htests, hleads, -⟩ :=
    (testsBase_of_merge hsite loadOnly tracer.path).2.2 _ _ _ hplan (congrArg PatchState.added? hstate)
  rw [hm] at hfound
  obtain ⟨rfl, -⟩ := List.cons.inj hfound
  have hblank : blankGuard.marked.Blank := by decide
  exact ⟨_, hplan, hstate, o', happly, hfound', fun h => (htests.mp h).not_blank hblank,
    hleads.mpr (.inr ⟨hblank, by simp⟩)⟩

end Luau

end SitePatch
