import Mathlib.Algebra.GroupWithZero.Nat
import Mathlib.Data.List.Infix
import SitePatch.Proofs.Presence

/-! # Merging inserts

Where a patched region lacks checks, its edit replaces the condition, up to the white space at its
end, by the condition and the checks. What stood there before still stands there, so the edit inserts.
How often a check stands in a condition is counted by the places at which it starts
(`Text.timesIn`); no place is won or lost where two texts meet, if the check does not reach over
(`Text.timesIn_append`). Main statement: what a plan for a patched region inserts, and how often
each check stands in the condition then (`Luau.patch_of_needsMerge`). -/

namespace SitePatch

/-! ## Counting -/

namespace Text

variable {needle t u v : Text}

/-- **How often a text stands in another**: the number of places at which it starts. -/
def timesIn (needle t : Text) : Nat := t.tails.countP fun rest => needle.isPrefixOf rest

/-- Nothing stands in the empty text. -/
theorem timesIn_nil (hne : needle ≠ []) : needle.timesIn [] = 0 := by
  simpa [timesIn] using hne

/-- A text stands once more in another one if it starts there. -/
theorem timesIn_cons (needle : Text) (c : Char) (t : Text) :
    needle.timesIn (c :: t)
      = needle.timesIn t + if needle.isPrefixOf (c :: t) = true then 1 else 0 := by
  rw [timesIn, List.tails, List.countP_cons, timesIn]

/-- A text stands in another at least once exactly if it occurs there. -/
theorem timesIn_pos_iff : 0 < needle.timesIn t ↔ needle.occursIn t = true := by
  rw [timesIn, List.countP_pos_iff, occursIn_iff_isInfix, List.infix_iff_prefix_suffix]
  simp only [List.mem_tails, List.isPrefixOf_iff_prefix, and_comm]

/-- What does not occur in a text stands there no times. -/
theorem timesIn_eq_zero (h : needle.occursIn t = false) : needle.timesIn t = 0 := by
  refine Nat.eq_zero_of_not_pos fun hpos => ?_
  rw [timesIn_pos_iff, h] at hpos
  exact absurd hpos (by simp)

/-- **A text that does not reach over the boundary of two others** stands in both together as often
as in each of them. -/
theorem timesIn_append (hne : needle ≠ [])
    (h : ∀ p q, needle = p ++ q → p ≠ [] → q ≠ [] → p <:+ u → ¬ q <+: v) :
    needle.timesIn (u ++ v) = needle.timesIn u + needle.timesIn v := by
  induction u with
  | nil => rw [List.nil_append, timesIn_nil hne, Nat.zero_add]
  | cons c u ih =>
    have hrest := ih fun p q heq hp hq hpu => h p q heq hp hq (hpu.trans (List.suffix_cons c u))
    -- what starts in the first text ends there
    have hstart : needle.isPrefixOf (c :: (u ++ v)) = needle.isPrefixOf (c :: u) := by
      rw [Bool.eq_iff_iff, List.isPrefixOf_iff_prefix, List.isPrefixOf_iff_prefix,
        ← List.cons_append]
      refine ⟨fun hprefix => ?_, fun hprefix => List.prefix_append_of_prefix hprefix⟩
      rcases List.prefix_or_prefix_of_prefix hprefix (List.prefix_append (c :: u) v) with
        hends | ⟨q, rfl⟩
      · exact hends
      · by_cases hq : q = []
        · rw [hq, List.append_nil]
        · exact absurd ((List.prefix_append_right_inj _).mp hprefix)
            (h _ q rfl (by simp) hq (List.suffix_refl _))
    rw [List.cons_append, timesIn_cons, hstart, hrest, timesIn_cons]
    omega

/-- A text stands in itself once. -/
theorem timesIn_self (hne : needle ≠ []) : needle.timesIn needle = 1 := by
  obtain ⟨c, t, rfl⟩ := List.exists_cons_of_ne_nil hne
  have hnone : occursIn (c :: t) t = false := by
    rw [Bool.eq_false_iff, ne_eq, occursIn_iff_isInfix]
    intro h
    exact absurd h.length_le (by simp)
  rw [timesIn_cons, timesIn_eq_zero hnone]
  simp

/-- White space at the end of a text holds nothing that does not end with white space. -/
theorem timesIn_trimEnd (hne : needle ≠ []) (hn : Trimmed needle) :
    needle.timesIn t.trimEnd = needle.timesIn t := by
  have hsplit : needle.timesIn (t.trimEnd ++ t.blankEnd)
      = needle.timesIn t.trimEnd + needle.timesIn t.blankEnd :=
    timesIn_append hne fun p q heq _ hq _ => not_prefix_blankEnd (heq ▸ hn) hq
  rw [trimEnd_append_blankEnd, timesIn_eq_zero (occursIn_blankEnd hne hn)] at hsplit
  exact hsplit.symm

end Text

/-! ## Counting checks -/

namespace ConditionForm

variable {f : ConditionForm} {n m t condition : Text} {ns : List Text}

/-- Among the checks of words, each stands in itself only, and there once. -/
theorem timesIn_check (hf : f.isPlain = true) (hn : n.IsWord) (hm : m.IsWord) :
    (f.check n).timesIn (f.check m) = if n = m then 1 else 0 := by
  by_cases h : n = m
  · rw [if_pos h, h, Text.timesIn_self (f.check_ne_nil m)]
  · have hnone : (f.check n).occursIn (f.check m) = false := by
      rw [Bool.eq_false_iff, ne_eq, occursIn_check_iff hf hn hm]
      exact h
    rw [if_neg h, Text.timesIn_eq_zero hnone]

/-- The base name's check stands in no check of another name. -/
theorem timesIn_baseCheck_check (hf : f.isPlain = true) (hm : m.IsWord) (hne : m ≠ baseName) :
    f.baseCheck.timesIn (f.check m) = 0 := by
  cases hbase : f.base with
  | literal =>
    simp only [baseCheck, hbase]
    rw [timesIn_check hf (by decide) hm, if_neg (Ne.symm hne)]
  | identifier =>
    have hbaseCheck := baseCheck_of_identifier hbase
    have hquote := quote_not_mem_baseCheck (quote_not_mem_field hf) hbase
    -- it is longer than what stands before the operand, and has a space, unlike the operand
    have hstem : f.baseCheck.occursIn f.stem = false := by
      rw [Bool.eq_false_iff, ne_eq, Text.occursIn_iff_isInfix, hbaseCheck]
      intro h
      have hbaseName : 0 < baseName.length := by decide
      have hle := h.length_le
      rw [List.length_append] at hle
      omega
    have hoperand : f.baseCheck.occursIn ('"' :: (m ++ ['"'])) = false := by
      refine Text.occursIn_eq_false_of_mem (c := ' ') (by simp [hbaseCheck, stem]) ?_
      simp only [List.mem_cons, List.mem_append, List.not_mem_nil, or_false, not_or]
      exact ⟨by decide, fun h => absurd (hm _ h) (by decide), by decide⟩
    have hcut : f.baseCheck.timesIn (f.stem ++ '"' :: (m ++ ['"']))
        = f.baseCheck.timesIn f.stem + f.baseCheck.timesIn ('"' :: (m ++ ['"'])) := by
      refine Text.timesIn_append f.baseCheck_ne_nil fun p q heq _ hq _ hstarts => ?_
      obtain ⟨c, q, rfl⟩ := List.exists_cons_of_ne_nil hq
      rw [List.cons_prefix_cons] at hstarts
      exact hquote (by rw [heq, hstarts.1]; simp)
    rw [check_eq, hcut, Text.timesIn_eq_zero hstem, Text.timesIn_eq_zero hoperand]

/-- A token stands in a condition with one more check as often as in both. -/
theorem timesIn_append_check (hf : f.isPlain = true) (ht : f.IsToken t) (m : Text) :
    t.timesIn (condition ++ (f.connective ++ f.check m))
      = t.timesIn condition + t.timesIn (f.check m) := by
  rw [Text.timesIn_append (ht.ne_nil hf) fun p q heq _ hq _ => ht.not_prefix_connective heq hq,
    Text.timesIn_append (ht.ne_nil hf) fun p q heq hp _ hsuffix => absurd hsuffix
      (ht.not_suffix_connective hf heq hp),
    Text.timesIn_eq_zero (ht.occursIn_connective hf), Nat.zero_add]

/-- **A token stands in an extended condition as often as in the condition and the new checks.** -/
theorem timesIn_extend (hf : f.isPlain = true) (ht : f.IsToken t) :
    t.timesIn (f.extend condition ns)
      = t.timesIn condition + (ns.map fun m => t.timesIn (f.check m)).sum := by
  induction ns generalizing condition with
  | nil => simp
  | cons m ns ih =>
    rw [extend_cons, ih, timesIn_append_check hf ht, List.map_cons, List.sum_cons, Nat.add_assoc]

/-- A check stands once more in an extended condition for each time that its name was added. -/
theorem timesIn_check_extend (hf : f.isPlain = true) (hn : n.IsWord) (hns : ∀ m ∈ ns, m.IsWord) :
    (f.check n).timesIn (f.extend condition ns)
      = (f.check n).timesIn condition + ns.count n := by
  rw [timesIn_extend hf (isToken_check hf hn), Nat.add_left_cancel_iff]
  induction ns with
  | nil => rfl
  | cons m ns ih =>
    rw [List.map_cons, List.sum_cons, ih fun m' h => hns m' (List.mem_cons_of_mem _ h),
      timesIn_check hf hn (hns m (by simp)), List.count_cons, Nat.add_comm]
    simp only [beq_iff_eq, eq_comm (a := n)]

/-- The base name's check is not added. -/
theorem timesIn_baseCheck_extend (hf : f.isPlain = true)
    (hns : ∀ m ∈ ns, m.IsWord ∧ m ≠ baseName) :
    f.baseCheck.timesIn (f.extend condition ns) = f.baseCheck.timesIn condition := by
  rw [timesIn_extend hf (isToken_baseCheck hf), Nat.add_eq_left]
  induction ns with
  | nil => rfl
  | cons m ns ih =>
    rw [List.map_cons, List.sum_cons, ih fun m' h => hns m' (List.mem_cons_of_mem _ h),
      timesIn_baseCheck_check hf (hns m (by simp)).1 (hns m (by simp)).2]

end ConditionForm

/-! ## Insertions -/

/-- The byte offset at which the condition of a patched region ends, the white space at its end left
out. -/
def Occurrence.conditionEnd (o : Occurrence) : Nat := o.markedStart + o.marked.trimEnd.byteSize

/-- **What a merge inserts** at the end of the condition of the only patched region, and what stands
in the condition of the only patched region then. -/
structure Site.Inserts (s : Site) (names : NameSet) (added : List Text) (o o' : Occurrence) :
    Prop where
  /-- The patched regions before and after. -/
  regions : s.patchedRegions o.text = [o] ∧ s.patchedRegions o'.text = [o']
  /-- The checks that are added are those that do not stand in the condition, in the order of the
  names. -/
  added_eq : added = (s.condition.checks names).filter fun check => !check.occursIn o.marked.trimEnd
  added_ne_nil : added ≠ []
  /-- They go to the end of the condition, and nothing else changes. -/
  inserted : ∃ front back, o.text.splitAtByte? o.conditionEnd = some (front, back) ∧
    o'.text = front ++ s.condition.connective
      ++ List.intercalate s.condition.connective added ++ back
  once : ∀ check ∈ added, check.timesIn o'.marked = 1
  /-- Every other check stands there as often as before. -/
  others : ∀ n : Text, n.IsWord → s.condition.check n ∉ added →
    (s.condition.check n).timesIn o'.marked = (s.condition.check n).timesIn o.marked
  /-- So does the check of the base name. -/
  base : s.condition.baseCheck.timesIn o'.marked = s.condition.baseCheck.timesIn o.marked

namespace Site.Patchable

variable {s : Site} {k : Opening} {m : Shape} {names : NameSet} {c : Text} {o : Occurrence}

/-- A token stands in the condition that a step leaves behind as often as in the extended one. -/
theorem timesIn_extended {t : Text} (hs : s.Patchable k m) (ht : s.condition.IsToken t)
    (o : Occurrence) (names : NameSet) : t.timesIn (o.extended s.condition names).marked
      = t.timesIn (s.condition.extended o.marked.trimEnd names) := by
  rw [← Text.timesIn_trimEnd (ht.ne_nil hs.plain) ht.trimmed, (trimEnd_extended o _ names).1]

/-- **How often each check stands in an extended condition.** -/
theorem timesIn_check_extended (hs : s.Patchable k m) {n : Text} (hn : n.IsWord) (o : Occurrence)
    (names : NameSet) :
    (s.condition.check n).timesIn (o.extended s.condition names).marked
      = (s.condition.check n).timesIn o.marked
        + if n ∈ s.condition.absent o.marked.trimEnd names then 1 else 0 := by
  have ht := ConditionForm.isToken_check hs.plain hn
  have hnodup : (s.condition.absent o.marked.trimEnd names).Nodup := names.nodup_toList.filter _
  rw [hs.timesIn_extended ht, ConditionForm.extended,
    ConditionForm.timesIn_check_extend hs.plain hn fun _ => ConditionForm.isWord_of_mem_absent,
    Text.timesIn_trimEnd (ht.ne_nil hs.plain) ht.trimmed, hnodup.count]

/-- A step adds no check of the base name to a condition. -/
theorem timesIn_baseCheck_extended (hs : s.Patchable k m) (o : Occurrence) (names : NameSet) :
    s.condition.baseCheck.timesIn (o.extended s.condition names).marked
      = s.condition.baseCheck.timesIn o.marked := by
  have ht := ConditionForm.isToken_baseCheck hs.plain
  have hothers : ∀ n ∈ s.condition.absent o.marked.trimEnd names, n.IsWord ∧ n ≠ baseName :=
    fun _ hn => ⟨ConditionForm.isWord_of_mem_absent hn, ConditionForm.ne_baseName_of_mem_absent hn⟩
  rw [hs.timesIn_extended ht, ConditionForm.extended,
    ConditionForm.timesIn_baseCheck_extend hs.plain hothers,
    Text.timesIn_trimEnd (ht.ne_nil hs.plain) ht.trimmed]

/-- Extending the condition of the only patched region inserts the missing checks. -/
theorem inserts (hs : s.Patchable k m) (hp : s.pristine.occurrences c = [])
    (hm : m.occurrences c = [o]) (hne : s.condition.missing o.marked.trimEnd names ≠ []) :
    s.Inserts names (s.condition.missing o.marked.trimEnd names) o
      (o.extended s.condition names) := by
  have htext : o.text = c := Shape.text_of_mem_occurrences (hm ▸ List.mem_singleton_self o)
  have habsent : s.condition.absent o.marked.trimEnd names ≠ [] := by
    rw [ConditionForm.missing_eq] at hne
    exact fun h => hne (by rw [h, List.map_nil])
  refine ⟨⟨?_, ?_⟩, rfl, hne, ?_, fun check hcheck => ?_, fun n hn hcheck => ?_,
    hs.timesIn_baseCheck_extended o names⟩
  · rw [hs.patchedRegions_eq, htext, hm]
  · rw [hs.patchedRegions_eq]
    exact (hs.extend_step hp hm names).2.2
  · refine ⟨(o.before ++ o.lead) ++ o.marked.trimEnd,
      o.marked.blankEnd ++ (o.tail ++ o.after), ?_, ?_⟩
    · rw [Occurrence.conditionEnd, o.markedStart_eq, ← Text.byteSize_append, o.text_eq_trimEnd,
        Text.splitAtByte?_byteSize]
    · rw [Occurrence.extended, Occurrence.text_withMarked, ConditionForm.extended,
        ConditionForm.extend_eq_intercalate _ _ habsent, ConditionForm.missing_eq]
      simp
  · -- what is missing does not stand there yet, and is added once
    rw [ConditionForm.missing_eq] at hcheck
    obtain ⟨n, hn, rfl⟩ := List.mem_map.mp hcheck
    obtain ⟨hmem, hoccurs⟩ := ConditionForm.mem_absent_iff.mp hn
    rw [hs.timesIn_check_extended (NameSet.isWord_of_mem hmem), if_pos hn,
      ← Text.timesIn_trimEnd (s.condition.check_ne_nil n) (s.condition.trimmed_check n),
      Text.timesIn_eq_zero hoccurs]
  · rw [ConditionForm.missing_eq] at hcheck
    rw [hs.timesIn_check_extended hn, if_neg fun h => hcheck (List.mem_map_of_mem h), Nat.add_zero]

end Site.Patchable

namespace Luau

/-- **Merging only inserts, and inserts each missing check once.** Where a plan finds a patched
region that lacks checks, patching puts a connective and these checks, joined by connectives, at the
end of its condition, and leaves the rest of the text as it is. -/
theorem patch_of_needsMerge {s : Site} {names : NameSet} {file c : Text} {p : Plan}
    {added : List Text} (hs : s ∈ sites) (hplan : s.plan names file c = .ok p)
    (hstate : p.state = .needsMerge added) :
    ∃ o o', o.text = c ∧ s.patch names c = .ok o'.text ∧ s.Inserts names added o o' := by
  obtain ⟨k, m, hpatchable⟩ := exists_patchable hs
  have hadded : p.state.added? = some added := by rw [hstate]; rfl
  obtain ⟨o, hp, hm, hmerge, rfl⟩ := hpatchable.exists_of_added? hplan hadded
  have hne : s.condition.missing o.marked.trimEnd names ≠ [] := by
    intro hnil
    rw [hmerge, Site.planMerge] at hstate
    simp [hnil, Plan.unchanged] at hstate
  exact ⟨o, o.extended s.condition names,
    Shape.text_of_mem_occurrences (hm ▸ List.mem_singleton_self o),
    (hpatchable.patch_of_merge hp hm names).1, hpatchable.inserts hp hm hne⟩

/-- A condition of the tracer that has the check of `fetch` twice. -/
def twiceFetch : Text := "global->name == \"fetch\" || global->name == \"fetch\""

/-- A patched guard of the tracer with white space at the end of its condition. -/
def spacedGuard : Text :=
  "if (global && expr->args.size >= 1 && (" ++ twiceFetch
    ++ " ))\n    requireCalls.push_back(expr);\n"

/-- The check of `load` is inserted before the white space, and that of `fetch` stays there twice. -/
theorem patch_spacedGuard :
    tracer ∈ sites ∧ ∃ p, tracer.plan fetchAndLoad "RequireTracer.cpp" spacedGuard = .ok p ∧
      p.state = .needsMerge ["global->name == \"load\""] ∧
        ∃ o o', o.text = spacedGuard ∧ tracer.patch fetchAndLoad spacedGuard = .ok o'.text ∧
          tracer.Inserts fetchAndLoad ["global->name == \"load\""] o o' := by
  have hsite : tracer ∈ sites := by decide
  have hplan : tracer.plan fetchAndLoad "RequireTracer.cpp" spacedGuard
      = .ok ⟨.needsMerge ["global->name == \"load\""],
        some (.replacing "RequireTracer.cpp" 39 twiceFetch
          (twiceFetch ++ " || global->name == \"load\""))⟩ := by
    decide +kernel
  exact ⟨hsite, _, hplan, rfl, patch_of_needsMerge hsite hplan rfl⟩

end Luau

end SitePatch
