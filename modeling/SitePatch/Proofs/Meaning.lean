import SitePatch.Proofs.Luau
import SitePatch.Proofs.Reading

/-! # What a patched site decides

The condition of a patched region is read as C++ reads it. After any runs over a delivered region a
site decides what it should: it accepts the base name and every name of the runs, and nothing else
(`patchAll_decides`). A condition that was already there may mean more. Checks joined by `||` then
add their names to it; checks joined by `&&` only bind to its last alternative, so they withhold
their names from the whole condition exactly when the other alternatives fail
(`value_merge_eq_iff`). -/

namespace SitePatch.Luau

open Cpp

variable {s : Site} {c file : Text} {o : Occurrence} {names : NameSet} {sets : List NameSet}

/-! ## How the sites' conditions are read -/

/-- The field and the operator of every site are read as tokens of an atom. -/
theorem exists_readsAs (hs : s ∈ sites) : ∃ fs, ReadsAs s.condition fs := by
  simp only [sites, List.mem_cons, List.not_mem_nil, or_false] at hs
  rcases hs with rfl | rfl | rfl | rfl
  · exact ⟨[.word "global", .symbol "->", .word "name"], by decide, by decide, by decide⟩
  · exact ⟨[.word "funcAsGlobal", .symbol "->", .word "name"], by decide, by decide, by decide⟩
  · exact ⟨[.word "funcAsGlobal", .symbol "->", .word "name"], by decide, by decide, by decide⟩
  · exact ⟨[.word "glob", .symbol "->", .word "name"], by decide, by decide, by decide⟩

/-- Whether the check of the base name is read as one comparison with the base name. -/
def readsBase (f : ConditionForm) : Bool :=
  match read f.baseCheck with
  | some [[a]] => comparison? f a == some (f.comparison, baseName)
  | _ => false

/-- The check of the base name is read as one comparison with the base name, if it is tested to be.
-/
theorem exists_of_readsBase {f : ConditionForm} (h : readsBase f = true) :
    ∃ a, read f.baseCheck = some [[a]] ∧ comparison? f a = some (f.comparison, baseName) := by
  unfold readsBase at h
  split at h
  · rename_i a ha
    exact ⟨a, ha, by simpa using h⟩
  · exact absurd h (by decide)

/-- At every site of the library, the check of the base name is read as that comparison. -/
theorem readsBase_of_mem (hs : s ∈ sites) : readsBase s.condition = true := by
  have hall : ∀ t ∈ sites, readsBase t.condition = true := by decide
  exact hall s hs

/-- The value of the whole condition for a set of names. -/
theorem exists_read_build (hs : s ∈ sites) (names : NameSet) :
    ∃ e, read (s.condition.build names) = some e ∧ ∀ v, value s.condition v e =
      match s.condition.comparison with
      | .equal => v.called == baseName || names.contains v.called
      | .notEqual => !(v.called == baseName || names.contains v.called) := by
  obtain ⟨fs, hf⟩ := exists_readsAs hs
  obtain ⟨a, hread, hcomparison⟩ := exists_of_readsBase (readsBase_of_mem hs)
  have hwords : ∀ n ∈ names.toList, n.IsWord := fun n hn => NameSet.isWord_of_mem hn
  obtain ⟨earlier, last, he, hextend⟩ := read_extend hf hwords hread
  -- the base check is a single alternative
  obtain ⟨rfl, rfl⟩ : earlier = [] ∧ last = [a] := by
    have hnil : ([] : Formula) ++ [[a]] = earlier ++ [last] := he
    obtain ⟨h₁, h₂⟩ := List.append_inj' hnil rfl
    exact ⟨h₁.symm, by simpa using h₂.symm⟩
  refine ⟨_, by rw [ConditionForm.build_eq]; exact hextend, fun v => ?_⟩
  rw [value_extended hf hwords]
  cases hcase : s.condition.comparison with
  | equal =>
    rw [hcase] at hcomparison
    simp [value, atomValue, hcomparison, NameSet.contains]
  | notEqual =>
    rw [hcase] at hcomparison
    simp [value, atomValue, hcomparison, NameSet.contains, bne]

/-! ## After runs over a delivered region -/

/-- Whether the name is the base name or stands in one of the sets. -/
def isListed (sets : List NameSet) (x : Text) : Bool :=
  x == baseName || sets.any fun names => names.contains x

/-- **The site decides about called names** by the one condition that is recognised in the text. -/
def Decides (s : Site) (c : Text) (decision : Text → Bool) : Prop :=
  ∃ o e, s.patchedRegions c = [o] ∧ read o.marked = some e ∧
    ∀ v, value s.condition v e = decision v.called

/-- A name is in the union of sets exactly if it is in one of them. -/
theorem mem_toList_foldl_union {a : NameSet} {n : Text} :
    n ∈ (sets.foldl NameSet.union a).toList ↔
      n ∈ a.toList ∨ ∃ b ∈ sets, n ∈ b.toList := by
  induction sets generalizing a with
  | nil => simp
  | cons b sets ih =>
    rw [List.foldl_cons, ih, NameSet.mem_toList_union]
    simp [or_assoc]

/-- The set that the names of all sets make up. -/
theorem contains_of_ofEntries {u : NameSet}
    (hu : NameSet.ofEntries (sets.flatMap NameSet.toList) = .ok u) (x : Text) :
    u.contains x = sets.any fun names => names.contains x := by
  rw [NameSet.ofEntries_flatMap, Except.ok.injEq] at hu
  rw [Bool.eq_iff_iff, List.any_eq_true, NameSet.contains, List.contains_iff_mem, ← hu,
    mem_toList_foldl_union]
  simp [NameSet.contains]

/-- **After any runs over a delivered region, the site decides what it should**, whatever the order
of the runs: sites that compare for equality hold for the base name and the names of the runs, the
others for all other names. -/
theorem patchAll_decides (hs : s ∈ sites) (hp : s.pristine.occurrences c = [o])
    (hm : s.patchedRegions c = []) (hsome : ∃ names ∈ sets, names.isEmpty = false) :
    ∀ runs, runs.Perm sets → ∃ c', s.patchAll runs c = .ok c' ∧
      Decides s c' fun x =>
        match s.condition.comparison with
        | .equal => isListed sets x
        | .notEqual => !isListed sets x := by
  intro runs hperm
  obtain ⟨k, m, hpatchable⟩ := exists_patchable hs
  have hruns : runs ≠ [] := by
    rintro rfl
    obtain ⟨names, hnames, -⟩ := hsome
    rw [← hperm.mem_iff] at hnames
    exact absurd hnames (by simp)
  have hboth : ¬ s.HoldsBoth c := fun h => h.2 hm
  rw [hpatchable.patchedRegions_eq] at hm
  -- all runs together are one run for the names of all sets
  obtain ⟨u, hu, hpatchAll⟩ := hpatchable.patchAll_eq hboth hruns
  have hcontains : ∀ x, u.contains x = sets.any fun names => names.contains x := by
    intro x
    rw [contains_of_ofEntries hu, hperm.any_eq]
  have hnames : u.isEmpty = false := by
    obtain ⟨names, hmem, hne⟩ := hsome
    obtain ⟨n, hn⟩ := NameSet.isEmpty_eq_false_iff.mp hne
    have hlisted : u.contains n = true := by
      rw [hcontains, List.any_eq_true]
      exact ⟨names, hmem, List.contains_iff_mem.mpr hn⟩
    exact NameSet.isEmpty_eq_false_iff.mpr ⟨n, List.contains_iff_mem.mp hlisted⟩
  obtain ⟨lead, tail, hstep⟩ := hpatchable.patch_of_pristine hp hm
  obtain ⟨hpatch, -, hfound⟩ := hstep u hnames
  obtain ⟨e, hread, hvalue⟩ := exists_read_build hs u
  refine ⟨_, hpatchAll.trans hpatch, ⟨o.before, lead, s.condition.build u, tail, o.after⟩, e, ?_,
    hread, fun v => ?_⟩
  · rw [hpatchable.patchedRegions_eq, hfound]
  · rw [hvalue, hcontains]
    rfl

/-- The occurrence of `deliveredGuard` in itself. -/
def deliveredOccurrence : Occurrence :=
  ⟨[], [], "  ", deliveredGuard.drop 2, []⟩

/-- Two runs over a delivered guard, in either order. -/
theorem patchAll_decides_deliveredGuard :
    (tracer ∈ sites ∧ tracer.pristine.occurrences deliveredGuard = [deliveredOccurrence] ∧
      tracer.patchedRegions deliveredGuard = [] ∧
        ∃ names ∈ [loadOnly, fetchAndLoad], names.isEmpty = false) ∧
      ∀ runs, runs.Perm [loadOnly, fetchAndLoad] → ∃ c', tracer.patchAll runs deliveredGuard = .ok c' ∧
        Decides tracer c' fun x => isListed [loadOnly, fetchAndLoad] x := by
  have hsite : tracer ∈ sites := by decide
  have hp : tracer.pristine.occurrences deliveredGuard = [deliveredOccurrence] := by
    decide +kernel
  have hm : tracer.patchedRegions deliveredGuard = [] := by decide +kernel
  have hsome : ∃ names ∈ [loadOnly, fetchAndLoad], names.isEmpty = false :=
    ⟨loadOnly, by simp, rfl⟩
  exact ⟨⟨hsite, hp, hm, hsome⟩, patchAll_decides hsite hp hm hsome⟩

/-! ## Over a patched region -/

/-- The extra names whose checks are among those that a plan adds. -/
def addedNames (f : ConditionForm) (names : NameSet) (added : List Text) : List Text :=
  names.toList.filter fun n => added.contains (f.check n)

/-- The checks that a plan adds are those of the names that the condition lacks. -/
theorem addedNames_missing (f : ConditionForm) (condition : Text) (names : NameSet) :
    addedNames f names (f.missing condition names) = f.absent condition names := by
  rw [addedNames, ConditionForm.absent]
  refine List.filter_congr fun n hn => ?_
  rw [Bool.eq_iff_iff, List.contains_iff_mem, ConditionForm.mem_missing, Bool.not_eq_true']
  constructor
  · rintro ⟨-, h⟩
    exact h
  · intro h
    exact ⟨List.mem_map_of_mem hn, h⟩

/-- What a merge should make of the value of a condition: the names of the new checks are accepted
where a site compares for equality, and withheld elsewhere. -/
def mergedValue (f : ConditionForm) (old isAdded : Bool) : Bool :=
  match f.comparison with
  | .equal => old || isAdded
  | .notEqual => old && !isAdded

/-- **When a merge means what it should.** The merged condition is again the only one that is
recognised, and it is read as the old one with further checks. Its value is the one it should have
exactly where the site compares for equality, the called name is not among the new ones, or all
alternatives of the old condition but the last one fail: checks that are put behind a condition with
`&&` bind to its last alternative only. -/
theorem value_merge_eq_iff (hs : s ∈ sites) (hp : s.pristine.occurrences c = [])
    (hm : s.patchedRegions c = [o]) {old : Formula} (hold : read o.marked = some old) {p : Plan}
    {added : List Text} (hplan : s.plan names file c = .ok p)
    (hstate : p.state = .needsMerge added) :
    ∃ c' o' new, p.applyTo c = .ok c' ∧ s.patchedRegions c' = [o'] ∧
      read o'.marked = some new ∧ ∀ v : Valuation,
        let isAdded := (addedNames s.condition names added).contains v.called
        value s.condition v new = mergedValue s.condition (value s.condition v old) isAdded ↔
          s.condition.comparison = .equal ∨ isAdded = false ∨
            value s.condition v old.dropLast = false := by
  obtain ⟨k, m, hpatchable⟩ := exists_patchable hs
  obtain ⟨fs, hf⟩ := exists_readsAs hs
  rw [hpatchable.patchedRegions_eq] at hm
  obtain ⟨hpatch, -, hfound⟩ := hpatchable.extend_step hp hm names
  -- the plan adds the checks of the names that are absent
  rw [hpatchable.plan_of_merge hp hm, Except.ok.injEq] at hplan
  have hadded : addedNames s.condition names added
      = s.condition.absent o.marked.trimEnd names := by
    rw [← hplan, Site.planMerge] at hstate
    by_cases h : (s.condition.missing o.marked.trimEnd names).isEmpty = true
    · simp [h, Plan.unchanged] at hstate
    · simp only [h, Bool.false_eq_true, if_false, PatchState.needsMerge.injEq] at hstate
      rw [← hstate, addedNames_missing]
  have hwords : ∀ n ∈ s.condition.absent o.marked.trimEnd names, n.IsWord := fun n hn =>
    NameSet.isWord_of_mem (List.mem_filter.mp hn).1
  -- white space at the end of the condition does not change how it is read
  have htrim : read o.marked.trimEnd = some old := by
    have hblank : read (o.marked.trimEnd ++ o.marked.blankEnd) = read o.marked.trimEnd :=
      read_append_blank fun _ => Text.blank_of_mem_blankEnd _
    rw [Text.trimEnd_append_blankEnd, hold] at hblank
    exact hblank.symm
  obtain ⟨earlier, last, rfl, hread⟩ := read_extend hf hwords htrim
  refine ⟨_, o.extended s.condition names,
    Cpp.extended s.condition fs earlier last (s.condition.absent o.marked.trimEnd names),
    by rw [← hplan]; exact hpatch file, ?_, ?_, ?_⟩
  · rw [hpatchable.patchedRegions_eq, hfound]
  · show read (s.condition.extend o.marked.trimEnd _ ++ o.marked.blankEnd) = _
    rw [read_append_blank fun _ => Text.blank_of_mem_blankEnd _]
    exact hread
  · intro v isAdded
    rw [value_extended hf hwords, mergedValue, List.dropLast_concat]
    have hlast : value s.condition v (earlier ++ [last])
        = (value s.condition v earlier || last.all (atomValue s.condition v)) := by
      simp [value, List.any_append]
    have hisAdded : isAdded
        = (s.condition.absent o.marked.trimEnd names).contains v.called := by
      rw [← hadded]
    -- `||` is the loosest connective, but `&&` binds to the last alternative only
    cases s.condition.comparison with
    | equal => simp [hisAdded]
    | notEqual =>
      simp only [hlast, ← hisAdded]
      cases isAdded <;> cases value s.condition v earlier <;>
        cases last.all (atomValue s.condition v) <;> simp

/-- A patched guard of a matcher whose condition has a second alternative. -/
def aliasOccurrence : Occurrence :=
  ⟨[], "if (!funcAsGlobal || (", "funcAsGlobal->name != require || isAlias",
    "))\n    return std::nullopt;\n", []⟩

/-- The condition of `aliasOccurrence` as it is read. -/
def aliasFormula : Formula :=
  [[[.word "funcAsGlobal", .symbol "->", .word "name", .symbol "!=", .word "require"]],
    [[.word "isAlias"]]]

/-- A merge for `load` into a condition with a second alternative: where the other atom is true, a
call of `load` should make the condition fail, and does not. -/
theorem value_merge_ne_aliasGuard :
    ∃ p, constraintGenerator.plan loadOnly [] aliasOccurrence.text = .ok p ∧
      p.state = .needsMerge ["funcAsGlobal->name != \"load\""] ∧
        ∃ c' o' new, p.applyTo aliasOccurrence.text = .ok c' ∧
          constraintGenerator.patchedRegions c' = [o'] ∧ read o'.marked = some new ∧
            value constraintGenerator.condition ⟨"load", fun _ => true⟩ new ≠
              mergedValue constraintGenerator.condition
                (value constraintGenerator.condition ⟨"load", fun _ => true⟩ aliasFormula) true := by
  have hsite : constraintGenerator ∈ sites := by decide
  have hp : constraintGenerator.pristine.occurrences aliasOccurrence.text = [] := by
    decide +kernel
  have hm : constraintGenerator.patchedRegions aliasOccurrence.text = [aliasOccurrence] := by
    decide +kernel
  have hold : read aliasOccurrence.marked = some aliasFormula := by decide
  have hstate : (constraintGenerator.planMerge loadOnly [] aliasOccurrence.markedStart
      aliasOccurrence.marked).state = .needsMerge ["funcAsGlobal->name != \"load\""] := by
    decide +kernel
  have hplan : constraintGenerator.plan loadOnly [] aliasOccurrence.text
      = .ok (constraintGenerator.planMerge loadOnly [] aliasOccurrence.markedStart
        aliasOccurrence.marked) :=
    (patchable_matcher _ _).plan_of_merge hp hm
  obtain ⟨c', o', new, hpatch, hfound, hnew, hvalue⟩ :=
    value_merge_eq_iff hsite hp hm hold hplan hstate
  refine ⟨_, hplan, hstate, c', o', new, hpatch, hfound, hnew, ?_⟩
  exact fun heq => absurd ((hvalue ⟨"load", fun _ => true⟩).mp heq) (by decide)

end SitePatch.Luau
