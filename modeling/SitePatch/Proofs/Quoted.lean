import SitePatch.Proofs.Checked
import SitePatch.Proofs.Split

/-! # What stands in quotes

A generated text has its names in quotes, and what stands between two of its quotes otherwise is no
identifier: there are spaces and a comparison. So the identifiers between quotes (`Text.quoted`) are
the names that the text was generated for, in their order (`ConditionForm.quoted_build`). A check
has an identifier in quotes, too, so it is not seen where two others meet. Main statement: generated
text tells for which names it was generated (`Luau.generated_spec`). -/

namespace SitePatch

/-! ## Identifiers between quotes -/

namespace Text

variable {n t u v : Text} {c : Char}

/-- **The identifiers between the quotes of a text**, in their order. -/
def quoted (t : Text) : List Text := (t.split '"').filter isIdentifier

/-- A text with a character of another kind is no identifier. -/
theorem isIdentifier_eq_false (hc : c ∈ t) (hother : isIdentChar c = false) :
    isIdentifier t = false := by
  cases h : isIdentifier t with
  | false => rfl
  | true => exact absurd (isWord_of_isIdentifier h c hc) (by simp [hother])

/-- A quote cuts what is read in front of it from what is read behind it. -/
theorem quoted_append_quote (u v : Text) : (u ++ '"' :: v).quoted = u.quoted ++ v.quoted := by
  rw [quoted, split_append_separator, List.filter_append]
  rfl

/-- A text without quotes that is no identifier has nothing in quotes. -/
theorem quoted_eq_nil (ht : '"' ∉ t) (hident : isIdentifier t = false) : t.quoted = [] := by
  rw [quoted, split_of_not_mem ht, List.filter_cons_of_neg (by simp [hident]), List.filter_nil]

/-- An identifier by itself is quoted, for the ends of a text count as quotes. -/
theorem quoted_of_isIdentifier (hn : isIdentifier n = true) : n.quoted = [n] := by
  rw [quoted, split_of_not_mem (isWord_of_isIdentifier hn).quote_not_mem,
    List.filter_cons_of_pos hn, List.filter_nil]

/-- An identifier in quotes is read between what is read around it. -/
theorem quoted_literal (u : Text) (hn : isIdentifier n = true) (v : Text) :
    (u ++ '"' :: (n ++ '"' :: v)).quoted = u.quoted ++ n :: v.quoted := by
  rw [quoted_append_quote, quoted_append_quote, quoted_of_isIdentifier hn, List.singleton_append]

end Text

/-! ## Conditions -/

namespace ConditionForm

variable {f : ConditionForm} {n u v : Text} {names a b : NameSet}

/-- A connective has no quote in it. -/
theorem quote_not_mem_connective (f : ConditionForm) : '"' ∉ f.connective := by
  rw [connective]
  cases f.comparison <;> decide

/-- Before the operand of a check there is a space. -/
theorem space_mem_stem (f : ConditionForm) : ' ' ∈ f.stem := by
  simp [stem]

/-- A check is read as what stands in front of its operand, and its name. -/
theorem quoted_append_check (u : Text) (hn : isIdentifier n = true) (v : Text) :
    (u ++ f.check n ++ v).quoted = (u ++ f.stem).quoted ++ n :: v.quoted := by
  have hcut : u ++ f.check n ++ v = (u ++ f.stem) ++ '"' :: (n ++ '"' :: v) := by
    simp [check_eq]
  rw [hcut, Text.quoted_literal _ hn]

/-- Behind a text without quotes, a check is read as its name. -/
theorem quoted_check (hf : '"' ∉ f.field) (hu : '"' ∉ u) (hn : isIdentifier n = true) (v : Text) :
    (u ++ f.check n ++ v).quoted = n :: v.quoted := by
  have hstem : '"' ∉ u ++ f.stem := by simp [hu, quote_not_mem_stem hf]
  have hident : isIdentifier (u ++ f.stem) = false :=
    Text.isIdentifier_eq_false (List.mem_append_right u f.space_mem_stem) (by decide)
  rw [quoted_append_check u hn, Text.quoted_eq_nil hstem hident, List.nil_append]

/-- A check that stands in a text is read from it. -/
theorem mem_quoted_of_occursIn {t : Text} (hn : isIdentifier n = true)
    (h : (f.check n).occursIn t = true) : n ∈ t.quoted := by
  obtain ⟨before, after, rfl⟩ := Text.occursIn_iff.mp h
  rw [quoted_append_check before hn]
  exact List.mem_append_right _ List.mem_cons_self

/-- **Checks behind connectives are read as their names**, between texts that are not read. -/
theorem quoted_extend {ns : List Text} (hf : '"' ∉ f.field) (hns : ∀ n ∈ ns, isIdentifier n = true)
    (hu : '"' ∉ u) (hv : '"' ∉ v) (huv : isIdentifier (u ++ v) = false)
    (hident : isIdentifier v = false) : (f.extend u ns ++ v).quoted = ns := by
  induction ns generalizing u with
  | nil =>
    rw [extend_nil]
    exact Text.quoted_eq_nil (by simp [hu, hv]) huv
  | cons n ns ih =>
    obtain ⟨hn, hrest⟩ := List.forall_mem_cons.mp hns
    have hbefore : '"' ∉ u ++ f.connective := by simp [hu, quote_not_mem_connective]
    -- the names behind the first one are read behind its closing quote
    have hcut : f.extend u (n :: ns) ++ v
        = (u ++ f.connective) ++ f.check n ++ (f.extend [] ns ++ v) := by
      simp [extend]
    rw [hcut, quoted_check hf hbefore hn, ih hrest List.not_mem_nil hident]

/-- What stands in quotes in the check of the base name. -/
def quotedBase (f : ConditionForm) : List Text :=
  match f.base with
  | .literal => [baseName]
  | .identifier => []

/-- The check of the base name has nothing but that in quotes. -/
theorem eq_baseName_of_mem_quotedBase (hn : n ∈ f.quotedBase) : n = baseName := by
  rw [quotedBase] at hn
  cases hbase : f.base with
  | literal => simpa [hbase] using hn
  | identifier => simp [hbase] at hn

/-- **A generated condition is read as the names that it was generated for**, behind the base name
if that is in quotes. -/
theorem quoted_build (hf : '"' ∉ f.field) (hu : '"' ∉ u) (hv : '"' ∉ v)
    (hident : isIdentifier v = false) (names : NameSet) :
    (u ++ f.build names ++ v).quoted = f.quotedBase ++ names.toList := by
  have hnames : ∀ n ∈ names.toList, isIdentifier n = true := fun _ =>
    NameSet.isIdentifier_eq_true_of_mem
  rw [build_eq, quotedBase]
  cases hbase : f.base with
  | literal =>
    have hcut : u ++ f.extend f.baseCheck names.toList ++ v
        = u ++ f.check baseName ++ (f.extend [] names.toList ++ v) := by
      simp [baseCheck, hbase, extend]
    rw [hcut, quoted_check hf hu (by decide),
      quoted_extend hf hnames List.not_mem_nil hv hident hident]
    rfl
  | identifier =>
    -- the base name stands bare behind the first stem, where it is not read
    have hcut : u ++ f.extend f.baseCheck names.toList ++ v
        = f.extend (u ++ f.baseCheck) names.toList ++ v := by
      simp [extend]
    have hbare : '"' ∉ u ++ f.baseCheck := by simp [hu, quote_not_mem_baseCheck hf hbase]
    have hspace : isIdentifier (u ++ f.baseCheck ++ v) = false :=
      Text.isIdentifier_eq_false (c := ' ')
        (by simp [baseCheck_of_identifier hbase, f.space_mem_stem]) (by decide)
    rw [hcut, quoted_extend hf hnames hbare hv hspace hident]
    rfl

/-- **A check stands in a generated text exactly when the text was generated for its name.** -/
theorem occursIn_build_iff (hf : '"' ∉ f.field) (hu : '"' ∉ u) (hv : '"' ∉ v)
    (hident : isIdentifier v = false) (hn : n ∈ b.toList) :
    (f.check n).occursIn (u ++ f.build a ++ v) = true ↔ n ∈ a.toList := by
  constructor
  · intro h
    have hmem := mem_quoted_of_occursIn (NameSet.isIdentifier_eq_true_of_mem hn) h
    rw [quoted_build hf hu hv hident, List.mem_append] at hmem
    exact hmem.resolve_left fun hbase =>
      NameSet.ne_baseName_of_mem hn (eq_baseName_of_mem_quotedBase hbase)
  · intro h
    exact Text.occursIn_append_left (Text.occursIn_append_right
      (occursIn_build (List.mem_cons_of_mem _ (List.mem_map_of_mem h))))

/-- A generated condition lacks the checks of the names that it was not generated for. -/
theorem absent_build (hf : '"' ∉ f.field) (a b : NameSet) :
    f.absent (f.build a) b = b.toList.filter fun n => decide (n ∉ a.toList) := by
  rw [absent]
  refine List.filter_congr fun n hn => ?_
  have hiff : (f.check n).occursIn (f.build a) = true ↔ n ∈ a.toList := by
    simpa using occursIn_build_iff (u := []) (v := []) hf List.not_mem_nil List.not_mem_nil rfl hn
  rw [Bool.eq_iff_iff]
  simp [← hiff]

/-- **No condition is generated for two sets.** -/
theorem build_injective (hf : '"' ∉ f.field) : Function.Injective f.build := by
  intro a b hbuild
  have hread : ∀ names, (f.build names).quoted = f.quotedBase ++ names.toList := by
    intro names
    simpa using quoted_build (u := []) (v := []) hf List.not_mem_nil List.not_mem_nil rfl names
  have hnames : f.quotedBase ++ a.toList = f.quotedBase ++ b.toList := by
    rw [← hread a, ← hread b, hbuild]
  exact NameSet.ext_toList (List.append_cancel_left hnames)

end ConditionForm

/-! ## Luau -/

/-- **The template puts nothing in quotes**: around its condition there are none, and what stands
behind the condition is no identifier. -/
def Template.IsBare (template : Template) (indent : Text) : Prop :=
  ∃ u v, '"' ∉ u ∧ '"' ∉ v ∧ isIdentifier v = false ∧
    ∀ condition, template.fill indent condition = u ++ condition ++ v

namespace Luau

variable {s : Site} {template : Template} {indent a b c : Text}

/-- An indentation has no quote in it. -/
theorem IsIndent.quote_not_mem (hi : IsIndent indent) : '"' ∉ indent :=
  fun h => absurd (hi _ h) (by decide)

/-- The template of a guard puts nothing in quotes. -/
theorem isBare_guard (hi : IsIndent indent) (hquote : '"' ∉ a ++ (b ++ c)) (hparen : ')' ∈ b) :
    Template.IsBare [.indent, .text a, .condition, .text b, .indent, .text c] indent := by
  simp only [List.mem_append, not_or] at hquote
  obtain ⟨ha, hb, hc⟩ := hquote
  refine ⟨indent ++ a, b ++ (indent ++ c), ?_, ?_, ?_, fill_guard indent a b c⟩
  · simp [hi.quote_not_mem, ha]
  · simp [hi.quote_not_mem, hb, hc]
  · exact Text.isIdentifier_eq_false (List.mem_append_left _ hparen) (by decide)

/-- The template of an answer puts nothing in quotes. -/
theorem isBare_answer (hi : IsIndent indent) (hquote : '"' ∉ a ++ b) (hsemicolon : ';' ∈ b) :
    Template.IsBare [.indent, .text a, .condition, .text b] indent := by
  simp only [List.mem_append, not_or] at hquote
  refine ⟨indent ++ a, b, ?_, hquote.2, ?_, fill_answer indent a b⟩
  · simp [hi.quote_not_mem, hquote.1]
  · exact Text.isIdentifier_eq_false hsemicolon (by decide)

/-- No template of Luau's Analysis library puts anything in quotes. -/
theorem isBare_of_mem_templates (htemplate : template ∈ templates) (hi : IsIndent indent) :
    template.IsBare indent := by
  simp only [templates, List.mem_cons, List.not_mem_nil, or_false] at htemplate
  rcases htemplate with rfl | rfl | rfl
  · exact isBare_guard hi (by decide) (by decide)
  · exact isBare_guard hi (by decide) (by decide)
  · exact isBare_answer hi (by decide) (by decide)

/-- The replacements of the library's sites are its templates. -/
theorem replacement_mem_templates : ∀ s ∈ sites, s.replacement ∈ templates := by decide

/-- **A patched region is fully patched for the names that it was generated for**, and for no other.
-/
theorem isFullyApplied_patched_iff (hs : s ∈ sites) (hi : IsIndent indent) (a b : NameSet) :
    s.isFullyApplied (s.patched indent a) b = true ↔ ∀ n ∈ b.toList, n ∈ a.toList := by
  have htemplate := replacement_mem_templates s hs
  obtain ⟨_, _, hpatchable⟩ := exists_patchable hs
  obtain ⟨u, v, hu, hv, hident, hfill⟩ := isBare_of_mem_templates htemplate hi
  have hcheck : ∀ n ∈ b.toList,
      (s.condition.check n).occursIn (s.patched indent a) = true ↔ n ∈ a.toList := by
    intro n hn
    rw [Site.patched, hfill]
    exact ConditionForm.occursIn_build_iff (ConditionForm.quote_not_mem_field hpatchable.plain) hu hv
      hident hn
  constructor
  · intro hall n hn
    exact (hcheck n hn).mp (Site.occursIn_of_isFullyApplied hall hn)
  · intro hnames
    rw [Site.isFullyApplied, List.all_eq_true]
    intro token htoken
    rcases List.mem_cons.mp htoken with rfl | htoken
    · exact Template.occursIn_fill (condition_mem_of_mem_templates _ htemplate)
        (ConditionForm.occursIn_build List.mem_cons_self) indent
    · obtain ⟨n, hn, rfl⟩ := List.mem_map.mp htoken
      exact (hcheck n hn).mpr (hnames n hn)

/-- **Generated text tells for which names it was generated.** A condition of any form whose field
has no quotes lacks the checks of the names that it was not generated for, in the order of the set
that is asked about; a patched region of a site, with any indentation, is fully patched for exactly
the sets all of whose names it was generated for; and no condition is generated for two sets. -/
theorem generated_spec {f : ConditionForm} (hf : '"' ∉ f.field) :
    (∀ a b : NameSet, f.missing (f.build a) b
      = (b.toList.filter fun n => decide (n ∉ a.toList)).map f.check) ∧
    (∀ s ∈ sites, ∀ indent, IsIndent indent → ∀ a b : NameSet,
      s.isFullyApplied (s.patched indent a) b = true ↔ ∀ n ∈ b.toList, n ∈ a.toList) ∧
    ∀ a b : NameSet, f.build a = f.build b → a = b := by
  refine ⟨fun a b => ?_, fun s hs indent hi => isFullyApplied_patched_iff hs hi, fun a b hbuild =>
    ConditionForm.build_injective hf hbuild⟩
  rw [ConditionForm.missing_eq, ConditionForm.absent_build hf]

/-- A form whose field looks like checks joined by a connective. -/
def joinedForm : ConditionForm := ⟨"a != b && c", .notEqual, .identifier⟩

/-- The set of the names `loadAll` and `l`. -/
def loadAllAndL : NameSet :=
  ⟨[⟨"loadAll", by decide, by decide⟩, ⟨"l", by decide, by decide⟩], by decide⟩

/-- One of these names between two that stand at the ends of the other. -/
def endsAndL : NameSet :=
  ⟨[⟨"loadA", by decide, by decide⟩, ⟨"l", by decide, by decide⟩, ⟨"All", by decide, by decide⟩],
    by decide⟩

/-- A condition for names with others at their ends lacks the checks of these others, and the
tracer's guard for two names is fully patched for one of them. -/
theorem generated_loadAllAndL :
    '"' ∉ joinedForm.field ∧
      joinedForm.missing (joinedForm.build loadAllAndL) endsAndL
        = ["a != b && c != \"loadA\"".toList, "a != b && c != \"All\"".toList] ∧
      tracer ∈ sites ∧ IsIndent "\t  " ∧
      tracer.isFullyApplied (tracer.patched "\t  " fetchAndLoad) loadOnly = true := by
  have hf : '"' ∉ joinedForm.field := by decide
  have hs : tracer ∈ sites := by decide
  have hi : IsIndent "\t  " := List.all_eq_true.mp (by decide)
  obtain ⟨hmissing, happlied, -⟩ := generated_spec hf
  refine ⟨hf, (hmissing loadAllAndL endsAndL).trans (by decide), hs, hi, ?_⟩
  exact (happlied tracer hs "\t  " hi fetchAndLoad loadOnly).mpr (by decide)

end Luau

end SitePatch
