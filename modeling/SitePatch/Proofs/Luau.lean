import SitePatch.Luau
import SitePatch.Proofs.Patch

/-! # The sites of Luau's Analysis library recognise their own work

Each of the four sites is `Site.Patchable`: what a step writes there is what the next step looks
for. The guards start with `if (`, the answers with `return glob->name`, and the rest of a region is
read piece by piece. Main statement: at every site, patching for several sets of names is patching
once for their union (`patchAll_eq_patch`). -/

namespace SitePatch.Luau

open Pattern

/-! ## Openings -/

/-- How the guards of the tracer and the matchers start. -/
def guardOpening : Opening := ⟨"if", "("⟩

/-- How the answers of the linter start. -/
def answerOpening : Opening := ⟨"return", "glob->name"⟩

/-! ## Reading what is written -/

/-- A character that indents a line is a space or a tab. -/
theorem has_indentClass_iff {c : Char} :
    (CharClass.oneOf [' ', '\t']).has c = true ↔ c = ' ' ∨ c = '\t' := by
  simp [CharClass.has]

/-- The text could indent a line: it has spaces and tabs only. -/
def IsIndent (i : Text) : Prop := ∀ c ∈ i, (CharClass.oneOf [' ', '\t']).has c = true

/-- An indentation is white space. -/
theorem IsIndent.blank {i : Text} (hi : IsIndent i) : ∀ c ∈ i, Text.isBlank c = true :=
  fun c hc => CharClass.of_has_oneOf (by decide) (hi c hc)

/-- The indentation of a delivered region. -/
theorem isIndent_of_takes {i rest : Text} (h : Pattern.Takes indent i rest) : IsIndent i := by
  rw [indent, takes_singleton, Atom.takes_run] at h
  exact h.1

/-- An indented line is read as its indentation and the rest. -/
theorem takes_indent_append {p : Pattern} {i t : Text} (hi : IsIndent i) (hp : p.isClosed = true)
    (ht : p.Takes t []) (hstop : t.StopsAt (CharClass.oneOf [' ', '\t']).has) (rest : Text) :
    Pattern.Takes (indent ++ p) (i ++ t) rest := by
  obtain ⟨hne, htakes⟩ := takes_of_isClosed hp ht
  refine takes_append.mpr ⟨i, t, rfl, ?_, htakes rest⟩
  rw [indent, takes_singleton, Atom.takes_run]
  exact ⟨hi, Nat.zero_le _, (Text.stopsAt_append_iff hne).mpr hstop⟩

/-- The end of a guard is read as the closing parentheses, the line break with the indentation, and
the statement. -/
theorem takes_guard_tail {p : Pattern} {i t : Text} (hi : IsIndent i) (hp : p.isClosed = true)
    (ht : p.Takes t []) (hstop : t.StopsAt Text.isBlank) (rest : Text) :
    Pattern.Takes (spaced [")", ")"] ++ (lineGap ++ p)) ("))\n" ++ (i ++ ("    " ++ t))) rest := by
  obtain ⟨hne, htakes⟩ := takes_of_isClosed hp ht
  have hcut : ("))\n" ++ (i ++ ("    " ++ t)) : Text) = "))" ++ ("\n" ++ i ++ "    " ++ t) := by
    rw [List.append_assoc, List.append_assoc]
    rfl
  rw [hcut]
  have hparens : Pattern.Takes (spaced [")", ")"]) "))" [] := by decide
  refine takes_append.mpr ⟨"))", _, rfl, (takes_of_isClosed (by decide) hparens).2 _, ?_⟩
  refine takes_append.mpr ⟨"\n" ++ i ++ "    ", t, rfl, ?_, htakes rest⟩
  rw [lineGap, takes_singleton, Atom.takes_lineGap]
  refine ⟨fun c hc => ?_, by simp, (Text.stopsAt_append_iff hne).mpr hstop⟩
  have hmem : c ∈ "\n".toList ∨ c ∈ i ∨ c ∈ "    ".toList := by
    simpa only [List.mem_append, or_assoc] using hc
  have hspaces : ∀ d ∈ "\n".toList ++ "    ".toList, Text.isBlank d = true :=
    List.all_eq_true.mp (by decide)
  rcases hmem with h | h | h
  · exact hspaces c (List.mem_append_left _ h)
  · exact hi.blank c h
  · exact hspaces c (List.mem_append_right _ h)

/-- No parenthesis stands in the text. -/
def ParenFree (t : Text) : Prop := ∀ c ∈ t, (CharClass.noneOf ['(', ')']).has c = true

/-- Texts without parentheses have none together. -/
theorem ParenFree.append {t u : Text} (ht : ParenFree t) (hu : ParenFree u) :
    ParenFree (t ++ u) := fun c hc => (List.mem_append.mp hc).elim (ht c) (hu c)

/-- The characters of checks are no parentheses. -/
theorem parenFree_of_isCheckChar {t : Text}
    (h : ∀ c ∈ t, ConditionForm.isCheckChar c = true) : ParenFree t :=
  fun c hc => CharClass.has_noneOf_of (by decide) (h c hc)

/-- What is put behind a condition has no parenthesis. -/
theorem parenFree_extend {f : ConditionForm} {condition : Text} {ns : List Text}
    (hf : f.isPlain = true) (hns : ∀ n ∈ ns, n.IsWord) (h : ParenFree condition) :
    ParenFree (f.extend condition ns) := by
  have hconnective : ParenFree f.connective := by
    apply List.all_eq_true.mp
    rw [ConditionForm.connective]
    cases f.comparison <;> decide
  induction ns generalizing condition with
  | nil => simpa using h
  | cons n ns ih =>
    rw [ConditionForm.extend_cons]
    refine ih (fun m hm => hns m (List.mem_cons_of_mem _ hm)) (h.append (hconnective.append ?_))
    exact parenFree_of_isCheckChar (ConditionForm.isCheckChar_of_mem_check hf (hns n (by simp)))

/-- The parts of a text without parentheses have none. -/
theorem ParenFree.trimEnd {t : Text} (h : ParenFree t) :
    ParenFree t.trimEnd ∧ ParenFree t.blankEnd := by
  rw [← t.trimEnd_append_blankEnd] at h
  exact ⟨fun c hc => h c (List.mem_append_left _ hc), fun c hc => h c (List.mem_append_right _ hc)⟩

/-- The whole condition has no parenthesis. -/
theorem parenFree_build {f : ConditionForm} (hf : f.isPlain = true) (names : NameSet) :
    ParenFree (f.build names) := by
  rw [ConditionForm.build_eq]
  refine parenFree_extend hf (fun n hn => NameSet.isWord_of_mem hn) ?_
  exact parenFree_of_isCheckChar (ConditionForm.isCheckChar_of_mem_baseCheck hf)

/-! ## Tracer -/

/-- A template of a guard, filled in. -/
theorem fill_guard (i a b c condition : Text) :
    Template.fill [.indent, .text a, .condition, .text b, .indent, .text c] i condition
      = (i ++ a) ++ condition ++ (b ++ (i ++ c)) := by
  simp [Template.fill, TemplatePart.fill]

/-- A template of an answer, filled in. -/
theorem fill_answer (i a b condition : Text) :
    Template.fill [.indent, .text a, .condition, .text b] i condition = (i ++ a) ++ condition ++ b := by
  simp [Template.fill, TemplatePart.fill]

/-- A run of characters other than parentheses reads a condition up to the parenthesis behind it. -/
theorem takes_parenFree {n : Nat} {w t rest : Text} (hw : ParenFree w) (hn : n ≤ w.length)
    (ht : t.StopsAt (CharClass.noneOf ['(', ')']).has) (hne : t ≠ []) :
    (Atom.run (.noneOf ['(', ')']) n).Takes w (t ++ rest) := by
  rw [Atom.takes_run]
  exact ⟨hw, hn, (Text.stopsAt_append_iff hne).mpr ht⟩

/-- Putting checks behind a condition does not make it shorter. -/
theorem length_le_extend (f : ConditionForm) (t : Text) (ns : List Text) :
    t.length ≤ (f.extend t.trimEnd ns ++ t.blankEnd).length := by
  have h := congrArg List.length t.trimEnd_append_blankEnd
  rw [List.length_append] at h
  rw [List.length_append, ConditionForm.extend, List.length_append]
  omega

/-- The tracer recognises its own work. -/
theorem patchable_tracer : tracer.Patchable guardOpening tracerMerge where
  merge := rfl
  pristine_mark := rfl
  merge_mark := rfl
  pristine_anchors := by decide
  merge_anchors := by decide
  apart := by decide
  plain := by decide
  rewrite o h := by
    have hi := isIndent_of_takes h.marked
    refine ⟨o.marked ++ "if (global && expr->args.size >= 1 && (",
      "))\n" ++ (o.marked ++ "    requireCalls.push_back(expr);\n"),
      fun names _ => ⟨fill_guard _ _ _ _ _, h.endsLine, ?_, ?_, ?_⟩⟩
    · exact takes_indent_append hi (by decide) (by decide) (by decide) _
    · have hne : tracer.condition.build names ≠ [] := by
        rw [ConditionForm.build_eq, ConditionForm.extend]
        simp [ConditionForm.baseCheck_ne_nil]
      refine takes_singleton.mpr ?_
      rw [List.append_assoc]
      exact takes_parenFree (parenFree_build (by decide) names) (List.length_pos_iff.mpr hne)
        (by decide) (by decide)
    · have hline : ("    requireCalls.push_back(expr);\n" : Text)
          = "    " ++ "requireCalls.push_back(expr);\n" := by decide
      rw [hline]
      exact takes_guard_tail hi (by decide) (by decide) (by decide) _
  extend o h ns hns := by
    have hmarked := Atom.takes_run.mp (takes_singleton.mp h.marked)
    obtain ⟨hfree, hlength, hstop⟩ := hmarked
    have htrim := ParenFree.trimEnd hfree
    refine ⟨h.endsLine, (takes_of_isClosed (by decide) h.lead).2 _, ?_, h.tail⟩
    refine takes_singleton.mpr (Atom.takes_run.mpr ⟨?_, ?_, hstop⟩)
    · exact (parenFree_extend (by decide) hns htrim.1).append htrim.2
    · exact Nat.le_trans hlength (length_le_extend _ _ _)

/-! ## Matchers -/

/-- What the condition of a matcher starts with. -/
def matcherStart : Pattern := spaced ["funcAsGlobal->name", "!=", "require"]

/-- The condition of a matcher starts with the comparison with the base name, which ends there, and
goes on up to the next parenthesis. -/
theorem takes_matcherMarked_iff {w rest : Text} :
    matcherMerge.marked.Takes w rest ↔
      ∃ u v, w = u ++ v ∧ matcherStart.Takes u [] ∧ (v ++ rest).StopsAt Text.isWordChar ∧
        ParenFree v ∧ rest.StopsAt (CharClass.noneOf ['(', ')']).has := by
  have hmarked : matcherMerge.marked
      = matcherStart ++ [Piece.atom .wordEnd, Piece.atom (.run (.noneOf ['(', ')']) 0)] := rfl
  rw [hmarked]
  have hclosed : matcherStart.isClosed = true := by decide
  constructor
  · intro h
    obtain ⟨u, v, rfl, hu, hv⟩ := takes_append.mp h
    obtain ⟨v₁, v₂, rfl, hend, hrun⟩ := takes_cons.mp hv
    rw [Piece.takes_atom, Atom.takes_wordEnd] at hend
    rw [takes_singleton, Atom.takes_run] at hrun
    obtain ⟨rfl, hend⟩ := hend
    exact ⟨u, v₂, rfl, (takes_of_isClosed hclosed hu).2 [], hend, hrun.1, hrun.2.2⟩
  · rintro ⟨u, v, rfl, hu, hend, hfree, hstop⟩
    refine takes_append.mpr ⟨u, v, rfl, (takes_of_isClosed hclosed hu).2 _, ?_⟩
    refine takes_cons.mpr ⟨[], v, rfl, ?_, ?_⟩
    · rw [Piece.takes_atom, Atom.takes_wordEnd]
      exact ⟨rfl, hend⟩
    · rw [takes_singleton, Atom.takes_run]
      exact ⟨hfree, Nat.zero_le _, hstop⟩

/-- Checks put behind the start of a condition do not go on with its last word. -/
theorem stopsAt_extend {f : ConditionForm} {v rest : Text}
    (h : (v ++ rest).StopsAt Text.isWordChar) (ns : List Text) :
    (f.extend v.trimEnd ns ++ v.blankEnd ++ rest).StopsAt Text.isWordChar := by
  cases htrim : v.trimEnd with
  | cons c cs =>
    have hv := v.trimEnd_append_blankEnd
    rw [htrim] at hv
    rw [← hv] at h
    simpa [ConditionForm.extend] using h
  | nil =>
    cases ns with
    | nil =>
      have hv := v.trimEnd_append_blankEnd
      rw [htrim, List.nil_append] at hv
      rw [ConditionForm.extend_nil, hv]
      exact h
    | cons n ns =>
      obtain ⟨d, hconn, -⟩ := f.exists_connective
      simp only [ConditionForm.extend, hconn, List.flatMap_cons, List.nil_append,
        List.cons_append, Text.stopsAt_cons]
      decide

section Matcher

variable (id path : Text)

/-- The form of a matcher's checks is plain. -/
theorem isPlain_matcher : (matcher id path).condition.isPlain = true := by
  show ConditionForm.isPlain ⟨"funcAsGlobal->name", .notEqual, .identifier⟩ = true
  decide

/-- The condition that a matcher writes is one that it recognises. -/
theorem takes_matcherMarked_build (names : NameSet) (rest : Text) :
    matcherMerge.marked.Takes ((matcher id path).condition.build names) (')' :: rest) := by
  have hbuild : (matcher id path).condition.build names
      = "funcAsGlobal->name != require" ++ (matcher id path).condition.extend [] names.toList := by
    rw [ConditionForm.build_eq]
    rfl
  have hstart : matcherStart.Takes "funcAsGlobal->name != require" [] := by decide
  refine takes_matcherMarked_iff.mpr ⟨_, _, hbuild, hstart, ?_, ?_, ?_⟩
  · have hparen : Text.StopsAt Text.isWordChar ([] ++ ')' :: rest) :=
      Text.stopsAt_cons.mpr (by decide)
    have h := stopsAt_extend (f := (matcher id path).condition) hparen names.toList
    rwa [Text.trimEnd_nil, show Text.blankEnd [] = [] from rfl, List.append_nil] at h
  · exact parenFree_extend (isPlain_matcher id path) (fun n hn => NameSet.isWord_of_mem hn)
      (by simp [ParenFree])
  · exact Text.stopsAt_cons.mpr (by decide)

/-- A condition of a matcher stays one when checks are put behind it. -/
theorem takes_matcherMarked_extend {w rest : Text} {ns : List Text} (hns : ∀ n ∈ ns, n.IsWord)
    (h : matcherMerge.marked.Takes w rest) :
    matcherMerge.marked.Takes ((matcher id path).condition.extend w.trimEnd ns ++ w.blankEnd)
      rest := by
  obtain ⟨u, v, rfl, hu, hend, hfree, hstop⟩ := takes_matcherMarked_iff.mp h
  -- the start of the condition ends with a letter, so what is trimmed lies behind it
  obtain ⟨u', hu'⟩ : ∃ u', u = u' ++ "require" := exists_of_getLast? rfl hu
  have htrim : u.Trimmed := by
    rw [hu', Text.trimmed_append_iff (by decide)]
    decide
  obtain ⟨htrimEnd, hblankEnd⟩ := Text.trimEnd_append_left (v := v) htrim
  have hfree' := ParenFree.trimEnd hfree
  refine takes_matcherMarked_iff.mpr
    ⟨u, (matcher id path).condition.extend v.trimEnd ns ++ v.blankEnd, ?_, hu,
      stopsAt_extend hend ns,
      (parenFree_extend (isPlain_matcher id path) hns hfree'.1).append hfree'.2, hstop⟩
  rw [htrimEnd, hblankEnd, ConditionForm.extend, ConditionForm.extend]
  simp only [List.append_assoc]

/-- A matcher recognises its own work. -/
theorem patchable_matcher : (matcher id path).Patchable guardOpening matcherMerge where
  merge := rfl
  pristine_mark := rfl
  merge_mark := rfl
  pristine_anchors := by
    show guardOpening.anchors matcherPristine = true
    decide
  merge_anchors := by decide
  apart := by
    show apart matcherPristine.pattern matcherMerge.pattern = true
    decide
  plain := isPlain_matcher id path
  rewrite o h := by
    have hi := isIndent_of_takes h.marked
    refine ⟨o.marked ++ "if (!funcAsGlobal || (",
      "))\n" ++ (o.marked ++ "    return std::nullopt;\n"),
      fun names _ => ⟨fill_guard _ _ _ _ _, h.endsLine, ?_, ?_, ?_⟩⟩
    · exact takes_indent_append hi (by decide) (by decide) (by decide) _
    · exact takes_matcherMarked_build id path names _
    · have hline : ("    return std::nullopt;\n" : Text) = "    " ++ "return std::nullopt;\n" := by
        decide
      rw [hline]
      exact takes_guard_tail hi (by decide) (by decide) (by decide) _
  extend o h ns hns := by
    refine ⟨h.endsLine, (takes_of_isClosed (by decide) h.lead).2 _, ?_, h.tail⟩
    exact takes_matcherMarked_extend id path hns h.marked

end Matcher

/-! ## Linter -/

/-- What the condition of the linter starts with. -/
def linterStart : Pattern := spaced ["glob->name", "==", "\"require\""]

/-- What a round of the linter's condition starts with. -/
def linterRoundStart : Pattern :=
  [.atom (.run .blank 0), .atom (.lit "||"), .atom (.run .blank 0), .atom (.lit "glob->name"),
    .atom (.run .blank 0), .atom (.lit "=="), .atom (.run .blank 0), .atom (.lit "\"")]

/-- The condition of the linter starts with the comparison with the base name, and goes on with
rounds of further checks. -/
theorem takes_linterMarked_iff {w rest : Text} :
    linterMerge.marked.Takes w rest ↔
      ∃ u rs, w = u ++ List.flatten rs ∧ linterStart.Takes u [] ∧ rs ≠ [] ∧
        (∀ r ∈ rs, (Atom.sequence linterRound).Takes r []) ∧
          Atom.takeAll? linterRound rest = none := by
  have hmarked : linterMerge.marked = linterStart ++ [Piece.rounds linterRound] := rfl
  have hclosed : linterStart.isClosed = true := by decide
  have hround : Atom.endsInWord linterRound = true := by decide
  rw [hmarked, takes_append]
  constructor
  · rintro ⟨u, v, rfl, hu, hv⟩
    obtain ⟨v₁, v₂, rfl, hrounds, hnil⟩ := takes_cons.mp hv
    rw [takes_nil] at hnil
    subst hnil
    obtain ⟨rs, hne, rfl, hrs, hend⟩ := (takes_rounds_iff_of_endsInWord hround).mp hrounds
    exact ⟨u, rs, by rw [List.append_nil], (takes_of_isClosed hclosed hu).2 [], hne, hrs, hend⟩
  · rintro ⟨u, rs, rfl, hu, hne, hrs, hend⟩
    refine ⟨u, rs.flatten, rfl, (takes_of_isClosed hclosed hu).2 _, ?_⟩
    refine takes_cons.mpr ⟨rs.flatten, [], (List.append_nil _).symm, ?_, takes_nil.mpr rfl⟩
    exact (takes_rounds_iff_of_endsInWord hround).mpr ⟨rs, hne, rfl, hrs, hend⟩

/-- A check behind its connective is a round of the linter's condition. -/
theorem takes_linterRound {n : Text} (hn : n.IsWord) :
    (Atom.sequence linterRound).Takes (linter.condition.connective ++ linter.condition.check n)
      [] := by
  have hcut : linter.condition.connective ++ linter.condition.check n
      = " || glob->name == \"" ++ (n ++ "\"") := by
    rw [ConditionForm.check_eq]
    rfl
  have hround : Atom.sequence linterRound = linterRoundStart
      ++ [Piece.atom (.run (.noneOf ['"', '\n']) 0), Piece.atom (.lit "\"")] := rfl
  rw [hcut, hround]
  have hstart : linterRoundStart.Takes " || glob->name == \"" [] := by decide
  refine takes_append.mpr ⟨_, _, rfl, (takes_of_isClosed (by decide) hstart).2 _, ?_⟩
  refine takes_cons.mpr ⟨n, "\"", rfl, ?_, takes_singleton.mpr (Atom.takes_lit.mpr rfl)⟩
  rw [Piece.takes_atom, Atom.takes_run]
  exact ⟨fun c hc => CharClass.has_noneOf_of (by decide) (hn c hc), Nat.zero_le _, by decide⟩

/-- The first part of a patched answer, with a condition of the linter behind it. -/
theorem takes_linterLead {i rest : Text} (hi : IsIndent i) :
    linterMerge.lead.Takes (i ++ "return ") ('g' :: rest) := by
  show Pattern.Takes (indent ++ (word "return" ++ space)) _ _
  refine takes_append.mpr ⟨i, "return ", rfl, ?_, ?_⟩
  · rw [indent, takes_singleton, Atom.takes_run]
    exact ⟨hi, Nat.zero_le _, Text.stopsAt_cons.mpr (by decide)⟩
  · refine takes_append.mpr ⟨"return", " ", rfl, takes_singleton.mpr (Atom.takes_lit.mpr rfl), ?_⟩
    rw [space, takes_singleton, Atom.takes_run]
    exact ⟨List.all_eq_true.mp (by decide), by decide, Text.stopsAt_cons.mpr (by decide)⟩

/-- The condition that the linter writes for some names is one that it recognises. -/
theorem takes_linterMarked_build {names : NameSet} (hnames : names.isEmpty = false) (rest : Text) :
    linterMerge.marked.Takes (linter.condition.build names) (';' :: rest) := by
  have hbuild : linter.condition.build names = "glob->name == \"require\""
      ++ List.flatten (names.toList.map fun n =>
        linter.condition.connective ++ linter.condition.check n) := by
    rw [ConditionForm.build_eq, ConditionForm.extend, List.flatMap_def]
    rfl
  have hstart : linterStart.Takes "glob->name == \"require\"" [] := by decide
  refine takes_linterMarked_iff.mpr ⟨_, _, hbuild, hstart, ?_, ?_, ?_⟩
  · rw [ne_eq, List.map_eq_nil_iff, NameSet.toList, List.map_eq_nil_iff]
    intro hnil
    rw [NameSet.isEmpty, hnil] at hnames
    exact absurd hnames (by decide)
  · intro r hr
    obtain ⟨n, hn, rfl⟩ := List.mem_map.mp hr
    exact takes_linterRound (NameSet.isWord_of_mem hn)
  · rw [Atom.takeAll?_eq]
    exact take?_eq_none_of_firstChar? (c := '|') (d := ';') (g := []) rfl (by decide) (by simp)
      (by decide)

/-- Behind a condition of the linter there is nothing to trim, for its last round ends with a quote.
-/
theorem trimmed_of_takes_linterMarked {w rest : Text} (h : linterMerge.marked.Takes w rest) :
    w.Trimmed := by
  obtain ⟨u, rs, rfl, -, hne, hrs, -⟩ := takes_linterMarked_iff.mp h
  have hlast := hrs (rs.getLast hne) (List.getLast_mem hne)
  obtain ⟨v, hv⟩ : ∃ v, rs.getLast hne = v ++ "\"" := exists_of_getLast? rfl hlast
  rw [← List.dropLast_concat_getLast hne, List.flatten_append, List.flatten_singleton, hv,
    ← List.append_assoc, ← List.append_assoc, Text.trimmed_append_iff (by decide)]
  decide

/-- The linter recognises its own work. -/
theorem patchable_linter : linter.Patchable answerOpening linterMerge where
  merge := rfl
  pristine_mark := rfl
  merge_mark := rfl
  pristine_anchors := by decide
  merge_anchors := by decide
  apart := by decide
  plain := by decide
  rewrite o h := by
    have hi := isIndent_of_takes h.marked
    refine ⟨o.marked ++ "return ", ";\n", fun names hnames => ⟨?_, h.endsLine, ?_, ?_, ?_⟩⟩
    · exact fill_answer _ _ _ _
    · obtain ⟨cs, hbuild⟩ : ∃ cs, linter.condition.build names = 'g' :: cs := by
        rw [ConditionForm.build_eq, ConditionForm.extend]
        exact ⟨_, rfl⟩
      rw [hbuild]
      exact takes_linterLead hi
    · exact takes_linterMarked_build hnames _
    · have htail : Pattern.Takes (gap ++ word ";\n") ";\n" [] := by decide
      exact (takes_of_isClosed (by decide) htail).2 _
  extend o h ns hns := by
    have htrim := trimmed_of_takes_linterMarked h.marked
    obtain ⟨u, rs, hmarked, hu, hne, hrs, hend⟩ := takes_linterMarked_iff.mp h.marked
    have hextended : linter.condition.extend o.marked.trimEnd ns ++ o.marked.blankEnd
        = u ++ List.flatten (rs ++ ns.map fun n =>
          linter.condition.connective ++ linter.condition.check n) := by
      rw [Text.trimEnd_of_trimmed htrim, Text.blankEnd_of_trimmed htrim, List.append_nil,
        ConditionForm.extend, List.flatMap_def, List.flatten_append, hmarked, List.append_assoc]
    have hlead : linterMerge.lead.Takes o.lead (u ++ (List.flatten rs ++ o.tail ++ o.after)) := by
      have hlead := h.lead
      rw [hmarked, List.append_assoc, List.append_assoc, ← List.append_assoc rs.flatten] at hlead
      exact hlead
    refine ⟨h.endsLine, ?_, ?_, h.tail⟩
    · -- the first part is taken in front of the start of the condition, whatever follows that
      have hstart := (takes_of_isClosed (by decide) hu).2 (List.flatten rs ++ o.tail ++ o.after)
      have hlead' : ∀ r, linterMerge.lead.Takes o.lead (u ++ r) := fun r =>
        takes_left_of_isClosed (q := linterStart) (by decide) (by decide) hlead hstart
      show linterMerge.lead.Takes o.lead ((linter.condition.extend o.marked.trimEnd ns ++ _)
        ++ o.tail ++ o.after)
      rw [hextended, List.append_assoc, List.append_assoc]
      exact hlead' _
    · refine takes_linterMarked_iff.mpr ⟨u, _, hextended, hu, by simp [hne], ?_, hend⟩
      intro r hr
      rcases List.mem_append.mp hr with hr | hr
      · exact hrs r hr
      · obtain ⟨n, hn, rfl⟩ := List.mem_map.mp hr
        exact takes_linterRound (hns n hn)

/-! ## All sites -/

/-- Every site recognises its own work. -/
theorem exists_patchable {s : Site} (hs : s ∈ sites) : ∃ k m, s.Patchable k m := by
  simp only [sites, List.mem_cons, List.not_mem_nil, or_false] at hs
  rcases hs with rfl | rfl | rfl | rfl
  · exact ⟨_, _, patchable_tracer⟩
  · exact ⟨_, _, patchable_matcher _ _⟩
  · exact ⟨_, _, patchable_matcher _ _⟩
  · exact ⟨_, _, patchable_linter⟩

/-- **At every site, patching for several sets of names, one after the other, has the result of
patching once for all their names**: the same text, or the same error. -/
theorem patchAll_eq_patch {s : Site} (hs : s ∈ sites) {c : Text} (hc : ¬ s.HoldsBoth c)
    {sets : List NameSet} (hsets : sets ≠ []) :
    ∃ u, NameSet.ofEntries (sets.flatMap NameSet.toList) = .ok u ∧
      s.patchAll sets c = s.patch u c := by
  obtain ⟨k, m, hpatchable⟩ := exists_patchable hs
  exact hpatchable.patchAll_eq hc hsets

/-- A delivered guard of the tracer. -/
def deliveredGuard : Text :=
  "  if (global && global->name == \"require\" && expr->args.size >= 1)\n"
    ++ "    requireCalls.push_back(expr);\n"

/-- The set of the one name `load`. -/
def loadOnly : NameSet := ⟨[⟨"load", by decide, by decide⟩], by decide⟩

/-- The set of the names `fetch` and `load`. -/
def fetchAndLoad : NameSet :=
  ⟨[⟨"fetch", by decide, by decide⟩, ⟨"load", by decide, by decide⟩], by decide⟩

/-- A delivered guard patched for one name and then for two. -/
theorem patchAll_deliveredGuard :
    tracer ∈ sites ∧ ¬ tracer.HoldsBoth deliveredGuard ∧
      ∃ u, NameSet.ofEntries ([loadOnly, fetchAndLoad].flatMap NameSet.toList) = .ok u ∧
        tracer.patchAll [loadOnly, fetchAndLoad] deliveredGuard = tracer.patch u deliveredGuard := by
  have hsite : tracer ∈ sites := by decide
  have hboth : ¬ tracer.HoldsBoth deliveredGuard := by decide +kernel
  exact ⟨hsite, hboth, patchAll_eq_patch hsite hboth (by decide)⟩

end SitePatch.Luau
