import SitePatch.Proofs.Luau
import SitePatch.Proofs.Way

/-! # Edits made twice

An edit verifies the bytes from its first offset to its second one. Its new text may be longer or
shorter than what stood there, and then other bytes lie between the offsets afterwards, which may
pass the verification again: the edit *recurs* (`Edit.recurs`). Main statement: an edit of a text,
or of a file, changes it a second time exactly if it recurs; every edit that extends a condition
does, and no edit does that rewrites a delivered region of a known text
(`Luau.changes_again_iff`). -/

namespace SitePatch

/-! ## Cuts at one offset -/

/-- Parts of one text with as many bytes are the same. -/
theorem Text.append_inj_of_byteSize {s x u y : Text} (h : s ++ x = u ++ y)
    (hsize : s.byteSize = u.byteSize) : s = u ∧ x = y := by
  have hs := splitAtByte?_byteSize s x
  rw [h, hsize, splitAtByte?_byteSize, Option.some.injEq, Prod.mk.injEq] at hs
  exact ⟨hs.1.symm, hs.2.symm⟩

namespace Edit

variable {e : Edit} {content result : Text} {c : Cut}

/-! ## Recurring edits -/

/-- **Whether the edit recurs**: the new text has another size than the stretch that it replaces,
and between the offsets there is, afterwards, a text that passes the verification. -/
def recurs (e : Edit) (content : Text) : Bool :=
  match e.cut? content with
  | none => false
  | some c =>
    c.stretch.byteSize != e.newText.byteSize &&
      match (e.newText ++ c.after).splitAtByte? c.stretch.byteSize with
      | none => false
      | some (again, _) => e.expected.accepts again

/-- An edit recurs exactly if its new text has another size than its stretch, and what stands between
the old offsets afterwards is expected. -/
theorem recurs_iff (hcut : e.cut? content = some c) :
    e.recurs content = true ↔
      c.stretch.byteSize ≠ e.newText.byteSize ∧ ∃ again rest,
        e.newText ++ c.after = again ++ rest ∧ again.byteSize = c.stretch.byteSize ∧
          e.expected.accepts again = true := by
  unfold recurs
  simp only [hcut, Bool.and_eq_true, bne_iff_ne]
  refine and_congr_right fun _ => ?_
  constructor
  · intro h
    split at h
    · simp at h
    · rename_i again rest hsplit
      obtain ⟨htext, hsize⟩ := Text.eq_append_of_splitAtByte? hsplit
      exact ⟨again, rest, htext, hsize, h⟩
  · rintro ⟨again, rest, htext, hsize, haccepts⟩
    rw [htext, ← hsize, Text.splitAtByte?_byteSize]
    exact haccepts

/-- What the offsets cut out of the edited text. -/
theorem cut?_result_eq_some_iff {d : Cut} (hcut : e.cut? content = some c) :
    e.cut? (c.before ++ e.newText ++ c.after) = some d ↔
      d.before = c.before ∧ e.newText ++ c.after = d.stretch ++ d.after ∧
        d.stretch.byteSize = c.stretch.byteSize := by
  obtain ⟨-, hstart, hstop⟩ := eq_of_cut? hcut
  constructor
  · intro h
    obtain ⟨htext, hstart', hstop'⟩ := eq_of_cut? h
    rw [List.append_assoc, List.append_assoc] at htext
    obtain ⟨hbefore, hrest⟩ := Text.append_inj_of_byteSize htext (hstart.symm.trans hstart')
    exact ⟨hbefore.symm, hrest, by omega⟩
  · rintro ⟨hbefore, hrest, hsize⟩
    rw [List.append_assoc, hrest, ← List.append_assoc, ← hbefore]
    exact cut?_append (by rw [hstart, hbefore]) (by rw [hstop, hbefore, hsize])

/-- **An edit changes its own result** exactly if it recurs. -/
theorem exists_again_iff (h : e.applyTo content = .ok result) :
    (∃ again, e.applyTo result = .ok again ∧ again ≠ result) ↔ e.recurs content = true := by
  obtain ⟨c, hcut, -, rfl⟩ := applyTo_eq_ok_iff.mp h
  rw [exists_ne_iff, recurs_iff hcut]
  constructor
  · rintro ⟨c', hverify, hne⟩
    obtain ⟨hcut', hv⟩ := verify_eq_ok_iff.mp hverify
    obtain ⟨-, hrest, hsize⟩ := (cut?_result_eq_some_iff hcut).mp hcut'
    refine ⟨fun hsame => hne ?_, c'.stretch, c'.after, hrest, hsize, hv.resolve_left hne⟩
    -- with as many bytes, the new text itself lies between the offsets
    exact (Text.append_inj_of_byteSize hrest (by rw [hsize, hsame])).1.symm
  · rintro ⟨hne, again, rest, hrest, hsize, haccepts⟩
    have hcut' := (cut?_result_eq_some_iff (d := ⟨c.before, again, rest⟩) hcut).mpr
      ⟨rfl, hrest, hsize⟩
    refine ⟨_, verify_eq_ok_iff.mpr ⟨hcut', .inr haccepts⟩, ?_⟩
    rintro rfl
    exact hne hsize.symm

/-- **An edit changes its file again** exactly if it recurs on what the file held before. -/
theorem exists_applyIn_again_iff {t t' : FileTree} {n : Nat}
    (hread : t.readText e.file = .ok content) (h : e.applyIn t = (t', .ok (.applied n))) :
    (∃ t'' m, e.applyIn t' = (t'', .ok (.applied m)) ∧
        t''.readText e.file ≠ t'.readText e.file) ↔ e.recurs content = true := by
  obtain ⟨-, c, c', hread', happly, -, hreplace⟩ := applyIn_eq_applied_iff.mp h
  obtain rfl := Except.ok.inj (hread.symm.trans hread')
  obtain ⟨bytes, hbytes, -⟩ := FileTree.readText_eq_ok_iff.mp hread
  obtain ⟨hnew, hagain⟩ := FileTree.spec_of_read_of_replaceFile hbytes hreplace
  have hnewText : t'.readText e.file = .ok c' := FileTree.readText_of_readFrom hnew
  rw [← exists_again_iff happly]
  constructor
  · rintro ⟨t'', m, hedit, -⟩
    obtain ⟨-, d, d', hd, happly', hne, -⟩ := applyIn_eq_applied_iff.mp hedit
    obtain rfl := Except.ok.inj (hnewText.symm.trans hd)
    exact ⟨d', happly', hne⟩
  · rintro ⟨again, happly', hne⟩
    obtain ⟨t'', hreplace'⟩ := hagain (Utf8.encode again)
    refine ⟨t'', _, applyIn_eq_applied_iff.mpr
      ⟨rfl, c', again, hnewText, happly', hne, hreplace'⟩, ?_⟩
    have hthen := (FileTree.spec_of_read_of_replaceFile hnew hreplace').1
    rw [FileTree.readText_of_readFrom hthen, hnewText]
    exact fun hsame => hne (Except.ok.inj hsame)

end Edit

/-! ## The edits of plans -/

namespace Site

variable {s : Site} {names : NameSet} {file content : Text} {p : Plan} {e : Edit}

/-- **Every edit that extends a condition recurs**, for the extended condition starts with the old
one. -/
theorem recurs_of_needsMerge {added : List Text} (hplan : s.plan names file content = .ok p)
    (hstate : p.state = .needsMerge added) (hedit : p.edit = some e) :
    e.recurs content = true := by
  rcases plan_cases hplan with ⟨o, -, rfl⟩ | ⟨m, o, -, hm, rfl⟩ | rfl
  · unfold planRewrite at hstate
    split at hstate
    · simp [Plan.unchanged] at hstate
    · simp at hstate
  · have htext : o.text = content := Shape.text_of_mem_occurrences (hm ▸ List.mem_singleton_self o)
    unfold planMerge at hedit
    dsimp only at hedit
    split at hedit
    · simp [Plan.unchanged] at hedit
    · obtain rfl := Option.some.inj hedit
      have hcut := o.text_eq_trimEnd
      rw [htext] at hcut
      rw [Edit.recurs_iff (c := ⟨o.before ++ o.lead, o.marked.trimEnd, _⟩)
        (hcut ▸ Edit.cut?_append o.markedStart_eq (by rw [Edit.replacing, o.markedStart_eq]))]
      obtain ⟨d, hconnective, -⟩ := s.condition.exists_connective
      refine ⟨fun hsize => ?_, o.marked.trimEnd, _,
        by rw [Edit.replacing, List.append_assoc, List.append_assoc], rfl,
        Verification.accepts_ofText _⟩
      -- the new text is longer by the connective, and more
      have hpos := Char.utf8Size_pos ' '
      simp only [Edit.replacing, Text.byteSize_append, hconnective, Text.byteSize_cons] at hsize
      omega
  · simp [Plan.unchanged] at hstate

/-- **An edit that rewrites a delivered region does not recur**, if the region is kept as it is for
the verification: no delivered region stands at the start of a patched one. -/
theorem Patchable.recurs_of_pristine {k : Opening} {m : Shape} (hs : s.Patchable k m)
    (hplan : s.plan names file content = .ok p) (hstate : p.state = .pristine)
    (hedit : p.edit = some e) (hsize : e.stop - e.start ≤ Verification.exactLimit) :
    e.recurs content = false := by
  rcases Site.plan_cases hplan with ⟨o, hp, rfl⟩ | ⟨-, o, -, -, rfl⟩ | rfl
  · obtain ⟨hfits, rfl, -⟩ := (Opening.occurrences_eq_singleton_iff hs.pristine_anchors).mp hp
    unfold planRewrite at hedit
    split at hedit
    · simp [Plan.unchanged] at hedit
    · rename_i hnames
      obtain rfl := Option.some.inj hedit
      obtain ⟨lead, tail, hrewrite⟩ := hs.rewrite o hfits
      obtain ⟨hpatched, hfits'⟩ := hrewrite names (by simpa using hnames)
      rw [Shape.indentOf, hs.pristine_mark, hpatched] at hsize ⊢
      have hexact : Verification.ofText o.region = .exact o.region := by
        rw [Verification.ofText, if_neg]
        simp only [Edit.replacing] at hsize
        omega
      have hcut : (Edit.replacing file o.start o.region
          (lead ++ s.condition.build names ++ tail)).cut? o.text
            = some ⟨o.before, o.region, o.after⟩ := Edit.cut?_append rfl rfl
      rw [Bool.eq_false_iff, ne_eq, Edit.recurs_iff hcut]
      rintro ⟨-, again, rest, hrest, -, haccepts⟩
      simp only [Edit.replacing, hexact, Verification.accepts, beq_iff_eq] at hrest haccepts
      subst haccepts
      -- the delivered and the patched region would stand in one place
      refine Shape.before_ne_of_apart hs.apart (Opening.fits_withAfter hs.pristine_anchors hfits rest)
        hfits' ?_ rfl
      rw [Occurrence.text_eq, Occurrence.text_eq]
      exact congrArg (o.before ++ ·) hrest.symm
  · unfold planMerge at hstate
    dsimp only at hstate
    split at hstate
    · simp [Plan.unchanged] at hstate
    · simp at hstate
  · simp [Plan.unchanged] at hstate

end Site

/-! ## Luau -/

namespace Luau

/-- **An edit changes a text, or a file, a second time** exactly if it recurs. Every edit that
extends a condition recurs; an edit that rewrites a delivered region does not, if the region is
short enough to be kept as it is for the verification. -/
theorem changes_again_iff {e : Edit} {content result : Text} (h : e.applyTo content = .ok result) :
    ((∃ again, e.applyTo result = .ok again ∧ again ≠ result) ↔ e.recurs content = true) ∧
      (∀ t t' n, t.readText e.file = .ok content → e.applyIn t = (t', .ok (.applied n)) →
        ((∃ t'' m, e.applyIn t' = (t'', .ok (.applied m)) ∧
          t''.readText e.file ≠ t'.readText e.file) ↔ e.recurs content = true)) ∧
      ∀ s names file p, s.plan names file content = .ok p → p.edit = some e →
        (∀ added, p.state = .needsMerge added → e.recurs content = true) ∧
          (s ∈ sites → p.state = .pristine → e.stop - e.start ≤ Verification.exactLimit →
            e.recurs content = false) := by
  refine ⟨Edit.exists_again_iff h, fun t t' n hread hedit =>
    Edit.exists_applyIn_again_iff hread hedit, fun s names file p hplan hedit => ⟨?_, ?_⟩⟩
  · intro added hstate
    exact Site.recurs_of_needsMerge hplan hstate hedit
  · intro hs hstate hsize
    obtain ⟨k, m, hpatchable⟩ := exists_patchable hs
    exact hpatchable.recurs_of_pristine hplan hstate hedit hsize

/-- The condition of a patched answer of the linter. -/
def patchedCondition : Text := "glob->name == \"require\" || glob->name == \"shared\""

/-- A patched answer of the linter. -/
def patchedAnswer : Text := "    return " ++ patchedCondition ++ ";\n"

/-- The edit that extends the condition of the patched answer by the check of `load`. -/
def extendAnswer : Edit :=
  .replacing "Linter.cpp" 11 patchedCondition (patchedCondition ++ " || glob->name == \"load\"")

/-- The patched answer with the check of `load` in it so many times. -/
def answerWith (times : Nat) : Text :=
  "    return " ++ patchedCondition ++ (List.replicate times " || glob->name == \"load\"".toList).flatten
    ++ ";\n"

/-- The edit that is planned for the patched answer changes it a second time. -/
theorem changes_again_patchedAnswer :
    linter.plan loadOnly "Linter.cpp" patchedAnswer
        = .ok ⟨.needsMerge ["glob->name == \"load\""], some extendAnswer⟩ ∧
      extendAnswer.applyTo patchedAnswer = .ok (answerWith 1) ∧
        ∃ again, extendAnswer.applyTo (answerWith 1) = .ok again ∧ again ≠ answerWith 1 := by
  have hplan : linter.plan loadOnly "Linter.cpp" patchedAnswer
      = .ok ⟨.needsMerge ["glob->name == \"load\""], some extendAnswer⟩ := rfl
  have hfirst : extendAnswer.applyTo patchedAnswer = .ok (answerWith 1) := rfl
  obtain ⟨hagain, -, hplanned⟩ := changes_again_iff hfirst
  exact ⟨hplan, hfirst, hagain.mpr ((hplanned _ _ _ _ hplan rfl).1 _ rfl)⟩

end Luau

end SitePatch
