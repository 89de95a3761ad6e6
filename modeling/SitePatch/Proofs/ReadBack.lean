import SitePatch.Proofs.Layout

/-! # What is written is read back

A patched region that stands between texts without regions is found again, as the only one and from
its first character to its last one, and its marked part is the condition that was written. That a
patched region fits the shape is known of the step that rewrites a delivered region
(`Site.Patchable.rewrite`), and a delivered region with any indentation can be laid out
(`Phrase.broken`); that nothing else is found is a matter of the lines around it
(`Opening.occurrences_eq_startingAt?`). Main statement: a site reads back what it writes, in any
context (`Luau.patchedRegions_patched`). -/

namespace SitePatch

/-! ## A layout with any indentation -/

/-- A line break fills every gap. -/
theorem Gap.admits_lineBreak (gap : Gap) : gap.Admits ['\n'] := by
  cases gap <;> decide

/-- **The layout of a phrase with a line break in every gap.** -/
def Phrase.broken (p : Phrase) (indent : Text) (hi : ∀ c ∈ indent, c = ' ' ∨ c = '\t') :
    p.Fragment where
  indent := indent
  gaps := p.rest.map fun _ => ['\n']
  isIndent := hi
  admitted := by
    refine List.forall₂_map_right_iff.mpr (List.forall₂_same.mpr fun part _ => ?_)
    exact part.1.admits_lineBreak

/-! ## A rewritten region -/

namespace Site.Patchable

variable {s : Site} {k : Opening} {m : Shape} {names : NameSet} {o : Occurrence}

/-- **A delivered region that is rewritten between texts without regions** leaves one patched
region, and no delivered one. -/
theorem occurrences_rewritten (hs : s.Patchable k m) (hfits : s.pristine.Fits o)
    (hnames : names.isEmpty = false)
    (hbefore : s.pristine.occurrences o.before = [] ∧ m.occurrences o.before = [])
    (hafter : s.pristine.occurrences o.after = [] ∧ m.occurrences o.after = []) :
    ∃ lead tail, s.patched o.marked names = lead ++ s.condition.build names ++ tail ∧
      let o' : Occurrence := ⟨o.before, lead, s.condition.build names, tail, o.after⟩
      s.pristine.occurrences o'.text = [] ∧ m.occurrences o'.text = [o'] := by
  obtain ⟨lead, tail, hrewrite⟩ := hs.rewrite o hfits
  obtain ⟨hpatched, hfits'⟩ := hrewrite names hnames
  refine ⟨lead, tail, hpatched, ?_⟩
  intro o'
  constructor
  · -- where the patched region stands, no delivered one can start
    have hclear : s.pristine.Clear o' :=
      Opening.clear_of_anchors hs.pristine_anchors hs.merge_anchors hfits'
    rw [Opening.occurrences_eq_startingAt? hs.pristine_anchors hclear hbefore.1 hafter.1,
      Shape.startingAt?_of_apart hs.apart hfits']
    rfl
  · have hclear : m.Clear o' := Opening.clear_of_anchors hs.merge_anchors hs.merge_anchors hfits'
    rw [Opening.occurrences_eq_startingAt? hs.merge_anchors hclear hbefore.2 hafter.2,
      Shape.startingAt?_of_fits hfits']
    rfl

end Site.Patchable

/-! ## Luau -/

namespace Luau

variable {s : Site} {indent pre post : Text} {names : NameSet}

/-- Every site looks for a phrase. -/
theorem exists_shape_eq (hs : s ∈ sites) : ∃ p : Phrase, s.pristine = p.shape := by
  have hmem : s ∈ delivered.map Prod.fst := hs
  obtain ⟨⟨_, p⟩, hsite, rfl⟩ := List.mem_map.mp hmem
  exact ⟨p, (spec_of_delivered _ hsite).2⟩

/-- Every site has a delivered region with the indentation, at the end of any lines. -/
theorem exists_fits (hs : s ∈ sites) (hi : IsIndent indent) (hline : pre.EndsLine) (post : Text) :
    ∃ o, s.pristine.Fits o ∧ o.before = pre ∧ o.marked = indent ∧ o.after = post := by
  obtain ⟨p, hshape⟩ := exists_shape_eq hs
  let f := p.broken indent fun c hc => has_indentClass_iff.mp (hi c hc)
  refine ⟨f.between pre post, ?_, rfl, rfl, rfl⟩
  rw [hshape]
  exact Phrase.fits_iff.mpr ⟨hline, f, rfl⟩

/-- **A site reads back what it writes.** Put between lines and a text in which it recognises
nothing, a patched region with any indentation, for any set of names that is not empty, is the one
region that the site recognises as patched, from its start to its end, and the condition that is
read from it is the one that was written; no delivered region is recognised. -/
theorem patchedRegions_patched (hs : s ∈ sites) (hi : IsIndent indent)
    (hnames : names.isEmpty = false) (hline : pre.EndsLine)
    (hpre : s.pristine.occurrences pre = [] ∧ s.patchedRegions pre = [])
    (hpost : s.pristine.occurrences post = [] ∧ s.patchedRegions post = []) :
    s.pristine.occurrences (pre ++ s.patched indent names ++ post) = [] ∧
      ∃ lead tail, s.patched indent names = lead ++ s.condition.build names ++ tail ∧
        s.patchedRegions (pre ++ s.patched indent names ++ post)
          = [⟨pre, lead, s.condition.build names, tail, post⟩] := by
  obtain ⟨k, m, hpatchable⟩ := exists_patchable hs
  obtain ⟨o, hfits, rfl, rfl, rfl⟩ := exists_fits hs hi hline post
  rw [hpatchable.patchedRegions_eq] at hpre hpost ⊢
  obtain ⟨lead, tail, hpatched, hpristine, hmerge⟩ :=
    hpatchable.occurrences_rewritten hfits hnames hpre hpost
  rw [hpatched]
  exact ⟨hpristine, lead, tail, rfl, hmerge⟩

/-- Lines that start like a patched answer, with a check in them. -/
def openAnswer : Text := "  return glob->name == \"require\" || glob->name == \"load\"\n"

/-- Between two such beginnings, the linter's answer for two names is read back. -/
theorem patchedRegions_openAnswer :
    linter ∈ sites ∧ IsIndent "\t" ∧ fetchAndLoad.isEmpty = false ∧ openAnswer.EndsLine ∧
      (linter.pristine.occurrences openAnswer = [] ∧ linter.patchedRegions openAnswer = []) ∧
      ∃ lead tail, linter.patchedRegions
          (openAnswer ++ linter.patched "\t" fetchAndLoad ++ openAnswer)
        = [⟨openAnswer, lead,
            "glob->name == \"require\" || glob->name == \"fetch\" || glob->name == \"load\"",
            tail, openAnswer⟩] := by
  have hs : linter ∈ sites := by decide
  have hi : IsIndent "\t" := List.all_eq_true.mp (by decide)
  have hnames : fetchAndLoad.isEmpty = false := by decide
  have hline : openAnswer.EndsLine :=
    Text.endsLine_append_newline "  return glob->name == \"require\" || glob->name == \"load\""
  have hnone : linter.pristine.occurrences openAnswer = [] ∧
      linter.patchedRegions openAnswer = [] := by
    decide +kernel
  have hbuild : linter.condition.build fetchAndLoad
      = "glob->name == \"require\" || glob->name == \"fetch\" || glob->name == \"load\"" := by
    decide
  obtain ⟨-, lead, tail, -, hread⟩ := patchedRegions_patched hs hi hnames hline hnone hnone
  rw [hbuild] at hread
  exact ⟨hs, hi, hnames, hline, hnone, lead, tail, hread⟩

end Luau

end SitePatch
