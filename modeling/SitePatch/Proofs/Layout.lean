import Mathlib.Data.List.Forall2
import SitePatch.Proofs.Luau
import SitePatch.Proofs.Patch

/-! # Layouts of a delivered region

A delivered region is a `Phrase`: words, with a `Gap` in front of every word but the first. A layout
of the phrase fills the gaps with white space of any kind, which may reach over several lines, and
indents the whole (`Phrase.Fragment`). The shape of a phrase stands exactly at its layouts
(`Phrase.fits_iff`), so among texts in which it does not stand, each layout is found, and nothing
else (`Phrase.occurrences_woven_cons`). Main statement: a site of Luau's Analysis library rewrites
its delivered region in every layout, and refuses several (`Luau.patch_woven`). -/

namespace SitePatch

/-! ## Gaps -/

/-- **What may stand between two words.** -/
inductive Gap
  /-- White space, or nothing. -/
  | any
  /-- White space. -/
  | some
  /-- White space with a line break in it. -/
  | line
deriving DecidableEq, Repr

namespace Gap

variable {gap : Gap} {g rest : Text}

/-- A word with the gap in front of it. -/
def before (gap : Gap) (w : Text) : Gap × Text := (gap, w)

/-- What a gap asks of the white space in it. -/
def Asks : Gap → Text → Prop
  | any, _ => True
  | some, g => g ≠ []
  | line, g => '\n' ∈ g

/-- **The gap can be filled with the text.** -/
def Admits (gap : Gap) (g : Text) : Prop := (∀ c ∈ g, Text.isBlank c = true) ∧ gap.Asks g

instance (gap : Gap) (g : Text) : Decidable (gap.Asks g) :=
  match gap with
  | any => isTrue trivial
  | some => inferInstanceAs (Decidable (g ≠ []))
  | line => inferInstanceAs (Decidable ('\n' ∈ g))

instance (gap : Gap) (g : Text) : Decidable (gap.Admits g) :=
  decidable_of_iff (g.all Text.isBlank = true ∧ gap.Asks g) (and_congr_left' List.all_eq_true)

/-- The gap as an atom of a pattern. -/
def atom : Gap → Atom
  | any => .run .blank 0
  | some => .run .blank 1
  | line => .lineGap

/-- The atom of a gap takes what the gap admits, up to the next word. -/
theorem takes_atom_iff :
    gap.atom.Takes g rest ↔ gap.Admits g ∧ rest.StopsAt Text.isBlank := by
  rw [Admits, and_assoc]
  cases gap with
  | any =>
    rw [atom, Atom.takes_run]
    exact and_congr_right fun _ => and_congr_left fun _ => iff_of_true (Nat.zero_le _) trivial
  | some =>
    rw [atom, Atom.takes_run]
    exact and_congr_right fun _ => and_congr_left fun _ => List.length_pos_iff
  | line =>
    rw [atom, Atom.takes_lineGap]
    rfl

end Gap

/-! ## Phrases -/

/-- Whether the word starts with something else than white space. -/
def Text.isSolid (w : Text) : Bool := w.head?.any fun c => !isBlank c

/-- A solid word stops a run of white space. -/
theorem Text.stopsAt_of_isSolid {w : Text} (h : w.isSolid = true) (t : Text) :
    StopsAt isBlank (w ++ t) := by
  cases w with
  | nil => simp [isSolid] at h
  | cons c cs => simpa [isSolid] using h

/-- **A phrase**: a word, and further words with a gap in front of each. -/
structure Phrase where
  first : Text
  rest : List (Gap × Text)
  solid : ∀ w ∈ first :: rest.map Prod.snd, w.isSolid = true

namespace Phrase

/-- The words, each behind the text in its gap. -/
def fill : List (Gap × Text) → List Text → Text
  | (_, w) :: rest, g :: gaps => g ++ (w ++ fill rest gaps)
  | _, _ => []

/-- The gaps can be filled with the texts, one for each. -/
def Admits (rest : List (Gap × Text)) (gaps : List Text) : Prop :=
  List.Forall₂ (fun part g => part.1.Admits g) rest gaps

instance (rest : List (Gap × Text)) (gaps : List Text) : Decidable (Admits rest gaps) :=
  inferInstanceAs (Decidable (List.Forall₂ _ rest gaps))

/-- The words with their gaps as a pattern. -/
def patternOf (rest : List (Gap × Text)) : Pattern :=
  rest.flatMap fun part => [.atom part.1.atom, .atom (.lit part.2)]

/-- **The pattern takes the words in every layout**, and nothing else. -/
theorem takes_patternOf_iff {rest : List (Gap × Text)}
    (hsolid : ∀ w ∈ rest.map Prod.snd, Text.isSolid w = true) {w after : Text} :
    (patternOf rest).Takes w after ↔ ∃ gaps, Admits rest gaps ∧ w = fill rest gaps := by
  induction rest generalizing w with
  | nil =>
    rw [patternOf, List.flatMap_nil, Pattern.takes_nil]
    constructor
    · rintro rfl
      exact ⟨[], .nil, rfl⟩
    · rintro ⟨gaps, hgaps, rfl⟩
      cases hgaps
      rfl
  | cons part rest ih =>
    obtain ⟨gap, word⟩ := part
    obtain ⟨hword, hrest⟩ := List.forall_mem_cons.mp hsolid
    have hcons : patternOf ((gap, word) :: rest)
        = .atom gap.atom :: .atom (.lit word) :: patternOf rest := rfl
    rw [hcons]
    constructor
    · intro h
      obtain ⟨g, w, rfl, hgap, h⟩ := Pattern.takes_cons.mp h
      obtain ⟨u, v, rfl, hlit, h⟩ := Pattern.takes_cons.mp h
      rw [Piece.takes_atom, Atom.takes_lit] at hlit
      obtain ⟨gaps, hgaps, rfl⟩ := (ih hrest).mp h
      exact ⟨g :: gaps, .cons (Gap.takes_atom_iff.mp hgap).1 hgaps, by rw [hlit, fill]⟩
    · rintro ⟨gaps, hgaps, rfl⟩
      obtain _ | ⟨hgap, hgaps⟩ := hgaps
      rename_i g gaps
      refine Pattern.takes_cons.mpr ⟨g, word ++ fill rest gaps, rfl, ?_, ?_⟩
      · rw [Piece.takes_atom, Gap.takes_atom_iff, List.append_assoc]
        exact ⟨hgap, Text.stopsAt_of_isSolid hword _⟩
      · exact Pattern.takes_cons.mpr ⟨word, fill rest gaps, rfl, Atom.takes_lit.mpr rfl,
          (ih hrest).mpr ⟨gaps, hgaps, rfl⟩⟩

variable {p : Phrase}

/-- The shape of a phrase at the start of a line. -/
def shape (p : Phrase) : Shape where
  lead := []
  mark := .indent
  marked := Pattern.indent
  tail := Pattern.word p.first ++ patternOf p.rest

/-- **A layout of a phrase**: spaces and tabs in front of it, and a text for every gap. -/
structure Fragment (p : Phrase) where
  indent : Text
  gaps : List Text
  isIndent : ∀ c ∈ indent, c = ' ' ∨ c = '\t'
  admitted : Admits p.rest gaps

namespace Fragment

/-- What stands behind the indentation. -/
def body (f : p.Fragment) : Text := p.first ++ fill p.rest f.gaps

/-- **The text of the layout.** -/
def text (f : p.Fragment) : Text := f.indent ++ f.body

/-- The layout as an occurrence between two texts. -/
def between (f : p.Fragment) (before after : Text) : Occurrence := ⟨before, [], f.indent, f.body, after⟩

/-- The text of a fragment between two texts is the three of them together. -/
theorem text_between (f : p.Fragment) (before after : Text) :
    (f.between before after).text = before ++ (f.text ++ after) := by
  simp [between, Occurrence.text, Occurrence.region, text]

end Fragment

/-- **The shape of a phrase stands exactly at its layouts** that start a line. -/
theorem fits_iff {o : Occurrence} :
    p.shape.Fits o ↔ o.before.EndsLine ∧ ∃ f : p.Fragment, o = f.between o.before o.after := by
  have hsolid : ∀ w ∈ p.rest.map Prod.snd, Text.isSolid w = true := fun w hw =>
    p.solid w (List.mem_cons_of_mem _ hw)
  constructor
  · intro h
    obtain ⟨word, w, htail, hword, hw⟩ := Pattern.takes_append.mp h.tail
    rw [Pattern.word, Pattern.takes_singleton, Atom.takes_lit] at hword
    obtain ⟨gaps, hgaps, rfl⟩ := (takes_patternOf_iff hsolid).mp hw
    have hindent := Luau.isIndent_of_takes h.marked
    have hlead : o.lead = [] := Pattern.takes_nil.mp h.lead
    refine ⟨h.endsLine,
      ⟨o.marked, gaps, fun c hc => Luau.has_indentClass_iff.mp (hindent c hc), hgaps⟩, ?_⟩
    show o = ⟨o.before, [], o.marked, p.first ++ fill p.rest gaps, o.after⟩
    rw [← hword, ← htail, ← hlead]
  · rintro ⟨hline, f, ho⟩
    rw [ho]
    refine ⟨hline, Pattern.takes_nil.mpr rfl, ?_, ?_⟩
    · -- the first word ends the indentation
      have hstop : Text.StopsAt Text.isBlank (f.body ++ o.after) := by
        rw [Fragment.body, List.append_assoc]
        exact Text.stopsAt_of_isSolid (p.solid _ List.mem_cons_self) _
      refine Pattern.takes_singleton.mpr (Atom.takes_run.mpr
        ⟨fun c hc => Luau.has_indentClass_iff.mpr (f.isIndent c hc), Nat.zero_le _, fun c hc => ?_⟩)
      rw [Bool.eq_false_iff]
      intro hc'
      rcases Luau.has_indentClass_iff.mp hc' with rfl | rfl
      all_goals exact absurd (hstop _ hc) (by decide)
    · exact Pattern.takes_append.mpr ⟨p.first, _, rfl,
        Pattern.takes_singleton.mpr (Atom.takes_lit.mpr rfl),
        (takes_patternOf_iff hsolid).mpr ⟨f.gaps, f.admitted, rfl⟩⟩

/-! ## Several layouts -/

/-- **Layouts among other texts**: each behind its text, and a last text. -/
def woven (parts : List (Text × p.Fragment)) (last : Text) : Text :=
  parts.foldr (fun part rest => part.1 ++ (part.2.text ++ rest)) last

section Woven

variable {k : Opening} {before last : Text} {f : p.Fragment} {parts : List (Text × p.Fragment)}
  (hk : k.anchors p.shape = true)

include hk

/-- Behind a text without layouts, the search finds the layout that stands there, and goes on behind
it. -/
theorem occurrences_woven_cons (hline : before.EndsLine) (hbefore : p.shape.occurrences before = []) :
    p.shape.occurrences (woven ((before, f) :: parts) last) = f.between before (woven parts last)
      :: (p.shape.occurrences (woven parts last)).map (Occurrence.within (before ++ f.text) []) := by
  have hfits : p.shape.Fits (f.between before (woven parts last)) := fits_iff.mpr ⟨hline, f, rfl⟩
  have htext : woven ((before, f) :: parts) last = (f.between before (woven parts last)).text :=
    (f.text_between before _).symm
  rw [htext, Opening.occurrences_around hk (Opening.clear_of_anchors hk hk hfits),
    Shape.startingAt?_of_fits hfits]
  have hnone : p.shape.occurrences (f.between before (woven parts last)).before = [] := hbefore
  rw [hnone]
  simp [Fragment.between, Fragment.text, Occurrence.region]

/-- One layout among texts without others is the only region. -/
theorem occurrences_between (hline : before.EndsLine) (hbefore : p.shape.occurrences before = [])
    (hlast : p.shape.occurrences last = []) :
    p.shape.occurrences (f.between before last).text = [f.between before last] := by
  have hfound : p.shape.occurrences (woven [(before, f)] last) = f.between before last
      :: (p.shape.occurrences last).map (Occurrence.within (before ++ f.text) []) :=
    occurrences_woven_cons hk hline hbefore
  rw [hlast, List.map_nil] at hfound
  rw [f.text_between]
  exact hfound

/-- **Layouts are counted exactly.** -/
theorem length_occurrences_woven
    (hparts : ∀ part ∈ parts, part.1.EndsLine ∧ p.shape.occurrences part.1 = [])
    (hlast : p.shape.occurrences last = []) :
    (p.shape.occurrences (woven parts last)).length = parts.length := by
  induction parts with
  | nil =>
    show (p.shape.occurrences last).length = 0
    rw [hlast, List.length_nil]
  | cons part parts ih =>
    obtain ⟨⟨hline, hbefore⟩, hrest⟩ := List.forall_mem_cons.mp hparts
    rw [occurrences_woven_cons hk hline hbefore, List.length_cons, List.length_map, ih hrest,
      List.length_cons]

end Woven

end Phrase

/-! ## Luau -/

namespace Luau

open Gap Phrase

/-- Words with a gap in front of each that may be empty. -/
def loose (words : List Text) : List (Gap × Text) := words.map any.before

/-- The tracer's guard as it is delivered. -/
def tracerPhrase : Phrase where
  first := "if"
  rest :=
    loose ["(", "global", "&&", "global->name", "==", "\"require\"", "&&", "expr->args.size", ">=",
      "1", ")"] ++ [line.before "requireCalls.push_back(expr);\n"]
  solid := by decide

/-- The matcher's guard as it is delivered. -/
def matcherPhrase : Phrase where
  first := "if"
  rest :=
    loose ["(", "!funcAsGlobal", "||", "funcAsGlobal->name", "!=", "require", ")"]
      ++ [line.before "return", some.before "std::nullopt;\n"]
  solid := by decide

/-- The linter's answer as it is delivered. -/
def linterPhrase : Phrase where
  first := "return"
  rest := some.before "glob->name" :: loose ["==", "\"require\"", ";\n"]
  solid := by decide

/-- **The sites with what is delivered there.** -/
def delivered : List (Site × Phrase) :=
  [(tracer, tracerPhrase), (constraintGenerator, matcherPhrase), (typeInfer, matcherPhrase),
    (linter, linterPhrase)]

/-- The shapes that the sites look for are those of the phrases. -/
theorem spec_of_delivered : ∀ site ∈ delivered, site.1 ∈ sites ∧ site.1.pristine = site.2.shape := by
  simp only [delivered, List.forall_mem_cons]
  exact ⟨⟨by decide, rfl⟩, ⟨by decide, rfl⟩, ⟨by decide, rfl⟩, ⟨by decide, rfl⟩, by simp⟩

/-- **Delivered regions are recognised in every layout, and counted exactly.** Among texts in which
no delivered region stands, and which end with a line break if one follows, one layout is replaced by
the patched region with its indentation, whatever white space stands in its gaps, and nothing else
changes; several layouts are refused with their number. -/
theorem patch_woven {s : Site} {p : Phrase} (hsite : (s, p) ∈ delivered)
    {parts : List (Text × p.Fragment)} {last : Text}
    (hparts : ∀ part ∈ parts, part.1.EndsLine ∧ s.pristine.occurrences part.1 = [])
    (hlast : s.pristine.occurrences last = []) (names : NameSet) :
    (∀ before f, parts = [(before, f)] → names.isEmpty = false →
        s.patch names (before ++ f.text ++ last)
          = .ok (before ++ s.patched f.indent names ++ last)) ∧
      (2 ≤ parts.length → ∀ file, s.plan names file (woven parts last)
        = .error (.ambiguousMatch s.id file parts.length)) := by
  obtain ⟨hmem, hshape⟩ := spec_of_delivered _ hsite
  dsimp only at hmem hshape
  obtain ⟨k, m, hs⟩ := exists_patchable hmem
  have hk := hs.pristine_anchors
  rw [hshape] at hk hparts hlast
  constructor
  · rintro before f rfl hnames
    obtain ⟨⟨hline, hbefore⟩, -⟩ := List.forall_mem_cons.mp hparts
    have hfound := occurrences_between (f := f) hk hline hbefore hlast
    have hindent : s.pristine.indentOf (f.between before last) = f.indent := by
      rw [hshape]
      rfl
    rw [← hshape] at hfound
    rw [List.append_assoc, ← f.text_between, Site.patch, Site.plan_of_pristine hfound]
    dsimp only
    rw [Site.applyTo_planRewrite, if_neg (by simp [hnames]), hindent]
    rfl
  · intro hmany file
    have hcount := length_occurrences_woven hk hparts hlast
    rw [← hshape] at hcount
    rw [Site.plan_of_pristines (hcount.symm ▸ hmany), hcount]

/-- The linter's answer over several lines, with a line separator and a space that does not break. -/
def airyAnswer : linterPhrase.Fragment where
  indent := "\t "
  gaps := ["\u2028 ", "\n\n", "", "\u00a0\r\n"]
  isIndent := by simp
  admitted := by decide

/-- One airy answer is patched, and two are refused. -/
theorem patch_woven_airyAnswer :
    linter.patch loadOnly ("// The answer.\n" ++ airyAnswer.text ++ "// The end.")
        = .ok ("// The answer.\n" ++ linter.patched "\t " loadOnly ++ "// The end.") ∧
      linter.plan loadOnly "Linter.cpp"
          (woven [("// The answer.\n", airyAnswer), ([], airyAnswer)] "// The end.")
        = .error (.ambiguousMatch "linter" "Linter.cpp" 2) := by
  have hsite : (linter, linterPhrase) ∈ delivered := by simp [delivered]
  have hnote : Text.EndsLine "// The answer.\n" ∧
      linter.pristine.occurrences "// The answer.\n" = [] :=
    ⟨Text.endsLine_append_newline "// The answer.", by decide +kernel⟩
  have hnone : Text.EndsLine [] ∧ linter.pristine.occurrences [] = [] := ⟨by simp, by decide +kernel⟩
  have hlast : linter.pristine.occurrences "// The end." = [] := by decide +kernel
  constructor
  · have hparts : ∀ part ∈ [(("// The answer.\n" : Text), airyAnswer)],
        Text.EndsLine part.1 ∧ linter.pristine.occurrences part.1 = [] := by simpa using hnote
    exact (patch_woven hsite hparts hlast loadOnly).1 _ airyAnswer rfl (by decide)
  · have hparts : ∀ part ∈ [(("// The answer.\n" : Text), airyAnswer), ([], airyAnswer)],
        Text.EndsLine part.1 ∧ linter.pristine.occurrences part.1 = [] :=
      List.forall_mem_cons.mpr ⟨hnote, List.forall_mem_cons.mpr ⟨hnone, by simp⟩⟩
    exact (patch_woven hsite hparts hlast loadOnly).2 (by decide) "Linter.cpp"

end Luau

end SitePatch
