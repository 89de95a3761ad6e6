import SitePatch.Proofs.Luau
import SitePatch.Proofs.Settled

/-! # Guards and answers in one text

The files of two sites can be one file, so a text may hold guards and answers at once. A guard and
an answer do not overlap, with one exception: the condition of a patched guard is anything without
parentheses, so an answer can stand inside it (`clear_or_holds`). There an answer is exchanged for
another one and the guard stays a guard. Main statement: what is settled at a site stays settled
when the sites behind it are patched (`pairwise_spares`). -/

namespace SitePatch.Luau

open Pattern

/-! ## Cutting at a character -/

/-- A text that is cut behind a character is cut behind one of its first part or its second. -/
theorem exists_of_append_eq {w₁ w₂ x y : Text} {c : Char} (h : w₁ ++ w₂ = x ++ c :: y) :
    (∃ y₁, w₁ = x ++ c :: y₁ ∧ y = y₁ ++ w₂) ∨ ∃ x₂, x = w₁ ++ x₂ ∧ w₂ = x₂ ++ c :: y := by
  rcases List.append_eq_append_iff.mp h with ⟨a, ha, hw₂⟩ | ⟨a, hw₁, ha⟩
  · exact .inr ⟨a, ha, hw₂⟩
  · cases a with
    | nil => exact .inr ⟨[], by simpa using hw₁.symm, by simpa using ha.symm⟩
    | cons d a =>
      rw [List.cons_append, List.cons.injEq] at ha
      exact .inl ⟨a, by rw [hw₁, ha.1], ha.2⟩

/-- A character that no word of a pattern has does not stand in what the pattern takes. -/
theorem not_mem_of_solid? {p : Pattern} {t w rest : Text} {c : Char} (hp : p.solid? = some t)
    (hc : Text.isBlank c = false) (hmem : c ∉ t) (h : p.Takes w rest) : c ∉ w := by
  intro hw
  have hfilter : c ∈ w.filter fun d => !Text.isBlank d := List.mem_filter.mpr ⟨hw, by simp [hc]⟩
  rw [filter_of_solid? hp h] at hfilter
  exact hmem hfilter

/-- A text is free of parentheses if it has neither of them. -/
theorem parenFree_iff {t : Text} : ParenFree t ↔ '(' ∉ t ∧ ')' ∉ t := by
  simp only [ParenFree, CharClass.has, List.contains_eq_mem, List.mem_cons, List.not_mem_nil,
    or_false, Bool.not_eq_true', decide_eq_false_iff_not, not_or]
  constructor
  · intro h
    exact ⟨fun hmem => (h _ hmem).1 rfl, fun hmem => (h _ hmem).2 rfl⟩
  · rintro ⟨hopen, hclose⟩ c hc
    exact ⟨fun heq => hopen (heq ▸ hc), fun heq => hclose (heq ▸ hc)⟩

/-- Two texts are free of parentheses if both are. -/
theorem parenFree_append_iff {t u : Text} : ParenFree (t ++ u) ↔ ParenFree t ∧ ParenFree u := by
  simp only [parenFree_iff, List.mem_append, not_or]
  constructor
  · rintro ⟨⟨h₁, h₂⟩, h₃, h₄⟩
    exact ⟨⟨h₁, h₃⟩, h₂, h₄⟩
  · rintro ⟨⟨h₁, h₃⟩, h₂, h₄⟩
    exact ⟨⟨h₁, h₂⟩, h₃, h₄⟩

/-! ## Parentheses in answers -/

/-- A parenthesis in the rounds of an answer stands in quotes, which end on its line. -/
theorem exists_quote_of_rounds {rs : List Text} {x y : Text}
    (hrs : ∀ r ∈ rs, (Atom.sequence linterRound).Takes r []) (h : rs.flatten = x ++ ')' :: y) :
    ∃ u v, y = u ++ '"' :: v ∧ '\n' ∉ u := by
  induction rs generalizing x with
  | nil => simp at h
  | cons r rs ih =>
    rw [List.flatten_cons] at h
    rcases exists_of_append_eq h with ⟨y₁, hr, rfl⟩ | ⟨x₂, -, hrest⟩
    · have hround : Atom.sequence linterRound = linterRoundStart
          ++ [Piece.atom (.run (.noneOf ['"', '\n']) 0), Piece.atom (.lit "\"")] := rfl
      have htakes := hrs r (by simp)
      rw [hround] at htakes
      obtain ⟨start, name, rfl, hstart, hname⟩ := takes_append.mp htakes
      obtain ⟨n, quote, rfl, hn, hquote⟩ := takes_cons.mp hname
      rw [Piece.takes_atom, Atom.takes_run] at hn
      obtain rfl := Atom.takes_lit.mp (takes_singleton.mp hquote)
      -- the parenthesis stands in the name
      have hnot : ')' ∉ start := not_mem_of_solid? rfl rfl (by decide) hstart
      rcases exists_of_append_eq hr with ⟨y₂, hstart', -⟩ | ⟨x₂, -, hname'⟩
      · exact absurd (by rw [hstart']; simp) hnot
      rcases exists_of_append_eq hname' with ⟨n₂, hn', rfl⟩ | ⟨x₃, -, hquote'⟩
      · refine ⟨n₂, rs.flatten, by simp, fun hmem => ?_⟩
        have hclass := hn.1 '\n' (by rw [hn']; simp [hmem])
        exact absurd hclass (by decide)
      · have hmem : ')' ∈ ("\"" : Text) := by
          rw [hquote']
          simp
        exact absurd hmem (by decide)
    · exact ih (fun r' hr' => hrs r' (List.mem_cons_of_mem _ hr')) hrest

/-- An answer, as it is delivered or patched. -/
def IsAnswer (l : Occurrence) : Prop := linterPristine.Fits l ∨ linterMerge.Fits l

/-- **A parenthesis in an answer stands in quotes**, which end on its line. -/
theorem exists_quote {l : Occurrence} {x y : Text} (hl : IsAnswer l)
    (h : l.region = x ++ ')' :: y) : ∃ u v, y = u ++ '"' :: v ∧ '\n' ∉ u := by
  rcases hl with hl | hl
  · have hnot : ')' ∉ l.region := not_mem_of_solid? rfl rfl (by decide) hl.takes
    exact absurd (by rw [h]; simp) hnot
  · obtain ⟨u, rs, hmarked, hu, -, hrs, -⟩ := takes_linterMarked_iff.mp hl.marked
    have hlead : ')' ∉ l.lead := not_mem_of_solid? rfl rfl (by decide) hl.lead
    have hstart : ')' ∉ u := not_mem_of_solid? rfl rfl (by decide) hu
    have htail : ')' ∉ l.tail := not_mem_of_solid? rfl rfl (by decide) hl.tail
    have hregion : (l.lead ++ u) ++ (rs.flatten ++ l.tail) = x ++ ')' :: y := by
      rw [← h, Occurrence.region, hmarked]
      simp
    rcases exists_of_append_eq hregion with ⟨y₁, hfirst, -⟩ | ⟨x₂, -, hrest⟩
    · have hmem : ')' ∈ l.lead ++ u := by
        rw [hfirst]
        simp
      exact absurd hmem (by rw [List.mem_append, not_or]; exact ⟨hlead, hstart⟩)
    · rcases exists_of_append_eq hrest with ⟨y₁, hrounds, rfl⟩ | ⟨x₃, -, htail'⟩
      · obtain ⟨a, b, rfl, ha⟩ := exists_quote_of_rounds hrs hrounds
        exact ⟨a, b ++ l.tail, by simp, ha⟩
      · exact absurd (by rw [htail']; simp) htail

/-! ## Answers inside guards -/

/-- What a pattern takes that shuts answers out and ends with a word: no line ends behind it, and
no answer starts inside it. -/
theorem shut_of_takes {p : Pattern} {word w r : Text} (hs : answerOpening.isShut p = true)
    (hp : p.isClosed = true) (hlast : p.getLast? = some (.atom (.lit word)))
    (hword : word.getLast?.any (· != '\n') = true) (h : p.Takes w r) :
    ∀ x y, w = x ++ '\n' :: y → y ≠ [] ∧ ¬ answerOpening.Opens (y ++ r) := by
  intro x y hw
  have hy : y ≠ [] := by
    rintro rfl
    obtain ⟨u, hu⟩ := exists_of_getLast? hlast h
    obtain ⟨c, hc, hne⟩ := (Option.any_eq_true _ _).mp hword
    obtain ⟨word', rfl⟩ := List.getLast?_eq_some_iff.mp hc
    have hlasts : (u ++ (word' ++ [c])).getLast? = (x ++ ['\n']).getLast? := by rw [← hu, hw]
    rw [← List.append_assoc, List.getLast?_concat, List.getLast?_concat, Option.some.injEq] at hlasts
    rw [hlasts] at hne
    exact absurd hne (by decide)
  exact ⟨hy, Opening.not_opens_of_isShut hs hp h hw hy⟩

/-- The end of a patched guard: a parenthesis, and a line break before any quote. -/
theorem exists_of_takes_tail {ps : Pattern} {w r : Text}
    (h : Pattern.Takes (.atom (.lit ")") :: .atom (.run .blank 0) :: .atom (.lit ")")
      :: .atom .lineGap :: ps) w r) :
    ∃ u v, w = ')' :: (u ++ '\n' :: v) ∧ '"' ∉ u := by
  obtain ⟨w₁, w₂, rfl, h₁, h⟩ := takes_cons.mp h
  obtain ⟨w₃, w₄, rfl, h₃, h⟩ := takes_cons.mp h
  obtain ⟨w₅, w₆, rfl, h₅, h⟩ := takes_cons.mp h
  obtain ⟨w₇, w₈, rfl, h₇, -⟩ := takes_cons.mp h
  rw [Piece.takes_atom, Atom.takes_lit] at h₁ h₅
  rw [Piece.takes_atom, Atom.takes_run] at h₃
  rw [Piece.takes_atom, Atom.takes_lineGap] at h₇
  subst h₁ h₅
  obtain ⟨g, g', hgap⟩ := List.append_of_mem h₇.2.1
  refine ⟨w₃ ++ (")" ++ g), g' ++ w₈, by simp [hgap], fun hmem => ?_⟩
  simp only [List.mem_append] at hmem
  rcases hmem with hmem | hmem | hmem
  · exact absurd (h₃.1 _ hmem) (by decide)
  · exact absurd hmem (by decide)
  · have hblank := h₇.1 '"' (by rw [hgap]; simp [hmem])
    exact absurd hblank (by decide)

/-- **Where an answer can stand in a patched guard**: in the part `v` of its condition, which can be
anything without parentheses. -/
structure Room (g : Shape) (o : Occurrence) (u v : Text) : Prop where
  marked : o.marked = u ++ v
  free : ParenFree v
  shut : ∀ x y, o.lead ++ u = x ++ '\n' :: y →
    y ≠ [] ∧ ¬ answerOpening.Opens (y ++ (v ++ (o.tail ++ o.after)))
  swap : ∀ p b q, v = p ++ b ++ q → p ≠ [] → ∀ b', ParenFree b' →
    g.Fits (o.withMarked (u ++ p ++ b' ++ q))

/-- **A patched guard whose condition has room for answers.** -/
structure IsRoomy (g : Shape) : Prop where
  anchors : guardOpening.anchors g = true
  room : ∀ o, g.Fits o → ∃ u v, Room g o u v
  tail : ∃ ps : Pattern, g.tail = .atom (.lit ")") :: .atom (.run .blank 0) :: .atom (.lit ")")
    :: .atom .lineGap :: ps
  tail_isShut : answerOpening.isShut g.tail = true
  tail_shuts : answerOpening.shuts .blank g.tail = true

/-- An answer starts with its opening. -/
theorem opens_of_isAnswer {l : Occurrence} (hl : IsAnswer l) :
    answerOpening.Opens (l.region ++ l.after) :=
  hl.elim (Opening.opens_of_fits patchable_linter.pristine_anchors)
    (Opening.opens_of_fits patchable_linter.merge_anchors)

/-- An answer starts at the start of a line. -/
theorem endsLine_of_isAnswer {l : Occurrence} (hl : IsAnswer l) : l.before.EndsLine :=
  hl.elim (fun h => h.endsLine) fun h => h.endsLine

/-- No guard starts inside an answer. -/
theorem behind_of_isAnswer {g : Shape} {l o : Occurrence} (hk : guardOpening.anchors g = true)
    (hl : IsAnswer l) (h : g.Fits o) (htext : o.text = l.text)
    (hlt : l.before.length < o.before.length) :
    ∃ z, o.before = l.before ++ l.region ++ z ∧ l.after = z ++ (o.region ++ o.after) := by
  have hopens := Opening.opens_of_fits hk h
  have htext' : l.text = o.before ++ (o.region ++ o.after) := htext.symm.trans o.text_eq
  rcases hl with hl | hl
  · exact Opening.exists_of_opens (k := guardOpening) (by decide) (by decide) hl htext' h.endsLine
      hopens hlt
  · exact Opening.exists_of_opens (k := guardOpening) (by decide) (by decide) hl htext' h.endsLine
      hopens hlt

/-- An answer that starts in the room of a guard ends there: its parentheses stand in quotes that
end on one line, and the line of the guard's parentheses has no quote. -/
theorem exists_of_append_tail {l : Occurrence} {v₂ tail after u w : Text} (hl : IsAnswer l)
    (htext : l.region ++ l.after = v₂ ++ (tail ++ after)) (htail : tail = ')' :: (u ++ '\n' :: w))
    (hu : '"' ∉ u) : ∃ q, v₂ = l.region ++ q ∧ l.after = q ++ (tail ++ after) := by
  rcases List.append_eq_append_iff.mp htext with ⟨q, hv₂, hafter⟩ | ⟨b, hregion, hb⟩
  · exact ⟨q, hv₂, hafter⟩
  · cases b with
    | nil => exact ⟨[], by simpa using hregion.symm, by simpa using hb.symm⟩
    | cons c b =>
      rw [htail, List.cons_append, List.cons_append, List.cons.injEq] at hb
      obtain ⟨rfl, hb⟩ := hb
      obtain ⟨x, y, rfl, hx⟩ := exists_quote hl hregion
      -- the quote would stand behind the line break, or the line break in the quotes
      rw [List.append_assoc, List.append_assoc] at hb
      rcases exists_of_append_eq hb with ⟨y₁, hu', -⟩ | ⟨x₂, hx', hline⟩
      · exact absurd (by rw [hu']; simp) hu
      · cases x₂ with
        | nil =>
          simp only [List.nil_append, List.cons_append, List.cons.injEq] at hline
          exact absurd hline.1 (by decide)
        | cons d x₂ =>
          simp only [List.cons_append, List.cons.injEq] at hline
          exact absurd (by rw [hx', ← hline.1]; simp) hx

/-- No answer starts in the last lines of a guard. -/
theorem not_opens_of_tail {g : Shape} {o : Occurrence} {t y : Text} (hg : IsRoomy g) (h : g.Fits o)
    (hline : t ≠ [] → t.EndsLine) (htail : o.tail ++ o.after = t ++ y)
    (hnot : ∀ z, t = o.tail ++ z → o.after ≠ z ++ y) : ¬ answerOpening.Opens y := by
  by_cases ht : t = []
  · rw [ht, List.nil_append] at htail
    rw [← htail]
    exact Opening.not_opens_of_shuts (u := []) hg.tail_shuts (by simp) h.tail
  · obtain ⟨t', rfl⟩ := Text.exists_of_endsLine ht (hline ht)
    rcases List.append_eq_append_iff.mp htail with ⟨z, hz, hafter⟩ | ⟨a, ha, hy⟩
    · exact absurd hafter (hnot z hz)
    · have hane : a ≠ [] := by
        rintro rfl
        rw [List.append_nil] at ha
        exact hnot [] (by rw [List.append_nil, ha]) (by simpa using hy.symm)
      have hclosed := (Opening.isAnchored hg.anchors).isClosed_tail
      rw [List.append_assoc, List.singleton_append] at ha
      rw [hy]
      exact Opening.not_opens_of_isShut hg.tail_isShut hclosed h.tail ha hane

/-- **A patched guard and an answer do not overlap, or the answer stands inside the condition**,
where any text without parentheses could stand in its place. -/
theorem clear_or_holds {g : Shape} {l : Occurrence} (hg : IsRoomy g) (hl : IsAnswer l) :
    g.Clear l ∨ ∃ o p q, g.Fits o ∧ o.Holds l p q ∧ ParenFree l.region ∧
      ∀ b, ParenFree b → g.Fits (o.withMarked (p ++ b ++ q)) := by
  by_cases hall : ∀ o, g.Fits o → o.text = l.text → o.before.length < l.before.length →
      ∃ z, l.before = o.before ++ o.region ++ z ∧ o.after = z ++ (l.region ++ l.after)
  · left
    exact ⟨hl.elim (Opening.exists_region_of_fits patchable_linter.pristine_anchors)
      (Opening.exists_region_of_fits patchable_linter.merge_anchors), hall,
      fun o h htext hlt => behind_of_isAnswer hg.anchors hl h htext hlt⟩
  · right
    simp only [Classical.not_forall] at hall
    obtain ⟨o, h, htext, hlt, hnot⟩ := hall
    obtain ⟨u, v, hroom⟩ := hg.room o h
    have hopens := opens_of_isAnswer hl
    have hline := endsLine_of_isAnswer hl
    obtain ⟨x, hbefore, hrest⟩ :=
      Occurrence.exists_lines_of_lt (htext.trans l.text_eq) hline hlt
    have hregion : o.region ++ o.after = (o.lead ++ u) ++ (v ++ (o.tail ++ o.after)) := by
      rw [Occurrence.region, hroom.marked]
      simp
    rw [hregion] at hrest
    -- the answer starts in the guard's last lines, in its room, or in its first lines
    rcases List.append_eq_append_iff.mp hrest with ⟨p, hp, hinner⟩ | ⟨a, ha, hrest'⟩
    · have hpne : p ≠ [] := by
        rintro rfl
        rw [List.append_nil] at hp
        exact (hroom.shut x [] hp.symm).1 rfl
      rcases List.append_eq_append_iff.mp hinner with ⟨t, ht, htail⟩ | ⟨v₂, hv, hanswer⟩
      · refine absurd hopens (not_opens_of_tail hg h ?_ htail fun z hz hafter => hnot ⟨z, ?_, hafter⟩)
        · intro htne
          rw [hbefore, hp, ht, Text.endsLine_append_iff (by simp [htne]),
            Text.endsLine_append_iff (by simp [htne]), Text.endsLine_append_iff htne] at hline
          exact hline
        · rw [hbefore, hp, ht, hz, Occurrence.region, hroom.marked]
          simp
      · obtain ⟨ps, hps⟩ := hg.tail
        obtain ⟨a, b, htail, hquote⟩ := exists_of_takes_tail (hps ▸ h.tail)
        obtain ⟨q, rfl, hafter⟩ := exists_of_append_tail hl hanswer htail hquote
        rw [← List.append_assoc] at hv
        have hfree := hroom.free
        rw [hv, parenFree_append_iff, parenFree_append_iff] at hfree
        refine ⟨o, u ++ p, q, h, ⟨hlt, ?_, ?_, ?_⟩, hfree.1.2, fun b hb => hroom.swap p _ q hv hpne b hb⟩
        · rw [hbefore, hp]
          simp
        · rw [hroom.marked, hv]
          simp
        · rw [hafter]
          simp
    · rw [List.append_assoc, List.singleton_append] at ha
      exact absurd (hrest' ▸ hopens) (hroom.shut x a ha).2

/-! ## The patched guards -/

/-- The patched guard of the tracer has room for answers in its condition. -/
theorem isRoomy_tracerMerge : IsRoomy tracerMerge where
  anchors := patchable_tracer.merge_anchors
  tail := ⟨_, rfl⟩
  tail_isShut := by decide
  tail_shuts := by decide
  room o h := by
    have hlead : Pattern.isClosed tracerMerge.lead = true := by decide
    obtain ⟨hfree, hlength, hstop⟩ := Atom.takes_run.mp (takes_singleton.mp h.marked)
    have hshut := shut_of_takes (by decide) hlead rfl (by decide) h.lead
    refine ⟨[], o.marked, rfl, hfree, ?_, ?_⟩
    · intro x y hxy
      rw [List.append_nil] at hxy
      simpa using hshut x y hxy
    · intro p b q hv hp b' hb'
      rw [hv, ← ParenFree, parenFree_append_iff, parenFree_append_iff] at hfree
      have hfree' : ParenFree ([] ++ p ++ b' ++ q) :=
        (hfree.1.1.append hb').append hfree.2
      refine ⟨h.endsLine, (takes_of_isClosed hlead h.lead).2 _, ?_, h.tail⟩
      refine takes_singleton.mpr (Atom.takes_run.mpr ⟨hfree', ?_, hstop⟩)
      have hpos := List.length_pos_iff.mpr hp
      show 1 ≤ ([] ++ p ++ b' ++ q).length
      simp only [List.length_append]
      omega

/-- The patched guard of a matcher has room for answers in its condition. -/
theorem isRoomy_matcherMerge : IsRoomy matcherMerge where
  anchors := (patchable_matcher [] []).merge_anchors
  tail := ⟨_, rfl⟩
  tail_isShut := by decide
  tail_shuts := by decide
  room o h := by
    have hlead : Pattern.isClosed matcherMerge.lead = true := by decide
    have hstart : Pattern.isClosed matcherStart = true := by decide
    obtain ⟨u, v, hmarked, hu, hend, hfree, hstop⟩ := takes_matcherMarked_iff.mp h.marked
    have hu' : matcherStart.Takes u (v ++ (o.tail ++ o.after)) := (takes_of_isClosed hstart hu).2 _
    have hfirst : Pattern.Takes (matcherMerge.lead ++ matcherStart) (o.lead ++ u)
        (v ++ (o.tail ++ o.after)) :=
      takes_append.mpr ⟨o.lead, u, rfl, (takes_of_isClosed hlead h.lead).2 _, hu'⟩
    have hshut := shut_of_takes (by decide) (by decide) rfl (by decide) hfirst
    refine ⟨u, v, hmarked, hfree, hshut, ?_⟩
    intro p b q hv hp b' hb'
    rw [hv, parenFree_append_iff, parenFree_append_iff] at hfree
    refine ⟨h.endsLine, (takes_of_isClosed hlead h.lead).2 _, ?_, h.tail⟩
    refine takes_matcherMarked_iff.mpr ⟨u, p ++ b' ++ q, ?_, hu, ?_,
      (hfree.1.1.append hb').append hfree.2, hstop⟩
    · show u ++ p ++ b' ++ q = u ++ (p ++ b' ++ q)
      simp only [List.append_assoc]
    · -- the word is ended by what stands before the exchanged lines
      rw [hv] at hend
      simp only [List.append_assoc] at hend ⊢
      rw [Text.stopsAt_append_iff hp] at hend ⊢
      exact hend

/-! ## Exchanged answers -/

/-- The lines of an answer have no parentheses exactly when the lines that a step puts in their
place have none. -/
theorem parenFree_iff_of_exchanges {names : NameSet} {l l' : Occurrence}
    (hex : linter.Exchanges linterMerge names l l') :
    ParenFree l.region ↔ ParenFree l'.region := by
  cases hex with
  | rewrite h h' _ _ hregion =>
    have hi := isIndent_of_takes h.marked
    have hfree : ParenFree l.region := parenFree_iff.mpr
      ⟨not_mem_of_solid? rfl rfl (by decide) h.takes, not_mem_of_solid? rfl rfl (by decide) h.takes⟩
    have hindent : ParenFree l.marked :=
      fun c hc => CharClass.of_has_oneOf (by decide) (hi c hc)
    have hfree' : ParenFree l'.region := by
      rw [hregion]
      show ParenFree (Template.fill [.indent, .text "return ", .condition, .text ";\n"] l.marked
        (linter.condition.build names))
      rw [fill_answer, parenFree_append_iff, parenFree_append_iff, parenFree_append_iff]
      exact ⟨⟨⟨hindent, List.all_eq_true.mp (by decide)⟩,
        parenFree_build patchable_linter.plain names⟩, List.all_eq_true.mp (by decide)⟩
    exact ⟨fun _ => hfree', fun _ => hfree⟩
  | extend h h' =>
    simp only [Occurrence.region, Occurrence.extended, Occurrence.withMarked, parenFree_append_iff]
    have hmarked : ParenFree l.marked ↔
        ParenFree (linter.condition.extended l.marked.trimEnd names) ∧ ParenFree l.marked.blankEnd := by
      constructor
      · intro hfree
        obtain ⟨hstart, hend⟩ := ParenFree.trimEnd hfree
        exact ⟨parenFree_extend patchable_linter.plain
          (fun _ => ConditionForm.isWord_of_mem_absent) hstart, hend⟩
      · rintro ⟨hstart, hend⟩
        rw [ConditionForm.extended, ConditionForm.extend, parenFree_append_iff] at hstart
        rw [← l.marked.trimEnd_append_blankEnd, parenFree_append_iff]
        exact ⟨hstart.1, hend⟩
    rw [hmarked]

/-- The linter's step puts a patched answer in the place of an answer. -/
theorem isAnswer_of_exchanges {names : NameSet} {l l' : Occurrence}
    (hex : linter.Exchanges linterMerge names l l') : IsAnswer l ∧ linterMerge.Fits l' := by
  cases hex with
  | rewrite h h' => exact ⟨.inl h, h'⟩
  | extend h h' => exact ⟨.inr h, h'⟩

section Guards

variable {g : Shape} {names : NameSet} {l l' : Occurrence}
  (hp : Pattern.apart g.pattern linterPristine.pattern = true)
  (hm : Pattern.apart g.pattern linterMerge.pattern = true)
  (hex : linter.Exchanges linterMerge names l l')

include hp hm hex

/-- No guard starts where an answer stands, before or after the linter's step. -/
theorem startingAt?_of_exchanges :
    Shape.startingAt? g l = none ∧ Shape.startingAt? g l' = none := by
  obtain ⟨hl, hl'⟩ := isAnswer_of_exchanges hex
  exact ⟨hl.elim (Shape.startingAt?_of_apart hp) (Shape.startingAt?_of_apart hm),
    Shape.startingAt?_of_apart hm hl'⟩

/-- A delivered guard keeps clear of answers. -/
theorem exchanged_of_isShut (hk : guardOpening.anchors g = true)
    (hshut : answerOpening.isShut g.pattern = true) :
    Exchanged l.region l'.region ((g.occurrences l.text).map Occurrence.marked)
      ((g.occurrences l'.text).map Occurrence.marked) := by
  obtain ⟨hl, hl'⟩ := isAnswer_of_exchanges hex
  obtain ⟨hnot, hnot'⟩ := startingAt?_of_exchanges hp hm hex
  obtain ⟨⟨hbefore, hafter⟩, -⟩ := patchable_linter.spec_of_exchanges hex
  have hclear : ∀ s' : Shape, answerOpening.anchors s' = true →
      guardOpening.isShut s'.pattern = true → ∀ x, s'.Fits x → g.Clear x :=
    fun _ ha hs' _ h => Opening.clear_of_shut hk ha hshut hs' h
  refine Opening.exchanged_of_clear hk ?_ ?_ hbefore hafter hnot hnot'
  · exact hl.elim (hclear _ patchable_linter.pristine_anchors (by decide) l)
      (hclear _ patchable_linter.merge_anchors (by decide) l)
  · exact hclear _ patchable_linter.merge_anchors (by decide) l' hl'

/-- A patched guard keeps clear of answers, or has them in its condition. -/
theorem exchanged_of_isRoomy (hg : IsRoomy g) :
    Exchanged l.region l'.region ((g.occurrences l.text).map Occurrence.marked)
      ((g.occurrences l'.text).map Occurrence.marked) := by
  obtain ⟨hl, hl'⟩ := isAnswer_of_exchanges hex
  obtain ⟨hnot, hnot'⟩ := startingAt?_of_exchanges hp hm hex
  obtain ⟨⟨hbefore, hafter⟩, hline, -⟩ := patchable_linter.spec_of_exchanges hex
  have hfree := parenFree_iff_of_exchanges hex
  refine Opening.exchanged hg.anchors hline hbefore hafter hnot hnot' ?_ ?_
  · refine (clear_or_holds hg hl).imp_right ?_
    rintro ⟨o, p, q, h, hholds, hfreeRegion, hswap⟩
    exact ⟨o, p, q, h, hholds, hswap _ (hfree.mp hfreeRegion)⟩
  · refine (clear_or_holds hg (.inr hl')).imp_right ?_
    rintro ⟨o, p, q, h, hholds, hfreeRegion, hswap⟩
    exact ⟨o, p, q, h, hholds, hswap _ (hfree.mpr hfreeRegion)⟩

end Guards

/-! ## Steps at the sites behind -/

/-- The tracer is spared by the matchers: their regions start alike, and are told apart. -/
theorem tracer_spares_matcher (id path : Text) : tracer.Spares (matcher id path) := by
  refine patchable_tracer.spares_of_exchanged (patchable_matcher id path) ?_
    fun names o o' hex => ⟨?_, ?_⟩
  · show Site.sparesChecks tracer (matcher [] []) matcherMerge = true
    decide
  · refine Site.Patchable.exchanged_of_apart patchable_tracer.pristine_anchors
      (patchable_matcher id path) ?_ (by decide) hex
    show apart tracerPristine.pattern matcherPristine.pattern = true
    decide
  · refine Site.Patchable.exchanged_of_apart patchable_tracer.merge_anchors
      (patchable_matcher id path) ?_ (by decide) hex
    show apart tracerMerge.pattern matcherPristine.pattern = true
    decide

/-- The tracer is spared by the linter. -/
theorem tracer_spares_linter : tracer.Spares linter :=
  patchable_tracer.spares_of_exchanged patchable_linter (by decide) fun _ _ _ hex =>
    ⟨exchanged_of_isShut (by decide) (by decide) hex patchable_tracer.pristine_anchors (by decide),
      exchanged_of_isRoomy (by decide) (by decide) hex isRoomy_tracerMerge⟩

/-- A matcher is spared by the linter. -/
theorem matcher_spares_linter (id path : Text) : (matcher id path).Spares linter := by
  refine (patchable_matcher id path).spares_of_exchanged patchable_linter ?_
    fun names l l' hex => ⟨?_, ?_⟩
  · show Site.sparesChecks (matcher [] []) linter linterMerge = true
    decide
  · show Exchanged _ _ ((matcherPristine.occurrences _).map _) ((matcherPristine.occurrences _).map _)
    exact exchanged_of_isShut (by decide) (by decide) hex
      (patchable_matcher id path).pristine_anchors (by decide)
  · exact exchanged_of_isRoomy (by decide) (by decide) hex isRoomy_matcherMerge

/-- **What is settled, or stuck, at a site stays so when the sites behind it are patched**, even if
all of them are patched in one text. -/
theorem pairwise_spares : sites.Pairwise Site.Spares := by
  have hsame : constraintGenerator.Spares typeInfer :=
    Site.Patchable.spares_of_same (patchable_matcher _ _) (patchable_matcher _ _) rfl rfl
  simp only [sites, List.pairwise_cons, List.mem_cons, List.not_mem_nil, or_false, forall_eq_or_imp,
    forall_eq, List.Pairwise.nil, and_true, false_imp_iff, implies_true]
  exact ⟨⟨tracer_spares_matcher _ _, tracer_spares_matcher _ _, tracer_spares_linter⟩,
    ⟨hsame, matcher_spares_linter _ _⟩, matcher_spares_linter _ _⟩

end SitePatch.Luau
