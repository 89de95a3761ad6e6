import SitePatch.Proofs.Condition
import SitePatch.Proofs.Patch

/-! # Lines exchanged for others

A step replaces whole lines, and what another shape finds in the text is hardly touched by that. A
shape that keeps clear of the lines (`Shape.Clear`) finds the same regions before and after. A shape
may also have the lines inside the marked part of one of its regions (`Occurrence.Holds`), and then
they are exchanged there. Main statement: these are the only changes (`Opening.exchanged`). -/

namespace SitePatch

/-! ## Words and lines -/

namespace Text

variable {needle u v p b q : Text}

/-- A word without a line break does not reach from one line into the next. -/
theorem occursIn_append_of_endsLine_iff (hneedle : '\n' ∉ needle) (hu : u.EndsLine) :
    occursIn needle (u ++ v) = true ↔ occursIn needle u = true ∨ occursIn needle v = true := by
  apply occursIn_append_iff
  rintro x y rfl hx - hxu -
  obtain ⟨w, rfl⟩ := hxu
  rw [endsLine_append_iff hx] at hu
  obtain ⟨x', rfl⟩ := exists_of_endsLine hx hu
  exact hneedle (by simp)

/-- A word without a line break stands in whole lines or around them. -/
theorem occursIn_lines_iff (hneedle : '\n' ∉ needle) (hp : p.EndsLine) (hb : b.EndsLine) :
    occursIn needle (p ++ b ++ q) = true ↔
      occursIn needle p = true ∨ occursIn needle b = true ∨ occursIn needle q = true := by
  rw [List.append_assoc, occursIn_append_of_endsLine_iff hneedle hp,
    occursIn_append_of_endsLine_iff hneedle hb]

/-- What is put before white space that ends with a foreign character parts no word. -/
theorem occursIn_insert {g x y ins : Text} {d : Char} (hneedle : needle.Trimmed) (hd : d ∉ needle)
    (hg : ∀ c ∈ g, isBlank c = true) (h : occursIn needle (x ++ (g ++ d :: y)) = true) :
    occursIn needle (x ++ ins ++ (g ++ d :: y)) = true := by
  have hparts : occursIn needle x = true ∨ occursIn needle (g ++ d :: y) = true := by
    refine (occursIn_append_iff ?_).mp h
    rintro p q rfl - hq - hstarts
    rw [trimmed_append_iff hq] at hneedle
    -- the word would end with white space, or hold the foreign character
    obtain ⟨t, ht⟩ := hstarts
    rcases List.append_eq_append_iff.mp ht with ⟨a, rfl, -⟩ | ⟨a, hqa, ha⟩
    · have hlast := hneedle (q.getLast hq) (by rw [List.getLast?_eq_some_getLast hq]; simp)
      rw [hg _ (List.mem_append_left _ (List.getLast_mem hq))] at hlast
      exact absurd hlast (by simp)
    · cases a with
      | nil =>
        rw [List.append_nil] at hqa
        have hlast := hneedle (q.getLast hq) (by rw [List.getLast?_eq_some_getLast hq]; simp)
        rw [hg _ (hqa ▸ List.getLast_mem hq)] at hlast
        exact absurd hlast (by simp)
      | cons c a =>
        rw [List.cons_append, List.cons.injEq] at ha
        exact hd (by rw [hqa, ha.1]; simp)
  rcases hparts with hx | hy
  · exact occursIn_append_left (occursIn_append_left hx)
  · exact occursIn_append_right hy

end Text

/-! ## Exchanged lines -/

/-- The lists hold the same texts, but for whole lines `b'` in place of `b` in one text. -/
inductive Exchanged (b b' : Text) : List Text → List Text → Prop
  | same (ts : List Text) : Exchanged b b' ts ts
  | one (ts us : List Text) (p q : Text) (hp : p.EndsLine) :
    Exchanged b b' (ts ++ (p ++ b ++ q) :: us) (ts ++ (p ++ b' ++ q) :: us)

namespace Exchanged

variable {b b' m : Text} {ts us : List Text}

/-- Where lines are exchanged, there are as many texts as before. -/
theorem length_eq (h : Exchanged b b' ts us) : us.length = ts.length := by
  cases h with
  | same => rfl
  | one => rw [List.length_append, List.length_append, List.length_cons, List.length_cons]

/-- A list of one text stays one, and the text is the same but for the lines. -/
theorem exists_of_singleton (h : Exchanged b b' [m] us) :
    ∃ m', us = [m'] ∧ (m' = m ∨ ∃ p q, p.EndsLine ∧ m = p ++ b ++ q ∧ m' = p ++ b' ++ q) := by
  generalize hts : [m] = ts at h
  cases h with
  | same => exact ⟨m, hts.symm, .inl rfl⟩
  | one xs ys p q hp =>
    cases xs with
    | cons x xs => simp at hts
    | nil =>
      simp only [List.nil_append, List.cons.injEq] at hts ⊢
      obtain ⟨rfl, rfl⟩ := hts
      exact ⟨_, ⟨rfl, rfl⟩, .inr ⟨p, q, hp, rfl, rfl⟩⟩

end Exchanged

/-! ## Lines inside a region -/

/-- The lines of `l` lie inside the marked part of `o`, between `p` and `q`. -/
structure Occurrence.Holds (o l : Occurrence) (p q : Text) : Prop where
  lt : o.before.length < l.before.length
  before : l.before = o.before ++ o.lead ++ p
  marked : o.marked = p ++ l.region ++ q
  after : l.after = q ++ o.tail ++ o.after

namespace Occurrence.Holds

variable {o l l' : Occurrence} {p q : Text}

/-- Lines inside a region stand in the same text as the region. -/
theorem text_eq (h : o.Holds l p q) : o.text = l.text := by
  simp [Occurrence.text, Occurrence.region, h.before, h.marked, h.after]

/-- Other lines in the same place lie inside the region in which they have taken the place of the
first ones. -/
theorem withMarked (h : o.Holds l p q) (hbefore : l'.before = l.before)
    (hafter : l'.after = l.after) : (o.withMarked (p ++ l'.region ++ q)).Holds l' p q where
  lt := by
    rw [hbefore]
    exact h.lt
  before := hbefore.trans h.before
  marked := rfl
  after := hafter.trans h.after

/-- The marked part before the lines ends a line. -/
theorem endsLine (h : o.Holds l p q) (hl : l.before.EndsLine) : p.EndsLine := by
  by_cases hp : p = []
  · rw [hp]
    exact Text.endsLine_nil
  · rwa [h.before, Text.endsLine_append_iff hp] at hl

end Occurrence.Holds

namespace Opening

variable {k a : Opening} {s s' : Shape} {o l l' : Occurrence} {p q : Text}

/-- A shape does not keep clear of lines inside one of its regions. -/
theorem not_clear_of_holds (h : s.Fits o) (hholds : o.Holds l p q) : ¬ s.Clear l := by
  intro hclear
  obtain ⟨z, hbefore, -⟩ := hclear.before o h hholds.text_eq hholds.lt
  obtain ⟨u, hu⟩ := hclear.endsLine
  -- the lines would have to start behind the region that holds them
  have hlength := congrArg List.length (hbefore.symm.trans hholds.before)
  simp only [Occurrence.region, List.length_append, hholds.marked] at hlength
  have hpos := congrArg List.length hu
  simp only [Occurrence.region, List.length_append, List.length_singleton] at hpos
  omega

/-- A shape keeps clear of lines with another opening if neither shape lets the other's line open
inside its regions. -/
theorem clear_of_shut (hk : k.anchors s = true) (ha : a.anchors s' = true)
    (hs : a.isShut s.pattern = true) (hs' : k.isShut s'.pattern = true) (h' : s'.Fits l) :
    s.Clear l where
  endsLine := exists_region_of_fits ha h'
  before _ h htext hlt :=
    exists_of_opens hs (isAnchored hk).isClosed h (htext.trans l.text_eq) h'.endsLine
      (opens_of_fits ha h') hlt
  behind o h htext hlt :=
    exists_of_opens hs' (isAnchored ha).isClosed h' (htext.symm.trans o.text_eq) h.endsLine
      (opens_of_fits hk h) hlt

/-- A shape that keeps clear of the lines before and after finds the same. -/
theorem exchanged_of_clear (hk : k.anchors s = true) (hclear : s.Clear l) (hclear' : s.Clear l')
    (hbefore : l'.before = l.before) (hafter : l'.after = l.after)
    (hnot : Shape.startingAt? s l = none) (hnot' : Shape.startingAt? s l' = none) :
    Exchanged l.region l'.region ((s.occurrences l.text).map Occurrence.marked)
      ((s.occurrences l'.text).map Occurrence.marked) := by
  rw [map_marked_of_replaced hk hclear hclear' hbefore hafter hnot hnot']
  exact .same _

/-- **What a shape finds when whole lines are exchanged for others**: the same regions, or one of
them with the lines exchanged inside its marked part. -/
theorem exchanged (hk : k.anchors s = true) (hl : l.before.EndsLine)
    (hbefore : l'.before = l.before) (hafter : l'.after = l.after)
    (hnot : Shape.startingAt? s l = none) (hnot' : Shape.startingAt? s l' = none)
    (hroom : s.Clear l ∨ ∃ o p q, s.Fits o ∧ o.Holds l p q ∧
      s.Fits (o.withMarked (p ++ l'.region ++ q)))
    (hroom' : s.Clear l' ∨ ∃ o p q, s.Fits o ∧ o.Holds l' p q ∧
      s.Fits (o.withMarked (p ++ l.region ++ q))) :
    Exchanged l.region l'.region ((s.occurrences l.text).map Occurrence.marked)
      ((s.occurrences l'.text).map Occurrence.marked) := by
  rcases hroom with hclear | ⟨o, p, q, h, hholds, h'⟩
  · rcases hroom' with hclear' | ⟨o, p, q, h, hholds, h'⟩
    · exact exchanged_of_clear hk hclear hclear' hbefore hafter hnot hnot'
    · -- the region would hold the first lines too
      exact absurd hclear (not_clear_of_holds h' (hholds.withMarked hbefore.symm hafter.symm))
  · have hholds' := hholds.withMarked hbefore hafter
    rw [← hholds.text_eq, ← hholds'.text_eq, map_marked_occurrences hk (clear_of_anchors hk hk h),
      map_marked_occurrences hk (clear_of_anchors hk hk h'), Shape.startingAt?_of_fits h,
      Shape.startingAt?_of_fits h']
    simp only [Option.toList_some, List.map_cons, List.map_nil, List.append_assoc,
      List.singleton_append, hholds.marked]
    rw [← List.append_assoc p, ← List.append_assoc p]
    exact .one _ _ p q (hholds.endsLine hl)

end Opening

end SitePatch
