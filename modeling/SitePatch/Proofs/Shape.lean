import SitePatch.Shape
import SitePatch.Proofs.Opening

/-! # Where shapes stand

`Shape.Fits s o` says that the shape `s` stands at the occurrence `o` of a text: at the start of a
line, with each pattern taking its part. A shape is *anchored* at an opening if its regions start
with the opening and no line opens inside them (`Opening.anchors`). Regions that are anchored at one
opening never overlap (`Opening.exists_of_lt`), so the search, which goes on behind each region it
finds, loses none: main statement `Opening.mem_occurrences_iff`. -/

namespace SitePatch

/-! ## Line starts -/

/-- A line starts behind the text: it is empty or ends with a line break. -/
def Text.EndsLine (t : Text) : Prop := ∀ c ∈ t.getLast?, c = '\n'

/-- A line starts at the start of a text. -/
@[simp] theorem Text.endsLine_nil : EndsLine [] := by simp [EndsLine]

/-- A line starts behind a newline. -/
@[simp] theorem Text.endsLine_append_newline (t : Text) : EndsLine (t ++ ['\n']) := by
  simp [EndsLine]

/-- Only the last character decides whether a line starts behind a text. -/
theorem Text.endsLine_append_iff {s t : Text} (ht : t ≠ []) :
    EndsLine (s ++ t) ↔ EndsLine t := by
  rw [EndsLine, EndsLine, List.getLast?_append, List.getLast?_eq_some_getLast ht, Option.some_or]

/-- A text that ends its line ends with a newline, unless it is empty. -/
theorem Text.exists_of_endsLine {t : Text} (ht : t ≠ []) (h : EndsLine t) :
    ∃ u, t = u ++ ['\n'] := by
  refine ⟨t.dropLast, ?_⟩
  have hlast := h (t.getLast ht) (by rw [List.getLast?_eq_some_getLast ht]; simp)
  rw [← hlast, List.dropLast_concat_getLast]

/-- A line starts behind the characters seen exactly if they end theirs. -/
theorem Shape.atLineStart_iff {seen : Text} :
    Shape.atLineStart seen = true ↔ Text.EndsLine seen.reverse := by
  cases seen with
  | nil => simp [atLineStart]
  | cons c cs => simp [atLineStart, Text.EndsLine]

/-! ## Occurrences -/

namespace Occurrence

/-- The text of an occurrence is what comes before the region, the region, and what comes after it.
-/
theorem text_eq (o : Occurrence) : o.text = o.before ++ (o.region ++ o.after) := by
  rw [text, List.append_assoc]

/-- The occurrence in a text with `x` before it and `y` behind it. -/
def within (x y : Text) (o : Occurrence) : Occurrence :=
  { o with before := x ++ o.before, after := o.after ++ y }

/-- A cut at the end of a line, behind the place of an occurrence, has whole lines in front of it.
-/
theorem exists_lines_of_lt {o : Occurrence} {x y : Text} (htext : o.text = x ++ y)
    (hx : x.EndsLine) (hlt : o.before.length < x.length) :
    ∃ u, x = o.before ++ (u ++ ['\n']) ∧ o.region ++ o.after = (u ++ ['\n']) ++ y := by
  rw [o.text_eq] at htext
  rcases List.append_eq_append_iff.mp htext with ⟨a, rfl, hafter⟩ | ⟨a, hbefore, -⟩
  · have ha : a ≠ [] := by
      rintro rfl
      simp at hlt
    rw [Text.endsLine_append_iff ha] at hx
    obtain ⟨u, rfl⟩ := Text.exists_of_endsLine ha hx
    exact ⟨u, rfl, hafter⟩
  · rw [hbefore, List.length_append] at hlt
    omega

end Occurrence

namespace Shape

/-- The whole pattern of a shape. -/
def pattern (s : Shape) : Pattern := s.lead ++ (s.marked ++ s.tail)

/-- **The shape stands at the occurrence.** -/
structure Fits (s : Shape) (o : Occurrence) : Prop where
  endsLine : Text.EndsLine o.before
  lead : s.lead.Takes o.lead (o.marked ++ o.tail ++ o.after)
  marked : s.marked.Takes o.marked (o.tail ++ o.after)
  tail : s.tail.Takes o.tail o.after

variable {s s' : Shape} {o o' : Occurrence} {seen rest t : Text}

/-- Where a shape stands, its whole pattern takes the region. -/
theorem Fits.takes (h : s.Fits o) : s.pattern.Takes o.region o.after := by
  refine Pattern.takes_append.mpr ⟨o.lead, o.marked ++ o.tail, ?_, h.lead, ?_⟩
  · rw [Occurrence.region, List.append_assoc]
  · exact Pattern.takes_append.mpr ⟨o.marked, o.tail, rfl, h.marked, h.tail⟩

/-- What the search finds at a place is where the shape stands there. -/
theorem atLine?_eq_some_iff :
    s.atLine? seen rest = some o ↔
      s.Fits o ∧ o.before = seen.reverse ∧ rest = o.region ++ o.after := by
  rw [atLine?]
  constructor
  · intro h
    split at h
    · rename_i hline
      rw [here?] at h
      split at h
      · simp at h
      · rename_i lead r₁ h₁
        split at h
        · simp at h
        · rename_i marked r₂ h₂
          split at h
          · simp at h
          · rename_i tail r₃ h₃
            simp only [Option.some.injEq] at h
            subst h
            obtain ⟨rfl, h₁⟩ := Pattern.take?_eq_some_iff.mp h₁
            obtain ⟨rfl, h₂⟩ := Pattern.take?_eq_some_iff.mp h₂
            obtain ⟨rfl, h₃⟩ := Pattern.take?_eq_some_iff.mp h₃
            refine ⟨⟨atLineStart_iff.mp hline, ?_, h₂, h₃⟩, rfl, by simp [Occurrence.region]⟩
            rwa [List.append_assoc]
    · simp at h
  · rintro ⟨⟨hline, h₁, h₂, h₃⟩, hbefore, rfl⟩
    rw [hbefore] at hline
    have hlead : s.lead.take? (o.region ++ o.after)
        = some (o.lead, o.marked ++ o.tail ++ o.after) := by
      rw [Occurrence.region, List.append_assoc, List.append_assoc, ← List.append_assoc o.marked]
      exact h₁
    have hmarked : s.marked.take? (o.marked ++ o.tail ++ o.after)
        = some (o.marked, o.tail ++ o.after) := by
      rw [List.append_assoc]
      exact h₂
    rw [if_pos (atLineStart_iff.mpr hline), here?, hlead]
    simp only [hmarked]
    rw [Pattern.Takes] at h₃
    simp only [h₃, ← hbefore]

/-- A shape stands in one way only at a place. -/
theorem Fits.eq (h : s.Fits o) (h' : s.Fits o') (htext : o.text = o'.text)
    (hbefore : o.before = o'.before) : o = o' := by
  rw [Occurrence.text_eq, Occurrence.text_eq, hbefore, List.append_cancel_left_eq] at htext
  have hfound : s.atLine? o.before.reverse (o.region ++ o.after) = some o :=
    atLine?_eq_some_iff.mpr ⟨h, by simp, rfl⟩
  have hfound' : s.atLine? o.before.reverse (o.region ++ o.after) = some o' :=
    atLine?_eq_some_iff.mpr ⟨h', by simp [hbefore], htext⟩
  rw [hfound, Option.some.injEq] at hfound'
  exact hfound'

/-- The occurrence of the shape that starts where another one starts. -/
def startingAt? (s : Shape) (o : Occurrence) : Option Occurrence :=
  s.atLine? o.before.reverse (o.region ++ o.after)

/-- A shape that stands at an occurrence starts where that starts. -/
theorem startingAt?_of_fits (h : s.Fits o) : startingAt? s o = some o :=
  atLine?_eq_some_iff.mpr ⟨h, by rw [List.reverse_reverse], rfl⟩

/-- The shape that starts where an occurrence starts stands in the same text, behind the same text.
-/
theorem mem_startingAt?_iff :
    o ∈ startingAt? s o' ↔ s.Fits o ∧ o.text = o'.text ∧ o.before = o'.before := by
  rw [startingAt?, Option.mem_def, atLine?_eq_some_iff, List.reverse_reverse]
  constructor
  · rintro ⟨h, hbefore, hrest⟩
    exact ⟨h, by rw [o.text_eq, o'.text_eq, hbefore, hrest], hbefore⟩
  · rintro ⟨h, htext, hbefore⟩
    rw [o.text_eq, o'.text_eq, hbefore, List.append_cancel_left_eq] at htext
    exact ⟨h, hbefore, htext.symm⟩

/-- No shape starts where an occurrence starts if it stands nowhere behind the same text. -/
theorem startingAt?_eq_none
    (hnot : ∀ o, s.Fits o → o.text = o'.text → o.before ≠ o'.before) :
    startingAt? s o' = none := by
  cases h : startingAt? s o' with
  | none => rfl
  | some o =>
    obtain ⟨hfits, htext, hbefore⟩ := mem_startingAt?_iff.mp h
    exact absurd hbefore (hnot o hfits htext)

/-- Shapes whose patterns are apart never start at one place. -/
theorem before_ne_of_apart (hapart : Pattern.apart s.pattern s'.pattern = true) (h : s.Fits o)
    (h' : s'.Fits o') (htext : o.text = o'.text) : o.before ≠ o'.before := by
  intro hbefore
  rw [o.text_eq, o'.text_eq, hbefore, List.append_cancel_left_eq] at htext
  exact Pattern.ne_of_apart hapart h.takes h'.takes htext

/-- Of shapes that are apart, one does not start where the other stands. -/
theorem startingAt?_of_apart (hapart : Pattern.apart s.pattern s'.pattern = true)
    (h' : s'.Fits o') : startingAt? s o' = none :=
  startingAt?_eq_none fun _ h htext => before_ne_of_apart hapart h h' htext

/-- **The shape keeps clear of an occurrence**: each of its regions in the text lies before the
lines of the occurrence or behind them, unless it starts where they start. -/
structure Clear (s : Shape) (o' : Occurrence) : Prop where
  endsLine : ∃ u, o'.region = u ++ ['\n']
  before : ∀ o, s.Fits o → o.text = o'.text → o.before.length < o'.before.length →
    ∃ z, o'.before = o.before ++ o.region ++ z ∧ o.after = z ++ (o'.region ++ o'.after)
  behind : ∀ o, s.Fits o → o.text = o'.text → o'.before.length < o.before.length →
    ∃ z, o.before = o'.before ++ o'.region ++ z ∧ o'.after = z ++ (o.region ++ o.after)

end Shape

/-! ## Anchored shapes -/

/-- Whether the pattern ends with a line break. -/
def Pattern.endsInLineBreak (p : Pattern) : Bool :=
  match p.getLast? with
  | some (.atom (.lit w)) => w.getLast? == some '\n'
  | _ => false

namespace Opening

/-- Whether what the pattern takes starts with the opening. -/
def starts (k : Opening) : Pattern → Bool
  | .atom (.run (.oneOf cs) _) :: .atom (.lit w) :: .atom (.run .blank _) :: .atom (.lit n) :: _ =>
    cs.all Text.isBlank && w == k.word && n == k.next
  | _ => false

/-- **Whether the shape is anchored at the opening**: its regions start with the opening, no line
opens inside them, and they are whole lines. -/
def anchors (k : Opening) (s : Shape) : Bool :=
  k.starts s.pattern && k.isShut s.pattern && s.pattern.isClosed && (s.marked ++ s.tail).isClosed
    && s.tail.isClosed && s.tail.endsInLineBreak

variable {k : Opening} {s s' : Shape} {o o' : Occurrence} {t x y : Text}

/-- What it means for a shape to be anchored, fact by fact. -/
structure IsAnchored (k : Opening) (s : Shape) : Prop where
  starts : k.starts s.pattern = true
  isShut : k.isShut s.pattern = true
  isClosed : s.pattern.isClosed = true
  isClosed_rest : (s.marked ++ s.tail).isClosed = true
  isClosed_tail : s.tail.isClosed = true
  endsInLineBreak : s.tail.endsInLineBreak = true

/-- A shape that is tested to be anchored is anchored. -/
theorem isAnchored (hk : k.anchors s = true) : k.IsAnchored s := by
  simp only [anchors, Bool.and_eq_true] at hk
  obtain ⟨⟨⟨⟨⟨hstarts, hshut⟩, hclosed⟩, hrest⟩, htail⟩, hends⟩ := hk
  exact ⟨hstarts, hshut, hclosed, hrest, htail, hends⟩

/-- What a pattern takes that starts with the opening starts with it, too. -/
theorem opens_of_starts {p : Pattern} {w rest : Text} (hp : k.starts p = true)
    (h : p.Takes w rest) : k.Opens (w ++ rest) := by
  unfold starts at hp
  split at hp
  · rename_i cs _ word _ next ps
    simp only [Bool.and_eq_true, beq_iff_eq] at hp
    obtain ⟨⟨hcs, rfl⟩, rfl⟩ := hp
    obtain ⟨i, w₁, rfl, h₁, h⟩ := Pattern.takes_cons.mp h
    obtain ⟨w₂, w₃, rfl, h₂, h⟩ := Pattern.takes_cons.mp h
    obtain ⟨g, w₄, rfl, h₃, h⟩ := Pattern.takes_cons.mp h
    obtain ⟨w₅, w₆, rfl, h₄, h⟩ := Pattern.takes_cons.mp h
    rw [Piece.takes_atom, Atom.takes_run] at h₁ h₃
    rw [Piece.takes_atom, Atom.takes_lit] at h₂ h₄
    subst h₂ h₄
    exact ⟨i, g, w₆ ++ rest, by simp, fun c hc => CharClass.of_has_oneOf hcs (h₁.1 c hc), h₃.1⟩
  · simp at hp

/-- The regions of an anchored shape start with the opening. -/
theorem opens_of_fits (hk : k.anchors s = true) (h : s.Fits o) : k.Opens (o.region ++ o.after) := by
  exact opens_of_starts (isAnchored hk).starts h.takes

/-- What a pattern takes ends with the line break that the pattern ends with. -/
theorem exists_of_endsInLineBreak {p : Pattern} {w rest : Text} (hp : p.endsInLineBreak = true)
    (h : p.Takes w rest) : ∃ u, w = u ++ ['\n'] := by
  unfold Pattern.endsInLineBreak at hp
  split at hp
  · rename_i word hlast
    obtain ⟨v, rfl⟩ := Pattern.exists_of_getLast? hlast h
    obtain ⟨u, rfl⟩ := List.getLast?_eq_some_iff.mp (beq_iff_eq.mp hp)
    exact ⟨v ++ u, by simp⟩
  · simp at hp

/-- The regions of an anchored shape end with a line break. -/
theorem exists_region_of_fits (hk : k.anchors s = true) (h : s.Fits o) :
    ∃ u, o.region = u ++ ['\n'] := by
  obtain ⟨u, hu⟩ := exists_of_endsInLineBreak (isAnchored hk).endsInLineBreak h.tail
  exact ⟨o.lead ++ o.marked ++ u, by rw [Occurrence.region, hu]; simp⟩

/-- An anchored shape stands at a region whatever follows it. -/
theorem fits_withAfter (hk : k.anchors s = true) (h : s.Fits o) (t : Text) :
    s.Fits { o with after := t } := by
  have hanchored := isAnchored hk
  have hmarked : Pattern.Takes (s.marked ++ s.tail) (o.marked ++ o.tail) o.after :=
    Pattern.takes_append.mpr ⟨o.marked, o.tail, rfl, h.marked, h.tail⟩
  -- each part is followed by the start of the next one, or ends with a word
  have hlead : s.lead.Takes o.lead (o.marked ++ o.tail ++ t) :=
    Pattern.takes_left_of_isClosed hanchored.isClosed hanchored.isClosed_rest h.lead hmarked
  have hmark : s.marked.Takes o.marked (o.tail ++ t) :=
    Pattern.takes_left_of_isClosed hanchored.isClosed_rest hanchored.isClosed_tail h.marked h.tail
  exact ⟨h.endsLine, hlead, hmark, (Pattern.takes_of_isClosed hanchored.isClosed_tail h.tail).2 t⟩

/-- A shape stands at a region wherever a line starts. -/
theorem fits_withBefore (h : s.Fits o) (ht : t.EndsLine) : s.Fits { o with before := t } :=
  ⟨ht, h.lead, h.marked, h.tail⟩

/-- **No region of a shape that shuts an opening out reaches over a line that opens.** -/
theorem exists_of_opens (hshut : k.isShut s.pattern = true) (hclosed : s.pattern.isClosed = true)
    (h : s.Fits o) (htext : o.text = x ++ y) (hx : x.EndsLine) (hy : k.Opens y)
    (hlt : o.before.length < x.length) : ∃ z, x = o.before ++ o.region ++ z ∧ o.after = z ++ y := by
  obtain ⟨u, rfl, hafter⟩ := Occurrence.exists_lines_of_lt htext hx hlt
  rcases List.append_eq_append_iff.mp hafter with ⟨z, hz, hz'⟩ | ⟨b, hregion, hb⟩
  · exact ⟨z, by rw [hz, List.append_assoc], hz'⟩
  · cases b with
    | nil => exact ⟨[], by simp [hregion], by simpa using hb.symm⟩
    | cons c b =>
      -- the line that opens would start inside the region
      have hshut' := not_opens_of_isShut (u := u) (v := c :: b) hshut hclosed h.takes
        (by simp [hregion]) (by simp)
      exact absurd (hb ▸ hy) hshut'

/-- Regions that are anchored at one opening do not overlap. -/
theorem exists_of_lt (hk : k.anchors s = true) (hk' : k.anchors s' = true) (h : s.Fits o)
    (h' : s'.Fits o') (htext : o.text = o'.text) (hlt : o.before.length < o'.before.length) :
    ∃ z, o'.before = o.before ++ o.region ++ z ∧ o.after = z ++ (o'.region ++ o'.after) := by
  have hanchored := isAnchored hk
  exact exists_of_opens hanchored.isShut hanchored.isClosed h (htext.trans o'.text_eq) h'.endsLine
    (opens_of_fits hk' h') hlt

/-- Shapes that are anchored at one opening keep clear of each other's regions. -/
theorem clear_of_anchors (hk : k.anchors s = true) (hk' : k.anchors s' = true) (h' : s'.Fits o') :
    s.Clear o' where
  endsLine := exists_region_of_fits hk' h'
  before _ h htext hlt := exists_of_lt hk hk' h h' htext hlt
  behind _ h htext hlt := exists_of_lt hk' hk h' h htext.symm hlt

/-! ## The search -/

/-- What the search finds at a place is where the shape stands with nothing else before it. -/
theorem mem_atLine?_iff {seen rest : Text} :
    o ∈ s.atLine? seen rest ↔
      s.Fits o ∧ o.text = seen.reverse ++ rest ∧ o.before.length = seen.length := by
  rw [Option.mem_def, Shape.atLine?_eq_some_iff, Occurrence.text_eq]
  constructor
  · rintro ⟨h, hbefore, rfl⟩
    exact ⟨h, by rw [hbefore], by rw [hbefore, List.length_reverse]⟩
  · rintro ⟨h, htext, hlen⟩
    obtain ⟨hbefore, hrest⟩ := List.append_inj htext (by rw [hlen, List.length_reverse])
    exact ⟨h, hbefore, hrest.symm⟩

/-- What stands where the search has found a region, or later, is that region or starts behind it. -/
theorem eq_or_le_of_atLine? {o₁ : Occurrence} (hk : k.anchors s = true) {seen rest : Text}
    (hfound : s.atLine? seen rest = some o₁) (h : s.Fits o) (htext : o.text = seen.reverse ++ rest)
    (hle : seen.length ≤ o.before.length) :
    o = o₁ ∨ seen.length + o₁.region.length ≤ o.before.length := by
  obtain ⟨h₁, htext₁, hlen₁⟩ := mem_atLine?_iff.mp hfound
  rcases Nat.lt_or_ge o₁.before.length o.before.length with hlt | hge
  · -- what starts inside the region does not open
    obtain ⟨z, hz, -⟩ := exists_of_lt hk hk h₁ h (htext₁.trans htext.symm) hlt
    have hlen := congrArg List.length hz
    simp only [List.length_append] at hlen
    exact .inr (by omega)
  · have hmem := mem_atLine?_iff.mpr ⟨h, htext, by omega⟩
    rw [Option.mem_def, hfound, Option.some.injEq] at hmem
    exact .inl hmem.symm

/-- The search finds the regions that start behind what it skips. -/
theorem mem_scan_iff (hk : k.anchors s = true) {seen rest : Text} {skip : Nat} :
    o ∈ s.scan seen skip rest ↔
      s.Fits o ∧ o.text = seen.reverse ++ rest ∧ seen.length + skip ≤ o.before.length := by
  -- each character moves the place of the search on, or takes one off what it skips
  induction rest generalizing seen skip with
  | nil =>
    have hlen : o.text = seen.reverse → o.before.length ≤ seen.length := by
      intro h
      have := congrArg List.length h
      simp only [Occurrence.text_eq, List.length_append, List.length_reverse] at this
      omega
    cases skip with
    | zero =>
      rw [Shape.scan, Option.mem_toList, ← Option.mem_def, mem_atLine?_iff, List.append_nil]
      constructor
      · rintro ⟨h, htext, heq⟩
        exact ⟨h, htext, by omega⟩
      · rintro ⟨h, htext, hle⟩
        exact ⟨h, htext, by have := hlen htext; omega⟩
    | succ skip =>
      simp only [Shape.scan, List.not_mem_nil, List.append_nil, false_iff, not_and]
      intro _ htext
      have := hlen htext
      omega
  | cons c cs ih =>
    have htext : o.text = seen.reverse ++ c :: cs ↔ o.text = (c :: seen).reverse ++ cs := by simp
    cases skip with
    | succ skip =>
      rw [Shape.scan, ih, htext, List.length_cons]
      constructor
      · rintro ⟨h, ht, hle⟩
        exact ⟨h, ht, by omega⟩
      · rintro ⟨h, ht, hle⟩
        exact ⟨h, ht, by omega⟩
    | zero =>
      rw [Shape.scan]
      split
      · rename_i hnone
        rw [ih, ← htext, List.length_cons]
        constructor
        · rintro ⟨h, ht, hle⟩
          exact ⟨h, ht, by omega⟩
        · rintro ⟨h, ht, hle⟩
          refine ⟨h, ht, ?_⟩
          have hne : o.before.length ≠ seen.length := fun heq => by
            have hmem := mem_atLine?_iff.mpr ⟨h, ht, heq⟩
            simp [hnone] at hmem
          omega
      · rename_i o₁ hfound
        obtain ⟨h₁, ht₁, hlen₁⟩ := mem_atLine?_iff.mp hfound
        obtain ⟨u, hu⟩ := exists_region_of_fits hk h₁
        have hpos : 0 < o₁.region.length := by simp [hu]
        rw [List.mem_cons, ih, ← htext, List.length_cons]
        constructor
        · rintro (rfl | ⟨h, ht, hle⟩)
          · exact ⟨h₁, ht₁, by omega⟩
          · exact ⟨h, ht, by omega⟩
        · rintro ⟨h, ht, hle⟩
          refine (eq_or_le_of_atLine? hk hfound h ht hle).imp_right fun hbehind => ?_
          exact ⟨h, ht, by omega⟩

/-- **The search for an anchored shape finds the places where the shape stands.** -/
theorem mem_occurrences_iff (hk : k.anchors s = true) :
    o ∈ s.occurrences t ↔ s.Fits o ∧ o.text = t := by
  rw [Shape.occurrences, mem_scan_iff hk]
  simp

/-- The regions are found from left to right. -/
theorem pairwise_scan (hk : k.anchors s = true) (seen : Text) (skip : Nat) (rest : Text) :
    (s.scan seen skip rest).Pairwise fun o o' => o.before.length < o'.before.length := by
  induction rest generalizing seen skip with
  | nil =>
    cases skip with
    | zero =>
      rw [Shape.scan]
      cases s.atLine? seen [] <;> simp
    | succ skip => simp [Shape.scan]
  | cons c cs ih =>
    cases skip with
    | succ skip =>
      rw [Shape.scan]
      exact ih _ _
    | zero =>
      rw [Shape.scan]
      split
      · exact ih _ _
      · rename_i o₁ hfound
        refine List.pairwise_cons.mpr ⟨fun o ho => ?_, ih _ _⟩
        obtain ⟨-, -, hlen₁⟩ := mem_atLine?_iff.mp hfound
        obtain ⟨-, -, hle⟩ := (mem_scan_iff hk).mp ho
        rw [List.length_cons] at hle
        omega

/-- The occurrences of an anchored shape are distinct. -/
theorem nodup_occurrences (hk : k.anchors s = true) (t : Text) : (s.occurrences t).Nodup :=
  (pairwise_scan hk [] 0 t).imp fun h heq => by
    rw [heq] at h
    exact absurd h (Nat.lt_irrefl _)

/-- A shape has one region in a text exactly when it stands there and nowhere else. -/
theorem occurrences_eq_singleton_iff (hk : k.anchors s = true) :
    s.occurrences t = [o] ↔ s.Fits o ∧ o.text = t ∧ ∀ o', s.Fits o' → o'.text = t → o' = o := by
  constructor
  · intro h
    have hmem : ∀ o', o' ∈ s.occurrences t ↔ o' = o := by simp [h]
    simp only [mem_occurrences_iff hk] at hmem
    obtain ⟨h₁, h₂⟩ := (hmem o).mpr rfl
    exact ⟨h₁, h₂, fun o' h h' => (hmem o').mp ⟨h, h'⟩⟩
  · rintro ⟨h₁, h₂, hall⟩
    have hmem : o ∈ s.occurrences t := (mem_occurrences_iff hk).mpr ⟨h₁, h₂⟩
    obtain ⟨l, l', hl⟩ := List.append_of_mem hmem
    have heq : ∀ o' ∈ s.occurrences t, o' = o := fun o' h' =>
      let ⟨hfits, htext⟩ := (mem_occurrences_iff hk).mp h'
      hall o' hfits htext
    have hnodup := nodup_occurrences hk t
    rw [hl] at hnodup heq
    rw [List.nodup_append, List.nodup_cons] at hnodup
    obtain ⟨-, ⟨hl', -⟩, hdisjoint⟩ := hnodup
    -- another member of the list would be the same occurrence once more
    have hnil : l = [] := List.eq_nil_iff_forall_not_mem.mpr fun a ha =>
      hdisjoint a ha o (by simp) (heq a (by simp [ha]))
    have hnil' : l' = [] := List.eq_nil_iff_forall_not_mem.mpr fun a ha =>
      hl' (heq a (by simp [ha]) ▸ ha)
    rw [hl, hnil, hnil', List.nil_append]

/-! ## Around a region -/

/-- Two lists of occurrences from left to right that have the same members are the same. -/
theorem eq_of_mem_iff {l l' : List Occurrence}
    (h : l.Pairwise fun o o' => o.before.length < o'.before.length)
    (h' : l'.Pairwise fun o o' => o.before.length < o'.before.length)
    (hmem : ∀ o, o ∈ l ↔ o ∈ l') : l = l' := by
  have hne : ∀ {o o' : Occurrence}, o.before.length < o'.before.length → o ≠ o' := by
    rintro o _ hlt rfl
    exact absurd hlt (Nat.lt_irrefl _)
  -- lists without repetition that have the same members are permutations
  have hperm := (List.perm_ext_iff_of_nodup (h.imp hne) (h'.imp hne)).mpr hmem
  exact List.Perm.eq_of_pairwise (fun o o' _ _ hlt hgt => absurd hgt (Nat.lt_asymm hlt)) h h' hperm

/-- The regions in the text before a region. -/
theorem mem_map_within_before (hk : k.anchors s = true) (hclear : s.Clear o') :
    o ∈ (s.occurrences o'.before).map (Occurrence.within [] (o'.region ++ o'.after)) ↔
      s.Fits o ∧ o.text = o'.text ∧ o.before.length < o'.before.length := by
  rw [List.mem_map]
  constructor
  · rintro ⟨p, hp, rfl⟩
    obtain ⟨hfits, htext⟩ := (mem_occurrences_iff hk).mp hp
    refine ⟨fits_withAfter hk hfits _, ?_, ?_⟩
    · rw [o'.text_eq, ← htext]
      simp [Occurrence.within, Occurrence.text, Occurrence.region]
    · obtain ⟨u, hu⟩ := exists_region_of_fits hk hfits
      rw [← htext, p.text_eq, hu]
      simp only [Occurrence.within, List.nil_append, List.length_append, List.length_singleton]
      omega
  · rintro ⟨hfits, htext, hlt⟩
    obtain ⟨z, hbefore, hafter⟩ := hclear.before o hfits htext hlt
    refine ⟨{ o with after := z }, (mem_occurrences_iff hk).mpr ⟨fits_withAfter hk hfits z, ?_⟩, ?_⟩
    · rw [hbefore]
      rfl
    · simp [Occurrence.within, ← hafter]

/-- The regions in the text behind a region. -/
theorem mem_map_within_after (hk : k.anchors s = true) (hclear : s.Clear o') :
    o ∈ (s.occurrences o'.after).map (Occurrence.within (o'.before ++ o'.region) []) ↔
      s.Fits o ∧ o.text = o'.text ∧ o'.before.length < o.before.length := by
  obtain ⟨u, hu⟩ := hclear.endsLine
  rw [List.mem_map]
  constructor
  · rintro ⟨p, hp, rfl⟩
    obtain ⟨hfits, htext⟩ := (mem_occurrences_iff hk).mp hp
    refine ⟨?_, ?_, ?_⟩
    · have hline : Text.EndsLine (o'.before ++ o'.region ++ p.before) := by
        by_cases hp : p.before = []
        · rw [hp, hu, List.append_nil, ← List.append_assoc]
          exact Text.endsLine_append_newline _
        · rw [Text.endsLine_append_iff hp]
          exact hfits.endsLine
      simpa [Occurrence.within] using fits_withBefore hfits hline
    · rw [o'.text_eq, ← htext]
      simp [Occurrence.within, Occurrence.text, Occurrence.region]
    · simp only [Occurrence.within, List.length_append, hu, List.length_singleton]
      omega
  · rintro ⟨hfits, htext, hlt⟩
    obtain ⟨z, hbefore, hafter⟩ := hclear.behind o hfits htext hlt
    -- the text behind the region starts a line, and so does what stands there
    have hline : z.EndsLine := by
      by_cases hz : z = []
      · rw [hz]
        exact Text.endsLine_nil
      · have hends := hfits.endsLine
        rwa [hbefore, Text.endsLine_append_iff hz] at hends
    refine ⟨{ o with before := z }, (mem_occurrences_iff hk).mpr ⟨fits_withBefore hfits hline, ?_⟩,
      ?_⟩
    · rw [hafter, Occurrence.text_eq]
      rfl
    · simp [Occurrence.within, ← hbefore]

/-- **Around a region, the search finds what it finds in the text before the region, at the region,
and in the text behind it.** -/
theorem occurrences_around (hk : k.anchors s = true) (hclear : s.Clear o') :
    s.occurrences o'.text =
      (s.occurrences o'.before).map (Occurrence.within [] (o'.region ++ o'.after)) ++
        (Shape.startingAt? s o').toList ++
          (s.occurrences o'.after).map (Occurrence.within (o'.before ++ o'.region) []) := by
  have hhere : ∀ o, o ∈ (Shape.startingAt? s o').toList ↔
      s.Fits o ∧ o.text = o'.text ∧ o.before.length = o'.before.length := by
    intro o
    rw [Option.mem_toList, ← Option.mem_def, Shape.startingAt?, mem_atLine?_iff, List.reverse_reverse,
      List.length_reverse, o'.text_eq]
  refine eq_of_mem_iff (pairwise_scan hk [] 0 _) ?_ fun o => ?_
  · refine List.pairwise_append.mpr ⟨List.pairwise_append.mpr ⟨?_, ?_, ?_⟩, ?_, ?_⟩
    · refine List.Pairwise.map _ (fun _ _ h => ?_) (pairwise_scan hk [] 0 _)
      simpa [Occurrence.within] using h
    · cases Shape.startingAt? s o' <;> simp
    · intro o ho p hp
      have h₁ := ((mem_map_within_before hk hclear).mp ho).2.2
      have h₂ := ((hhere p).mp hp).2.2
      omega
    · refine List.Pairwise.map _ (fun _ _ h => ?_) (pairwise_scan hk [] 0 _)
      simpa [Occurrence.within] using h
    · intro o ho p hp
      have h₂ := ((mem_map_within_after hk hclear).mp hp).2.2
      rcases List.mem_append.mp ho with ho | ho
      · have h₁ := ((mem_map_within_before hk hclear).mp ho).2.2
        omega
      · have h₁ := ((hhere o).mp ho).2.2
        omega
  · rw [mem_occurrences_iff hk, List.mem_append, List.mem_append,
      mem_map_within_before hk hclear, hhere, mem_map_within_after hk hclear]
    -- a region starts before the given one, with it, or behind it
    constructor
    · rintro ⟨hfits, htext⟩
      rcases Nat.lt_trichotomy o.before.length o'.before.length with h | h | h
      · exact .inl (.inl ⟨hfits, htext, h⟩)
      · exact .inl (.inr ⟨hfits, htext, h⟩)
      · exact .inr ⟨hfits, htext, h⟩
    · rintro ((⟨hfits, htext, -⟩ | ⟨hfits, htext, -⟩) | ⟨hfits, htext, -⟩)
      all_goals exact ⟨hfits, htext⟩

/-- A shape that stands in neither text around a region stands nowhere but where the region starts. -/
theorem occurrences_eq_startingAt? (hk : k.anchors s = true) (hclear : s.Clear o')
    (hbefore : s.occurrences o'.before = []) (hafter : s.occurrences o'.after = []) :
    s.occurrences o'.text = (Shape.startingAt? s o').toList := by
  rw [occurrences_around hk hclear, hbefore, hafter, List.map_nil, List.map_nil, List.nil_append,
    List.append_nil]

/-- The marked parts of the regions around a region. -/
theorem map_marked_occurrences (hk : k.anchors s = true) (hclear : s.Clear o') :
    (s.occurrences o'.text).map Occurrence.marked =
      (s.occurrences o'.before).map Occurrence.marked ++
        (Shape.startingAt? s o').toList.map Occurrence.marked ++
          (s.occurrences o'.after).map Occurrence.marked := by
  rw [occurrences_around hk hclear, List.map_append, List.map_append, List.map_map, List.map_map]
  rfl

/-! ## One region in place of another -/

section Replaced

variable {o₁ o₂ : Occurrence} (hk : k.anchors s = true) (hclear₁ : s.Clear o₁)
  (hclear₂ : s.Clear o₂) (hbefore : o₂.before = o₁.before) (hafter : o₂.after = o₁.after)

include hk hclear₁ hclear₂ hbefore hafter

/-- A shape that stands at neither region keeps its marked parts. -/
theorem map_marked_of_replaced (hnot₁ : Shape.startingAt? s o₁ = none)
    (hnot₂ : Shape.startingAt? s o₂ = none) :
    (s.occurrences o₂.text).map Occurrence.marked
      = (s.occurrences o₁.text).map Occurrence.marked := by
  rw [map_marked_occurrences hk hclear₁, map_marked_occurrences hk hclear₂, hbefore, hafter, hnot₁,
    hnot₂]

/-- A shape that stands at the new region only is found once more. -/
theorem length_occurrences_of_replaced (hnot₁ : Shape.startingAt? s o₁ = none) (hfits : s.Fits o₂) :
    (s.occurrences o₂.text).length = (s.occurrences o₁.text).length + 1 := by
  rw [occurrences_around hk hclear₁, occurrences_around hk hclear₂, hbefore, hafter, hnot₁,
    Shape.startingAt?_of_fits hfits]
  simp only [List.length_append, List.length_map, Option.toList_some, Option.toList_none,
    List.length_singleton, List.length_nil]
  omega

/-- If a shape stands nowhere but at the old region, then it stands nowhere but at the new one. -/
theorem occurrences_of_replaced (hall : ∀ o ∈ s.occurrences o₁.text, o.before = o₁.before) :
    s.occurrences o₂.text = (Shape.startingAt? s o₂).toList := by
  have hnotBefore : s.occurrences o₁.before = [] := by
    refine List.eq_nil_iff_forall_not_mem.mpr fun o ho => ?_
    obtain ⟨hfits, htext, hlt⟩ :=
      (mem_map_within_before hk hclear₁).mp (List.mem_map_of_mem ho)
    rw [hall _ ((mem_occurrences_iff hk).mpr ⟨hfits, htext⟩)] at hlt
    exact absurd hlt (Nat.lt_irrefl _)
  have hnotAfter : s.occurrences o₁.after = [] := by
    refine List.eq_nil_iff_forall_not_mem.mpr fun o ho => ?_
    obtain ⟨hfits, htext, hlt⟩ :=
      (mem_map_within_after hk hclear₁).mp (List.mem_map_of_mem ho)
    rw [hall _ ((mem_occurrences_iff hk).mpr ⟨hfits, htext⟩)] at hlt
    exact absurd hlt (Nat.lt_irrefl _)
  exact occurrences_eq_startingAt? hk hclear₂ (hbefore ▸ hnotBefore) (hafter ▸ hnotAfter)

end Replaced

end Opening

end SitePatch
