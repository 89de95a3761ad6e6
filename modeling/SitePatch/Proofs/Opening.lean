import SitePatch.Proofs.Pattern

/-! # Lines that open a region

A region starts with a line that opens it: a keyword, and behind it what tells this use of the
keyword from others. An `Opening` names the two. `Opening.isShut` reads off a pattern that no line
opens inside what the pattern takes; main statement: what it reads off is true
(`Opening.not_opens_of_isShut`). Line breaks only stand in runs, so what counts is the character
that ends a run. -/

namespace SitePatch

/-- **An opening**: a keyword, and what follows it up to white space. -/
structure Opening where
  word : Text
  next : Text

namespace Opening

/-- The text starts with the opening, up to white space. -/
def Opens (k : Opening) (t : Text) : Prop :=
  ∃ i g rest, t = i ++ k.word ++ g ++ k.next ++ rest ∧
    (∀ c ∈ i, Text.isBlank c = true) ∧ ∀ c ∈ g, Text.isBlank c = true

/-- The opening as a pattern. -/
def words (k : Opening) : Pattern :=
  [.atom (.lit k.word), .atom (.run .blank 0), .atom (.lit k.next)]

/-- Whether neither word of the opening starts with white space. -/
def isSolid (k : Opening) : Bool :=
  (k.word.head?.any fun c => !Text.isBlank c) && k.next.head?.any fun c => !Text.isBlank c

/-- Whether no opening starts in a run of the class that is ended by the pattern `ps`: behind white
space the pattern would have to start like the opening, and other characters have to leave out one
of the opening's. -/
def shuts (k : Opening) : CharClass → (ps : Pattern) → Bool
  | .blank, ps => k.isSolid && ps.firstChar?.isSome && Pattern.apart k.words ps.dropBlank
  | .noneOf cs, ps =>
    ps.firstChar?.any fun d =>
      !k.word.contains d && !k.next.contains d && k.next.any fun e => cs.contains e && !Text.isBlank e
  | .oneOf _, _ => false

/-- Whether no line opens inside what the atom takes. The pieces `ps` stand behind the atom; `last`
says that there are no others. -/
def shutsAtom (k : Opening) : Atom → (ps : Pattern) → (last : Bool) → Bool
  | .lit w, _, last => !w.contains '\n' || last && !w.dropLast.contains '\n'
  | .run cls _, ps, _ => !cls.has '\n' || k.shuts cls ps
  | .lineGap, ps, _ => k.shuts .blank ps
  | .wordEnd, _, _ => true

/-- Whether no line opens inside what a round takes. -/
def isShutRound (k : Opening) : List Atom → Bool
  | [] => true
  | a :: as => k.shutsAtom a (Atom.sequence as) false && isShutRound k as

/-- **Whether no line opens inside what the pattern takes.** -/
def isShut (k : Opening) : Pattern → Bool
  | [] => true
  | .atom a :: ps => k.shutsAtom a ps ps.isEmpty && isShut k ps
  | .rounds as :: ps => k.isShutRound as && isShut k ps

variable {k : Opening} {u v w w₁ w₂ r t : Text} {ps : Pattern}

/-- A line that opens starts with the opening's words, behind white space. -/
theorem exists_takes_words (hk : k.isSolid = true) (h : k.Opens t) :
    ∃ i c x rest, t = i ++ c :: (x ++ rest) ∧ (∀ d ∈ i, Text.isBlank d = true) ∧
      Text.isBlank c = false ∧ k.words.Takes (c :: x) rest := by
  obtain ⟨i, g, rest, rfl, hi, hg⟩ := h
  obtain ⟨word, next⟩ := k
  cases word with
  | nil => simp [isSolid] at hk
  | cons c cs =>
    cases next with
    | nil => simp [isSolid] at hk
    | cons d ds =>
      simp only [isSolid, List.head?_cons, Option.any_some, Bool.and_eq_true,
        Bool.not_eq_true'] at hk
      refine ⟨i, c, cs ++ (g ++ d :: ds), rest, by simp, hi, hk.1, ?_⟩
      refine Pattern.takes_cons.mpr ⟨c :: cs, g ++ d :: ds, rfl, by simp, ?_⟩
      refine Pattern.takes_cons.mpr ⟨g, d :: ds, rfl, ?_, Pattern.takes_singleton.mpr (by simp)⟩
      rw [Piece.takes_atom, Atom.takes_run]
      exact ⟨hg, Nat.zero_le _, Text.stopsAt_cons.mpr hk.2⟩

/-- A character outside an opening stands behind it. -/
theorem exists_of_opens_append {d : Char} (hword : d ∉ k.word) (hnext : d ∉ k.next)
    (hd : Text.isBlank d = false) (h : k.Opens (u ++ d :: t)) : ∀ e ∈ k.next, e ∈ u := by
  obtain ⟨i, g, rest, heq, hi, hg⟩ := h
  have hmem : d ∉ i ++ k.word ++ g ++ k.next := by
    simp only [List.mem_append, not_or]
    exact ⟨⟨⟨fun h => by simp [hi d h] at hd, hword⟩, fun h => by simp [hg d h] at hd⟩, hnext⟩
  -- the opening, which lacks the character, ends in front of it
  rcases List.append_eq_append_iff.mp heq with ⟨a, ha, hrest⟩ | ⟨b, hb, -⟩
  · cases a with
    | nil =>
      intro e he
      rw [List.append_nil] at ha
      rw [← ha]
      simp [he]
    | cons a as =>
      simp only [List.cons_append, List.cons.injEq] at hrest
      exact absurd (by rw [ha, hrest.1]; simp) hmem
  · intro e he
    rw [hb]
    simp [he]

/-- No opening starts in a run that shuts it out. -/
theorem not_opens_of_shuts {cls : CharClass} (hs : k.shuts cls ps = true)
    (hu : ∀ c ∈ u, cls.has c = true) (hps : ps.Takes w r) : ¬ k.Opens (u ++ (w ++ r)) := by
  cases cls with
  | oneOf cs => simp [shuts] at hs
  | blank =>
    intro hopens
    simp only [shuts, Bool.and_eq_true] at hs
    obtain ⟨⟨hk, hsome⟩, hapart⟩ := hs
    obtain ⟨d, hd⟩ := Option.isSome_iff_exists.mp hsome
    obtain ⟨hdb, g, x, rfl, hg, htakes⟩ := Pattern.exists_takes_dropBlank hd hps
    obtain ⟨i, c, y, rest, htext, hi, hcb, hwords⟩ := exists_takes_words hk hopens
    have hblank : ∀ e ∈ u ++ g, Text.isBlank e = true :=
      fun e he => (List.mem_append.mp he).elim (hu e) (hg e)
    have hcut : (u ++ g) ++ d :: (x ++ r) = i ++ c :: (y ++ rest) := by
      rw [← htext]
      simp
    -- behind the white space, the pattern and the opening would take the start of one text
    obtain ⟨-, rfl, hrest⟩ := Text.blank_append_inj hblank hi hdb hcb hcut
    apply Pattern.ne_of_apart hapart hwords htakes
    rw [List.cons_append, List.cons_append, hrest]
  | noneOf cs =>
    intro h
    simp only [shuts, Option.any_eq_true, Bool.and_eq_true, Bool.not_eq_true', List.contains_eq_mem,
      decide_eq_false_iff_not, List.any_eq_true, decide_eq_true_eq] at hs
    obtain ⟨d, hd, ⟨hword, hnext⟩, e, he, hcs, hblank⟩ := hs
    obtain ⟨hdb, g, x, rfl, hg⟩ := Pattern.exists_of_firstChar? hd hps
    rw [List.append_assoc, List.cons_append, ← List.append_assoc] at h
    -- a character of the opening would stand in the run, or in the white space behind it
    rcases List.mem_append.mp (exists_of_opens_append hword hnext hdb h e he) with heu | heg
    · have := hu e heu
      simp [CharClass.has, hcs] at this
    · simp [hg e heg] at hblank

/-- No line opens inside what an atom takes that shuts the opening out. -/
theorem not_opens_of_shutsAtom {a : Atom} {last : Bool} (hs : k.shutsAtom a ps last = true)
    (ha : a.Takes w₁ (w₂ ++ r)) (hps : ps.Takes w₂ r) (hw : w₁ = u ++ '\n' :: v)
    (hlast : last = true → v ≠ []) : ¬ k.Opens (v ++ (w₂ ++ r)) := by
  -- the line break stands in a run, and `ps` ends the run
  have hrun : ∀ cls : CharClass, (∀ c ∈ w₁, cls.has c = true) → k.shuts cls ps = true →
      ¬ k.Opens (v ++ (w₂ ++ r)) := by
    intro cls hcls hshuts
    exact not_opens_of_shuts hshuts (fun c hc => hcls c (by simp [hw, hc])) hps
  cases a with
  | lit word =>
    rw [Atom.takes_lit] at ha
    subst ha
    simp only [shutsAtom, hw, Bool.or_eq_true, Bool.not_eq_true', List.contains_eq_mem,
      List.mem_append, List.mem_cons, true_or, or_true, decide_true, Bool.true_eq_false,
      false_or, Bool.and_eq_true, decide_eq_false_iff_not] at hs
    have hv := hlast hs.1
    rw [List.dropLast_append_of_ne_nil (by simp), List.dropLast_cons_of_ne_nil hv] at hs
    exact absurd hs.2 (by simp)
  | run cls n =>
    rw [Atom.takes_run] at ha
    simp only [shutsAtom, Bool.or_eq_true, Bool.not_eq_true'] at hs
    refine hrun cls ha.1 (hs.resolve_left fun h => ?_)
    have := ha.1 '\n' (by simp [hw])
    simp [h] at this
  | lineGap =>
    rw [Atom.takes_lineGap] at ha
    exact hrun .blank ha.1 (by simpa [shutsAtom] using hs)
  | wordEnd =>
    rw [Atom.takes_wordEnd] at ha
    simp [ha.1] at hw

/-- No line opens inside what a round takes, or at its end. -/
theorem not_opens_of_isShutRound {as : List Atom} (hs : k.isShutRound as = true)
    (h : (Atom.sequence as).Takes w r) (hw : w = u ++ '\n' :: v) : ¬ k.Opens (v ++ r) := by
  induction as generalizing w u v with
  | nil =>
    have hnil := Pattern.takes_nil.mp h
    simp [hnil] at hw
  | cons a as ih =>
    rw [isShutRound, Bool.and_eq_true] at hs
    obtain ⟨w₁, w₂, rfl, h₁, h₂⟩ := Pattern.takes_cons.mp h
    rcases List.append_eq_append_iff.mp hw with ⟨u₂, rfl, hw₂⟩ | ⟨v₁, hw₁, hv⟩
    · exact ih hs.2 h₂ hw₂
    · cases v₁ with
      | nil =>
        rw [List.nil_append] at hv
        exact ih hs.2 h₂ (u := []) hv.symm
      | cons c v₁ =>
        simp only [List.cons_append, List.cons.injEq] at hv
        obtain ⟨rfl, rfl⟩ := hv
        rw [List.append_assoc]
        exact not_opens_of_shutsAtom hs.1 h₁ h₂ hw₁ (by simp)

/-- No line opens inside rounds that stand one behind the other, or at their end. -/
theorem not_opens_of_mem_rounds {as : List Atom} {rs : List Text} (hs : k.isShutRound as = true)
    (has : Atom.endsInWord as = true) (hrs : ∀ r ∈ rs, (Atom.sequence as).Takes r [])
    (hw : rs.flatten = u ++ '\n' :: v) : ¬ k.Opens (v ++ r) := by
  induction rs generalizing u with
  | nil => simp at hw
  | cons r₁ rs ih =>
    rw [List.flatten_cons] at hw
    have hr₁ := (Atom.takes_of_endsInWord has (hrs r₁ (by simp))).2
    rcases List.append_eq_append_iff.mp hw with ⟨u₂, rfl, hw₂⟩ | ⟨v₁, hw₁, hv⟩
    · exact ih (fun r' h => hrs r' (List.mem_cons_of_mem _ h)) hw₂
    · cases v₁ with
      | nil => exact ih (fun r' h => hrs r' (List.mem_cons_of_mem _ h)) (u := []) hv.symm
      | cons c v₁ =>
        simp only [List.cons_append, List.cons.injEq] at hv
        obtain ⟨rfl, rfl⟩ := hv
        rw [List.append_assoc]
        exact not_opens_of_isShutRound hs (hr₁ _) hw₁

/-- **No line opens inside what a pattern takes that shuts the opening out.** -/
theorem not_opens_of_isShut {p : Pattern} (hs : k.isShut p = true) (hp : p.isClosed = true)
    (h : p.Takes w r) (hw : w = u ++ '\n' :: v) (hv : v ≠ []) : ¬ k.Opens (v ++ r) := by
  induction p generalizing w u v with
  | nil => simp [Pattern.isClosed] at hp
  | cons a ps ih =>
    obtain ⟨w₁, w₂, rfl, h₁, h₂⟩ := Pattern.takes_cons.mp h
    have hsp : isShut k ps = true := by
      cases a <;> simp_all [isShut]
    -- a line break in the first piece, with something of the piece or of the others behind it
    have hfirst : ∀ v₁, w₁ = u ++ '\n' :: v₁ → v = v₁ ++ w₂ → ¬ k.Opens (v₁ ++ (w₂ ++ r)) := by
      intro v₁ hw₁ hv₁
      cases a with
      | atom a =>
        rw [isShut, Bool.and_eq_true] at hs
        refine not_opens_of_shutsAtom hs.1 h₁ h₂ hw₁ fun hlast => ?_
        rw [List.isEmpty_iff.mp hlast, Pattern.takes_nil] at h₂
        rw [h₂, List.append_nil] at hv₁
        exact hv₁ ▸ hv
      | rounds as =>
        rw [isShut, Bool.and_eq_true] at hs
        rw [Pattern.isClosed, Bool.and_eq_true, Bool.and_eq_true] at hp
        obtain ⟨rs, -, rfl, hrs, -⟩ := (Pattern.takes_rounds_iff_of_endsInWord hp.1.1).mp h₁
        exact not_opens_of_mem_rounds hs.1 hp.1.1 hrs hw₁
    -- the line break stands in what the other pieces take, or in what the first one takes
    rcases List.append_eq_append_iff.mp hw with ⟨u₂, rfl, hw₂⟩ | ⟨v₁, hw₁, hv₁⟩
    · have hps : ps ≠ [] := by
        rintro rfl
        simp [Pattern.takes_nil.mp h₂] at hw₂
      exact ih hsp (Pattern.isClosed_of_cons hp hps) h₂ hw₂ hv
    · cases v₁ with
      | nil =>
        have hps : ps ≠ [] := by
          rintro rfl
          simp [Pattern.takes_nil.mp h₂] at hv₁
        exact ih hsp (Pattern.isClosed_of_cons hp hps) h₂ (u := []) hv₁.symm hv
      | cons c v₁ =>
        simp only [List.cons_append, List.cons.injEq] at hv₁
        obtain ⟨rfl, rfl⟩ := hv₁
        rw [List.append_assoc]
        exact hfirst v₁ hw₁ rfl

end Opening

end SitePatch
