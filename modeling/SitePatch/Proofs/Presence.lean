import SitePatch.Proofs.Luau
import SitePatch.Proofs.Settled

/-! # Checks and longer identifiers

A check is looked for as a stretch of text. Where it is found, the identifiers at its ends may be
longer than the check says: the field may be the end of a longer name, and a base name without
quotes the start of one. So a text in which all checks are found need not have them as whole tokens
(`Text.occursIn_iff_partOf`). The conditions of the linter are an exception: everything in them is
matched, so a check is found there as a whole token only (`Luau.linter_check_delimited`). Main
statement: what it means that a site finds its checks (`Luau.presence_iff`). -/

namespace SitePatch

/-! ## Identifiers at the ends of a text -/

namespace Text

variable {needle t u v : Text} {c : Char}

/-- The text does not end with a character of identifiers. -/
def EndsFree (t : Text) : Prop := ∀ c ∈ t.getLast?, isIdentChar c = false

/-- Whether the text ends with a character of identifiers. -/
def endsInWord (t : Text) : Bool := t.getLast?.any isIdentChar

/-- The last character decides whether a text ends an identifier. -/
theorem all_getLast?_iff_endsFree :
    (t.getLast?.all fun c => !isIdentChar c) = true ↔ t.EndsFree := by
  rw [Option.all_eq_true, EndsFree]
  simp

instance (t : Text) : Decidable t.EndsFree :=
  decidable_of_decidable_of_iff all_getLast?_iff_endsFree

/-- White space is no character of identifiers. -/
theorem not_isIdentChar_of_isBlank (h : isBlank c = true) : isIdentChar c = false := by
  cases hc : isIdentChar c with
  | false => rfl
  | true =>
    rw [not_isBlank_of_isIdentChar hc] at h
    exact absurd h (by simp)

/-- Only the last character decides whether a text ends with an identifier. -/
theorem endsFree_append_iff (hv : v ≠ []) : (u ++ v).EndsFree ↔ v.EndsFree := by
  rw [EndsFree, EndsFree, List.getLast?_append, List.getLast?_eq_some_getLast hv, Option.some_or]

/-- Texts that end no identifier end none together. -/
theorem EndsFree.append (hu : u.EndsFree) (hv : v.EndsFree) : (u ++ v).EndsFree := by
  by_cases hne : v = []
  · rwa [hne, List.append_nil]
  · exact (endsFree_append_iff hne).mpr hv

/-- White space ends no identifier. -/
theorem endsFree_of_blank (hv : ∀ c ∈ v, isBlank c = true) : v.EndsFree :=
  fun c hc => not_isIdentChar_of_isBlank (hv c (List.mem_of_getLast? hc))

/-- **The text stands in another as a whole token**: no character of identifiers comes before it,
and none behind it if it ends with one. -/
def DelimitedIn (needle t : Text) : Prop :=
  ∃ before after, t = before ++ needle ++ after ∧ before.EndsFree ∧
    (needle.endsInWord = true → after.StopsAt isIdentChar)

/-- A text stands in another as a whole token if it does so at some offset. -/
theorem delimitedIn_iff_exists_lt :
    (∃ k < t.length + 1, needle <+: t.drop k ∧ EndsFree (t.take k) ∧
      (needle.endsInWord = true → StopsAt isIdentChar (t.drop (k + needle.length)))) ↔
        needle.DelimitedIn t := by
  constructor
  · rintro ⟨k, -, ⟨after, hafter⟩, hbefore, hstop⟩
    have htext : t = t.take k ++ needle ++ after := by
      rw [List.append_assoc, hafter, List.take_append_drop]
    have hrest : t.drop (k + needle.length) = after := by
      rw [← List.drop_drop, ← hafter, List.drop_left]
    exact ⟨t.take k, after, htext, hbefore, hrest ▸ hstop⟩
  · rintro ⟨before, after, rfl, hbefore, hstop⟩
    have hdrop : (before ++ needle ++ after).drop before.length = needle ++ after := by
      rw [List.append_assoc, List.drop_left]
    refine ⟨before.length, ?_, ?_, ?_, ?_⟩
    · simp only [List.length_append]
      omega
    · rw [hdrop]
      exact List.prefix_append ..
    · rwa [List.append_assoc, List.take_left]
    · rwa [← List.drop_drop, hdrop, List.drop_left]

instance (needle t : Text) : Decidable (needle.DelimitedIn t) :=
  decidable_of_iff _ delimitedIn_iff_exists_lt

/-- What stands in a text as a whole token occurs there. -/
theorem DelimitedIn.occursIn (h : needle.DelimitedIn t) : needle.occursIn t = true := by
  obtain ⟨before, after, rfl, -⟩ := h
  exact occursIn_iff.mpr ⟨before, after, rfl⟩

/-- The longest word at the start of a text. -/
theorem exists_word_start (t : Text) : ∃ w u, t = w ++ u ∧ w.IsWord ∧ u.StopsAt isIdentChar := by
  refine ⟨t.takeWhile isIdentChar, t.dropWhile isIdentChar,
    List.takeWhile_append_dropWhile.symm, List.all_eq_true.mp List.all_takeWhile, ?_⟩
  intro c hc
  have hhead := List.head?_dropWhile_not isIdentChar t
  rw [Option.mem_def.mp hc] at hhead
  simpa using hhead

/-- The longest word at the end of a text. -/
theorem exists_word_end (t : Text) : ∃ u w, t = u ++ w ∧ u.EndsFree ∧ w.IsWord := by
  obtain ⟨w, u, ht, hw, hu⟩ := exists_word_start t.reverse
  refine ⟨u.reverse, w.reverse, ?_, ?_, ?_⟩
  · rw [← List.reverse_append, ← ht, List.reverse_reverse]
  · intro c hc
    exact hu c (by rwa [List.getLast?_reverse] at hc)
  · intro c hc
    exact hw c (List.mem_reverse.mp hc)

/-- **The text is a whole token of another, or part of one**: the token `x ++ needle ++ y` may go on
with the identifier at its start, and with the one at its end if it ends like one. -/
def PartOf (needle t : Text) : Prop :=
  ∃ x y : Text, x.IsWord ∧ y.IsWord ∧ (y ≠ [] → needle.endsInWord = true) ∧
    (x ++ needle ++ y).DelimitedIn t

/-- **What occurs in a text is a whole token of it, or part of one.** -/
theorem occursIn_iff_partOf (hne : needle ≠ []) :
    needle.occursIn t = true ↔ needle.PartOf t := by
  constructor
  · intro h
    obtain ⟨before, after, rfl⟩ := occursIn_iff.mp h
    obtain ⟨u, x, rfl, hu, hx⟩ := exists_word_end before
    by_cases hend : needle.endsInWord = true
    · obtain ⟨y, v, rfl, hy, hv⟩ := exists_word_start after
      exact ⟨x, y, hx, hy, fun _ => hend, u, v, by simp, hu, fun _ => hv⟩
    · have hlast : (x ++ needle ++ []).endsInWord = needle.endsInWord := by
        rw [List.append_nil, endsInWord, endsInWord, List.getLast?_append,
          List.getLast?_eq_some_getLast hne, Option.some_or]
      exact ⟨x, [], hx, by simp [IsWord], by simp, u, after, by simp, hu,
        fun h => absurd (hlast ▸ h) hend⟩
  · rintro ⟨x, y, -, -, -, before, after, rfl, -⟩
    exact occursIn_iff.mpr ⟨before ++ x, y ++ after, by simp⟩

end Text

/-- A check of an extra name ends with a quote. -/
theorem ConditionForm.endsInWord_check (f : ConditionForm) (n : Text) :
    (f.check n).endsInWord = false := by
  have hquote : f.check n = (f.stem ++ '"' :: n) ++ ['"'] := by
    simp [check_eq]
  rw [hquote, Text.endsInWord, List.getLast?_concat]
  decide

/-! ## Words with gaps -/

namespace Pattern

variable {w v : Text} {ws : List Text} {t rest : Text}

/-- Of words with gaps between them, a single one takes itself. -/
theorem eq_of_takes_spaced (h : (spaced [w]).Takes t rest) : t = w :=
  Atom.takes_lit.mp (takes_singleton.mp h)

/-- Words with gaps are the first word, white space, and the other words with gaps. -/
theorem exists_of_takes_spaced (h : (spaced (w :: v :: ws)).Takes t rest) :
    ∃ g t', t = w ++ g ++ t' ∧ (∀ c ∈ g, Text.isBlank c = true) ∧
      (spaced (v :: ws)).Takes t' rest := by
  have hspaced : spaced (w :: v :: ws) = word w ++ (gap ++ spaced (v :: ws)) :=
    List.append_assoc (word w) gap (spaced (v :: ws))
  rw [hspaced] at h
  obtain ⟨t₁, t₂, rfl, hword, htail⟩ := takes_append.mp h
  obtain ⟨g, t', rfl, hgap, hrest⟩ := takes_append.mp htail
  obtain rfl := Atom.takes_lit.mp (takes_singleton.mp hword)
  exact ⟨g, t', by simp, (Atom.takes_run.mp (takes_singleton.mp hgap)).1, hrest⟩

end Pattern

namespace Luau

open Pattern

/-! ## Conditions of the linter -/

/-- The text in front of a quoted name in a condition of the linter: the field and the operator, and
before them something that ends no identifier. -/
def IsOpening (t : Text) : Prop :=
  ∃ a g g' : Text, t = a ++ "glob->name" ++ g ++ "==" ++ g' ∧ a.EndsFree ∧
    ('g' ∉ a ∧ '"' ∉ a) ∧ ∀ c ∈ g ++ g', Text.isBlank c = true

/-- A text of white space lacks every other character. -/
theorem not_mem_of_blank {g : Text} {c : Char} (hg : ∀ d ∈ g, Text.isBlank d = true)
    (hc : Text.isBlank c = false) : c ∉ g := by
  intro hmem
  rw [hg c hmem] at hc
  exact absurd hc (by simp)

/-- A check without its quoted name starts where the field of the opening does. -/
theorem IsOpening.endsFree {t before : Text} (h : IsOpening t)
    (heq : t = before ++ "glob->name == ") : before.EndsFree := by
  obtain ⟨a, g, g', rfl, ha, ⟨hfield, -⟩, hblank⟩ := h
  have hg : 'g' ∉ g ++ g' := not_mem_of_blank hblank (by decide)
  rw [List.mem_append, not_or] at hg
  -- the field has the only `g` of the opening
  have hcount := congrArg (List.count 'g') heq
  simp only [List.count_append, List.count_eq_zero_of_not_mem hfield,
    List.count_eq_zero_of_not_mem hg.1, List.count_eq_zero_of_not_mem hg.2] at hcount
  have hword : List.count 'g' "glob->name".toList = 1 := by decide
  have hop : List.count 'g' "==".toList = 0 := by decide
  have hstem : List.count 'g' "glob->name == ".toList = 1 := by decide
  rw [hword, hop, hstem] at hcount
  have hbefore : 'g' ∉ before := List.count_eq_zero.mp (by omega)
  have hcut : a ++ 'g' :: ("lob->name" ++ g ++ "==" ++ g') = before ++ 'g' :: "lob->name == " := by
    simpa using heq
  rwa [← ((Text.append_cons_inj hfield hbefore).mp hcut).1]

/-- The text in front of a quoted name has no quote in it. -/
theorem IsOpening.quote_not_mem {t : Text} (h : IsOpening t) : '"' ∉ t := by
  obtain ⟨a, g, g', rfl, -, ⟨-, ha⟩, hblank⟩ := h
  have hg : '"' ∉ g ++ g' := not_mem_of_blank hblank (by decide)
  simp only [List.mem_append, not_or] at hg ⊢
  exact ⟨⟨⟨⟨ha, by decide⟩, hg.1⟩, by decide⟩, hg.2⟩

/-- The start of a condition of the linter is an opening and the quoted base name. -/
theorem exists_of_linterStart {u : Text} (h : linterStart.Takes u []) :
    ∃ t, u = t ++ '"' :: (baseName ++ ['"']) ∧ IsOpening t := by
  obtain ⟨g, u', rfl, hg, h⟩ := exists_of_takes_spaced h
  obtain ⟨g', u'', rfl, hg', h⟩ := exists_of_takes_spaced h
  obtain rfl := eq_of_takes_spaced h
  have hquoted : "\"require\"".toList = '"' :: (baseName ++ ['"']) := by decide
  refine ⟨"glob->name" ++ g ++ "==" ++ g', by simp [hquoted], [], g, g', by simp,
    by simp [Text.EndsFree], by simp, ?_⟩
  intro c hc
  exact (List.mem_append.mp hc).elim (hg c) (hg' c)

/-- A round of a condition of the linter is an opening and a quoted text, and goes on with no
identifier. -/
theorem exists_of_linterRound {r : Text} (h : (Atom.sequence linterRound).Takes r []) :
    ∃ t m, r = t ++ '"' :: (m ++ ['"']) ∧ IsOpening t ∧ '"' ∉ m ∧ r.StopsAt Text.isIdentChar := by
  have hround : Atom.sequence linterRound = gap ++ (spaced ["||", "glob->name", "==", "\""]
      ++ [Piece.atom (.run (.noneOf ['"', '\n']) 0), Piece.atom (.lit "\"")]) := rfl
  rw [hround] at h
  obtain ⟨b, r', rfl, hb, h⟩ := takes_append.mp h
  obtain ⟨start, name, rfl, hstart, hname⟩ := takes_append.mp h
  obtain ⟨m, quote, rfl, hm, hquote⟩ := takes_cons.mp hname
  rw [Piece.takes_atom, Atom.takes_run] at hm
  obtain rfl := Atom.takes_lit.mp (takes_singleton.mp hquote)
  replace hb := (Atom.takes_run.mp (takes_singleton.mp hb)).1
  obtain ⟨b', s₁, rfl, hb', hstart⟩ := exists_of_takes_spaced hstart
  obtain ⟨g, s₂, rfl, hg, hstart⟩ := exists_of_takes_spaced hstart
  obtain ⟨g', s₃, rfl, hg', hstart⟩ := exists_of_takes_spaced hstart
  obtain rfl := eq_of_takes_spaced hstart
  refine ⟨b ++ "||" ++ b' ++ "glob->name" ++ g ++ "==" ++ g', m, by simp,
    ⟨b ++ "||" ++ b', g, g', by simp, ?_, ?_, ?_⟩, ?_, ?_⟩
  · have hor : (b ++ "||" : Text).EndsFree := (Text.endsFree_append_iff (by decide)).mpr (by decide)
    exact hor.append (Text.endsFree_of_blank hb')
  · have hlacks : ∀ d : Char, Text.isBlank d = false → d ∉ "||".toList → d ∉ b ++ "||" ++ b' := by
      intro d hd hor
      simp only [List.mem_append, not_or]
      exact ⟨⟨not_mem_of_blank hb hd, hor⟩, not_mem_of_blank hb' hd⟩
    exact ⟨hlacks 'g' (by decide) (by decide), hlacks '"' (by decide) (by decide)⟩
  · intro c hc
    exact (List.mem_append.mp hc).elim (hg c) (hg' c)
  · intro hmem
    exact absurd (hm.1 _ hmem) (by decide)
  · cases b with
    | nil => exact Text.stopsAt_cons.mpr (by decide)
    | cons d b => exact Text.stopsAt_cons.mpr (Text.not_isIdentChar_of_isBlank (hb d (by simp)))

/-- No identifier stands behind a quoted text in a condition of the linter. -/
theorem stopsAt_of_rounds {rs : List Text}
    (hrs : ∀ r ∈ rs, (Atom.sequence linterRound).Takes r []) :
    Text.StopsAt Text.isIdentChar rs.flatten := by
  cases rs with
  | nil => exact Text.stopsAt_nil
  | cons r rs =>
    obtain ⟨t, m, hr, -, -, hstop⟩ := exists_of_linterRound (hrs r (by simp))
    exact (Text.stopsAt_append_iff (by rw [hr]; simp)).mpr hstop

/-- A check stands at the first opening, or behind the quoted text there: what follows a closing
quote is no name. -/
theorem endsFree_or_behind {t m n rest before after : Text} (ht : IsOpening t) (hm : '"' ∉ m)
    (hn : n.IsWord) (hne : n ≠ []) (hrest : rest.StopsAt Text.isIdentChar)
    (h : t ++ '"' :: (m ++ '"' :: rest)
      = before ++ ("glob->name == " ++ '"' :: (n ++ '"' :: after))) :
    before.EndsFree ∨ ∃ b, before = t ++ '"' :: (m ++ '"' :: b) ∧
      rest = b ++ ("glob->name == " ++ '"' :: (n ++ '"' :: after)) := by
  have hstem : '"' ∉ "glob->name == ".toList := by decide
  have hcut : ∀ {u : Text}, '"' ∉ u → '"' ∉ u ++ "glob->name == ".toList :=
    fun hu => by rw [List.mem_append, not_or]; exact ⟨hu, hstem⟩
  by_cases hbefore : '"' ∈ before
  · obtain ⟨b₁, b₂, rfl, hb₁⟩ := List.eq_append_cons_of_mem hbefore
    rw [List.append_assoc, List.cons_append] at h
    obtain ⟨hfirst, hbehind⟩ := (Text.append_cons_inj ht.quote_not_mem hb₁).mp h
    by_cases hb₂ : '"' ∈ b₂
    · obtain ⟨b₃, b, rfl, hb₃⟩ := List.eq_append_cons_of_mem hb₂
      rw [List.append_assoc, List.cons_append] at hbehind
      obtain ⟨hquoted, hrest'⟩ := (Text.append_cons_inj hm hb₃).mp hbehind
      exact .inr ⟨b, by rw [hfirst, hquoted], hrest'⟩
    · rw [← List.append_assoc] at hbehind
      obtain ⟨-, hname⟩ := (Text.append_cons_inj hm (hcut hb₂)).mp hbehind
      obtain ⟨c, cs, rfl⟩ := List.exists_cons_of_ne_nil hne
      rw [hname] at hrest
      have hc := Text.stopsAt_cons.mp hrest
      rw [hn c (by simp)] at hc
      exact absurd hc (by simp)
  · rw [← List.append_assoc] at h
    obtain ⟨hopening, -⟩ := (Text.append_cons_inj ht.quote_not_mem (hcut hbefore)).mp h
    exact .inl (ht.endsFree hopening)

/-- **A check in a text made of openings and quoted texts stands at an opening.** -/
theorem endsFree_of_rounds {t m n before after : Text} {rs : List Text} (ht : IsOpening t)
    (hm : '"' ∉ m) (hn : n.IsWord) (hne : n ≠ [])
    (hrs : ∀ r ∈ rs, (Atom.sequence linterRound).Takes r [])
    (h : t ++ '"' :: (m ++ '"' :: rs.flatten)
      = before ++ ("glob->name == " ++ '"' :: (n ++ '"' :: after))) : before.EndsFree := by
  induction rs generalizing t m before with
  | nil =>
    rcases endsFree_or_behind ht hm hn hne Text.stopsAt_nil h with hfree | ⟨b, -, hb⟩
    · exact hfree
    · simp at hb
  | cons r rs ih =>
    rcases endsFree_or_behind ht hm hn hne (stopsAt_of_rounds hrs) h with hfree | ⟨b, rfl, hb⟩
    · exact hfree
    · obtain ⟨t', m', hr, ht', hm', -⟩ := exists_of_linterRound (hrs r (by simp))
      have hrs' : ∀ r' ∈ rs, (Atom.sequence linterRound).Takes r' [] :=
        fun r' hr' => hrs r' (List.mem_cons_of_mem _ hr')
      have hfree : Text.EndsFree b := ih ht' hm' hrs' (by rw [← hb, hr]; simp)
      -- a quote stands before the rest
      have hquote : Text.EndsFree (t ++ '"' :: (m ++ ['"'])) := by
        rw [← List.cons_append, ← List.append_assoc, Text.endsFree_append_iff (by simp)]
        decide
      have hcut : t ++ '"' :: (m ++ '"' :: b) = (t ++ '"' :: (m ++ ['"'])) ++ b := by simp
      rw [hcut]
      exact hquote.append hfree

/-- **A check in a condition of the linter stands there as a whole token.** -/
theorem linter_check_delimited {w rest n : Text} (h : linterMerge.marked.Takes w rest)
    (hn : n.IsWord) (hne : n ≠ []) (hoccurs : (linter.condition.check n).occursIn w = true) :
    (linter.condition.check n).DelimitedIn w := by
  obtain ⟨u, rs, rfl, hu, -, hrs, -⟩ := takes_linterMarked_iff.mp h
  obtain ⟨before, after, heq⟩ := Text.occursIn_iff.mp hoccurs
  obtain ⟨t, rfl, ht⟩ := exists_of_linterStart hu
  refine ⟨before, after, heq, ?_, ?_⟩
  · have hcheck : linter.condition.check n = "glob->name == " ++ '"' :: (n ++ ['"']) := by
      rw [ConditionForm.check_eq]
      rfl
    rw [hcheck] at heq
    have hbase : '"' ∉ baseName := by decide
    exact endsFree_of_rounds ht hbase hn hne hrs (by simpa using heq)
  · rw [ConditionForm.endsInWord_check]
    exact fun h => absurd h (by simp)

end Luau

/-! ## What a plan finds -/

/-- The checks that a plan adds to the condition of a patched region, if it was made for one. -/
def PatchState.added? : PatchState → Option (List Text)
  | .needsMerge added => some added
  | .applied .mergePattern => some []
  | _ => none

/-- The only patched region of a text stands there. -/
theorem Site.Patchable.fits_of_patchedRegions {s : Site} {k : Opening} {m : Shape} {c : Text}
    {o : Occurrence} (hs : s.Patchable k m) (h : s.patchedRegions c = [o]) : m.Fits o := by
  rw [hs.patchedRegions_eq, Opening.occurrences_eq_singleton_iff hs.merge_anchors] at h
  exact h.1

/-- A plan for a patched region adds the checks that the condition lacks. -/
theorem Site.added?_planMerge (s : Site) (names : NameSet) (file : Text) (start : Nat)
    (condition : Text) : (s.planMerge names file start condition).state.added?
      = some (s.condition.missing condition.trimEnd names) := by
  unfold Site.planMerge
  dsimp only
  split
  · rename_i hnone
    rw [List.isEmpty_iff.mp hnone]
    rfl
  · rfl

/-- **What a plan over a patched region was made for**: the only patched region, where no delivered
one stands. It adds the checks that the condition there lacks. -/
theorem Site.Patchable.exists_of_added? {s : Site} {k : Opening} {m : Shape} {names : NameSet}
    {file c : Text} {p : Plan} {added : List Text} (hs : s.Patchable k m)
    (hplan : s.plan names file c = .ok p) (hadded : p.state.added? = some added) :
    ∃ o, s.pristine.occurrences c = [] ∧ m.occurrences c = [o] ∧
      p = s.planMerge names file o.markedStart o.marked ∧
        added = s.condition.missing o.marked.trimEnd names := by
  rcases hs.plan_cases hplan with ⟨o, -, rfl⟩ | ⟨o, hp, hm, rfl⟩ | ⟨-, -, -, rfl⟩
  · unfold Site.planRewrite at hadded
    split at hadded <;> simp [Plan.unchanged, PatchState.added?] at hadded
  · refine ⟨o, hp, hm, rfl, ?_⟩
    rw [Site.added?_planMerge] at hadded
    exact (Option.some.inj hadded).symm
  · simp [Plan.unchanged, PatchState.added?] at hadded

/-- No name of a set is empty. -/
theorem NameSet.ne_nil_of_mem {names : NameSet} {n : Text} (h : n ∈ names.toList) : n ≠ [] := by
  obtain ⟨m, -, rfl⟩ := List.mem_map.mp h
  intro hnil
  have hident := m.isIdentifier_text
  rw [hnil] at hident
  exact absurd hident (by decide)

namespace Luau

variable {s : Site} {names : NameSet} {file c : Text}

/-- A plan over a delivered region is not made for the tokens. -/
theorem planRewrite_ne_tokens (o : Occurrence) :
    s.planRewrite names file o ≠ .unchanged .tokens := by
  unfold Site.planRewrite
  split <;> simp [Plan.unchanged]

/-- A plan over a patched region is not made for the tokens. -/
theorem planMerge_ne_tokens (start : Nat) (condition : Text) :
    s.planMerge names file start condition ≠ .unchanged .tokens := by
  unfold Site.planMerge
  dsimp only
  split <;> simp [Plan.unchanged]

/-- When a plan is made for the tokens. -/
theorem plan_eq_tokens_iff (hs : s ∈ sites) :
    s.plan names file c = .ok (.unchanged .tokens) ↔
      s.pristine.occurrences c = [] ∧ s.patchedRegions c = [] ∧
        s.isFullyApplied c names = true := by
  obtain ⟨k, m, hpatchable⟩ := exists_patchable hs
  rw [hpatchable.patchedRegions_eq]
  constructor
  · intro hplan
    rcases hpatchable.plan_cases hplan with ⟨o, -, hp⟩ | ⟨o, -, -, hp⟩ | ⟨hp, hm, happlied, -⟩
    · exact absurd hp.symm (planRewrite_ne_tokens o)
    · exact absurd hp.symm (planMerge_ne_tokens _ _)
    · exact ⟨hp, hm, happlied⟩
  · rintro ⟨hp, hm, happlied⟩
    rw [hpatchable.plan_of_neither hp hm, Site.planTokens, if_pos happlied]

/-- Every token of a site is a text. -/
theorem ne_nil_of_mem_tokens {t : Text} (ht : t ∈ s.tokens names) : t ≠ [] := by
  rcases List.mem_cons.mp ht with rfl | hcheck
  · exact s.condition.baseCheck_ne_nil
  · obtain ⟨n, -, rfl⟩ := List.mem_map.mp hcheck
    exact s.condition.check_ne_nil n

/-- The check of an extra name is not added to a condition exactly if it occurs there. -/
theorem check_not_mem_missing_iff {f : ConditionForm} {condition n : Text} (hn : n ∈ names.toList) :
    f.check n ∉ f.missing condition.trimEnd names ↔ (f.check n).occursIn condition = true := by
  have hcheck : f.check n ∈ f.checks names := List.mem_map_of_mem hn
  rw [ConditionForm.mem_missing, and_iff_right hcheck, Bool.not_eq_false,
    Text.occursIn_trimEnd_iff (f.check_ne_nil n) (f.trimmed_check n)]

/-- **What it means that a site finds its checks.** Where no region stands, a text counts as patched
exactly if each token is a whole token of the text, or part of one. Where a patched region stands
once, a check is not added exactly if it is a whole token of the condition, or part of one; in a
condition of the linter it is a whole token. -/
theorem presence_iff (hs : s ∈ sites) (names : NameSet) (file c : Text) :
    (s.plan names file c = .ok (.unchanged .tokens) ↔ s.pristine.occurrences c = [] ∧
        s.patchedRegions c = [] ∧ ∀ t ∈ s.tokens names, t.PartOf c) ∧
      ∀ p added, s.plan names file c = .ok p → p.state.added? = some added →
        ∃ o, s.patchedRegions c = [o] ∧ ∀ n ∈ names.toList,
          (s.condition.check n ∉ added ↔ (s.condition.check n).PartOf o.marked) ∧
            (s = linter → (s.condition.check n ∉ added ↔
              (s.condition.check n).DelimitedIn o.marked)) := by
  refine ⟨?_, fun p added hplan hadded => ?_⟩
  · rw [plan_eq_tokens_iff hs, Site.isFullyApplied, List.all_eq_true]
    refine and_congr_right fun _ => and_congr_right fun _ => forall₂_congr fun t ht => ?_
    exact Text.occursIn_iff_partOf (ne_nil_of_mem_tokens ht)
  · obtain ⟨k, m, hpatchable⟩ := exists_patchable hs
    obtain ⟨o, -, hm, -, rfl⟩ := hpatchable.exists_of_added? hplan hadded
    rw [← hpatchable.patchedRegions_eq] at hm
    refine ⟨o, hm, fun n hn => ⟨?_, ?_⟩⟩
    · rw [check_not_mem_missing_iff hn, Text.occursIn_iff_partOf (s.condition.check_ne_nil n)]
    · rintro rfl
      have hmarked := (patchable_linter.fits_of_patchedRegions hm).marked
      rw [check_not_mem_missing_iff hn]
      exact ⟨linter_check_delimited hmarked (NameSet.isWord_of_mem hn) (NameSet.ne_nil_of_mem hn),
        Text.DelimitedIn.occursIn⟩

/-- A guard of a matcher whose field is compared with a longer name than `require`. -/
def longerGuard : Text :=
  "    return funcAsGlobal->name != requireAll && funcAsGlobal->name != \"load\";\n"

/-- A patched guard of the tracer that compares a field with a longer name than `global`. -/
def longerOccurrence : Occurrence :=
  ⟨[], "if (global && expr->args.size >= 1 && (",
    "global->name == \"require\" || notglobal->name == \"load\"",
    "))\n    requireCalls.push_back(expr);\n", []⟩

/-- The word `require` is found in `requireAll`, and the field `global->name` in `notglobal->name`.
-/
theorem presence_iff_longer :
    ((∀ t ∈ typeInfer.tokens loadOnly, t.PartOf longerGuard) ∧
        ¬ typeInfer.condition.baseCheck.DelimitedIn longerGuard) ∧
      ∃ p added, tracer.plan loadOnly tracer.path longerOccurrence.text = .ok p ∧
        p.state.added? = some added ∧ tracer.condition.check "load" ∉ added ∧
          (tracer.condition.check "load").PartOf longerOccurrence.marked ∧
            ¬ (tracer.condition.check "load").DelimitedIn longerOccurrence.marked := by
  have htracer : tracer ∈ sites := by decide
  have hinfer : typeInfer ∈ sites := by decide
  have hregion : tracer.patchedRegions longerOccurrence.text = [longerOccurrence] := by
    decide +kernel
  refine ⟨⟨?_, by decide +kernel⟩, ?_⟩
  · have hpristine : typeInfer.pristine.occurrences longerGuard = [] := by decide +kernel
    have hpatched : typeInfer.patchedRegions longerGuard = [] := by decide +kernel
    have hfound : typeInfer.isFullyApplied longerGuard loadOnly = true := by decide +kernel
    exact ((presence_iff hinfer loadOnly typeInfer.path longerGuard).1.mp
      ((plan_eq_tokens_iff hinfer).mpr ⟨hpristine, hpatched, hfound⟩)).2.2
  · have hpristine : tracer.pristine.occurrences longerOccurrence.text = [] := by decide +kernel
    have hplan : tracer.plan loadOnly tracer.path longerOccurrence.text
        = .ok (tracer.planMerge loadOnly tracer.path longerOccurrence.markedStart
          longerOccurrence.marked) := patchable_tracer.plan_of_merge hpristine hregion
    have hstate : (tracer.planMerge loadOnly tracer.path longerOccurrence.markedStart
        longerOccurrence.marked).state.added? = some [] := by decide +kernel
    obtain ⟨o, hfound, hchecks⟩ :=
      (presence_iff htracer loadOnly tracer.path longerOccurrence.text).2 _ _ hplan hstate
    obtain rfl : longerOccurrence = o := by simpa [hregion] using hfound
    exact ⟨_, [], hplan, hstate, by simp, (hchecks "load" (by decide)).1.mp (by simp),
      by decide +kernel⟩

end Luau

end SitePatch
