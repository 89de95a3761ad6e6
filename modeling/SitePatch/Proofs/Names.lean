import Mathlib.Data.List.Induction
import SitePatch.Names
import SitePatch.Proofs.Base

/-! # What a name set holds

A raw entry stands for the text that is left when the white space around it is gone, unless nothing is
left or the base name (`Text.StandsFor`). An entry that stands for something else than an identifier is
refused. The entries are read one after the other, so the first one that is refused decides; if there
is none, the set holds exactly what the entries stand for, each text where it first occurred
(`NameSet.Lists`). Main statement: what is read from a list of entries (`NameSet.ofEntries_spec`). -/

namespace SitePatch

namespace Text

variable {raw x y : Text} {c : Char} {raws : List Text}

/-! ## White space around a text -/

/-- **The text without the white space around it**: nothing but white space stands around it, and none
stands at its own ends. -/
structure Trims (raw x : Text) : Prop where
  around : ∃ front back, raw = front ++ x ++ back ∧ Blank front ∧ Blank back
  start : ∀ c ∈ x.head?, isBlank c = false
  stop : Trimmed x

/-- Trimming leaves the text without the white space around it. -/
theorem trims_trim (raw : Text) : raw.Trims raw.trim := by
  have hback := trimEnd_append_blankEnd (raw.dropWhile isBlank)
  have hsplit : raw = raw.takeWhile isBlank ++ raw.trim ++ blankEnd (raw.dropWhile isBlank) := by
    rw [trim, List.append_assoc, hback, List.takeWhile_append_dropWhile]
  refine ⟨⟨_, _, hsplit, ?_, fun _ => blank_of_mem_blankEnd _⟩, ?_, trimmed_trimEnd _⟩
  · exact List.all_eq_true.mp List.all_takeWhile
  · intro c hc
    have hhead := List.head?_dropWhile_not isBlank raw
    rw [← hback, List.head?_append, ← trim, Option.mem_def.mp hc, Option.some_or] at hhead
    exact hhead

/-- There is only one text without the white space around it. -/
theorem Trims.trim_eq (h : raw.Trims x) : raw.trim = x := by
  obtain ⟨⟨front, back, rfl, hfront, hback⟩, hstart, hstop⟩ := h
  rw [trim, List.append_assoc, List.dropWhile_append_of_pos hfront]
  cases x with
  | nil =>
    -- the empty text behind the white space is all that is left
    rw [List.nil_append, ← List.append_nil back, List.dropWhile_append_of_pos hback,
      List.dropWhile_nil, trimEnd_nil]
  | cons c cs =>
    have hc : ¬ isBlank c = true := by simp [hstart c rfl]
    rw [List.cons_append, List.dropWhile_cons_of_neg hc, ← List.cons_append]
    exact trimEnd_append hstop hback

/-- **Trimming** takes away the white space around a text, and nothing else. -/
theorem trims_iff : raw.Trims x ↔ raw.trim = x :=
  ⟨Trims.trim_eq, fun h => h ▸ trims_trim raw⟩

/-- Trimming leaves nothing exactly of white space. -/
theorem trim_eq_nil_iff : raw.trim = [] ↔ raw.Blank := by
  rw [← trims_iff]
  constructor
  · rintro ⟨⟨front, back, rfl, hfront, hback⟩, -, -⟩ c hc
    rw [List.append_nil, List.mem_append] at hc
    exact hc.elim (hfront c) (hback c)
  · intro h
    exact ⟨⟨raw, [], by simp, h, by simp [Blank]⟩, by simp, by simp [Trimmed]⟩

/-! ## Identifiers -/

/-- An ASCII letter. -/
def IsLetter (c : Char) : Prop := 'A' ≤ c ∧ c ≤ 'Z' ∨ 'a' ≤ c ∧ c ≤ 'z'

/-- An ASCII digit. -/
def IsDigit (c : Char) : Prop := '0' ≤ c ∧ c ≤ '9'

/-- **An identifier**: a letter or an underscore, then letters, digits and underscores. -/
def IsIdentifier (x : Text) : Prop :=
  ∃ c cs, x = c :: cs ∧ (IsLetter c ∨ c = '_') ∧ ∀ d ∈ cs, IsLetter d ∨ IsDigit d ∨ d = '_'

/-- The letters are those of the ASCII alphabet. -/
theorem isAlpha_iff : c.isAlpha = true ↔ IsLetter c := by
  have hdef : c.isAlpha = (decide (65 ≤ c.val ∧ c.val ≤ 90)
      || (decide (97 ≤ c.val) && decide (c.val ≤ 122))) := rfl
  rw [hdef, Bool.or_eq_true, Bool.and_eq_true, decide_eq_true_eq, decide_eq_true_eq,
    decide_eq_true_eq]
  exact Iff.rfl

/-- The digits are those of ASCII. -/
theorem isDigit_iff : c.isDigit = true ↔ IsDigit c := by
  have hdef : c.isDigit = (decide (48 ≤ c.val) && decide (c.val ≤ 57)) := rfl
  rw [hdef, Bool.and_eq_true, decide_eq_true_eq, decide_eq_true_eq]
  exact Iff.rfl

/-- The characters of identifiers are letters, digits and the underscore. -/
theorem isIdentChar_iff : isIdentChar c = true ↔ IsLetter c ∨ IsDigit c ∨ c = '_' := by
  rw [isIdentChar, Char.isAlphanum, Bool.or_eq_true, Bool.or_eq_true, beq_iff_eq, isAlpha_iff,
    isDigit_iff, or_assoc]

/-- The test for identifiers finds what they are. -/
theorem isIdentifier_iff : isIdentifier x = true ↔ x.IsIdentifier := by
  cases x with
  | nil => simp [isIdentifier, IsIdentifier]
  | cons c cs =>
    simp only [isIdentifier, Bool.and_eq_true, Bool.or_eq_true, beq_iff_eq, List.all_eq_true,
      isAlpha_iff, isIdentChar_iff]
    constructor
    · rintro ⟨hc, hcs⟩
      exact ⟨c, cs, rfl, hc, hcs⟩
    · rintro ⟨c', cs', heq, hc, hcs⟩
      obtain ⟨rfl, rfl⟩ := List.cons.inj heq
      exact ⟨hc, hcs⟩

/-! ## Entries -/

/-- **The entry stands for the text**: the text is left without the white space around it, and is
neither empty nor the base name. -/
structure StandsFor (raw x : Text) : Prop where
  trims : raw.Trims x
  ne_nil : x ≠ []
  ne_base : x ≠ baseName

/-- An entry stands for one text only. -/
theorem StandsFor.unique (h : raw.StandsFor x) (h' : raw.StandsFor y) : x = y :=
  h.trims.trim_eq.symm.trans h'.trims.trim_eq

/-- **The entry is refused**: the text for which it stands is no identifier. -/
def Refused (raw x : Text) : Prop := raw.StandsFor x ∧ ¬ x.IsIdentifier

/-- **The text occurs before the other one**: some first entries stand for it, and none of them for the
other. -/
def Precedes (raws : List Text) (x y : Text) : Prop :=
  ∃ before after, raws = before ++ after ∧ (∃ raw ∈ before, raw.StandsFor x) ∧
    ∀ raw ∈ before, ¬ raw.StandsFor y

/-- Of two texts, only one occurs before the other one. -/
theorem Precedes.asymm (h : Precedes raws x y) : ¬ Precedes raws y x := by
  obtain ⟨before, after, hraws, ⟨raw, hraw, hx⟩, hy⟩ := h
  rintro ⟨before', after', hraws', ⟨raw', hraw', hy'⟩, hx'⟩
  -- one of the two beginnings is a part of the other
  rcases List.prefix_or_prefix_of_prefix ⟨after, hraws.symm⟩ ⟨after', hraws'.symm⟩ with hle | hle
  · exact hx' raw (hle.subset hraw) hx
  · exact hy raw' (hle.subset hraw') hy'

/-- What occurs before another text does so, whatever entries follow. -/
theorem Precedes.append (h : Precedes raws x y) (more : List Text) :
    Precedes (raws ++ more) x y := by
  obtain ⟨before, after, rfl, hx, hy⟩ := h
  exact ⟨before, after ++ more, List.append_assoc before after more, hx, hy⟩

end Text

namespace Name

variable {raw x : Text} {n : Name}

/-- An entry stands for nothing else than what trimming leaves of it. -/
theorem standsFor_iff :
    raw.StandsFor x ↔ raw.trim = x ∧ ¬ (raw.trim = [] ∨ raw.trim = baseName) := by
  constructor
  · rintro ⟨htrims, hnil, hbase⟩
    obtain rfl := htrims.trim_eq
    exact ⟨rfl, not_or.mpr ⟨hnil, hbase⟩⟩
  · rintro ⟨rfl, hskip⟩
    exact ⟨Text.trims_trim raw, (not_or.mp hskip).1, (not_or.mp hskip).2⟩

/-- An entry fails exactly if it is refused, and the error names the text for which it stands. -/
theorem ofEntry_eq_error_iff : ofEntry raw = .error (.invalidIdentifier x) ↔ raw.Refused x := by
  rw [Text.Refused, standsFor_iff, ← Text.isIdentifier_iff]
  unfold ofEntry
  split
  · rename_i hskip
    simp [hskip]
  · rename_i hskip
    split
    · rename_i hident
      refine iff_of_false (by simp) ?_
      rintro ⟨⟨rfl, -⟩, hnot⟩
      exact hnot hident
    · rename_i hident
      rw [Except.error.injEq, NameError.invalidIdentifier.injEq]
      refine ⟨?_, fun h => h.1.1⟩
      rintro rfl
      exact ⟨⟨rfl, hskip⟩, hident⟩

/-- An entry is passed over exactly if it stands for no text. -/
theorem ofEntry_eq_none_iff : ofEntry raw = .ok none ↔ ∀ x, ¬ raw.StandsFor x := by
  simp only [standsFor_iff]
  unfold ofEntry
  split
  · rename_i hskip
    simp [hskip]
  · rename_i hskip
    refine iff_of_false ?_ fun h => h _ ⟨rfl, hskip⟩
    split <;> simp

/-- An entry that gives a name stands for it. -/
theorem standsFor_of_ofEntry_eq_some (h : ofEntry raw = .ok (some n)) : raw.StandsFor n.text := by
  rw [standsFor_iff]
  unfold ofEntry at h
  split at h
  · simp at h
  · rename_i hskip
    split at h
    · rw [← Option.some.inj (Except.ok.inj h)]
      exact ⟨rfl, hskip⟩
    · simp at h

end Name

/-! ## Sets -/

namespace NameSet

variable {s s' : NameSet} {raw x : Text} {raws before after : List Text} {n : Name}

/-- **The set lists what the entries stand for**, each text where it first occurred. -/
structure Lists (s : NameSet) (raws : List Text) : Prop where
  mem_iff : ∀ x, x ∈ s.toList ↔ ∃ raw ∈ raws, raw.StandsFor x
  ordered : s.toList.Pairwise (Text.Precedes raws)

/-- Only one set lists what the entries stand for. -/
theorem Lists.unique (h : s.Lists raws) (h' : s'.Lists raws) : s = s' := by
  have hmem : ∀ x, x ∈ s.toList ↔ x ∈ s'.toList := fun x => (h.mem_iff x).trans (h'.mem_iff x).symm
  have hperm := (List.perm_ext_iff_of_nodup s.nodup_toList s'.nodup_toList).mpr hmem
  refine ext_toList (hperm.eq_of_pairwise ?_ h.ordered h'.ordered)
  exact fun x y _ _ hxy hyx => absurd hyx hxy.asymm

/-- Of no entries, the empty set lists what they stand for. -/
theorem lists_empty : empty.Lists [] where
  mem_iff := by simp
  ordered := by simp

/-- An entry that stands for nothing changes nothing. -/
theorem Lists.skip (h : s.Lists raws) (hnone : ∀ x, ¬ raw.StandsFor x) :
    s.Lists (raws ++ [raw]) where
  mem_iff x := by simp [h.mem_iff, or_and_right, exists_or, hnone]
  ordered := h.ordered.imp fun hxy => hxy.append [raw]

/-- A name for which an entry stands is inserted. -/
theorem Lists.insert (h : s.Lists raws) (hn : raw.StandsFor n.text) :
    (s.insert n).Lists (raws ++ [raw]) where
  mem_iff x := by
    have hx : raw.StandsFor x ↔ x = n.text := ⟨fun hx => hx.unique hn, fun hx => hx ▸ hn⟩
    have hinsert : x ∈ (s.insert n).toList ↔ x ∈ s.toList ∨ x = n.text := by
      rw [toList_insert]
      split
      · rename_i hold
        exact ⟨.inl, fun hx => hx.elim id fun hx => hx ▸ hold⟩
      · simp
    simp [hinsert, h.mem_iff, or_and_right, exists_or, hx]
  ordered := by
    have hold := h.ordered.imp fun {x y} (hxy : Text.Precedes raws x y) => hxy.append [raw]
    rw [toList_insert]
    split
    · exact hold
    · rename_i hnew
      refine List.pairwise_append.mpr ⟨hold, List.pairwise_singleton _ _, ?_⟩
      intro x hx y hy
      obtain rfl := List.mem_singleton.mp hy
      -- no entry but the last one stands for the name
      exact ⟨raws, [raw], rfl, (h.mem_iff x).mp hx, fun r hr hstands =>
        hnew ((h.mem_iff _).mpr ⟨r, hr, hstands⟩)⟩

/-- Behind entries that are all read, one more is read next. -/
theorem ofEntries_concat (h : ofEntries raws = .ok s) (raw : Text) :
    ofEntries (raws ++ [raw]) =
      match Name.ofEntry raw with
      | .ok none => .ok s
      | .ok (some n) => .ok (s.insert n)
      | .error e => .error e := by
  unfold ofEntries at h ⊢
  rw [List.foldlM_append, h]
  simp only [List.foldlM_cons, List.foldlM_nil, bind_pure]
  rfl

/-- **Entries of which none is refused** are all read, and the set lists what they stand for. -/
theorem exists_lists (h : ∀ raw ∈ raws, ∀ x, ¬ raw.Refused x) :
    ∃ s, ofEntries raws = .ok s ∧ s.Lists raws := by
  induction raws using List.reverseRecOn with
  | nil => exact ⟨empty, rfl, lists_empty⟩
  | append_singleton raws raw ih =>
    obtain ⟨s, hs, hlists⟩ := ih fun r hr => h r (List.mem_append_left _ hr)
    rw [ofEntries_concat hs]
    cases hentry : Name.ofEntry raw with
    | error e =>
      obtain ⟨x⟩ := e
      exact absurd (Name.ofEntry_eq_error_iff.mp hentry) (h raw (by simp) x)
    | ok entry =>
      cases entry with
      | none => exact ⟨s, rfl, hlists.skip (Name.ofEntry_eq_none_iff.mp hentry)⟩
      | some n =>
        exact ⟨s.insert n, rfl, hlists.insert (Name.standsFor_of_ofEntry_eq_some hentry)⟩

/-- **The first entry that is refused** decides, whatever entries follow. -/
theorem ofEntries_eq_error (hbefore : ∀ r ∈ before, ∀ y, ¬ r.Refused y) (h : raw.Refused x) :
    ofEntries (before ++ raw :: after) = .error (.invalidIdentifier x) := by
  obtain ⟨s, hs, -⟩ := exists_lists hbefore
  unfold ofEntries at hs ⊢
  rw [List.foldlM_append, hs]
  simp only [bind, Except.bind, List.foldlM_cons, Name.ofEntry_eq_error_iff.mpr h]

/-- Where an entry is refused, there is a first one. -/
theorem exists_first_refused (h : ¬ ∀ raw ∈ raws, ∀ x, ¬ raw.Refused x) :
    ∃ before raw after x, raws = before ++ raw :: after ∧ (∀ r ∈ before, ∀ y, ¬ r.Refused y) ∧
      raw.Refused x := by
  induction raws with
  | nil => simp at h
  | cons raw raws ih =>
    by_cases hraw : ∃ x, raw.Refused x
    · obtain ⟨x, hx⟩ := hraw
      exact ⟨[], raw, raws, x, rfl, by simp, hx⟩
    · rw [not_exists] at hraw
      have hrest : ¬ ∀ raw ∈ raws, ∀ x, ¬ raw.Refused x := fun hall =>
        h (List.forall_mem_cons.mpr ⟨hraw, hall⟩)
      obtain ⟨before, raw', after, x, rfl, hbefore, hx⟩ := ih hrest
      exact ⟨raw :: before, raw', after, x, rfl, List.forall_mem_cons.mpr ⟨hraw, hbefore⟩, hx⟩

/-- **When entries are read**, and to which set. -/
theorem ofEntries_eq_ok_iff :
    ofEntries raws = .ok s ↔ (∀ raw ∈ raws, ∀ x, ¬ raw.Refused x) ∧ s.Lists raws := by
  by_cases hall : ∀ raw ∈ raws, ∀ x, ¬ raw.Refused x
  · obtain ⟨s', hs', hlists⟩ := exists_lists hall
    rw [hs', Except.ok.injEq]
    constructor
    · rintro rfl
      exact ⟨hall, hlists⟩
    · rintro ⟨-, h⟩
      exact hlists.unique h
  · obtain ⟨before, raw, after, x, rfl, hbefore, hx⟩ := exists_first_refused hall
    rw [ofEntries_eq_error hbefore hx]
    exact iff_of_false (by simp) fun h => hall h.1

/-- **When entries are refused**, and on account of which one. -/
theorem ofEntries_eq_error_iff :
    ofEntries raws = .error (.invalidIdentifier x) ↔
      ∃ before raw after, raws = before ++ raw :: after ∧ (∀ r ∈ before, ∀ y, ¬ r.Refused y) ∧
        raw.Refused x := by
  constructor
  · intro h
    have hall : ¬ ∀ raw ∈ raws, ∀ x, ¬ raw.Refused x := by
      intro hall
      obtain ⟨s, hs, -⟩ := exists_lists hall
      simp [hs] at h
    obtain ⟨before, raw, after, y, rfl, hbefore, hy⟩ := exists_first_refused hall
    rw [ofEntries_eq_error hbefore hy, Except.error.injEq, NameError.invalidIdentifier.injEq] at h
    exact ⟨before, raw, after, rfl, hbefore, h ▸ hy⟩
  · rintro ⟨before, raw, after, rfl, hbefore, hx⟩
    exact ofEntries_eq_error hbefore hx

/-- What a set holds is an identifier. -/
theorem isIdentifier_of_mem (h : x ∈ s.toList) : x.IsIdentifier :=
  Text.isIdentifier_iff.mp (isIdentifier_eq_true_of_mem h)

/-- The names of a set that was read are the identifiers for which entries stand. -/
theorem contains_iff_of_ofEntries (h : ofEntries raws = .ok s) :
    s.contains x = true ↔ ∃ raw ∈ raws, raw.StandsFor x ∧ x.IsIdentifier := by
  have hmem := (ofEntries_eq_ok_iff.mp h).2.mem_iff x
  rw [contains, List.contains_iff_mem]
  constructor
  · intro hx
    obtain ⟨raw, hraw, hstands⟩ := hmem.mp hx
    exact ⟨raw, hraw, hstands, isIdentifier_of_mem hx⟩
  · rintro ⟨raw, hraw, hstands, -⟩
    exact hmem.mpr ⟨raw, hraw, hstands⟩

/-- A set is read from its own list. -/
theorem ofEntries_toList (s : NameSet) : ofEntries s.toList = .ok s := by
  have hread := ofEntries_flatMap [s]
  simpa using hread

/-- **What is read from entries.** If entries are refused, the first of them is reported, by the text for
which it stands. If none is, the set lists what the entries stand for, in order of first occurrence:
every text for which an entry stands, and no other. Whatever is read, no text is listed twice, and all
are identifiers other than the base name; and every set there is can be read from its own list. -/
theorem ofEntries_spec (raws : List Text) :
    (∀ x, ofEntries raws = .error (.invalidIdentifier x) ↔
      ∃ before raw after, raws = before ++ raw :: after ∧ (∀ r ∈ before, ∀ y, ¬ r.Refused y) ∧
        raw.Refused x) ∧
    (∀ s, ofEntries raws = .ok s ↔ (∀ raw ∈ raws, ∀ x, ¬ raw.Refused x) ∧ s.Lists raws) ∧
    (∀ s, ofEntries raws = .ok s →
      ∀ x, s.contains x = true ↔ ∃ raw ∈ raws, raw.StandsFor x ∧ x.IsIdentifier) ∧
    ∀ s : NameSet, s.toList.Nodup ∧ baseName ∉ s.toList ∧ (∀ x ∈ s.toList, x.IsIdentifier) ∧
      ofEntries s.toList = .ok s :=
  ⟨fun _ => ofEntries_eq_error_iff, fun _ => ofEntries_eq_ok_iff,
    fun _ h _ => contains_iff_of_ofEntries h,
    fun s => ⟨s.nodup_toList, fun h => ne_baseName_of_mem h rfl, fun _ => isIdentifier_of_mem,
      s.ofEntries_toList⟩⟩

/-- Entries for two names, with white space, the base name and a repetition. -/
def looseEntries : List Text := [" b", "a\t", "", "require", "b"]

/-- Both names are read, each at its first place. -/
theorem ofEntries_looseEntries :
    ∃ s, ofEntries looseEntries = .ok s ∧ s.toList = (["b", "a"] : List Text) ∧
      s.Lists looseEntries ∧ s.contains "a" = true := by
  obtain ⟨s, hs, hlist⟩ : ∃ s, ofEntries looseEntries = .ok s ∧ s.toList = (["b", "a"] : List Text) :=
    ⟨_, rfl, rfl⟩
  obtain ⟨-, hok, hcontains, hall⟩ := ofEntries_spec looseEntries
  have hmem : ("a" : Text) ∈ s.toList := by
    rw [hlist]
    decide
  refine ⟨s, hs, hlist, ((hok s).mp hs).2, (hcontains s hs "a").mpr ⟨"a\t", by decide, ?_, ?_⟩⟩
  · exact ⟨Text.trims_iff.mpr rfl, by decide, by decide⟩
  · exact (hall s).2.2.1 "a" hmem

end NameSet

end SitePatch
