import SitePatch.Condition

/-! # Which checks stand in a condition

A condition grows at its end: behind what stands there, each new check follows a connective
(`ConditionForm.extend`). The library asks whether a check occurs in a condition by looking for its
text, so a check might be seen where two pieces of text meet. Main statement: it is not — in an
extended condition a check occurs exactly when it occurred before or was added
(`ConditionForm.occursIn_extend_iff`). From it follows that extending for one set of names and then
for another is extending for both at once (`ConditionForm.extended_extended`). -/

namespace SitePatch

/-! ## Occurrence in two parts -/

namespace Text

variable {needle t u v w : Text}

/-- A text occurs in another exactly if it is an infix of it. -/
theorem occursIn_iff_isInfix : occursIn needle t = true ↔ needle <:+: t := by
  rw [occursIn_iff]
  constructor
  · rintro ⟨before, after, rfl⟩
    exact List.infix_append before needle after
  · rintro ⟨before, after, h⟩
    exact ⟨before, after, h.symm⟩

/-- A text that does not reach over the boundary of two others occurs in one of them. -/
theorem occursIn_append_iff
    (h : ∀ p q, needle = p ++ q → p ≠ [] → q ≠ [] → p <:+ u → ¬ q <+: v) :
    occursIn needle (u ++ v) = true ↔ occursIn needle u = true ∨ occursIn needle v = true := by
  rw [occursIn_iff_isInfix, occursIn_iff_isInfix, occursIn_iff_isInfix, List.infix_append_iff_ne_nil]
  constructor
  · rintro (hu | hv | ⟨p, q, hp, hq, heq, hpu, hqv⟩)
    · exact .inl hu
    · exact .inr hv
    · exact absurd hqv (h p q heq hp hq hpu)
  · rintro (hu | hv)
    · exact .inl hu
    · exact .inr (.inl hv)

/-- What occurs in a part occurs in the whole. -/
theorem occursIn_append_left (h : occursIn needle u = true) : occursIn needle (u ++ v) = true := by
  rw [occursIn_iff_isInfix] at h ⊢
  exact h.trans (List.prefix_append u v).isInfix

/-- What occurs in a text occurs in it behind any other text. -/
theorem occursIn_append_right (h : occursIn needle v = true) : occursIn needle (u ++ v) = true := by
  rw [occursIn_iff_isInfix] at h ⊢
  exact h.trans (List.suffix_append u v).isInfix

/-- A text is cut at the first place of a character in one way. -/
theorem append_cons_inj {c : Char} {u' v' : Text} (hu : c ∉ u) (hu' : c ∉ u') :
    u ++ c :: v = u' ++ c :: v' ↔ u = u' ∧ v = v' := by
  constructor
  · intro h
    -- the longer one of the beginnings would have the character
    rcases List.append_eq_append_iff.mp h with ⟨a, rfl, ha⟩ | ⟨a, rfl, ha⟩
    · cases a with
      | nil => simpa using ha
      | cons d a =>
        simp only [List.cons_append, List.cons.injEq] at ha
        exact absurd (by simp [ha.1]) hu'
    · cases a with
      | nil => simpa using ha.symm
      | cons d a =>
        simp only [List.cons_append, List.cons.injEq] at ha
        exact absurd (by simp [ha.1]) hu
  · rintro ⟨rfl, rfl⟩
    rfl

/-- A text has every character that a text occurring in it has. -/
theorem mem_of_occursIn {c : Char} (h : occursIn needle t = true) (hc : c ∈ needle) : c ∈ t :=
  (occursIn_iff_isInfix.mp h).subset hc

/-- A text with a character that is missing in another does not occur there. -/
theorem occursIn_eq_false_of_mem {c : Char} (hc : c ∈ needle) (ht : c ∉ t) :
    occursIn needle t = false := by
  cases h : occursIn needle t with
  | false => rfl
  | true => exact absurd (mem_of_occursIn h hc) ht

/-! ## White space at the end -/

/-- The white space at the end of a text. -/
def blankEnd (t : Text) : Text := (t.reverse.takeWhile isBlank).reverse

/-- The text does not end with white space. -/
def Trimmed (t : Text) : Prop := ∀ c ∈ t.getLast?, isBlank c = false

/-- The last character decides whether a text ends without white space. -/
theorem all_getLast?_iff_trimmed : (t.getLast?.all fun c => !isBlank c) = true ↔ Trimmed t := by
  rw [Option.all_eq_true, Trimmed]
  simp

instance (t : Text) : Decidable t.Trimmed :=
  decidable_of_decidable_of_iff all_getLast?_iff_trimmed

/-- A text is what is left without the white space at its end, and that white space. -/
theorem trimEnd_append_blankEnd (t : Text) : trimEnd t ++ blankEnd t = t := by
  rw [trimEnd, blankEnd, ← List.reverse_append, List.takeWhile_append_dropWhile,
    List.reverse_reverse]

/-- At the blank end of a text there is white space only. -/
theorem blank_of_mem_blankEnd : ∀ c ∈ blankEnd t, isBlank c = true := by
  intro c hc
  have hall := List.all_takeWhile (p := isBlank) (l := t.reverse)
  exact List.all_eq_true.mp hall c (by simpa [blankEnd] using hc)

/-- Without the white space at its end, a text ends without white space. -/
theorem trimmed_trimEnd (t : Text) : Trimmed (trimEnd t) := by
  intro c hc
  rw [trimEnd, List.getLast?_reverse] at hc
  have hhead := List.head?_dropWhile_not isBlank t.reverse
  rw [Option.mem_def.mp hc] at hhead
  simpa using hhead

/-- Only the last character decides whether a text ends with white space. -/
theorem trimmed_append_iff (hv : v ≠ []) : Trimmed (u ++ v) ↔ Trimmed v := by
  rw [Trimmed, Trimmed, List.getLast?_append, List.getLast?_eq_some_getLast hv, Option.some_or]

/-- The last part of a text that does not end with white space is not all white space. -/
theorem exists_of_trimmed (h : Trimmed (u ++ v)) (hv : v ≠ []) : ∃ c ∈ v, isBlank c = false := by
  refine ⟨v.getLast hv, List.getLast_mem hv, ?_⟩
  exact (trimmed_append_iff hv).mp h _ (by rw [List.getLast?_eq_some_getLast hv]; simp)

/-- White space behind a text that does not end with any is what trimming takes away. -/
theorem trimEnd_append (hu : Trimmed u) (hw : ∀ c ∈ w, isBlank c = true) :
    trimEnd (u ++ w) = u := by
  have hstop : ∀ c ∈ u.reverse.head?, isBlank c = false := by
    simpa [Trimmed] using hu
  rw [trimEnd, List.reverse_append,
    List.dropWhile_append_of_pos (fun c hc => hw c (List.mem_reverse.mp hc))]
  cases hrev : u.reverse with
  | nil => simpa using hrev.symm
  | cons c cs =>
    have hc : isBlank c = false := hstop c (by simp [hrev])
    rw [List.dropWhile_cons_of_neg (by simp [hc]), ← hrev, List.reverse_reverse]

/-- A text that ends without white space stays as it is. -/
theorem trimEnd_of_trimmed (hu : Trimmed u) : trimEnd u = u := by
  have h := trimEnd_append (w := []) hu (by simp)
  rwa [List.append_nil] at h

/-- Behind a text that does not end with white space, all white space is at the end. -/
theorem blankEnd_append (hu : Trimmed u) (hw : ∀ c ∈ w, isBlank c = true) :
    blankEnd (u ++ w) = w := by
  have h := trimEnd_append_blankEnd (u ++ w)
  rw [trimEnd_append hu hw] at h
  exact List.append_cancel_left h

/-- A text that ends without white space has no blank end. -/
theorem blankEnd_of_trimmed (hu : Trimmed u) : blankEnd u = [] := by
  have h := blankEnd_append (w := []) hu (by simp)
  rwa [List.append_nil] at h

/-- Trimming stops at the latest at a text that does not end with white space. -/
theorem trimEnd_append_left (hu : Trimmed u) :
    trimEnd (u ++ v) = u ++ trimEnd v ∧ blankEnd (u ++ v) = blankEnd v := by
  have hcut : u ++ v = (u ++ trimEnd v) ++ blankEnd v := by
    rw [List.append_assoc, trimEnd_append_blankEnd]
  have htrim : Trimmed (u ++ trimEnd v) := by
    by_cases hv : trimEnd v = []
    · rwa [hv, List.append_nil]
    · rw [trimmed_append_iff hv]
      exact trimmed_trimEnd v
  rw [hcut]
  exact ⟨trimEnd_append htrim fun _ => blank_of_mem_blankEnd _,
    blankEnd_append htrim fun _ => blank_of_mem_blankEnd _⟩

/-- A text that does not end with white space does not end in the white space at the end of another.
-/
theorem not_prefix_blankEnd (hn : Trimmed (u ++ v)) (hv : v ≠ []) : ¬ v <+: blankEnd t := by
  intro hstarts
  obtain ⟨c, hc, hcb⟩ := exists_of_trimmed hn hv
  simp [blank_of_mem_blankEnd c (hstarts.subset hc)] at hcb

/-- What ends without white space does not stand in a blank end. -/
theorem occursIn_blankEnd (hne : needle ≠ []) (hn : Trimmed needle) :
    occursIn needle (blankEnd t) = false := by
  obtain ⟨c, hc, hcb⟩ := exists_of_trimmed (u := []) hn hne
  refine occursIn_eq_false_of_mem hc fun hmem => ?_
  simp [blank_of_mem_blankEnd c hmem] at hcb

/-- Trimming takes away nothing of a text that does not end with white space. -/
theorem occursIn_trimEnd_iff (hne : needle ≠ []) (hn : Trimmed needle) :
    occursIn needle (trimEnd t) = true ↔ occursIn needle t = true := by
  have hsplit : occursIn needle (trimEnd t ++ blankEnd t) = true ↔
      occursIn needle (trimEnd t) = true ∨ occursIn needle (blankEnd t) = true :=
    occursIn_append_iff fun p q heq _ hq _ => not_prefix_blankEnd (heq ▸ hn) hq
  rw [trimEnd_append_blankEnd, occursIn_blankEnd hne hn] at hsplit
  simpa using hsplit.symm

end Text

/-! ## Names -/

/-- The text has identifier characters only. -/
def Text.IsWord (n : Text) : Prop := ∀ c ∈ n, isIdentChar c = true

instance (n : Text) : Decidable n.IsWord := decidable_of_decidable_of_iff List.all_eq_true

/-- A character of identifiers is no white space. -/
theorem Text.not_isBlank_of_isIdentChar {c : Char} (h : isIdentChar c = true) :
    isBlank c = false := by
  replace h : (decide (65 ≤ c.val ∧ c.val ≤ 90) || (decide (97 ≤ c.val) && decide (c.val ≤ 122))
      || (decide (48 ≤ c.val) && decide (c.val ≤ 57)) || c == '_') = true := h
  simp only [Bool.or_eq_true, Bool.and_eq_true, decide_eq_true_eq, beq_iff_eq] at h
  -- identifier characters lie between `0` and `z`, where there is no white space
  have hrange : 48 ≤ c.toNat ∧ c.toNat ≤ 122 := by
    rcases h with ((⟨h₁, h₂⟩ | ⟨h₁, h₂⟩) | ⟨h₁, h₂⟩) | rfl
    · have hlow : 65 ≤ c.toNat := UInt32.le_iff_toNat_le.mp h₁
      have hhigh : c.toNat ≤ 90 := UInt32.le_iff_toNat_le.mp h₂
      omega
    · have hlow : 97 ≤ c.toNat := UInt32.le_iff_toNat_le.mp h₁
      have hhigh : c.toNat ≤ 122 := UInt32.le_iff_toNat_le.mp h₂
      omega
    · have hlow : 48 ≤ c.toNat := UInt32.le_iff_toNat_le.mp h₁
      have hhigh : c.toNat ≤ 57 := UInt32.le_iff_toNat_le.mp h₂
      omega
    · decide
  cases hb : isBlank c with
  | false => rfl
  | true =>
    simp only [isBlank, Bool.or_eq_true, Bool.and_eq_true, decide_eq_true_eq, beq_iff_eq] at hb
    omega

/-- Identifiers are words. -/
theorem Text.isWord_of_isIdentifier {n : Text} (h : isIdentifier n = true) : n.IsWord := by
  cases n with
  | nil => simp [isIdentifier] at h
  | cons c cs =>
    simp only [isIdentifier, Bool.and_eq_true, Bool.or_eq_true, List.all_eq_true] at h
    intro d hd
    rcases List.mem_cons.mp hd with rfl | hd
    · have hc : d.isAlphanum = true ∨ (d == '_') = true := by
        refine h.1.imp (fun h => ?_) id
        simp [Char.isAlphanum, h]
      simpa [Text.isIdentChar] using hc
    · exact h.2 d hd

/-- A name has identifier characters only. -/
theorem Name.isWord_text (n : Name) : Text.IsWord n.text :=
  Text.isWord_of_isIdentifier n.isIdentifier_text

/-- A word has no quote in it. -/
theorem Text.IsWord.quote_not_mem {n : Text} (h : n.IsWord) : '"' ∉ n :=
  fun hmem => absurd (h _ hmem) (by decide)

/-- Words have no white space around them. -/
theorem Text.trim_of_isWord {n : Text} (h : n.IsWord) : trim n = n := by
  have hblank : ∀ c ∈ n, isBlank c = false := fun c hc => not_isBlank_of_isIdentChar (h c hc)
  have hstart : n.dropWhile isBlank = n := by
    cases n with
    | nil => rfl
    | cons c cs => rw [List.dropWhile_cons_of_neg (by simp [hblank c])]
  rw [trim, hstart]
  exact trimEnd_of_trimmed fun c hc => hblank c (List.mem_of_getLast? hc)

/-- A name is read back from its text. -/
theorem Name.ofEntry_text (n : Name) : Name.ofEntry n.text = .ok (some n) := by
  have htrim := Text.trim_of_isWord n.isWord_text
  have hne : n.text ≠ [] := by
    intro h
    have hident := n.isIdentifier_text
    rw [h] at hident
    exact absurd hident (by decide)
  have hskip : ¬ (n.text.trim = [] ∨ n.text.trim = baseName) := by
    rw [htrim, not_or]
    exact ⟨hne, n.text_ne_base⟩
  have hident : isIdentifier n.text.trim = true := by
    rw [htrim]
    exact n.isIdentifier_text
  rw [ofEntry, dif_neg hskip, dif_pos hident]
  cases n
  simp only [htrim]

/-- Names with the same text are the same. -/
theorem Name.text_injective : Function.Injective Name.text := by
  rintro ⟨t, _, _⟩ ⟨u, _, _⟩ h
  simp only at h
  subst h
  rfl

/-- The texts of a set are pairwise distinct. -/
theorem NameSet.nodup_toList (names : NameSet) : names.toList.Nodup :=
  List.Pairwise.map Name.text (fun _ _ hne h => hne (Name.text_injective h)) names.nodup

/-- The names of a set are identifiers. -/
theorem NameSet.isIdentifier_eq_true_of_mem {names : NameSet} {n : Text} (h : n ∈ names.toList) :
    isIdentifier n = true := by
  obtain ⟨m, -, rfl⟩ := List.mem_map.mp h
  exact m.isIdentifier_text

/-- The names of a set are words. -/
theorem NameSet.isWord_of_mem {names : NameSet} {n : Text} (h : n ∈ names.toList) : n.IsWord :=
  Text.isWord_of_isIdentifier (isIdentifier_eq_true_of_mem h)

/-- No name of a set is the base name. -/
theorem NameSet.ne_baseName_of_mem {names : NameSet} {n : Text} (h : n ∈ names.toList) :
    n ≠ baseName := by
  obtain ⟨m, -, rfl⟩ := List.mem_map.mp h
  exact m.text_ne_base

/-! ## Checks -/

/-- The character that a connective has twice. -/
def Comparison.joint : Comparison → Char
  | equal => '|'
  | notEqual => '&'

namespace ConditionForm

variable {f : ConditionForm} {n m t w condition : Text} {names : NameSet}

/-- Whether the field is written like the access to a member of a variable. -/
def isPlain (f : ConditionForm) : Bool :=
  !f.field.isEmpty && f.field.all fun c => Text.isIdentChar c || c == '-' || c == '>'

/-- What stands before the operand of a check. -/
def stem (f : ConditionForm) : Text := f.field ++ " " ++ f.comparison.operator ++ " "

/-- A check is its stem and the name in quotes. -/
theorem check_eq (f : ConditionForm) (n : Text) :
    f.check n = f.stem ++ '"' :: (n ++ ['"']) := by
  simp [check, compare, stem]

/-- A plain field has no quote in it. -/
theorem quote_not_mem_field (hf : f.isPlain = true) : '"' ∉ f.field := by
  simp only [isPlain, Bool.and_eq_true, List.all_eq_true] at hf
  exact fun h => absurd (hf.2 _ h) (by decide)

/-- What stands before an operand has no quotes but those of the field. -/
theorem quote_not_mem_stem (hf : '"' ∉ f.field) : '"' ∉ f.stem := by
  have hoperator : '"' ∉ f.comparison.operator := by cases f.comparison <;> decide
  simp [stem, hf, hoperator]

/-- The characters of which checks are made. -/
def isCheckChar (c : Char) : Bool :=
  Text.isIdentChar c || [' ', '-', '>', '=', '!', '"'].contains c

/-- The stem of a plain form is made of the characters of checks. -/
theorem isCheckChar_of_mem_stem (hf : f.isPlain = true) :
    ∀ c ∈ f.stem, isCheckChar c = true := by
  simp only [isPlain, Bool.and_eq_true, List.all_eq_true] at hf
  have hfield : ∀ c ∈ f.field, isCheckChar c = true := by
    intro c hc
    have := hf.2 c hc
    simp only [Bool.or_eq_true, beq_iff_eq] at this
    rcases this with (h | rfl) | rfl
    · simp [isCheckChar, h]
    · decide
    · decide
  have hrest : ∀ c ∈ (" ".toList ++ f.comparison.operator ++ " ".toList),
      isCheckChar c = true := by
    apply List.all_eq_true.mp
    cases f.comparison <;> decide
  intro c hc
  have hc' : c ∈ f.field ∨ c ∈ (" ".toList ++ f.comparison.operator ++ " ".toList) := by
    simpa [stem, or_assoc] using hc
  exact hc'.elim (hfield c) (hrest c)

/-- The check of a word is made of the characters of checks. -/
theorem isCheckChar_of_mem_check (hf : f.isPlain = true) (hn : n.IsWord) :
    ∀ c ∈ f.check n, isCheckChar c = true := by
  intro c hc
  rw [check_eq] at hc
  simp only [List.mem_append, List.mem_cons, List.not_mem_nil, or_false] at hc
  rcases hc with hc | rfl | hc | rfl
  · exact isCheckChar_of_mem_stem hf c hc
  · decide
  · simp [isCheckChar, hn c hc]
  · decide

/-- A check is not empty. -/
theorem check_ne_nil (f : ConditionForm) (n : Text) : f.check n ≠ [] := by
  simp [check_eq]

/-- A check ends with its closing quote. -/
theorem trimmed_check (f : ConditionForm) (n : Text) : (f.check n).Trimmed := by
  have hquote : f.check n = (f.stem ++ '"' :: n) ++ ['"'] := by
    simp [check_eq]
  rw [hquote, Text.trimmed_append_iff (by simp)]
  intro c hc
  simp only [List.getLast?_singleton, Option.mem_def, Option.some.injEq] at hc
  subst hc
  decide

/-- A check occurs in another only if both are the same. -/
theorem occursIn_check_iff (hf : f.isPlain = true) (hn : n.IsWord) (hm : m.IsWord) :
    (f.check n).occursIn (f.check m) = true ↔ n = m := by
  have hstem := quote_not_mem_stem (quote_not_mem_field hf)
  constructor
  · intro h
    obtain ⟨before, after, heq⟩ := Text.occursIn_iff.mp h
    rw [check_eq, check_eq] at heq
    -- both texts have two quotes, so the first ones are at the same place, and so are the others
    have hcount := congrArg (List.count '"') heq
    simp only [List.count_append, List.count_cons, List.count_eq_zero_of_not_mem hstem,
      List.count_eq_zero_of_not_mem hn.quote_not_mem, List.count_eq_zero_of_not_mem hm.quote_not_mem,
      List.count_nil, beq_self_eq_true, if_true] at hcount
    have hbefore : '"' ∉ before := List.count_eq_zero.mp (by omega)
    have hafter : '"' ∉ after := List.count_eq_zero.mp (by omega)
    have houter : f.stem ++ '"' :: (m ++ ['"'])
        = (before ++ f.stem) ++ '"' :: (n ++ '"' :: after) := by
      rw [heq]
      simp
    have hinner : m ++ ['"'] = n ++ '"' :: after :=
      ((Text.append_cons_inj hstem (by simp [hbefore, hstem])).mp houter).2
    exact ((Text.append_cons_inj hm.quote_not_mem hn.quote_not_mem).mp hinner).1.symm
  · rintro rfl
    exact Text.occursIn_iff.mpr ⟨[], [], by simp⟩

/-! ## Tokens -/

/-- A base name that is compared as an identifier stands behind the stem without quotes. -/
theorem baseCheck_of_identifier (hbase : f.base = .identifier) :
    f.baseCheck = f.stem ++ baseName := by
  rw [baseCheck, hbase]
  rfl

/-- The bare word has no quotes around it. -/
theorem quote_not_mem_baseCheck (hf : '"' ∉ f.field) (hbase : f.base = .identifier) :
    '"' ∉ f.baseCheck := by
  rw [baseCheck_of_identifier hbase, List.mem_append, not_or]
  exact ⟨quote_not_mem_stem hf, by decide⟩

/-- The check of the base name is made of the characters of checks. -/
theorem isCheckChar_of_mem_baseCheck (hf : f.isPlain = true) :
    ∀ c ∈ f.baseCheck, isCheckChar c = true := by
  cases hbase : f.base with
  | literal =>
    rw [baseCheck, hbase]
    exact isCheckChar_of_mem_check hf (by decide)
  | identifier =>
    rw [baseCheck_of_identifier hbase]
    intro c hc
    rcases List.mem_append.mp hc with hc | hc
    · exact isCheckChar_of_mem_stem hf c hc
    · have hword : Text.IsWord baseName := by decide
      simp [isCheckChar, hword c hc]

/-- The check of the base name does not end with white space. -/
theorem trimmed_baseCheck (f : ConditionForm) : f.baseCheck.Trimmed := by
  cases hbase : f.base with
  | literal =>
    rw [baseCheck, hbase]
    exact f.trimmed_check baseName
  | identifier =>
    rw [baseCheck_of_identifier hbase, Text.trimmed_append_iff (by decide)]
    decide

/-- **The text is written like a comparison of the field**: it starts with the field, is made of the
characters of checks, and does not end with white space. -/
structure IsToken (f : ConditionForm) (t : Text) : Prop where
  starts : f.field <+: t
  chars : ∀ c ∈ t, isCheckChar c = true
  trimmed : t.Trimmed

/-- The check of a word is written like a comparison of the field. -/
theorem isToken_check (hf : f.isPlain = true) (hn : n.IsWord) : f.IsToken (f.check n) where
  starts := ⟨_, by rw [check_eq, stem]; simp; rfl⟩
  chars := isCheckChar_of_mem_check hf hn
  trimmed := f.trimmed_check n

/-- The check of the base name is written like a comparison of the field. -/
theorem isToken_baseCheck (hf : f.isPlain = true) : f.IsToken f.baseCheck where
  starts := by
    rw [baseCheck]
    cases f.base with
    | literal => exact (isToken_check hf (by decide)).starts
    | identifier => exact ⟨_, by rw [compare]; simp; rfl⟩
  chars := isCheckChar_of_mem_baseCheck hf
  trimmed := f.trimmed_baseCheck

/-- A token starts with a character of the field. -/
theorem IsToken.exists_eq_cons (hf : f.isPlain = true) (ht : f.IsToken t) :
    ∃ c cs, t = c :: cs ∧ c ∈ f.field := by
  simp only [isPlain, Bool.and_eq_true, Bool.not_eq_true', List.isEmpty_eq_false_iff] at hf
  obtain ⟨c, cs, hfield⟩ := List.exists_cons_of_ne_nil hf.1
  obtain ⟨rest, rfl⟩ := ht.starts
  exact ⟨c, cs ++ rest, by simp [hfield], by simp [hfield]⟩

/-- What is written like a comparison of the field is not empty. -/
theorem IsToken.ne_nil (hf : f.isPlain = true) (ht : f.IsToken t) : t ≠ [] := by
  obtain ⟨c, cs, rfl, -⟩ := ht.exists_eq_cons hf
  simp

/-! ## Extended conditions -/

/-- The condition with checks of the names behind it. -/
def extend (f : ConditionForm) (condition : Text) (names : List Text) : Text :=
  condition ++ names.flatMap fun n => f.connective ++ f.check n

/-- The extra names whose checks do not stand in the condition. -/
def absent (f : ConditionForm) (condition : Text) (names : NameSet) : List Text :=
  names.toList.filter fun n => !(f.check n).occursIn condition

/-- **The condition with the missing checks of the names behind it.** -/
def extended (f : ConditionForm) (condition : Text) (names : NameSet) : Text :=
  f.extend condition (f.absent condition names)

/-- The absent names are those of the set whose checks do not stand in the condition. -/
theorem mem_absent_iff : n ∈ f.absent condition names ↔
    n ∈ names.toList ∧ (f.check n).occursIn condition = false := by
  rw [absent, List.mem_filter, Bool.not_eq_true']

/-- An absent name is a word. -/
theorem isWord_of_mem_absent (h : n ∈ f.absent condition names) : n.IsWord :=
  NameSet.isWord_of_mem (mem_absent_iff.mp h).1

/-- An absent name is not the base name. -/
theorem ne_baseName_of_mem_absent (h : n ∈ f.absent condition names) : n ≠ baseName :=
  NameSet.ne_baseName_of_mem (mem_absent_iff.mp h).1

/-- Without names, a condition is not extended. -/
@[simp] theorem extend_nil (f : ConditionForm) (condition : Text) :
    f.extend condition [] = condition := by
  simp [extend]

/-- A condition is extended by one check after the other. -/
theorem extend_cons (f : ConditionForm) (condition n : Text) (ns : List Text) :
    f.extend condition (n :: ns) = f.extend (condition ++ (f.connective ++ f.check n)) ns := by
  simp [extend]

/-- A condition that is extended twice is extended by both lists. -/
theorem extend_append (f : ConditionForm) (condition : Text) (ns ms : List Text) :
    f.extend condition (ns ++ ms) = f.extend (f.extend condition ns) ms := by
  simp [extend]

/-- The missing checks are those of the absent names. -/
theorem missing_eq (f : ConditionForm) (condition : Text) (names : NameSet) :
    f.missing condition names = (f.absent condition names).map f.check := by
  rw [missing, absent, checks, List.filter_map]
  rfl

/-- The checks behind a connective each, or joined by connectives behind one. -/
theorem extend_eq_intercalate (f : ConditionForm) (condition : Text) {ns : List Text}
    (hns : ns ≠ []) :
    f.extend condition ns
      = condition ++ f.connective ++ List.intercalate f.connective (ns.map f.check) := by
  induction ns generalizing condition with
  | nil => exact absurd rfl hns
  | cons n ns ih =>
    rw [extend_cons]
    cases ns with
    | nil => simp [List.intercalate]
    | cons m ms =>
      rw [ih _ (by simp)]
      simp [List.intercalate]

/-- The whole condition is the check of the base name, extended. -/
theorem build_eq (f : ConditionForm) (names : NameSet) :
    f.build names = f.extend f.baseCheck names.toList := by
  rw [build, tokens, checks]
  cases h : names.toList with
  | nil => simp [List.intercalate]
  | cons n ns =>
    rw [extend_eq_intercalate f _ (by simp)]
    simp [List.intercalate]

/-- A connective is its joint twice, between spaces. -/
theorem connective_eq (f : ConditionForm) :
    f.connective = [' ', f.comparison.joint, f.comparison.joint, ' '] := by
  rw [connective]
  cases f.comparison <;> rfl

/-- The joint of a connective does not occur in checks. -/
theorem isCheckChar_joint (c : Comparison) : isCheckChar c.joint = false := by
  cases c <;> decide

/-- A connective is a character that does not occur in checks, twice, between spaces. -/
theorem exists_connective (f : ConditionForm) :
    ∃ d, f.connective = [' ', d, d, ' '] ∧ isCheckChar d = false :=
  ⟨_, f.connective_eq, isCheckChar_joint _⟩

/-- No character of a field stands in a connective. -/
theorem not_mem_connective {c : Char} (hf : f.isPlain = true) (hc : c ∈ f.field) :
    c ∉ f.connective := by
  simp only [isPlain, Bool.and_eq_true, List.all_eq_true] at hf
  have hplain := hf.2 c hc
  have hall : f.connective.all (fun d => !(Text.isIdentChar d || d == '-' || d == '>')) = true := by
    rw [connective]
    cases f.comparison <;> decide
  intro hmem
  have hother := List.all_eq_true.mp hall c hmem
  rw [hplain] at hother
  exact absurd hother (by decide)

/-- A token does not reach over the end of a condition into what is put behind it. -/
theorem IsToken.not_prefix_connective {p q : Text} (ht : f.IsToken t) (h : t = p ++ q)
    (hq : q ≠ []) : ¬ q <+: f.connective ++ w := by
  obtain ⟨d, hconn, hd⟩ := f.exists_connective
  intro hstarts
  rw [hconn] at hstarts
  obtain ⟨c, q, rfl⟩ := List.exists_cons_of_ne_nil hq
  simp only [List.cons_append, List.cons_prefix_cons] at hstarts
  obtain ⟨rfl, hstarts⟩ := hstarts
  -- a token does not end with a space, and it has no second character of a connective
  cases q with
  | nil =>
    have htrim := ht.trimmed
    rw [h, Text.trimmed_append_iff (by simp)] at htrim
    exact absurd (htrim ' ' (by simp)) (by decide)
  | cons e q =>
    simp only [List.cons_prefix_cons] at hstarts
    obtain ⟨rfl, -⟩ := hstarts
    have hmem := ht.chars e (by simp [h])
    rw [hd] at hmem
    exact absurd hmem (by decide)

/-- A token does not start inside a connective, for it starts with a character of the field. -/
theorem IsToken.not_suffix_connective {p q : Text} (hf : f.isPlain = true) (ht : f.IsToken t)
    (h : t = p ++ q) (hp : p ≠ []) : ¬ p <:+ f.connective := by
  obtain ⟨c, cs, htoken, hc⟩ := ht.exists_eq_cons hf
  obtain ⟨d, p, rfl⟩ := List.exists_cons_of_ne_nil hp
  rw [htoken, List.cons_append, List.cons.injEq] at h
  exact fun hsuffix => not_mem_connective hf hc (hsuffix.subset (by simp [h.1]))

/-- No token stands in a connective. -/
theorem IsToken.occursIn_connective (hf : f.isPlain = true) (ht : f.IsToken t) :
    t.occursIn f.connective = false := by
  obtain ⟨c, cs, htoken, hc⟩ := ht.exists_eq_cons hf
  exact Text.occursIn_eq_false_of_mem (by simp [htoken]) (not_mem_connective hf hc)

/-- One more check adds itself to the checks that occur, and no other. -/
theorem occursIn_append_check_iff (hf : f.isPlain = true) (hn : n.IsWord) (hm : m.IsWord) :
    (f.check n).occursIn (condition ++ (f.connective ++ f.check m)) = true ↔
      (f.check n).occursIn condition = true ∨ n = m := by
  have ht := isToken_check hf hn
  rw [Text.occursIn_append_iff fun p q heq _ hq _ => ht.not_prefix_connective heq hq,
    Text.occursIn_append_iff fun p q heq hp _ hsuffix => absurd hsuffix
      (ht.not_suffix_connective hf heq hp),
    ht.occursIn_connective hf, occursIn_check_iff hf hn hm]
  simp

/-- **In an extended condition a check occurs exactly when it occurred before or was added.** -/
theorem occursIn_extend_iff {ns : List Text} (hf : f.isPlain = true) (hn : n.IsWord)
    (hns : ∀ m ∈ ns, m.IsWord) :
    (f.check n).occursIn (f.extend condition ns) = true ↔
      (f.check n).occursIn condition = true ∨ n ∈ ns := by
  induction ns generalizing condition with
  | nil => simp
  | cons m ns ih =>
    rw [extend_cons, ih fun m' h => hns m' (List.mem_cons_of_mem _ h),
      occursIn_append_check_iff hf hn (hns m (by simp)), List.mem_cons, or_assoc]

/-- The check of the base name is not empty. -/
theorem baseCheck_ne_nil (f : ConditionForm) : f.baseCheck ≠ [] := by
  rw [baseCheck]
  cases f.base <;> simp [check, compare]

/-- No check of an extra name stands in the check of the base name. -/
theorem occursIn_baseCheck (hf : f.isPlain = true) (hn : n ∈ names.toList) :
    (f.check n).occursIn f.baseCheck = false := by
  have hword := NameSet.isWord_of_mem hn
  cases hbase : f.base with
  | literal =>
    cases h : (f.check n).occursIn f.baseCheck with
    | false => rfl
    | true =>
      simp only [baseCheck, hbase] at h
      have hbaseName : Text.IsWord baseName := by decide
      exact absurd ((occursIn_check_iff hf hword hbaseName).mp h) (NameSet.ne_baseName_of_mem hn)
  | identifier =>
    have hquote := quote_not_mem_baseCheck (quote_not_mem_field hf) hbase
    exact Text.occursIn_eq_false_of_mem (by simp [check_eq]) hquote

/-- A condition that does not end with white space does not when it has been extended. -/
theorem trimmed_extend {ns : List Text} (h : condition.Trimmed) :
    (f.extend condition ns).Trimmed := by
  induction ns generalizing condition with
  | nil => simpa using h
  | cons n ns ih =>
    rw [extend_cons]
    refine ih ?_
    rw [← List.append_assoc, Text.trimmed_append_iff (f.check_ne_nil n)]
    exact f.trimmed_check n

/-- The whole condition is the check of the base name with all others missing. -/
theorem build_eq_extended (hf : f.isPlain = true) (names : NameSet) :
    f.build names = f.extended f.baseCheck names := by
  rw [build_eq, extended, absent, List.filter_eq_self.mpr]
  intro n hn
  simp [occursIn_baseCheck hf hn]

/-- Which checks are missing once a condition has been extended. -/
theorem occursIn_extended_iff (hf : f.isPlain = true) (hn : n.IsWord) :
    (f.check n).occursIn (f.extended condition names) = true ↔
      (f.check n).occursIn condition = true ∨ n ∈ names.toList := by
  rw [extended, occursIn_extend_iff hf hn fun _ => isWord_of_mem_absent, mem_absent_iff]
  cases (f.check n).occursIn condition <;> simp

end ConditionForm

/-! ## Several sets of names -/

namespace NameSet

/-- **The names of two sets**: those of the first, then those that only the second has. -/
def union (a b : NameSet) : NameSet := b.names.foldl insert a

/-- Inserting pairwise distinct names adds those that are not there. -/
theorem toList_foldl_insert (a : NameSet) {ns : List Name} (hns : ns.Nodup) :
    (ns.foldl insert a).toList
      = a.toList ++ (ns.map Name.text).filter fun n => decide (n ∉ a.toList) := by
  induction ns generalizing a with
  | nil => simp
  | cons n ns ih =>
    obtain ⟨hn, hns⟩ := List.nodup_cons.mp hns
    rw [List.foldl_cons, ih _ hns, toList_insert, List.map_cons]
    by_cases h : n.text ∈ a.toList
    · rw [if_pos h, List.filter_cons_of_neg (by simp [h])]
    · rw [if_neg h, List.filter_cons_of_pos (by simp [h]), List.append_assoc]
      congr 1
      rw [List.singleton_append]
      congr 1
      refine List.filter_congr fun m hm => ?_
      -- `n` is there now, but it is none of the names that are left
      have hne : m ≠ n.text := by
        rintro rfl
        obtain ⟨n', hn', htext⟩ := List.mem_map.mp hm
        exact hn (Name.text_injective htext ▸ hn')
      simp [hne]

/-- A union lists the names of the first set, and then the other ones of the second. -/
theorem toList_union (a b : NameSet) :
    (a.union b).toList = a.toList ++ b.toList.filter fun n => decide (n ∉ a.toList) :=
  toList_foldl_insert a b.nodup

/-- A union has the names of both sets. -/
theorem mem_toList_union {a b : NameSet} {n : Text} :
    n ∈ (a.union b).toList ↔ n ∈ a.toList ∨ n ∈ b.toList := by
  rw [toList_union, List.mem_append, List.mem_filter]
  by_cases h : n ∈ a.toList <;> simp [h]

/-- A set is not empty exactly if it has a name. -/
theorem isEmpty_eq_false_iff {a : NameSet} : a.isEmpty = false ↔ ∃ n, n ∈ a.toList := by
  rw [isEmpty, List.isEmpty_eq_false_iff_exists_mem]
  constructor
  · rintro ⟨n, hn⟩
    exact ⟨n.text, List.mem_map_of_mem hn⟩
  · rintro ⟨n, hn⟩
    obtain ⟨m, hm, -⟩ := List.mem_map.mp hn
    exact ⟨m, hm⟩

/-- Sets with the same texts are the same. -/
theorem ext_toList {a b : NameSet} (h : a.toList = b.toList) : a = b := by
  obtain ⟨as, _⟩ := a
  obtain ⟨bs, _⟩ := b
  have has : as = bs := (List.map_inj_right fun _ _ heq => Name.text_injective heq).mp h
  subst has
  rfl

/-- A union with the empty set is the other set. -/
@[simp] theorem empty_union (a : NameSet) : empty.union a = a :=
  ext_toList (by simp [toList_union])

/-- A union with a set that is empty is the other set. -/
theorem union_of_isEmpty {a b : NameSet} (h : a.isEmpty = true) : a.union b = b := by
  have hnil : a.toList = [] := by
    rw [toList, List.isEmpty_iff.mp h, List.map_nil]
  exact ext_toList (by simp [toList_union, hnil])

/-- A step that reads names as `insert` puts in the names of one set after the other. -/
theorem foldlM_toList {step : NameSet → Text → Except NameError NameSet}
    (hstep : ∀ a n, step a (Name.text n) = .ok (a.insert n)) (sets : List NameSet) (a : NameSet) :
    (sets.flatMap toList).foldlM step a = .ok (sets.foldl union a) := by
  have hnames : ∀ (ns : List Name) (a : NameSet),
      (ns.map Name.text).foldlM step a = .ok (ns.foldl insert a) := by
    intro ns
    induction ns with
    | nil => intro a; rfl
    | cons n ns ih =>
      intro a
      rw [List.map_cons, List.foldlM_cons, hstep]
      exact ih _
  induction sets generalizing a with
  | nil => rfl
  | cons b sets ih =>
    rw [List.flatMap_cons, List.foldlM_append, toList, hnames]
    exact ih _

/-- The entries of several sets, put together, stand for the union of the sets. -/
theorem ofEntries_flatMap (sets : List NameSet) :
    ofEntries (sets.flatMap toList) = .ok (sets.foldl union empty) :=
  foldlM_toList (fun a n => by simp only [Name.ofEntry_text]) sets empty

end NameSet

/-- **Extending for one set of names and then for another is extending for both.** -/
theorem ConditionForm.extended_extended {f : ConditionForm} (hf : f.isPlain = true)
    (condition : Text) (a b : NameSet) :
    f.extended (f.extended condition a) b = f.extended condition (a.union b) := by
  have habsent : f.absent condition (a.union b)
      = f.absent condition a ++ f.absent (f.extended condition a) b := by
    rw [absent, NameSet.toList_union, List.filter_append, List.filter_filter, absent, absent]
    -- the second step lacks what the union lacks beyond the names of the first step
    congr 1
    refine List.filter_congr fun n hn => ?_
    rw [Bool.eq_iff_iff]
    have hoccurs : (f.check n).occursIn (f.extended condition a) = true ↔
        (f.check n).occursIn condition = true ∨ n ∈ a.toList :=
      occursIn_extended_iff hf (NameSet.isWord_of_mem hn)
    simp only [Bool.and_eq_true, Bool.not_eq_true', decide_eq_true_eq, ← Bool.not_eq_true,
      hoccurs, not_or]
  calc f.extended (f.extended condition a) b
      = f.extend (f.extend condition (f.absent condition a))
          (f.absent (f.extended condition a) b) := rfl
    _ = f.extend condition (f.absent condition (a.union b)) := by rw [habsent, extend_append]

end SitePatch
