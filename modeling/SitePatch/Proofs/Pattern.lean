import SitePatch.Pattern

/-! # What patterns take

`Pattern.Takes p w rest` says that `p` takes exactly `w` from a text that goes on with `rest`. Each
kind of atom has its own characterisation, a sequence splits its text among its pieces
(`Pattern.takes_cons`), and repeated rounds split theirs among the rounds
(`Piece.takes_rounds_iff`). Main statement: a pattern that ends with a word reads nothing beyond it,
so it takes the same whatever follows (`Pattern.takes_of_isClosed`). -/

namespace SitePatch

/-! ## Characters of a class -/

namespace CharClass

variable {cs : List Char} {p : Char → Bool} {c : Char}

/-- What all listed characters have, a character of the class has. -/
theorem of_has_oneOf (hcs : cs.all p = true) (h : (oneOf cs).has c = true) : p c = true :=
  List.all_eq_true.mp hcs c (List.contains_iff_mem.mp h)

/-- What no excluded character has keeps a character in the class. -/
theorem has_noneOf_of (hcs : (cs.all fun d => !p d) = true) (h : p c = true) :
    (noneOf cs).has c = true := by
  rw [has, Bool.not_eq_true', ← Bool.not_eq_true, List.contains_iff_mem]
  intro hc
  have hnot := List.all_eq_true.mp hcs c hc
  rw [h] at hnot
  exact absurd hnot (by decide)

end CharClass

/-! ## Where a run stops -/

/-- The text is empty, or starts with a character outside the class. -/
def Text.StopsAt (has : Char → Bool) (t : Text) : Prop := ∀ c ∈ t.head?, has c = false

instance (has : Char → Bool) (t : Text) : Decidable (t.StopsAt has) :=
  match t with
  | [] => isTrue (fun _ h => absurd h (by simp))
  | c :: _ => if h : has c = false then isTrue (fun _ hd => Option.some.inj hd ▸ h)
    else isFalse fun hall => h (hall c rfl)

namespace Text

variable {has : Char → Bool} {w rest : Text}

/-- The end of a text stops every run. -/
@[simp] theorem stopsAt_nil : StopsAt has [] := by simp [StopsAt]

/-- A run stops at a character outside its class. -/
@[simp] theorem stopsAt_cons {c : Char} {t : Text} : StopsAt has (c :: t) ↔ has c = false := by
  simp [StopsAt]

/-- Only the first character decides where a run stops. -/
theorem stopsAt_append_iff (hw : w ≠ []) : StopsAt has (w ++ rest) ↔ StopsAt has w := by
  cases w with
  | nil => exact absurd rfl hw
  | cons c cs => simp

/-- A run takes the characters of its class up to where it stops. -/
theorem takeWhile_append_of_stopsAt (hw : ∀ c ∈ w, has c = true) (hr : StopsAt has rest) :
    (w ++ rest).takeWhile has = w := by
  rw [List.takeWhile_append_of_pos hw]
  cases rest with
  | nil => simp
  | cons c cs => simp [stopsAt_cons.mp hr]

/-- What is left of a text is where the run stops. -/
theorem dropWhile_append_of_stopsAt (hw : ∀ c ∈ w, has c = true) (hr : StopsAt has rest) :
    (w ++ rest).dropWhile has = rest := by
  rw [List.dropWhile_append_of_pos hw]
  cases rest with
  | nil => simp
  | cons c cs => simp [stopsAt_cons.mp hr]

/-- A text is cut behind its longest run exactly where the run stops. -/
theorem takeWhile_append_eq_iff :
    (w ++ rest).takeWhile has = w ∧ (w ++ rest).dropWhile has = rest ↔
      (∀ c ∈ w, has c = true) ∧ StopsAt has rest := by
  constructor
  · rintro ⟨htake, hdrop⟩
    have hall := List.all_takeWhile (p := has) (l := w ++ rest)
    rw [htake, List.all_eq_true] at hall
    refine ⟨hall, ?_⟩
    -- what is left behind the run does not start with a character of the class
    have hhead := List.head?_dropWhile_not has (w ++ rest)
    rw [hdrop] at hhead
    cases rest with
    | nil => exact stopsAt_nil
    | cons c cs => exact stopsAt_cons.mpr hhead
  · rintro ⟨hw, hr⟩
    exact ⟨takeWhile_append_of_stopsAt hw hr, dropWhile_append_of_stopsAt hw hr⟩

end Text

/-! ## Atoms -/

/-- The atom takes exactly `w` from a text that goes on with `rest`. -/
def Atom.Takes (a : Atom) (w rest : Text) : Prop := a.take? (w ++ rest) = some (w, rest)

namespace Atom

variable {w rest : Text}

/-- A word takes itself. -/
@[simp] theorem takes_lit {word : Text} : (lit word).Takes w rest ↔ w = word := by
  simp only [Takes, take?, Option.map_eq_some_iff, Prod.mk.injEq, Text.after?_eq_some_iff]
  constructor
  · rintro ⟨_, -, rfl, -⟩
    rfl
  · rintro rfl
    exact ⟨rest, rfl, rfl, rfl⟩

/-- A run takes characters of its class, at least as many as it must, up to where it stops. -/
@[simp] theorem takes_run {cls : CharClass} {n : Nat} :
    (run cls n).Takes w rest ↔
      (∀ c ∈ w, cls.has c = true) ∧ n ≤ w.length ∧ rest.StopsAt cls.has := by
  simp only [Takes, take?]
  constructor
  · intro h
    split at h
    · rename_i hn
      simp only [Option.some.injEq, Prod.mk.injEq] at h
      obtain ⟨hw, hr⟩ := Text.takeWhile_append_eq_iff.mp h
      exact ⟨hw, h.1 ▸ hn, hr⟩
    · simp at h
  · rintro ⟨hw, hn, hr⟩
    rw [Text.takeWhile_append_of_stopsAt hw hr, Text.dropWhile_append_of_stopsAt hw hr, if_pos hn]

/-- A gap between lines takes white space with a newline in it, up to where it stops. -/
@[simp] theorem takes_lineGap :
    lineGap.Takes w rest ↔
      (∀ c ∈ w, Text.isBlank c = true) ∧ '\n' ∈ w ∧ rest.StopsAt Text.isBlank := by
  simp only [Takes, take?]
  constructor
  · intro h
    split at h
    · rename_i hn
      simp only [Option.some.injEq, Prod.mk.injEq] at h
      obtain ⟨hw, hr⟩ := Text.takeWhile_append_eq_iff.mp h
      exact ⟨hw, by simpa [h.1] using hn, hr⟩
    · simp at h
  · rintro ⟨hw, hn, hr⟩
    rw [Text.takeWhile_append_of_stopsAt hw hr, Text.dropWhile_append_of_stopsAt hw hr,
      if_pos (by simpa using hn)]

/-- The end of a word takes nothing, in front of no word character. -/
@[simp] theorem takes_wordEnd :
    wordEnd.Takes w rest ↔ w = [] ∧ rest.StopsAt Text.isWordChar := by
  constructor
  · intro h
    cases w with
    | nil =>
      refine ⟨rfl, ?_⟩
      cases rest with
      | nil => exact Text.stopsAt_nil
      | cons c cs =>
        by_cases hc : Text.isWordChar c = true
        · simp [Takes, take?, hc] at h
        · exact Text.stopsAt_cons.mpr (by simpa using hc)
    | cons c cs =>
      rw [Takes, List.cons_append, take?] at h
      split at h <;> simp at h
  · rintro ⟨rfl, hr⟩
    cases rest with
    | nil => rfl
    | cons c cs => simp [Takes, take?, Text.stopsAt_cons.mp hr]

/-- What an atom takes depends on the first character behind it only. -/
theorem takes_append_iff {a : Atom} {v r r' : Text} (hv : v ≠ []) :
    a.Takes w (v ++ r) ↔ a.Takes w (v ++ r') := by
  cases a with
  | lit word => simp
  | run cls n => simp [Text.stopsAt_append_iff hv]
  | lineGap => simp [Text.stopsAt_append_iff hv]
  | wordEnd => simp [Text.stopsAt_append_iff hv]

end Atom

/-! ## Sequences -/

/-- The piece takes exactly `w` from a text that goes on with `rest`. -/
def Piece.Takes (p : Piece) (w rest : Text) : Prop := p.take? (w ++ rest) = some (w, rest)

/-- **The pattern takes exactly `w`** from a text that goes on with `rest`. -/
def Pattern.Takes (p : Pattern) (w rest : Text) : Prop := p.take? (w ++ rest) = some (w, rest)

instance (p : Pattern) (w rest : Text) : Decidable (p.Takes w rest) :=
  inferInstanceAs (Decidable (p.take? (w ++ rest) = some (w, rest)))

/-- A piece of one atom takes what the atom takes. -/
@[simp] theorem Piece.takes_atom {a : Atom} {w rest : Text} :
    (Piece.atom a).Takes w rest ↔ a.Takes w rest := Iff.rfl

namespace Pattern

variable {p q : Pattern} {t w rest : Text}

/-- A result of the search for a pattern is a way to write the text. -/
theorem take?_eq_some_iff : p.take? t = some (w, rest) ↔ t = w ++ rest ∧ p.Takes w rest := by
  constructor
  · intro h
    have ht := eq_append_of_take? h
    exact ⟨ht, by rw [Takes, ← ht]; exact h⟩
  · rintro ⟨rfl, h⟩
    exact h

/-- The empty pattern takes nothing. -/
@[simp] theorem takes_nil : Pattern.Takes [] w rest ↔ w = [] := by
  simp [Takes, take?, eq_comm]

/-- A sequence splits its text between the first piece and the others. -/
theorem takes_cons {a : Piece} :
    Pattern.Takes (a :: p) w rest ↔
      ∃ w₁ w₂, w = w₁ ++ w₂ ∧ a.Takes w₁ (w₂ ++ rest) ∧ p.Takes w₂ rest := by
  constructor
  · intro h
    rw [Takes, take?] at h
    split at h
    · simp at h
    · rename_i w₁ r₁ hfirst
      split at h
      · simp at h
      · rename_i w₂ r₂ hmore
        simp only [Option.some.injEq, Prod.mk.injEq] at h
        obtain ⟨rfl, rfl⟩ := h
        obtain ⟨rfl, hp⟩ := take?_eq_some_iff.mp hmore
        have hfirst' : w₁ ++ w₂ ++ r₂ = w₁ ++ (w₂ ++ r₂) := List.append_assoc ..
        exact ⟨w₁, w₂, rfl, by rw [Piece.Takes, ← hfirst']; exact hfirst, hp⟩
  · rintro ⟨w₁, w₂, rfl, hfirst, hmore⟩
    rw [Takes, take?, List.append_assoc, hfirst]
    simp only [Takes] at hmore
    simp [hmore]

/-- Two sequences split their text between them. -/
theorem takes_append :
    Pattern.Takes (p ++ q) w rest ↔
      ∃ w₁ w₂, w = w₁ ++ w₂ ∧ p.Takes w₁ (w₂ ++ rest) ∧ q.Takes w₂ rest := by
  induction p generalizing w with
  | nil =>
    constructor
    · intro h
      exact ⟨[], w, rfl, by simp, h⟩
    · rintro ⟨w₁, w₂, rfl, h₁, h₂⟩
      rw [takes_nil.mp h₁]
      exact h₂
  | cons a p ih =>
    rw [List.cons_append, takes_cons]
    constructor
    · rintro ⟨u, v, rfl, ha, hv⟩
      obtain ⟨v₁, v₂, rfl, h₁, h₂⟩ := ih.mp hv
      refine ⟨u ++ v₁, v₂, by rw [List.append_assoc], takes_cons.mpr ⟨u, v₁, rfl, ?_, h₁⟩, h₂⟩
      rwa [← List.append_assoc]
    · rintro ⟨w₁, w₂, rfl, h₁, h₂⟩
      obtain ⟨u, v₁, rfl, ha, hv₁⟩ := takes_cons.mp h₁
      refine ⟨u, v₁ ++ w₂, by rw [List.append_assoc], ?_, ih.mpr ⟨v₁, w₂, rfl, hv₁, h₂⟩⟩
      rwa [List.append_assoc]

/-- A pattern takes one text only. -/
theorem Takes.eq {w' rest' : Text} (h : p.Takes w rest) (h' : p.Takes w' rest')
    (ht : w ++ rest = w' ++ rest') : w = w' ∧ rest = rest' := by
  rw [Takes] at h h'
  rw [ht, h'] at h
  simp only [Option.some.injEq, Prod.mk.injEq] at h
  exact ⟨h.1.symm, h.2.symm⟩

end Pattern

/-! ## Rounds -/

/-- The atoms of one round as a pattern. -/
abbrev Atom.sequence (as : List Atom) : Pattern := as.map .atom

/-- Atoms taken one after the other are the sequence of them. -/
theorem Atom.takeAll?_eq (as : List Atom) (t : Text) :
    Atom.takeAll? as t = Pattern.take? (Atom.sequence as) t := by
  induction as generalizing t with
  | nil => rfl
  | cons a as ih => simp only [Atom.takeAll?, List.map_cons, Pattern.take?, Piece.take?, ih]

namespace Atom

variable {as : List Atom} {most : Nat} {t w rest : Text}

/-- Texts that are not empty are no more than the characters they hold. -/
theorem length_le_length_flatten {rs : List Text} (h : ∀ r ∈ rs, r ≠ []) :
    rs.length ≤ rs.flatten.length := by
  induction rs with
  | nil => simp
  | cons r rs ih =>
    have hr := List.length_pos_iff.mpr (h r (by simp))
    have hrs := ih fun r' h' => h r' (List.mem_cons_of_mem _ h')
    simp only [List.length_cons, List.flatten_cons, List.length_append]
    omega

/-- Further rounds take as many rounds as they can: all that are allowed, or all that there are. -/
theorem exists_rounds_of_takeRounds (as : List Atom) (most : Nat) (t : Text) :
    ∃ rs : List Text, (takeRounds as most t).1 = rs.flatten ∧
      (∀ r ∈ rs, ∃ r', (sequence as).Takes r r') ∧
      (rs.length = most ∨ takeAll? as (takeRounds as most t).2 = none) := by
  -- on the number of rounds that are allowed, for each round leaves a shorter text
  induction most generalizing t with
  | zero => exact ⟨[], rfl, by simp, .inl rfl⟩
  | succ most ih =>
    rw [takeRounds]
    split
    · rename_i hnone
      exact ⟨[], rfl, by simp, .inr hnone⟩
    · rename_i r₁ t₁ hround
      obtain ⟨rs, hw, hrs, hend⟩ := ih t₁
      rw [takeAll?_eq] at hround
      refine ⟨r₁ :: rs, by simp [hw], ?_, ?_⟩
      · intro r hr
        rcases List.mem_cons.mp hr with rfl | hr
        · exact ⟨t₁, (Pattern.take?_eq_some_iff.mp hround).2⟩
        · exact hrs r hr
      · exact hend.imp (fun h => by simp [h]) id

/-- Rounds that stand one behind the other are all taken. -/
theorem takeRounds_flatten {rs : List Text} (hrs : ∀ r ∈ rs, ∀ r', (sequence as).Takes r r')
    (hlen : rs.length ≤ most) (hend : takeAll? as rest = none) :
    takeRounds as most (rs.flatten ++ rest) = (rs.flatten, rest) := by
  induction rs generalizing most with
  | nil => cases most <;> simp [takeRounds, hend]
  | cons r rs ih =>
    cases most with
    | zero => simp at hlen
    | succ most =>
      have hr : takeAll? as (r ++ (rs.flatten ++ rest)) = some (r, rs.flatten ++ rest) := by
        rw [takeAll?_eq]
        exact hrs r (by simp) _
      rw [List.flatten_cons, List.append_assoc, takeRounds, hr]
      simp only
      rw [ih (fun r' h => hrs r' (List.mem_cons_of_mem _ h)) (by simpa using hlen)]

end Atom

section Rounds

variable {as : List Atom} {w rest : Text}
  (hlocal : ∀ r r₁ r₂, (Atom.sequence as).Takes r r₁ → (Atom.sequence as).Takes r r₂)
  (hpos : ∀ r r₁, (Atom.sequence as).Takes r r₁ → r ≠ [])

include hlocal hpos

/-- What rounds take is one round after the other, each taken by the atoms, until they take no more.
-/
theorem Piece.exists_of_takes_rounds (h : (rounds as).Takes w rest) :
    ∃ rs : List Text, rs ≠ [] ∧ w = rs.flatten ∧ (∀ r ∈ rs, (Atom.sequence as).Takes r []) ∧
      Atom.takeAll? as rest = none := by
  rw [Takes, take?] at h
  split at h
  · simp at h
  · rename_i r₁ t₁ hround
    simp only [Option.some.injEq, Prod.mk.injEq] at h
    obtain ⟨hw, hrest⟩ := h
    rw [Atom.takeAll?_eq] at hround
    obtain ⟨htext, hr₁⟩ := Pattern.take?_eq_some_iff.mp hround
    obtain ⟨rs, hmore, hrs, hend⟩ := Atom.exists_rounds_of_takeRounds as (w ++ rest).length t₁
    rw [hmore] at hw
    rw [hrest] at hend
    have hall : ∀ r ∈ rs, (Atom.sequence as).Takes r [] := by
      intro r hr
      obtain ⟨_, hr'⟩ := hrs r hr
      exact hlocal _ _ _ hr'
    refine ⟨r₁ :: rs, by simp, by rw [← hw, List.flatten_cons], ?_, ?_⟩
    · intro r hr
      rcases List.mem_cons.mp hr with rfl | hr
      · exact hlocal _ _ _ hr₁
      · exact hall r hr
    · refine hend.resolve_left fun hlen => ?_
      -- there is no room for so many rounds
      have hsize := Atom.length_le_length_flatten fun r hr => hpos _ _ (hall r hr)
      have hpos₁ := List.length_pos_iff.mpr (hpos _ _ hr₁)
      have htaken := Atom.takeRounds_append as (w ++ rest).length t₁
      rw [hmore, hrest] at htaken
      rw [htaken] at htext
      have htotal := congrArg List.length htext
      simp only [List.length_append] at htotal hlen
      omega

/-- Rounds take one round after the other until the atoms take no more. -/
theorem Piece.takes_rounds_flatten {r : Text} {rs : List Text}
    (hrs : ∀ r' ∈ r :: rs, (Atom.sequence as).Takes r' []) (hend : Atom.takeAll? as rest = none) :
    (rounds as).Takes (r :: rs).flatten rest := by
  have hall : ∀ r' ∈ r :: rs, ∀ r'', (Atom.sequence as).Takes r' r'' :=
    fun r' h r'' => hlocal _ _ _ (hrs r' h)
  have hr : Atom.takeAll? as (r ++ (rs.flatten ++ rest)) = some (r, rs.flatten ++ rest) := by
    rw [Atom.takeAll?_eq]
    exact hall r (by simp) _
  have hsize : rs.length ≤ (r ++ (rs.flatten ++ rest)).length := by
    have hlen : rs.length ≤ rs.flatten.length := Atom.length_le_length_flatten fun r' h =>
      hpos _ _ (hall r' (List.mem_cons_of_mem _ h) [])
    simp only [List.length_append]
    omega
  rw [Takes, take?, List.flatten_cons, List.append_assoc, hr]
  simp only
  rw [Atom.takeRounds_flatten (fun r' h => hall r' (List.mem_cons_of_mem _ h)) hsize hend]

/-- **What repeated rounds take**: one round or more, up to where no further round stands. The
rounds have to take something, and to read nothing beyond what they take. -/
theorem Piece.takes_rounds_iff :
    (rounds as).Takes w rest ↔
      ∃ rs : List Text, rs ≠ [] ∧ w = rs.flatten ∧ (∀ r ∈ rs, (Atom.sequence as).Takes r []) ∧
        Atom.takeAll? as rest = none := by
  constructor
  · exact exists_of_takes_rounds hlocal hpos
  · rintro ⟨rs, hne, rfl, hrs, hend⟩
    cases rs with
    | nil => exact absurd rfl hne
    | cons r rs => exact takes_rounds_flatten hlocal hpos hrs hend

end Rounds

/-! ## First characters -/

/-- White space is read in one way only. -/
theorem Text.blank_append_inj {g g' t t' : Text} {c d : Char}
    (hg : ∀ x ∈ g, isBlank x = true) (hg' : ∀ x ∈ g', isBlank x = true)
    (hc : isBlank c = false) (hd : isBlank d = false) (h : g ++ c :: t = g' ++ d :: t') :
    g = g' ∧ c = d ∧ t = t' := by
  have htake := congrArg (List.takeWhile isBlank) h
  rw [takeWhile_append_of_stopsAt hg (stopsAt_cons.mpr hc),
    takeWhile_append_of_stopsAt hg' (stopsAt_cons.mpr hd)] at htake
  subst htake
  simpa using h

/-- The first character of a pattern that is no white space, if it stands in a word. -/
def Pattern.firstChar? : Pattern → Option Char
  | .atom (.lit (c :: _)) :: _ => if Text.isBlank c then none else some c
  | .atom (.run .blank _) :: ps => firstChar? ps
  | .atom .lineGap :: ps => firstChar? ps
  | _ => none

/-- The pattern without the white space that it starts with. -/
def Pattern.dropBlank : Pattern → Pattern
  | .atom (.run .blank _) :: ps => dropBlank ps
  | .atom .lineGap :: ps => dropBlank ps
  | ps => ps

/-- What a pattern takes is white space, and behind it what the pattern takes without that. -/
theorem Pattern.exists_takes_dropBlank {p : Pattern} {c : Char} {w rest : Text}
    (hp : p.firstChar? = some c) (h : p.Takes w rest) :
    Text.isBlank c = false ∧ ∃ g u, w = g ++ c :: u ∧ (∀ x ∈ g, Text.isBlank x = true) ∧
      p.dropBlank.Takes (c :: u) rest := by
  -- the recursion passes over white space, up to the first word
  induction p using firstChar?.induct generalizing w with
  | case1 d ds ps hd => simp [firstChar?, hd] at hp
  | case2 d ds ps hd =>
    simp only [firstChar?, hd, Bool.false_eq_true, if_false, Option.some.injEq] at hp
    subst hp
    have hword := h
    obtain ⟨w₁, w₂, rfl, h₁, -⟩ := takes_cons.mp h
    rw [Piece.takes_atom, Atom.takes_lit] at h₁
    subst h₁
    exact ⟨by simpa using hd, [], ds ++ w₂, rfl, by simp, hword⟩
  | case3 n ps ih =>
    obtain ⟨w₁, w₂, rfl, h₁, h₂⟩ := takes_cons.mp h
    rw [Piece.takes_atom, Atom.takes_run] at h₁
    obtain ⟨hc, g, u, rfl, hg, htakes⟩ := ih (by simpa [firstChar?] using hp) h₂
    refine ⟨hc, w₁ ++ g, u, by rw [List.append_assoc], ?_, htakes⟩
    intro x hx
    exact (List.mem_append.mp hx).elim (h₁.1 x) (hg x)
  | case4 ps ih =>
    obtain ⟨w₁, w₂, rfl, h₁, h₂⟩ := takes_cons.mp h
    rw [Piece.takes_atom, Atom.takes_lineGap] at h₁
    obtain ⟨hc, g, u, rfl, hg, htakes⟩ := ih (by simpa [firstChar?] using hp) h₂
    refine ⟨hc, w₁ ++ g, u, by rw [List.append_assoc], ?_, htakes⟩
    intro x hx
    exact (List.mem_append.mp hx).elim (h₁.1 x) (hg x)
  | case5 p h₁ h₂ h₃ => simp [firstChar?] at hp

/-- What a pattern takes starts with its first character, up to white space. -/
theorem Pattern.exists_of_firstChar? {p : Pattern} {c : Char} {w rest : Text}
    (hp : p.firstChar? = some c) (h : p.Takes w rest) :
    Text.isBlank c = false ∧ ∃ g u, w = g ++ c :: u ∧ ∀ x ∈ g, Text.isBlank x = true := by
  obtain ⟨hc, g, u, hw, hg, -⟩ := exists_takes_dropBlank hp h
  exact ⟨hc, g, u, hw, hg⟩

/-- A pattern does not take a text that starts with another character than its first one. -/
theorem Pattern.take?_eq_none_of_firstChar? {p : Pattern} {c d : Char} {g t : Text}
    (hp : p.firstChar? = some c) (hne : c ≠ d) (hg : ∀ x ∈ g, Text.isBlank x = true)
    (hd : Text.isBlank d = false) : p.take? (g ++ d :: t) = none := by
  cases htake : p.take? (g ++ d :: t) with
  | none => rfl
  | some found =>
    obtain ⟨w, rest⟩ := found
    obtain ⟨htext, hw⟩ := take?_eq_some_iff.mp htake
    obtain ⟨hc, g', u, rfl, hg'⟩ := exists_of_firstChar? hp hw
    rw [List.append_assoc, List.cons_append] at htext
    exact absurd (Text.blank_append_inj hg hg' hd hc htext).2.1.symm hne

/-! ## Closed patterns -/

/-- Whether a round ends with a word. -/
def Atom.endsInWord : List Atom → Bool
  | [] => false
  | [lit w] => !w.isEmpty
  | _ :: as => endsInWord as

/-- A round that ends with a word takes something, and the same whatever follows. -/
theorem Atom.takes_of_endsInWord {as : List Atom} {w r : Text} (has : endsInWord as = true)
    (h : (sequence as).Takes w r) : w ≠ [] ∧ ∀ r', (sequence as).Takes w r' := by
  induction as using endsInWord.induct generalizing w with
  | case1 => simp [endsInWord] at has
  | case2 word =>
    obtain ⟨w₁, w₂, rfl, h₁, h₂⟩ := Pattern.takes_cons.mp h
    rw [Piece.takes_atom, takes_lit] at h₁
    rw [List.map_nil, Pattern.takes_nil] at h₂
    subst h₁ h₂
    refine ⟨by simpa [endsInWord] using has, fun r' => ?_⟩
    exact Pattern.takes_cons.mpr ⟨w₁, [], rfl, by simp, by simp⟩
  | case3 a as hlit ih =>
    obtain ⟨w₁, w₂, rfl, h₁, h₂⟩ := Pattern.takes_cons.mp h
    have has' : endsInWord as = true := by
      cases a <;> cases as <;> simp_all [endsInWord]
    obtain ⟨hne, hall⟩ := ih has' h₂
    refine ⟨by simp [hne], fun r' => Pattern.takes_cons.mpr ⟨w₁, w₂, rfl, ?_, hall r'⟩⟩
    exact (takes_append_iff hne).mp h₁

namespace Pattern

variable {w rest : Text}

/-- Whether both characters are known and differ. -/
def differ : Option Char → Option Char → Bool
  | some c, some d => c != d
  | _, _ => false

/-- Whether the pattern ends with a word, and no round of it can be taken for what follows the
rounds. -/
def isClosed : Pattern → Bool
  | [] => false
  | [.atom (.lit w)] => !w.isEmpty
  | .atom _ :: ps => isClosed ps
  | .rounds as :: ps =>
    Atom.endsInWord as && differ (firstChar? (Atom.sequence as)) (firstChar? ps) && isClosed ps

/-- What stands behind the first piece of a closed pattern is closed, if there is anything. -/
theorem isClosed_of_cons {a : Piece} {ps : Pattern} (h : isClosed (a :: ps) = true)
    (hps : ps ≠ []) : isClosed ps = true := by
  cases ps with
  | nil => exact absurd rfl hps
  | cons b bs =>
    cases a with
    | rounds as => simp_all [isClosed]
    | atom a => cases a <;> simpa [isClosed] using h

/-- The rounds of a closed pattern, as a list of texts. -/
theorem takes_rounds_iff_of_endsInWord {as : List Atom} {w rest : Text}
    (has : Atom.endsInWord as = true) :
    (Piece.rounds as).Takes w rest ↔
      ∃ rs : List Text, rs ≠ [] ∧ w = rs.flatten ∧ (∀ r ∈ rs, (Atom.sequence as).Takes r []) ∧
        Atom.takeAll? as rest = none :=
  Piece.takes_rounds_iff (fun _ _ r₂ h => (Atom.takes_of_endsInWord has h).2 r₂)
    fun _ _ h => (Atom.takes_of_endsInWord has h).1

/-- A piece of a closed pattern does not look beyond what the pieces behind it take. -/
theorem takes_piece_of_isClosed {a : Piece} {ps : Pattern} {u v r r' : Text}
    (hclosed : isClosed (a :: ps) = true) (hv : v ≠ []) (hps : ps.Takes v r)
    (h : a.Takes u (v ++ r)) : a.Takes u (v ++ r') := by
  cases a with
  | atom a => exact (Atom.takes_append_iff hv).mp h
  | rounds as =>
    rw [isClosed, Bool.and_eq_true, Bool.and_eq_true] at hclosed
    obtain ⟨⟨has, hdiffer⟩, -⟩ := hclosed
    obtain ⟨rs, hne, rfl, hrs, -⟩ := (takes_rounds_iff_of_endsInWord has).mp h
    refine (takes_rounds_iff_of_endsInWord has).mpr ⟨rs, hne, rfl, hrs, ?_⟩
    -- no further round starts where the pieces behind start
    rw [Atom.takeAll?_eq]
    cases hc : firstChar? (Atom.sequence as) with
    | none => simp [hc, differ] at hdiffer
    | some c =>
      cases hd : firstChar? ps with
      | none => simp [hc, hd, differ] at hdiffer
      | some d =>
        obtain ⟨hblank, g, t, rfl, hg⟩ := exists_of_firstChar? hd hps
        rw [List.append_assoc, List.cons_append]
        exact take?_eq_none_of_firstChar? hc (by simpa [hc, hd, differ] using hdiffer) hg hblank

/-- **A closed pattern takes the same text whatever follows**, and takes something. -/
theorem takes_of_isClosed {p : Pattern} {w r : Text} (hp : p.isClosed = true)
    (h : p.Takes w r) : w ≠ [] ∧ ∀ r', p.Takes w r' := by
  induction p generalizing w with
  | nil => simp [isClosed] at hp
  | cons a ps ih =>
    obtain ⟨w₁, w₂, rfl, h₁, h₂⟩ := takes_cons.mp h
    -- the last piece is a word, and every other one stops at what stands behind it
    by_cases hps : ps = []
    · subst hps
      obtain ⟨word, rfl, hword⟩ : ∃ word, a = .atom (.lit word) ∧ word ≠ [] := by
        cases a with
        | rounds as => simp [isClosed] at hp
        | atom a => cases a <;> simp_all [isClosed]
      rw [takes_nil] at h₂
      rw [Piece.takes_atom, Atom.takes_lit] at h₁
      subst h₁ h₂
      exact ⟨by simpa using hword, fun r' => takes_cons.mpr ⟨w₁, [], rfl, by simp, by simp⟩⟩
    · obtain ⟨hne, hall⟩ := ih (isClosed_of_cons hp hps) h₂
      refine ⟨by simp [hne], fun r' => takes_cons.mpr ⟨w₁, w₂, rfl, ?_, hall r'⟩⟩
      exact takes_piece_of_isClosed hp hne h₂ h₁

/-- The first part of a pattern takes the same text whatever follows the whole, if the whole and the
second part are closed. -/
theorem takes_left_of_isClosed {p q : Pattern} {w₁ w₂ r r' : Text}
    (hpq : isClosed (p ++ q) = true) (hq : q.isClosed = true) (h₁ : p.Takes w₁ (w₂ ++ r))
    (h₂ : q.Takes w₂ r) : p.Takes w₁ (w₂ ++ r') := by
  induction p generalizing w₁ with
  | nil => simpa using h₁
  | cons a ps ih =>
    obtain ⟨u, v, rfl, ha, hps⟩ := takes_cons.mp h₁
    have hclosed : isClosed (ps ++ q) = true := by
      refine isClosed_of_cons hpq fun h => ?_
      simp [(List.append_eq_nil_iff.mp h).2, isClosed] at hq
    have hrest : Pattern.Takes (ps ++ q) (v ++ w₂) r := takes_append.mpr ⟨v, w₂, rfl, hps, h₂⟩
    refine takes_cons.mpr ⟨u, v, rfl, ?_, ih hclosed hps⟩
    rw [← List.append_assoc] at ha ⊢
    exact takes_piece_of_isClosed hpq (takes_of_isClosed hclosed hrest).1 hrest ha

/-- What a pattern takes ends with the word that the pattern ends with. -/
theorem exists_of_getLast? {p : Pattern} {word w r : Text}
    (hp : p.getLast? = some (.atom (.lit word))) (h : p.Takes w r) : ∃ u, w = u ++ word := by
  obtain ⟨ps, rfl⟩ := List.getLast?_eq_some_iff.mp hp
  obtain ⟨w₁, w₂, rfl, -, h₂⟩ := takes_append.mp h
  obtain ⟨w₃, w₄, rfl, h₃, h₄⟩ := takes_cons.mp h₂
  rw [Piece.takes_atom, Atom.takes_lit] at h₃
  rw [takes_nil] at h₄
  exact ⟨w₁, by rw [h₃, h₄, List.append_nil]⟩

/-- A pattern of one atom takes what the atom takes. -/
theorem takes_singleton {a : Atom} : Pattern.Takes [.atom a] w rest ↔ a.Takes w rest := by
  rw [takes_cons]
  constructor
  · rintro ⟨w₁, w₂, rfl, h₁, h₂⟩
    rw [takes_nil] at h₂
    rw [h₂, List.nil_append, Piece.takes_atom] at h₁
    rwa [h₂, List.append_nil]
  · intro h
    exact ⟨w, [], by simp, h, takes_nil.mpr rfl⟩

/-! ## Patterns that never start alike -/

/-- The first character of a pattern, looked for in its rounds too. -/
def startChar? : Pattern → Option Char
  | .rounds as :: _ => firstChar? (Atom.sequence as)
  | p => firstChar? p

/-- What a pattern takes starts with its first character, up to white space. -/
theorem exists_of_startChar? {p : Pattern} {c : Char} {w r : Text} (hp : p.startChar? = some c)
    (h : p.Takes w r) :
    Text.isBlank c = false ∧ ∃ g u, w = g ++ c :: u ∧ ∀ x ∈ g, Text.isBlank x = true := by
  cases p with
  | nil => simp [startChar?, firstChar?] at hp
  | cons a ps =>
    cases a with
    | atom a => exact exists_of_firstChar? (by simpa [startChar?] using hp) h
    | rounds as =>
      -- the first of the rounds starts the text
      obtain ⟨w₁, w₂, rfl, h₁, -⟩ := takes_cons.mp h
      rw [Piece.Takes, Piece.take?] at h₁
      split at h₁
      · simp at h₁
      · rename_i round rest hround
        simp only [Option.some.injEq, Prod.mk.injEq] at h₁
        rw [Atom.takeAll?_eq] at hround
        obtain ⟨-, htakes⟩ := take?_eq_some_iff.mp hround
        obtain ⟨hc, g, u, rfl, hg⟩ := exists_of_firstChar? (by simpa [startChar?] using hp) htakes
        exact ⟨hc, g, _, by rw [← h₁.1]; simp; rfl, hg⟩

/-- Whether both pieces are words, and neither starts with the other. -/
def clash : Piece → Piece → Bool
  | .atom (.lit v), .atom (.lit v') => !v.isPrefixOf v' && !v'.isPrefixOf v
  | _, _ => false

/-- Two words of which neither starts with the other are not taken from one text. -/
theorem ne_of_clash {a b : Piece} {w₁ w₂ t t' : Text} (hab : clash a b = true)
    (ha : a.Takes w₁ t) (hb : b.Takes w₂ t') : w₁ ++ t ≠ w₂ ++ t' := by
  intro htext
  unfold clash at hab
  split at hab
  · rename_i v v'
    rw [Piece.takes_atom, Atom.takes_lit] at ha hb
    subst ha hb
    rw [Bool.and_eq_true, Bool.not_eq_true', Bool.not_eq_true'] at hab
    have hv : w₁ <+: w₂ ++ t' := by
      rw [← htext]
      exact List.prefix_append w₁ t
    rcases List.prefix_or_prefix_of_prefix hv (List.prefix_append w₂ t') with h | h
    · rw [List.isPrefixOf_iff_prefix.mpr h] at hab
      exact absurd hab.1 (by simp)
    · rw [List.isPrefixOf_iff_prefix.mpr h] at hab
      exact absurd hab.2 (by simp)
  · simp at hab

/-- Whether the patterns, after a common beginning, go on with different words or start with
different characters. -/
def apart : Pattern → Pattern → Bool
  | a :: p, b :: q =>
    if a = b then apart p q else clash a b || differ (startChar? (a :: p)) (startChar? (b :: q))
  | _, _ => false

/-- **Two patterns that are apart never take the beginning of one text.** -/
theorem ne_of_apart {p q : Pattern} {w w' r r' : Text} (hpq : apart p q = true) (h : p.Takes w r)
    (h' : q.Takes w' r') : w ++ r ≠ w' ++ r' := by
  induction p generalizing q w w' with
  | nil => simp [apart] at hpq
  | cons a p ih =>
    cases q with
    | nil => simp [apart] at hpq
    | cons b q =>
      rw [apart] at hpq
      by_cases hab : a = b
      · subst hab
        -- one piece takes one text, so the patterns part behind it
        rw [if_pos rfl] at hpq
        obtain ⟨w₁, w₂, rfl, h₁, h₂⟩ := takes_cons.mp h
        obtain ⟨w₁', w₂', rfl, h₁', h₂'⟩ := takes_cons.mp h'
        intro htext
        rw [List.append_assoc, List.append_assoc] at htext
        rw [Piece.Takes] at h₁ h₁'
        rw [htext, h₁'] at h₁
        simp only [Option.some.injEq, Prod.mk.injEq] at h₁
        exact ih hpq h₂ h₂' h₁.2.symm
      · rw [if_neg hab, Bool.or_eq_true] at hpq
        rcases hpq with hpq | hpq
        · obtain ⟨w₁, w₂, rfl, h₁, -⟩ := takes_cons.mp h
          obtain ⟨w₁', w₂', rfl, h₁', -⟩ := takes_cons.mp h'
          rw [List.append_assoc, List.append_assoc]
          exact ne_of_clash hpq h₁ h₁'
        cases hc : startChar? (a :: p) with
        | none => simp [hc, differ] at hpq
        | some c =>
          cases hd : startChar? (b :: q) with
          | none => simp [hc, hd, differ] at hpq
          | some d =>
            obtain ⟨hcb, g, u, rfl, hg⟩ := exists_of_startChar? hc h
            obtain ⟨hdb, g', u', rfl, hg'⟩ := exists_of_startChar? hd h'
            intro htext
            rw [List.append_assoc, List.cons_append, List.append_assoc, List.cons_append] at htext
            have hcd := (Text.blank_append_inj hg hg' hcb hdb htext).2.1
            simp [hc, hd, differ, hcd] at hpq

/-! ## What is no white space -/

/-- The characters that a pattern takes, but for white space, if its words and white space are all
that it takes. -/
def solid? : Pattern → Option Text
  | [] => some []
  | .atom (.lit v) :: ps => (solid? ps).map fun t => (v.filter fun c => !Text.isBlank c) ++ t
  | .atom (.run .blank _) :: ps => solid? ps
  | .atom (.run (.oneOf cs) _) :: ps => if cs.all Text.isBlank then solid? ps else none
  | .atom .lineGap :: ps => solid? ps
  | _ => none

/-- White space apart, what is taken of a pattern of words and white space is its words. -/
theorem filter_of_solid? {p : Pattern} {t : Text} (hp : p.solid? = some t) (h : p.Takes w rest) :
    (w.filter fun c => !Text.isBlank c) = t := by
  have hblank : ∀ g : Text, (∀ c ∈ g, Text.isBlank c = true) →
      (g.filter fun c => !Text.isBlank c) = [] := by
    intro g hg
    rw [List.filter_eq_nil_iff]
    intro c hc
    simp [hg c hc]
  -- only words leave something when white space is filtered out
  induction p using solid?.induct generalizing w t with
  | case1 =>
    rw [takes_nil.mp h]
    simpa [solid?] using hp
  | case2 v ps ih =>
    obtain ⟨w₁, w₂, rfl, h₁, h₂⟩ := takes_cons.mp h
    rw [Piece.takes_atom, Atom.takes_lit] at h₁
    subst h₁
    simp only [solid?, Option.map_eq_some_iff] at hp
    obtain ⟨t', ht', rfl⟩ := hp
    rw [List.filter_append, ih ht' h₂]
  | case3 n ps ih =>
    obtain ⟨w₁, w₂, rfl, h₁, h₂⟩ := takes_cons.mp h
    rw [Piece.takes_atom, Atom.takes_run] at h₁
    rw [List.filter_append, hblank w₁ h₁.1, List.nil_append]
    exact ih (by simpa [solid?] using hp) h₂
  | case4 cs n ps hcs ih =>
    obtain ⟨w₁, w₂, rfl, h₁, h₂⟩ := takes_cons.mp h
    rw [Piece.takes_atom, Atom.takes_run] at h₁
    have hw₁ : ∀ c ∈ w₁, Text.isBlank c = true :=
      fun c hc => CharClass.of_has_oneOf hcs (h₁.1 c hc)
    rw [List.filter_append, hblank w₁ hw₁, List.nil_append]
    exact ih (by simpa [solid?, hcs] using hp) h₂
  | case5 cs n ps hcs => simp [solid?, hcs] at hp
  | case6 ps ih =>
    obtain ⟨w₁, w₂, rfl, h₁, h₂⟩ := takes_cons.mp h
    rw [Piece.takes_atom, Atom.takes_lineGap] at h₁
    rw [List.filter_append, hblank w₁ h₁.1, List.nil_append]
    exact ih (by simpa [solid?] using hp) h₂
  | case7 p h₁ h₂ h₃ h₄ h₅ =>
    unfold solid? at hp
    split at hp <;> simp_all

end Pattern

end SitePatch
