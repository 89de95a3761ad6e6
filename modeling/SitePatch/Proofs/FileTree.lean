import SitePatch.FileTree.Edit
import SitePatch.Proofs.Split

/-! # What an edit changes in a file tree

Links are followed once, when a file is located; from then on its location's own path is used. With
every part of a path, a walk takes one of few steps (`FileTree.WalkStep`). The locations that a path
can lead to are those that a walk from the top reaches without links (`FileTree.Reaches`), and the
path of such a location leads back to it (`FileTree.Reaches.follow_parts`). An edit changes the content of one file, and dates its directory:
which paths lead where stays as it was (`FileTree.Alike`). Main statement: after an edit, the file
holds the edited text, and every other file what it held before (`Edit.spec_of_applyIn`). -/

namespace SitePatch

/-! ## Parts of paths -/

/-- The parts of a location's path are the names of the location, behind an empty part. -/
theorem Location.parts_path {l : Location} (hl : l ≠ []) (hnames : ∀ name ∈ l, '/' ∉ name) :
    Path.parts l.path = [] :: l := by
  have hsplit : ∀ k : Location, (∀ name ∈ k, '/' ∉ name) →
      Text.split '/' (k.flatMap fun name => '/' :: name) = [] :: k := by
    intro k
    induction k with
    | nil => intro _; rfl
    | cons name k ih =>
      intro hk
      have hrest := ih fun n hn => hk n (List.mem_cons_of_mem _ hn)
      rw [List.flatMap_cons, List.cons_append, Text.split, if_pos rfl,
        Text.split_append (hk name (by simp)) hrest, List.append_nil]
  rw [Path.parts, Location.path, if_neg hl]
  exact hsplit l hnames

namespace FileTree

variable {t t' : FileTree} {l k here : Location} {parts : List Text} {path : Text}

/-! ## Trees that are walked alike -/

/-- Entries that a walk does not tell apart: files differ in their content only, and directories in
their date. -/
inductive SameKind : Option Entry → Option Entry → Prop
  | none : SameKind none none
  | directory {a a' : Attributes} (h : a'.mode = a.mode) :
    SameKind (some (.directory a)) (some (.directory a'))
  | file {f f' : File} (h : f'.mode = f.mode) : SameKind (some (.file f)) (some (.file f'))
  | link (target : Text) : SameKind (some (.link target)) (some (.link target))

/-- An entry is of the same kind as itself. -/
theorem SameKind.refl (e : Option Entry) : SameKind e e := by
  cases e with
  | none => exact .none
  | some e =>
    cases e with
    | directory a => exact .directory rfl
    | file f => exact .file rfl
    | link target => exact .link target

/-- Kinds are passed on from entry to entry. -/
theorem SameKind.trans {e e' e'' : Option Entry} (h : SameKind e e') (h' : SameKind e' e'') :
    SameKind e e'' := by
  cases h with
  | none => exact h'
  | directory h =>
    cases h' with
    | directory h' => exact .directory (h'.trans h)
  | file h =>
    cases h' with
    | file h' => exact .file (h'.trans h)
  | link target => exact h'

section SameKind

variable {e e' : Option Entry}

/-- What is no file does not become one. -/
theorem SameKind.ne_file (h : SameKind e e') (hfile : ∀ f, e ≠ some (.file f)) :
    ∀ f, e' ≠ some (.file f) := by
  intro f
  cases h with
  | none => simp
  | directory => simp
  | link => simp
  | @file f₀ => exact absurd rfl (hfile f₀)

/-- What is a file stays one, of the same mode. -/
theorem SameKind.exists_file {f : File} (h : SameKind (some (.file f)) e') :
    ∃ f', e' = some (.file f') ∧ f'.mode = f.mode := by
  cases h with
  | file hmode => exact ⟨_, rfl, hmode⟩

/-- What is a directory stays one, and stays searchable. -/
theorem SameKind.exists_directory {a : Attributes} (h : SameKind (some (.directory a)) e') :
    ∃ a', e' = some (.directory a') ∧ (a.isSearchable = true → a'.isSearchable = true) := by
  cases h with
  | directory hmode =>
    refine ⟨_, rfl, fun hsearch => ?_⟩
    unfold Attributes.isSearchable at hsearch ⊢
    rw [hmode]
    exact hsearch

/-- A link stays the link that it is. -/
theorem SameKind.eq_link {target : Text} (h : SameKind (some (.link target)) e') :
    e' = some (.link target) := by
  cases h with
  | link => rfl

/-- What is an entry, but no link, stays one. -/
theorem SameKind.exists_ne_link {n : Entry} (h : SameKind (some n) e')
    (hlink : ∀ target, n ≠ .link target) : ∃ n', e' = some n' ∧ ∀ target, n' ≠ .link target := by
  cases h with
  | directory _ => exact ⟨_, rfl, by simp⟩
  | file _ => exact ⟨_, rfl, by simp⟩
  | link target => exact absurd rfl (hlink target)

end SameKind

/-- **Trees in which every path leads to the same location.** -/
def Alike (t t' : FileTree) : Prop := ∀ l, SameKind (t.get? l) (t'.get? l)

/-- A tree is like itself. -/
theorem Alike.refl (t : FileTree) : t.Alike t := fun _ => .refl _

/-- Likeness is passed on from tree to tree. -/
theorem Alike.trans {t'' : FileTree} (h : t.Alike t') (h' : t'.Alike t'') : t.Alike t'' :=
  fun l => (h l).trans (h' l)

/-- Directories of the same mode are equally open. -/
theorem isOpenAt_congr (h : SameKind (t.get? l) (t'.get? l)) : t'.isOpenAt l = t.isOpenAt l := by
  unfold isOpenAt
  generalize t.get? l = e at h ⊢
  generalize t'.get? l = e' at h ⊢
  cases h with
  | directory hmode =>
    simp only [Attributes.isOpen, Attributes.isWritable, Attributes.isSearchable, hmode]
  | none => rfl
  | file _ => rfl
  | link _ => rfl

/-- What is open is a directory. -/
theorem exists_of_isOpenAt (h : t.isOpenAt l = true) :
    ∃ a, t.get? l = some (.directory a) := by
  unfold isOpenAt at h
  split at h
  · rename_i a ha
    exact ⟨a, ha⟩
  · simp at h

namespace Alike

variable (h : t.Alike t')

include h

/-- In trees that are alike, walks end alike. -/
theorem walk_eq (here : Location) (parts : List Text) : t'.walk here parts = t.walk here parts := by
  induction parts generalizing here with
  | nil => rfl
  | cons part rest ih =>
    unfold walk
    -- a walk looks at the entry where it stands, and at the next one
    have hhere := h here
    have hnext := h (here ++ [part])
    generalize t.get? here = e at hhere
    generalize t'.get? here = e' at hhere
    cases hhere with
    | none => rfl
    | file _ => rfl
    | link _ => rfl
    | directory hmode =>
      generalize t.get? (here ++ [part]) = n at hnext
      generalize t'.get? (here ++ [part]) = n' at hnext
      simp only [Attributes.isSearchable, hmode, ih]
      cases hnext <;> rfl

/-- In trees that are alike, the same parts lead to the same location. -/
theorem follow_eq (links : Nat) (here : Location) (parts : List Text) :
    t'.follow links here parts = t.follow links here parts := by
  induction links generalizing here parts with
  | zero =>
    unfold follow
    rw [h.walk_eq]
  | succ links ih =>
    unfold follow
    rw [h.walk_eq]
    simp only [ih]

/-- In trees that are alike, a path leads to the same location. -/
theorem resolve_eq (path : Text) : t'.resolve path = t.resolve path := by
  unfold resolve resolveFrom
  rw [h.follow_eq]

/-- In trees that are alike, a path has the same canonical location. -/
theorem canonicalize_eq (path : Text) : t'.canonicalize path = t.canonicalize path := by
  unfold canonicalize
  simp only [h.resolve_eq]

/-- In trees that are alike, a path leads to a file in both or in neither. -/
theorem isFile_eq (path : Text) : t'.isFile path = t.isFile path := by
  unfold isFile entryAt?
  rw [h.resolve_eq]
  cases t.resolve path with
  | error cause => rfl
  | ok l =>
    have hl := h l
    dsimp only
    generalize t.get? l = e at hl ⊢
    generalize t'.get? l = e' at hl ⊢
    cases hl <;> rfl

/-- In trees that are alike, a path leads to a directory in both or in neither. -/
theorem isDirectory_eq (path : Text) : t'.isDirectory path = t.isDirectory path := by
  unfold isDirectory entryAt?
  rw [h.resolve_eq]
  cases t.resolve path with
  | error cause => rfl
  | ok l =>
    have hl := h l
    dsimp only
    generalize t.get? l = e at hl ⊢
    generalize t'.get? l = e' at hl ⊢
    cases hl <;> rfl

/-- In trees that are alike, a directory is open in both or in neither. -/
theorem isOpenAt_eq (l : Location) : t'.isOpenAt l = t.isOpenAt l := isOpenAt_congr (h l)

end Alike

/-! ## One step of a walk -/

/-- **Whether a part of a path names an entry** of a directory. -/
structure IsEntryName (part : Text) : Prop where
  ne_nil : part ≠ []
  ne_dot : part ≠ ".".toList
  ne_dots : part ≠ "..".toList
  byteSize_le : part.byteSize ≤ maxName

/-- **How a walk goes on** from `here` with the part of a path, and the parts `rest` behind it: it is
blocked, it stands at a link, or it is the walk along the rest from the next location. -/
inductive WalkStep (t : FileTree) (here : Location) (part : Text) (rest : List Text) : Stop → Prop
  | blocked (cause : FileError) : WalkStep t here part rest (.blocked cause)
  | stay {a : Attributes} (hhere : t.get? here = some (.directory a))
      (hpart : part = [] ∨ a.isSearchable = true ∧ part = ".".toList) :
    WalkStep t here part rest (t.walk here rest)
  | up {a : Attributes} (hhere : t.get? here = some (.directory a))
      (hsearch : a.isSearchable = true) (hdots : part = "..".toList) :
    WalkStep t here part rest (t.walk here.dropLast rest)
  | down {a : Attributes} {e : Entry} (hhere : t.get? here = some (.directory a))
      (hsearch : a.isSearchable = true) (hname : IsEntryName part)
      (hnext : t.get? (here ++ [part]) = some e) (hlink : ∀ target, e ≠ .link target) :
    WalkStep t here part rest (t.walk (here ++ [part]) rest)
  | link {a : Attributes} {target : Text} (hhere : t.get? here = some (.directory a))
      (hsearch : a.isSearchable = true) (hname : IsEntryName part)
      (hnext : t.get? (here ++ [part]) = some (.link target)) :
    WalkStep t here part rest (.link here target rest)

/-- A walk takes one step after the other. -/
theorem walkStep (t : FileTree) (here : Location) (part : Text) (rest : List Text) :
    t.WalkStep here part rest (t.walk here (part :: rest)) := by
  rw [walk]
  split
  · exact .blocked _
  · exact .blocked _
  · exact .blocked _
  · rename_i a hhere
    by_cases hnil : part = []
    · rw [if_pos hnil]
      exact .stay hhere (.inl hnil)
    by_cases hsearch : a.isSearchable = true
    · simp only [if_neg hnil, hsearch, Bool.not_true, Bool.false_eq_true, if_false]
      by_cases hdot : part = ".".toList
      · rw [if_pos hdot]
        exact .stay hhere (.inr ⟨hsearch, hdot⟩)
      by_cases hdots : part = "..".toList
      · rw [if_neg hdot, if_pos hdots]
        exact .up hhere hsearch hdots
      by_cases hsize : maxName < part.byteSize
      · rw [if_neg hdot, if_neg hdots, if_pos hsize]
        exact .blocked _
      rw [if_neg hdot, if_neg hdots, if_neg hsize]
      have hname : IsEntryName part := ⟨hnil, hdot, hdots, Nat.not_lt.mp hsize⟩
      split
      · exact .blocked _
      · rename_i target hnext
        exact .link hhere hsearch hname hnext
      · rename_i e hnotLink hnext
        exact .down hhere hsearch hname hnext fun target he => hnotLink target he
    · simp only [if_neg hnil, hsearch, Bool.not_false, if_true]
      exact .blocked _

/-- A name of an entry that is no link leads down to it. -/
theorem walk_cons_down {a : Attributes} {part : Text} {rest : List Text} {e : Entry}
    (hhere : t.get? here = some (.directory a)) (hsearch : a.isSearchable = true)
    (hname : IsEntryName part) (hnext : t.get? (here ++ [part]) = some e)
    (hlink : ∀ target, e ≠ .link target) :
    t.walk here (part :: rest) = t.walk (here ++ [part]) rest := by
  rw [walk, hhere]
  simp only [if_neg hname.ne_nil, hsearch, Bool.not_true, Bool.false_eq_true, if_false,
    if_neg hname.ne_dot, if_neg hname.ne_dots, if_neg (Nat.not_lt.mpr hname.byteSize_le), hnext]

/-- A walk ends at the name of a link. -/
theorem walk_cons_link {a : Attributes} {part target : Text} {rest : List Text}
    (hhere : t.get? here = some (.directory a)) (hsearch : a.isSearchable = true)
    (hname : IsEntryName part) (hnext : t.get? (here ++ [part]) = some (.link target)) :
    t.walk here (part :: rest) = .link here target rest := by
  rw [walk, hhere]
  simp only [if_neg hname.ne_nil, hsearch, Bool.not_true, Bool.false_eq_true, if_false,
    if_neg hname.ne_dot, if_neg hname.ne_dots, if_neg (Nat.not_lt.mpr hname.byteSize_le), hnext]

/-! ## Locations that paths lead to -/

/-- Whether a path is one that is followed at all. -/
structure Followable (path : Text) : Prop where
  ne_nil : path ≠ []
  not_nul : path.contains '\x00' = false
  byteSize_le : path.byteSize ≤ maxPath

/-- A path leads where its parts lead. -/
theorem resolve_eq_ok_iff :
    t.resolve path = .ok l ↔
      Followable path ∧ t.follow maxLinks [] (Path.parts path) = .ok l := by
  have hstart : Location.start [] path = [] := by
    unfold Location.start
    split <;> rfl
  unfold resolve resolveFrom
  rw [hstart]
  by_cases hnil : path = []
  · rw [if_pos hnil]
    exact iff_of_false (by simp) fun h => h.1.ne_nil hnil
  rw [if_neg hnil]
  by_cases hnul : path.contains '\x00' = true
  · rw [if_pos hnul]
    refine iff_of_false (by simp) fun h => ?_
    rw [h.1.not_nul] at hnul
    exact absurd hnul (by decide)
  rw [if_neg hnul]
  by_cases hsize : maxPath < path.byteSize
  · rw [if_pos hsize]
    exact iff_of_false (by simp) fun h => Nat.not_lt.mpr h.1.byteSize_le hsize
  rw [if_neg hsize]
  have hfollowable : Followable path :=
    ⟨hnil, Bool.eq_false_iff.mpr hnul, Nat.not_lt.mp hsize⟩
  rw [and_iff_right hfollowable]

/-- **The location is reached from the top without links**: every directory on the way may be
searched, and every name is one that stands in a path. -/
inductive Reaches (t : FileTree) : Location → Prop
  | top : Reaches t []
  | step {l : Location} {a : Attributes} {name : Text} {e : Entry} (h : Reaches t l)
      (hdirectory : t.get? l = some (.directory a)) (hsearch : a.isSearchable = true)
      (hne : name ≠ []) (hdot : name ≠ ".".toList) (hdots : name ≠ "..".toList)
      (hsize : name.byteSize ≤ maxName) (hslash : '/' ∉ name)
      (hentry : t.get? (l ++ [name]) = some e) (hlink : ∀ target, e ≠ .link target) :
    Reaches t (l ++ [name])

namespace Reaches

/-- The way to a location leads through its directories. -/
theorem dropLast (h : t.Reaches l) : t.Reaches l.dropLast := by
  cases h with
  | top => exact .top
  | step h =>
    rw [List.dropLast_concat]
    exact h

/-- The names on the way are names. -/
theorem spec_of_mem (h : t.Reaches l) :
    ∀ name ∈ l, name ≠ [] ∧ name ≠ ".".toList ∧ name ≠ "..".toList ∧ '/' ∉ name := by
  induction h with
  | top => simp
  | step h hdirectory hsearch hne hdot hdots hsize hslash hentry hlink ih =>
    intro n hn
    rcases List.mem_append.mp hn with hn | hn
    · exact ih n hn
    · rw [List.mem_singleton.mp hn]
      exact ⟨hne, hdot, hdots, hslash⟩

/-- A walk from the top along a location gets there. -/
theorem walk_append (h : t.Reaches l) (rest : List Text) : t.walk [] (l ++ rest) = t.walk l rest := by
  induction h generalizing rest with
  | top => rfl
  | @step l a name e h hdirectory hsearch hne hdot hdots hsize hslash hentry hlink ih =>
    rw [List.append_assoc, ih, List.singleton_append,
      walk_cons_down hdirectory hsearch ⟨hne, hdot, hdots, hsize⟩ hentry hlink]

/-- The names of a location that is reached lead there. -/
theorem walk_eq (h : t.Reaches l) : t.walk [] l = .arrived l := by
  have hwalk := h.walk_append []
  rw [List.append_nil] at hwalk
  rw [hwalk, walk]

/-- Where a walk without links arrives, or meets a link, is reached. -/
theorem of_walk (h : t.Reaches here) (hparts : ∀ part ∈ parts, '/' ∉ part) :
    (∀ l, t.walk here parts = .arrived l → t.Reaches l) ∧
      ∀ directory target rest, t.walk here parts = .link directory target rest →
        t.Reaches directory ∧ ∀ part ∈ rest, '/' ∉ part := by
  induction parts generalizing here with
  | nil =>
    constructor
    · intro l hl
      rw [walk, Stop.arrived.injEq] at hl
      exact hl ▸ h
    · intro directory target rest hl
      simp [walk] at hl
  | cons part rest ih =>
    obtain ⟨hpart, hrest⟩ := List.forall_mem_cons.mp hparts
    have hstep := t.walkStep here part rest
    generalize t.walk here (part :: rest) = stop at hstep
    cases hstep with
    | blocked cause => simp
    | stay _ _ => exact ih h hrest
    | up _ _ _ => exact ih h.dropLast hrest
    | down hhere hsearch hname hnext hlink =>
      exact ih (h.step hhere hsearch hname.ne_nil hname.ne_dot hname.ne_dots hname.byteSize_le hpart
        hnext hlink) hrest
    | @link _ target _ _ _ _ =>
      refine ⟨by simp, fun directory target' rest' hl => ?_⟩
      simp only [Stop.link.injEq] at hl
      obtain ⟨rfl, rfl, rfl⟩ := hl
      exact ⟨h, hrest⟩

/-- **What a path leads to is reached.** -/
theorem of_follow {links : Nat} (h : t.Reaches here) (hparts : ∀ part ∈ parts, '/' ∉ part)
    (hl : t.follow links here parts = .ok l) : t.Reaches l := by
  -- on the links that may still be followed: behind a link, a new walk starts
  induction links generalizing here parts with
  | zero =>
    unfold follow at hl
    obtain ⟨harrived, -⟩ := of_walk h hparts
    cases hwalk : t.walk here parts with
    | arrived k =>
      rw [hwalk] at hl
      exact harrived l (by rw [hwalk, Except.ok.inj hl])
    | link directory target rest => simp [hwalk] at hl
    | blocked cause => simp [hwalk] at hl
  | succ links ih =>
    unfold follow at hl
    obtain ⟨harrived, hlink⟩ := of_walk h hparts
    cases hwalk : t.walk here parts with
    | arrived k =>
      rw [hwalk] at hl
      exact harrived l (by rw [hwalk, Except.ok.inj hl])
    | blocked cause => simp [hwalk] at hl
    | link directory target rest =>
      rw [hwalk] at hl
      obtain ⟨hdirectory, hrest⟩ := hlink directory target rest hwalk
      refine ih ?_ ?_ hl
      · unfold Location.start
        split
        · exact .top
        · exact hdirectory
      · intro part hpart
        rcases List.mem_append.mp hpart with hpart | hpart
        · exact Text.not_mem_of_mem_split part hpart
        · exact hrest part hpart

/-- A location to which a path leads is reached. -/
theorem of_resolve (hl : t.resolve path = .ok l) : t.Reaches l :=
  of_follow .top Text.not_mem_of_mem_split (resolve_eq_ok_iff.mp hl).2

end Reaches

namespace Reaches

variable (h : t.Reaches l) (hl : l ≠ [])

include h hl

/-- **The path of a location leads back to it.** -/
theorem follow_parts : t.follow maxLinks [] (Path.parts l.path) = .ok l := by
  have hparts := Location.parts_path hl fun name hn => (h.spec_of_mem name hn).2.2.2
  -- the path starts with an empty part, which only asks for a directory
  have hwalk : t.walk [] ([] :: l) = .arrived l := by
    rw [walk, get?, if_pos rfl]
    simp only [if_true]
    exact h.walk_eq
  unfold follow
  rw [hparts, hwalk]

/-- Where the path of a location leads at all, it leads back to the location. -/
theorem eq_of_resolve (hk : t.resolve l.path = .ok k) : k = l := by
  have hfollow := (resolve_eq_ok_iff.mp hk).2
  rw [h.follow_parts hl] at hfollow
  exact (Except.ok.inj hfollow).symm

/-- The slot of a location's path is the location's own. -/
theorem slot_path : t.slot l.path = .ok (l.dropLast, l.getLast hl) := by
  have hparts := Location.parts_path hl fun name hn => (h.spec_of_mem name hn).2.2.2
  have hnames : Path.names l.path = l := by
    have hfilter : ([] :: l).filter (fun part => !part.isEmpty && part != ['.']) = l := by
      rw [List.filter_cons_of_neg (by simp), List.filter_eq_self]
      intro name hn
      obtain ⟨hne, hdot, -⟩ := h.spec_of_mem name hn
      have hdot' : name ≠ ['.'] := hdot
      simp [hne, hdot']
    unfold Path.names
    unfold Path.parts at hparts
    rw [hparts]
    exact hfilter
  have hlast : (l.getLast hl != "..".toList) = true :=
    bne_iff_ne.mpr (h.spec_of_mem _ (List.getLast_mem hl)).2.2.1
  have hway : t.follow maxLinks [] l.dropLast = .ok l.dropLast := by
    unfold follow
    rw [h.dropLast.walk_eq]
  unfold slot Path.lastName? Path.way
  rw [hnames, List.getLast?_eq_some_getLast hl, Option.filter_some, hlast]
  simp only [if_true, hway]

end Reaches

/-- The directory of a location that is reached is a directory. -/
theorem Reaches.directory_dropLast (h : t.Reaches l) :
    ∃ a, t.get? l.dropLast = some (.directory a) := by
  cases h with
  | top => exact ⟨_, rfl⟩
  | step h hdirectory =>
    rw [List.dropLast_concat]
    exact ⟨_, hdirectory⟩

/-- The path of a location leads back to it, if it is followed at all. -/
theorem Reaches.resolve_path (h : t.Reaches l) (hpath : Followable l.path) :
    t.resolve l.path = .ok l := by
  by_cases hl : l = []
  · rw [hl]
    rfl
  · exact resolve_eq_ok_iff.mpr ⟨hpath, h.follow_parts hl⟩

/-- **The canonical location of a path** is where the path leads, if the location's own path can be
followed. -/
theorem canonicalize_eq_ok_iff :
    t.canonicalize path = .ok l ↔ t.resolve path = .ok l ∧ Followable l.path := by
  constructor
  · intro h
    have hresolve := resolve_of_canonicalize h
    unfold canonicalize at h
    rw [hresolve] at h
    cases hpath : t.resolve l.path with
    | error cause => simp [hpath] at h
    | ok k => exact ⟨hresolve, (resolve_eq_ok_iff.mp hpath).1⟩
  · rintro ⟨hresolve, hpath⟩
    unfold canonicalize
    rw [hresolve]
    simp only [(Reaches.of_resolve hresolve).resolve_path hpath]

/-- **A canonical location is its own**: its path leads back to it. -/
theorem resolve_path_of_canonicalize (h : t.canonicalize path = .ok l) : t.resolve l.path = .ok l := by
  obtain ⟨hresolve, hpath⟩ := canonicalize_eq_ok_iff.mp h
  exact (Reaches.of_resolve hresolve).resolve_path hpath

/-- Trees that are walked alike reach the same locations. -/
theorem Alike.reaches (halike : t.Alike t') (h : t.Reaches l) : t'.Reaches l := by
  induction h with
  | top => exact .top
  | @step l a name e h hdirectory hsearch hne hdot hdots hsize hslash hentry hlink ih =>
    -- the directory stays searchable; the entry stays where it is, and does not become a link
    obtain ⟨a', hdirectory', hsearch'⟩ := SameKind.exists_directory (hdirectory ▸ halike l)
    obtain ⟨e', hentry', hlink'⟩ := SameKind.exists_ne_link (hentry ▸ halike (l ++ [name])) hlink
    exact ih.step hdirectory' (hsearch' hsearch) hne hdot hdots hsize hslash hentry' hlink'

/-! ## Reading and writing -/

/-- **Entries that are the same**, but for the date of a directory. -/
inductive Kept : Option Entry → Option Entry → Prop
  | same (e : Option Entry) : Kept e e
  | dated (a : Attributes) (modified : Nat) :
    Kept (some (.directory a)) (some (.directory { a with modified := modified }))

namespace Kept

variable {e e' e'' : Option Entry}

/-- What is kept twice is kept. -/
theorem trans (h : Kept e e') (h' : Kept e' e'') : Kept e e'' := by
  cases h with
  | same => exact h'
  | dated a modified =>
    cases h' with
    | same => exact .dated a modified
    | dated _ modified' => exact .dated a modified'

/-- What is kept is of the same kind. -/
theorem sameKind (h : Kept e e') : SameKind e e' := by
  cases h with
  | same e => exact .refl e
  | dated a modified => exact .directory rfl

/-- A file is kept as it is. -/
theorem eq_of_file {f : File} (h : Kept (some (.file f)) e') : e' = some (.file f) := by
  cases h with
  | same => rfl

/-- What is kept is read as before. -/
theorem readIn_eq (h : Kept (t.get? l) (t'.get? l)) : t'.readIn l = t.readIn l := by
  unfold readIn
  generalize t.get? l = e at h ⊢
  generalize t'.get? l = e' at h ⊢
  cases h <;> rfl

end Kept

/-- Dating a directory keeps every entry. -/
theorem kept_touch (t : FileTree) (d k : Location) : Kept (t.get? k) ((t.touch d).get? k) := by
  unfold touch
  split
  · rename_i a hd
    rw [get?_put_directory]
    by_cases hkd : k = d
    · rw [if_pos hkd, hkd, hd]
      exact .dated a _
    · rw [if_neg hkd]
      exact .same _
  · exact .same _

/-- The directory that is dated has the clock's date then, and its other attributes as before. -/
theorem get?_touch_self {d : Location} {a : Attributes} (h : t.get? d = some (.directory a)) :
    (t.touch d).get? d = some (.directory { a with modified := t.clock }) := by
  simp only [touch, h]
  rw [get?_put_directory, if_pos rfl]

/-- Dating a directory leaves every other entry as it is. -/
theorem get?_touch_of_ne {d : Location} (h : k ≠ d) : (t.touch d).get? k = t.get? k := by
  unfold touch
  split
  · exact get?_put_of_ne t _ h
  · rfl

/-- Dating a directory takes no time. -/
@[simp] theorem clock_touch (t : FileTree) (d : Location) : (t.touch d).clock = t.clock := by
  unfold touch put
  split
  · split <;> rfl
  · rfl

/-- The file that is written is there. -/
theorem get?_writeAt_touch_self (t : FileTree) (d : Location) (content : ByteArray) (mode : Nat)
    (hl : l ≠ []) :
    ((t.touch d).writeAt l content mode).get? l = some (.file ⟨⟨mode, t.clock⟩, content⟩) := by
  have hput := get?_put (t.touch d) l (.file ⟨⟨mode, (t.touch d).clock⟩, content⟩) hl
  rw [if_pos rfl] at hput
  rw [← clock_touch t d]
  exact hput

/-- Away from the file that is written, what was there when the directory was dated is there. -/
theorem get?_writeAt_touch {content : ByteArray} {mode : Nat} (d : Location) (hkl : k ≠ l) :
    ((t.touch d).writeAt l content mode).get? k = (t.touch d).get? k :=
  get?_put_of_ne _ _ hkl

/-- Away from the file that is written and its directory, every entry stays as it is. -/
theorem get?_writeAt_touch_of_ne {content : ByteArray} {mode : Nat} {d : Location} (hkl : k ≠ l)
    (hkd : k ≠ d) : ((t.touch d).writeAt l content mode).get? k = t.get? k := by
  rw [get?_writeAt_touch d hkl, get?_touch_of_ne hkd]

/-- Away from the file that is written, every entry is kept. -/
theorem kept_writeAt_touch {content : ByteArray} {mode : Nat} (d : Location) (hkl : k ≠ l) :
    Kept (t.get? k) (((t.touch d).writeAt l content mode).get? k) := by
  rw [get?_writeAt_touch d hkl]
  exact kept_touch t d k

/-- **A file that is written over one of the same mode** moves nothing. -/
theorem alike_writeAt_touch {f : File} (hfile : t.get? l = some (.file f)) (d : Location)
    (content : ByteArray) : t.Alike ((t.touch d).writeAt l content f.mode) := by
  have hl : l ≠ [] := by
    -- the top is no file
    rintro rfl
    simp [get?] at hfile
  intro k
  by_cases hkl : k = l
  · rw [hkl, hfile, get?_writeAt_touch_self t d content f.mode hl]
    exact .file rfl
  · exact (kept_writeAt_touch d hkl).sameKind

/-- What is read of a location is a file. -/
theorem fileIn_eq_ok_iff {f : File} : t.fileIn l = .ok f ↔ t.get? l = some (.file f) := by
  unfold fileIn
  constructor
  · intro h
    split at h
    · rename_i f' hf'
      rw [hf', Except.ok.inj h]
    all_goals simp at h
  · intro h
    simp only [h]

/-- The file to which a path leads is a file at a location. -/
theorem fileAt_eq_ok_iff {f : File} :
    t.fileAt path = .ok f ↔ ∃ l, t.resolve path = .ok l ∧ t.get? l = some (.file f) := by
  unfold fileAt
  cases t.resolve path with
  | error cause => simp
  | ok l => simp [fileIn_eq_ok_iff]

/-- What is read at a location is the content of a readable file. -/
theorem readIn_eq_ok_iff {bytes : ByteArray} :
    t.readIn l = .ok bytes ↔
      ∃ f, t.get? l = some (.file f) ∧ f.isReadable = true ∧ f.content = bytes := by
  unfold readIn
  constructor
  · intro h
    split at h
    · rename_i f hf
      split at h
      · rename_i hreadable
        exact ⟨f, hf, hreadable, Except.ok.inj h⟩
      · simp at h
    all_goals simp at h
  · rintro ⟨f, hf, hreadable, rfl⟩
    simp only [hf, hreadable, if_true]

/-- What is read through a path is what is read where it leads. -/
theorem read_eq_ok_iff {bytes : ByteArray} :
    t.read path = .ok bytes ↔ ∃ l, t.resolve path = .ok l ∧ t.readIn l = .ok bytes := by
  unfold read readFrom resolve
  cases t.resolveFrom [] path with
  | error cause => simp
  | ok l => simp

/-- The file to which the path of a location leads is the file at the location. -/
theorem get?_of_fileAt {f : File} (h : t.Reaches l) (hl : l ≠ []) (hfile : t.fileAt l.path = .ok f) :
    t.get? l = some (.file f) := by
  obtain ⟨k, hresolve, hk⟩ := fileAt_eq_ok_iff.mp hfile
  rwa [h.eq_of_resolve hl hresolve] at hk

/-- **What replacing a file amounts to**: a file with the mode of the old one is put where the last
name of the path stands, and the directory is dated and has to be open. -/
theorem replaceFile_eq_ok_iff {content : ByteArray} :
    t.replaceFile path content = .ok t' ↔
      ∃ d name f, t.slot path = .ok (d, name) ∧ t.fileAt path = .ok f ∧ t.isOpenAt d = true ∧
        t' = (t.touch d).writeAt (d ++ [name]) content f.mode := by
  unfold replaceFile
  constructor
  · intro h
    rcases hslot : t.slot path with cause | ⟨d, name⟩
    · simp [hslot] at h
    cases hfile : t.fileAt path with
    | error cause => simp [hslot, hfile] at h
    | ok f =>
      simp only [hslot, hfile] at h
      split at h
      · rename_i hopen
        exact ⟨d, name, f, rfl, rfl, hopen, (Except.ok.inj h).symm⟩
      · simp at h
  · rintro ⟨d, name, f, hslot, hfile, hopen, rfl⟩
    simp only [hslot, hfile, hopen, if_true]

/-- What replacing a file through the path of its location amounts to. -/
theorem replaceFile_path_eq_ok_iff {content : ByteArray} (h : t.Reaches l) (hl : l ≠ []) :
    t.replaceFile l.path content = .ok t' ↔
      ∃ f, t.fileAt l.path = .ok f ∧ t.isOpenAt l.dropLast = true ∧
        t' = (t.touch l.dropLast).writeAt l content f.mode := by
  have hslot := h.slot_path hl
  rw [replaceFile_eq_ok_iff]
  constructor
  · rintro ⟨d, name, f, hslot', hfile, hopen, rfl⟩
    obtain ⟨rfl, rfl⟩ := Prod.mk.inj (Except.ok.inj (hslot.symm.trans hslot'))
    exact ⟨f, hfile, hopen, by rw [List.dropLast_concat_getLast hl]⟩
  · rintro ⟨f, hfile, hopen, rfl⟩
    exact ⟨_, _, f, hslot, hfile, hopen, by rw [List.dropLast_concat_getLast hl]⟩

/-- In a directory that is not open, no file is replaced. -/
theorem replaceFile_path_of_not_isOpenAt {content : ByteArray} {f : File} (h : t.Reaches l)
    (hl : l ≠ []) (hfile : t.fileAt l.path = .ok f) (hclosed : t.isOpenAt l.dropLast = false) :
    t.replaceFile l.path content = .error .permissionDenied := by
  unfold replaceFile
  simp only [h.slot_path hl, hfile, hclosed, Bool.false_eq_true, if_false]

/-- **A file that is replaced**: no other path leads elsewhere, the new content can be read if the
old one could, and no other file changes. -/
theorem spec_of_replaceFile {content : ByteArray} {bytes : ByteArray} (h : t.Reaches l) (hl : l ≠ [])
    (hread : t.readIn l = .ok bytes) (hreplace : t.replaceFile l.path content = .ok t') :
    t.Alike t' ∧ t'.readIn l = .ok content ∧ ∀ k, k ≠ l → t'.readIn k = t.readIn k := by
  obtain ⟨f, hfile, -, rfl⟩ := (replaceFile_path_eq_ok_iff h hl).mp hreplace
  have hentry := get?_of_fileAt h hl hfile
  obtain ⟨f', hf', hreadable, -⟩ := readIn_eq_ok_iff.mp hread
  obtain rfl := Entry.file.inj (Option.some.inj (hentry.symm.trans hf'))
  exact ⟨alike_writeAt_touch hentry l.dropLast content,
    readIn_eq_ok_iff.mpr ⟨_, get?_writeAt_touch_self t _ content f.mode hl, hreadable, rfl⟩,
    fun k hkl => (kept_writeAt_touch l.dropLast hkl).readIn_eq⟩

/-- The file at a location that can be read is replaced if its directory is open. -/
theorem exists_replaceFile {bytes : ByteArray} (h : t.Reaches l) (hl : l ≠ [])
    (hresolve : t.resolve l.path = .ok l) (hread : t.readIn l = .ok bytes)
    (hopen : t.isOpenAt l.dropLast = true) (content : ByteArray) :
    ∃ t', t.replaceFile l.path content = .ok t' := by
  obtain ⟨f, hentry, -⟩ := readIn_eq_ok_iff.mp hread
  have hfile : t.fileAt l.path = .ok f := fileAt_eq_ok_iff.mpr ⟨l, hresolve, hentry⟩
  exact ⟨_, (replaceFile_path_eq_ok_iff h hl).mpr ⟨f, hfile, hopen, rfl⟩⟩

/-- What is read as text is what the bytes stand for. -/
theorem readText_eq_ok_iff {c : Text} :
    t.readText path = .ok c ↔ ∃ bytes, t.read path = .ok bytes ∧ Utf8.decode bytes = .ok c := by
  unfold readText readTextFrom read
  cases t.readFrom [] path with
  | error cause => simp
  | ok bytes =>
    cases hdecode : Utf8.decode bytes with
    | error fault => simp [hdecode]
    | ok c' => simp [hdecode]

/-- What was written as text is read as that text. -/
theorem readText_of_readFrom {c : Text} (h : t.readFrom [] path = .ok (Utf8.encode c)) :
    t.readText path = .ok c :=
  readText_eq_ok_iff.mpr ⟨_, h, Utf8.decode_encode c⟩

/-- What a readable file holds as text is read through a path that leads there. -/
theorem readText_of_get? {a : Attributes} {c : Text} (hresolve : t.resolve path = .ok l)
    (hfile : t.get? l = some (.file ⟨a, Utf8.encode c⟩)) (hreadable : a.isReadable = true) :
    t.readText path = .ok c :=
  readText_of_readFrom (read_eq_ok_iff.mpr
    ⟨l, hresolve, readIn_eq_ok_iff.mpr ⟨_, hfile, hreadable, rfl⟩⟩)

/-- The text at a location, read through its path. -/
theorem exists_of_readText {c : Text} (h : t.Reaches l) (hl : l ≠ [])
    (hread : t.readText l.path = .ok c) :
    t.resolve l.path = .ok l ∧ ∃ bytes, t.read l.path = .ok bytes ∧ t.readIn l = .ok bytes ∧
      Utf8.decode bytes = .ok c := by
  obtain ⟨bytes, hbytes, hdecode⟩ := readText_eq_ok_iff.mp hread
  obtain ⟨k, hresolve, hin⟩ := read_eq_ok_iff.mp hbytes
  obtain rfl := h.eq_of_resolve hl hresolve
  exact ⟨hresolve, bytes, hbytes, hin, hdecode⟩

/-- What is read through a path depends on where it leads, and on the file there. -/
theorem read_congr (halike : t.Alike t') (h : t.Reaches l) (hl : l ≠ [])
    (hread : t'.readIn l = t.readIn l) : t'.read l.path = t.read l.path := by
  have hresolve := halike.resolve_eq l.path
  unfold resolve at hresolve
  unfold read readFrom
  rw [hresolve]
  cases hk : t.resolveFrom [] l.path with
  | error cause => rfl
  | ok k =>
    rw [h.eq_of_resolve hl hk]
    exact hread

/-- What is read as text through a path depends on where it leads, and on the file there. -/
theorem readText_congr (halike : t.Alike t') (h : t.Reaches l) (hl : l ≠ [])
    (hread : t'.readIn l = t.readIn l) : t'.readText l.path = t.readText l.path := by
  have hbytes := read_congr halike h hl hread
  unfold read at hbytes
  rw [readText, readText, readTextFrom, readTextFrom, hbytes]

end FileTree

/-! ## Edits -/

namespace Edit

variable {e : Edit} {t t' : FileTree} {l : Location} {c c' : Text} {cut : Cut} {n : Nat}

/-- What passes the verification is cut out by the edit, and is what the edit expects. -/
theorem verify_eq_ok_iff :
    e.verify c = .ok cut ↔
      e.cut? c = some cut ∧ (cut.stretch = e.newText ∨ e.expected.accepts cut.stretch = true) := by
  unfold verify
  cases e.cut? c with
  | none => simp
  | some cut' =>
    by_cases hv : cut'.stretch = e.newText ∨ e.expected.accepts cut'.stretch = true
    · simp only [if_pos hv, Except.ok.injEq, Option.some.injEq]
      exact ⟨fun h => ⟨h, h ▸ hv⟩, fun h => h.1⟩
    · simp only [if_neg hv, reduceCtorEq, Option.some.injEq, false_iff]
      rintro ⟨rfl, hv'⟩
      exact hv hv'

/-- What an edit makes of a text that passes the verification. -/
theorem applyTo_eq_ok_iff_verify :
    e.applyTo c = .ok c' ↔
      ∃ cut, e.verify c = .ok cut ∧ c' = cut.before ++ e.newText ++ cut.after := by
  unfold applyTo
  cases e.verify c with
  | error err => simp
  | ok cut => simp [eq_comm]

/-- **An edit changes a text** exactly if it applies, and the new text is not there already. -/
theorem exists_ne_iff :
    (∃ c', e.applyTo c = .ok c' ∧ c' ≠ c) ↔
      ∃ cut, e.verify c = .ok cut ∧ cut.stretch ≠ e.newText := by
  constructor
  · rintro ⟨c', happly, hne⟩
    obtain ⟨cut, hverify, rfl⟩ := applyTo_eq_ok_iff_verify.mp happly
    refine ⟨cut, hverify, fun hsame => hne ?_⟩
    rw [← hsame]
    exact (eq_of_cut? (verify_eq_ok_iff.mp hverify).1).1.symm
  · rintro ⟨cut, hverify, hne⟩
    refine ⟨_, applyTo_eq_ok_iff_verify.mpr ⟨cut, hverify, rfl⟩, fun hsame => hne ?_⟩
    have htext := (eq_of_cut? (verify_eq_ok_iff.mp hverify).1).1
    rw [htext] at hsame
    exact (List.append_cancel_left (List.append_cancel_right hsame)).symm

/-- An edit that changes the text of its file replaces the file, if the tree lets it. -/
theorem applyIn_of_ne (hread : t.readText e.file = .ok c) (happly : e.applyTo c = .ok c')
    (hne : c' ≠ c) :
    e.applyIn t = match t.replaceFile e.file (Utf8.encode c') with
      | .error cause => (t, .error (.io cause))
      | .ok t' => (t', .ok (.applied e.newText.byteSize)) := by
  obtain ⟨bytes, hbytes, hdecode⟩ := FileTree.readText_eq_ok_iff.mp hread
  obtain ⟨cut, hverify, hstretch⟩ := exists_ne_iff.mp ⟨c', happly, hne⟩
  obtain ⟨cut', hverify', rfl⟩ := applyTo_eq_ok_iff_verify.mp happly
  obtain rfl := Except.ok.inj (hverify.symm.trans hverify')
  unfold applyIn
  cases hreplace : t.replaceFile e.file (Utf8.encode (cut.before ++ e.newText ++ cut.after)) with
  | error cause => simp only [hbytes, hdecode, hverify, if_neg hstretch, hreplace]
  | ok t' => simp only [hbytes, hdecode, hverify, if_neg hstretch, hreplace]

/-- **When an edit changes its file**, and to what effect. -/
theorem applyIn_eq_applied_iff :
    e.applyIn t = (t', .ok (.applied n)) ↔
      n = e.newText.byteSize ∧ ∃ c c', t.readText e.file = .ok c ∧ e.applyTo c = .ok c' ∧ c' ≠ c ∧
        t.replaceFile e.file (Utf8.encode c') = .ok t' := by
  constructor
  · unfold applyIn
    intro h
    cases hread : t.read e.file with
    | error cause => simp [hread] at h
    | ok bytes =>
      cases hdecode : Utf8.decode bytes with
      | error fault => simp [hread, hdecode] at h
      | ok c =>
        have htext := FileTree.readText_eq_ok_iff.mpr ⟨bytes, hread, hdecode⟩
        cases hverify : e.verify c with
        | error err => simp [hread, hdecode, hverify] at h
        | ok cut =>
          simp only [hread, hdecode, hverify] at h
          split at h
          · simp at h
          · rename_i hne
            obtain ⟨c', happly, hchange⟩ := exists_ne_iff.mpr ⟨cut, hverify, hne⟩
            obtain ⟨cut', hverify', rfl⟩ := applyTo_eq_ok_iff_verify.mp happly
            obtain rfl := Except.ok.inj (hverify.symm.trans hverify')
            split at h
            · simp at h
            · rename_i t'' hreplace
              simp only [Prod.mk.injEq, Except.ok.injEq, EditOutcome.applied.injEq] at h
              obtain ⟨rfl, rfl⟩ := h
              exact ⟨rfl, c, _, htext, happly, hchange, hreplace⟩
  · rintro ⟨rfl, c, c', hread, happly, hchange, hreplace⟩
    rw [applyIn_of_ne hread happly hchange, hreplace]

/-- When an edit finds its new text in place. -/
theorem applyIn_eq_alreadyApplied_iff :
    e.applyIn t = (t', .ok .alreadyApplied) ↔
      t' = t ∧ ∃ c, t.readText e.file = .ok c ∧ e.applyTo c = .ok c := by
  have hsame : ∀ {c : Text} {cut : Cut}, e.verify c = .ok cut →
      (cut.stretch = e.newText ↔ e.applyTo c = .ok c) := by
    intro c cut hverify
    have happly := applyTo_eq_ok_iff_verify.mpr ⟨cut, hverify, rfl⟩
    have htext := (eq_of_cut? (verify_eq_ok_iff.mp hverify).1).1
    constructor
    · intro h
      rw [happly, ← h, ← htext]
    · intro h
      rw [happly, Except.ok.injEq] at h
      conv at h => rhs; rw [htext]
      exact (List.append_cancel_left (List.append_cancel_right h)).symm
  unfold applyIn
  constructor
  · intro h
    cases hread : t.read e.file with
    | error cause => simp [hread] at h
    | ok bytes =>
      cases hdecode : Utf8.decode bytes with
      | error fault => simp [hread, hdecode] at h
      | ok c =>
        cases hverify : e.verify c with
        | error err => simp [hread, hdecode, hverify] at h
        | ok cut =>
          simp only [hread, hdecode, hverify] at h
          split at h
          · rename_i hplace
            exact ⟨(Prod.mk.inj h).1.symm, c, FileTree.readText_eq_ok_iff.mpr ⟨bytes, hread, hdecode⟩,
              (hsame hverify).mp hplace⟩
          · split at h
            all_goals simp at h
  · rintro ⟨rfl, c, hread, happly⟩
    obtain ⟨bytes, hbytes, hdecode⟩ := FileTree.readText_eq_ok_iff.mp hread
    obtain ⟨cut, hverify, -⟩ := applyTo_eq_ok_iff_verify.mp happly
    simp only [hbytes, hdecode, hverify, if_pos ((hsame hverify).mpr happly)]

/-- **What an edit does to a tree**: its file holds the edited text, and every other file what it
held before. -/
theorem spec_of_applyIn {outcome : EditOutcome} (h : t.Reaches l) (hl : l ≠ [])
    (hfile : e.file = l.path) (hread : t.readText l.path = .ok c) (happly : e.applyTo c = .ok c')
    (hedit : e.applyIn t = (t', .ok outcome)) :
    t.Alike t' ∧ t'.readText l.path = .ok c' ∧ ∀ k, k ≠ l → t'.readIn k = t.readIn k := by
  cases outcome with
  | alreadyApplied =>
    obtain ⟨rfl, d, hread', happly'⟩ := applyIn_eq_alreadyApplied_iff.mp hedit
    rw [hfile, hread] at hread'
    obtain rfl := Except.ok.inj hread'
    obtain rfl := Except.ok.inj (happly.symm.trans happly')
    exact ⟨.refl t', hread, fun k _ => rfl⟩
  | applied bytes =>
    obtain ⟨-, d, d', hread', happly', -, hreplace⟩ := applyIn_eq_applied_iff.mp hedit
    rw [hfile, hread] at hread'
    obtain rfl := Except.ok.inj hread'
    obtain rfl := Except.ok.inj (happly.symm.trans happly')
    rw [hfile] at hreplace
    obtain ⟨hresolve, _, -, hin, -⟩ := FileTree.exists_of_readText h hl hread
    obtain ⟨halike, hnew, hothers⟩ := FileTree.spec_of_replaceFile h hl hin hreplace
    have hresolve' : t'.resolve l.path = .ok l := (halike.resolve_eq l.path).trans hresolve
    refine ⟨halike, ?_, hothers⟩
    exact FileTree.readText_of_readFrom (FileTree.read_eq_ok_iff.mpr ⟨l, hresolve', hnew⟩)

/-- An edit that applies to the text of a file applies to the file if its directory is open. -/
theorem exists_applyIn (h : t.Reaches l) (hl : l ≠ []) (hfile : e.file = l.path)
    (hread : t.readText l.path = .ok c) (happly : e.applyTo c = .ok c')
    (hopen : t.isOpenAt l.dropLast = true) :
    ∃ t' outcome, e.applyIn t = (t', .ok outcome) := by
  rw [← hfile] at hread
  by_cases hsame : c' = c
  · rw [hsame] at happly
    exact ⟨t, .alreadyApplied, applyIn_eq_alreadyApplied_iff.mpr ⟨rfl, c, hread, happly⟩⟩
  · obtain ⟨hresolve, _, -, hin, -⟩ := FileTree.exists_of_readText h hl (hfile ▸ hread)
    obtain ⟨t', hreplace⟩ := FileTree.exists_replaceFile h hl hresolve hin hopen (Utf8.encode c')
    rw [← hfile] at hreplace
    exact ⟨t', .applied e.newText.byteSize,
      applyIn_eq_applied_iff.mpr ⟨rfl, c, c', hread, happly, hsame, hreplace⟩⟩

end Edit

end SitePatch
