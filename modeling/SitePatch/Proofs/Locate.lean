import SitePatch.Root
import SitePatch.Proofs.Atomic

/-! # Files below a root

A root is the canonical location of a directory, and a path is followed from there. What the root
answers is told by where the path leads: to a file below the root, to a file elsewhere, to no file at
all, or to a file whose own path is too long to be followed (`Root.Answers`). Below the root is what
has the root's names before its own, so a directory beside the root is not below it, even if its name
starts with the root's. Main statement: which root a path leads to, what the root answers, and that
both the root and what it locates are found again by their own paths (`Root.ofPath_locate_spec`). -/

namespace SitePatch

/-! ## Canonical locations -/

namespace FileTree

variable {t : FileTree} {l k : Location} {path : Text} {cause : FileError}

/-- **The path leads to a file**, at the location. -/
def LeadsToFile (t : FileTree) (path : Text) (l : Location) : Prop :=
  t.resolve path = .ok l ∧ ∃ f, t.get? l = some (.file f)

/-- A path is one of a file exactly if it leads to a file at some location. -/
theorem isFile_iff_leadsToFile : t.isFile path = true ↔ ∃ l, t.LeadsToFile path l := by
  simp only [isFile_iff, LeadsToFile, exists_and_left]

/-- **A canonical location is canonical again**, through its own path. -/
theorem canonicalize_path (h : t.canonicalize path = .ok l) : t.canonicalize l.path = .ok l :=
  canonicalize_eq_ok_iff.mpr ⟨resolve_path_of_canonicalize h, (canonicalize_eq_ok_iff.mp h).2⟩

/-- A path that leads somewhere has no canonical location if the location's own path is not followed.
-/
theorem canonicalize_eq_error_iff (h : t.resolve path = .ok l) :
    t.canonicalize path = .error cause ↔ t.resolve l.path = .error cause := by
  unfold canonicalize
  rw [h]
  cases hpath : t.resolve l.path with
  | error cause' => simp [hpath]
  | ok k => simp [hpath]

end FileTree

/-- The path of a location starts with a slash. -/
theorem Location.isAbsolute_path (l : Location) : Path.isAbsolute l.path = true := by
  unfold Location.path
  cases l with
  | nil => rfl
  | cons name l => rfl

/-- The path of a location below another starts with the other's path, and so does that of a location
beside it whose name is only longer. -/
theorem Location.path_prefix_path (parent : Location) (name suffix : Text) (rest : Location) :
    Location.path (parent ++ [name]) <+: Location.path (parent ++ (name ++ suffix) :: rest) := by
  refine ⟨suffix ++ rest.flatMap fun name => '/' :: name, ?_⟩
  simp [Location.path]

/-- A name that is only longer does not lie below the shorter one. -/
theorem Location.not_prefix_of_longer {parent rest : Location} {name suffix : Text}
    (h : suffix ≠ []) : ¬ parent ++ [name] <+: parent ++ (name ++ suffix) :: rest := by
  rw [List.prefix_append_right_inj, List.cons_prefix_cons]
  rintro ⟨hname, -⟩
  exact h (List.self_eq_append_right.mp hname)

/-! ## What a root answers -/

namespace Root

open FileTree

variable {r : Root} {t : FileTree} {path relative : Text} {answer : Except RootError Location}
  {l : Location}

/-- **What the root has to answer** to a path, which starts at the root unless it is absolute. -/
inductive Answers (r : Root) (t : FileTree) (relative : Text) : Except RootError Location → Prop
  /-- The path leads to a file below the root. -/
  | located {l : Location} (hfile : t.LeadsToFile (Path.join r.path relative) l)
      (hpath : Followable l.path) (hbelow : r.location <+: l) : Answers r t relative (.ok l)
  /-- The path leads nowhere, or to something that is no file. -/
  | missing (h : ∀ l, ¬ t.LeadsToFile (Path.join r.path relative) l) :
      Answers r t relative (.error (.missingFile (Path.join r.path relative)))
  /-- The path leads to a file that is not below the root. -/
  | outside {l : Location} (hfile : t.LeadsToFile (Path.join r.path relative) l)
      (hpath : Followable l.path) (hbelow : ¬ r.location <+: l) :
      Answers r t relative (.error (.outside l.path r.path))
  /-- The path leads to a file whose own path cannot be followed. -/
  | notCanonical {l : Location} {cause : FileError}
      (hfile : t.LeadsToFile (Path.join r.path relative) l)
      (hcause : t.resolve l.path = .error cause) :
      Answers r t relative (.error (.notCanonical (Path.join r.path relative) cause))

/-- There is always something to answer. -/
theorem exists_answers (r : Root) (t : FileTree) (relative : Text) :
    ∃ answer, r.Answers t relative answer := by
  by_cases hsome : ∃ l, t.LeadsToFile (Path.join r.path relative) l
  · obtain ⟨l, hfile⟩ := hsome
    cases hresolve : t.resolve l.path with
    | error cause => exact ⟨_, .notCanonical hfile hresolve⟩
    | ok k =>
      have hpath : Followable l.path := (resolve_eq_ok_iff.mp hresolve).1
      by_cases hbelow : r.location <+: l
      · exact ⟨_, .located hfile hpath hbelow⟩
      · exact ⟨_, .outside hfile hpath hbelow⟩
  · exact ⟨_, .missing (not_exists.mp hsome)⟩

/-- The root answers what it has to. -/
theorem Answers.locate_eq (h : r.Answers t relative answer) : r.locate t relative = answer := by
  cases h with
  | located hfile hpath hbelow =>
    have hcanonical := canonicalize_eq_ok_iff.mpr ⟨hfile.1, hpath⟩
    exact locate_eq_ok_iff.mpr ⟨isFile_iff_leadsToFile.mpr ⟨_, hfile⟩, hcanonical, hbelow⟩
  | missing hnone =>
    have hsome : ¬ t.isFile (Path.join r.path relative) = true := fun h =>
      not_exists.mpr hnone (isFile_iff_leadsToFile.mp h)
    simp only [locate, if_neg hsome]
  | outside hfile hpath hbelow =>
    have hcanonical := canonicalize_eq_ok_iff.mpr ⟨hfile.1, hpath⟩
    rw [← List.isPrefixOf_iff_prefix] at hbelow
    simp only [locate, if_pos (isFile_iff_leadsToFile.mpr ⟨_, hfile⟩), hcanonical, if_neg hbelow]
  | notCanonical hfile hcause =>
    have hcanonical := (canonicalize_eq_error_iff hfile.1).mpr hcause
    simp only [locate, if_pos (isFile_iff_leadsToFile.mpr ⟨_, hfile⟩), hcanonical]

/-- **What a root answers** is what it has to answer. -/
theorem locate_eq_iff : r.locate t relative = answer ↔ r.Answers t relative answer := by
  refine ⟨fun h => ?_, Answers.locate_eq⟩
  obtain ⟨answer', hanswer⟩ := exists_answers r t relative
  rwa [← h, hanswer.locate_eq]

/-- What is located is located again, by its own path. -/
theorem locate_path (h : r.locate t relative = .ok l) : r.locate t l.path = .ok l := by
  obtain ⟨hfile, hcanonical, hbelow⟩ := locate_eq_ok_iff.mp h
  have hresolve := resolve_path_of_canonicalize hcanonical
  obtain ⟨f, hf⟩ := (locate_spec h).1
  have hjoin : Path.join r.path l.path = l.path := Path.join_of_isAbsolute l.isAbsolute_path
  rw [locate_eq_ok_iff, hjoin]
  exact ⟨isFile_iff.mpr ⟨l, f, hresolve, hf⟩, canonicalize_path hcanonical, hbelow⟩

/-- A root is the directory to which the path leads. -/
theorem ofPath_eq_ok_iff_resolve :
    ofPath t path = .ok r ↔ t.resolve path = .ok r.location ∧
      (∃ a, t.get? r.location = some (.directory a)) ∧ Followable r.path := by
  rw [ofPath_eq_ok_iff, canonicalize_eq_ok_iff, isDirectory_iff]
  constructor
  · rintro ⟨⟨l, a, hl, ha⟩, hresolve, hpath⟩
    obtain rfl := Except.ok.inj (hl.symm.trans hresolve)
    exact ⟨hl, ⟨a, ha⟩, hpath⟩
  · rintro ⟨hresolve, ⟨a, ha⟩, hpath⟩
    exact ⟨⟨_, a, hresolve, ha⟩, hresolve, hpath⟩

/-- The root is found again by its own path. -/
theorem ofPath_path (h : ofPath t path = .ok r) : ofPath t r.path = .ok r := by
  obtain ⟨hresolve, hdirectory, hpath⟩ := ofPath_eq_ok_iff_resolve.mp h
  exact ofPath_eq_ok_iff_resolve.mpr
    ⟨(Reaches.of_resolve hresolve).resolve_path hpath, hdirectory, hpath⟩

/-- **What a root locates**, in every tree. A path leads to a root if it leads to a directory, through
whatever links, and the root is where it leads; the root's own path leads to the same root. To every
path, relative or absolute, with dots and links, the root answers with the location of the file to
which the path leads from the root if that lies below the root, and refuses it otherwise; what it
locates is located again by its own path. A file in a directory beside the root whose name is only
longer is refused, although its path starts with the path of the root. Files and directories whose
own paths are not followed, which are those longer than paths may be, have no canonical location. -/
theorem ofPath_locate_spec (t : FileTree) (path : Text) :
    (∀ r, ofPath t path = .ok r ↔ t.resolve path = .ok r.location ∧
      (∃ a, t.get? r.location = some (.directory a)) ∧ Followable r.path) ∧
    ∀ r, ofPath t path = .ok r →
      ofPath t r.path = .ok r ∧
      ∀ relative,
        (∀ answer, r.locate t relative = answer ↔ r.Answers t relative answer) ∧
        (∀ l, r.locate t relative = .ok l → r.locate t l.path = .ok l) ∧
        ∀ parent name suffix rest, r.location = parent ++ [name] → suffix ≠ [] →
          t.LeadsToFile (Path.join r.path relative) (parent ++ (name ++ suffix) :: rest) →
          Followable (Location.path (parent ++ (name ++ suffix) :: rest)) →
          r.path <+: Location.path (parent ++ (name ++ suffix) :: rest) ∧
            r.locate t relative
              = .error (.outside (Location.path (parent ++ (name ++ suffix) :: rest)) r.path) := by
  refine ⟨fun r => ofPath_eq_ok_iff_resolve, fun r hr => ⟨ofPath_path hr, fun relative => ?_⟩⟩
  refine ⟨fun answer => locate_eq_iff, fun l => locate_path, ?_⟩
  intro parent name suffix rest hlocation hsuffix hfile hpath
  constructor
  · rw [Root.path, hlocation]
    exact Location.path_prefix_path parent name suffix rest
  · refine locate_eq_iff.mpr (.outside hfile hpath ?_)
    rw [hlocation]
    exact Location.not_prefix_of_longer hsuffix

/-- The directory with one file, a directory beside it whose name is longer, with a file as well, and a
link to the first one. -/
def besideRoot : FileTree :=
  ((Edit.singleFile.put ["luau-2"] (.directory ⟨0o755, 0⟩)).put ["luau-2", "b.cpp"]
    (.file ⟨⟨0o644, 0⟩, Utf8.encode "b"⟩)).put ["checkout"] (.link "luau")

/-- Through the link, the directory itself is the root. It locates its file on a way through the
directory beside it, and refuses the file there. -/
theorem ofPath_locate_besideRoot :
    ofPath besideRoot "/checkout" = .ok ⟨["luau"]⟩ ∧ ofPath besideRoot "/luau" = .ok ⟨["luau"]⟩ ∧
      locate ⟨["luau"]⟩ besideRoot "./../luau-2/../luau/a.cpp" = .ok ["luau", "a.cpp"] ∧
      locate ⟨["luau"]⟩ besideRoot "/luau/a.cpp" = .ok ["luau", "a.cpp"] ∧
      locate ⟨["luau"]⟩ besideRoot "../luau-2/b.cpp"
        = .error (.outside "/luau-2/b.cpp" "/luau") := by
  obtain ⟨hroot, hspec⟩ := ofPath_locate_spec besideRoot "/checkout"
  have hok : ofPath besideRoot "/checkout" = .ok ⟨["luau"]⟩ :=
    (hroot ⟨["luau"]⟩).mpr ⟨rfl, ⟨_, rfl⟩, by decide, by decide, by decide⟩
  obtain ⟨hagain, hlocate⟩ := hspec _ hok
  have hfile : locate ⟨["luau"]⟩ besideRoot "./../luau-2/../luau/a.cpp" = .ok ["luau", "a.cpp"] :=
    ((hlocate _).1 _).mpr (.located ⟨rfl, _, rfl⟩ ⟨by decide, by decide, by decide⟩ ⟨["a.cpp"], rfl⟩)
  refine ⟨hok, hagain, hfile, (hlocate _).2.1 _ hfile, ?_⟩
  -- the name of the directory beside the root is that of the root, and two characters more
  have hbeside := (hlocate "../luau-2/b.cpp").2.2 [] "luau" "-2" ["b.cpp"] rfl (by decide)
  exact (hbeside ⟨rfl, _, rfl⟩ ⟨by decide, by decide, by decide⟩).2

end Root

end SitePatch
