import SitePatch.Proofs.Atomic

/-! # Edits through links

A file may be named by its own path, or by a path that leads to it through links. What is read through
either is the same, but a file is replaced where the last name of the path stands
(`FileTree.NamesAt`). So an edit comes to the same through both paths unless that name is a link and
there is something to replace: then the link itself is replaced by a file that holds the edited text,
and the file to which it led keeps the old one. Main statement: when an edit comes to the same through
a path and through the canonical path of its file (`Edit.sameThrough_canonical_iff`). -/

namespace SitePatch

namespace FileTree

variable {t t' : FileTree} {d l k : Location} {name path : Text} {f : File}

/-! ## Where a path's last name stands -/

/-- **The last name of the path stands at the location**, for a file or for a link. -/
def NamesAt (t : FileTree) (path : Text) (k : Location) : Prop :=
  ∃ d name, t.slot path = .ok (d, name) ∧ k = d ++ [name]

/-- A last name stands at one location only. -/
theorem NamesAt.unique (h : t.NamesAt path k) (h' : t.NamesAt path l) : k = l := by
  obtain ⟨d, name, hslot, rfl⟩ := h
  obtain ⟨d', name', hslot', rfl⟩ := h'
  obtain ⟨rfl, rfl⟩ := Prod.mk.inj (Except.ok.inj (hslot.symm.trans hslot'))
  rfl

/-- The last name of a path that leads to a file stands for the file, or for a link. -/
theorem exists_namesAt (hresolve : t.resolve path = .ok l) (hfile : t.get? l = some (.file f)) :
    ∃ k, t.NamesAt path k ∧ (k = l ∨ ∃ target, t.get? k = some (.link target)) := by
  obtain ⟨n, hn, hleads⟩ := follow_eq_ok_iff.mp (resolve_eq_ok_iff.mp hresolve).2
  obtain ⟨i, j, d, name, -, hslot, -, -, hstep⟩ := exists_slot_of_leads hleads hn hfile
  refine ⟨d ++ [name], ⟨d, name, hslot, rfl⟩, ?_⟩
  exact hstep.entry.imp Eq.symm fun ⟨target, _, hlink, _⟩ => ⟨target, hlink⟩

/-- The last name of a location's own path stands there. -/
theorem Reaches.namesAt_path (h : t.Reaches l) (hl : l ≠ []) : t.NamesAt l.path l :=
  ⟨_, _, h.slot_path hl, (List.dropLast_concat_getLast hl).symm⟩

/-- A file is replaced where the last name of the path stands, if the directory is open. -/
theorem NamesAt.replaceFile_eq {content : ByteArray} (h : t.NamesAt path k)
    (hfile : t.fileAt path = .ok f) :
    t.replaceFile path content
      = if t.isOpenAt k.dropLast then .ok ((t.touch k.dropLast).writeAt k content f.mode)
        else .error .permissionDenied := by
  obtain ⟨d, name, hslot, rfl⟩ := h
  rw [List.dropLast_concat, replaceFile_of_slot hslot hfile]

/-- The entry that a path names is not the top. -/
theorem NamesAt.ne_nil (h : t.NamesAt path k) : k ≠ [] := by
  obtain ⟨d, name, -, rfl⟩ := h
  simp

/-- **A file has been put at the location**: it holds the text, has the mode of the file `f`, and is
dated now. Every other entry is kept, but for the date of a directory. -/
structure PutAt (t : FileTree) (k : Location) (f : File) (text : Text) (t' : FileTree) : Prop where
  entry : t'.get? k = some (.file ⟨⟨f.mode, t.clock⟩, Utf8.encode text⟩)
  others : ∀ m, m ≠ k → Kept (t.get? m) (t'.get? m)

/-- What is written at a location, with the directory dated, is put there. -/
theorem putAt_writeAt_touch (t : FileTree) (f : File) (text : Text) (hk : k ≠ []) :
    t.PutAt k f text ((t.touch k.dropLast).writeAt k (Utf8.encode text) f.mode) :=
  ⟨get?_writeAt_touch_self t _ _ _ hk, fun _ hm => kept_writeAt_touch _ hm⟩

end FileTree

/-! ## An edit through another path -/

/-- The error, about the file of the given name. -/
def EditError.renamed (file : Text) : EditError → EditError
  | mismatch _ start stop found => mismatch file start stop found
  | badRange start stop length => badRange start stop length
  | io cause => io cause
  | notText fault => notText fault

namespace EditError

variable {α : Type} (file : Text)

/-- A result that is no error stays as it is. -/
@[simp] theorem mapError_renamed_ok (x : α) :
    (Except.ok x : Except EditError α).mapError (renamed file) = .ok x := rfl

/-- The error of an outcome is renamed. -/
@[simp] theorem mapError_renamed_error (err : EditError) :
    (Except.error err : Except EditError α).mapError (renamed file) = .error (err.renamed file) := rfl

end EditError

namespace Edit

variable {e : Edit} {t t' : FileTree} {k l : Location} {file c c' : Text} {f : File} {n : Nat}

/-- The edit of the file to which another path leads. -/
def on (e : Edit) (file : Text) : Edit := { e with file := file }

/-- An edit of another file has that as its file. -/
@[simp] theorem file_on (e : Edit) (file : Text) : (e.on file).file = file := rfl

/-- **The edit comes to the same through the path**: the same tree, and the same outcome, but for the
name of the file in an error. -/
def SameThrough (e : Edit) (file : Text) (t : FileTree) : Prop :=
  (e.on file).applyIn t = ((e.applyIn t).1, (e.applyIn t).2.mapError (EditError.renamed file))

/-- **Whether the edit has something to change**: it applies to the text of its file, and makes
another one of it. -/
def Changes (e : Edit) (t : FileTree) : Prop :=
  ∃ c c', t.readText e.file = .ok c ∧ e.applyTo c = .ok c' ∧ c' ≠ c

/-- The path of the file matters in an error only. -/
theorem verify_on (e : Edit) (file c : Text) :
    (e.on file).verify c = (e.verify c).mapError (EditError.renamed file) := by
  unfold verify
  have hcut : (e.on file).cut? c = e.cut? c := rfl
  rw [hcut]
  cases e.cut? c with
  | none => rfl
  | some cut =>
    by_cases hv : cut.stretch = e.newText ∨ e.expected.accepts cut.stretch = true
    · have hv' : cut.stretch = (e.on file).newText ∨
          (e.on file).expected.accepts cut.stretch = true := hv
      simp only [if_pos hv, if_pos hv', EditError.mapError_renamed_ok]
    · have hv' : ¬ (cut.stretch = (e.on file).newText ∨
          (e.on file).expected.accepts cut.stretch = true) := hv
      simp only [if_neg hv, if_neg hv', EditError.mapError_renamed_error]
      rfl

/-- An edit of another file applies to the same texts, with the same results. -/
theorem applyTo_on_eq_ok_iff : (e.on file).applyTo c = .ok c' ↔ e.applyTo c = .ok c' := by
  rw [applyTo_eq_ok_iff, applyTo_eq_ok_iff]
  exact Iff.rfl

/-- An edit that has nothing to change comes to the same through every path on which the same is
read. -/
theorem sameThrough_of_not_changes (hread : t.read file = t.read e.file) (h : ¬ e.Changes t) :
    e.SameThrough file t := by
  unfold SameThrough applyIn
  rw [file_on, hread]
  cases hbytes : t.read e.file with
  | error cause => rfl
  | ok bytes =>
    dsimp only
    cases hdecode : Utf8.decode bytes with
    | error fault => rfl
    | ok c =>
      dsimp only
      rw [verify_on]
      cases hverify : e.verify c with
      | error err => rfl
      | ok cut =>
        have hsame : cut.stretch = e.newText := by
          refine Decidable.byContradiction fun hne => ?_
          obtain ⟨c', happly, hchange⟩ := exists_ne_iff.mpr ⟨cut, hverify, hne⟩
          exact h ⟨c, c', FileTree.readText_eq_ok_iff.mpr ⟨bytes, hbytes, hdecode⟩, happly, hchange⟩
        have hsame' : cut.stretch = (e.on file).newText := hsame
        simp only [EditError.mapError_renamed_ok, if_pos hsame, if_pos hsame']

/-- What an edit that has something to change comes to: it puts the edited text where the last name of
its path stands, if the directory is open. -/
theorem applyIn_of_changes (hk : t.NamesAt e.file k) (hfile : t.fileAt e.file = .ok f)
    (hread : t.readText e.file = .ok c) (happly : e.applyTo c = .ok c') (hne : c' ≠ c) :
    e.applyIn t
      = if t.isOpenAt k.dropLast then
          ((t.touch k.dropLast).writeAt k (Utf8.encode c') f.mode, .ok (.applied e.newText.byteSize))
        else (t, .error (.io .permissionDenied)) := by
  rw [applyIn_of_ne hread happly hne, hk.replaceFile_eq hfile]
  by_cases hopen : t.isOpenAt k.dropLast = true
  · rw [if_pos hopen, if_pos hopen]
  · rw [if_neg hopen, if_neg hopen]

/-- **An edit that has something to change** comes to the same through the path of its file if the last
name of its own path stands there, too, or if neither directory is open. -/
theorem sameThrough_iff_of_changes (hk : t.NamesAt e.file k) (hl : t.NamesAt file l)
    (hentry : k = l ∨ ∃ target, t.get? k = some (.link target)) (hlast : t.get? l = some (.file f))
    (hfile : t.fileAt e.file = .ok f) (hfile' : t.fileAt file = .ok f)
    (hread : t.readText file = t.readText e.file) (h : e.Changes t) :
    e.SameThrough file t ↔
      k = l ∨ t.isOpenAt k.dropLast = false ∧ t.isOpenAt l.dropLast = false := by
  obtain ⟨c, c', hc, happly, hne⟩ := h
  have hhere := applyIn_of_changes hk hfile hc happly hne
  have hthere := applyIn_of_changes (e := e.on file) hl hfile' (hread.trans hc)
    (applyTo_on_eq_ok_iff.mpr happly) hne
  rw [SameThrough, hhere, hthere]
  rcases hentry with rfl | ⟨target, hlink⟩
  · refine iff_of_true ?_ (.inl rfl)
    by_cases hopen : t.isOpenAt k.dropLast = true
    · rw [if_pos hopen, if_pos hopen]
      rfl
    · rw [if_neg hopen, if_neg hopen]
      rfl
  · have hkl : k ≠ l := by
      rintro rfl
      simp [hlink] at hlast
    rw [or_iff_right hkl]
    cases hopen : t.isOpenAt k.dropLast <;> cases hopen' : t.isOpenAt l.dropLast
    · simp [EditError.renamed]
    · simp
    · simp
    · refine iff_of_false (fun hsame => ?_) (by simp)
      have htree := (Prod.mk.inj hsame).1
      -- through the path of the file, the link stays
      have hput := (FileTree.putAt_writeAt_touch t f c' hk.ne_nil).entry
      have hkept := (FileTree.putAt_writeAt_touch t f c' hl.ne_nil).others k hkl
      simp only [if_true] at htree
      rw [htree, hput, hlink] at hkept
      cases hkept

/-- **An edit that changes its file** puts the edited text where the last name of its path stands. -/
theorem exists_putAt_of_applied (hk : t.NamesAt e.file k) (hfile : t.fileAt e.file = .ok f)
    (h : e.applyIn t = (t', .ok (.applied n))) :
    ∃ c c', t.readText e.file = .ok c ∧ e.applyTo c = .ok c' ∧ t.PutAt k f c' t' := by
  obtain ⟨-, c, c', hread, happly, -, hreplace⟩ := applyIn_eq_applied_iff.mp h
  refine ⟨c, c', hread, happly, ?_⟩
  rw [hk.replaceFile_eq hfile] at hreplace
  split at hreplace
  · rw [← Except.ok.inj hreplace]
    exact FileTree.putAt_writeAt_touch t f c' hk.ne_nil
  · simp at hreplace

/-- **When an edit comes to the same** through a path that leads to a file and through the canonical
path of that file. The last name of the path stands at `k`: for the file itself, or for a link. The
edit comes to the same through both paths unless it has something to change, the name is a link, and
the directory of the link or that of the file is open. Through the canonical path, the file holds the
edited text afterwards, and links stay links; through a link, the link is replaced by the edited file,
and the file to which it led stays as it was. -/
theorem sameThrough_canonical_iff (hcanonical : t.canonicalize e.file = .ok l)
    (hfile : t.get? l = some (.file f)) :
    ∃ k, t.NamesAt e.file k ∧ (k = l ∨ ∃ target, t.get? k = some (.link target)) ∧
      (e.SameThrough l.path t ↔
        (e.Changes t → k = l ∨ t.isOpenAt k.dropLast = false ∧ t.isOpenAt l.dropLast = false)) ∧
      (∀ t' n, (e.on l.path).applyIn t = (t', .ok (.applied n)) →
        ∃ c c', t.readText e.file = .ok c ∧ e.applyTo c = .ok c' ∧ t.PutAt l f c' t') ∧
      ∀ t' n, e.applyIn t = (t', .ok (.applied n)) →
        (∃ c c', t.readText e.file = .ok c ∧ e.applyTo c = .ok c' ∧ t.PutAt k f c' t') ∧
          (k ≠ l → t'.get? l = some (.file f) ∧
            (∃ target, t.get? k = some (.link target)) ∧ ∀ target, t'.get? k ≠ some (.link target)) := by
  have hresolve := FileTree.resolve_of_canonicalize hcanonical
  have hpath := FileTree.resolve_path_of_canonicalize hcanonical
  have hl : l ≠ [] := by
    rintro rfl
    simp [FileTree.get?] at hfile
  obtain ⟨k, hk, hentry⟩ := FileTree.exists_namesAt hresolve hfile
  have hnames := (FileTree.Reaches.of_resolve hresolve).namesAt_path hl
  have hfileAt := FileTree.fileAt_eq_ok_iff.mpr ⟨l, hresolve, hfile⟩
  have hfileAt' := FileTree.fileAt_eq_ok_iff.mpr ⟨l, hpath, hfile⟩
  have hread : t.read l.path = t.read e.file := by
    rw [FileTree.read_of_fileAt hfileAt, FileTree.read_of_fileAt hfileAt']
  have hreadText : t.readText l.path = t.readText e.file := by
    unfold FileTree.read at hread
    unfold FileTree.readText FileTree.readTextFrom
    rw [hread]
  refine ⟨k, hk, hentry, ?_, fun t' n h => ?_, fun t' n h => ?_⟩
  · by_cases hchanges : e.Changes t
    · rw [sameThrough_iff_of_changes hk hnames hentry hfile hfileAt hfileAt' hreadText hchanges]
      exact ⟨fun h _ => h, fun h => h hchanges⟩
    · exact iff_of_true (sameThrough_of_not_changes hread hchanges) fun h => absurd h hchanges
  · obtain ⟨c, c', hc, happly, hput⟩ := exists_putAt_of_applied (e := e.on l.path) hnames hfileAt' h
    exact ⟨c, c', hreadText.symm.trans hc, applyTo_on_eq_ok_iff.mp happly, hput⟩
  · obtain ⟨c, c', hc, happly, hput⟩ := exists_putAt_of_applied hk hfileAt h
    refine ⟨⟨c, c', hc, happly, hput⟩, fun hkl => ⟨?_, hentry.resolve_left hkl, ?_⟩⟩
    · have hkept := hput.others l (Ne.symm hkl)
      rw [hfile] at hkept
      exact hkept.eq_of_file
    · intro target
      rw [hput.entry]
      simp

/-- The directory with one file, and a link to the file beside the directory. -/
def linkedFile : FileTree := singleFile.put ["link.cpp"] (.link "luau/a.cpp")

/-- The edit of the whole file, through the link. -/
def editLinked : Edit := editWhole.on "/link.cpp"

/-- Through the link, the edit replaces the link, and leaves the file as it was. -/
theorem not_sameThrough_linkedFile :
    linkedFile.canonicalize editLinked.file = .ok ["luau", "a.cpp"] ∧
      ¬ editLinked.SameThrough (Location.path ["luau", "a.cpp"]) linkedFile ∧
      ∃ t', editLinked.applyIn linkedFile = (t', .ok (.applied 1)) ∧
        t'.get? ["luau", "a.cpp"] = some (.file ⟨⟨0o644, 0⟩, Utf8.encode "a"⟩) ∧
          linkedFile.get? ["link.cpp"] = some (.link "luau/a.cpp") ∧
            ∀ target, t'.get? ["link.cpp"] ≠ some (.link target) := by
  have hcanonical : linkedFile.canonicalize editLinked.file = .ok ["luau", "a.cpp"] := rfl
  have hfile : linkedFile.get? ["luau", "a.cpp"] = some (.file ⟨⟨0o644, 0⟩, Utf8.encode "a"⟩) := rfl
  obtain ⟨k, hk, -, hsame, -, hedited⟩ := sameThrough_canonical_iff hcanonical hfile
  have hlink : linkedFile.NamesAt editLinked.file ["link.cpp"] := ⟨[], "link.cpp", rfl, rfl⟩
  obtain rfl := hk.unique hlink
  have hread : linkedFile.readText editLinked.file = .ok "a" := FileTree.readText_of_readFrom rfl
  have happly : editLinked.applyTo "a" = .ok "b" := rfl
  have hchanges : editLinked.Changes linkedFile := ⟨"a", "b", hread, happly, by decide⟩
  obtain ⟨t', hin⟩ : ∃ t', editLinked.applyIn linkedFile = (t', .ok (.applied 1)) :=
    ⟨_, applyIn_of_ne hread happly (by decide)⟩
  refine ⟨hcanonical, fun h => ?_, t', hin, ?_⟩
  · exact absurd (hsame.mp h hchanges) (by decide)
  · obtain ⟨hkept, -, hreplaced⟩ := (hedited t' 1 hin).2 (by decide)
    exact ⟨hkept, rfl, hreplaced⟩

end Edit

end SitePatch
