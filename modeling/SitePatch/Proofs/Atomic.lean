import SitePatch.Proofs.Way

/-! # What an edit comes to on disk

An edit reads its file, decodes it, finds its stretch and verifies it; only then is the file replaced:
a temporary file is made beside it, filled, given the old file's mode, and moved over it. The tree
replaces a file in one step, which is what these steps come to, whatever the temporary file is called
(`FileTree.replaceBySteps_eq`). Where no link stands on the way of the edit's path, the file that is
replaced is the one that was read (`FileTree.exists_slot_of_isUnlinked`). Main statement: an edit fails
as it does on the file's text, and changes nothing, or it replaces the file by what it makes of the
text (`Edit.comesTo_applyIn`). Nothing else changes then but the date of the file's directory. -/

namespace SitePatch

namespace FileTree

variable {t t' : FileTree} {d l m : Location} {name temporary path : Text} {f : File}
  {content : ByteArray} {mode : Nat}

/-! ## The steps of a replacement -/

/-- The tree with a file at a location, dated now. The clock stays where it is. -/
def putFile (t : FileTree) (l : Location) (content : ByteArray) (mode : Nat) : FileTree :=
  t.put l (.file ⟨⟨mode, t.clock⟩, content⟩)

/-- The tree without the entry at a location. -/
def erase (t : FileTree) (l : Location) : FileTree :=
  { t with entries := t.entries.filter fun entry => entry.1 != l }

/-- The tree in which a file of a directory has been moved over another one. -/
def moveOver (t : FileTree) (d : Location) (source target : Text) : FileTree :=
  match t.get? (d ++ [source]) with
  | some e => ((t.erase (d ++ [source])).touch d).put (d ++ [target]) e
  | none => t

/-- The tree in which the file at a location is dated now. -/
def dateFile (t : FileTree) (l : Location) : FileTree :=
  match t.get? l with
  | some (.file f) => t.writeAt l f.content f.mode
  | _ => t

/-- The mode of a new temporary file. -/
def temporaryMode : Nat := 0o600

/-- The tree with a temporary file that is filled, and has the mode. -/
def withTemporary (t : FileTree) (d : Location) (temporary : Text) (content : ByteArray) (mode : Nat) :
    FileTree :=
  ((t.touch d).putFile (d ++ [temporary]) .empty temporaryMode).putFile (d ++ [temporary]) content mode

/-- **The steps of a replacement**: a temporary file is made, filled and given the mode, then moved
over the file `name`, which is dated at last. -/
def replaceBySteps (t : FileTree) (d : Location) (temporary name : Text) (content : ByteArray)
    (mode : Nat) : FileTree :=
  ((t.withTemporary d temporary content mode).moveOver d temporary name).dateFile (d ++ [name])

/-- Where nothing is, there is no entry to leave out. -/
theorem filter_entries_of_get? (hl : l ≠ []) (h : t.get? l = none) :
    (t.entries.filter fun entry => entry.1 != l) = t.entries := by
  rw [get?, if_neg hl, List.lookup_eq_none_iff] at h
  rw [List.filter_eq_self]
  intro entry hentry
  rw [bne_comm]
  exact h entry hentry

/-- What is put where nothing was is taken away again. -/
theorem erase_putFile (hl : l ≠ []) (h : t.get? l = none) : (t.putFile l content mode).erase l = t := by
  have hentries := filter_entries_of_get? hl h
  simp [erase, putFile, put, hl, hentries]

/-- Of two files put at one location below the top, the later one stays. -/
theorem putFile_putFile (t : FileTree) (hl : l ≠ []) (content content' : ByteArray)
    (mode mode' : Nat) :
    (t.putFile l content mode).putFile l content' mode' = t.putFile l content' mode' := by
  simp [putFile, put, hl, List.filter_filter]

/-- A directory is dated once at a time. -/
theorem touch_touch (t : FileTree) (d : Location) : (t.touch d).touch d = t.touch d := by
  rcases hentry : t.get? d with _ | a | f | target
  · simp [touch, hentry]
  · have hdated : t.touch d = t.put d (.directory { a with modified := t.clock }) := by
      simp only [touch, hentry]
    rw [touch, get?_touch_self hentry]
    simp only [clock_touch]
    rw [hdated]
    by_cases hd : d = []
    · simp [put, hd]
    · simp [put, hd, List.filter_filter]
  · simp [touch, hentry]
  · simp [touch, hentry]

/-- What stands in the directory beside the temporary file is kept while that is written. -/
theorem get?_touch_entry (h : t.get? (d ++ [temporary]) = none) :
    (t.touch d).get? (d ++ [temporary]) = none := by
  rw [get?_touch_of_ne (by simp), h]

/-- **Without the temporary file, nothing has changed** but the date of the directory. -/
theorem erase_withTemporary (h : t.get? (d ++ [temporary]) = none) :
    (t.withTemporary d temporary content mode).erase (d ++ [temporary]) = t.touch d := by
  rw [withTemporary, putFile_putFile _ (by simp), erase_putFile (by simp) (get?_touch_entry h)]

/-- **A replacement in one step is what its steps come to**, whatever name that is not taken the
temporary file has. -/
theorem replaceBySteps_eq (h : t.get? (d ++ [temporary]) = none) :
    t.replaceBySteps d temporary name content mode
      = (t.touch d).writeAt (d ++ [name]) content mode := by
  have hfilled : (t.withTemporary d temporary content mode).get? (d ++ [temporary])
      = some (.file ⟨⟨mode, t.clock⟩, content⟩) := by
    rw [withTemporary, putFile_putFile _ (by simp), putFile, get?_put _ _ _ (by simp), if_pos rfl,
      clock_touch]
  have hmoved : (t.withTemporary d temporary content mode).moveOver d temporary name
      = (t.touch d).putFile (d ++ [name]) content mode := by
    rw [moveOver, hfilled]
    simp only
    rw [erase_withTemporary h, touch_touch, putFile, clock_touch]
  have hnew : ((t.touch d).putFile (d ++ [name]) content mode).get? (d ++ [name])
      = some (.file ⟨⟨mode, t.clock⟩, content⟩) := by
    rw [putFile, get?_put _ _ _ (by simp), if_pos rfl, clock_touch]
  rw [replaceBySteps, hmoved, dateFile, hnew]
  simp [writeAt, putFile, put, List.filter_filter]

/-! ## Paths without links -/

/-- **No link stands on the way of the path**, its last name included. -/
def IsUnlinked (t : FileTree) (path : Text) : Prop :=
  ∀ directory target rest, t.walk [] (Path.parts path) ≠ .link directory target rest

/-- A path without links that leads anywhere leads there through no link. -/
theorem leads_of_isUnlinked (h : t.IsUnlinked path) (hresolve : t.resolve path = .ok l) :
    t.Leads 0 [] (Path.parts path) l := by
  obtain ⟨-, hfollow⟩ := resolve_eq_ok_iff.mp hresolve
  unfold follow at hfollow
  cases hwalk : t.walk [] (Path.parts path) with
  | arrived k =>
    rw [hwalk] at hfollow
    exact Except.ok.inj hfollow ▸ leads_of_walk (hwalk ▸ .arrived k)
  | link directory target rest => exact absurd hwalk (h directory target rest)
  | blocked cause => simp [hwalk] at hfollow

/-- **The slot of a path without links is that of the file to which it leads.** -/
theorem exists_slot_of_isUnlinked (h : t.IsUnlinked path) (hresolve : t.resolve path = .ok l)
    (hfile : t.get? l = some (.file f)) : ∃ d name, l = d ++ [name] ∧ t.slot path = .ok (d, name) := by
  obtain ⟨i, j, d, name, hsum, hslot, -, hlast, hstep⟩ :=
    exists_slot_of_leads (leads_of_isUnlinked h hresolve) (Nat.zero_le _) hfile
  obtain ⟨rfl, rfl⟩ := Nat.add_eq_zero_iff.mp hsum.symm
  refine ⟨d, name, ?_, hslot⟩
  cases hlast with
  | stay hhere hpart =>
    rcases hpart with hnil | ⟨-, hdot⟩
    · exact absurd hnil hstep.isEntryName.ne_nil
    · exact absurd hdot hstep.isEntryName.ne_dot
  | up => exact absurd rfl hstep.isEntryName.ne_dots
  | down hhere hsearch hname hnext hlink hrest =>
    cases hrest with
    | arrive => rfl

/-! ## Files replaced -/

/-- **The file `name` of a directory has been replaced** by one with the new text, of the same mode,
dated now. The directory is dated, too; nothing else has changed, and no temporary file is left. -/
structure Replaced (t : FileTree) (d : Location) (name : Text) (f : File) (text : Text)
    (t' : FileTree) : Prop where
  before : t.get? (d ++ [name]) = some (.file f)
  after : t'.get? (d ++ [name]) = some (.file ⟨⟨f.mode, t.clock⟩, Utf8.encode text⟩)
  /-- The directory keeps its mode and is dated now, be it the top. -/
  directory : ∃ a, t.get? d = some (.directory a) ∧
    t'.get? d = some (.directory { a with modified := t.clock })
  others : ∀ k, k ≠ d ++ [name] → k ≠ d → t'.get? k = t.get? k
  clock : t'.clock = t.clock + 1
  /-- Every path leads where it led. -/
  resolve : ∀ path, t'.resolve path = t.resolve path
  /-- It is what the steps of a replacement come to. -/
  steps : ∀ temporary, t.get? (d ++ [temporary]) = none →
    t.replaceBySteps d temporary name (Utf8.encode text) f.mode = t'

/-- **What a replacement comes to** in an open directory. -/
theorem replaced_writeAt_touch (hfile : t.get? (d ++ [name]) = some (.file f))
    (hopen : t.isOpenAt d = true) (text : Text) :
    t.Replaced d name f text ((t.touch d).writeAt (d ++ [name]) (Utf8.encode text) f.mode) := by
  obtain ⟨a, hd⟩ := exists_of_isOpenAt hopen
  have hdated : ((t.touch d).writeAt (d ++ [name]) (Utf8.encode text) f.mode).get? d
      = some (.directory { a with modified := t.clock }) := by
    rw [get?_writeAt_touch d (by simp), get?_touch_self hd]
  exact
    { before := hfile
      after := get?_writeAt_touch_self t d (Utf8.encode text) f.mode (List.concat_ne_nil name d)
      directory := ⟨a, hd, hdated⟩
      others := fun _ => get?_writeAt_touch_of_ne
      clock := by rw [writeAt, clock_touch]
      resolve := (alike_writeAt_touch hfile d _).resolve_eq
      steps := fun _ h => replaceBySteps_eq h }

/-- A file is replaced if the directory of its slot is open. -/
theorem replaceFile_of_slot (hslot : t.slot path = .ok (d, name)) (hfile : t.fileAt path = .ok f) :
    t.replaceFile path content
      = if t.isOpenAt d then .ok ((t.touch d).writeAt (d ++ [name]) content f.mode)
        else .error .permissionDenied := by
  simp only [replaceFile, hslot, hfile]

/-- What is read of a file. -/
theorem read_of_fileAt (h : t.fileAt path = .ok f) :
    t.read path = if f.isReadable then .ok f.content else .error .permissionDenied := by
  obtain ⟨l, hresolve, hfile⟩ := fileAt_eq_ok_iff.mp h
  unfold resolve at hresolve
  simp only [read, readFrom, hresolve, readIn, hfile]

/-- Where there is no file, nothing is read. -/
theorem exists_read_eq_error (h : ∀ f, t.fileAt path ≠ .ok f) : ∃ cause, t.read path = .error cause := by
  rcases hread : t.read path with cause | bytes
  · exact ⟨cause, rfl⟩
  · obtain ⟨l, hresolve, hin⟩ := read_eq_ok_iff.mp hread
    obtain ⟨f, hfile, -⟩ := readIn_eq_ok_iff.mp hin
    exact absurd (fileAt_eq_ok_iff.mpr ⟨l, hresolve, hfile⟩) (h f)

end FileTree

/-! ## Edits -/

namespace Edit

variable {e : Edit} {t : FileTree}

/-- **What an edit comes to in a tree**: the tree afterwards, and what the edit reports. -/
inductive ComesTo (e : Edit) (t : FileTree) : FileTree × Except EditError EditOutcome → Prop
  /-- The path leads to no file. -/
  | missing {cause : FileError} (hfile : ∀ f, t.fileAt e.file ≠ .ok f)
      (hread : t.read e.file = .error cause) : ComesTo e t (t, .error (.io cause))
  /-- The file may not be read. -/
  | unreadable {f : File} (hfile : t.fileAt e.file = .ok f) (hread : f.isReadable = false) :
    ComesTo e t (t, .error (.io .permissionDenied))
  /-- The file does not hold text. -/
  | notText {f : File} {fault : Utf8.Fault} (hfile : t.fileAt e.file = .ok f)
      (hread : f.isReadable = true) (htext : Utf8.decode f.content = .error fault) :
    ComesTo e t (t, .error (.notText fault))
  /-- The edit does not apply to the text. -/
  | refused {f : File} {content : Text} {err : EditError} (hfile : t.fileAt e.file = .ok f)
      (hread : f.isReadable = true) (htext : Utf8.decode f.content = .ok content)
      (happly : e.applyTo content = .error err) : ComesTo e t (t, .error err)
  /-- The new text is there already. -/
  | same {f : File} {content : Text} {cut : Cut} (hfile : t.fileAt e.file = .ok f)
      (hread : f.isReadable = true) (htext : Utf8.decode f.content = .ok content)
      (happly : e.applyTo content = .ok content) (hcut : e.cut? content = some cut)
      (hsame : cut.stretch = e.newText) : ComesTo e t (t, .ok .alreadyApplied)
  /-- The file cannot be replaced, for its directory is not open. -/
  | closed {f : File} {content result : Text} {cut : Cut} {d : Location} {name : Text}
      (hfile : t.fileAt e.file = .ok f) (hread : f.isReadable = true)
      (htext : Utf8.decode f.content = .ok content) (happly : e.applyTo content = .ok result)
      (hcut : e.cut? content = some cut) (hne : cut.stretch ≠ e.newText)
      (hresolve : t.resolve e.file = .ok (d ++ [name])) (hclosed : t.isOpenAt d = false) :
    ComesTo e t (t, .error (.io .permissionDenied))
  /-- The file is replaced. -/
  | replaced {f : File} {content result : Text} {cut : Cut} {d : Location} {name : Text}
      {t' : FileTree} (hfile : t.fileAt e.file = .ok f) (hread : f.isReadable = true)
      (htext : Utf8.decode f.content = .ok content) (happly : e.applyTo content = .ok result)
      (hcut : e.cut? content = some cut) (hne : cut.stretch ≠ e.newText)
      (hresolve : t.resolve e.file = .ok (d ++ [name])) (hopen : t.isOpenAt d = true)
      (hreplaced : t.Replaced d name f result t') :
    ComesTo e t (t', .ok (.applied e.newText.byteSize))

/-- **What an edit comes to** where no link stands on the way of its path: it fails as it does on the
text of its file, and changes nothing, or finds its new text in place, or replaces the file. -/
theorem comesTo_applyIn (h : t.IsUnlinked e.file) : e.ComesTo t (e.applyIn t) := by
  unfold applyIn
  rcases hfile : t.fileAt e.file with cause | f
  · have hnone : ∀ f, t.fileAt e.file ≠ .ok f := fun f hf => by simp [hfile] at hf
    obtain ⟨cause', hread⟩ := FileTree.exists_read_eq_error hnone
    rw [hread]
    exact .missing hnone hread
  rw [FileTree.read_of_fileAt hfile]
  by_cases hreadable : f.isReadable = true
  · rw [if_pos hreadable]
    dsimp only
    rcases htext : Utf8.decode f.content with fault | content
    · exact .notText hfile hreadable htext
    dsimp only
    rcases hverify : e.verify content with err | cut
    · refine .refused hfile hreadable htext ?_
      rw [applyTo, hverify]
    have hcut := (verify_eq_ok_iff.mp hverify).1
    have happly := applyTo_eq_ok_iff_verify.mpr ⟨cut, hverify, rfl⟩
    dsimp only
    by_cases hsame : cut.stretch = e.newText
    · rw [if_pos hsame]
      rw [← hsame, ← (eq_of_cut? hcut).1] at happly
      exact .same hfile hreadable htext happly hcut hsame
    · rw [if_neg hsame]
      -- the slot of the path is that of the file that was read
      obtain ⟨l, hresolve, hentry⟩ := FileTree.fileAt_eq_ok_iff.mp hfile
      obtain ⟨d, name, rfl, hslot⟩ := FileTree.exists_slot_of_isUnlinked h hresolve hentry
      rw [FileTree.replaceFile_of_slot hslot hfile]
      by_cases hopen : t.isOpenAt d = true
      · rw [if_pos hopen]
        exact .replaced hfile hreadable htext happly hcut hsame hresolve hopen
          (FileTree.replaced_writeAt_touch hentry hopen _)
      · rw [if_neg hopen]
        exact .closed hfile hreadable htext happly hcut hsame hresolve (by simpa using hopen)
  · rw [if_neg hreadable]
    exact .unreadable hfile (by simpa using hreadable)

/-- A directory with one file. -/
def singleFile : FileTree where
  entries :=
    [(["luau"], .directory ⟨FileTree.directoryMode, 0⟩),
      (["luau", "a.cpp"], .file ⟨⟨0o644, 0⟩, Utf8.encode "a"⟩)]
  clock := 1

/-- The edit of the whole file. -/
def editWhole : Edit := .replacing "/luau/a.cpp" 0 "a" "b"

/-- No link stands on the way to the file. -/
theorem isUnlinked_singleFile : singleFile.IsUnlinked editWhole.file := by
  have hwalk : singleFile.walk [] (Path.parts editWhole.file) = .arrived ["luau", "a.cpp"] := rfl
  intro directory target rest h
  rw [hwalk] at h
  simp at h

/-- The file is replaced, and its directory is dated. -/
theorem applyIn_singleFile : editWhole.applyIn singleFile
    = ((singleFile.touch ["luau"]).writeAt ["luau", "a.cpp"] (Utf8.encode "b") 0o644,
      .ok (.applied 1)) := by
  have hread : singleFile.readText editWhole.file = .ok "a" := FileTree.readText_of_readFrom rfl
  have happly : editWhole.applyTo "a" = .ok "b" := rfl
  rw [applyIn_of_ne hread happly (by decide)]
  rfl

/-- The file is replaced. -/
theorem comesTo_singleFile :
    singleFile.IsUnlinked editWhole.file ∧
      editWhole.ComesTo singleFile (editWhole.applyIn singleFile) ∧
        (editWhole.applyIn singleFile).2 = .ok (.applied 1) :=
  ⟨isUnlinked_singleFile, comesTo_applyIn isUnlinked_singleFile, by rw [applyIn_singleFile]⟩

/-- Where a file is replaced, its directory does not stay as it is: it is dated. -/
theorem directory_ne_singleFile :
    singleFile.IsUnlinked editWhole.file ∧
      ∃ t', editWhole.applyIn singleFile = (t', .ok (.applied 1)) ∧
        t'.get? ["luau"] ≠ singleFile.get? ["luau"] := by
  refine ⟨isUnlinked_singleFile, _, applyIn_singleFile, ?_⟩
  have hbefore : singleFile.get? ["luau"] = some (.directory ⟨FileTree.directoryMode, 0⟩) := rfl
  have hafter : ((singleFile.touch ["luau"]).writeAt ["luau", "a.cpp"] (Utf8.encode "b") 0o644).get?
      ["luau"] = some (.directory ⟨FileTree.directoryMode, 1⟩) := rfl
  rw [hbefore, hafter]
  simp

end Edit

end SitePatch
