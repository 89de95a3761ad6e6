import SitePatch.Proofs.FileTree

/-! # Ways through links

`FileTree.Leads` tells step by step how the parts of a path lead to a location, and through how many
links; this is what `FileTree.follow` finds (`FileTree.follow_eq_ok_iff`). Ways are put together and
taken apart at every part (`FileTree.leads_append_iff`). A file is replaced where the path's last
name stands, which may be a link to the file, so the path may lead elsewhere afterwards. Main
statement: it leads to the new file, which holds the new content and can be replaced again
(`FileTree.spec_of_read_of_replaceFile`). -/

namespace SitePatch

namespace FileTree

variable {t t' : FileTree} {n i j k : Nat} {here l m d : Location} {part name path : Text}
  {parts a b : List Text}

/-! ## Ways -/

/-- **The parts lead from `here` to the location `l`**, through `n` links. -/
inductive Leads (t : FileTree) : Nat → Location → List Text → Location → Prop
  | arrive (here : Location) : Leads t 0 here [] here
  /-- An empty part or a dot stays at the directory. -/
  | stay {n : Nat} {here l : Location} {attributes : Attributes} {part : Text} {rest : List Text}
      (hhere : t.get? here = some (.directory attributes))
      (hpart : part = [] ∨ attributes.isSearchable = true ∧ part = ".".toList)
      (h : Leads t n here rest l) : Leads t n here (part :: rest) l
  /-- Two dots lead to the directory above. -/
  | up {n : Nat} {here l : Location} {attributes : Attributes} {rest : List Text}
      (hhere : t.get? here = some (.directory attributes))
      (hsearch : attributes.isSearchable = true) (h : Leads t n here.dropLast rest l) :
    Leads t n here ("..".toList :: rest) l
  /-- A name leads to the entry of that name. -/
  | down {n : Nat} {here l : Location} {attributes : Attributes} {part : Text} {rest : List Text}
      {e : Entry} (hhere : t.get? here = some (.directory attributes))
      (hsearch : attributes.isSearchable = true) (hname : IsEntryName part)
      (hnext : t.get? (here ++ [part]) = some e) (hlink : ∀ target, e ≠ .link target)
      (h : Leads t n (here ++ [part]) rest l) : Leads t n here (part :: rest) l
  /-- The name of a link leads to where the path in it leads. -/
  | link {n : Nat} {here l : Location} {attributes : Attributes} {part target : Text}
      {rest : List Text} (hhere : t.get? here = some (.directory attributes))
      (hsearch : attributes.isSearchable = true) (hname : IsEntryName part)
      (hnext : t.get? (here ++ [part]) = some (.link target))
      (h : Leads t n (here.start target) (Path.parts target ++ rest) l) :
    Leads t (n + 1) here (part :: rest) l

/-- How a walk ends decides where the parts lead. -/
theorem follow_congr {here' : Location} {parts' : List Text}
    (h : t.walk here parts = t.walk here' parts') (k : Nat) :
    t.follow k here parts = t.follow k here' parts' := by
  cases k with
  | zero =>
    unfold follow
    rw [h]
  | succ k =>
    unfold follow
    rw [h]

/-- **Where the end of a walk leads on to**, through `n` links. -/
inductive LeadsOn (t : FileTree) : Nat → Stop → Location → Prop
  | arrived (l : Location) : LeadsOn t 0 (.arrived l) l
  | link {n : Nat} {directory l : Location} {target : Text} {rest : List Text}
      (h : t.Leads n (directory.start target) (Path.parts target ++ rest) l) :
    LeadsOn t (n + 1) (.link directory target rest) l

/-- A walk takes one step of a way after the other, up to the first link. -/
theorem leads_of_walk (h : t.LeadsOn n (t.walk here parts) l) : t.Leads n here parts l := by
  induction parts generalizing here with
  | nil =>
    rw [walk] at h
    cases h
    exact .arrive l
  | cons part rest ih =>
    have hstep := t.walkStep here part rest
    generalize t.walk here (part :: rest) = stop at h hstep
    cases hstep with
    | blocked cause => cases h
    | stay hhere hpart => exact .stay hhere hpart (ih h)
    | up hhere hsearch hdots =>
      subst hdots
      exact .up hhere hsearch (ih h)
    | down hhere hsearch hname hnext hlink => exact .down hhere hsearch hname hnext hlink (ih h)
    | link hhere hsearch hname hnext =>
      cases h with
      | link h => exact .link hhere hsearch hname hnext h

namespace Leads

/-- A way is found by everyone who may follow enough links. -/
theorem follow_eq (h : t.Leads n here parts l) (hk : n ≤ k) : t.follow k here parts = .ok l := by
  induction h generalizing k with
  | arrive here =>
    cases k <;> rw [follow, walk]
  | @stay n here l attributes part rest hhere hpart h ih =>
    rw [← ih hk]
    apply follow_congr
    rw [walk, hhere]
    rcases hpart with rfl | ⟨hsearch, rfl⟩
    · simp only [if_true]
    · simp [hsearch]
  | @up n here l attributes rest hhere hsearch h ih =>
    rw [← ih hk]
    apply follow_congr
    rw [walk, hhere]
    simp [hsearch]
  | @down n here l attributes part rest e hhere hsearch hname hnext hlink h ih =>
    rw [← ih hk]
    exact follow_congr (walk_cons_down hhere hsearch hname hnext hlink) k
  | @link n here l attributes part target rest hhere hsearch hname hnext h ih =>
    obtain ⟨k, rfl⟩ : ∃ m, k = m + 1 := ⟨k - 1, by omega⟩
    rw [follow, walk_cons_link hhere hsearch hname hnext]
    exact ih (by omega)

/-- Parts lead to one location only. -/
theorem unique (h : t.Leads n here parts l) (h' : t.Leads k here parts m) : l = m := by
  have hl := h.follow_eq (Nat.le_max_left n k)
  rw [h'.follow_eq (Nat.le_max_right n k)] at hl
  exact (Except.ok.inj hl).symm

end Leads

/-- **What is found at the end of a way.** -/
theorem follow_eq_ok_iff : t.follow k here parts = .ok l ↔ ∃ n ≤ k, t.Leads n here parts l := by
  constructor
  · intro h
    -- on the links that may still be followed: behind a link, a new walk starts
    induction k generalizing here parts with
    | zero =>
      unfold follow at h
      cases hwalk : t.walk here parts with
      | arrived m =>
        rw [hwalk] at h
        exact ⟨0, Nat.le_refl 0, Except.ok.inj h ▸ leads_of_walk (hwalk ▸ .arrived m)⟩
      | link directory target rest => simp [hwalk] at h
      | blocked cause => simp [hwalk] at h
    | succ k ih =>
      unfold follow at h
      cases hwalk : t.walk here parts with
      | arrived m =>
        rw [hwalk] at h
        exact ⟨0, Nat.zero_le _, Except.ok.inj h ▸ leads_of_walk (hwalk ▸ .arrived m)⟩
      | blocked cause => simp [hwalk] at h
      | link directory target rest =>
        rw [hwalk] at h
        obtain ⟨n, hn, hleads⟩ := ih h
        exact ⟨n + 1, Nat.succ_le_succ hn, leads_of_walk (hwalk ▸ .link hleads)⟩
  · rintro ⟨n, hn, h⟩
    exact h.follow_eq hn

/-! ## Ways put together and taken apart -/

/-- A way behind another makes one way, through the links of both. -/
theorem Leads.append (h : t.Leads i here a m) (h' : t.Leads j m b l) :
    t.Leads (i + j) here (a ++ b) l := by
  induction h with
  | arrive here =>
    rw [Nat.zero_add, List.nil_append]
    exact h'
  | stay hhere hpart _ ih => exact .stay hhere hpart (ih h')
  | up hhere hsearch _ ih => exact .up hhere hsearch (ih h')
  | down hhere hsearch hname hnext hlink _ ih =>
    exact .down hhere hsearch hname hnext hlink (ih h')
  | link hhere hsearch hname hnext _ ih =>
    have hrest := ih h'
    rw [List.append_assoc] at hrest
    rw [Nat.add_right_comm]
    exact .link hhere hsearch hname hnext hrest

/-- A way along two lists of parts has a location between them. -/
theorem Leads.exists_of_append (h : t.Leads n here (a ++ b) l) :
    ∃ i j m, n = i + j ∧ t.Leads i here a m ∧ t.Leads j m b l := by
  generalize hparts : a ++ b = parts at h
  induction h generalizing a with
  | arrive here =>
    obtain ⟨rfl, rfl⟩ := List.append_eq_nil_iff.mp hparts
    exact ⟨0, 0, here, rfl, .arrive here, .arrive here⟩
  | @stay n here l attributes part rest hhere hpart h ih =>
    rcases List.append_eq_cons_iff.mp hparts with ⟨rfl, rfl⟩ | ⟨a', rfl, rfl⟩
    · exact ⟨0, n, here, (Nat.zero_add n).symm, .arrive here, .stay hhere hpart h⟩
    · obtain ⟨i, j, m, rfl, h₁, h₂⟩ := ih rfl
      exact ⟨i, j, m, rfl, .stay hhere hpart h₁, h₂⟩
  | @up n here l attributes rest hhere hsearch h ih =>
    rcases List.append_eq_cons_iff.mp hparts with ⟨rfl, rfl⟩ | ⟨a', rfl, rfl⟩
    · exact ⟨0, n, here, (Nat.zero_add n).symm, .arrive here, .up hhere hsearch h⟩
    · obtain ⟨i, j, m, rfl, h₁, h₂⟩ := ih rfl
      exact ⟨i, j, m, rfl, .up hhere hsearch h₁, h₂⟩
  | @down n here l attributes part rest e hhere hsearch hname hnext hlink h ih =>
    rcases List.append_eq_cons_iff.mp hparts with ⟨rfl, rfl⟩ | ⟨a', rfl, rfl⟩
    · exact ⟨0, n, here, (Nat.zero_add n).symm, .arrive here,
        .down hhere hsearch hname hnext hlink h⟩
    · obtain ⟨i, j, m, rfl, h₁, h₂⟩ := ih rfl
      exact ⟨i, j, m, rfl, .down hhere hsearch hname hnext hlink h₁, h₂⟩
  | @link n here l attributes part target rest hhere hsearch hname hnext h ih =>
    rcases List.append_eq_cons_iff.mp hparts with ⟨rfl, rfl⟩ | ⟨a', rfl, rfl⟩
    · exact ⟨0, n + 1, here, (Nat.zero_add _).symm, .arrive here,
        .link hhere hsearch hname hnext h⟩
    · obtain ⟨i, j, m, rfl, h₁, h₂⟩ := ih (List.append_assoc _ _ _)
      exact ⟨i + 1, j, m, Nat.add_right_comm i j 1, .link hhere hsearch hname hnext h₁, h₂⟩

/-- **Parts lead where the last of them lead from where the first lead.** -/
theorem leads_append_iff :
    t.Leads n here (a ++ b) l ↔ ∃ i j m, n = i + j ∧ t.Leads i here a m ∧ t.Leads j m b l := by
  constructor
  · exact Leads.exists_of_append
  · rintro ⟨i, j, m, rfl, h, h'⟩
    exact h.append h'

/-- Whether a part is the name of something: no empty part, no dot. -/
def isNaming (part : Text) : Bool := !part.isEmpty && part != ['.']

/-- The name of an entry names something. -/
theorem IsEntryName.isNaming (h : IsEntryName part) : isNaming part = true := by
  have hdot : part ≠ ['.'] := h.ne_dot
  simp [FileTree.isNaming, h.ne_nil, hdot]

/-- Parts lead to the same location without the empty parts and the dots among the last of them. -/
theorem Leads.filter_append (h : t.Leads n here (a ++ b) l) :
    t.Leads n here (a ++ b.filter isNaming) l := by
  generalize hparts : a ++ b = parts at h
  induction h generalizing a b with
  | arrive here =>
    obtain ⟨rfl, rfl⟩ := List.append_eq_nil_iff.mp hparts
    exact .arrive here
  | @stay n here l attributes part rest hhere hpart h ih =>
    rcases List.append_eq_cons_iff.mp hparts with ⟨rfl, rfl⟩ | ⟨a', rfl, rfl⟩
    · have hnot : ¬ isNaming part = true := by
        rcases hpart with rfl | ⟨-, rfl⟩ <;> decide
      rw [List.filter_cons_of_neg hnot]
      exact ih (a := []) rfl
    · exact .stay hhere hpart (ih rfl)
  | @up n here l attributes rest hhere hsearch h ih =>
    rcases List.append_eq_cons_iff.mp hparts with ⟨rfl, rfl⟩ | ⟨a', rfl, rfl⟩
    · rw [List.filter_cons_of_pos (by decide)]
      exact .up hhere hsearch (ih (a := []) rfl)
    · exact .up hhere hsearch (ih rfl)
  | @down n here l attributes part rest e hhere hsearch hname hnext hlink h ih =>
    rcases List.append_eq_cons_iff.mp hparts with ⟨rfl, rfl⟩ | ⟨a', rfl, rfl⟩
    · rw [List.filter_cons_of_pos hname.isNaming]
      exact .down hhere hsearch hname hnext hlink (ih (a := []) rfl)
    · exact .down hhere hsearch hname hnext hlink (ih rfl)
  | @link n here l attributes part target rest hhere hsearch hname hnext h ih =>
    rcases List.append_eq_cons_iff.mp hparts with ⟨rfl, rfl⟩ | ⟨a', rfl, rfl⟩
    · rw [List.filter_cons_of_pos hname.isNaming]
      exact .link hhere hsearch hname hnext (ih rfl)
    · refine .link hhere hsearch hname hnext ?_
      have hrest := ih (a := Path.parts target ++ a') (b := b) (List.append_assoc _ _ _)
      rw [List.append_assoc] at hrest
      exact hrest

/-- No way goes on below a file. -/
theorem Leads.eq_of_file {f : File} (h : t.Leads n here parts l)
    (hhere : t.get? here = some (.file f)) : parts = [] ∧ l = here := by
  cases h with
  | arrive => exact ⟨rfl, rfl⟩
  | stay hdirectory => simp [hhere] at hdirectory
  | up hdirectory => simp [hhere] at hdirectory
  | down hdirectory => simp [hhere] at hdirectory
  | link hdirectory => simp [hhere] at hdirectory

/-! ## Files replaced where the last name stands -/

/-- What leads to a file and names nothing is no part at all. -/
theorem Leads.eq_nil_of_filter {f : File} (h : t.Leads n here parts l)
    (hparts : parts.filter isNaming = []) (hl : t.get? l = some (.file f)) : parts = [] := by
  have hnone := Leads.filter_append (a := []) h
  rw [List.nil_append, hparts] at hnone
  cases hnone with
  | arrive => exact (h.eq_of_file hl).1

/-- **How the last name of a path leads on** from the directory `d`: it stands for the entry at `l`,
or for a link that leads there. -/
structure LastStep (t : FileTree) (d : Location) (name : Text) (l : Location) : Prop where
  isEntryName : IsEntryName name
  directory : ∃ a, t.get? d = some (.directory a) ∧ a.isSearchable = true
  entry : l = d ++ [name] ∨ ∃ target i, t.get? (d ++ [name]) = some (.link target) ∧
    t.Leads i (d.start target) (Path.parts target) l

/-- Where a last name leads, it is the last step of a way. -/
theorem lastStep_of_leads (h : t.Leads n d [name] l) (hname : isNaming name = true)
    (hdots : name ≠ "..".toList) : t.LastStep d name l := by
  cases h with
  | stay hhere hpart h =>
    exfalso
    rcases hpart with rfl | ⟨-, rfl⟩
    · exact absurd hname (by decide)
    · exact absurd hname (by decide)
  | up hhere hsearch h => exact absurd rfl hdots
  | down hhere hsearch hname hnext hlink h =>
    cases h with
    | arrive => exact ⟨hname, ⟨_, hhere, hsearch⟩, .inl rfl⟩
  | link hhere hsearch hname hnext h =>
    rw [List.append_nil] at h
    exact ⟨hname, ⟨_, hhere, hsearch⟩, .inr ⟨_, _, hnext, h⟩⟩

/-- The slot of a path is the directory to which the way leads, and the last name. -/
theorem slot_eq_ok_iff :
    t.slot path = .ok (d, name) ↔
      Path.lastName? path = some name ∧ t.follow maxLinks [] (Path.way path) = .ok d := by
  unfold slot
  cases Path.lastName? path with
  | none => simp
  | some last =>
    cases t.follow maxLinks [] (Path.way path) with
    | error cause => simp
    | ok d' => simp [and_comm]

/-- A name that leads to a file is not two dots, which lead to a directory. -/
theorem Leads.ne_dots_of_file {f : File} (h : t.Leads n d [name] l) (hd : t.Reaches d)
    (hfile : t.get? l = some (.file f)) : name ≠ "..".toList := by
  rintro rfl
  cases h with
  | stay hhere hpart =>
    rcases hpart with hnil | ⟨-, hdot⟩
    · exact absurd hnil (by decide)
    · exact absurd hdot (by decide)
  | up hhere hsearch h =>
    cases h with
    | arrive =>
      obtain ⟨a, ha⟩ := hd.directory_dropLast
      simp [ha] at hfile
  | down hhere hsearch hname => exact hname.ne_dots rfl
  | link hhere hsearch hname => exact hname.ne_dots rfl

/-- **The slot of a path that leads to a file**: its way leads to a directory, and its last name leads
on from there. -/
theorem exists_slot_of_leads {f : File} (h : t.Leads n [] (Path.parts path) l) (hn : n ≤ maxLinks)
    (hfile : t.get? l = some (.file f)) :
    ∃ i j d name, n = i + j ∧ t.slot path = .ok (d, name) ∧ t.Reaches d ∧ t.Leads j d [name] l ∧
      t.LastStep d name l := by
  have hnames : t.Leads n [] (Path.names path) l := Leads.filter_append (a := []) h
  rcases List.eq_nil_or_concat (Path.names path) with hnil | ⟨way, name, hcut⟩
  · -- a path that names nothing leads to the top
    rw [hnil] at hnames
    cases hnames with
    | arrive => simp [get?] at hfile
  · rw [List.concat_eq_append] at hcut
    have hpart : ∀ part ∈ way ++ [name], '/' ∉ part ∧ isNaming part = true := by
      rw [← hcut]
      intro part hpart
      obtain ⟨hmem, hnaming⟩ := List.mem_filter.mp hpart
      exact ⟨Text.not_mem_of_mem_split part hmem, hnaming⟩
    rw [hcut] at hnames
    obtain ⟨i, j, d, rfl, hway, hlast⟩ := leads_append_iff.mp hnames
    have hi : i ≤ maxLinks := Nat.le_trans (Nat.le_add_right i j) hn
    have hd : t.Reaches d :=
      .of_follow .top (fun part h => (hpart part (by simp [h])).1) (hway.follow_eq hi)
    have hdots := hlast.ne_dots_of_file hd hfile
    refine ⟨i, j, d, name, rfl, slot_eq_ok_iff.mpr ⟨?_, ?_⟩, hd, hlast,
      lastStep_of_leads hlast (hpart name (by simp)).2 hdots⟩
    · rw [Path.lastName?, hcut, List.getLast?_concat, Option.filter_some, if_pos (by simpa using hdots)]
    · rw [Path.way, hcut, List.dropLast_concat]
      exact hway.follow_eq hi

/-- **The parts of a path that leads to a file**: the way to its last name, and that name. -/
theorem exists_parts_of_slot {f : File} (hslot : t.slot path = .ok (d, name))
    (hresolve : t.resolve path = .ok l) (hfile : t.get? l = some (.file f)) :
    ∃ way i j, Path.parts path = way ++ [name] ∧ Path.way path = way.filter isNaming ∧
      i + j ≤ maxLinks ∧ t.Leads i [] way d ∧ t.LastStep d name l := by
  obtain ⟨hlast, hway⟩ := slot_eq_ok_iff.mp hslot
  have hdots : name ≠ "..".toList :=
    bne_iff_ne.mp (Option.filter_eq_some_iff.mp hlast).2
  have hnames : (Path.parts path).filter isNaming = Path.way path ++ [name] := by
    unfold Path.lastName? at hlast
    obtain ⟨hmem, -⟩ := Option.filter_eq_some_iff.mp hlast
    obtain ⟨w, hw⟩ := List.getLast?_eq_some_iff.mp hmem
    rw [Path.way, hw, List.dropLast_concat]
    exact hw
  obtain ⟨u, v, hparts, hu, hv⟩ := List.filter_eq_append_iff.mp hnames
  obtain ⟨u', tail, rfl, hu', hnaming, htail⟩ := List.filter_eq_cons_iff.mp hv
  have hfilter : (u ++ u').filter isNaming = Path.way path := by
    rw [List.filter_append, hu, List.filter_eq_nil_iff.mpr hu', List.append_nil]
  have hcut : Path.parts path = (u ++ u') ++ ([name] ++ tail) := by
    rw [hparts]
    simp
  obtain ⟨n, hn, hleads⟩ := follow_eq_ok_iff.mp (resolve_eq_ok_iff.mp hresolve).2
  rw [hcut] at hleads
  obtain ⟨i, j, m, rfl, hfirst, hrest⟩ := leads_append_iff.mp hleads
  obtain ⟨j, j', m', rfl, hlastPart, hbehind⟩ := leads_append_iff.mp hrest
  -- behind the last name nothing stands, for the path leads to a file
  obtain rfl := hbehind.eq_nil_of_filter htail hfile
  cases hbehind with
  | arrive =>
    -- the way leads to the same directory without its dots
    have hsame : t.Leads i [] ((u ++ u').filter isNaming) m := Leads.filter_append (a := []) hfirst
    rw [hfilter] at hsame
    obtain ⟨k, -, hd⟩ := follow_eq_ok_iff.mp hway
    obtain rfl := hsame.unique hd
    refine ⟨u ++ u', i, j, by rw [hcut, List.append_nil], hfilter.symm, hn, hfirst, ?_⟩
    exact lastStep_of_leads hlastPart hnaming hdots


/-! ## The way to a file that is replaced -/

section Replaced

variable {f : File} {attributes : Attributes} (hlast : t.LastStep d name l)
  (hfile : t.get? l = some (.file f))

include hlast hfile

/-- Where the last name of a path to a file stands, there is no directory. -/
theorem LastStep.ne_of_directory (hm : t.get? m = some (.directory attributes)) :
    m ≠ d ++ [name] := by
  rintro rfl
  rcases hlast.entry with rfl | ⟨target, i, hlink, -⟩
  · simp [hm] at hfile
  · simp [hm] at hlink

/-- A way to a directory does not go down where the last name of a path to a file stands. -/
theorem LastStep.ne_of_down {e : Entry} (hm : t.get? m = some (.directory attributes))
    (hnext : t.get? here = some e) (hlink : ∀ target, e ≠ .link target)
    (h : t.Leads n here parts m) : here ≠ d ++ [name] := by
  rintro rfl
  rcases hlast.entry with rfl | ⟨target, i, hnext', -⟩
  · -- the way would go on below a file
    obtain ⟨-, rfl⟩ := h.eq_of_file hfile
    simp [hfile] at hm
  · rw [hnext, Option.some.injEq] at hnext'
    exact absurd hnext' (hlink target)

/-- Nor does it go through a link there. -/
theorem LastStep.ne_of_link {target : Text} (hm : t.get? m = some (.directory attributes))
    (hnext : t.get? (here ++ [part]) = some (.link target))
    (h : t.Leads n (here.start target) (Path.parts target ++ parts) m) :
    here ++ [part] ≠ d ++ [name] := by
  intro hsame
  rcases hlast.entry with rfl | ⟨target', i, hnext', hleads⟩
  · rw [← hsame, hnext] at hfile
    simp at hfile
  · -- the link leads to the file, and the way would go on below it
    obtain ⟨rfl, -⟩ := List.append_inj' hsame rfl
    rw [← hsame, hnext, Option.some.injEq, Entry.link.injEq] at hnext'
    subst hnext'
    obtain ⟨i', j, x, -, hfirst, hrest⟩ := leads_append_iff.mp h
    obtain rfl := hfirst.unique hleads
    obtain ⟨-, rfl⟩ := hrest.eq_of_file hfile
    simp [hfile] at hm

/-- **A way to a directory is still one** when another file stands where a name leads to a file. -/
theorem Leads.of_replaced (h : t.Leads n here parts m)
    (hm : t.get? m = some (.directory attributes))
    (hothers : ∀ q, q ≠ d ++ [name] → SameKind (t.get? q) (t'.get? q)) :
    t'.Leads n here parts m := by
  have hdirectory : ∀ {q : Location} {a : Attributes}, t.get? q = some (.directory a) →
      ∃ a', t'.get? q = some (.directory a') ∧ (a.isSearchable = true → a'.isSearchable = true) := by
    intro q a hq
    have hkind := hothers q (hlast.ne_of_directory hfile hq)
    rw [hq] at hkind
    exact hkind.exists_directory
  induction h with
  | arrive here => exact .arrive here
  | @stay n here m a part rest hhere hpart h ih =>
    obtain ⟨a', hhere', hsearch'⟩ := hdirectory hhere
    exact .stay hhere' (hpart.imp_right fun hdot => ⟨hsearch' hdot.1, hdot.2⟩) (ih hm)
  | @up n here m a rest hhere hsearch h ih =>
    obtain ⟨a', hhere', hsearch'⟩ := hdirectory hhere
    exact .up hhere' (hsearch' hsearch) (ih hm)
  | @down n here m a part rest e hhere hsearch hname hnext hlink h ih =>
    obtain ⟨a', hhere', hsearch'⟩ := hdirectory hhere
    have hkind := hothers _ (hlast.ne_of_down hfile hm hnext hlink h)
    rw [hnext] at hkind
    obtain ⟨e', hnext', hlink'⟩ := hkind.exists_ne_link hlink
    exact .down hhere' (hsearch' hsearch) hname hnext' hlink' (ih hm)
  | @link n here m a part target rest hhere hsearch hname hnext h ih =>
    obtain ⟨a', hhere', hsearch'⟩ := hdirectory hhere
    have hkind := hothers _ (hlast.ne_of_link hfile hm hnext h)
    rw [hnext] at hkind
    exact .link hhere' (hsearch' hsearch) hname hkind.eq_link (ih hm)

end Replaced

/-- A path leads to the file that has been put where its last name stands. -/
theorem resolve_of_replaced {f f' : File} {a : Attributes} (hslot : t.slot path = .ok (d, name))
    (hresolve : t.resolve path = .ok l) (hfile : t.get? l = some (.file f))
    (hd : t'.get? d = some (.directory a))
    (hothers : ∀ q, q ≠ d ++ [name] → SameKind (t.get? q) (t'.get? q))
    (hfile' : t'.get? (d ++ [name]) = some (.file f')) :
    t'.resolve path = .ok (d ++ [name]) ∧ t'.slot path = .ok (d, name) := by
  obtain ⟨way, i, j, hparts, hway, hle, hleads, hlast⟩ := exists_parts_of_slot hslot hresolve hfile
  obtain ⟨b, hb, hsearch⟩ := hlast.directory
  have hleads' : t'.Leads i [] way d := hleads.of_replaced hlast hfile hb hothers
  have hi : i ≤ maxLinks := Nat.le_trans (Nat.le_add_right i j) hle
  constructor
  · refine resolve_eq_ok_iff.mpr ⟨(resolve_eq_ok_iff.mp hresolve).1, ?_⟩
    rw [hparts]
    have hkind := hothers d (by simp)
    rw [hb, hd] at hkind
    have hsearch' : a.isSearchable = true := by
      cases hkind with
      | directory hmode =>
        unfold Attributes.isSearchable at hsearch ⊢
        rw [hmode]
        exact hsearch
    have hstep : t'.Leads 0 d [name] (d ++ [name]) :=
      .down hd hsearch' hlast.isEntryName hfile' (by simp) (.arrive _)
    exact (hleads'.append hstep).follow_eq hi
  · refine slot_eq_ok_iff.mpr ⟨(slot_eq_ok_iff.mp hslot).1, ?_⟩
    have hfilter : t'.Leads i [] (way.filter isNaming) d := Leads.filter_append (a := []) hleads'
    rw [hway]
    exact hfilter.follow_eq hi

/-- **A file that is replaced through a path is found there again**: the path leads to the new
content, which can be replaced in its turn. -/
theorem spec_of_read_of_replaceFile {bytes content : ByteArray} (hread : t.read path = .ok bytes)
    (hreplace : t.replaceFile path content = .ok t') :
    t'.read path = .ok content ∧
      ∀ content', ∃ t'', t'.replaceFile path content' = .ok t'' := by
  obtain ⟨d, name, f, hslot, hfileAt, hopen, rfl⟩ := replaceFile_eq_ok_iff.mp hreplace
  -- the file that was read is the one whose mode the new file has
  obtain ⟨l, hresolve, hfile⟩ := fileAt_eq_ok_iff.mp hfileAt
  obtain ⟨l', hresolve', hin⟩ := read_eq_ok_iff.mp hread
  obtain rfl := Except.ok.inj (hresolve.symm.trans hresolve')
  obtain ⟨f', hf', hreadable, -⟩ := readIn_eq_ok_iff.mp hin
  obtain rfl := Entry.file.inj (Option.some.inj (hfile.symm.trans hf'))
  have hothers : ∀ q, q ≠ d ++ [name] →
      SameKind (t.get? q) (((t.touch d).writeAt (d ++ [name]) content f.mode).get? q) :=
    fun q hq => (kept_writeAt_touch d hq).sameKind
  have hnew := get?_writeAt_touch_self t d content f.mode (List.concat_ne_nil name d)
  have hd : ((t.touch d).writeAt (d ++ [name]) content f.mode).isOpenAt d = true := by
    rw [isOpenAt_congr (hothers d (by simp)), hopen]
  obtain ⟨a, ha⟩ := exists_of_isOpenAt hd
  obtain ⟨hleads, hslot'⟩ := resolve_of_replaced hslot hresolve hfile ha hothers hnew
  have hfileAt' := fileAt_eq_ok_iff.mpr ⟨_, hleads, hnew⟩
  exact ⟨read_eq_ok_iff.mpr ⟨_, hleads, readIn_eq_ok_iff.mpr ⟨_, hnew, hreadable, rfl⟩⟩,
    fun content' => ⟨_, replaceFile_eq_ok_iff.mpr ⟨d, name, _, hslot', hfileAt', hd, rfl⟩⟩⟩

end FileTree

end SitePatch
