import SitePatch.Proofs.Effect
import SitePatch.Proofs.Way

/-! # Paths and files

A registry refuses two sites with one path, but paths that are written differently may lead to one
file: through dots, repeated slashes, or links. Where no link stands on the way, a path leads to the
location that its parts spell out (`Location.along`), so sites have distinct files exactly if their
paths spell out distinct locations; plain paths do (`Root.nodup_spelled_of_isPlain`). Main statement:
when the targets of a run are distinct files, and when a run on paper counts files
(`Luau.distinct_files_iff`). -/

namespace SitePatch

/-! ## What a path spells out -/

/-- Where one part of a path leads from a location, unless it names a link. -/
def Location.enter (here : Location) (part : Text) : Location :=
  if part = [] ∨ part = ".".toList then here
  else if part = "..".toList then here.dropLast
  else here ++ [part]

/-- **The location that the parts of a path spell out** from another. -/
def Location.along (here : Location) (parts : List Text) : Location :=
  parts.foldl Location.enter here

/-- A part that names an entry. -/
def Path.IsName (part : Text) : Prop := part ≠ [] ∧ part ≠ ".".toList ∧ part ≠ "..".toList

/-- **A path is plain** if it is relative, and every part of it is a name. -/
structure Path.IsPlain (path : Text) : Prop where
  relative : Path.isAbsolute path = false
  isName : ∀ part ∈ Path.parts path, Path.IsName part

/-- Names spell out the location below. -/
theorem Location.along_of_isName {here : Location} {parts : List Text}
    (h : ∀ part ∈ parts, Path.IsName part) : here.along parts = here ++ parts := by
  induction parts generalizing here with
  | nil => rw [along, List.foldl_nil, List.append_nil]
  | cons part parts ih =>
    obtain ⟨⟨hne, hdot, hdots⟩, hrest⟩ := List.forall_mem_cons.mp h
    have henter : here.enter part = here ++ [part] := by
      rw [enter, if_neg (not_or.mpr ⟨hne, hdot⟩), if_neg hdots]
    rw [along, List.foldl_cons, henter, ← along, ih hrest, List.append_assoc, List.singleton_append]

/-- **Without links, parts lead to the location that they spell out.** -/
theorem FileTree.Leads.eq_along {t : FileTree} {n : Nat} {here l : Location} {parts : List Text}
    (h : t.Leads n here parts l) (hn : n = 0) : l = here.along parts := by
  induction h with
  | arrive here => rfl
  | stay hhere hpart _ ih =>
    rw [ih hn, Location.along, Location.along, List.foldl_cons, Location.enter,
      if_pos (hpart.imp_right And.right)]
  | up hhere hsearch _ ih =>
    rw [ih hn, Location.along, Location.along, List.foldl_cons]
    rfl
  | down hhere hsearch hname hnext hlink _ ih =>
    rw [ih hn, Location.along, Location.along, List.foldl_cons, Location.enter,
      if_neg (not_or.mpr ⟨hname.ne_nil, hname.ne_dot⟩), if_neg hname.ne_dots]
  | link => exact absurd hn (Nat.succ_ne_zero _)

namespace Root

variable {r : Root} {t : FileTree} {sites : List Site} {targets : List Target} {relative root : Text}

/-- The parts of a path as seen from the root. -/
def partsOf (r : Root) (relative : Text) : List Text := Path.parts (Path.join r.path relative)

/-- **No link stands on the way** to a path from the root. -/
def IsDirect (r : Root) (t : FileTree) (relative : Text) : Prop :=
  ∃ l, t.Leads 0 [] (r.partsOf relative) l

/-- The location of a root is reached. -/
theorem reaches_of_ofPath (h : Root.ofPath t root = .ok r) : t.Reaches r.location :=
  FileTree.Reaches.of_resolve (FileTree.resolve_of_canonicalize (ofPath_eq_ok_iff.mp h).2)

/-- The parts of a relative path as seen from the root: those of the root, and then its own. -/
theorem partsOf_eq (h : t.Reaches r.location) (hrelative : Path.isAbsolute relative = false) :
    r.partsOf relative = [] :: (r.location ++ Path.parts relative) := by
  unfold partsOf Path.join path
  rw [hrelative]
  by_cases hl : r.location = []
  · rw [hl]
    rfl
  · have hparts := Location.parts_path hl fun name hn => (h.spec_of_mem name hn).2.2.2
    -- the root's path ends with a name, not with a slash
    have hend : (r.location.path.isEmpty || r.location.path.getLast? == some '/') = false := by
      obtain ⟨hne, -, -, hslash⟩ := h.spec_of_mem _ (List.getLast_mem hl)
      have hpath : r.location.path
          = (r.location.dropLast.flatMap fun name => '/' :: name) ++ '/' :: r.location.getLast hl := by
        rw [Location.path, if_neg hl]
        conv => lhs; rw [← List.dropLast_concat_getLast hl]
        rw [List.flatMap_append, List.flatMap_singleton]
      rw [hpath, List.getLast?_append_cons, List.getLast?_cons_of_ne_nil hne,
        List.getLast?_eq_some_getLast hne]
      refine Bool.or_eq_false_iff.mpr ⟨by simp, beq_eq_false_iff_ne.mpr fun hlast => hslash ?_⟩
      rw [← Option.some.inj hlast]
      exact List.getLast_mem hne
    rw [hend]
    simp only [Bool.false_eq_true, if_false]
    have hjoin : r.location.path ++ "/" ++ relative = r.location.path ++ '/' :: relative := by
      simp
    rw [hjoin, Path.parts, Text.split_append_separator, ← Path.parts, hparts, ← Path.parts,
      List.cons_append]

/-- The location of each target is that of its site's file. -/
theorem map_location_of_targets (h : r.targets t sites = .ok targets) :
    targets.map (fun x => Except.ok x.location)
      = sites.map fun s => t.resolve (Path.join r.path s.path) := by
  induction sites generalizing targets with
  | nil =>
    unfold Root.targets at h
    rw [← Except.ok.inj h]
    rfl
  | cons s sites ih =>
    unfold Root.targets at h
    rcases hlocate : r.locate t s.path with e | l
    · simp [hlocate] at h
    · rcases hrest : r.targets t sites with e | rest
      · simp [hlocate, hrest] at h
      · simp only [hlocate, hrest, Except.ok.injEq] at h
        rw [← h, List.map_cons, List.map_cons, ih hrest, resolve_of_locate hlocate]

/-- The location that a path spells out from the root. -/
def spelled (r : Root) (relative : Text) : Location := Location.along [] (r.partsOf relative)

/-- A path leads where it spells out, if no link stands on the way. -/
theorem eq_spelled_of_resolve {l : Location} (hdirect : r.IsDirect t relative)
    (h : t.resolve (Path.join r.path relative) = .ok l) : l = r.spelled relative := by
  obtain ⟨k, hk⟩ := hdirect
  obtain ⟨n, -, hl⟩ := FileTree.follow_eq_ok_iff.mp (FileTree.resolve_eq_ok_iff.mp h).2
  rw [spelled, ← hk.eq_along rfl]
  exact hl.unique hk

/-- A plain path spells out the location below the root that it names. -/
theorem spelled_of_isPlain (h : t.Reaches r.location) (hplain : Path.IsPlain relative) :
    r.spelled relative = r.location ++ Path.parts relative := by
  rw [spelled, partsOf_eq h hplain.relative, Location.along, List.foldl_cons]
  refine (Location.along_of_isName fun part hpart => ?_).trans (List.nil_append _)
  rcases List.mem_append.mp hpart with hpart | hpart
  · obtain ⟨hne, hdot, hdots, -⟩ := h.spec_of_mem part hpart
    exact ⟨hne, hdot, hdots⟩
  · exact hplain.isName part hpart

example : (⟨["luau"]⟩ : Root).spelled "./Analysis/../Linter.cpp" = ["luau", "Linter.cpp"] := by decide

/-- **Distinct plain paths spell out distinct locations.** -/
theorem nodup_spelled_of_isPlain (h : t.Reaches r.location)
    (hplain : ∀ s ∈ sites, Path.IsPlain s.path) (hpaths : (sites.map Site.path).Nodup) :
    (sites.map fun s => r.spelled s.path).Nodup := by
  have hparts : (sites.map fun s => r.spelled s.path)
      = (sites.map Site.path).map fun path => r.location ++ Path.parts path := by
    rw [List.map_map]
    exact List.map_congr_left fun s hs => spelled_of_isPlain h (hplain s hs)
  rw [hparts, List.nodup_map_iff fun p q hpq => ?_]
  · exact hpaths
  · exact Text.split_injective (List.append_cancel_left hpq)

end Root

/-! ## Distinct targets -/

section Targets

variable {registry : Registry} {root : Text} {r : Root} {t : FileTree} {targets : List Target}
  (hroot : Root.ofPath t root = .ok r) (htargets : registry.targets t root = .ok targets)

include hroot htargets

/-- **The targets are distinct files exactly if the sites' paths lead to distinct locations.** -/
theorem Registry.nodup_location_iff :
    (targets.map Target.location).Nodup ↔
      (registry.sites.map fun s => t.resolve (Path.join r.path s.path)).Nodup := by
  unfold Registry.targets at htargets
  simp only [hroot] at htargets
  have hinjective : Function.Injective (Except.ok : Location → Except FileError Location) :=
    fun _ _ h => Except.ok.inj h
  rw [← Root.map_location_of_targets htargets, ← List.nodup_map_iff hinjective, List.map_map]
  rfl

/-- Where no link stands on the ways, targets are where the sites' paths spell out. -/
theorem Registry.map_location_of_isDirect (hdirect : ∀ s ∈ registry.sites, r.IsDirect t s.path) :
    targets.map Target.location = registry.sites.map fun s => r.spelled s.path := by
  unfold Registry.targets at htargets
  simp only [hroot] at htargets
  have hmap := Root.map_location_of_targets htargets
  have hspelled : (registry.sites.map fun s => t.resolve (Path.join r.path s.path))
      = (registry.sites.map fun s => r.spelled s.path).map Except.ok := by
    rw [List.map_map]
    refine List.map_congr_left fun s hs => ?_
    have hmem : t.resolve (Path.join r.path s.path) ∈ targets.map fun x => Except.ok x.location := by
      rw [hmap]
      exact List.mem_map_of_mem hs
    obtain ⟨x, -, hx⟩ := List.mem_map.mp hmem
    rw [← hx, Function.comp_apply, ← Root.eq_spelled_of_resolve (hdirect s hs) hx.symm]
  rw [hspelled] at hmap
  have hinjective : Function.Injective (Except.ok : Location → Except FileError Location) :=
    fun _ _ h => Except.ok.inj h
  exact List.map_injective_iff.mpr hinjective ((List.map_map ..).trans hmap)

end Targets

/-! ## Counting files -/

namespace Registry

variable {registry : Registry} {root : Text} {names : NameSet} {t t' : FileTree}
  {targets : List Target} {report : RunReport}

/-- **What a run on paper counts**: the targets at which an edit is due, all of which have a plan. -/
theorem changed_of_paper (htargets : registry.targets t root = .ok targets)
    (hrun : registry.apply root names true t = (t', .ok report)) :
    (∀ x ∈ targets, x.isPlanned names t = true) ∧
      report.changed = targets.countP fun x => x.isDue names t := by
  rw [apply_of_targets htargets] at hrun
  rcases Target.applyAll_paper_cases names targets t with
    ⟨_, _, _, e, -, -, -, hpaper⟩ | ⟨hplanned, r, hpaper, -, hcount⟩
  · rw [hpaper] at hrun
    simp at hrun
  · rw [hpaper] at hrun
    obtain rfl := Except.ok.inj (Prod.mk.inj hrun).2
    exact ⟨hplanned, hcount⟩

/-- A run on paper over distinct files counts the files that the real run changes. -/
theorem changed_eq_ncard_changedFiles (hpatchable : ∀ s ∈ registry.sites, ∃ k m, s.Patchable k m)
    (htargets : registry.targets t root = .ok targets)
    (hdistinct : (targets.map Target.location).Nodup)
    (hopen : ∀ x ∈ targets, x.isBarred names t = false)
    (hrun : registry.apply root names true t = (t', .ok report)) :
    report.changed = (t.changedFiles (registry.apply root names false t).1).ncard := by
  obtain ⟨hplanned, hcount⟩ := changed_of_paper htargets hrun
  have hready := isReady_of_targets htargets hpatchable
  have hall : Target.planned names t targets = targets := List.takeWhile_eq_self_iff.mpr hplanned
  obtain ⟨t'', hreal, heffect⟩ :=
    Target.exists_effect_of_applyAll hready hdistinct (hall.symm ▸ hopen)
  rw [hall] at heffect
  rw [apply_of_targets htargets, hreal, hcount, heffect.ncard_changedFiles hready hdistinct]

end Registry

/-! ## Luau -/

namespace Luau

/-- **When the targets of a run are distinct files**: if the sites' paths lead to distinct locations.
Where no link stands on the ways, these are the locations that the paths spell out, and distinct
plain paths spell out distinct ones. **When a run on paper counts files**: if no two targets at which
an edit is due have one file. Over distinct files of Luau's Analysis library, what is counted is then
what the real run changes. -/
theorem distinct_files_iff {registry : Registry} {root : Text} {r : Root} {t : FileTree}
    {targets : List Target} (hroot : Root.ofPath t root = .ok r)
    (htargets : registry.targets t root = .ok targets) :
    ((targets.map Target.location).Nodup ↔
        (registry.sites.map fun s => t.resolve (Path.join r.path s.path)).Nodup) ∧
      ((∀ s ∈ registry.sites, r.IsDirect t s.path) →
        ((targets.map Target.location).Nodup ↔
            (registry.sites.map fun s => r.spelled s.path).Nodup) ∧
          ((∀ s ∈ registry.sites, Path.IsPlain s.path) → (targets.map Target.location).Nodup)) ∧
      ∀ names report, registry.apply root names true t = (t, .ok report) →
        (report.changed = (Target.dueFiles names t targets).ncard ↔
            ((targets.filter fun x => x.isDue names t).map Target.location).Nodup) ∧
          ((∀ s ∈ registry.sites, IsPlaced s) → (targets.map Target.location).Nodup →
            (∀ x ∈ targets, x.isBarred names t = false) →
              report.changed = (t.changedFiles (registry.apply root names false t).1).ncard) := by
  refine ⟨Registry.nodup_location_iff hroot htargets, fun hdirect => ?_, fun names report hrun => ?_⟩
  · rw [Registry.map_location_of_isDirect hroot htargets hdirect]
    exact ⟨Iff.rfl, fun hplain => Root.nodup_spelled_of_isPlain (Root.reaches_of_ofPath hroot) hplain
      registry.nodup_paths⟩
  · constructor
    · rw [(Registry.changed_of_paper htargets hrun).2, Target.countP_eq_ncard_iff]
    · intro hplaced hdistinct hopen
      exact Registry.changed_eq_ncard_changedFiles (fun s hs => (hplaced s hs).exists_patchable)
        htargets hdistinct hopen hrun

/-- The linter, with its path written differently. -/
def dottedLinter : Site := { linter with id := "linter-2", path := "./Analysis/src/Linter.cpp" }

/-- The registry of the linter, and of the linter again. -/
def linterTwice : Registry := ⟨[linter, dottedLinter], by decide⟩

/-- A checkout whose linter is as it was delivered. -/
def deliveredCheckout : FileTree :=
  checkout FileTree.directoryMode [("Linter.cpp", deliveredAnswer)]

/-- The targets of a run over the linter and the linter again. -/
def linterTwiceTargets : List Target :=
  [⟨linter, analysisFile "Linter.cpp"⟩, ⟨dottedLinter, analysisFile "Linter.cpp"⟩]

/-- Both sites have the linter's file as their target. -/
theorem targets_deliveredCheckout :
    linterTwice.targets deliveredCheckout "/luau" = .ok linterTwiceTargets := rfl

/-- In the delivered checkout, an edit is due at both sites. -/
theorem isDue_deliveredCheckout : ∀ x ∈ linterTwiceTargets,
    x.isPlanned loadOnly deliveredCheckout = true ∧ x.isDue loadOnly deliveredCheckout = true := by
  have hread : deliveredCheckout.readText (analysisFile "Linter.cpp").path = .ok deliveredAnswer :=
    FileTree.readText_of_readFrom rfl
  simp only [linterTwiceTargets, List.forall_mem_cons, Target.isPlanned, Target.isDue, Target.plan,
    Target.file, hread]
  exact ⟨by decide +kernel, by decide +kernel, by simp⟩

/-- A run on paper over the linter and the linter again counts more than the one file. -/
theorem changed_ne_linterTwice :
    linterTwice.targets deliveredCheckout "/luau" = .ok linterTwiceTargets ∧
      ¬ (linterTwiceTargets.map Target.location).Nodup ∧
        ∃ report, linterTwice.apply "/luau" loadOnly true deliveredCheckout
            = (deliveredCheckout, .ok report) ∧
          report.changed
            ≠ (Target.dueFiles loadOnly deliveredCheckout linterTwiceTargets).ncard := by
  have hnot : ¬ (linterTwiceTargets.map Target.location).Nodup := by decide
  have hroot : Root.ofPath deliveredCheckout "/luau" = .ok ⟨["luau"]⟩ := rfl
  refine ⟨targets_deliveredCheckout, hnot, ?_⟩
  obtain ⟨report, hpaper⟩ :=
    Target.exists_applyAll_paper fun x hx => (isDue_deliveredCheckout x hx).1
  have hrun : linterTwice.apply "/luau" loadOnly true deliveredCheckout
      = (deliveredCheckout, .ok report) :=
    (Registry.apply_of_targets targets_deliveredCheckout _ _).trans hpaper
  refine ⟨report, hrun, fun hcount => hnot ?_⟩
  have hdue := ((distinct_files_iff hroot targets_deliveredCheckout).2.2 _ _ hrun).1.mp hcount
  rwa [List.filter_eq_self.mpr fun x hx => (isDue_deliveredCheckout x hx).2] at hdue

end Luau

end SitePatch
