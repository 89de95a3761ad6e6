import SitePatch.Proofs.Effect

/-! # Runs stay below their root

The sites of a run may name any paths, and the links of a tree may lead anywhere. A file is located
by its own location, links followed, and refused unless that lies below the root; whatever is written
then is written there, so nothing outside the root changes. Nothing is asked of the sites here: they
need not recognise their own work. What a location shows is its entry without the date
(`FileTree.shown?`), for the directory of a file that is replaced is dated. Main statement: where a
tree shows something else after a run, a file was and is, below the root (`Registry.stays_below_root`).
-/

namespace SitePatch

/-! ## What a tree shows -/

/-- The entry without its date. -/
def Entry.undated (e : Entry) : Entry := e.mapAttributes fun a => { a with modified := 0 }

namespace FileTree

variable {t t' t'' : FileTree} {l k base : Location} {e e' : Option Entry}

/-- **What is shown at a location**: the entry there, whatever its date. -/
def shown? (t : FileTree) (l : Location) : Option Entry := (t.get? l).map Entry.undated

/-- A directory that is dated shows the same. -/
theorem Kept.map_undated (h : Kept e e') : e'.map Entry.undated = e.map Entry.undated := by
  cases h with
  | same => rfl
  | dated => rfl

/-- What shows the same holds the same bytes. -/
theorem bytesAt?_eq_of_shown?_eq (h : t'.shown? l = t.shown? l) : t'.bytesAt? l = t.bytesAt? l := by
  unfold bytesAt?
  unfold shown? at h
  generalize t.get? l = e at h ⊢
  generalize t'.get? l = e' at h ⊢
  rcases e with _ | a | f | target <;> rcases e' with _ | a' | f' | target' <;>
    simp_all [Entry.undated, Entry.mapAttributes]

/-! ## Changes below a directory -/

/-- What lies below a directory, and is not the directory, has its own directory there. -/
theorem prefix_dropLast (hbelow : base <+: l) (hne : base ≠ l) : base <+: l.dropLast := by
  obtain ⟨rest, rfl⟩ := hbelow
  have hrest : rest ≠ [] := fun h => hne (by rw [h, List.append_nil])
  rw [List.dropLast_append_of_ne_nil hrest]
  exact List.prefix_append ..

/-- **Nothing but files below the directory has changed**, and they still are files: outside, every
entry is the same, and what is no file shows the same. -/
structure Confined (base : Location) (t t' : FileTree) : Prop where
  alike : t.Alike t'
  outside : ∀ l, ¬ base <+: l → t'.get? l = t.get? l
  shown : ∀ l, (∀ f, t.get? l ≠ some (.file f)) → t'.shown? l = t.shown? l

namespace Confined

/-- Where nothing changes, all changes are below the base. -/
theorem refl (base : Location) (t : FileTree) : Confined base t t :=
  ⟨.refl t, fun _ _ => rfl, fun _ _ => rfl⟩

/-- Changes below the base, one after the other, are below the base. -/
theorem trans (h : Confined base t t') (h' : Confined base t' t'') : Confined base t t'' where
  alike := h.alike.trans h'.alike
  outside l hl := (h'.outside l hl).trans (h.outside l hl)
  shown l hl := (h'.shown l ((h.alike l).ne_file hl)).trans (h.shown l hl)

/-- What shows something else is a file below the directory, before and after. -/
theorem exists_file (h : Confined base t t') (hl : t'.shown? l ≠ t.shown? l) :
    base <+: l ∧ ∃ f f', t.get? l = some (.file f) ∧ t'.get? l = some (.file f') ∧
      f'.mode = f.mode := by
  constructor
  · by_contra hbelow
    exact hl (by rw [shown?, h.outside l hbelow, shown?])
  · by_contra hfile
    refine hl (h.shown l fun f hf => hfile ?_)
    have hkind := h.alike l
    rw [hf] at hkind
    obtain ⟨f', hf', hmode⟩ := hkind.exists_file
    exact ⟨f, f', hf, hf', hmode⟩

/-- **A file that is replaced** below a directory leaves everything else as it is. -/
theorem writeAt {f : File} (hf : t.get? l = some (.file f)) (hbelow : base <+: l) (hne : base ≠ l)
    (content : ByteArray) :
    Confined base t ((t.touch l.dropLast).writeAt l content f.mode) := by
  refine ⟨alike_writeAt_touch hf l.dropLast content, fun k hk => ?_, fun k hk => ?_⟩
  · have hkl : k ≠ l := fun h => hk (h ▸ hbelow)
    have hkd : k ≠ l.dropLast := fun h => hk (h ▸ prefix_dropLast hbelow hne)
    exact get?_writeAt_touch_of_ne hkl hkd
  · have hkl : k ≠ l := fun h => hk f (h ▸ hf)
    exact (kept_writeAt_touch l.dropLast hkl).map_undated

end Confined

end FileTree

/-! ## Edits and steps -/

/-- An edit that fails leaves the tree as it is. -/
theorem Edit.eq_of_applyIn_eq_error {e : Edit} {t t' : FileTree} {err : EditError}
    (h : e.applyIn t = (t', .error err)) : t' = t := by
  unfold applyIn at h
  repeat' split at h
  all_goals simp_all

/-- **What an edit of the file at a location does to a tree**: nothing, or it replaces the file. -/
theorem Edit.applyIn_cases {e : Edit} {t : FileTree} {l : Location} (h : t.Reaches l) (hl : l ≠ [])
    (hfile : e.file = l.path) :
    (e.applyIn t).1 = t ∨ ∃ f content, t.get? l = some (.file f) ∧
      (e.applyIn t).1 = (t.touch l.dropLast).writeAt l content f.mode := by
  rcases hin : e.applyIn t with ⟨t', err | bytes | _⟩
  · exact .inl (eq_of_applyIn_eq_error hin)
  · obtain ⟨-, c, c', -, -, -, hreplace⟩ := applyIn_eq_applied_iff.mp hin
    rw [hfile] at hreplace
    obtain ⟨f, hf, -, rfl⟩ := (FileTree.replaceFile_path_eq_ok_iff h hl).mp hreplace
    exact .inr ⟨f, _, FileTree.get?_of_fileAt h hl hf, rfl⟩
  · exact .inl (applyIn_eq_alreadyApplied_iff.mp hin).1

namespace Target

variable {x : Target} {names : NameSet} {t : FileTree} {targets : List Target} {base : Location}

/-- The tree after a plan is the old one, or the one after its edit. -/
theorem fst_write (p : Plan) (dryRun : Bool) (t : FileTree) :
    (write p dryRun t).1 = t ∨ ∃ edit, p.edit = some edit ∧
      (write p dryRun t).1 = (edit.applyIn t).1 := by
  unfold write
  cases p.edit with
  | none => exact .inl rfl
  | some edit =>
    cases dryRun with
    | true => exact .inl rfl
    | false =>
      refine .inr ⟨edit, rfl, ?_⟩
      simp only [Bool.false_eq_true, if_false]
      rcases edit.applyIn t with ⟨t', err | bytes | _⟩ <;> rfl

/-- **What a step does to a tree**: nothing, or what the edit of its file does. -/
theorem fst_apply (x : Target) (names : NameSet) (dryRun : Bool) (t : FileTree) :
    (x.apply names dryRun t).1 = t ∨ ∃ edit : Edit, edit.file = x.location.path ∧
      (x.apply names dryRun t).1 = (edit.applyIn t).1 := by
  rcases hplan : x.plan names t with e | ⟨c, p⟩
  · exact .inl (by rw [apply_of_plan_eq_error hplan])
  · obtain ⟨-, hsite⟩ := plan_eq_ok_iff.mp hplan
    obtain ⟨c', hafter⟩ := Site.exists_applyTo hsite
    have hstep : (x.apply names dryRun t).1 = (write p dryRun t).1 := by
      rw [apply, hplan]
      simp only [hafter]
      rcases write p dryRun t with ⟨t', err | n⟩ <;> rfl
    rw [hstep]
    refine (fst_write p dryRun t).imp_right ?_
    rintro ⟨edit, hedit, hwritten⟩
    exact ⟨edit, Site.file_of_plan hsite hedit, hwritten⟩

/-- **The target is a file below the directory**, reached without links. -/
structure IsBelow (base : Location) (x : Target) (t : FileTree) : Prop where
  reaches : t.Reaches x.location
  isPrefix : base <+: x.location
  ne : base ≠ x.location

/-- A target below the base is below it in every tree that is alike. -/
theorem IsBelow.of_alike {t' : FileTree} (h : x.IsBelow base t) (halike : t.Alike t') :
    x.IsBelow base t' :=
  ⟨halike.reaches h.reaches, h.isPrefix, h.ne⟩

/-- A step at a file below a directory changes nothing else. -/
theorem confined_apply (h : x.IsBelow base t) (names : NameSet) (dryRun : Bool) :
    FileTree.Confined base t (x.apply names dryRun t).1 := by
  have hne : x.location ≠ [] := by
    intro htop
    have hbelow := h.isPrefix
    rw [htop] at hbelow
    exact h.ne ((List.prefix_nil.mp hbelow).trans htop.symm)
  rcases fst_apply x names dryRun t with hsame | ⟨edit, hfile, hstep⟩
  · rw [hsame]
    exact .refl base t
  · rw [hstep]
    rcases Edit.applyIn_cases h.reaches hne hfile with hsame | ⟨f, content, hf, hwritten⟩
    · rw [hsame]
      exact .refl base t
    · rw [hwritten]
      exact .writeAt hf h.isPrefix h.ne content

/-- **A run over files below a directory changes nothing else**, however it ends. -/
theorem confined_applyAll (h : ∀ x ∈ targets, x.IsBelow base t) (names : NameSet) (dryRun : Bool) :
    FileTree.Confined base t (applyAll names dryRun targets t).1 := by
  induction targets generalizing t with
  | nil => exact .refl base t
  | cons x targets ih =>
    have hstep := confined_apply (h x (by simp)) names dryRun
    rcases happly : x.apply names dryRun t with ⟨t₁, e | ⟨first, n⟩⟩
    · rw [applyAll_cons_of_error happly]
      rwa [happly] at hstep
    · rw [applyAll_cons_of_ok happly]
      rw [happly] at hstep
      -- the step moves no file
      exact hstep.trans (ih fun y hy => (h y (List.mem_cons_of_mem _ hy)).of_alike hstep.alike)

end Target

/-! ## Runs -/

/-- A root is a directory. -/
theorem Root.exists_of_ofPath {t : FileTree} {path : Text} {r : Root} (h : Root.ofPath t path = .ok r) :
    ∃ a, t.get? r.location = some (.directory a) := by
  obtain ⟨hdirectory, hcanonical⟩ := ofPath_eq_ok_iff.mp h
  obtain ⟨l, a, hl, ha⟩ := FileTree.isDirectory_iff.mp hdirectory
  obtain rfl := Except.ok.inj (hl.symm.trans (FileTree.resolve_of_canonicalize hcanonical))
  exact ⟨a, ha⟩

/-- The targets of a root are files below it, wherever the paths of the sites and the links in the
tree lead. -/
theorem Root.isBelow_of_targets {t : FileTree} {path : Text} {r : Root} {sites : List Site}
    {targets : List Target} (hroot : Root.ofPath t path = .ok r)
    (h : r.targets t sites = .ok targets) : ∀ x ∈ targets, x.IsBelow r.location t := by
  induction sites generalizing targets with
  | nil =>
    unfold Root.targets at h
    obtain rfl := Except.ok.inj h
    simp
  | cons s sites ih =>
    unfold Root.targets at h
    cases hlocate : r.locate t s.path with
    | error e => simp [hlocate] at h
    | ok l =>
      cases hrest : r.targets t sites with
      | error e => simp [hlocate, hrest] at h
      | ok rest =>
        simp only [hlocate, hrest, Except.ok.injEq] at h
        subst h
        refine List.forall_mem_cons.mpr ⟨?_, ih hrest⟩
        obtain ⟨⟨f, hf⟩, below, hbelow⟩ := Root.locate_spec hlocate
        refine ⟨(Root.reaches_of_locate hlocate).1, ⟨below, hbelow.symm⟩, fun hsame => ?_⟩
        obtain ⟨a, ha⟩ := Root.exists_of_ofPath hroot
        rw [hsame, hf] at ha
        simp at ha

namespace Registry

/-- **A run stays below its root.** A run on paper changes nothing. However a run ends, whatever its
sites name and wherever links lead, no path leads elsewhere afterwards, and nothing outside the
directory to which the root's path leads has changed, down to the dates; where something else is
shown, a file was and is, below that directory. -/
theorem stays_below_root (registry : Registry) (root : Text) (names : NameSet) (dryRun : Bool)
    (t : FileTree) :
    (dryRun = true → (registry.apply root names dryRun t).1 = t) ∧
      t.Alike (registry.apply root names dryRun t).1 ∧
        ∀ l, ((registry.apply root names dryRun t).1.get? l ≠ t.get? l →
            ∃ r, Root.ofPath t root = .ok r ∧ r.location <+: l) ∧
          ((registry.apply root names dryRun t).1.shown? l ≠ t.shown? l →
            ∃ r f f', Root.ofPath t root = .ok r ∧ r.location <+: l ∧ t.get? l = some (.file f) ∧
              (registry.apply root names dryRun t).1.get? l = some (.file f') ∧
                f'.mode = f.mode) := by
  rcases htargets : registry.targets t root with e | targets
  · rw [apply_of_targets_eq_error htargets]
    exact ⟨fun _ => rfl, .refl t, fun l => ⟨fun h => absurd rfl h, fun h => absurd rfl h⟩⟩
  obtain ⟨r, hroot, hall⟩ : ∃ r, Root.ofPath t root = .ok r ∧
      r.targets t registry.sites = .ok targets := by
    unfold Registry.targets at htargets
    cases hroot : Root.ofPath t root with
    | error e => simp [hroot] at htargets
    | ok r => exact ⟨r, rfl, by simpa only [hroot] using htargets⟩
  have hconfined := Target.confined_applyAll (Root.isBelow_of_targets hroot hall) names dryRun
  rw [apply_of_targets htargets]
  refine ⟨?_, hconfined.alike, fun l => ⟨fun hl => ⟨r, hroot, ?_⟩, fun hl => ?_⟩⟩
  · rintro rfl
    rcases Target.applyAll_paper_cases names targets t with
      ⟨_, _, _, _, -, -, -, hrun⟩ | ⟨-, _, hrun, -⟩
    · rw [hrun]
    · rw [hrun]
  · by_contra hbelow
    exact hl (hconfined.outside l hbelow)
  · obtain ⟨hbelow, f, f', hf, hf', hmode⟩ := hconfined.exists_file hl
    exact ⟨r, f, f', hroot, hbelow, hf, hf', hmode⟩

end Registry

namespace Luau

/-- The broken checkout, and beside it a link that leads into it. -/
def linkedCheckout : FileTree := brokenCheckout.put ["link"] (.link "luau/Analysis/src")

/-- From where the link leads, the root is two directories up. -/
theorem targets_linkedCheckout :
    linterAndTracer.targets linkedCheckout "/link/../.." = .ok brokenTargets := rfl

/-- In the linked checkout, there is a plan for the linter, and an edit is due. -/
theorem isDue_linkedCheckout :
    (⟨linter, analysisFile "Linter.cpp"⟩ : Target).isPlanned loadOnly linkedCheckout = true ∧
      (⟨linter, analysisFile "Linter.cpp"⟩ : Target).isDue loadOnly linkedCheckout = true := by
  have hread : linkedCheckout.readText (analysisFile "Linter.cpp").path = .ok deliveredAnswer :=
    FileTree.readText_of_readFrom rfl
  simp only [Target.isPlanned, Target.isDue, Target.plan, Target.file, hread]
  decide +kernel

/-- A run over the linked checkout changes the linter's file, and fails at the tracer's. -/
theorem shown?_linkedCheckout_ne :
    (linterAndTracer.apply "/link/../.." loadOnly false linkedCheckout).1.shown?
      (analysisFile "Linter.cpp") ≠ linkedCheckout.shown? (analysisFile "Linter.cpp") := by
  obtain ⟨hplanned, hdue⟩ := isDue_linkedCheckout
  have hready := Registry.isReady_of_targets targets_linkedCheckout
    fun s hs => (isPlaced_linterAndTracer s hs).exists_patchable
  have hdirectory : ∀ x ∈ brokenTargets, linkedCheckout.isOpenAt x.location.dropLast = true :=
    List.all_eq_true.mp (by decide)
  obtain ⟨t', hrun, heffect⟩ := Target.exists_effect_of_applyAll hready (by decide)
    fun x hx => Target.isBarred_of_isOpenAt (hdirectory x (List.takeWhile_subset _ hx))
  have hmem : (⟨linter, analysisFile "Linter.cpp"⟩ : Target) ∈
      Target.planned loadOnly linkedCheckout brokenTargets := by
    rw [brokenTargets, Target.planned_cons_of_isPlanned hplanned]
    exact List.mem_cons_self
  obtain ⟨c, c', f, f', hw⟩ := heffect.rewritten _ hmem hdue
  rw [Registry.apply_of_targets targets_linkedCheckout, hrun]
  exact fun hsame => hw.bytesAt?_ne (hready _ (List.takeWhile_subset _ hmem))
    (FileTree.bytesAt?_eq_of_shown?_eq hsame)

/-- The root is found through the link, a run on paper leaves the tree as it is, and a real run
changes a file below the root, although it fails. -/
theorem stays_below_root_linkedCheckout :
    (linterAndTracer.apply "/link/../.." loadOnly true linkedCheckout).1 = linkedCheckout ∧
      (linterAndTracer.apply "/link/../.." loadOnly false linkedCheckout).1.shown?
          (analysisFile "Linter.cpp") ≠ linkedCheckout.shown? (analysisFile "Linter.cpp") ∧
        ∃ r, Root.ofPath linkedCheckout "/link/../.." = .ok r ∧
          r.location <+: analysisFile "Linter.cpp" := by
  obtain ⟨hpaper, -, -⟩ :=
    Registry.stays_below_root linterAndTracer "/link/../.." loadOnly true linkedCheckout
  obtain ⟨-, -, hreal⟩ :=
    Registry.stays_below_root linterAndTracer "/link/../.." loadOnly false linkedCheckout
  obtain ⟨r, -, -, hroot, hbelow, -⟩ :=
    (hreal (analysisFile "Linter.cpp")).2 shown?_linkedCheckout_ne
  exact ⟨hpaper rfl, shown?_linkedCheckout_ne, r, hroot, hbelow⟩

end Luau

end SitePatch
