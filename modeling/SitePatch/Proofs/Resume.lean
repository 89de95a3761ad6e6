import SitePatch.Proofs.Confined
import SitePatch.Proofs.Crossing
import SitePatch.Proofs.Rerun

/-! # Runs that are resumed

A run that fails at a target leaves the files before it patched. Nothing is rolled back, and nothing
has to be: once the files from that target on have been repaired, by whatever contents, a run over
the partly patched tree ends as one over the old tree that was repaired alike. The patched targets
are quiet (`Target.Effect.isQuiet`), a run over them commutes with the repair
(`Target.Effect.sameShown_refill`), and from then on both runs do the same, for a run depends on
what a tree shows only (`Target.sameShown_applyAll`). Main statement: `Luau.resumes_of_apply`. Both
runs succeed if every file from the failing target on is given a text with a plan
(`Target.exists_applyAll_of_refill`). -/

namespace SitePatch

/-! ## Repairs -/

/-- The entry with other content, if it is a file. -/
def Entry.filled (content : ByteArray) : Entry → Entry
  | .file f => .file { f with content := content }
  | e => e

namespace FileTree

variable {t t' : FileTree} {l k : Location} {contents : Location → ByteArray}
  {locations : List Location}

/-- The tree with other content in the file at a location. -/
def fillAt (t : FileTree) (l : Location) (content : ByteArray) : FileTree :=
  match t.get? l with
  | some (.file f) => t.writeAt l content f.mode
  | _ => t

/-- **A repair**: the tree with other contents in the files at the locations. -/
def refill (contents : Location → ByteArray) (locations : List Location) (t : FileTree) : FileTree :=
  locations.foldl (fun t l => t.fillAt l (contents l)) t

/-- **Trees that show the same** everywhere. -/
def SameShown (t t' : FileTree) : Prop := ∀ l, t'.shown? l = t.shown? l

/-- A file that is filled shows its new content. -/
theorem shown?_fillAt (t : FileTree) (l k : Location) (content : ByteArray) :
    (t.fillAt l content).shown? k =
      if k = l then (t.shown? k).map (Entry.filled content) else t.shown? k := by
  unfold fillAt
  split
  · rename_i f hf
    have hl : l ≠ [] := by
      rintro rfl
      simp [get?] at hf
    have hnew := get?_put t k (.file ⟨⟨f.mode, t.clock⟩, content⟩) hl
    by_cases hkl : k = l
    · rw [if_pos hkl] at hnew ⊢
      rw [shown?, shown?, hkl, hf]
      rw [hkl] at hnew
      exact congrArg (Option.map Entry.undated) hnew
    · rw [if_neg hkl] at hnew ⊢
      exact congrArg (Option.map Entry.undated) hnew
  · rename_i hfile
    by_cases hkl : k = l
    · rw [if_pos hkl, hkl, shown?]
      rcases hl : t.get? l with _ | a | f | target
      · rfl
      · rfl
      · exact absurd hl (hfile f)
      · rfl
    · rw [if_neg hkl]

/-- **What a repaired tree shows.** -/
theorem shown?_refill (contents : Location → ByteArray) (locations : List Location) (t : FileTree)
    (k : Location) :
    (t.refill contents locations).shown? k =
      if k ∈ locations then (t.shown? k).map (Entry.filled (contents k)) else t.shown? k := by
  have hfilled : ∀ e : Entry, (e.filled (contents k)).filled (contents k) = e.filled (contents k) := by
    intro e
    cases e <;> rfl
  unfold refill
  induction locations generalizing t with
  | nil => rw [List.foldl_nil, if_neg List.not_mem_nil]
  | cons l locations ih =>
    rw [List.foldl_cons, ih, shown?_fillAt]
    by_cases hk : k = l
    · subst hk
      rw [if_pos rfl, if_pos List.mem_cons_self]
      split
      · rw [Option.map_map]
        congr 1
        funext e
        exact hfilled e
      · rfl
    · rw [if_neg hk]
      simp only [List.mem_cons, hk, false_or]

/-- What a file shows. -/
theorem shown?_of_file {f : File} (h : t.get? l = some (.file f)) :
    t.shown? l = some (.file ⟨⟨f.mode, 0⟩, f.content⟩) := by
  rw [shown?, h]
  rfl

/-- What shows as a file is one, of the same mode and content. -/
theorem exists_of_shown?_eq_file {f : File} (h : t.shown? l = some (.file f)) :
    ∃ a, t.get? l = some (.file ⟨a, f.content⟩) ∧ a.mode = f.mode := by
  unfold shown? at h
  rcases hl : t.get? l with _ | a | ⟨a, content⟩ | target <;>
    simp only [hl, Option.map_none, Option.map_some, Entry.undated, Entry.mapAttributes,
      Option.some.injEq, reduceCtorEq, Entry.file.injEq] at h
  case some.file =>
    subst h
    exact ⟨a, rfl, rfl⟩

/-- Trees that show the same at a location are read alike there. -/
theorem readIn_of_shown?_eq (h : t'.shown? l = t.shown? l) : t'.readIn l = t.readIn l := by
  unfold readIn
  unfold shown? at h
  generalize t.get? l = e at h ⊢
  generalize t'.get? l = e' at h ⊢
  rcases e with _ | a | f | target <;> rcases e' with _ | a' | f' | target' <;>
    simp [Entry.undated, Entry.mapAttributes] at h ⊢
  case some.directory.some.directory => rw [Attributes.isReadable, h, ← Attributes.isReadable]
  case some.file.some.file => rw [Attributes.isReadable, h.1, ← Attributes.isReadable, h.2]

/-- Dates do not tell entries apart for a walk. -/
theorem sameKind_of_undated {e e' : Option Entry}
    (h : SameKind (e.map Entry.undated) (e'.map Entry.undated)) : SameKind e e' := by
  rcases e with _ | a | f | target <;> rcases e' with _ | a' | f' | target' <;> cases h
  · exact .none
  · rename_i hmode
    exact .directory hmode
  · rename_i hmode
    exact .file hmode
  · exact .link target

/-- Trees that show the same are alike. -/
theorem SameShown.alike (h : t.SameShown t') : t.Alike t' := by
  intro l
  refine sameKind_of_undated ?_
  rw [← shown?, ← shown?, h l]
  exact .refl _

/-- A repair moves nothing. -/
theorem alike_refill (contents : Location → ByteArray) (locations : List Location) (t : FileTree) :
    t.Alike (t.refill contents locations) := by
  intro l
  refine sameKind_of_undated ?_
  rw [← shown?, ← shown?, shown?_refill]
  split
  · rcases t.shown? l with _ | a | f | target
    · exact .none
    · exact .directory rfl
    · exact .file rfl
    · exact .link target
  · exact .refl _

end FileTree

namespace Target

variable {x : Target} {names : NameSet} {t t' t₁ u v : FileTree} {c : Text} {p : Plan} {e : PatchError}
  {r : RunReport} {targets done later : List Target}

/-! ## Trees that show the same -/

section SameShown

variable (hx : x.IsReady t) (halike : t.Alike t')
  (hshown : t'.shown? x.location = t.shown? x.location)

include hx halike hshown

/-- A target's text depends on what its file shows only. -/
theorem readText_of_shown?_eq : t'.readText x.file = t.readText x.file :=
  FileTree.readText_congr halike hx.reaches hx.ne_nil (FileTree.readIn_of_shown?_eq hshown)

/-- A target's plan depends on what its file shows only. -/
theorem plan_of_shown?_eq : x.plan names t' = x.plan names t := by
  rw [plan, plan, readText_of_shown?_eq hx halike hshown]

/-- Whether there is a plan for a target depends on what its file shows only. -/
theorem isPlanned_of_shown?_eq : x.isPlanned names t' = x.isPlanned names t := by
  rw [isPlanned, isPlanned, plan_of_shown?_eq hx halike hshown]

/-- Whether an edit is due at a target depends on what its file shows only. -/
theorem isDue_of_shown?_eq : x.isDue names t' = x.isDue names t := by
  rw [isDue, isDue, plan_of_shown?_eq hx halike hshown]

/-- Whether a target is barred depends on what its file shows only. -/
theorem isBarred_of_shown?_eq : x.isBarred names t' = x.isBarred names t := by
  rw [isBarred, isBarred, isDue_of_shown?_eq hx halike hshown, halike.isOpenAt_eq]

end SameShown

/-- **A run has the same effect on trees that show the same at its targets**: at each location, the
same is shown afterwards, or nothing else than before. -/
theorem Effect.shown?_cases (h : Effect names done t t₁) (h' : Effect names done u v)
    (hready : ∀ x ∈ done, x.IsReady t) (halike : t.Alike u)
    (hshown : ∀ x ∈ done, u.shown? x.location = t.shown? x.location) (l : Location) :
    (l ∈ done.map location ∧ v.shown? l = t₁.shown? l) ∨
      v.shown? l = u.shown? l ∧ t₁.shown? l = t.shown? l := by
  by_cases hdue : ∃ x ∈ done, x.isDue names t = true ∧ x.location = l
  · obtain ⟨x, hx, hdue, rfl⟩ := hdue
    refine .inl ⟨List.mem_map_of_mem hx, ?_⟩
    obtain ⟨c, c', f, f', hw⟩ := h.rewritten x hx hdue
    have hdue' := (isDue_of_shown?_eq (hready x hx) halike (hshown x hx)).trans hdue
    obtain ⟨d, d', g, g', hw'⟩ := h'.rewritten x hx hdue'
    -- both texts are the same, and so are the patched ones
    have hread := readText_of_shown?_eq (hready x hx) halike (hshown x hx)
    rw [hw.read, hw'.read, Except.ok.injEq] at hread
    obtain rfl := hread
    obtain rfl := Except.ok.inj (hw.patch.symm.trans hw'.patch)
    have hmode : g.mode = f.mode := by
      have hfiles := hshown x hx
      rw [FileTree.shown?_of_file hw.old, FileTree.shown?_of_file hw'.old] at hfiles
      simp only [Option.some.injEq, Entry.file.injEq, File.mk.injEq, Attributes.mk.injEq] at hfiles
      exact hfiles.1.1
    rw [FileTree.shown?_of_file hw.new, FileTree.shown?_of_file hw'.new, hw.mode, hw'.mode, hmode,
      hw.content, hw'.content]
  · have hkept : ∀ x ∈ done, x.isDue names t = true → x.location ≠ l :=
      fun x hx hx' hl => hdue ⟨x, hx, hx', hl⟩
    refine .inr ⟨(h'.kept l fun x hx hx' => ?_).map_undated, (h.kept l hkept).map_undated⟩
    rw [isDue_of_shown?_eq (hready x hx) halike (hshown x hx)] at hx'
    exact hkept x hx hx'

/-- **A step depends on what the tree shows only.** -/
theorem sameShown_apply (names : NameSet) (hx : x.IsReady t) (h : t.SameShown t') :
    (x.apply names false t).1.SameShown (x.apply names false t').1 ∧
      (x.apply names false t').2 = (x.apply names false t).2 := by
  have hx' := hx.of_alike h.alike
  have hplan : x.plan names t' = x.plan names t := plan_of_shown?_eq hx h.alike (h x.location)
  rcases hfound : x.plan names t with e | ⟨c, p⟩
  · rw [hfound] at hplan
    rw [apply_of_plan_eq_error hfound, apply_of_plan_eq_error hplan]
    exact ⟨h, rfl⟩
  have hbarred : x.isBarred names t' = x.isBarred names t :=
    isBarred_of_shown?_eq hx h.alike (h x.location)
  by_cases hclosed : x.isBarred names t = true
  · rw [apply_of_isBarred hx hclosed, apply_of_isBarred hx' (hbarred.trans hclosed)]
    exact ⟨h, rfl⟩
  · rw [Bool.not_eq_true] at hclosed
    rw [hfound] at hplan
    obtain ⟨t₁, hstep, heffect⟩ := exists_effect_of_apply hx (isPlanned_of_plan hfound) hclosed
    obtain ⟨u₁, hstep', heffect'⟩ :=
      exists_effect_of_apply hx' (isPlanned_of_plan hplan) (hbarred.trans hclosed)
    rw [hstep, hstep']
    refine ⟨fun l => ?_, ?_⟩
    · rcases heffect.shown?_cases heffect' (by simpa using hx) h.alike (by simpa using h x.location) l
        with ⟨-, hsame⟩ | ⟨hnew, hold⟩
      · exact hsame
      · exact hnew.trans ((h l).trans hold.symm)
    · obtain ⟨c₁, hafter, hpaper⟩ := apply_paper hfound
      obtain ⟨c₂, hafter', hpaper'⟩ := apply_paper hplan
      obtain rfl := Except.ok.inj (hafter.symm.trans hafter')
      rw [hpaper, hpaper', isDue_of_plan hfound, isDue_of_plan hplan]

/-- **A run depends on what the tree shows only.** -/
theorem sameShown_applyAll (names : NameSet) (hready : ∀ x ∈ targets, x.IsReady t) (h : t.SameShown t') :
    (applyAll names false targets t).1.SameShown (applyAll names false targets t').1 ∧
      (applyAll names false targets t').2 = (applyAll names false targets t).2 := by
  induction targets generalizing t t' with
  | nil => exact ⟨h, rfl⟩
  | cons x targets ih =>
    obtain ⟨hx, hrest⟩ := List.forall_mem_cons.mp hready
    obtain ⟨hshown, hresult⟩ := sameShown_apply names hx h
    rcases hstep : x.apply names false t with ⟨t₁, e | ⟨first, n⟩⟩
    · rw [hstep] at hshown hresult
      rw [applyAll_cons_of_error hstep, applyAll_cons_of_error (Prod.ext rfl hresult)]
      exact ⟨hshown, rfl⟩
    · rw [hstep] at hshown hresult
      obtain ⟨p, hpatches⟩ := exists_patches_of_apply hx hstep
      rw [applyAll_cons_of_ok hstep, applyAll_cons_of_ok (Prod.ext rfl hresult)]
      obtain ⟨hshown', hresult'⟩ :=
        ih (fun y hy => (hrest y hy).of_alike hpatches.alike) hshown
      exact ⟨hshown', by rw [hresult']⟩

/-! ## Runs that fail -/

/-- A plan that is not carried out leaves the tree as it is. -/
theorem eq_of_write_eq_error {dryRun : Bool} (h : write p dryRun t = (t', .error e)) : t' = t := by
  unfold write at h
  split at h
  · simp at h
  · split at h
    · simp at h
    · split at h
      · rename_i hin
        rw [← (Prod.mk.inj h).1, Edit.eq_of_applyIn_eq_error hin]
      · simp at h
      · simp at h

/-- A step that fails leaves the tree as it is. -/
theorem eq_of_apply_eq_error {dryRun : Bool} (h : x.apply names dryRun t = (t', .error e)) :
    t' = t := by
  unfold apply at h
  split at h
  · exact (Prod.mk.inj h).1.symm
  · split at h
    · exact (Prod.mk.inj h).1.symm
    · split at h
      · rename_i hwritten
        rw [← (Prod.mk.inj h).1, eq_of_write_eq_error hwritten]
      · simp at h

/-- **The run over `done` succeeds, and the step at `x` behind it fails**, with the tree `t'`. -/
structure FailsAt (names : NameSet) (t : FileTree) (done : List Target) (x : Target)
    (t' : FileTree) (e : PatchError) : Prop where
  done : ∃ r, applyAll names false done t = (t', .ok r)
  fails : x.apply names false t' = (t', .error e)

/-- **A run that fails does so at some target.** -/
theorem exists_failsAt (h : applyAll names false targets t = (t', .error e)) :
    ∃ done x rest, targets = done ++ x :: rest ∧ FailsAt names t done x t' e := by
  induction targets generalizing t with
  | nil => simp [applyAll] at h
  | cons x targets ih =>
    rcases hstep : x.apply names false t with ⟨t₁, e₁ | ⟨first, n⟩⟩
    · rw [applyAll_cons_of_error hstep] at h
      obtain ⟨rfl, he⟩ := Prod.mk.inj h
      obtain rfl := Except.error.inj he
      obtain rfl := eq_of_apply_eq_error hstep
      exact ⟨[], x, targets, rfl, ⟨_, rfl⟩, hstep⟩
    · rw [applyAll_cons_of_ok hstep] at h
      rcases hrest : applyAll names false targets t₁ with ⟨t₂, e₂ | r⟩
      · rw [hrest] at h
        obtain ⟨rfl, he⟩ := Prod.mk.inj h
        obtain rfl := Except.error.inj he
        obtain ⟨done, y, rest, rfl, ⟨r, hdone⟩, hfails⟩ := ih hrest
        refine ⟨x :: done, y, rest, rfl, ⟨addReport first n r, ?_⟩, hfails⟩
        rw [applyAll_cons_of_ok hstep, hdone]
        rfl
      · rw [hrest] at h
        simp [Except.map] at h

/-- The report on a run, with that on a run before it in front. -/
def addReports (done r : RunReport) : RunReport := ⟨done.sites ++ r.sites, done.changed + r.changed⟩

/-- Behind a run that succeeds, a run goes on in the tree that it leaves. -/
theorem applyAll_append_of_ok {dryRun : Bool} (h : applyAll names dryRun done t = (t₁, .ok r)) :
    applyAll names dryRun (done ++ later) t = ((applyAll names dryRun later t₁).1,
      (applyAll names dryRun later t₁).2.map (addReports r)) := by
  induction done generalizing t r with
  | nil =>
    obtain ⟨rfl, hr⟩ := Prod.mk.inj h
    obtain rfl := Except.ok.inj hr
    rw [List.nil_append]
    rcases applyAll names dryRun later t with ⟨t', e | r⟩
    · rfl
    · simp [Except.map, addReports]
  | cons x done ih =>
    rcases hstep : x.apply names dryRun t with ⟨t₂, e | ⟨first, n⟩⟩
    · rw [applyAll_cons_of_error hstep] at h
      simp at h
    rw [applyAll_cons_of_ok hstep] at h
    rcases hrest : applyAll names dryRun done t₂ with ⟨t₃, e | r₁⟩
    · rw [hrest] at h
      simp [Except.map] at h
    rw [hrest] at h
    obtain ⟨rfl, hr⟩ := Prod.mk.inj h
    obtain rfl := Except.ok.inj hr
    rw [List.cons_append, applyAll_cons_of_ok hstep, ih hrest]
    rcases applyAll names dryRun later t₃ with ⟨t', e | r⟩
    · rfl
    · simp [Except.map, addReports, addReport, Nat.add_assoc]

/-- **A run that succeeds** has a plan for every target, comes to none that is barred, and has the
effect of a run over them. -/
theorem effect_of_applyAll_eq_ok (hready : ∀ x ∈ targets, x.IsReady t)
    (hdistinct : (targets.map Target.location).Nodup)
    (h : applyAll names false targets t = (t', .ok r)) :
    (∀ x ∈ targets, x.isPlanned names t = true ∧ x.isBarred names t = false) ∧
      Effect names targets t t' := by
  have hopen : ∀ x ∈ planned names t targets, x.isBarred names t = false := by
    by_contra hbarred
    simp only [not_forall, Bool.not_eq_false] at hbarred
    obtain ⟨x, hx, hclosed⟩ := hbarred
    have hfails := applyAll_of_isBarred hready hdistinct ⟨x, hx, hclosed⟩
    rw [h] at hfails
    simp at hfails
  obtain ⟨t'', hrun, heffect⟩ := exists_effect_of_applyAll hready hdistinct hopen
  rw [h] at hrun
  obtain ⟨rfl, hpaper⟩ := Prod.mk.inj hrun
  rcases applyAll_paper_cases names targets t with ⟨_, _, _, _, -, -, -, hfails⟩ | ⟨hall, -⟩
  · rw [hfails] at hpaper
    simp at hpaper
  · have hplanned : planned names t targets = targets := List.takeWhile_eq_self_iff.mpr hall
    rw [hplanned] at hopen heffect
    exact ⟨fun x hx => ⟨hall x hx, hopen x hx⟩, heffect⟩

/-- **A run over distinct targets succeeds** if all have a plan, and none is barred. -/
theorem exists_applyAll_of_isPlanned (hready : ∀ x ∈ targets, x.IsReady t)
    (hdistinct : (targets.map Target.location).Nodup)
    (h : ∀ x ∈ targets, x.isPlanned names t = true ∧ x.isBarred names t = false) :
    ∃ t' r, applyAll names false targets t = (t', .ok r) ∧ Effect names targets t t' := by
  have hplanned : ∀ x ∈ targets, x.isPlanned names t = true := fun x hx => (h x hx).1
  have hopen : ∀ x ∈ planned names t targets, x.isBarred names t = false :=
    fun x hx => (h x (List.takeWhile_subset _ hx)).2
  obtain ⟨t', hrun, heffect⟩ := exists_effect_of_applyAll hready hdistinct hopen
  obtain ⟨r, hpaper⟩ := exists_applyAll_paper hplanned
  rw [planned, List.takeWhile_eq_self_iff.mpr hplanned] at heffect
  rw [hpaper] at hrun
  exact ⟨t', r, hrun, heffect⟩

/-! ## Runs behind a run -/

/-- A repair of other files leaves what the targets show. -/
theorem shown?_refill_of_mem (contents : Location → ByteArray) {locations : List Location}
    (hother : ∀ x ∈ done, x.location ∉ locations) (t : FileTree) :
    ∀ x ∈ done, (t.refill contents locations).shown? x.location = t.shown? x.location := by
  intro x hx
  rw [FileTree.shown?_refill, if_neg (hother x hx)]

/-- Targets whose files are not repaired have plans as before, and are barred as before. -/
theorem isPlanned_refill (hready : ∀ x ∈ done, x.IsReady t) (contents : Location → ByteArray)
    {locations : List Location} (hother : ∀ x ∈ done, x.location ∉ locations)
    (h : ∀ x ∈ done, x.isPlanned names t = true ∧ x.isBarred names t = false) :
    ∀ x ∈ done, x.isPlanned names (t.refill contents locations) = true ∧
      x.isBarred names (t.refill contents locations) = false := by
  intro x hx
  have halike := FileTree.alike_refill contents locations t
  have hshown := shown?_refill_of_mem contents hother t x hx
  rw [isPlanned_of_shown?_eq (hready x hx) halike hshown,
    isBarred_of_shown?_eq (hready x hx) halike hshown]
  exact h x hx

/-- Of distinct targets, those in front are distinct, and none has its file among the others'. -/
theorem nodup_of_append (h : ((done ++ later).map location).Nodup) :
    (done.map location).Nodup ∧ ∀ x ∈ done, x.location ∉ later.map location := by
  rw [List.map_append, List.nodup_append] at h
  obtain ⟨hdone, -, hother⟩ := h
  exact ⟨hdone, fun x hx hl => hother _ (List.mem_map_of_mem hx) _ hl rfl⟩

section Done

variable (h : Effect names done t t₁) (hready : ∀ x ∈ done, x.IsReady t)

include h hready

/-- **A target that has been patched is quiet**, unless its text held both a delivered and a patched
region. -/
theorem Effect.isQuiet (hdistinct : (done.map Target.location).Nodup) (hx : x ∈ done)
    (hplan : x.plan names t = .ok (c, p)) (hboth : ¬ x.site.HoldsBoth c) : x.IsQuiet names t₁ := by
  obtain ⟨k, m, hs⟩ := (hready x hx).patchable
  obtain ⟨-, hsite⟩ := plan_eq_ok_iff.mp hplan
  obtain ⟨c', hafter⟩ := Site.exists_applyTo hsite
  obtain ⟨-, hread⟩ :=
    h.readText_of_reports hready hdistinct hx (reports_of_plan hplan hafter)
  by_cases hnames : names.isEmpty = true
  · obtain ⟨evidence, rfl⟩ := hs.plan_of_isEmpty hnames hsite
    obtain rfl := Except.ok.inj hafter
    exact ⟨_, evidence, plan_eq_ok_iff.mpr ⟨hread, hsite⟩⟩
  · have hleft : x.Left names c t₁ :=
      ⟨c', hread, hs.outcome_of_plan (by simpa using hnames) hsite hafter⟩
    exact (hleft.isQuiet_iff hs fun _ hn => hn).mpr hboth

section Refilled

variable (contents : Location → ByteArray) {locations : List Location}
  (hother : ∀ x ∈ done, x.location ∉ locations)

include hother

/-- **The effect of a run commutes with a repair** of other files. -/
theorem Effect.sameShown_refill (h' : Effect names done (t.refill contents locations) v) :
    (t₁.refill contents locations).SameShown v := by
  have hshown := shown?_refill_of_mem contents hother t
  intro l
  rcases h.shown?_cases h' hready (FileTree.alike_refill contents locations t) hshown l with
    ⟨hl, hsame⟩ | ⟨hnew, hold⟩
  · obtain ⟨x, hx, rfl⟩ := List.mem_map.mp hl
    rw [hsame, FileTree.shown?_refill, if_neg (hother x hx)]
  · rw [hnew, FileTree.shown?_refill, FileTree.shown?_refill, hold]

/-- **Over a tree that has been repaired elsewhere, the targets are patched as before.** -/
theorem Effect.exists_applyAll_refill (hdistinct : (done.map Target.location).Nodup)
    (hplanned : ∀ x ∈ done, x.isPlanned names t = true ∧ x.isBarred names t = false) :
    ∃ v r, applyAll names false done (t.refill contents locations) = (v, .ok r) ∧
      (t₁.refill contents locations).SameShown v := by
  have halike := FileTree.alike_refill contents locations t
  obtain ⟨v, r, hrun, heffect⟩ :=
    exists_applyAll_of_isPlanned (fun x hx => (hready x hx).of_alike halike) hdistinct
      (isPlanned_refill hready contents hother hplanned)
  exact ⟨v, r, hrun, h.sameShown_refill hready contents hother heffect⟩

/-- **Over a tree in which the targets are patched, and others repaired, they are quiet.** -/
theorem Effect.exists_applyAll_quiet (hdistinct : (done.map Target.location).Nodup)
    (hplanned : ∀ x ∈ done, x.isPlanned names t = true)
    (hboth : ∀ x ∈ done, ∀ c, t.readText x.file = .ok c → ¬ x.site.HoldsBoth c) :
    ∃ r, applyAll names false done (t₁.refill contents locations)
      = (t₁.refill contents locations, .ok r) := by
  have hquiet : ∀ x ∈ done, x.IsQuiet names (t₁.refill contents locations) := by
    intro x hx
    obtain ⟨c, p, hplan⟩ := exists_of_isPlanned (hplanned x hx)
    obtain ⟨d, evidence, hd⟩ :=
      h.isQuiet hready hdistinct hx hplan (hboth x hx c (plan_eq_ok_iff.mp hplan).1)
    refine ⟨d, evidence, ?_⟩
    rw [plan_of_shown?_eq ((hready x hx).of_alike h.alike)
      (FileTree.alike_refill contents locations t₁) (shown?_refill_of_mem contents hother t₁ x hx), hd]
  obtain ⟨r, hrun, -⟩ := applyAll_of_isQuiet hquiet false
  exact ⟨r, hrun⟩

end Refilled

end Done

/-- **Two runs end alike**: the trees show the same, and both succeed, or fail with the same error. -/
def EndAlike (run run' : FileTree × Except PatchError RunReport) : Prop :=
  run.1.SameShown run'.1 ∧ (run'.2.map fun _ => ()) = run.2.map fun _ => ()

/-- **A run over a tree that has been repaired behind the targets `done`** ends alike, whether these
have been patched before or not. -/
theorem endAlike_of_refill (hready : ∀ x ∈ done ++ later, x.IsReady t)
    (hdistinct : ((done ++ later).map Target.location).Nodup)
    (hboth : ∀ x ∈ done, ∀ c, t.readText x.file = .ok c → ¬ x.site.HoldsBoth c)
    (hdone : applyAll names false done t = (t₁, .ok r)) (contents : Location → ByteArray) :
    t.Alike t₁ ∧
      EndAlike (applyAll names false (done ++ later) (t.refill contents (later.map location)))
        (applyAll names false (done ++ later) (t₁.refill contents (later.map location))) := by
  obtain ⟨hready, hlater⟩ := List.forall_mem_append.mp hready
  obtain ⟨hdistinct, hother⟩ := nodup_of_append hdistinct
  obtain ⟨hplanned, heffect⟩ := effect_of_applyAll_eq_ok hready hdistinct hdone
  obtain ⟨v, r₁, hrun, hsame⟩ :=
    heffect.exists_applyAll_refill hready contents hother hdistinct hplanned
  obtain ⟨r₂, hrun'⟩ := heffect.exists_applyAll_quiet hready contents hother hdistinct
    (fun x hx => (hplanned x hx).1) hboth
  rw [applyAll_append_of_ok hrun, applyAll_append_of_ok hrun']
  -- behind the targets `done`, both runs go on in trees that show the same
  have halike := heffect.alike.trans (FileTree.alike_refill contents (later.map location) t₁)
  obtain ⟨hend, hresult⟩ :=
    sameShown_applyAll names (fun x hx => (hlater x hx).of_alike halike) hsame
  refine ⟨heffect.alike, fun l => (hend l).symm, ?_⟩
  rw [hresult]
  cases (applyAll names false later (t₁.refill contents (later.map location))).2 with
  | error e => rfl
  | ok r => rfl

/-- A file that held a text, and was repaired, holds the text it was given. -/
theorem readText_refill {d : Text} {locations : List Location} (hx : x.IsReady t)
    (hread : t.readText x.file = .ok c) (contents : Location → ByteArray)
    (hmem : x.location ∈ locations) (hgiven : contents x.location = Utf8.encode d) :
    (t.refill contents locations).readText x.file = .ok d := by
  obtain ⟨hresolve, bytes, -, hin, -⟩ := FileTree.exists_of_readText hx.reaches hx.ne_nil hread
  obtain ⟨f, hfile, hreadable, -⟩ := FileTree.readIn_eq_ok_iff.mp hin
  have halike := FileTree.alike_refill contents locations t
  have hshown := FileTree.shown?_refill contents locations t x.location
  rw [if_pos hmem, FileTree.shown?_of_file hfile, hgiven] at hshown
  obtain ⟨a, hnew, hmode⟩ := FileTree.exists_of_shown?_eq_file hshown
  refine FileTree.readText_of_get? ((halike.resolve_eq _).trans hresolve) hnew ?_
  rw [Attributes.isReadable, hmode]
  exact hreadable

/-- **A run over a tree that has been repaired succeeds** if it succeeded at the targets before the
repair, and every file from there on is given a text with a plan, in an open directory. -/
theorem exists_applyAll_of_refill (hready : ∀ x ∈ done ++ later, x.IsReady t)
    (hdistinct : ((done ++ later).map Target.location).Nodup)
    (hdone : applyAll names false done t = (t₁, .ok r)) (contents : Location → ByteArray)
    (hlater : ∀ x ∈ later, (∃ c, t.readText x.file = .ok c) ∧
      t.isOpenAt x.location.dropLast = true ∧
        ∃ d p, contents x.location = Utf8.encode d ∧ x.site.plan names x.file d = .ok p) :
    ∃ v r', applyAll names false (done ++ later) (t.refill contents (later.map location))
      = (v, .ok r') := by
  have halike := FileTree.alike_refill contents (later.map location) t
  obtain ⟨hreadyDone, hreadyLater⟩ := List.forall_mem_append.mp hready
  obtain ⟨hnodup, hother⟩ := nodup_of_append hdistinct
  obtain ⟨hplanned, -⟩ := effect_of_applyAll_eq_ok hreadyDone hnodup hdone
  have hrepaired : ∀ x ∈ later,
      x.isPlanned names (t.refill contents (later.map location)) = true ∧
        x.isBarred names (t.refill contents (later.map location)) = false := by
    intro x hx
    obtain ⟨⟨c, hread⟩, hopen, d, p, hgiven, hplan⟩ := hlater x hx
    have hread' :=
      readText_refill (hreadyLater x hx) hread contents (List.mem_map_of_mem hx) hgiven
    exact ⟨isPlanned_of_plan (plan_eq_ok_iff.mpr ⟨hread', hplan⟩),
      isBarred_of_isOpenAt ((halike.isOpenAt_eq _).trans hopen)⟩
  have hall := List.forall_mem_append.mpr
    ⟨isPlanned_refill hreadyDone contents hother hplanned, hrepaired⟩
  obtain ⟨v, r', hrun, -⟩ := exists_applyAll_of_isPlanned
    (fun x hx => (hready x hx).of_alike halike) hdistinct hall
  exact ⟨v, r', hrun⟩

end Target

/-! ## Luau -/

namespace Luau

/-- **A run that fails can be resumed.** If a run over Luau's Analysis library, with distinct files
of which none holds both a delivered and a patched region, fails, it fails at some target, with those
before it patched. Whatever contents the files from that target on are given then, a run over the
partly patched tree ends like a run over the old tree in which they are given the same contents: the
trees show the same, and both runs succeed, or fail with the same error. -/
theorem resumes_of_apply {root : Text} {names : NameSet} {t t' : FileTree} {targets : List Target}
    {e : PatchError} (htargets : Registry.luau.targets t root = .ok targets)
    (hdistinct : (targets.map Target.location).Nodup)
    (hboth : ∀ x ∈ targets, ∀ c, t.readText x.file = .ok c → ¬ x.site.HoldsBoth c)
    (hrun : Registry.luau.apply root names false t = (t', .error e)) :
    ∃ done x rest, targets = done ++ x :: rest ∧ Target.FailsAt names t done x t' e ∧
      ∀ contents : Location → ByteArray, Target.EndAlike
        (Registry.luau.apply root names false
          (t.refill contents ((x :: rest).map Target.location)))
        (Registry.luau.apply root names false
          (t'.refill contents ((x :: rest).map Target.location))) := by
  rw [Registry.apply_of_targets htargets] at hrun
  obtain ⟨done, x, rest, rfl, hfails⟩ := Target.exists_failsAt hrun
  refine ⟨done, x, rest, rfl, hfails, fun contents => ?_⟩
  have hready := Registry.isReady_of_targets htargets fun _ hs => exists_patchable hs
  obtain ⟨r, hdone⟩ := hfails.done
  obtain ⟨halike, hends⟩ := Target.endAlike_of_refill hready hdistinct
    (fun y hy => hboth y (List.mem_append_left _ hy)) hdone contents
  -- neither the repair nor the first run moves a file
  have hrefill := FileTree.alike_refill contents ((x :: rest).map Target.location)
  rw [Registry.apply_of_targets ((Registry.targets_eq (hrefill t) _ root).trans htargets),
    Registry.apply_of_targets
      ((Registry.targets_eq (halike.trans (hrefill t')) _ root).trans htargets)]
  exact hends

/-- A checkout as it was delivered, but for the type inferrer, which is empty. -/
def stalledCheckout : FileTree :=
  checkout FileTree.directoryMode [("RequireTracer.cpp", deliveredGuard),
    ("ConstraintGenerator.cpp", deliveredMatcher), ("TypeInfer.cpp", []),
    ("Linter.cpp", deliveredAnswer)]

/-- In the stalled checkout, every site has its target. -/
theorem targets_stalledCheckout :
    Registry.luau.targets stalledCheckout "/luau" = .ok checkoutTargets := rfl

/-- In the stalled checkout, no file holds both a delivered and a patched region. -/
theorem not_holdsBoth_stalledCheckout : ∀ x ∈ checkoutTargets, ∀ c,
    stalledCheckout.readText x.file = .ok c → ¬ x.site.HoldsBoth c := by
  have hread : ∀ {x : Target} (d : Text),
      stalledCheckout.readFrom [] x.file = .ok (Utf8.encode d) → ¬ x.site.HoldsBoth d →
        ∀ c, stalledCheckout.readText x.file = .ok c → ¬ x.site.HoldsBoth c := by
    intro x d hd hnot c hc
    obtain rfl := Except.ok.inj ((FileTree.readText_of_readFrom hd).symm.trans hc)
    exact hnot
  simp only [checkoutTargets, List.forall_mem_cons]
  exact ⟨hread deliveredGuard rfl (by decide +kernel), hread deliveredMatcher rfl (by decide +kernel),
    hread [] rfl (by decide +kernel), hread deliveredAnswer rfl (by decide +kernel), by simp⟩

/-- There is no plan for the empty file, so a run over the stalled checkout fails. -/
theorem exists_error_stalledCheckout :
    ∃ t' e, Registry.luau.apply "/luau" loadOnly false stalledCheckout = (t', .error e) := by
  have hready := Registry.isReady_of_targets targets_stalledCheckout fun _ hs => exists_patchable hs
  have hplan : (⟨typeInfer, analysisFile "TypeInfer.cpp"⟩ : Target).isPlanned loadOnly stalledCheckout
      = false := by
    have hempty : stalledCheckout.readText (analysisFile "TypeInfer.cpp").path = .ok [] :=
      FileTree.readText_of_readFrom rfl
    simp only [Target.isPlanned, Target.plan, Target.file, hempty]
    decide +kernel
  rw [Registry.apply_of_targets targets_stalledCheckout]
  rcases hrun : Target.applyAll loadOnly false checkoutTargets stalledCheckout with ⟨t', e | r⟩
  · exact ⟨t', e, rfl⟩
  · obtain ⟨hplanned, -⟩ := Target.effect_of_applyAll_eq_ok hready (by decide) hrun
    have hthird := (hplanned ⟨typeInfer, analysisFile "TypeInfer.cpp"⟩ (by simp [checkoutTargets])).1
    rw [hplan] at hthird
    exact absurd hthird (by simp)

/-- The text that is delivered in a file of the library. -/
def deliveredText (l : Location) : Text :=
  if l = analysisFile "RequireTracer.cpp" then deliveredGuard
  else if l = analysisFile "Linter.cpp" then deliveredAnswer
  else deliveredMatcher

/-- Every file of the stalled checkout can be repaired by the text that is delivered in it. -/
theorem exists_plan_deliveredText : ∀ x ∈ checkoutTargets,
    (∃ c, stalledCheckout.readText x.file = .ok c) ∧
      stalledCheckout.isOpenAt x.location.dropLast = true ∧
        ∃ d p, Utf8.encode (deliveredText x.location) = Utf8.encode d ∧
          x.site.plan loadOnly x.file d = .ok p := by
  have hread : ∀ x ∈ checkoutTargets, ∃ c, stalledCheckout.readText x.file = .ok c := by
    have hfile : ∀ {x : Target} (c : Text),
        stalledCheckout.readFrom [] x.file = .ok (Utf8.encode c) →
          ∃ c, stalledCheckout.readText x.file = .ok c :=
      fun c h => ⟨c, FileTree.readText_of_readFrom h⟩
    simp only [checkoutTargets, List.forall_mem_cons]
    exact ⟨hfile deliveredGuard rfl, hfile deliveredMatcher rfl, hfile [] rfl,
      hfile deliveredAnswer rfl, by simp⟩
  have hopen : ∀ x ∈ checkoutTargets, stalledCheckout.isOpenAt x.location.dropLast = true :=
    List.all_eq_true.mp (by decide)
  have hplan : ∀ x ∈ checkoutTargets,
      (x.site.plan loadOnly x.file (deliveredText x.location)).isOk = true := by
    decide +kernel
  intro x hx
  refine ⟨hread x hx, hopen x hx, deliveredText x.location, ?_⟩
  rcases hp : x.site.plan loadOnly x.file (deliveredText x.location) with e | p
  · have hok := hplan x hx
    rw [hp] at hok
    simp [Except.isOk, Except.toBool] at hok
  · exact ⟨p, rfl, rfl⟩

/-- The run over the stalled checkout fails; once the files from there on are as they are delivered,
it ends as if it had not been run before, and succeeds. -/
theorem resumes_stalledCheckout :
    (checkoutTargets.map Target.location).Nodup ∧ ∃ t' e,
      Registry.luau.apply "/luau" loadOnly false stalledCheckout = (t', .error e) ∧
        ∃ done x rest, checkoutTargets = done ++ x :: rest ∧
          Target.FailsAt loadOnly stalledCheckout done x t' e ∧ Target.EndAlike
            (Registry.luau.apply "/luau" loadOnly false (stalledCheckout.refill
              (fun l => Utf8.encode (deliveredText l)) ((x :: rest).map Target.location)))
            (Registry.luau.apply "/luau" loadOnly false (t'.refill
              (fun l => Utf8.encode (deliveredText l)) ((x :: rest).map Target.location))) ∧
          ∃ v r, Registry.luau.apply "/luau" loadOnly false (stalledCheckout.refill
            (fun l => Utf8.encode (deliveredText l)) ((x :: rest).map Target.location))
              = (v, .ok r) := by
  obtain ⟨t', e, hrun⟩ := exists_error_stalledCheckout
  have hdistinct : (checkoutTargets.map Target.location).Nodup := by decide
  obtain ⟨done, x, rest, hsplit, hfails, hends⟩ :=
    resumes_of_apply targets_stalledCheckout hdistinct not_holdsBoth_stalledCheckout hrun
  refine ⟨hdistinct, t', e, hrun, done, x, rest, hsplit, hfails, hends _, ?_⟩
  have hready := Registry.isReady_of_targets targets_stalledCheckout fun _ hs => exists_patchable hs
  have hrefill := FileTree.alike_refill (fun l => Utf8.encode (deliveredText l))
    ((x :: rest).map Target.location) stalledCheckout
  rw [Registry.apply_of_targets
    ((Registry.targets_eq hrefill _ "/luau").trans targets_stalledCheckout)]
  obtain ⟨r, hdone⟩ := hfails.done
  rw [hsplit] at hready hdistinct ⊢
  exact Target.exists_applyAll_of_refill hready hdistinct hdone _
    fun y hy => exists_plan_deliveredText y (by rw [hsplit]; exact List.mem_append_right _ hy)

end Luau

end SitePatch
