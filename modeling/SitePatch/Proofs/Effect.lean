import Mathlib.Data.List.TakeWhile
import Mathlib.Data.Set.Card
import SitePatch.Proofs.Paper

/-! # What a run changes on disk

A real run writes at the targets where an edit is due, one after the other, up to the first target
without a plan. Where it writes, the file keeps its mode and gets a new date; every other entry stays
as it is, but for the dates of directories (`Target.Effect`). Over distinct files, a run has the
result that it has on paper (`Target.exists_effect_of_applyAll`), unless an edit is due in a
directory that is not open: the run ends there (`Target.applyAll_of_isBarred`). Main statement: how a
run ends, and what is changed then (`Luau.ends_of_apply`). -/

namespace SitePatch

/-! ## Changed files -/

namespace FileTree

/-- The bytes of the file at a location, if a file is there. -/
def bytesAt? (t : FileTree) (l : Location) : Option ByteArray :=
  match t.get? l with
  | some (.file f) => some f.content
  | _ => none

/-- **The locations of the files that hold other bytes** in the second tree. -/
def changedFiles (t t' : FileTree) : Set Location := {l | t'.bytesAt? l ≠ t.bytesAt? l}

/-- What is kept holds the same bytes. -/
theorem Kept.bytesAt?_eq {t t' : FileTree} {l : Location} (h : Kept (t.get? l) (t'.get? l)) :
    t'.bytesAt? l = t.bytesAt? l := by
  unfold bytesAt?
  generalize t.get? l = e at h ⊢
  generalize t'.get? l = e' at h ⊢
  cases h <;> rfl

end FileTree

namespace Target

variable {x y : Target} {names : NameSet} {t t' t₁ : FileTree} {c c' : Text} {p : Plan}
  {done targets : List Target}

/-! ## Effects -/

/-- **The target's file `f`, with the text `c`, has become `f'`, with the patched text `c'`.** -/
structure Rewritten (x : Target) (names : NameSet) (t t' : FileTree) (c c' : Text) (f f' : File) :
    Prop where
  read : t.readText x.file = .ok c
  patch : x.site.patch names c = .ok c'
  ne : c' ≠ c
  old : t.get? x.location = some (.file f)
  new : t'.get? x.location = some (.file f')
  content : f'.content = Utf8.encode c'
  mode : f'.mode = f.mode
  dated : t.clock ≤ f'.modified ∧ f'.modified < t'.clock

/-- **What a run over the targets `done` changes**: it rewrites the files of those where an edit is
due, and keeps every other entry. -/
structure Effect (names : NameSet) (done : List Target) (t t' : FileTree) : Prop where
  clock : t.clock ≤ t'.clock
  rewritten : ∀ x ∈ done, x.isDue names t = true → ∃ c c' f f', x.Rewritten names t t' c c' f f'
  kept : ∀ l, (∀ x ∈ done, x.isDue names t = true → x.location ≠ l) →
    FileTree.Kept (t.get? l) (t'.get? l)

/-- Where no edit is due, nothing changes. -/
theorem effect_refl (h : ∀ x ∈ done, x.isDue names t = false) : Effect names done t t where
  clock := Nat.le_refl _
  rewritten x hx hdue := by
    rw [h x hx] at hdue
    exact absurd hdue (by simp)
  kept l _ := .same _

namespace Effect

/-- A run leaves paths and modes as they are. -/
theorem alike (h : Effect names done t t') : t.Alike t' := by
  intro l
  by_cases hl : ∀ x ∈ done, x.isDue names t = true → x.location ≠ l
  · exact (h.kept l hl).sameKind
  · simp only [not_forall, not_not] at hl
    obtain ⟨x, hx, hdue, rfl⟩ := hl
    obtain ⟨c, c', f, f', hw⟩ := h.rewritten x hx hdue
    rw [hw.old, hw.new]
    exact .file hw.mode

/-- A target's text is read as before if its file is not rewritten. -/
theorem readText_eq (h : Effect names done t t') (hx : x.IsReady t)
    (hkept : ∀ y ∈ done, y.isDue names t = true → y.location ≠ x.location) :
    t'.readText x.file = t.readText x.file :=
  FileTree.readText_congr h.alike hx.reaches hx.ne_nil (h.kept _ hkept).readIn_eq

/-- A target's plan is as before if its file is not rewritten. -/
theorem plan_eq (h : Effect names done t t') (hx : x.IsReady t)
    (hkept : ∀ y ∈ done, y.isDue names t = true → y.location ≠ x.location) :
    x.plan names t' = x.plan names t := by
  rw [plan, plan, h.readText_eq hx hkept]

/-- Whether an edit is due at a file that was not rewritten stays the same. -/
theorem isDue_eq (h : Effect names done t t') (hx : x.IsReady t)
    (hkept : ∀ y ∈ done, y.isDue names t = true → y.location ≠ x.location) :
    x.isDue names t' = x.isDue names t := by
  rw [isDue, isDue, h.plan_eq hx hkept]

/-- **A step, and a run over other files behind it, make a run.** -/
theorem cons (h : Effect names [x] t t₁) (h' : Effect names done t₁ t')
    (hready : ∀ y ∈ done, y.IsReady t) (hne : ∀ y ∈ done, y.location ≠ x.location) :
    Effect names (x :: done) t t' := by
  have hkept : ∀ y ∈ done, ∀ z ∈ [x], z.isDue names t = true → z.location ≠ y.location := by
    intro y hy z hz _
    rw [List.mem_singleton.mp hz]
    exact Ne.symm (hne y hy)
  have hdue : ∀ y ∈ done, y.isDue names t₁ = y.isDue names t :=
    fun y hy => h.isDue_eq (hready y hy) (hkept y hy)
  refine ⟨Nat.le_trans h.clock h'.clock, ?_, fun l hl => ?_⟩
  · intro y hy hy'
    rcases List.mem_cons.mp hy with rfl | hy
    · -- the file of the first step is kept by those behind it
      obtain ⟨c, c', f, f', hw⟩ := h.rewritten y (by simp) hy'
      have hnew := h'.kept y.location fun z hz _ => hne z hz
      rw [hw.new] at hnew
      exact ⟨c, c', f, f', hw.read, hw.patch, hw.ne, hw.old, hnew.eq_of_file, hw.content, hw.mode,
        hw.dated.1, Nat.lt_of_lt_of_le hw.dated.2 h'.clock⟩
    · -- the first step keeps the files of those behind it
      obtain ⟨c, c', f, f', hw⟩ := h'.rewritten y hy (by rw [hdue y hy, hy'])
      have hold := h.kept y.location (hkept y hy)
      obtain ⟨f₀, hf₀⟩ : ∃ f₀, t.get? y.location = some (.file f₀) := by
        have hread := hw.read
        rw [h.readText_eq (hready y hy) (hkept y hy)] at hread
        obtain ⟨-, _, -, hin, -⟩ :=
          FileTree.exists_of_readText (hready y hy).reaches (hready y hy).ne_nil hread
        obtain ⟨f₀, hf₀, -⟩ := FileTree.readIn_eq_ok_iff.mp hin
        exact ⟨f₀, hf₀⟩
      rw [hf₀] at hold
      obtain rfl := Entry.file.inj (Option.some.inj (hw.old.symm.trans hold.eq_of_file))
      exact ⟨c, c', f, f', (h.readText_eq (hready y hy) (hkept y hy)) ▸ hw.read, hw.patch, hw.ne, hf₀,
        hw.new, hw.content, hw.mode, Nat.le_trans h.clock hw.dated.1, hw.dated.2⟩
  · refine (h.kept l fun z hz hz' => ?_).trans (h'.kept l fun z hz hz' => ?_)
    · rw [List.mem_singleton.mp hz] at hz' ⊢
      exact hl x (by simp) hz'
    · rw [hdue z hz] at hz'
      exact hl z (List.mem_cons_of_mem _ hz) hz'

end Effect

/-! ## Real steps -/

/-- **What a real step does where an edit is due**: it rewrites the file, if its directory is open. -/
theorem exists_apply_of_needsChange (hx : x.IsReady t) (hplan : x.plan names t = .ok (c, p))
    (hdue : p.needsChange = true) :
    ∃ c' f, x.site.patch names c = .ok c' ∧ c' ≠ c ∧ t.get? x.location = some (.file f) ∧
      x.apply names false t = if t.isOpenAt x.location.dropLast then
          ((t.touch x.location.dropLast).writeAt x.location (Utf8.encode c') f.mode,
            (x.apply names true t).2)
        else (t, .error (.edit (.io .permissionDenied))) := by
  obtain ⟨k, m, hs⟩ := hx.patchable
  obtain ⟨hread, hsite⟩ := plan_eq_ok_iff.mp hplan
  obtain ⟨edit, hedit⟩ := Plan.needsChange_eq_true_iff.mp hdue
  obtain ⟨c', hafter, hpaper⟩ := apply_paper hplan
  have hne := hs.ne_of_needsChange hsite hdue hafter
  have hfile : edit.file = x.file := Site.file_of_plan hsite hedit
  obtain ⟨hresolve, _, -, hin, -⟩ := FileTree.exists_of_readText hx.reaches hx.ne_nil hread
  obtain ⟨f, hf, -⟩ := FileTree.readIn_eq_ok_iff.mp hin
  have hfileAt := FileTree.fileAt_eq_ok_iff.mpr ⟨_, hresolve, hf⟩
  refine ⟨c', f, (hs.patch_of_plan hsite).trans hafter, hne, hf, ?_⟩
  have hstep := Edit.applyIn_of_ne (hfile ▸ hread) (Plan.applyTo_edit hedit hafter) hne
  rw [hfile, file] at hstep
  rw [hpaper, isDue_of_plan hplan, hdue, apply, hplan]
  simp only [hafter, write, hedit, Bool.false_eq_true, if_false, if_true]
  by_cases hopen : t.isOpenAt x.location.dropLast = true
  · rw [hstep, (FileTree.replaceFile_path_eq_ok_iff hx.reaches hx.ne_nil).mpr ⟨f, hfileAt, hopen, rfl⟩,
      if_pos hopen]
  · rw [hstep, FileTree.replaceFile_path_of_not_isOpenAt hx.reaches hx.ne_nil hfileAt
      (by simpa using hopen), if_neg hopen]

/-- **Whether an edit is due in a directory that is not open.** -/
def isBarred (names : NameSet) (t : FileTree) (x : Target) : Bool :=
  x.isDue names t && !t.isOpenAt x.location.dropLast

/-- In an open directory, no target is barred. -/
theorem isBarred_of_isOpenAt (h : t.isOpenAt x.location.dropLast = true) :
    x.isBarred names t = false := by
  rw [isBarred, h, Bool.not_true, Bool.and_false]

/-- A step that is barred fails, and changes nothing. -/
theorem apply_of_isBarred (hx : x.IsReady t) (h : x.isBarred names t = true) :
    x.apply names false t = (t, .error (.edit (.io .permissionDenied))) := by
  rw [isBarred, Bool.and_eq_true, Bool.not_eq_true'] at h
  obtain ⟨hdue, hclosed⟩ := h
  rcases hplan : x.plan names t with e | ⟨c, p⟩
  · rw [isDue, hplan] at hdue
    simp at hdue
  · rw [isDue_of_plan hplan] at hdue
    obtain ⟨c', f, -, -, -, hstep⟩ := exists_apply_of_needsChange hx hplan hdue
    rw [hstep, hclosed, if_neg (by simp)]

/-- **A real step that is not barred** has the result that it has on paper, and its effect. -/
theorem exists_effect_of_apply (hx : x.IsReady t) (hplanned : x.isPlanned names t = true)
    (h : x.isBarred names t = false) :
    ∃ t₁, x.apply names false t = (t₁, (x.apply names true t).2) ∧ Effect names [x] t t₁ := by
  obtain ⟨c, p, hplan⟩ := exists_of_isPlanned hplanned
  by_cases hdue : p.needsChange = true
  · obtain ⟨c', f, hpatch, hne, hf, hstep⟩ := exists_apply_of_needsChange hx hplan hdue
    have hopen : t.isOpenAt x.location.dropLast = true := by
      rw [isBarred, isDue_of_plan hplan, hdue] at h
      simpa using h
    rw [if_pos hopen] at hstep
    have hnew := FileTree.get?_writeAt_touch_self t x.location.dropLast (Utf8.encode c') f.mode
      hx.ne_nil
    have hclock : t.clock < (t.touch x.location.dropLast).clock + 1 := by
      rw [FileTree.clock_touch]
      exact t.clock.lt_succ_self
    refine ⟨_, hstep, Nat.le_of_lt hclock, ?_, ?_⟩
    · intro y hy _
      rw [List.mem_singleton.mp hy]
      exact ⟨c, c', f, _, (plan_eq_ok_iff.mp hplan).1, hpatch, hne, hf, hnew, rfl, rfl,
        Nat.le_refl _, hclock⟩
    · intro l hl
      refine FileTree.kept_writeAt_touch _ (Ne.symm (hl x (by simp) ?_))
      rw [isDue_of_plan hplan, hdue]
  · rw [Bool.not_eq_true] at hdue
    refine ⟨t, ?_, effect_refl fun y hy => ?_⟩
    · -- without an edit, a real step is the step on paper
      have hnone : p.edit = none := by
        cases hedit : p.edit with
        | none => rfl
        | some edit => simp [Plan.needsChange, hedit] at hdue
      obtain ⟨c', hafter, hpaper⟩ := apply_paper hplan
      rw [hpaper, isDue_of_plan hplan, hdue, apply, hplan]
      simp only [hafter, write, hnone, Bool.false_eq_true, if_false]
    · rw [List.mem_singleton.mp hy, isDue_of_plan hplan, hdue]

/-- A step that succeeds has the result that it has on paper, where it changes nothing. -/
theorem IsReady.apply_paper_of_apply {dryRun : Bool} {e : SiteReport} {n : Nat} (hx : x.IsReady t)
    (h : x.apply names dryRun t = (t', .ok (e, n))) : x.apply names true t = (t, .ok (e, n)) := by
  rcases hplan : x.plan names t with err | ⟨c, p⟩
  · rw [apply_of_plan_eq_error hplan] at h
    simp at h
  obtain ⟨c', -, hpaper⟩ := apply_paper hplan
  cases dryRun with
  | true =>
    obtain ⟨rfl, hresult⟩ := Prod.mk.inj (hpaper.symm.trans h)
    exact h
  | false =>
    -- a real step that is barred would have failed
    have hopen : x.isBarred names t = false := by
      by_contra hbarred
      rw [Bool.not_eq_false] at hbarred
      rw [apply_of_isBarred hx hbarred] at h
      simp at h
    obtain ⟨t₁, hstep, -⟩ := exists_effect_of_apply hx (isPlanned_of_plan hplan) hopen
    have hresult := congrArg Prod.snd (hstep.symm.trans h)
    rw [hpaper] at hresult ⊢
    exact Prod.ext rfl hresult

/-! ## Real runs -/

/-- A run that comes to a target with a plan goes on behind it. -/
theorem planned_cons_of_isPlanned (h : x.isPlanned names t = true) :
    planned names t (x :: targets) = x :: planned names t targets := by
  rw [planned, List.takeWhile_cons, if_pos h, planned]

/-- A run that comes to a target without a plan ends there. -/
theorem planned_cons_of_not (h : x.isPlanned names t = false) :
    planned names t (x :: targets) = [] := by
  rw [planned, List.takeWhile_cons, h]
  rfl

/-- **Behind a step, a run comes to the same targets as before**, and finds them as they were. -/
theorem congr_of_effect (h : Effect names [x] t t₁) (hready : ∀ y ∈ targets, y.IsReady t)
    (hne : ∀ y ∈ targets, y.location ≠ x.location) :
    (∀ y ∈ targets, y.plan names t₁ = y.plan names t ∧
        y.isBarred names t₁ = y.isBarred names t) ∧
      planned names t₁ targets = planned names t targets := by
  have hkept : ∀ y ∈ targets, ∀ z ∈ [x], z.isDue names t = true → z.location ≠ y.location := by
    intro y hy z hz _
    rw [List.mem_singleton.mp hz]
    exact Ne.symm (hne y hy)
  have hplan : ∀ y ∈ targets, y.plan names t₁ = y.plan names t :=
    fun y hy => h.plan_eq (hready y hy) (hkept y hy)
  refine ⟨fun y hy => ⟨hplan y hy, ?_⟩, ?_⟩
  · rw [isBarred, isBarred, h.isDue_eq (hready y hy) (hkept y hy), h.alike.isOpenAt_eq]
  · have hsame : ∀ y ∈ targets, y.isPlanned names t₁ = y.isPlanned names t := by
      intro y hy
      rw [isPlanned, isPlanned, hplan y hy]
    clear hready hne hkept hplan
    induction targets with
    | nil => rfl
    | cons y targets ih =>
      have hrest := ih fun z hz => hsame z (List.mem_cons_of_mem _ hz)
      rw [planned, planned] at hrest ⊢
      rw [List.takeWhile_cons, List.takeWhile_cons, hrest, hsame y (by simp)]

/-- **The first step of a real run** over distinct files, where its target has a plan and is not
barred: its result is the one that it has on paper, and the run comes to the targets behind it as they
were. -/
theorem exists_first_step (hready : ∀ y ∈ x :: targets, y.IsReady t)
    (hdistinct : ((x :: targets).map Target.location).Nodup)
    (hplanned : x.isPlanned names t = true) (hopen : x.isBarred names t = false) :
    ∃ t₁ e n, x.apply names false t = (t₁, .ok (e, n)) ∧ x.apply names true t = (t, .ok (e, n)) ∧
      Effect names [x] t t₁ ∧
        (∀ y ∈ targets, y.IsReady t₁ ∧ y.plan names t₁ = y.plan names t ∧
          y.isBarred names t₁ = y.isBarred names t) ∧
          planned names t₁ targets = planned names t targets := by
  obtain ⟨hx, hrest⟩ := List.forall_mem_cons.mp hready
  obtain ⟨t₁, hstep, heffect⟩ := exists_effect_of_apply hx hplanned hopen
  obtain ⟨hcongr, hsame⟩ := congr_of_effect heffect hrest (ne_location_of_nodup hdistinct).1
  obtain ⟨c, p, hplan⟩ := exists_of_isPlanned hplanned
  obtain ⟨c', -, hpaper⟩ := apply_paper hplan
  rw [hpaper] at hstep
  exact ⟨t₁, _, _, hstep, hpaper, heffect,
    fun y hy => ⟨(hrest y hy).of_alike heffect.alike, hcongr y hy⟩, hsame⟩

/-- **A real run over distinct files has the result that it has on paper**, and its effect, if it
comes to no target that is barred. -/
theorem exists_effect_of_applyAll (hready : ∀ x ∈ targets, x.IsReady t)
    (hdistinct : (targets.map Target.location).Nodup)
    (hopen : ∀ x ∈ planned names t targets, x.isBarred names t = false) :
    ∃ t', applyAll names false targets t = (t', (applyAll names true targets t).2) ∧
      Effect names (planned names t targets) t t' := by
  induction targets generalizing t with
  | nil => exact ⟨t, rfl, effect_refl (by simp [planned])⟩
  | cons x targets ih =>
    rcases hplan : x.plan names t with e | ⟨c, p⟩
    · rw [applyAll_cons_of_error (apply_of_plan_eq_error hplan false),
        applyAll_cons_of_error (apply_of_plan_eq_error hplan true),
        planned_cons_of_not (not_isPlanned_of_plan hplan)]
      exact ⟨t, rfl, effect_refl (by simp)⟩
    · have hplanned := isPlanned_of_plan hplan
      rw [planned_cons_of_isPlanned hplanned, List.forall_mem_cons] at hopen
      obtain ⟨hne, hdistinct'⟩ := ne_location_of_nodup hdistinct
      obtain ⟨t₁, e, n, hstep, hpaper, heffect, hrest, hsame⟩ :=
        exists_first_step hready hdistinct hplanned hopen.1
      -- the run goes on in the tree that the step leaves
      have hopen' : ∀ y ∈ planned names t₁ targets, y.isBarred names t₁ = false := by
        rw [hsame]
        intro y hy
        rw [(hrest y (List.takeWhile_subset _ hy)).2.2, hopen.2 y hy]
      obtain ⟨t', hrun, heffect'⟩ := ih (fun y hy => (hrest y hy).1) hdistinct' hopen'
      rw [hsame] at heffect'
      refine ⟨t', ?_, planned_cons_of_isPlanned hplanned ▸ heffect.cons heffect'
        (fun y hy => hready y (List.mem_cons_of_mem _ (List.takeWhile_subset _ hy)))
        fun y hy => hne y (List.takeWhile_subset _ hy)⟩
      rw [applyAll_cons_of_ok hstep, applyAll_cons_of_ok hpaper, hrun,
        applyAll_paper_congr fun y hy => (hrest y hy).2.1]

/-- **A run over distinct files ends at the first target that is barred.** -/
theorem applyAll_of_isBarred (hready : ∀ x ∈ targets, x.IsReady t)
    (hdistinct : (targets.map Target.location).Nodup)
    (hbarred : ∃ x ∈ planned names t targets, x.isBarred names t = true) :
    (applyAll names false targets t).2 = .error (.edit (.io .permissionDenied)) := by
  induction targets generalizing t with
  | nil => simp [planned] at hbarred
  | cons x targets ih =>
    rcases hplan : x.plan names t with e | ⟨c, p⟩
    · rw [planned_cons_of_not (not_isPlanned_of_plan hplan)] at hbarred
      simp at hbarred
    · have hplanned := isPlanned_of_plan hplan
      by_cases hfirst : x.isBarred names t = true
      · rw [applyAll_cons_of_error (apply_of_isBarred (hready x List.mem_cons_self) hfirst)]
      · rw [Bool.not_eq_true] at hfirst
        rw [planned_cons_of_isPlanned hplanned, List.exists_mem_cons_iff, hfirst] at hbarred
        obtain ⟨y, hy, hlater⟩ := hbarred.resolve_left (by simp)
        obtain ⟨t₁, e, n, hstep, -, -, hrest, hsame⟩ :=
          exists_first_step hready hdistinct hplanned hfirst
        have hlater' : y.isBarred names t₁ = true := by
          rw [(hrest y (List.takeWhile_subset _ hy)).2.2, hlater]
        rw [applyAll_cons_of_ok hstep, ih (fun y hy => (hrest y hy).1)
          (ne_location_of_nodup hdistinct).2 ⟨y, hsame ▸ hy, hlater'⟩]
        rfl

/-! ## What is changed and what is reported -/

/-- **The files where an edit is due.** -/
def dueFiles (names : NameSet) (t : FileTree) (targets : List Target) : Set Location :=
  {l | ∃ x ∈ targets, x.isDue names t = true ∧ x.location = l}

/-- Targets where an edit is due are as many as their files exactly if no two have one file. -/
theorem countP_eq_ncard_iff :
    (targets.countP fun x => x.isDue names t) = (dueFiles names t targets).ncard ↔
      ((targets.filter fun x => x.isDue names t).map Target.location).Nodup := by
  have hset : dueFiles names t targets
      = ((targets.filter fun x => x.isDue names t).map Target.location).toFinset := by
    ext l
    simp [dueFiles, and_assoc]
  have hlength : (targets.countP fun x => x.isDue names t)
      = ((targets.filter fun x => x.isDue names t).map Target.location).length := by
    rw [List.length_map, List.countP_eq_length_filter]
  rw [hset, Set.ncard_coe_finset, hlength, eq_comm]
  exact Multiset.toFinset_card_eq_card_iff_nodup

/-- The file that is rewritten is the one that was read. -/
theorem Rewritten.exists_of_read {f f' : File} (hw : x.Rewritten names t t' c c' f f')
    (hx : x.IsReady t) :
    t.resolve x.file = .ok x.location ∧ f.isReadable = true ∧ Utf8.decode f.content = .ok c := by
  obtain ⟨hresolve, _, -, hin, hdecode⟩ := FileTree.exists_of_readText hx.reaches hx.ne_nil hw.read
  obtain ⟨f₀, hf₀, hreadable, rfl⟩ := FileTree.readIn_eq_ok_iff.mp hin
  obtain rfl := Entry.file.inj (Option.some.inj (hw.old.symm.trans hf₀))
  exact ⟨hresolve, hreadable, hdecode⟩

/-- A file that is rewritten holds other bytes. -/
theorem Rewritten.bytesAt?_ne {f f' : File} (hw : x.Rewritten names t t' c c' f f')
    (hx : x.IsReady t) : t'.bytesAt? x.location ≠ t.bytesAt? x.location := by
  obtain ⟨-, -, hdecode⟩ := hw.exists_of_read hx
  unfold FileTree.bytesAt?
  rw [hw.old, hw.new]
  dsimp only
  intro hsame
  rw [← Option.some.inj hsame, hw.content, Utf8.decode_encode] at hdecode
  exact hw.ne (Except.ok.inj hdecode)

namespace Effect

variable (h : Effect names done t t') (hready : ∀ x ∈ done, x.IsReady t)
  (hdistinct : (done.map Target.location).Nodup)

include h hready

/-- **The files that a run changes** are those where an edit is due. -/
theorem changedFiles_eq : t.changedFiles t' = dueFiles names t done := by
  ext l
  constructor
  · intro hl
    by_contra hnone
    refine hl (FileTree.Kept.bytesAt?_eq (h.kept l fun x hx hdue hsame => ?_))
    exact hnone ⟨x, hx, hdue, hsame⟩
  · rintro ⟨x, hx, hdue, rfl⟩
    obtain ⟨c, c', f, f', hw⟩ := h.rewritten x hx hdue
    exact hw.bytesAt?_ne (hready x hx)

include hdistinct

/-- Over distinct files, a run changes as many files as there are targets where an edit is due. -/
theorem ncard_changedFiles :
    (t.changedFiles t').ncard = done.countP fun x => x.isDue names t := by
  rw [h.changedFiles_eq hready, eq_comm, countP_eq_ncard_iff]
  exact hdistinct.sublist (List.filter_sublist.map _)

/-- **After a run, the files hold what the reports say.** -/
theorem readText_of_reports {r : SiteReport} (hx : x ∈ done) (hr : Reports names t x r) :
    x.site.patch names r.before = .ok r.after ∧ t'.readText x.file = .ok r.after := by
  obtain ⟨p, hsite, hafter⟩ := hr.after
  obtain ⟨k, m, hs⟩ := (hready x hx).patchable
  have hpatch := (hs.patch_of_plan hsite).trans hafter
  refine ⟨hpatch, ?_⟩
  have hdue := isDue_of_plan (plan_eq_ok_iff.mpr ⟨hr.read, hsite⟩)
  by_cases hchange : p.needsChange = true
  · obtain ⟨c, c', f, f', hw⟩ := h.rewritten x hx (hdue.trans hchange)
    obtain rfl := Except.ok.inj (hr.read.symm.trans hw.read)
    obtain rfl := Except.ok.inj (hpatch.symm.trans hw.patch)
    obtain ⟨hresolve, hreadable, -⟩ := hw.exists_of_read (hready x hx)
    have hreadable' : f'.isReadable = true := by
      unfold Attributes.isReadable at hreadable ⊢
      rw [hw.mode]
      exact hreadable
    exact FileTree.readText_of_readFrom (FileTree.read_eq_ok_iff.mpr ⟨x.location,
      (h.alike.resolve_eq x.file).trans hresolve,
      FileTree.readIn_eq_ok_iff.mpr ⟨f', hw.new, hreadable', hw.content⟩⟩)
  · rw [Bool.not_eq_true] at hchange
    rw [Plan.applyTo_of_not_needsChange hchange, Except.ok.injEq] at hafter
    rw [h.readText_eq (hready x hx) fun y hy hdue' hsame => ?_, hr.read, hafter]
    -- no other target has this file
    obtain rfl := List.inj_on_of_nodup_map hdistinct hy hx hsame
    rw [hdue, hchange] at hdue'
    exact absurd hdue' (by simp)

end Effect

end Target

/-! ## Ends of runs -/

/-- Where sites have no targets, the first that leads to no file has the error. -/
theorem Root.exists_of_targets {r : Root} {t : FileTree} {sites : List Site} {e : PatchError}
    (h : r.targets t sites = .error e) :
    ∃ before s after e', sites = before ++ s :: after ∧
      (∀ s' ∈ before, ∃ l, r.locate t s'.path = .ok l) ∧ r.locate t s.path = .error e' ∧
        e = e'.atSite s.id := by
  induction sites with
  | nil => simp [targets] at h
  | cons s sites ih =>
    unfold targets at h
    rcases hlocate : r.locate t s.path with e' | l
    · simp only [hlocate, Except.error.injEq] at h
      exact ⟨[], s, sites, e', rfl, by simp, hlocate, h.symm⟩
    · rcases hrest : r.targets t sites with e' | rest
      · simp only [hlocate, hrest, Except.error.injEq] at h
        obtain ⟨before, s', after, e'', rfl, hbefore, hs', he⟩ := ih (h ▸ hrest)
        exact ⟨s :: before, s', after, e'', rfl, List.forall_mem_cons.mpr ⟨⟨l, hlocate⟩, hbefore⟩,
          hs', he⟩
      · simp [hlocate, hrest] at h

namespace Registry

variable {registry : Registry} {root : Text} {names : NameSet} {t : FileTree} {e : PatchError}

/-- **The run has no targets**: the root is no directory, or the first site that leads to no file
below it has the error. -/
inductive Unresolved (registry : Registry) (root : Text) (t : FileTree) : PatchError → Prop
  | root {e : RootError} (h : Root.ofPath t root = .error e) : Unresolved registry root t (e.atSite [])
  | site {r : Root} {before after : List Site} {s : Site} {e : RootError}
      (hroot : Root.ofPath t root = .ok r) (hsites : registry.sites = before ++ s :: after)
      (hbefore : ∀ s' ∈ before, ∃ l, r.locate t s'.path = .ok l)
      (h : r.locate t s.path = .error e) : Unresolved registry root t (e.atSite s.id)

/-- **Why a run has no targets**: its root or one of its sites is not resolved. -/
theorem unresolved_of_targets (h : registry.targets t root = .error e) :
    registry.Unresolved root t e := by
  unfold targets at h
  rcases hroot : Root.ofPath t root with e' | r
  · simp only [hroot, Except.error.injEq] at h
    exact h ▸ .root hroot
  · simp only [hroot] at h
    obtain ⟨before, s, after, e', hsites, hbefore, hs, rfl⟩ := Root.exists_of_targets h
    exact .site hroot hsites hbefore hs

/-- **How a run ends, and what it has changed then.** -/
inductive Ends (registry : Registry) (root : Text) (names : NameSet) (t : FileTree) :
    FileTree × Except PatchError RunReport → Prop
  /-- A run without targets changes nothing. -/
  | unresolved {e : PatchError} (h : registry.Unresolved root t e) :
    Ends registry root names t (t, .error e)
  /-- A run that comes to a target without a plan has patched the targets before it. -/
  | aborted {done rest : List Target} {x : Target} {e : PatchError} {t' : FileTree}
      (htargets : registry.targets t root = .ok (done ++ x :: rest))
      (hdone : ∀ y ∈ done, y.isPlanned names t = true) (hfails : x.plan names t = .error e)
      (heffect : Target.Effect names done t t') : Ends registry root names t (t', .error e)
  /-- A run with a plan for every target has patched them all. -/
  | completed {targets : List Target} {t' : FileTree} {r : RunReport}
      (htargets : registry.targets t root = .ok targets)
      (hplanned : ∀ x ∈ targets, x.isPlanned names t = true)
      (heffect : Target.Effect names targets t t')
      (hreports : List.Forall₂ (fun x s => Target.Reports names t x s ∧
        x.site.patch names s.before = .ok s.after ∧ t'.readText x.file = .ok s.after) targets r.sites)
      (hchanged : r.changed = (t.changedFiles t').ncard) : Ends registry root names t (t', .ok r)

/-- A run over distinct files that comes to no target that is barred ends in one of these ways. -/
theorem ends_of_patchable (hpatchable : ∀ s ∈ registry.sites, ∃ k m, s.Patchable k m)
    (hdistinct : ∀ targets, registry.targets t root = .ok targets →
      (targets.map Target.location).Nodup)
    (hopen : ∀ targets, registry.targets t root = .ok targets →
      ∀ x ∈ Target.planned names t targets, x.isBarred names t = false) :
    registry.Ends root names t (registry.apply root names false t) := by
  rcases htargets : registry.targets t root with e | targets
  · rw [apply_of_targets_eq_error htargets]
    exact .unresolved (unresolved_of_targets htargets)
  have hready := isReady_of_targets htargets hpatchable
  have hnodup := hdistinct targets htargets
  obtain ⟨t', hrun, heffect⟩ :=
    Target.exists_effect_of_applyAll hready hnodup (hopen targets htargets)
  rw [apply_of_targets htargets, hrun]
  rcases Target.applyAll_paper_cases names targets t with
    ⟨done, x, rest, e, rfl, hdone, hfails, hpaper⟩ | ⟨hplanned, r, hpaper, hreports, hcount⟩
  · rw [hpaper]
    refine .aborted htargets hdone hfails ?_
    have hstop : Target.planned names t (done ++ x :: rest) = done := by
      rw [Target.planned, List.takeWhile_append_of_pos hdone, ← Target.planned,
        Target.planned_cons_of_not (Target.not_isPlanned_of_plan hfails), List.append_nil]
    rwa [hstop] at heffect
  · rw [hpaper]
    have hall : Target.planned names t targets = targets :=
      List.takeWhile_eq_self_iff.mpr hplanned
    rw [hall] at heffect
    refine .completed htargets hplanned heffect ?_ ?_
    · refine ((List.forall₂_and_left _ _).mpr ⟨fun x hx => hx, hreports⟩).imp ?_
      rintro x s ⟨hx, hs⟩
      exact ⟨hs, heffect.readText_of_reports hready hnodup hx hs⟩
    · rw [hcount, heffect.ncard_changedFiles hready hnodup]

end Registry

/-! ## Luau -/

namespace Luau

/-- **How a run over sites of Luau's Analysis library ends, and what it has changed then**: nothing,
if some site leads to no file; the files of the targets before the first without a plan; or those of
all targets. The sites may be any of the library's, in any files and order, as long as they lead to
distinct files, and no edit is due in a directory that is not open. -/
theorem ends_of_apply {registry : Registry} {root : Text} {names : NameSet} {t : FileTree}
    (hplaced : ∀ s ∈ registry.sites, IsPlaced s)
    (hdistinct : ∀ targets, registry.targets t root = .ok targets →
      (targets.map Target.location).Nodup)
    (hopen : ∀ targets, registry.targets t root = .ok targets →
      ∀ x ∈ Target.planned names t targets, x.isBarred names t = false) :
    registry.Ends root names t (registry.apply root names false t) :=
  Registry.ends_of_patchable (fun s hs => (hplaced s hs).exists_patchable) hdistinct hopen

/-- A delivered answer of the linter. -/
def deliveredAnswer : Text := "    return glob->name == \"require\";\n"

/-- The location of a file of the library in a checkout. -/
def analysisFile (name : Text) : Location := ["luau", "Analysis", "src", name]

/-- A checkout of some files of the library, in a directory of the mode. -/
def checkout (mode : Nat) (files : List (Text × Text)) : FileTree where
  entries :=
    (["luau"], .directory ⟨FileTree.directoryMode, 0⟩)
      :: (["luau", "Analysis"], .directory ⟨FileTree.directoryMode, 0⟩)
      :: (["luau", "Analysis", "src"], .directory ⟨mode, 0⟩)
      :: files.map fun file => (analysisFile file.1, .file ⟨⟨0o644, 0⟩, Utf8.encode file.2⟩)
  clock := 1

/-- A checkout whose linter is as it was delivered, and whose tracer is empty. -/
def brokenCheckout : FileTree :=
  checkout FileTree.directoryMode [("Linter.cpp", deliveredAnswer), ("RequireTracer.cpp", [])]

/-- The registry of the linter and the tracer. -/
def linterAndTracer : Registry := ⟨[linter, tracer], by decide⟩

/-- The targets of a run over the linter and the tracer. -/
def brokenTargets : List Target :=
  [⟨linter, analysisFile "Linter.cpp"⟩, ⟨tracer, analysisFile "RequireTracer.cpp"⟩]

/-- In the broken checkout, both sites have targets. -/
theorem targets_brokenCheckout :
    linterAndTracer.targets brokenCheckout "/luau" = .ok brokenTargets := rfl

/-- In the broken checkout, an edit is due at the linter, and there is no plan for the tracer. -/
theorem isDue_brokenCheckout :
    brokenTargets.map (fun x => (x.isPlanned loadOnly brokenCheckout, x.isDue loadOnly brokenCheckout))
      = [(true, true), (false, false)] := by
  have hlinter : brokenCheckout.readText (analysisFile "Linter.cpp").path = .ok deliveredAnswer :=
    FileTree.readText_of_readFrom rfl
  have htracer : brokenCheckout.readText (analysisFile "RequireTracer.cpp").path = .ok [] :=
    FileTree.readText_of_readFrom rfl
  simp only [brokenTargets, List.map_cons, List.map_nil, Target.isPlanned, Target.isDue, Target.plan,
    Target.file, hlinter, htracer]
  decide +kernel

/-- The linter and the tracer are sites of the library. -/
theorem isPlaced_linterAndTracer : ∀ s ∈ linterAndTracer.sites, IsPlaced s := by
  have hsites : ∀ s ∈ [linter, tracer], s ∈ sites := by decide
  exact fun s hs => isPlaced_of_mem (hsites s hs)

/-- The directory of the broken checkout is open, so nothing is barred. -/
theorem isBarred_brokenTargets : ∀ x ∈ brokenTargets, x.isBarred loadOnly brokenCheckout = false := by
  have hdirectory : ∀ x ∈ brokenTargets, brokenCheckout.isOpenAt x.location.dropLast = true :=
    List.all_eq_true.mp (by decide)
  exact fun x hx => Target.isBarred_of_isOpenAt (hdirectory x hx)

/-- In the broken checkout, an edit is due at the linter, and there is no plan for the tracer, where
the run ends. -/
theorem ends_brokenCheckout :
    linterAndTracer.targets brokenCheckout "/luau" = .ok brokenTargets ∧
      brokenTargets.map (fun x =>
        (x.isPlanned loadOnly brokenCheckout, x.isDue loadOnly brokenCheckout))
          = [(true, true), (false, false)] ∧
        linterAndTracer.Ends "/luau" loadOnly brokenCheckout
          (linterAndTracer.apply "/luau" loadOnly false brokenCheckout) := by
  refine ⟨targets_brokenCheckout, isDue_brokenCheckout, ends_of_apply isPlaced_linterAndTracer ?_ ?_⟩
  · intro targets htargets
    obtain rfl := Except.ok.inj (targets_brokenCheckout.symm.trans htargets)
    decide
  · intro targets htargets x hx
    obtain rfl := Except.ok.inj (targets_brokenCheckout.symm.trans htargets)
    exact isBarred_brokenTargets x (List.takeWhile_subset _ hx)

end Luau

end SitePatch
