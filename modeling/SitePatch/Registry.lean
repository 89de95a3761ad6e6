import SitePatch.Luau
import SitePatch.PatchError

/-! # Registries — the sites of one run

A `Registry` is a list of sites of which no two name the same path; they are patched in the order of
the list. Main statement: a list of sites is refused exactly when a path occurs twice in it
(`Registry.ofSites_eq_ok_iff`). -/

namespace SitePatch

/-- **The sites of a run**, whose paths are pairwise distinct. -/
structure Registry where
  sites : List Site
  nodup_paths : (sites.map Site.path).Nodup

namespace Registry

/-- The first path of the list that already stands before it, or stands among `seen`. -/
def firstRepeated? (seen : List Text) : List Text → Option Text
  | [] => none
  | p :: ps => if p ∈ seen then some p else firstRepeated? (p :: seen) ps

/-- No path is repeated exactly if the paths are distinct and none was seen before. -/
theorem firstRepeated?_eq_none_iff {seen paths : List Text} :
    firstRepeated? seen paths = none ↔ paths.Nodup ∧ ∀ p ∈ paths, p ∉ seen := by
  induction paths generalizing seen with
  | nil => simp [firstRepeated?]
  | cons p ps ih =>
    by_cases h : p ∈ seen
    · simp [firstRepeated?, h]
    · simp only [firstRepeated?, h, if_false, ih, List.mem_cons, not_or, List.nodup_cons]
      constructor
      · rintro ⟨hn, hp⟩
        refine ⟨⟨fun hm => (hp p hm).1 rfl, hn⟩, ?_⟩
        rintro q (rfl | hq)
        · exact h
        · exact (hp q hq).2
      · rintro ⟨⟨hm, hn⟩, hp⟩
        refine ⟨hn, fun q hq => ⟨?_, hp q (.inr hq)⟩⟩
        rintro rfl
        exact hm hq

/-- The registry of the sites, unless two of them name the same path. -/
def ofSites (sites : List Site) : Except PatchError Registry :=
  match h : firstRepeated? [] (sites.map Site.path) with
  | some path => .error (.duplicateTarget path)
  | none => .ok ⟨sites, (firstRepeated?_eq_none_iff.mp h).1⟩

/-- A list of sites becomes a registry exactly when its paths are pairwise distinct. -/
theorem ofSites_eq_ok_iff {sites : List Site} {r : Registry} :
    ofSites sites = .ok r ↔ r.sites = sites ∧ (sites.map Site.path).Nodup := by
  rw [ofSites]
  split
  · rename_i path h
    simp only [reduceCtorEq, false_iff, not_and]
    intro _ hn
    have hnone : firstRepeated? [] (sites.map Site.path) = none :=
      firstRepeated?_eq_none_iff.mpr ⟨hn, by simp⟩
    rw [hnone] at h
    simp at h
  · rename_i h
    have hn := (firstRepeated?_eq_none_iff.mp h).1
    cases r with
    | mk rs _ => simp [hn, eq_comm]

/-- The registry of the sites of Luau's Analysis library. -/
def luau : Registry := ⟨Luau.sites, by decide⟩

/-- The site with the id. -/
def get? (r : Registry) (id : Text) : Option Site := r.sites.find? fun s => s.id == id

/-- The number of sites. -/
def size (r : Registry) : Nat := r.sites.length

end Registry

end SitePatch
