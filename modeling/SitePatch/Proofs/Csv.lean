import SitePatch.Config
import SitePatch.Proofs.Names
import SitePatch.Proofs.Split

/-! # Names on one line

A set of names is written on one line, with commas between the names (`NameSet.display`), and read
from such a line (`NameSet.ofCsv`). What is read depends only on what each entry stands for
(`NameSet.ofEntries_eq_foldlM`), so the base name and the spaces of the printed line do no harm; and
entries behind others are read as they are alone, but for names that are there already
(`NameSet.ofEntries_append`). Main statement: lines and lists of entries say the same
(`NameSet.ofCsv_spec`). -/

namespace SitePatch

/-- A space in front of an entry changes nothing. -/
theorem Name.ofEntry_space (raw : Text) : Name.ofEntry (' ' :: raw) = Name.ofEntry raw := by
  have htrim : Text.trim (' ' :: raw) = raw.trim := rfl
  simp only [Name.ofEntry, htrim]

namespace NameSet

variable {a b s : NameSet} {raws : List Text} {n : Name}

/-! ## One entry after the other -/

/-- The set with what one more entry stands for. -/
def add (s : NameSet) : Except NameError (Option Name) → Except NameError NameSet
  | .ok none => .ok s
  | .ok (some n) => .ok (s.insert n)
  | .error e => .error e

/-- **What is read from entries depends on what each of them stands for only.** -/
theorem ofEntries_eq_foldlM (raws : List Text) :
    ofEntries raws = (raws.map Name.ofEntry).foldlM add empty := by
  rw [List.foldlM_map]
  rfl

/-- A name that is there is not inserted. -/
theorem insert_of_mem (h : n ∈ s.names) : s.insert n = s := dif_pos h

/-- A name goes to the end of a union as it goes to the end of the second set. -/
theorem union_insert (a b : NameSet) (n : Name) : a.union (b.insert n) = (a.union b).insert n := by
  by_cases hn : n ∈ b.names
  · -- the name is in the union, too
    have hunion : n ∈ (a.union b).names := by
      have hmem : n.text ∈ (a.union b).toList :=
        mem_toList_union.mpr (.inr (List.mem_map_of_mem hn))
      obtain ⟨m, hm, htext⟩ := List.mem_map.mp hmem
      exact Name.text_injective htext ▸ hm
    rw [insert_of_mem hn, insert_of_mem hunion]
  · rw [insert, dif_neg hn, union, List.foldl_append]
    rfl

/-- What an entry adds to a union is what it adds to the second set. -/
theorem add_union (a b : NameSet) (entry : Except NameError (Option Name)) :
    (a.union b).add entry = (b.add entry).map a.union := by
  rcases entry with e | _ | n
  · rfl
  · rfl
  · show Except.ok ((a.union b).insert n) = .ok (a.union (b.insert n))
    rw [union_insert]

/-- **Entries that are read behind a set** add to it what they are read to alone. -/
theorem foldlM_add (a : NameSet) (entries : List (Except NameError (Option Name))) :
    entries.foldlM add a = (entries.foldlM add empty).map a.union := by
  induction entries using List.reverseRecOn with
  | nil =>
    show Except.ok a = .ok (a.union empty)
    rfl
  | append_singleton entries entry ih =>
    rw [List.foldlM_append, List.foldlM_append, ih]
    simp only [List.foldlM_cons, List.foldlM_nil, bind_pure]
    cases entries.foldlM add empty with
    | error e => rfl
    | ok b => exact a.add_union b entry

/-- **Entries behind others**: the first refusal decides; if there is none, the sets are united. -/
theorem ofEntries_append (raws raws' : List Text) :
    ofEntries (raws ++ raws') =
      match ofEntries raws, ofEntries raws' with
      | .error e, _ => .error e
      | .ok _, .error e => .error e
      | .ok a, .ok b => .ok (a.union b) := by
  rw [ofEntries_eq_foldlM, List.map_append, List.foldlM_append, ofEntries_eq_foldlM raws,
    ofEntries_eq_foldlM raws']
  cases (raws.map Name.ofEntry).foldlM add empty with
  | error e => rfl
  | ok a =>
    show List.foldlM add a _ = _
    rw [foldlM_add]
    cases (raws'.map Name.ofEntry).foldlM add empty with
    | error e => rfl
    | ok b => rfl

/-- The names of two sets, one behind the other, are read as their union. -/
theorem ofEntries_toList_append (a b : NameSet) :
    ofEntries (a.toList ++ b.toList) = .ok (a.union b) := by
  rw [ofEntries_append, ofEntries_toList, ofEntries_toList]

/-! ## The printed line -/

/-- A line with a space behind each comma has pieces that start with a space, but for the first. -/
theorem intercalate_comma_space (first : Text) (rest : List Text) :
    List.intercalate ", ".toList (first :: rest)
      = List.intercalate [','] (first :: rest.map (' ' :: ·)) := by
  induction rest generalizing first with
  | nil => rfl
  | cons second rest ih =>
    rw [List.map_cons, List.intercalate_cons_cons, List.intercalate_cons_cons, ih]
    cases rest with
    | nil => simp
    | cons third rest =>
      rw [List.map_cons, List.intercalate_cons_cons, List.intercalate_cons_cons]
      simp

/-- The entries of the printed line: the base name, and every name behind a space. -/
theorem split_display (s : NameSet) :
    s.display.split ',' = baseName :: s.toList.map (' ' :: ·) := by
  have hcomma : ∀ entry ∈ baseName :: s.toList.map (' ' :: ·), ',' ∉ entry := by
    refine List.forall_mem_cons.mpr ⟨by decide, ?_⟩
    intro entry hentry hmem
    obtain ⟨name, hname, rfl⟩ := List.mem_map.mp hentry
    rcases List.mem_cons.mp hmem with h | h
    · exact absurd h (by decide)
    · exact absurd (isWord_of_mem hname _ h) (by decide)
  rw [display, withBase, intercalate_comma_space, Text.split_intercalate (by simp) hcomma]

/-- **The printed line is read as the set.** -/
theorem ofCsv_display (s : NameSet) : ofCsv s.display = .ok s := by
  have hnames : ofEntries (s.toList.map (' ' :: ·)) = ofEntries s.toList := by
    rw [ofEntries_eq_foldlM, ofEntries_eq_foldlM, List.map_map]
    exact congrArg (List.foldlM add empty) (List.map_congr_left fun raw _ => Name.ofEntry_space raw)
  have hbase : ofEntries [baseName] = .ok empty := rfl
  rw [ofCsv, split_display, ← List.singleton_append, ofEntries_append, hbase, hnames,
    ofEntries_toList]
  simp

/-! ## Lines and lists -/

/-- A line cut at a comma is read as the two lines, one after the other. -/
theorem ofCsv_append (x y : Text) :
    ofCsv (x ++ ',' :: y) =
      match ofCsv x, ofCsv y with
      | .error e, _ => .error e
      | .ok _, .error e => .error e
      | .ok a, .ok b => .ok (a.union b) := by
  rw [ofCsv, Text.split_append_separator, ofEntries_append]
  rfl

/-- Entries without commas are read from a line as they are from a list. -/
theorem toNameSet_csv_intercalate {entries : List Text} (h : ∀ entry ∈ entries, ',' ∉ entry) :
    (FunctionList.csv (List.intercalate [','] entries)).toNameSet
      = (FunctionList.list entries).toNameSet := by
  by_cases hne : entries = []
  · -- the line of no entries is one entry, which is empty
    rw [hne]
    rfl
  · show ofEntries (Text.split ',' (List.intercalate [','] entries)) = ofEntries entries
    rw [Text.split_intercalate hne h]

/-- **Lines and lists say the same.** The printed line of a set is read as the set. A line that is
cut at a comma is refused for the first part that is refused, with its refusal; if none is, it is
read as the names of the first part followed by those of the second. A configuration that lists
entries without commas means what it means with the entries on one line, be it a set or a refusal.
-/
theorem ofCsv_spec :
    (∀ s : NameSet, ofCsv s.display = .ok s) ∧
    (∀ x y : Text, ofCsv (x ++ ',' :: y) =
      match ofCsv x, ofCsv y with
      | .error e, _ => .error e
      | .ok _, .error e => .error e
      | .ok a, .ok b => ofEntries (a.toList ++ b.toList)) ∧
    ∀ entries : List Text, (∀ entry ∈ entries, ',' ∉ entry) →
      (FunctionList.list entries).toNameSet
        = (FunctionList.csv (List.intercalate [','] entries)).toNameSet := by
  refine ⟨ofCsv_display, fun x y => ?_, fun entries h => (toNameSet_csv_intercalate h).symm⟩
  rw [ofCsv_append]
  rcases ofCsv x with e | a
  · rfl
  · rcases ofCsv y with e | b
    · rfl
    · exact (ofEntries_toList_append a b).symm

/-- Entries with white space around a name, a repetition, and two that are no names. -/
def mixedEntries : List Text := ["\u2003load", "", "load ", "not ok", "1st"]

/-- The list and the line are refused alike, for the first entry that is no name; and the printed
line of two names, cut at its last comma, is read as both. -/
theorem ofCsv_mixedEntries :
    (∀ entry ∈ mixedEntries, ',' ∉ entry) ∧
      (FunctionList.csv "\u2003load,,load ,not ok,1st").toNameSet
        = .error (.invalidIdentifier "not ok") ∧
      ofCsv ("require, fetch" ++ ',' :: " load") = .ok Luau.fetchAndLoad := by
  have hcomma : ∀ entry ∈ mixedEntries, ',' ∉ entry := by decide
  obtain ⟨hprinted, -, hlist⟩ := ofCsv_spec
  have hrefused : (FunctionList.list mixedEntries).toNameSet
      = .error (.invalidIdentifier "not ok") := by
    decide +kernel
  exact ⟨hcomma, (hlist mixedEntries hcomma).symm.trans hrefused, hprinted Luau.fetchAndLoad⟩

end NameSet

end SitePatch
