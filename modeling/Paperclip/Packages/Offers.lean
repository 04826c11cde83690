import Paperclip.Packages.Release
import Paperclip.Semver.Order

/-!
# What an index offers of an app

* `versionsOf`: the entries of an app, newest first; `newestStable`, `newestAny`, `exact`.
* `newestStable_some`, `newestAny_some`: these are the greatest versions, of the stable ones and of
  all.
-/

namespace Paperclip.Packages

/-! ## Entries -/

namespace CatalogIndex

variable (index : CatalogIndex) (app : AppId)

/-- Every entry for one app, newest version first. -/
def versionsOf : List IndexEntry :=
  (index.entries.filter (·.app = app)).insertionSort fun a b => b.version.le a.version

/-- The newest stable version of an app. -/
def newestStable : Option IndexEntry := (index.versionsOf app).find? (·.version.pre = [])

/-- The newest version of an app, prereleases included. -/
def newestAny : Option IndexEntry := (index.versionsOf app).head?

/-- The entry for one exact version. -/
def exact (version : Version) : Option IndexEntry :=
  index.entries.find? fun entry => entry.app = app && entry.version = version

/-- The index lists this version of the app. -/
def Lists (version : Version) : Prop :=
  ∃ entry ∈ index.entries, entry.app = app ∧ entry.version = version

variable {index app}

theorem mem_versionsOf {entry : IndexEntry} :
    entry ∈ index.versionsOf app ↔ entry ∈ index.entries ∧ entry.app = app := by
  rw [versionsOf, List.mem_insertionSort, List.mem_filter, decide_eq_true_iff]

theorem versionsOf_sorted :
    (index.versionsOf app).Pairwise fun a b => b.version.le a.version :=
  haveI : Std.Total fun a b : IndexEntry => b.version.le a.version :=
    ⟨fun a b => Version.le_total b.version a.version⟩
  haveI : IsTrans IndexEntry fun a b => b.version.le a.version :=
    ⟨fun _ _ _ hab hbc => Version.le_trans hbc hab⟩
  List.pairwise_insertionSort _ _

/-- The first of a list in falling order that passes is the greatest that passes. -/
theorem le_of_find?_sorted {entries : List IndexEntry} {p : IndexEntry → Bool} {newest : IndexEntry}
    (hsorted : entries.Pairwise fun a b => b.version.le a.version)
    (h : entries.find? p = some newest) {entry : IndexEntry} (he : entry ∈ entries)
    (hp : p entry = true) : entry.version.le newest.version := by
  induction entries with
  | nil => cases he
  | cons first rest ih =>
    rw [List.pairwise_cons] at hsorted
    by_cases hfirst : p first = true
    · rw [List.find?_cons_of_pos hfirst, Option.some.injEq] at h
      subst h
      rcases List.mem_cons.1 he with rfl | he
      · exact Version.le_refl _
      · exact hsorted.1 entry he
    · rw [List.find?_cons_of_neg hfirst] at h
      rcases List.mem_cons.1 he with rfl | he
      · exact absurd hp hfirst
      · exact ih hsorted.2 h he

/-- The newest stable version is a stable one, and no other is greater. -/
theorem newestStable_some {newest : IndexEntry} (h : index.newestStable app = some newest) :
    newest ∈ index.entries ∧ newest.app = app ∧ newest.version.pre = [] ∧
      ∀ version, index.Lists app version → version.pre = [] → version.le newest.version := by
  obtain ⟨hmem, happ⟩ := mem_versionsOf.1 (List.mem_of_find?_eq_some h)
  refine ⟨hmem, happ, by simpa using List.find?_some h, ?_⟩
  rintro version ⟨entry, he, hentry, rfl⟩ hpre
  exact le_of_find?_sorted versionsOf_sorted h (mem_versionsOf.2 ⟨he, hentry⟩)
    (decide_eq_true hpre)

theorem newestStable_none (h : index.newestStable app = none) {version : Version}
    (hlists : index.Lists app version) : version.pre ≠ [] := by
  obtain ⟨entry, he, hentry, rfl⟩ := hlists
  exact of_decide_eq_false (Bool.eq_false_iff.2 (List.find?_eq_none.1 h entry
    (mem_versionsOf.2 ⟨he, hentry⟩)))

/-- The newest version is listed, and no other is greater. -/
theorem newestAny_some {newest : IndexEntry} (h : index.newestAny app = some newest) :
    newest ∈ index.entries ∧ newest.app = app ∧
      ∀ version, index.Lists app version → version.le newest.version := by
  obtain ⟨hmem, happ⟩ := mem_versionsOf.1 (List.mem_of_head? h)
  refine ⟨hmem, happ, ?_⟩
  rintro version ⟨entry, he, hentry, rfl⟩
  have hfind : (index.versionsOf app).find? (fun _ => true) = some newest := by
    rw [newestAny, List.head?_eq_some_iff] at h
    obtain ⟨rest, h⟩ := h
    rw [h, List.find?_cons_of_pos rfl]
  exact le_of_find?_sorted versionsOf_sorted hfind (mem_versionsOf.2 ⟨he, hentry⟩) rfl

theorem newestAny_none (h : index.newestAny app = none) {version : Version} :
    ¬ index.Lists app version := by
  rintro ⟨entry, he, hentry, -⟩
  have hmem := mem_versionsOf.2 ⟨he, hentry⟩
  rw [List.head?_eq_none_iff.1 h] at hmem
  cases hmem

end CatalogIndex

/-! ## Names -/

/-- The last segment of an id. -/
def AppId.leaf (app : AppId) : String :=
  String.ofList ((app.text.toList.splitOn '.').getLast?.getD app.text.toList)

end Paperclip.Packages
