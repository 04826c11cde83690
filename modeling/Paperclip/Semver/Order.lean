import Mathlib.Data.List.TakeWhile
import Paperclip.Semver

/-!
# The order of versions is linear

Each comparison that `Version.compare` is put together from is one of the standard ones, on keys.

* `compare_trans`, `compare_lawful`: the order is transitive, and its ties are equal versions.
* `le_total`, `le_trans`, `le_antisymm`, `not_le`: the same of `le` and `lt`.
-/

namespace Paperclip.Version

open Std

/-! ## Identifiers -/

/-- Whether an identifier is a number. -/
def numeric (text : String) : Bool := text.toList.all Char.isDigit

/-- The digits of a number from the first that is not zero. -/
def significant (text : String) : List Char := text.toList.dropWhile (· == '0')

/-- Words come after numbers; then the number of significant digits, the digits or the word, and the
number of all digits decide. -/
def identifierOrder : String → String → Ordering :=
  compareLex (compareOn fun text => !numeric text) <|
    compareLex (compareOn fun text => if numeric text then (significant text).length else 0) <|
      compareLex
        (compareOn fun text => if numeric text then String.ofList (significant text) else text)
        (compareOn fun text => if numeric text then text.length else 0)

theorem compareIdentifier_eq : compareIdentifier = identifierOrder := by
  funext a b
  have ha : a.toList.all Char.isDigit = numeric a := rfl
  have hb : b.toList.all Char.isDigit = numeric b := rfl
  simp only [compareIdentifier, ha, hb, identifierOrder, compareLex, compareOn]
  cases hna : numeric a <;> cases hnb : numeric b
  · simp
  · simp [show Ord.compare true false = .gt from rfl]
  · simp [show Ord.compare false true = .lt from rfl]
  · simp [significant, Ordering.then_assoc]

instance : TransCmp compareIdentifier :=
  compareIdentifier_eq ▸ inferInstanceAs (TransCmp (compareLex _ _))

/-- A number is its significant digits, after zeros. -/
theorem toList_eq_zeros (text : String) : text.toList =
    List.replicate (text.length - (significant text).length) '0' ++ significant text := by
  have hsplit := List.takeWhile_append_dropWhile (p := (· == '0')) (l := text.toList)
  have hlength := congrArg List.length hsplit
  rw [List.length_append, String.length_toList] at hlength
  have hzeros : text.toList.takeWhile (· == '0') =
      List.replicate (text.length - (significant text).length) '0' := by
    refine List.eq_replicate_iff.2 ⟨?_, fun c hc => ?_⟩
    · rw [significant]
      omega
    · exact beq_iff_eq.1 (List.mem_takeWhile_imp (p := (· == '0')) hc)
  rw [← hzeros, significant, hsplit]

theorem eq_of_identifierOrder {a b : String} (h : identifierOrder a b = .eq) : a = b := by
  simp only [identifierOrder, compareLex_eq_eq, compareOn, LawfulEqOrd.compare_eq_iff_eq] at h
  obtain ⟨hclass, hdigits, htext, hlength⟩ := h
  have hclass : numeric a = numeric b := Bool.not_inj hclass
  cases hna : numeric a with
  | false => simpa [hna, ← hclass] using htext
  | true =>
    simp only [← hclass, hna, if_true] at hdigits htext hlength
    rw [← String.toList_inj, toList_eq_zeros a, toList_eq_zeros b, hlength, hdigits,
      String.ofList_injective htext]

instance : LawfulEqCmp compareIdentifier where
  compare_self := ReflCmp.compare_self
  eq_of_compare h := eq_of_identifierOrder (compareIdentifier_eq ▸ h)

/-! ## Lists of identifiers -/

theorem compareIdentifiers_eq : compareIdentifiers = List.compareLex compareIdentifier := by
  funext as bs
  induction as generalizing bs with
  | nil => cases bs <;> rfl
  | cons a as ih =>
    cases bs with
    | nil => rfl
    | cons b bs => rw [compareIdentifiers, List.compareLex_cons_cons, ih]

instance : TransCmp compareIdentifiers :=
  compareIdentifiers_eq ▸ inferInstanceAs (TransCmp (List.compareLex _))

instance : LawfulEqCmp compareIdentifiers :=
  compareIdentifiers_eq ▸ inferInstanceAs (LawfulEqCmp (List.compareLex _))

/-- A release comes after its pre-releases. -/
theorem comparePre_eq : comparePre = compareLex (compareOn List.isEmpty) compareIdentifiers := by
  funext as bs
  cases as <;> cases bs <;> rfl

instance : TransCmp comparePre := comparePre_eq ▸ inferInstanceAs (TransCmp (compareLex _ _))

instance : LawfulEqCmp comparePre where
  compare_self := ReflCmp.compare_self
  eq_of_compare h := by
    rw [comparePre_eq, compareLex_eq_eq] at h
    exact LawfulEqCmp.eq_of_compare h.2

/-! ## Versions -/

/-- Part by part. -/
theorem compare_eq : compare =
    compareLex (compareLex (compareLex (compareLex (compareOn major) (compareOn minor))
      (compareOn patch)) fun v w => comparePre v.pre w.pre)
        fun v w => compareIdentifiers v.build w.build := rfl

instance compare_trans : TransCmp compare := by
  have hpre : TransCmp fun v w : Version => comparePre v.pre w.pre :=
    { eq_swap := OrientedCmp.eq_swap, isLE_trans := TransCmp.isLE_trans }
  have hbuild : TransCmp fun v w : Version => compareIdentifiers v.build w.build :=
    { eq_swap := OrientedCmp.eq_swap, isLE_trans := TransCmp.isLE_trans }
  rw [compare_eq]
  infer_instance

instance compare_lawful : LawfulEqCmp compare where
  compare_self := ReflCmp.compare_self
  eq_of_compare {v w} h := by
    simp only [compare_eq, compareLex_eq_eq, compareOn, LawfulEqCmp.compare_eq_iff_eq] at h
    obtain ⟨⟨⟨⟨hmajor, hminor⟩, hpatch⟩, hpre⟩, hbuild⟩ := h
    cases v
    cases w
    simp_all

variable {u v w : Version}

theorem le_iff : v.le w ↔ (v.compare w).isLE := by
  unfold le
  cases v.compare w <;> decide

theorem not_le : ¬ v.le w ↔ w.lt v := by
  rw [le, not_not, lt]
  exact OrientedCmp.gt_iff_lt

theorem le_refl (v : Version) : v.le v := le_iff.2 ReflCmp.isLE_rfl

theorem le_trans (huv : u.le v) (hvw : v.le w) : u.le w :=
  le_iff.2 (TransCmp.isLE_trans (le_iff.1 huv) (le_iff.1 hvw))

theorem le_of_lt (h : v.lt w) : v.le w := by
  rw [le, h]
  exact fun h => (by cases h)

theorem le_total (v w : Version) : v.le w ∨ w.le v :=
  (em (v.le w)).imp_right fun h => le_of_lt (not_le.1 h)

theorem le_antisymm (hvw : v.le w) (hwv : w.le v) : v = w :=
  LawfulEqCmp.eq_of_compare (OrientedCmp.isLE_antisymm (le_iff.1 hvw) (le_iff.1 hwv))

theorem lt_irrefl (v : Version) : ¬ v.lt v := fun h => not_le.2 h (le_refl v)

end Paperclip.Version
