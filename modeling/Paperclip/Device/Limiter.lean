import Mathlib.Logic.Relation
import Mathlib.Order.MinMax
import Paperclip.Device.Tablet

/-!
# The limiter

The limiter of `systemd` counts starts when they are issued, and the check of a session counts them by
their stamps. Sessions follow one another on one tablet, and each may be killed.

* `Limited`: no interval shorter than the window has more starts than the limiter lets through.
* `Tablet.Careful`: the check of a session still counts every start that matters to its own starts.
* `starts_limited`: careful sessions are limited.
* `late_starts_not_limited`: a stamp is older than its start, and is forgotten before it.
-/

namespace Paperclip.Device

open Crash StartBudget

/-- No interval shorter than the window has more starts than the limiter lets through. -/
def Limited (starts : List Start) : Prop :=
  ∀ a b, b < a + START_LIMIT_WINDOW * second →
    (starts.filter fun s => a ≤ s.issued ∧ s.issued ≤ b).length ≤ START_LIMIT_BURST

/-- One session takes the tablet from `x` to `z`. It may be killed. -/
def Tablet.Sits {W : Type} (t : Tablet W) (x z : W × Diary) : Prop :=
  ∃ within released, z ∈ (sitting within released).points t.noted x

/-- Each earlier start is still counted by the check, or comes at least a window before each of the
starts `later`. -/
def Accounted (checked : ℕ) (earlier later : List Start) : Prop :=
  ∀ s ∈ earlier, counts (checked / second) s.stamp = true ∨
    ∀ s' ∈ later, s.issued + START_LIMIT_WINDOW * second ≤ s'.issued

instance (checked : ℕ) (earlier later : List Start) : Decidable (Accounted checked earlier later) :=
  inferInstanceAs (Decidable (∀ s ∈ earlier, _))

/-- The record could be read and written, and the check of the session accounts for its starts. -/
def Tablet.Careful {W : Type} (t : Tablet W) (x z : W × Diary) : Prop :=
  z.2.missed = false ∧
    Accounted (t.checked x.1) x.2.starts (z.2.starts.drop x.2.starts.length)

instance {W : Type} (t : Tablet W) (x z : W × Diary) : Decidable (t.Careful x z) :=
  inferInstanceAs (Decidable (_ ∧ _))

/-! ## Runs of sessions -/

/-- A session whose check counts what matters adds no more than fits beside it. -/
theorem Limited.append {checked : ℕ} {earlier new : List Start} (h : Limited earlier)
    (hlive : live checked (earlier.map (·.stamp)) < START_BUDGET) (hnew : new.length ≤ 2)
    (hacc : Accounted checked earlier new) : Limited (earlier ++ new) := by
  intro a b hab
  rw [List.filter_append, List.length_append]
  by_cases hin : ∃ s ∈ new, a ≤ s.issued ∧ s.issued ≤ b
  · obtain ⟨s, hs, ha, hb⟩ := hin
    -- Whatever is in the interval with a start of the session was counted by its check.
    have hcounted : (earlier.filter fun s => a ≤ s.issued ∧ s.issued ≤ b).length ≤
        live checked (earlier.map (·.stamp)) := by
      rw [live, List.filter_map, List.length_map, ← List.countP_eq_length_filter,
        ← List.countP_eq_length_filter]
      refine List.countP_mono_left fun s' hs' hw => ?_
      simp only [decide_eq_true_eq] at hw
      rcases hacc s' hs' with hc | hfar
      · exact hc
      · have := hfar s hs
        omega
    have hle := List.length_filter_le (fun s : Start => a ≤ s.issued ∧ s.issued ≤ b) new
    simp only [START_BUDGET, START_LIMIT_BURST] at hlive ⊢
    omega
  · have hnone : (new.filter fun s => a ≤ s.issued ∧ s.issued ≤ b) = [] :=
      List.filter_eq_nil_iff.2 fun s hs hw => hin ⟨s, hs, of_decide_eq_true hw⟩
    rw [hnone]
    exact h a b hab

variable {W : Type} {t : Tablet W} {x z : W × Diary} {w : W}

/-- A careful session keeps the starts limited. -/
theorem Tablet.limited_step (hx : t.Current x) (h : Limited x.2.starts) (hs : t.Sits x z)
    (hc : t.Careful x z) : t.Current z ∧ Limited z.2.starts := by
  obtain ⟨within, released, hz⟩ := hs
  have hp := (t.sitting_safe hx within released).points hz
  refine ⟨hp.current, ?_⟩
  rcases hp.starts with heq | ⟨⟨new, heq, hnew⟩, hadm⟩
  · rwa [heq]
  · have hacc := hc.2
    rw [heq, List.drop_left] at hacc
    rw [heq]
    exact h.append (hadm hc.1) hnew hacc

/-- However many sessions follow one another, no interval shorter than the window has more starts than
the limiter lets through, as long as each is careful. -/
theorem starts_limited
    (h : Relation.ReflTransGen (fun x z => t.Sits x z ∧ t.Careful x z) (w, .new) z) :
    Limited z.2.starts := by
  suffices hboth : t.Current z ∧ Limited z.2.starts from hboth.2
  induction h with
  | refl => exact ⟨⟨Nat.zero_le _, fun _ _ _ => Nat.zero_le _⟩, fun _ _ _ => Nat.zero_le _⟩
  | tail _ hstep ih => exact t.limited_step ih.1 ih.2 hstep.1 hstep.2

/-! ## A stamp that is too old -/

/-- A tablet on which everything works. Two of its first starts come back only when they are tried
again. -/
structure Script where
  time : ℕ
  record : Option String
  active : Bool
  /-- When the next sessions look at the clock. -/
  arrivals : List ℕ
  /-- How long the panel takes to come free. -/
  frees : List ℕ
  /-- Whether the next waits find stock back. -/
  backs : List Bool

namespace Script

/-- The last time that the clock can tell. -/
def LATEST : ℕ := 2 ^ 64 * second - 1

def step : (op : DeviceOp) → Script → op.Ret × Script
  | .health, s => (⟨s.active, [], true, some 0⟩, s)
  | .preflight, s | .acquireWake, s | .arm _, s | .disarm, s | .resetFailed, s | .start, s => (.ok (), s)
  | .releaseWake, s | .dropWatchdog, s => ((), s)
  | .captureLocks, s => (.ok ⟨none, false⟩, s)
  | .isActive, s => (.ok s.active, s)
  | .stop, s => (.ok (), { s with active := false })
  | .waitActive timeout, s =>
    let back := s.backs.headD true
    (.ok back, { s with
      active := back
      backs := s.backs.tail
      time := if back then s.time else s.time + timeout * second })
  | .readStarts, s => (s.record, s)
  | .writeStarts text, s => (.ok (), { s with record := some text })
  | .writeRegistry _, s | .removeRegistry, s => (.ok (), s)
  | .readRegistry, s => (none, s)
  | .epdExists, s => (false, s)
  | .looks, s => (0, { s with time := s.time + s.frees.headD 0, frees := s.frees.tail })
  | .now, s =>
    let time := max s.time (s.arrivals.headD 0)
    (min time LATEST, { s with time, arrivals := s.arrivals.tail })

def tablet : Tablet Script where
  handler := step
  time s := min s.time LATEST
  record s := s.record
  passes op s := by
    refine min_le_min_right LATEST ?_
    cases op <;> first | exact le_rfl | exact Nat.le_add_right _ _ | exact le_max_left _ _ | skip
    simp only [step]
    split_ifs
    · exact le_rfl
    · exact Nat.le_add_right _ _
  fits s := (Nat.div_le_div_right (min_le_right _ _)).trans_lt (by decide)
  tells s := ⟨min_le_min_right LATEST (le_max_left _ _), le_rfl⟩
  writes _ _ _ := rfl
  keeps op _ h := by cases op <;> first | rfl | exact absurd rfl (h _)

/-- After some sessions, of which the third begins at `third`. -/
def sessions (third : ℕ) : ℕ → Script × Diary
  | 0 => (⟨0, none, true, [0, 0, 31 * second, 31 * second, third, third],
      [5 * second, 5 * second, 0], [false, true, false, true, true]⟩, .new)
  | n + 1 => ((sitting 60 false).run tablet.noted (sessions third n)).2

theorem sits (third n : ℕ) : tablet.Sits (sessions third n) (sessions third (n + 1)) :=
  ⟨60, false, Prog.run_mem_points _ _ _⟩

end Script

/-- Sessions that are careful: the third comes a window after the last start of the others. -/
theorem rested_sessions_limited : Limited (Script.sessions (700 * second) 3).2.starts :=
  starts_limited (.tail (.tail (.tail .refl ⟨Script.sits _ 0, by decide +kernel⟩)
    ⟨Script.sits _ 1, by decide +kernel⟩) ⟨Script.sits _ 2, by decide +kernel⟩)

/-- The check of the third session no longer counts stamps whose starts are still in the window: the
starts come at 5, 30, 36, 61 and 600 seconds. -/
theorem late_starts_not_limited : ¬ ∀ (W : Type) (t : Tablet W) (w : W) (z : W × Diary),
    Relation.ReflTransGen t.Sits (w, .new) z → Limited z.2.starts := by
  intro h
  have hruns : Relation.ReflTransGen Script.tablet.Sits (Script.sessions (600 * second) 0)
      (Script.sessions (600 * second) 3) :=
    .tail (.tail (.tail .refl (Script.sits _ 0)) (Script.sits _ 1)) (Script.sits _ 2)
  have := h Script Script.tablet _ _ hruns (5 * second) (600 * second) (by decide)
  exact absurd this (by decide +kernel)

end Paperclip.Device
