import Paperclip.Packages.Fields
import Paperclip.Updater.World

/-!
# The verdict on a candidate

What `watch` sees, look by look, and when its verdict can be trusted.

* `Sight`: what there is to see: the unit, and the status file, which outlives the process that wrote
  it. `Sight.observe`: what is seen of it.
* `lookAt`: the worlds in which `watch` looks, if it gets there: `Reached`.
* `watch_ends`: it reports health just if it gets to a look that claims to be ready.
* `verdict_sound_iff`: when the report is right. `ready_then_gone`: when it is not.
-/

namespace Paperclip.Updater

open Crash Files Packages

/-! ## What there is to see -/

/-- What the status file holds. No line of it says which release's supervisor wrote it. -/
structure Status where
  release : Version
  text : String

/-- What is there to see of a session. -/
structure Sight where
  mainPid : Option ℕ
  isActive : Bool
  activeState : Option String
  status : Option Status

/-- One field out of the status file. -/
def statusField (status : String) (key : String) : Option String :=
  (status.toList.splitOn '\n').findSome? fun line =>
    let name := line.takeWhile (· ≠ '=')
    match line.dropWhile (· ≠ '=') with
    | [] => none
    | _ :: value =>
      if trim name = key.toList then some (String.ofList (trim value)) else none

/-- The rung of a name. -/
def Rung.parse (text : String) : Option Rung := LADDER.find? fun rung => rung.label = text

def STATUS_FIELD : String := "ready"

/-- One look at the supervisor. -/
def Sight.observe (sight : Sight) : Observation :=
  let alive := sight.mainPid.isSome && (sight.isActive || sight.activeState = some "activating")
  match sight.status with
  | none => ⟨alive, none, none, ""⟩
  | some status =>
    { alive
      reached := (statusField status.text STATUS_FIELD).bind Rung.parse
      protocol := (statusField status.text "protocol").bind parseProtocol
      note := (statusField status.text "ready_note").getD "" }

/-- A supervisor of the release is there, and has climbed the whole ladder. -/
def Sight.ReadyFor (sight : Sight) (release : Version) : Prop :=
  sight.observe.alive = true ∧ sight.observe.reached = some .ready ∧
    ∃ status, sight.status = some status ∧ status.release = release

/-- The session as it is seen. -/
def Session.seeing (s : Session) (sight : ℕ → Sight) : Session :=
  { s with observe := fun tick => (sight tick).observe }

/-! ## The looks of a watch -/

section

variable (s : Session) (budget : Budget) (w : World)

/-- The world of a look, of a watch that begins in `w` and gets that far. -/
def lookAt : ℕ → World
  | 0 => (SessionOp.exec s w .now).2
  | n + 1 =>
    let seen := (SessionOp.exec s (lookAt n) .observe).2
    (SessionOp.exec s (SessionOp.exec s seen .now).2 (.sleep budget.poll)).2

/-- What is seen at a look. -/
def seen (n : ℕ) : Observation := s.observe (lookAt s budget w n).tick

/-- The clock, once it is read after a look. -/
def reading (n : ℕ) : ℕ := (SessionOp.exec s (lookAt s budget w n) .observe).2.clock

/-- The session is gone after it was there. -/
def Lost (n : ℕ) : Prop :=
  (seen s budget w n).alive = false ∧ ∃ i < n, (seen s budget w i).alive = true

/-- No look before shows the session dead, or the time over. -/
def Reached (n : ℕ) : Prop :=
  ∀ i < n, ¬ Lost s budget w i ∧ reading s budget w i < w.clock + budget.deadline

/-- The first look at which the status claims that the session is ready. -/
def FirstClaim (n : ℕ) : Prop :=
  (seen s budget w n).reached = some .ready ∧ ∀ i < n, (seen s budget w i).reached ≠ some .ready

end

section

variable {s : Session} {budget : Budget} {w : World} {n : ℕ}

theorem reading_eq : reading s budget w n =
    (lookAt s budget w n).clock + s.lag (lookAt s budget w n).tick := rfl

theorem lookAt_succ_tick : (lookAt s budget w (n + 1)).tick = (lookAt s budget w n).tick + 3 := rfl

/-- Each look is later than the one before. -/
theorem reading_lt_clock : reading s budget w n < (lookAt s budget w (n + 1)).clock := by
  show _ < reading s budget w n + s.lag _ + s.lag _ + max budget.poll 1
  have := Nat.le_max_right budget.poll 1
  omega

theorem le_clock : w.clock + n ≤ (lookAt s budget w n).clock := by
  induction n with
  | zero => exact Nat.le_add_right _ _
  | succ n ih =>
    have := @reading_lt_clock s budget w n
    have := @reading_eq s budget w n
    omega

theorem tick_strictMono {m : ℕ} (h : m < n) :
    (lookAt s budget w m).tick + 3 ≤ (lookAt s budget w n).tick := by
  induction n with
  | zero => omega
  | succ n ih =>
    rw [lookAt_succ_tick]
    rcases Nat.lt_succ_iff_lt_or_eq.1 h with h | rfl
    · have := ih h
      omega
    · exact Nat.le_refl _

/-- The best rung after a look. -/
def bestOf (best : Rung) (reached : Option Rung) : Rung :=
  match reached with
  | some reached => if best.lt reached then reached else best
  | none => best

/-- The best rung is the last one just when the last one is claimed. -/
theorem bestOf_ready {best : Rung} (hbest : best ≠ .ready) (reached : Option Rung) :
    bestOf best reached = .ready ↔ reached = some .ready := by
  cases reached with
  | none => simp [bestOf, hbest]
  | some reached =>
    revert hbest
    cases best <;> cases reached <;> decide

/-- One pass of the watch, at a look. -/
theorem run_watchLoop_succ (started fuel : ℕ) (best : Rung) (note : String) (seenAlive : Bool) :
    ∃ (note' : String) (gone late : HealthReport), gone.healthy = false ∧ late.healthy = false ∧
      (watchLoop budget started (fuel + 1) best note seenAlive).run (handle s) (lookAt s budget w n) =
        (let looked := (SessionOp.exec s (SessionOp.exec s (lookAt s budget w n) .observe).2 .now).2
        let best := bestOf best (seen s budget w n).reached
        let seenAlive := seenAlive || (seen s budget w n).alive
        let elapsed := reading s budget w n - started
        if best = .ready then (.ok ⟨best, true, false, elapsed, note'⟩, looked)
        else if seenAlive && !(seen s budget w n).alive then (.ok gone, looked)
        else if budget.deadline ≤ elapsed then (.ok late, looked)
        else (watchLoop budget started fuel best note' seenAlive).run (handle s)
          (lookAt s budget w (n + 1))) := by
  let note' := if (seen s budget w n).note ≠ "" then (seen s budget w n).note else note
  let best' := bestOf best (seen s budget w n).reached
  let elapsed := reading s budget w n - started
  refine ⟨note', ⟨best', false, true, elapsed,
    if note' = "" then "the supervisor exited before reaching `ready`" else note'⟩,
    ⟨best', false, !(seen s budget w n).alive, elapsed,
    if note' = "" then s!"deadline of {wholeSeconds budget.deadline}s expired" else note'⟩, rfl, rfl, ?_⟩
  rw [watchLoop]
  show Prog.run (handle s) (if best' = .ready then _ else _) _ = if best' = .ready then _ else _
  split
  · rfl
  · show Prog.run (handle s) (if (seenAlive || (seen s budget w n).alive) &&
        !(seen s budget w n).alive then _ else _) _ = if (seenAlive || (seen s budget w n).alive) &&
        !(seen s budget w n).alive then _ else _
    split
    · rfl
    · show Prog.run (handle s) (if budget.deadline ≤ elapsed then _ else _) _ =
        if budget.deadline ≤ elapsed then _ else _
      split <;> rfl

/-- From a look that is reached, without a claim before it: the watch ends with the first look that
claims to be ready and is reached, or there is none. -/
theorem watchLoop_run {fuel : ℕ} {best : Rung} {note : String} {seenAlive : Bool}
    (hfuel : n + fuel = budget.deadline + 1) (hreached : Reached s budget w n)
    (hclaim : ∀ i < n, (seen s budget w i).reached ≠ some .ready) (hbest : best ≠ .ready)
    (hseen : seenAlive = true ↔ ∃ i < n, (seen s budget w i).alive = true) :
    ∃ report w', (watchLoop budget w.clock fuel best note seenAlive).run (handle s)
        (lookAt s budget w n) = (.ok report, w') ∧
      ((report.healthy = false ∧ ∀ m, FirstClaim s budget w m → ¬ Reached s budget w m) ∨
        (report.healthy = true ∧ ∃ m, FirstClaim s budget w m ∧ Reached s budget w m ∧
          w'.tick = (lookAt s budget w m).tick + 2)) := by
  induction fuel generalizing n best note seenAlive with
  | zero =>
    -- that many looks have taken all of the time
    exfalso
    obtain ⟨k, rfl⟩ : ∃ k, n = k + 1 := ⟨budget.deadline, by omega⟩
    have hclock := @le_clock s budget w k
    have hreading := @reading_eq s budget w k
    have := (hreached k (Nat.lt_succ_self k)).2
    omega
  | succ fuel ih =>
    have hlater {m : ℕ} (hm : FirstClaim s budget w m) (hn : (seen s budget w n).reached ≠ some .ready) :
        n < m := by
      rcases Nat.lt_trichotomy m n with h | rfl | h
      · exact absurd hm.1 (hclaim m h)
      · exact absurd hm.1 hn
      · exact h
    have hlost : ((seenAlive || (seen s budget w n).alive) && !(seen s budget w n).alive) = true ↔
        Lost s budget w n := by
      rw [Lost, ← hseen]
      cases (seen s budget w n).alive <;> simp
    have hready := bestOf_ready hbest (seen s budget w n).reached
    have hreading := @reading_eq s budget w n
    have hclock := @le_clock s budget w n
    obtain ⟨note', gone, late, hgone, hlate, hrun⟩ :=
      @run_watchLoop_succ s budget w n w.clock fuel best note seenAlive
    rw [hrun]
    dsimp only
    split
    · next h =>
      have hfirst : FirstClaim s budget w n := ⟨hready.1 h, hclaim⟩
      exact ⟨_, _, rfl, .inr ⟨rfl, n, hfirst, hreached, rfl⟩⟩
    · next h =>
      have hn : (seen s budget w n).reached ≠ some .ready := fun hr => h (hready.2 hr)
      split
      · next h =>
        exact ⟨_, _, rfl, .inl ⟨hgone, fun m hm hr => (hr n (hlater hm hn)).1 (hlost.1 h)⟩⟩
      · next h' =>
        split
        · next hover =>
          refine ⟨_, _, rfl, .inl ⟨hlate, fun m hm hr => ?_⟩⟩
          have := (hr n (hlater hm hn)).2
          omega
        · next hover =>
          refine ih (by omega) (fun i hi => ?_) (fun i hi => ?_) h ?_
          · rcases Nat.lt_succ_iff_lt_or_eq.1 hi with hi | rfl
            · exact hreached i hi
            · exact ⟨fun hl => h' (hlost.2 hl), by omega⟩
          · rcases Nat.lt_succ_iff_lt_or_eq.1 hi with hi | rfl
            · exact hclaim i hi
            · exact hn
          · rw [Bool.or_eq_true, hseen]
            constructor
            · rintro (⟨i, hi, ha⟩ | ha)
              · exact ⟨i, by omega, ha⟩
              · exact ⟨n, by omega, ha⟩
            · rintro ⟨i, hi, ha⟩
              rcases Nat.lt_succ_iff_lt_or_eq.1 hi with hi | rfl
              · exact .inl ⟨i, hi, ha⟩
              · exact .inr ha

/-- The watch reports health just if it gets to a look that claims to be ready, and that look is its
last. -/
theorem watch_ends (s : Session) (budget : Budget) (w : World) : ∃ report w',
    (watch budget).run (handle s) w = (.ok report, w') ∧
      ((report.healthy = false ∧ ∀ m, FirstClaim s budget w m → ¬ Reached s budget w m) ∨
        (report.healthy = true ∧ ∃ m, FirstClaim s budget w m ∧ Reached s budget w m ∧
          w'.tick = (lookAt s budget w m).tick + 2)) :=
  watchLoop_run (n := 0) (Nat.zero_add _) (fun _ h => by cases h) (fun _ h => by cases h) (by decide)
    (by simp)

end

/-! ## When the verdict is right -/

/-- A look that was made, by the deadline, at a session that was alive and ready for the release, and
none before it showed the session dead. -/
def SoundAt (s : Session) (sight : ℕ → Sight) (budget : Budget) (release : Version) (w w' : World) :
    Prop :=
  ∃ n, (lookAt s budget w n).tick < w'.tick ∧
    (lookAt s budget w n).clock ≤ w.clock + budget.deadline ∧
    (sight (lookAt s budget w n).tick).ReadyFor release ∧ ∀ i < n, ¬ Lost s budget w i

/-- A report of health is sound just if the first look that claims to be ready, where the watch gets to
it, is made by the deadline, at a supervisor of the release that is alive. -/
theorem verdict_sound_iff (s : Session) (sight : ℕ → Sight) (budget : Budget) (release : Version)
    (w : World) :
    (∀ report w', (watch budget).run (handle (s.seeing sight)) w = (.ok report, w') →
      report.healthy = true → SoundAt (s.seeing sight) sight budget release w w') ↔
    ∀ n, FirstClaim (s.seeing sight) budget w n → Reached (s.seeing sight) budget w n →
      (lookAt (s.seeing sight) budget w n).clock ≤ w.clock + budget.deadline ∧
        (sight (lookAt (s.seeing sight) budget w n).tick).ReadyFor release := by
  obtain ⟨report, w', hrun, hreport⟩ := watch_ends (s.seeing sight) budget w
  constructor
  · intro hsound n hfirst hreached
    rcases hreport with ⟨-, hnone⟩ | ⟨hhealthy, m, hm, -, htick⟩
    · exact absurd hreached (hnone n hfirst)
    · obtain ⟨k, hk, hclock, hready, -⟩ := hsound report w' hrun hhealthy
      -- the only look that claims to be ready is the last one
      have hmn : m = n := by
        rcases Nat.lt_trichotomy m n with h | h | h
        · exact absurd hm.1 (hfirst.2 m h)
        · exact h
        · exact absurd hfirst.1 (hm.2 n h)
      subst hmn
      have hkm : k = m := by
        rcases Nat.lt_trichotomy k m with h | h | h
        · exact absurd hready.2.1 (hm.2 k h)
        · exact h
        · have := @tick_strictMono (s.seeing sight) budget w _ _ h
          omega
      subst hkm
      exact ⟨hclock, hready⟩
  · intro hgood report' w'' hrun' hhealthy
    obtain ⟨rfl, rfl⟩ : report = report' ∧ w' = w'' := by
      rw [hrun] at hrun'
      cases hrun'
      exact ⟨rfl, rfl⟩
    rcases hreport with ⟨hsick, -⟩ | ⟨-, m, hm, hreached, htick⟩
    · rw [hsick] at hhealthy
      cases hhealthy
    · obtain ⟨hclock, hready⟩ := hgood m hm hreached
      exact ⟨m, by omega, hclock, hready, fun i hi => (hreached i hi).1⟩

/-! ## A status that outlives its supervisor -/

namespace Climb

/-- The release under test. -/
def release : Version := .new 2 0 0

/-- The supervisor is up, and has got to Home. -/
def climbing : Sight := ⟨some 100, true, some "active", some ⟨release, "ready=home\n"⟩⟩

/-- It climbed the last rung and exited. -/
def exited : Sight := ⟨none, false, some "failed", some ⟨release, "ready=ready\n"⟩⟩

/-- One look at it while it climbs, and the next after it exited. -/
def sight (tick : ℕ) : Sight := if tick < 4 then climbing else exited

/-- A session that takes no time of its own. -/
def session : Session where
  standDown _ := .ok ()
  bringUp _ := .ok ()
  observe _ := .absent
  stockIsUp _ := true
  wakelockHeld _ := false
  writes _ t := t
  lag _ := 0
  wallClock _ := 0
  order := .byDepth

/-- The world in which it begins. Nothing on the disk is read. -/
def world : World := ⟨⟨∅, ∅⟩, 0, 0, true⟩

theorem seen_ready : FirstClaim (session.seeing sight) .default world 1 := by
  refine ⟨by decide +kernel, fun i hi => ?_⟩
  obtain rfl : i = 0 := by omega
  decide +kernel

theorem reached : Reached (session.seeing sight) .default world 1 := by
  intro i hi
  obtain rfl : i = 0 := by omega
  exact ⟨fun h => absurd h.1 (by decide), by decide⟩

end Climb

/-- A supervisor that climbs, and exits before the next look, is reported to be healthy. -/
theorem ready_then_gone : ¬ ∀ (s : Session) (sight : ℕ → Sight) (budget : Budget) (release : Version)
    (w : World) (report : HealthReport) (w' : World),
    (watch budget).run (handle (s.seeing sight)) w = (.ok report, w') → report.healthy = true →
      SoundAt (s.seeing sight) sight budget release w w' := by
  intro h
  obtain ⟨report, w', hrun, hreport⟩ :=
    watch_ends (Climb.session.seeing Climb.sight) .default Climb.world
  rcases hreport with ⟨-, hnone⟩ | ⟨hhealthy, m, hm, -, -⟩
  · exact hnone 1 Climb.seen_ready Climb.reached
  · obtain ⟨n, -, -, hready, -⟩ := h _ _ _ Climb.release _ _ _ hrun hhealthy
    -- whatever says that it is ready says that it is gone
    have hgone (tick : ℕ) : ¬ ((Climb.sight tick).observe.alive = true ∧
        (Climb.sight tick).observe.reached = some .ready) := by
      unfold Climb.sight
      split <;> decide +kernel
    exact hgone _ ⟨hready.1, hready.2.1⟩

end Paperclip.Updater
