import Paperclip.Home.App
import Paperclip.Interactive.Sound

/-!
# What an app asks for in an interactive session

An app asks to be drawn again, or to be left. `paperctl run` reads what it asks for only while it
awaits a frame, and keeps one request of a burst.

* `LeavesKept`: a request to leave that is sent before a burst's last frame ends the session with
  the burst. `Prompt`: no idle tick passes while a request is unanswered.
* `Overwritten`: another request follows in the burst. `Late`: the app asks with no draw on its way.
  `Early`: it asks to be left before its first frame.
* `session_kept_iff`: the requests of a run are kept if and only if nothing of these happens in it.
-/

namespace Paperclip.Interactive

open Protocol Sdk.Runtime Trace

section

variable {σ γ : Type} (app : App σ γ) (start : σ) (inputs : List (Step γ)) (i k n : ℕ)

/-- The session before a step of a run. -/
def sessionAt : Session σ γ := at_ (Session.step app) (.initial start) inputs k

/-- Step `i` takes the first pointer of a burst, and step `k` ends it. -/
def Burst : Prop :=
  Since (fun j => (sessionAt app start inputs j).phase ≠ .waiting) i k ∧
    (∃ changes result, inputs[k]? = some (.host changes result)) ∧
    (sessionAt app start inputs k).Ends

/-- An idle tick passes. -/
def Ticks : Prop :=
  inputs[k]? = some .tick ∧ (sessionAt app start inputs k).phase = .waiting ∧
    (sessionAt app start inputs k).events = [] ∧ (sessionAt app start inputs k).readers = true

/-- A request that asks for something: to be drawn again, or to be left for what can be run. -/
def Asking (request : Request) : Prop := request = .redraw ∨ (exit? request).isSome = true

/-- A request is answered: by a later frame that was read, or by leaving the app. -/
def Session.Answered (s : Session σ γ) (request : Request) : Prop :=
  (request = .redraw ∧ ∃ m done, n < m ∧ m < s.toHost.taken ∧
    s.toHost.sent[m]? = some (.frame done)) ∨ ∃ exit, s.phase = .left exit

/-- The app is left at the end of a burst if it asked for that before a frame of it. -/
def LeavesKept : Prop :=
  ∀ i k n m request done, Burst app start inputs i k →
    (sessionAt app start inputs i).toHost.taken ≤ n → n < m →
    m < (sessionAt app start inputs k).toHost.taken →
    (sessionAt app start inputs k).toHost.sent[n]? = some (.request request) →
    (sessionAt app start inputs k).toHost.sent[m]? = some (.frame done) →
    (exit? request).isSome = true → ∃ exit, (sessionAt app start inputs (k + 1)).phase = .left exit

/-- No idle tick passes while a request is unanswered. -/
def Prompt : Prop :=
  ∀ k n request, Ticks app start inputs k →
    (sessionAt app start inputs k).toHost.sent[n]? = some (.request request) → Asking request →
    (sessionAt app start inputs k).Answered n request

/-- In a burst, the last request does not leave the app, and an earlier one does. -/
def Overwritten : Prop :=
  Burst app start inputs i k ∧
    (∃ request, Whole.AppMessage.request request ∈ (sessionAt app start inputs k).toHost.since
      (sessionAt app start inputs i).toHost.taken ∧ (exit? request).isSome = true) ∧
    ∃ last, lastOf request? ((sessionAt app start inputs k).toHost.since
      (sessionAt app start inputs i).toHost.taken) = some last ∧ exit? last = none

/-- At an idle tick, the app has asked for something with no draw on its way, and none since. -/
def Late : Prop :=
  Ticks app start inputs k ∧ ∃ i < k, inputs[i]? = some .app ∧
    (∃ request, Whole.AppMessage.request request ∈ ((sessionAt app start inputs i).turn app).2 ∧
      Asking request) ∧
    ∀ j, i ≤ j → j ≤ k → (sessionAt app start inputs j).draws = 0

/-- At an idle tick, the app has asked to be left before its first frame. -/
def Early : Prop :=
  Ticks app start inputs k ∧ ∃ (n : ℕ) (request : Request),
    (sessionAt app start inputs k).toHost.sent[n]? = some (.request request) ∧
    (exit? request).isSome = true ∧
    ∀ m < n, ∀ done,
      (sessionAt app start inputs k).toHost.sent[m]? ≠ some (Whole.AppMessage.frame done)

end

/-! ## Runs -/

section

variable {σ γ : Type} {app : App σ γ} {start : σ} {inputs : List (Step γ)} {i j k n : ℕ}

theorem sessionAt_succ {x : Step γ} (h : inputs[k]? = some x) :
    sessionAt app start inputs (k + 1) = (sessionAt app start inputs k).step app x := at_succ h

theorem sound_sessionAt (k : ℕ) : (sessionAt app start inputs k).Sound :=
  at_invariant (Session.sound_initial start) fun _ x h => h.step x

/-- Nothing that was said or read is taken back later. -/
theorem sent_mono (hjk : j ≤ k) :
    (sessionAt app start inputs j).toHost.sent <+: (sessionAt app start inputs k).toHost.sent ∧
      (sessionAt app start inputs j).toHost.taken ≤ (sessionAt app start inputs k).toHost.taken :=
  at_keeps (P := fun s =>
      (sessionAt app start inputs j).toHost.sent <+: s.toHost.sent ∧
        (sessionAt app start inputs j).toHost.taken ≤ s.toHost.taken)
    (fun s x h => ⟨h.1.trans (step_mono app s x).1, Nat.le_trans h.2 (step_mono app s x).2⟩) hjk
    ⟨List.prefix_rfl, Nat.le_refl _⟩

/-- What was said stays where it is. -/
theorem getElem?_of_lt (hjk : j ≤ k)
    (hn : n < (sessionAt app start inputs j).toHost.sent.length) :
    (sessionAt app start inputs k).toHost.sent[n]? =
      (sessionAt app start inputs j).toHost.sent[n]? := by
  obtain ⟨more, hmore⟩ : (sessionAt app start inputs j).toHost.sent <+: _ := (sent_mono hjk).1
  rw [← hmore, List.getElem?_append_left hn]

theorem getElem?_mono {message : Whole.AppMessage} (hjk : j ≤ k)
    (h : (sessionAt app start inputs j).toHost.sent[n]? = some message) :
    (sessionAt app start inputs k).toHost.sent[n]? = some message := by
  rw [getElem?_of_lt hjk (List.getElem?_eq_some_iff.1 h).1, h]

/-- While no draw is on its way, no frame is drawn. -/
theorem unframed_of_draws (hjk : j ≤ k)
    (h : ∀ m, j ≤ m → m < k → (sessionAt app start inputs m).draws = 0) :
    ∃ more, (sessionAt app start inputs k).toHost.sent =
      (sessionAt app start inputs j).toHost.sent ++ more ∧
      ∀ message ∈ more, isFrame message = false := by
  induction k, hjk using Nat.le_induction with
  | base => exact ⟨[], (List.append_nil _).symm, fun _ h => (by cases h)⟩
  | succ k hjk ih =>
    obtain ⟨more, hmore, hquiet⟩ := ih fun m hjm hmk => h m hjm (Nat.lt_succ_of_lt hmk)
    rcases hi : inputs[k]? with _ | x
    · exact ⟨more, by rw [sessionAt, at_succ_of_none hi]; exact hmore, hquiet⟩
    · rw [sessionAt_succ hi]
      obtain ⟨hdraws, -⟩ | ⟨-, more', hmore', hquiet'⟩ := step_draws app (sound_sessionAt k) x
      · exact absurd (h k hjk k.lt_succ_self) hdraws
      · refine ⟨more ++ more', by rw [hmore', hmore, List.append_assoc], fun message hmem => ?_⟩
        rcases List.mem_append.1 hmem with hmem | hmem
        · exact hquiet message hmem
        · exact hquiet' message hmem

/-- A draw on its way is on its way still, or its frame was drawn. -/
theorem framed_of_draws (hjk : j ≤ k) (h : (sessionAt app start inputs j).draws ≠ 0) :
    (sessionAt app start inputs k).draws ≠ 0 ∨
      ∃ m done, (sessionAt app start inputs j).toHost.sent.length ≤ m ∧
        (sessionAt app start inputs k).toHost.sent[m]? = some (.frame done) := by
  induction k, hjk using Nat.le_induction with
  | base => exact .inl h
  | succ k hjk ih =>
    rcases ih with hdraws | ⟨m, done, hm, hget⟩
    · rcases hi : inputs[k]? with _ | x
      · exact .inl (by rw [sessionAt, at_succ_of_none hi]; exact hdraws)
      · rcases step_draws app (sound_sessionAt k) x with
          ⟨-, before, done, -, hsent, -⟩ | ⟨hle, -⟩
        · refine .inr ⟨((sessionAt app start inputs k).toHost.sent ++ before).length, done, ?_, ?_⟩
          · rw [List.length_append]
            exact Nat.le_add_right_of_le (sent_mono hjk).1.length_le
          · rw [sessionAt_succ hi, hsent, ← List.append_assoc, List.getElem?_append_right
              (Nat.le_refl _), Nat.sub_self]
            rfl
        · rw [sessionAt_succ hi]
          exact .inl (by omega)
    · exact .inr ⟨m, done, hm, getElem?_mono k.le_succ hget⟩

/-- In a burst, its first pointer was taken at some step, and its request is the last one that was
read since. -/
theorem since_of_slot {slot : Option Request}
    (h : (sessionAt app start inputs k).phase.slot? = some slot) :
    ∃ i, Since (fun j => (sessionAt app start inputs j).phase ≠ .waiting) i k ∧
      slot = lastOf request? ((sessionAt app start inputs k).toHost.since
        (sessionAt app start inputs i).toHost.taken) := by
  induction k generalizing slot with
  | zero => cases h
  | succ k ih =>
    -- A burst goes on.
    have hon : ∀ {before : Option Request},
        (sessionAt app start inputs k).phase.slot? = some before →
        ∃ i, Since (fun j => (sessionAt app start inputs j).phase ≠ .waiting) i (k + 1) ∧
          (sessionAt app start inputs i).toHost.taken ≤
            (sessionAt app start inputs k).toHost.taken ∧
          before = lastOf request? ((sessionAt app start inputs k).toHost.since
            (sessionAt app start inputs i).toHost.taken) := by
      intro before hbefore
      obtain ⟨i, hsince, heq⟩ := ih hbefore
      refine ⟨i, hsince.succ ?_, (sent_mono (Nat.le_of_lt hsince.lt)).2, heq⟩
      intro hwaiting
      rw [hwaiting] at h
      cases h
    rcases hi : inputs[k]? with _ | x
    · have hsame : sessionAt app start inputs (k + 1) = sessionAt app start inputs k :=
        at_succ_of_none hi
      rw [hsame] at h ⊢
      obtain ⟨i, hsince, -, heq⟩ := hon h
      exact ⟨i, hsince, heq⟩
    · by_cases hx : ∃ changes result, x = .host changes result
      · obtain ⟨changes, result, rfl⟩ := hx
        have hstep : sessionAt app start inputs (k + 1) =
            (sessionAt app start inputs k).host changes result := sessionAt_succ hi
        rw [hstep] at h
        rcases hosted_slot hosted_host h with ⟨hwaiting, rfl, hline⟩ |
          ⟨before, hbefore, ⟨hline, rfl⟩ | ⟨message, hreceives, rfl⟩⟩
        · refine ⟨k, ⟨k.lt_succ_self, fun hne => hne hwaiting, fun j hkj hj => ?_⟩, ?_⟩
          · obtain rfl : j = k + 1 := by omega
            rw [hstep]
            intro hp
            rw [hp] at h
            cases h
          · rw [hstep, hline, Line.since_taken]
            rfl
        · obtain ⟨i, hsince, -, heq⟩ := hon hbefore
          exact ⟨i, hsince, by rw [hstep, hline]; exact heq⟩
        · obtain ⟨i, hsince, hle, heq⟩ := hon hbefore
          exact ⟨i, hsince, by rw [hstep, hreceives.since hle, lastOf_concat, ← heq]⟩
      · obtain ⟨hphase, more, hline, -⟩ := step_other (s := sessionAt app start inputs k) app
          fun changes result h => hx ⟨changes, result, h⟩
        have hstep : sessionAt app start inputs (k + 1) = _ := sessionAt_succ hi
        rw [hstep, hphase] at h
        obtain ⟨i, hsince, -, heq⟩ := hon h
        exact ⟨i, hsince, by rw [hstep, hline, Line.since_send]; exact heq⟩

/-- In a burst, the first frame was read. -/
theorem not_opening_of_since {seen : Option Request}
    (h : Since (fun j => (sessionAt app start inputs j).phase ≠ .waiting) i k) :
    (sessionAt app start inputs k).phase ≠ .awaiting .opening seen := by
  intro hopening
  have hwaiting : (sessionAt app start inputs i).phase = .waiting := Decidable.not_not.1 h.before
  obtain ⟨m, done, htaken, hget⟩ := (sound_sessionAt i).waiting hwaiting
  have hle : (sessionAt app start inputs i).toHost.taken ≤ _ := (sent_mono (Nat.le_of_lt h.lt)).2
  exact (sound_sessionAt k).opening seen hopening m (by omega) done
    (getElem?_mono (Nat.le_of_lt h.lt) hget)

/-- The request of a burst is the last one that was read in it. -/
theorem slot_of_burst (h : Burst app start inputs i k) :
    ∃ changes result, inputs[k]? = some (.host changes result) ∧
      (sessionAt app start inputs (k + 1)).phase =
        decided (lastOf request? ((sessionAt app start inputs k).toHost.since
          (sessionAt app start inputs i).toHost.taken)) := by
  obtain ⟨hsince, ⟨changes, result, hi⟩, hends⟩ := h
  obtain ⟨slot, hslot, hhost⟩ := host_of_ends hends
  obtain ⟨i', hsince', heq⟩ := since_of_slot hslot
  obtain rfl := hsince.unique hsince'
  refine ⟨changes, result, hi, ?_⟩
  rw [sessionAt_succ hi, ← heq]
  exact hhost changes result

/-- A request to leave that was read, with nothing overwritten, has left the app, or was read before
the first frame, or in the burst that goes on. -/
theorem left_or_early (hno : ∀ i k, ¬ Overwritten app start inputs i k) {request : Request}
    (hexit : (exit? request).isSome = true)
    (hn : n < (sessionAt app start inputs k).toHost.taken)
    (hget : (sessionAt app start inputs k).toHost.sent[n]? = some (.request request)) :
    (∃ exit, (sessionAt app start inputs k).phase = .left exit) ∨
      (∀ m < n, ∀ done,
        (sessionAt app start inputs k).toHost.sent[m]? ≠ some (Whole.AppMessage.frame done)) ∨
      ∃ i, Since (fun j => (sessionAt app start inputs j).phase ≠ .waiting) i k ∧
        (sessionAt app start inputs i).toHost.taken ≤ n := by
  induction k with
  | zero => exact absurd hn (Nat.not_lt_zero n)
  | succ k ih =>
    rcases hi : inputs[k]? with _ | x
    · have hsame : sessionAt app start inputs (k + 1) = sessionAt app start inputs k :=
        at_succ_of_none hi
      rw [hsame] at hn hget ⊢
      rcases ih hn hget with hleft | hearly | ⟨i, hsince, hle⟩
      · exact .inl hleft
      · exact .inr (.inl hearly)
      · exact .inr (.inr ⟨i, hsince.succ (by rw [hsame]; exact hsince.now), hle⟩)
    · have hstep : sessionAt app start inputs (k + 1) = _ := sessionAt_succ hi
      have hsound : (sessionAt app start inputs k).Sound := sound_sessionAt k
      have htaken_le := (sessionAt app start inputs k).toHost.taken_le
      rcases Nat.lt_or_ge n (sessionAt app start inputs k).toHost.taken with hlt | hge
      · have hget' : (sessionAt app start inputs k).toHost.sent[n]? = some (.request request) := by
          rw [← hget]
          exact (getElem?_of_lt k.le_succ (Nat.lt_of_lt_of_le hlt htaken_le)).symm
        rcases ih hlt hget' with ⟨exit, hleft⟩ | hearly | ⟨i, hsince, hle⟩
        · exact .inl ⟨exit, by rw [hstep]; exact step_left hleft x⟩
        · refine .inr (.inl fun m hm done hframe => hearly m hm done ?_)
          rw [← hframe]
          exact (getElem?_of_lt k.le_succ (by omega)).symm
        · by_cases hwaiting : (sessionAt app start inputs (k + 1)).phase = .waiting
          · rw [hstep] at hwaiting
            rcases step_waiting hwaiting with h | ⟨seen, h⟩ | ⟨hends, changes, result, rfl⟩
            · exact absurd h hsince.now
            · exact absurd h (not_opening_of_since hsince)
            · -- The burst ends, and its last request leaves the app.
              have hburst : Burst app start inputs i k := ⟨hsince, ⟨changes, result, hi⟩, hends⟩
              have hmem := Line.mem_since hle hlt hget'
              obtain ⟨last, hlast⟩ := lastOf_of_mem (f := request?) hmem rfl
              obtain ⟨-, -, -, hphase⟩ := slot_of_burst hburst
              rw [hlast] at hphase
              rcases hlastExit : exit? last with _ | exit
              · exact absurd ⟨hburst, ⟨request, hmem, hexit⟩, last, hlast, hlastExit⟩ (hno i k)
              · exact .inl ⟨exit, hphase.trans (decided_of_exit hlastExit)⟩
          · exact .inr (.inr ⟨i, hsince.succ hwaiting, hle⟩)
      · -- It is read by this step.
        rw [hstep] at hn
        obtain ⟨htaken, hsent, hreads⟩ := step_reads (Nat.lt_of_le_of_lt hge hn)
        obtain rfl : n = (sessionAt app start inputs k).toHost.taken := by omega
        have hread := hget
        rw [hstep, hsent] at hread
        obtain ⟨cause, hphase⟩ := hreads request hread
        rw [← hstep] at hphase hn
        cases cause with
        | opening =>
          exact .inr (.inl fun m hm => (sound_sessionAt (k + 1)).opening _ hphase m (by omega))
        | pointer =>
          obtain ⟨i, hsince, -⟩ := since_of_slot (congrArg Phase.slot? hphase)
          exact .inr (.inr ⟨i, hsince, (sent_mono (Nat.le_of_lt_succ hsince.lt)).2⟩)
        | queued before coalesced =>
          obtain ⟨i, hsince, -⟩ := since_of_slot (congrArg Phase.slot? hphase)
          exact .inr (.inr ⟨i, hsince, (sent_mono (Nat.le_of_lt_succ hsince.lt)).2⟩)

/-- With nothing overwritten, a burst with a request to leave leaves the app. -/
theorem leavesKept_of_not_overwritten (hno : ∀ i k, ¬ Overwritten app start inputs i k) :
    LeavesKept app start inputs := by
  intro i k n m request done hburst hin hnm hm hget _ hexit
  have hmem := Line.mem_since hin (Nat.lt_trans hnm hm) hget
  obtain ⟨last, hlast⟩ := lastOf_of_mem (f := request?) hmem rfl
  obtain ⟨-, -, -, hphase⟩ := slot_of_burst hburst
  rw [hlast] at hphase
  rcases hlastExit : exit? last with _ | exit
  · exact absurd ⟨hburst, ⟨request, hmem, hexit⟩, last, hlast, hlastExit⟩ (hno i k)
  · exact ⟨exit, hphase.trans (decided_of_exit hlastExit)⟩

/-- An overwritten request does not leave the app. -/
theorem not_leavesKept_of_overwritten (h : Overwritten app start inputs i k) :
    ¬ LeavesKept app start inputs := by
  obtain ⟨hburst, ⟨request, hmem, hexit⟩, last, hlast, hnone⟩ := h
  have hends := hburst.2.2
  obtain ⟨_, _, hdraining, -⟩ := hends
  intro hkept
  obtain ⟨n, hin, hn, hget⟩ := Line.exists_of_mem_since hmem
  obtain ⟨m, done, htaken, hframe⟩ := (sound_sessionAt k).draining _ _ hdraining
  have hne : n ≠ m := by
    rintro rfl
    cases hget.symm.trans hframe
  obtain ⟨exit, hleft⟩ :=
    hkept i k n m request done hburst hin (by omega) (by omega) hget hframe hexit
  obtain ⟨-, -, -, hphase⟩ := slot_of_burst hburst
  rw [hlast, decided_of_none hnone, hleft] at hphase
  cases hphase

/-- What the app said first at some step, was said by a turn of it. -/
theorem turn_of_getElem? {message : Whole.AppMessage}
    (hget : (sessionAt app start inputs k).toHost.sent[n]? = some message) :
    ∃ i < k, inputs[i]? = some .app ∧ message ∈ ((sessionAt app start inputs i).turn app).2 ∧
      n < (sessionAt app start inputs (i + 1)).toHost.sent.length := by
  have hn : n < (sessionAt app start inputs k).toHost.sent.length :=
    (List.getElem?_eq_some_iff.1 hget).1
  obtain ⟨i, hsince⟩ := Since.exists_
    (P := fun j => n < (sessionAt app start inputs j).toHost.sent.length) (Nat.not_lt_zero n) hn
  have hbefore := Nat.le_of_not_lt hsince.before
  have hnext := hsince.during (i + 1) i.lt_succ_self hsince.lt
  have hget' : (sessionAt app start inputs (i + 1)).toHost.sent[n]? = some message := by
    rw [← hget, getElem?_of_lt hsince.lt hnext]
  refine ⟨i, hsince.lt, ?_⟩
  rcases hi : inputs[i]? with _ | x
  · have hsame : sessionAt app start inputs (i + 1) = _ := at_succ_of_none hi
    rw [hsame] at hnext
    exact absurd hnext hsince.before
  · have hstep : sessionAt app start inputs (i + 1) = _ := sessionAt_succ hi
    by_cases hx : ∃ changes result, x = .host changes result
    · obtain ⟨changes, result, rfl⟩ := hx
      have hsent : (sessionAt app start inputs (i + 1)).toHost.sent =
          (sessionAt app start inputs i).toHost.sent := by
        rw [hstep]
        exact (hosted_sent hosted_host).1
      rw [hsent] at hnext
      exact absurd hnext hsince.before
    · obtain ⟨-, more, hline, hmore⟩ := step_other (s := sessionAt app start inputs i) app
        fun changes result h => hx ⟨changes, result, h⟩
      rw [← hstep] at hline
      have hsent : (sessionAt app start inputs (i + 1)).toHost.sent =
          (sessionAt app start inputs i).toHost.sent ++ more := by
        rw [hline]
        rfl
      rcases hmore with ⟨rfl, rfl⟩ | ⟨rfl, -⟩
      · refine ⟨rfl, ?_, hnext⟩
        rw [hsent, List.getElem?_append_right hbefore] at hget'
        exact List.mem_of_getElem? hget'
      · rw [hsent, List.append_nil] at hnext
        exact absurd hnext hsince.before

/-- At an idle tick nothing is on its way: no draw, and no frame. -/
theorem nothing_of_ticks (h : Ticks app start inputs k) :
    (sessionAt app start inputs k).draws = 0 ∧ (sessionAt app start inputs k).frames = 0 := by
  have hpending : (sessionAt app start inputs k).draws + (sessionAt app start inputs k).frames =
    (sessionAt app start inputs k).phase.pending := (sound_sessionAt k).pending
  rw [h.2.1] at hpending
  exact Nat.add_eq_zero_iff.1 hpending

/-- A request that waits at an idle tick was made with no draw on its way. -/
theorem late_of_unread {request : Request} (hticks : Ticks app start inputs k)
    (hget : (sessionAt app start inputs k).toHost.sent[n]? = some (.request request))
    (hasking : Asking request) (hn : (sessionAt app start inputs k).toHost.taken ≤ n) :
    Late app start inputs k := by
  obtain ⟨hnone, hframes⟩ := nothing_of_ticks hticks
  obtain ⟨i, hik, hi, hmem, hlen⟩ := turn_of_getElem? hget
  -- A draw that is still on its way after the request is drawn by a frame that waits.
  have hlater : ∀ j, i < j → j ≤ k → (sessionAt app start inputs j).draws = 0 := by
    intro j hij hjk
    by_contra hdraws
    rcases framed_of_draws hjk hdraws with hne | ⟨m, done, hm, hframe⟩
    · exact hne hnone
    · have hle : (sessionAt app start inputs (i + 1)).toHost.sent.length ≤
          (sessionAt app start inputs j).toHost.sent.length := (sent_mono hij).1.length_le
      have hunread := Line.mem_unread (by omega) hframe
      exact List.countP_eq_zero.1 hframes _ hunread rfl
  refine ⟨hticks, i, hik, hi, ⟨request, hmem, hasking⟩, fun j hij hjk => ?_⟩
  rcases Nat.eq_or_lt_of_le hij with rfl | hlt
  · rcases step_draws app (sound_sessionAt i) .app with
      ⟨-, before, done, htells, -, hbefore⟩ | ⟨hle, -⟩
    · rw [htells] at hmem
      rcases List.mem_append.1 hmem with hmem | hmem
      · cases hbefore _ hmem
      · cases List.mem_singleton.1 hmem
    · rw [← sessionAt_succ hi, hlater (i + 1) i.lt_succ_self hik] at hle
      exact Nat.le_zero.1 hle
  · exact hlater j hlt hjk

/-- A request that is made with no draw on its way waits at the tick. -/
theorem not_prompt_of_late (h : Late app start inputs k) : ¬ Prompt app start inputs := by
  obtain ⟨hticks, i, hik, hi, ⟨request, hmem, hasking⟩, hdraws⟩ := h
  intro hprompt
  obtain ⟨more, hmore, hquiet⟩ :=
    unframed_of_draws (Nat.le_of_lt hik) fun m him hmk => hdraws m him (Nat.le_of_lt hmk)
  have hsent : (sessionAt app start inputs (i + 1)).toHost.sent =
      (sessionAt app start inputs i).toHost.sent ++
        ((sessionAt app start inputs i).turn app).2 := by
    rw [sessionAt_succ hi]
    rfl
  obtain ⟨m, hm⟩ := List.mem_iff_getElem?.1 hmem
  have hget : (sessionAt app start inputs (i + 1)).toHost.sent[
      (sessionAt app start inputs i).toHost.sent.length + m]? = some (.request request) := by
    rw [hsent, List.getElem?_append_right (Nat.le_add_right _ _), Nat.add_sub_cancel_left, hm]
  rcases hprompt k _ request hticks (getElem?_mono hik hget) hasking with
    ⟨-, m', done, hlt, -, hframe⟩ | ⟨exit, hleft⟩
  · rw [hmore, List.getElem?_append_right (by omega)] at hframe
    cases hquiet _ (List.mem_of_getElem? hframe)
  · cases hticks.2.1.symm.trans hleft

/-- With none of the three, no tick passes while a request is unanswered. -/
theorem prompt_of_none (hno : ∀ i k, ¬ Overwritten app start inputs i k)
    (hlate : ∀ k, ¬ Late app start inputs k) (hearly : ∀ k, ¬ Early app start inputs k) :
    Prompt app start inputs := by
  intro k n request hticks hget hasking
  rcases Nat.lt_or_ge n (sessionAt app start inputs k).toHost.taken with hn | hn
  · rcases hasking with rfl | hexit
    · -- The last message that was read is a frame.
      obtain ⟨m, done, htaken, hframe⟩ := (sound_sessionAt k).waiting hticks.2.1
      have hne : n ≠ m := by
        rintro rfl
        cases hget.symm.trans hframe
      exact .inl ⟨rfl, m, done, by omega, by omega, hframe⟩
    · rcases left_or_early hno hexit hn hget with hleft | hfirst | ⟨i, hsince, -⟩
      · exact .inr hleft
      · exact absurd ⟨hticks, n, request, hget, hexit, hfirst⟩ (hearly k)
      · exact absurd hticks.2.1 hsince.now
  · exact absurd (late_of_unread hticks hget hasking hn) (hlate k)

/-- A request to leave before the first frame is never answered. -/
theorem not_prompt_of_early (h : Early app start inputs k) : ¬ Prompt app start inputs := by
  obtain ⟨hticks, n, request, hget, hexit, -⟩ := h
  intro hprompt
  rcases hprompt k n request hticks hget (.inr hexit) with ⟨rfl, -⟩ | ⟨exit, hleft⟩
  · cases hexit
  · cases hticks.2.1.symm.trans hleft

/-- In every interleaving of input readers, workers, the app and the host, an app is left at the end
of a burst in which it asked for that, and no idle tick passes while it waits for an answer, if and
only if no burst has another request after the last one to leave, and no tick comes after a request
that was made with no draw on its way, or to leave before the first frame. -/
theorem session_kept_iff (app : App σ γ) (start : σ) (inputs : List (Step γ)) :
    (LeavesKept app start inputs ∧ Prompt app start inputs) ↔
      (∀ i k, ¬ Overwritten app start inputs i k) ∧
        (∀ k, ¬ Late app start inputs k) ∧ ∀ k, ¬ Early app start inputs k := by
  constructor
  · rintro ⟨hkept, hprompt⟩
    exact ⟨fun i k h => not_leavesKept_of_overwritten h hkept,
      fun k h => not_prompt_of_late h hprompt, fun k h => not_prompt_of_early h hprompt⟩
  · rintro ⟨hno, hlate, hearly⟩
    exact ⟨leavesKept_of_not_overwritten hno, prompt_of_none hno hlate hearly⟩

end

/-! ## Home, while the battery changes -/

/-- A shelf with one tile, which hands the tablet back. -/
def shelf : Home.HomeApp := ⟨⟨[none], [], none⟩, false⟩

/-- A finger that is lifted from the shelf. -/
def lifted : Protocol.PointerEvent := ⟨⟨0, 0⟩, .up, .touch, 0, none, none⟩

def battery (percent : ℕ) : BatteryFact := ⟨percent, .discharging⟩

/-- The first frame asks for the battery, and a tick passes. Then the tile is tapped, while the
battery changes. -/
def tapped : List (Step Empty) :=
  let charge := SystemValue.battery (battery 80)
  let host := Step.host [] (.ok charge)
  [host, .pump, .app, host, host, .pump, .app, .tick] ++
    [.touched lifted, .host [.battery (battery 79)] (.ok charge), .pump, .pump, .pump] ++
    [.app, .app, .app, host, host, host, host, host]

/-- The answer is not shown at the tick, and the tap does not leave the shelf. -/
theorem tap_unanswered :
    ¬ LeavesKept (Home.homeApp fun _ _ => some 0) shelf tapped ∧
      ¬ Prompt (Home.homeApp fun _ _ => some 0) shelf tapped := by
  refine ⟨fun hkept => ?_, fun hprompt => ?_⟩
  · have hduring : ∀ j < 21, 9 < j →
        (sessionAt (Home.homeApp fun _ _ => some 0) shelf tapped j).phase ≠ .waiting := by
      decide +kernel
    have hburst : Burst (Home.homeApp fun _ _ => some 0) shelf tapped 9 20 := by
      refine ⟨⟨by decide, ?_, fun j hj hj' => hduring j (Nat.lt_succ_of_le hj') hj⟩, ⟨_, _, rfl⟩,
        _, _, rfl, fun _ => rfl⟩
      exact fun hne => hne rfl
    obtain ⟨exit, hleft⟩ := hkept 9 20 3 5 .returnToStock _ hburst (by decide +kernel) (by decide)
      (by decide +kernel) rfl rfl rfl
    cases hleft
  · rcases hprompt 7 2 .redraw ⟨rfl, rfl, rfl, rfl⟩ rfl (.inl rfl) with
      ⟨-, m, done, hlt, hm, -⟩ | ⟨exit, hleft⟩
    · have htaken :
          (sessionAt (Home.homeApp fun _ _ => some 0) shelf tapped 7).toHost.taken = 2 := rfl
      omega
    · cases hleft

end Paperclip.Interactive
