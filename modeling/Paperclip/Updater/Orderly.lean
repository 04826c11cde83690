import Paperclip.Updater.Rollback

/-!
# No rollback loop

What no sequence of answers can make a transaction do: bring a session up a third time, bring one up
that did not stand down first, move a link while a session is up, or start anything once it has
ended.
-/

namespace Paperclip.Updater

open Crash Files Packages Prog

/-- What `current` named each time the session was brought up. -/
def ups (log : List Event) : List (Option Link) :=
  log.filterMap fun
    | .broughtUp _ current _ => some current
    | _ => none

/-- The session stood down, and was not brought up since. -/
def DownSince (log : List Event) : Prop :=
  ∃ before state after, log = before ++ .stoodDown true state :: after ∧ ups after = []

/-- A record of the log ends the transaction. -/
def EndedIn (log : List Event) : Prop :=
  ∃ r : Record, .recorded (.record r) ∈ log ∧ r.phase.isTerminal = true

/-- What may happen after `log`: a session is brought up only after it stood down, at most twice,
never on what was up before and never once the transaction has ended; a link moves only while the
session is down. -/
def Event.MayFollow (log : List Event) : Event → Prop
  | .broughtUp _ current _ =>
    DownSince log ∧ (ups log).length < 2 ∧ current ∉ ups log ∧ ¬ EndedIn log
  | .linked _ _ => DownSince log
  | _ => True

/-- Every event of the log may follow those before it. -/
def Orderly (log : List Event) : Prop :=
  ∀ before event after, log = before ++ event :: after → event.MayFollow before

theorem ups_append (log log' : List Event) : ups (log ++ log') = ups log ++ ups log' :=
  List.filterMap_append

theorem of_concat (log : List Event) (e : Event) : Story.of (log ++ [e]) = (Story.of log).add e := by
  rw [Story.of_append]
  rfl

theorem story_ups (log : List Event) : (Story.of log).ups = ups log := by
  induction log using List.reverseRecOn with
  | nil => rfl
  | append_singleton log e ih =>
    rw [of_concat, ups_append, ← ih]
    rcases e with - | - | - | - | (_ | _) | - | - <;> simp [Story.add, ups]

theorem downSince_concat {log : List Event} (e : Event) (h : DownSince log) (he : ups [e] = []) :
    DownSince (log ++ [e]) := by
  obtain ⟨before, state, after, rfl, hafter⟩ := h
  exact ⟨before, state, after ++ [e], by simp, by rw [ups_append, hafter, he]; rfl⟩

theorem story_down (log : List Event) (h : (Story.of log).down = true) : DownSince log := by
  induction log using List.reverseRecOn with
  | nil => cases h
  | append_singleton log e ih =>
    rw [of_concat] at h
    cases e with
    | stoodDown ok state =>
      cases ok with
      | true => exact ⟨log, state, [], rfl, rfl⟩
      | false => exact downSince_concat _ (ih (by simpa [Story.add] using h)) rfl
    | broughtUp ok current state => cases h
    | recorded file =>
      cases file <;> exact downSince_concat _ (ih h) rfl
    | _ => exact downSince_concat _ (ih h) rfl

theorem story_ended (log : List Event) (h : EndedIn log) : (Story.of log).ended = true := by
  induction log using List.reverseRecOn with
  | nil => obtain ⟨r, hr, -⟩ := h; cases hr
  | append_singleton log e ih =>
    rw [of_concat]
    obtain ⟨r, hr, hterminal⟩ := h
    rcases List.mem_append.mp hr with hr | hr
    · have hlog := ih ⟨r, hr, hterminal⟩
      rcases e with - | - | - | - | (_ | _) | - | - <;> simp [Story.add, hlog]
    · rw [← List.mem_singleton.mp hr]
      simp [Story.add, hterminal]

/-- What an event adds to an orderly story may follow its log. -/
theorem mayFollow_of_add {log : List Event} {e : Event}
    (h : ((Story.of log).add e).orderly = true) :
    (Story.of log).orderly = true ∧ e.MayFollow log := by
  cases e with
  | broughtUp ok current state =>
    simp only [Story.add, Bool.and_eq_true, decide_eq_true_eq, Bool.not_eq_true', story_ups] at h
    obtain ⟨⟨⟨⟨ho, hdown⟩, hlen⟩, hnew⟩, hended⟩ := h
    refine ⟨ho, story_down log hdown, hlen, hnew, fun hx => ?_⟩
    rw [story_ended log hx] at hended
    cases hended
  | linked slot target =>
    obtain ⟨ho, hdown⟩ := (Bool.and_eq_true _ _).mp h
    exact ⟨ho, story_down log hdown⟩
  | recorded file => cases file <;> exact ⟨h, trivial⟩
  | _ => exact ⟨h, trivial⟩

/-- A story is orderly only if its log is. -/
theorem orderly_of_story (log : List Event) (h : (Story.of log).orderly = true) : Orderly log := by
  induction log using List.reverseRecOn with
  | nil => exact fun before _ _ h => by simp at h
  | append_singleton log e ih =>
    rw [of_concat] at h
    obtain ⟨hlog, hmay⟩ := mayFollow_of_add h
    intro before event after heq
    rcases after.eq_nil_or_concat with rfl | ⟨after, last, rfl⟩
    · obtain ⟨rfl, hlast⟩ := List.append_inj' heq rfl
      cases hlast
      exact hmay
    · refine ih hlog before event after ?_
      rw [List.concat_eq_append, ← List.cons_append, ← List.append_assoc] at heq
      exact (List.append_inj' heq rfl).1

/-- Nothing is brought up more than twice. -/
theorem Orderly.length_ups {log : List Event} (h : Orderly log) : (ups log).length ≤ 2 := by
  induction log using List.reverseRecOn with
  | nil => exact Nat.zero_le 2
  | append_singleton log e ih =>
    have hlog : Orderly log := fun before event after heq =>
      h before event (after ++ [e]) (by rw [heq]; simp)
    rw [ups_append, List.length_append]
    have hmay := h log e [] rfl
    cases e with
    | broughtUp ok current state =>
      have hlen := hmay.2.1
      simp only [ups, List.filterMap_cons, List.filterMap_nil, List.length_singleton]
      simp only [ups] at hlen
      omega
    | _ => exact ih hlog

/-- A transaction stays where it starts or at its stages, and an outcome closes the journal. -/
theorem runs_transaction (u : Upgrade) (t : Transaction) (s : Session) (w : World) {A : View → Prop}
    (hstart : A (view (w, [])))
    (hpoint : ∀ O : Origin, O.found = view (w, []) → ∀ V, O.Point V → A V) :
    Runs s A (t.program u) (view (w, [])) fun res V' =>
      A V' ∧ ∀ outcome, res = .ok outcome → Closed V'.journal := by
  have hunreadable : (∃ slot text, (view (w, [])).link slot = some (.other text)) →
      Runs s A (t.program u) (view (w, [])) fun res V' =>
        A V' ∧ ∀ outcome, res = .ok outcome → Closed V'.journal := by
    intro h
    have hfail : Runs s A (t.program u) (view (w, []))
        fun res V' => (∃ e, res = .error e) ∧ V' = view (w, []) := by
      cases t <;> exact runs_unreadable hstart h
    refine hfail.mono (fun _ h => h) ?_
    rintro res V' - ⟨⟨e, rfl⟩, rfl⟩
    exact ⟨hstart, fun _ h => (by cases h)⟩
  rcases linkTo_or_other (w.link .current) with ⟨c, hc⟩ | ⟨text, hc⟩
  swap
  · exact hunreadable ⟨.current, text, hc⟩
  rcases linkTo_or_other (w.link .previous) with ⟨p, hp⟩ | ⟨text, hp⟩
  swap
  · exact hunreadable ⟨.previous, text, hp⟩
  cases t with
  | run bundle =>
    exact (runs_run (O := w.origin c p (Brings u bundle) hc) u bundle hp rfl fun _ h => h).mono
      (hpoint _ rfl) fun _ _ hA h => ⟨hpoint _ rfl _ hA, h.2⟩
  | rollback =>
    exact (runs_rollback (O := w.origin c c (fun _ => False) hc) u hp rfl rfl).mono
      (hpoint _ rfl) fun _ _ hA h => ⟨hpoint _ rfl _ hA, h.2⟩

/-- A transaction is orderly wherever it starts, and an outcome closes the journal. -/
theorem runs_orderly (u : Upgrade) (t : Transaction) (s : Session) (w : World) :
    Runs s (fun V => V.story.orderly = true) (t.program u) (view (w, [])) fun res V' =>
      V'.story.orderly = true ∧ ∀ outcome, res = .ok outcome → Closed V'.journal :=
  runs_transaction u t s w rfl fun _ _ _ h => h.2

/-- Whatever the session answers, a transaction brings it up at most twice, each time after it stood
down, moves the links only while it is down, and starts nothing once it has ended; and an outcome
leaves nothing in flight. -/
theorem no_rollback_loop (u : Upgrade) (t : Transaction) (s : Session) (w : World) :
    Orderly ((t.program u).events (handle s) emit w) ∧
      (ups ((t.program u).events (handle s) emit w)).length ≤ 2 ∧
      ∀ outcome, ((t.program u).run (handle s) w).1 = .ok outcome →
        Closed ((t.program u).run (handle s) w).2.journal := by
  have hends := (runs_orderly u t s w).ends
  have horderly := orderly_of_story _ hends.1
  exact ⟨horderly, horderly.length_ups, hends.2⟩

end Paperclip.Updater
