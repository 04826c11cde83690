import Paperclip.Updater.Failure

/-!
# Recovery from a crash

An upgrade that is stopped anywhere, and the reconcile that follows. From a settled layout the links
end where they were unless the commit was recorded, and then `current` names the candidate.

* `World.Settled`: no transaction is in flight, and a link names a release that is there.
* `Stranded`: the one end that a reconcile does not look at again although the candidate is selected.
-/

namespace Paperclip.Updater

open Crash Files Packages Prog

/-- A link that is set names a release that is there. -/
def World.Named (w : World) : Prop :=
  ∀ slot target, w.link slot = some target → ∃ v, target = .release v ∧ (w.release v).isSome

/-- No transaction is in flight, the links name releases that are there, and a fallback is recorded
only beside a selected release. -/
structure World.Settled (w : World) : Prop where
  idle : Idle w.journal
  named : w.Named
  paired : w.link .current = none → w.link .previous = none

/-- The rollback gave up with the candidate still selected, and closed the journal. -/
def Stranded (w w' : World) : Prop :=
  ∃ r : Record, w'.journal = some (.record r) ∧ r.phase = .failed ∧
    w'.link .current = some (.release r.to_) ∧ w.link .current ≠ some (.release r.to_)

/-- What a reconcile is to leave of an upgrade from `w` that was stopped at `x`. -/
structure Recovered (u : Upgrade) (bundle : Option TarStream) (w : World) (x : Logged) (w' : World) :
    Prop where
  uncommitted : (Story.of x.2).committed = false →
    w'.link .current = w.link .current ∧ w'.link .previous = w.link .previous
  committed : (Story.of x.2).committed = true →
    ∃ candidate, Brings u bundle candidate ∧ w'.link .current = some (.release candidate)

theorem World.Named.linkTo {w : World} (h : w.Named) (slot : Slot) :
    ∃ v, w.link slot = Updater.linkTo v ∧ ∀ version, v = some version → (w.release version).isSome := by
  rcases hlink : w.link slot with - | target
  · exact ⟨none, rfl, fun _ h => (by cases h)⟩
  · obtain ⟨v, rfl, hv⟩ := h slot target hlink
    exact ⟨some v, rfl, fun _ h => by cases h; exact hv⟩

/-- A stage is about the disk alone. -/
theorem Stage.of_disk {O : Origin} {committed : Bool} {x : Logged} (h : Stage O committed (view x))
    {w : World} (hw : w.disk = x.1.disk) (log : List Event) : Stage O committed (view (w, log)) := by
  have hview : view (w, log) = { view x with running := w.running, story := .of log } := by
    have hrelease : w.release = x.1.release := funext fun v => by rw [World.release, hw]; rfl
    simp only [view, World.journal, World.link, hrelease, hw]
  rw [hview]
  exact h.of_same _ _

theorem Origin.Home.previous {O : Origin} {V : View} {r : Record} (h : O.Home V)
    (hV : O.Holds r V) (hp : ∀ v, O.before = some v → (O.found.release v).isSome) :
    V.previous = linkTo O.before := by
  rw [h.2]
  cases hb : O.before with
  | none => rfl
  | some v => rw [View.fallbackLink, if_pos (hV.fallback v hb (hp v hb))]; rfl

/-- Where nothing is in flight any more, both links are as they were, unless the candidate was left
selected. -/
theorem Stage.links_of_idle {O : Origin} {V : View} (h : Stage O false V) (hV : Idle V.journal)
    (hprevious : O.found.previous = linkTo O.before)
    (hp : ∀ v, O.before = some v → (O.found.release v).isSome)
    (hpaired : O.from_ = none → O.before = none)
    (hstranded : ∀ r : Record, V.journal = some (.record r) → r.phase = .failed →
      V.current = some (.release r.to_) → O.from_ = some r.to_) : O.Untouched V := by
  have hlive : ∀ {r : Record}, V.journal = some (.record r) → r.phase.isTerminal = true := by
    intro r hr
    rw [hr] at hV
    exact hV
  cases h with
  | begun untouched => exact untouched
  | preparing r h phase untouched => exact untouched
  | refused r h phase untouched => exact untouched
  | rolling r h phase =>
    have := hlive h.journal
    rcases phase with phase | phase <;> rw [phase] at this <;> cases this
  | reverted r h phase current previous =>
    exact ⟨current.trans O.current_found.symm,
      (Origin.Home.previous ⟨current, previous⟩ h hp).trans hprevious.symm⟩
  | stopped r h phase links =>
    rcases links with ⟨hcurrent, hne⟩ | hnone | huntouched
    · exact absurd (hstranded r h.journal phase hcurrent) hne
    · have hbefore := hpaired hnone
      refine ⟨?_, ?_⟩
      · rcases h.current with hc | ⟨hc, -⟩
        · exact hc.trans O.current_found.symm
        · have := hstranded r h.journal phase hc
          rw [hnone] at this
          cases this
      · rcases h.previous with hc | hc | hc
        · exact hc
        · rw [hc, hprevious, hnone, hbefore]
        · rw [hc, hprevious, hbefore]
          rfl
    · exact huntouched

/-- From a settled layout, a reconcile recovers an upgrade that was stopped anywhere but where it left
the candidate selected, and leaves nothing in flight unless a session runs meanwhile. -/
theorem reconcile_recovers (u : Upgrade) (bundle : Option TarStream) (s : Session) {w : World}
    (hw : w.Settled) {x : Logged} (hx : x ∈ (run u bundle).points (logged s) (w, []))
    (hstranded : ¬ Stranded w x.1) (s' : Session) {w' : World} (hdisk : w'.disk = x.1.disk) :
    (w'.running = false → Idle ((reconcile.run (handle s') w').2).journal) ∧
      Recovered u bundle w x (reconcile.run (handle s') w').2 := by
  obtain ⟨c, hc, hcthere⟩ := hw.named.linkTo .current
  obtain ⟨p, hp, hpthere⟩ := hw.named.linkTo .previous
  have hpaired : c = none → p = none := fun h => by
    have := hw.paired (by rw [hc, h]; rfl)
    rw [hp] at this
    cases p with
    | none => rfl
    | some v => cases this
  set O : Origin := w.origin c p (Brings u bundle) hc with hO
  have hpoint : O.Point (view x) := (runs_run (s := s) (O := O) u bundle hp rfl fun _ h => h).visits hx
  have hstage : Stage O (Story.of x.2).committed (view (w', [])) := hpoint.1.of_disk hdisk []
  have hends := (runs_reconcile (s := s') (O := O) hcthere ⟨p, hp⟩ hw.idle hstage).ends
  generalize reconcile.run (handle s') w' = ran at hends ⊢
  obtain ⟨hafter, hcases⟩ := hends
  have huntouched : ∀ {log : List Event}, (Story.of x.2).committed = false →
      O.Untouched (view (ran.2, log)) →
      ran.2.link .current = w.link .current ∧ ran.2.link .previous = w.link .previous :=
    fun _ h => h
  have hthere : ∀ v, O.before = some v → (O.found.release v).isSome := hpthere
  refine ⟨fun hrun => ?_, fun hb => ?_, fun hb => ?_⟩
  · rcases hcases with ⟨hidle, hsame⟩ | ⟨-, -, hidle | hrunning⟩
    · have hjournal : ran.2.journal = w'.journal := congrArg View.journal hsame
      rw [hjournal]
      exact hidle
    · exact hidle
    · exact absurd (hrun.symm.trans hrunning) (by simp)
  · rw [hb] at hstage
    rcases hcases with ⟨hidle, hsame⟩ | ⟨⟨hhome, r, hr⟩ | hlinks, -⟩
    · refine huntouched hb (hsame ▸ hstage.links_of_idle hidle hp hthere hpaired ?_)
      intro r hj hphase hcurrent
      by_contra hne
      have hlink : ∀ f, w'.disk.doc f = x.1.disk.doc f := fun f => by rw [hdisk]
      refine hstranded ⟨r, (hlink .journal).symm.trans hj, hphase,
        (hlink (.link .current)).symm.trans hcurrent, fun h => hne ?_⟩
      rwa [hc, linkTo_eq] at h
    · exact ⟨hhome.1.trans hc.symm, (hhome.previous hr hthere).trans hp.symm⟩
    · exact huntouched hb hlinks
  · rw [hb] at hafter
    cases hafter with
    | committed r journal phase carried current there previous kept => exact ⟨r.to_, carried, current⟩

namespace Sample

theorem before_settled : before.Settled where
  idle := trivial
  named
    | .current, _, h => ⟨older, Option.some.inj (h.symm.trans (by decide)), by decide⟩
    | .previous, _, h => by cases h.symm.trans (show before.link .previous = none by decide)
  paired h := by cases h.symm.trans (show before.link .current = some (.release older) by decide)

/-- Where an upgrade stops when the session does not come up: with the candidate selected. -/
def stopped : Logged := ((run upgrade (some bundle)).run (logged broken) (before, [])).2

theorem stopped_not_stranded : ¬ Stranded before stopped.1 := by
  rintro ⟨r, hr, hphase, -⟩
  have hverify : (stopped.1.journal.bind fun
      | .record r => some r.phase
      | .corrupt _ => none) = some .verify := by decide +kernel
  rw [hr] at hverify
  cases hphase.symm.trans (Option.some.inj hverify)

end Sample

theorem reconcile_recovers_stopped :
    (Sample.stopped.1.running = false →
        Idle ((reconcile.run (handle Sample.willing) Sample.stopped.1).2).journal) ∧
      Recovered Sample.upgrade (some Sample.bundle) Sample.before Sample.stopped
        (reconcile.run (handle Sample.willing) Sample.stopped.1).2 :=
  reconcile_recovers Sample.upgrade (some Sample.bundle) Sample.broken Sample.before_settled
    (run_mem_points _ _ _) Sample.stopped_not_stranded Sample.willing rfl

namespace Sample

/-- An upgrade from the older release to the newer one was stopped while the candidate was graded. -/
def inFlight : World :=
  { upgraded with
    disk := upgraded.disk.setDoc .journal
      (.record { Record.opening (some older) newer with phase := .verify, attempts := 1 })
    running := false }

end Sample

/-- An upgrade over a transaction in flight refuses, and the reconcile is about the other one. -/
theorem reconcile_can_revert_another : ¬ ∀ (u : Upgrade) (bundle : Option TarStream) (s : Session)
    (w : World), ∀ x ∈ (run u bundle).points (logged s) (w, []), ∀ (s' : Session) (w' : World),
    w'.disk = x.1.disk → w'.running = false →
    Idle ((reconcile.run (handle s') w').2).journal ∧
      Recovered u bundle w x (reconcile.run (handle s') w').2 := by
  intro h
  have hlink := ((h Sample.upgrade none Sample.willing Sample.inFlight _ (mem_points_self _ _ _)
    Sample.willing Sample.inFlight rfl rfl).2.uncommitted rfl).1
  revert hlink
  decide +kernel

end Paperclip.Updater
