import Paperclip.Updater.Prepare

/-!
# The selected releases

Histories of `run`, `rollback` and `reconcile` calls, each of which may be stopped at any step. The
links name releases that are there, and a transaction that does not commit leaves the releases they
named alone, as long as no bundle carries the version that only `previous` names: its release is the
one that `run` removes to make room for the candidate.

* `Call`, `Reaches`: the calls, and the worlds a history passes through.
* `Leaves`: the worlds that one transaction and the reconciles after it pass through.
* `World.Sound`: the invariant of a history. `View.Guards`: what a transaction leaves alone.
-/

namespace Paperclip.Updater

open Crash Files Packages Prog

/-! ## Histories -/

/-- A call on the updater. -/
inductive Call where
  | transaction (t : Transaction)
  | reconcile

/-- The worlds that a call passes through. -/
def Call.points (u : Upgrade) (s : Session) : Call → World → List World
  | transaction t, w => (t.program u).points (handle s) w
  | reconcile, w => Updater.reconcile.points (handle s) w

/-- The transaction gives no release of the version that `previous` names and `current` does not. -/
def Transaction.Spares (u : Upgrade) (w : World) : Transaction → Prop
  | run bundle => ∀ v, Brings u bundle v → w.link .previous = some (.release v) →
      w.link .current = some (.release v)
  | rollback => True

def Call.Spares (u : Upgrade) (w : World) : Call → Prop
  | transaction t => t.Spares u w
  | reconcile => True

/-- The worlds of the histories from `w` whose calls are allowed. A call may be stopped anywhere, and
the next one finds what is on the disk. -/
inductive Reaches (allowed : Upgrade → World → Call → Prop) (w : World) : World → Prop where
  | start : Reaches allowed w w
  | restart {x x' : World} (h : Reaches allowed w x) (hdisk : x'.disk = x.disk) :
      Reaches allowed w x'
  | call {x y : World} (h : Reaches allowed w x) (u : Upgrade) (s : Session) (c : Call)
      (hc : allowed u x c) (hy : y ∈ c.points u s x) : Reaches allowed w y

/-- The worlds of a transaction from `w` and of the reconciles that follow, with the log. -/
inductive Leaves (u : Upgrade) (s : Session) (t : Transaction) (w : World) : Logged → Prop where
  | point {x : Logged} (hx : x ∈ (t.program u).points (logged s) (w, [])) : Leaves u s t w x
  | restart {x : Logged} {w' : World} (h : Leaves u s t w x) (hdisk : w'.disk = x.1.disk) :
      Leaves u s t w (w', x.2)
  | reconcile {x y : Logged} (h : Leaves u s t w x) (s' : Session)
      (hy : y ∈ Updater.reconcile.points (logged s') x) : Leaves u s t w y

/-! ## The invariant -/

/-- A record in flight names only directories of its own. -/
def Record.Tidy (r : Record) : Prop :=
  (∀ p, r.staged = some p → ∃ transaction, p = .staging transaction) ∧
    ∀ p, r.snapshot = some p → ∃ name, p = .snapshots name

/-- The links name releases that are there, and a record in flight names only directories of its
own. -/
structure View.Sound (V : View) : Prop where
  named : ∀ slot target, V.link slot = some target → ∃ v, target = .release v ∧ (V.release v).isSome
  tidy : ∀ r, V.journal = some (.record r) → r.phase.isTerminal = false → r.Tidy

def World.Sound (w : World) : Prop := (view (w, [])).Sound

/-- A link names `v`. -/
def View.Names (V : View) (v : Version) : Prop := ∃ slot, V.link slot = some (.release v)

/-- The releases that `V₀` names are as they were, and where the journal says `prepare` the links are
too. -/
structure View.Guards (V₀ V : View) : Prop where
  kept : ∀ v, V₀.Names v → V.release v = V₀.release v
  links : ∀ r, V.journal = some (.record r) → r.phase = .prepare → ∀ slot, V.link slot = V₀.link slot

theorem World.Sound.isNamed {w : World} (h : w.Sound) : w.Named := fun
  | .current, target, ht => h.named .current target ht
  | .previous, target, ht => h.named .previous target ht

section Stages

variable {O : Origin} {V V₀ : View} {r : Record}

/-- The bundle carries no version that only `previous` names. -/
def Origin.Spares (O : Origin) : Prop :=
  ∀ v, O.carries v → O.found.previous = some (.release v) → O.from_ = some v

theorem Origin.Spares.kept (hO : O.Spares) {v : Version} (h : O.found.Names v) (k : Version) :
    O.Kept k v := by
  obtain ⟨slot, hv⟩ := h
  cases slot
  · exact .inr (.inl (linkTo_eq.mp (O.current_found.symm.trans hv)).symm)
  · by_cases hc : O.carries v
    · exact .inr (.inl (hO v hc hv).symm)
    · exact .inr (.inr ⟨hv, hc⟩)

theorem Origin.Untouched.link (h : O.Untouched V) (slot : Slot) : V.link slot = O.found.link slot := by
  cases slot
  · exact h.1
  · exact h.2

theorem Origin.Owns.tidy (h : O.Owns r) : r.Tidy := ⟨h.staged, h.snapshot⟩

/-- A link that is as it was names a release that is there. -/
theorem Origin.Records.named (hO : O.Spares) (hfound : O.found.Sound) (h : O.Records r V) {slot : Slot}
    {target : Link} (ht : O.found.link slot = some target) :
    ∃ v, target = .release v ∧ (V.release v).isSome := by
  obtain ⟨v, rfl, hv⟩ := hfound.named slot target ht
  exact ⟨v, rfl, by rw [h.kept v (hO.kept ⟨slot, ht⟩ _)]; exact hv⟩

theorem Origin.Records.sound (hO : O.Spares) (hfound : O.found.Sound) (h : O.Records r V)
    (hlinks : O.Untouched V) : V.Sound where
  named slot target ht := h.named hO hfound (hlinks.link slot ▸ ht)
  tidy r' hr' _ := by
    rw [h.journal] at hr'
    cases hr'
    exact h.owns.tidy

theorem Origin.Holds.sound (hO : O.Spares) (hfound : O.found.Sound) (h : O.Holds r V) : V.Sound where
  named slot target ht := by
    have hfrom : ∀ {target}, linkTo O.from_ = some target → O.found.link .current = some target :=
      fun ht => O.current_found.trans ht
    cases slot with
    | current =>
      rcases h.current with hc | ⟨hc, hthere⟩
      · exact h.named hO hfound (hfrom (hc.symm.trans ht))
      · cases hc.symm.trans ht
        exact ⟨_, rfl, hthere⟩
    | previous =>
      rcases h.previous with hp | hp | hp
      · have hlink : O.found.link .previous = some target := hp.symm.trans ht
        exact h.named hO hfound hlink
      · exact h.named hO hfound (hfrom (hp.symm.trans ht))
      · have hlink := hp.symm.trans ht
        unfold View.fallbackLink at hlink
        split at hlink
        · split at hlink
          · next hthere =>
            cases hlink
            exact ⟨_, rfl, hthere⟩
          · cases hlink
        · cases hlink
  tidy r' hr' _ := by
    rw [h.journal] at hr'
    cases hr'
    exact h.owns.tidy

/-- The links name releases that are there at every stage of a transaction. -/
theorem Stage.sound {committed : Bool} (hO : O.Spares) (hfound : O.found.Sound)
    (h : Stage O committed V) : V.Sound := by
  cases h with
  | begun untouched journal release =>
    refine ⟨fun slot target ht => ?_, fun r hr => hfound.tidy r (journal ▸ hr)⟩
    rw [untouched.link slot] at ht
    rw [release]
    exact hfound.named slot target ht
  | preparing r records phase untouched => exact records.sound hO hfound untouched
  | refused r records phase untouched => exact records.sound hO hfound untouched
  | rolling r holds phase => exact holds.sound hO hfound
  | reverted r holds phase current previous => exact holds.sound hO hfound
  | stopped r holds phase links => exact holds.sound hO hfound
  | committed r journal phase carried current there previous kept =>
    refine ⟨fun slot target ht => ?_, fun r' hr' hp => ?_⟩
    · cases slot with
      | current =>
        cases current.symm.trans ht
        exact ⟨_, rfl, there⟩
      | previous =>
        have hlink := previous.symm.trans ht
        obtain ⟨v, rfl, hv⟩ := hfound.named .current target (O.current_found.trans hlink)
        exact ⟨v, rfl, by rw [kept v (linkTo_eq.mp hlink)]; exact hv⟩
    · rw [journal] at hr'
      cases hr'
      rw [phase] at hp
      cases hp

/-- The releases that the links named are left alone until the commit. -/
theorem Stage.guards (hO : O.Spares) (h : Stage O false V) : O.found.Guards V := by
  have hclosed : ∀ {r : Record}, V.journal = some (.record r) → r.phase ≠ .prepare →
      ∀ r', V.journal = some (.record r') → r'.phase = .prepare →
        ∀ slot, V.link slot = O.found.link slot := by
    intro r hr hphase r' hr' hphase'
    rw [hr] at hr'
    cases hr'
    exact absurd hphase' hphase
  cases h with
  | begun untouched journal release =>
    exact ⟨fun v _ => by rw [release], fun _ _ _ => untouched.link⟩
  | preparing r records phase untouched =>
    exact ⟨fun v hv => records.kept v (hO.kept hv _), fun _ _ _ => untouched.link⟩
  | refused r records phase untouched =>
    exact ⟨fun v hv => records.kept v (hO.kept hv _), fun _ _ _ => untouched.link⟩
  | rolling r holds phase =>
    refine ⟨fun v hv => holds.kept v (hO.kept hv _), hclosed holds.journal ?_⟩
    rcases phase with phase | phase <;> rw [phase] <;> simp
  | reverted r holds phase current previous =>
    refine ⟨fun v hv => holds.kept v (hO.kept hv _), hclosed holds.journal ?_⟩
    rcases phase with phase | phase <;> rw [phase] <;> simp
  | stopped r holds phase links =>
    exact ⟨fun v hv => holds.kept v (hO.kept hv _), hclosed holds.journal (by rw [phase]; simp)⟩

end Stages

section Reconcile

variable {s : Session} {V V₀ : View} {r : Record}

/-- What a reconcile keeps. -/
def View.Safe (V₀ V : View) : Prop := V.Sound ∧ V₀.Guards V

/-- A record that is not of the prepare phase, and tidy if it is in flight, guards with any links. -/
theorem View.Guards.closed (h : V₀.Guards V) {V' : View} (hrelease : V'.release = V.release)
    (hjournal : V'.journal = some (.record r)) (hphase : r.phase ≠ .prepare) : V₀.Guards V' :=
  ⟨fun v hv => by rw [hrelease]; exact h.kept v hv, fun r' hr' hp => by
    rw [hjournal] at hr'
    cases hr'
    exact absurd hp hphase⟩

theorem View.Sound.readable (h : V.Sound) (slot : Slot) : ∃ v, V.link slot = linkTo v := by
  rcases hlink : V.link slot with - | target
  · exact ⟨none, rfl⟩
  · obtain ⟨v, rfl, -⟩ := h.named slot target hlink
    exact ⟨some v, rfl⟩

/-- A link that is moved to a release that is there. -/
theorem View.Sound.setLink (h : V.Sound) (slot : Slot) {target : Option Link}
    (ht : ∀ l, target = some l → ∃ v, l = .release v ∧ (V.release v).isSome) :
    (V.setLink slot target).Sound := by
  cases slot
  · exact ⟨fun
      | .current, l, hl => ht l hl
      | .previous, l, hl => h.named .previous l hl, h.tidy⟩
  · exact ⟨fun
      | .current, l, hl => h.named .current l hl
      | .previous, l, hl => ht l hl, h.tidy⟩

theorem View.fallbackLink_named (V : View) {before : Option Version} {l : Link}
    (hl : V.fallbackLink before = some l) : ∃ v, l = .release v ∧ (V.release v).isSome := by
  unfold View.fallbackLink at hl
  split at hl
  · split at hl
    · next hthere =>
      cases hl
      exact ⟨_, rfl, hthere⟩
    · cases hl
  · cases hl

theorem View.Sound.record (h : V.Sound) (hr : r.phase.isTerminal = true) : (V.record r).Sound where
  named
    | .current, l, hl => h.named .current l hl
    | .previous, l, hl => h.named .previous l hl
  tidy r' hr' hp := by
    cases hr'
    rw [hr] at hp
    cases hp

/-- Discarding a candidate removes no release that a link names. -/
theorem runs_discard_safe (h : V₀.Safe V) (hj : V.journal = some (.record r))
    (hphase : r.phase = .prepare) :
    Runs s V₀.Safe (discard r) V fun _ V' => V₀.Safe V' := by
  have hkeeps : ∀ R, (∀ v, V.Spares r v → R v = V.release v) → V₀.Safe (V.withReleases R) := by
    refine fun R hR => ⟨⟨fun slot target ht => ?_, h.1.tidy⟩, ⟨fun v hv => ?_, h.2.links⟩⟩
    · have ht : V.link slot = some target := by cases slot <;> exact ht
      obtain ⟨v, rfl, hv⟩ := h.1.named slot target ht
      exact ⟨v, rfl, (congrArg Option.isSome (hR v (.inr ⟨slot, ht⟩))).trans hv⟩
    · obtain ⟨slot, hslot⟩ := hv
      have hlink := (h.2.links r hj hphase slot).trans hslot
      exact (hR v (.inr ⟨slot, hlink⟩)).trans (h.2.kept v ⟨slot, hslot⟩)
  refine (runs_discard h.1.readable (h.1.tidy r hj (by rw [hphase]; rfl)).1 hkeeps fun R hR =>
    ⟨(hkeeps R hR).1.record rfl, (hkeeps R hR).2.closed rfl rfl (by simp)⟩).mono (fun _ h => h) ?_
  exact fun _ _ hV' _ => hV'

/-- Putting the links back moves them only to releases that are there. -/
theorem runs_revert_safe (h : V₀.Safe V) (hj : V.journal = some (.record r))
    (hphase : r.phase = .activate ∨ r.phase = .verify) :
    Runs s V₀.Safe ((revertLinks r).bind fun _ => (restoreSnapshot r).bind fun stateRestored =>
      (Journal.advance r .rolledBack).bind fun _ =>
        Prog.done (Reconciled.reverted r.to_ r.from_ stateRestored)) V fun _ V' => V₀.Safe V' := by
  have hlive : r.phase ≠ .prepare ∧ r.phase.isTerminal = false := by
    rcases hphase with hphase | hphase <;> rw [hphase] <;> exact ⟨by simp, rfl⟩
  have hcurrent : (∀ v, r.from_ = some v → (V.release v).isSome) →
      (V.setLink .current (linkTo r.from_)).Sound := fun hthere =>
    h.1.setLink .current fun l hl => by
      obtain ⟨v, hv, rfl⟩ := Option.map_eq_some_iff.mp hl
      exact ⟨v, rfl, hthere v hv⟩
  have hback : (∀ v, r.from_ = some v → (V.release v).isSome) → V₀.Safe (V.reverted r) := fun hthere =>
    ⟨(hcurrent hthere).setLink .previous fun l hl => V.fallbackLink_named hl,
      h.2.closed rfl hj hlive.1⟩
  refine (runs_revertLinks r h (fun hthere => ⟨hcurrent hthere, h.2.closed rfl hj hlive.1⟩) hback).bind
    (fun _ V' hq => ?_) fun e V' hq => ?_
  swap
  · rcases hq with ⟨hres, -⟩ | ⟨-, rfl⟩
    · cases hres
    · exact h
  rcases hq with ⟨-, hthere, rfl⟩ | ⟨⟨_, _, _, hres⟩, -⟩
  swap
  · cases hres
  have hback := hback hthere
  refine (runs_restoreSnapshot r (h.1.tidy r hj hlive.2).2 hback).bind (fun b V' hq => ?_)
    fun e V' hq => hq.2 ▸ hback
  obtain ⟨-, rfl⟩ := hq
  have hdone : V₀.Safe ((V.reverted r).record { r with phase := .rolledBack }) :=
    ⟨hback.1.record rfl, hback.2.closed rfl rfl (by simp)⟩
  refine (runs_advance r .rolledBack hback hdone).bind (fun _ V' hq => ?_) fun e V' hq => by cases hq.1
  obtain ⟨-, rfl⟩ := hq
  exact Runs.done hdone hdone

/-- A reconcile removes no release that a link names, and moves a link only to a release that is
there. -/
theorem runs_reconcile_safe (h : V₀.Safe V) :
    Runs s V₀.Safe reconcile V fun _ V' => V₀.Safe V' := by
  refine (runs_read h).bind (fun file V' hq => ?_) fun e V' hq => hq.2 ▸ h
  obtain ⟨hfile, rfl⟩ := hq
  rcases hj : V'.journal with - | (r | reason) <;> rw [hj] at hfile <;> cases hfile
  · exact Runs.done h h
  · cases hphase : r.phase <;> simp only [hphase]
    case prepare => exact runs_discard_safe h hj hphase
    case activate => exact runs_revert_safe h hj (.inl hphase)
    case verify => exact runs_revert_safe h hj (.inr hphase)
    all_goals exact Runs.done h h

end Reconcile

/-! ## Runs -/

section Runs

variable {s : Session} {u : Upgrade} {w w₀ : World}

/-- The invariant and what is guarded are about the disk alone. -/
theorem View.Safe.of_disk {V₀ : View} {x : Logged} (h : V₀.Safe (view x)) {w : World}
    (hw : w.disk = x.1.disk) (log : List Event) : V₀.Safe (view (w, log)) := by
  have hview : view (w, log) = { view x with running := w.running, story := .of log } := by
    have hrelease : w.release = x.1.release := funext fun v => by rw [World.release, hw]; rfl
    simp only [view, World.journal, World.link, hrelease, hw]
  rw [hview]
  refine ⟨⟨fun slot l hl => ?_, h.1.tidy⟩, ⟨h.2.kept, fun r hr hp slot => ?_⟩⟩
  · cases slot with
    | current => exact h.1.named .current l hl
    | previous => exact h.1.named .previous l hl
  · cases slot with
    | current => exact h.2.links r hr hp .current
    | previous => exact h.2.links r hr hp .previous

theorem View.Sound.of_view {x : Logged} (h : (view x).Sound) : x.1.Sound :=
  ⟨fun
    | .current, l, hl => h.named .current l hl
    | .previous, l, hl => h.named .previous l hl, h.tidy⟩

theorem World.Sound.safe (hw : w.Sound) : (view (w, [])).Safe (view (w, [])) :=
  ⟨hw, fun _ _ => rfl, fun _ _ _ _ => rfl⟩

/-- Every point of a transaction is at a stage of it. -/
theorem Transaction.stage (hw : w.Sound) (t : Transaction) (ht : t.Spares u w) {x : Logged}
    (hx : x ∈ (t.program u).points (logged s) (w, [])) :
    ∃ O : Origin, O.found = view (w, []) ∧ O.Spares ∧ O.Point (view x) := by
  obtain ⟨c, hc, -⟩ := hw.isNamed.linkTo .current
  obtain ⟨p, hp, -⟩ := hw.isNamed.linkTo .previous
  cases t with
  | run bundle =>
    refine ⟨w.origin c p (Brings u bundle) hc, rfl, fun v hv hlink => ?_,
      (runs_run (s := s) (O := w.origin c p (Brings u bundle) hc) u bundle hp rfl
        fun _ h => h).visits hx⟩
    exact linkTo_eq.mp (hc.symm.trans (ht v hv hlink))
  | rollback =>
    exact ⟨w.origin c c (fun _ => False) hc, rfl, fun v hv => hv.elim,
      (runs_rollback (s := s) (O := w.origin c c (fun _ => False) hc) u hp rfl rfl).visits hx⟩

/-- One call keeps the invariant at every point. -/
theorem World.Sound.call (hw : w.Sound) (c : Call) (hc : c.Spares u w) {y : World}
    (hy : y ∈ c.points u s w) : y.Sound := by
  cases c with
  | transaction t =>
    obtain ⟨log, hlog⟩ := exists_logged_point (handle s) emit [] hy
    obtain ⟨O, hfound, hO, hstage, -⟩ := t.stage hw hc hlog
    exact (hstage.sound hO (hfound ▸ hw)).of_view
  | reconcile =>
    obtain ⟨log, hlog⟩ := exists_logged_point (handle s) emit [] hy
    exact ((runs_reconcile_safe (s := s) hw.safe).visits hlog).1.of_view

/-- The invariant holds along a history. -/
theorem Reaches.sound (h₀ : w₀.Sound) (h : Reaches (fun u x c => c.Spares u x) w₀ w) : w.Sound := by
  induction h with
  | start => exact h₀
  | restart h hdisk ih => exact (ih.safe.of_disk hdisk []).1
  | call h u s c hc hy ih => exact ih.call c hc hy

theorem Story.committed_add {σ : Story} (h : σ.committed = true) (e : Event) :
    (σ.add e).committed = true := by
  cases e with
  | recorded file => cases file <;> simp [Story.add, h]
  | _ => exact h

theorem Story.committed_foldl {σ : Story} (h : σ.committed = true) (log : List Event) :
    (log.foldl Story.add σ).committed = true := by
  induction log generalizing σ with
  | nil => exact h
  | cons e log ih => exact ih (Story.committed_add h e)

/-- What is committed stays so. -/
theorem committed_point {ε α : Type} {p : Prog UpdaterSig ε α} {x y : Logged}
    (h : (Story.of x.2).committed = true) (hy : y ∈ p.points (logged s) x) :
    (Story.of y.2).committed = true := by
  refine (Safe.of_only (I := fun z : Logged => (Story.of z.2).committed = true) (only_true p)
    (fun op z _ hz => ?_) h).points hy
  show (Story.of (z.2 ++ _)).committed = true
  rw [Story.of_append]
  exact Story.committed_foldl hz _

/-- Until it commits, a transaction and the reconciles after it guard what the links named. -/
theorem Leaves.safe (hw : w.Sound) {t : Transaction} (ht : t.Spares u w) {x : Logged}
    (h : Leaves u s t w x) (hx : (Story.of x.2).committed = false) :
    (view (w, [])).Safe (view x) := by
  induction h with
  | point hx' =>
    obtain ⟨O, hfound, hO, hstage, -⟩ := t.stage hw ht hx'
    rw [show (view _).story.committed = false from hx] at hstage
    exact ⟨hstage.sound hO (hfound ▸ hw), hfound ▸ hstage.guards hO⟩
  | restart h hdisk ih => exact (ih hx).of_disk hdisk _
  | reconcile h s' hy ih =>
    refine (runs_reconcile_safe (ih ?_) _ rfl).points hy
    by_contra hc
    rw [committed_point (Bool.not_eq_false _ ▸ hc) hy] at hx
    cases hx

/-- As long as no bundle carries the version that only `previous` names: at every point of every
history the links name releases that are there, and a transaction that does not commit leaves the
releases that they named as they were. -/
theorem selected_releases_kept (h₀ : w₀.Sound) (h : Reaches (fun u x c => c.Spares u x) w₀ w) :
    w.Named ∧ ∀ (u : Upgrade) (s : Session) (t : Transaction), t.Spares u w → ∀ x, Leaves u s t w x →
      (Story.of x.2).committed = false → ∀ slot v, w.link slot = some (.release v) →
        x.1.release v = w.release v := by
  have hw := h.sound h₀
  refine ⟨hw.isNamed, fun u s t ht x hx hc slot v hv => ?_⟩
  refine (hx.safe hw ht hc).2.kept v ⟨slot, ?_⟩
  cases slot <;> exact hv

end Runs

namespace Sample

theorem upgraded_sound : upgraded.Sound where
  named
    | .current, _, h => ⟨newer, Option.some.inj (h.symm.trans (by decide)), by decide⟩
    | .previous, _, h => ⟨older, Option.some.inj (h.symm.trans (by decide)), by decide⟩
  tidy r h := by cases h.symm.trans (show upgraded.journal = none by decide)

/-- The bundle carries the older release again. -/
def reissue : Upgrade :=
  { upgrade with ext := { externals with parse := fun _ => .ok { manifest with version := older } } }

end Sample

theorem selected_releases_kept_upgraded :
    ((rollback Sample.upgrade).run (handle Sample.willing) Sample.upgraded).2.Named ∧
      ∀ (u : Upgrade) (s : Session) (t : Transaction),
        t.Spares u ((rollback Sample.upgrade).run (handle Sample.willing) Sample.upgraded).2 →
        ∀ x, Leaves u s t ((rollback Sample.upgrade).run (handle Sample.willing) Sample.upgraded).2 x →
          (Story.of x.2).committed = false → ∀ slot v,
          ((rollback Sample.upgrade).run (handle Sample.willing) Sample.upgraded).2.link slot =
            some (.release v) →
          x.1.release v =
            ((rollback Sample.upgrade).run (handle Sample.willing) Sample.upgraded).2.release v :=
  selected_releases_kept Sample.upgraded_sound (.call .start Sample.upgrade Sample.willing
    (.transaction .rollback) trivial (run_mem_points _ _ _))

/-- An upgrade to the version that `previous` names removes the release that it names. -/
theorem selected_release_can_go : ¬ ∀ w₀ w : World, w₀.Sound → Reaches (fun _ _ _ => True) w₀ w →
    w.Named ∧ ∀ (u : Upgrade) (s : Session) (t : Transaction), ∀ x, Leaves u s t w x →
      (Story.of x.2).committed = false → ∀ slot v, w.link slot = some (.release v) →
        x.1.release v = w.release v := by
  intro h
  obtain ⟨x, hx, hgone⟩ := List.any_eq_true.mp (show
    (((run Sample.reissue (some Sample.bundle)).points (handle Sample.willing) Sample.upgraded).any
      fun x => decide (x.link .previous = some (.release Sample.older)) &&
        !(x.release Sample.older).isSome) = true by decide +kernel)
  rw [Bool.and_eq_true, decide_eq_true_eq, Bool.not_eq_true'] at hgone
  obtain ⟨v, hv, hthere⟩ := (h Sample.upgraded x Sample.upgraded_sound (.call .start Sample.reissue
    Sample.willing (.transaction (.run (some Sample.bundle))) trivial hx)).1 .previous _ hgone.1
  cases hv
  rw [hgone.2] at hthere
  cases hthere

end Paperclip.Updater
