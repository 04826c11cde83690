import Paperclip.Updater.Rollback

/-!
# Failures before the commit

What `run` leaves when it fails once the candidate is `current` and the commit is not recorded. The
session decides: the candidate is rolled back if the session came up when it was first asked to and
then stood down when it was asked to. A session that does not come up ends the run with the
candidate selected and the transaction in flight, and one that does not stand down ends it with the
candidate selected and the transaction closed.
-/

namespace Paperclip.Updater

open Crash Files Packages Prog

/-- What the log of an upgrade amounts to. -/
def runStory (u : Upgrade) (bundle : Option TarStream) (s : Session) (w : World) : Story :=
  .of ((run u bundle).events (handle s) emit w)

theorem Origin.Ends.iff {O : Origin} {V : View} (h : O.Ends V)
    {candidate : Option Link} (hb : V.story.became = some candidate)
    (hc : V.story.committed = false) :
    V.current ≠ candidate ∧ Closed V.journal ↔ Obeyed V.story.answers := by
  rcases h with h | h | ⟨k, hk, hne, ⟨hcur, hno⟩ | ⟨hcur, hclosed, hyes⟩⟩
  · rw [hc] at h
    cases h
  · rw [hb] at h
    cases h
  · rw [hb] at hk
    cases hk
    exact ⟨fun hx => absurd hcur hx.1, fun hx => absurd hx hno⟩
  · rw [hb] at hk
    cases hk
    refine ⟨fun _ => hyes, fun _ => ⟨fun hx => hne ?_, hclosed⟩⟩
    rwa [hcur, linkTo_eq] at hx

/-- A run that made its candidate `current` and did not commit ends with the candidate deselected and
the transaction closed exactly when the session did what it was asked. -/
theorem deselected_iff_obeyed (u : Upgrade) (bundle : Option TarStream) (s : Session) (w : World)
    {C : Version} {candidate : Option Link} (hw : w.link .current = some (.release C))
    (hb : (runStory u bundle s w).became = some candidate)
    (hc : (runStory u bundle s w).committed = false) :
    ((run u bundle).run (handle s) w).2.link .current ≠ candidate ∧
        Closed ((run u bundle).run (handle s) w).2.journal ↔
      Obeyed (runStory u bundle s w).answers := by
  rcases linkTo_or_other (w.link .previous) with ⟨p, hp⟩ | ⟨text, hp⟩
  · have hends := (runs_run (s := s) (O := w.origin (some C) p (Brings u bundle) hw) u bundle hp rfl
      fun _ h => h).ends.1
    exact hends.iff hb hc
  · have hsame : Runs s (fun _ => True) (run u bundle) (view (w, [])) fun res V' =>
        (∃ e, res = .error e) ∧ V' = view (w, []) := runs_unreadable trivial ⟨.previous, text, hp⟩
    have hstory := congrArg View.story hsame.ends.2
    rw [runStory, show Story.of ((run u bundle).events (handle s) emit w) = .start from hstory] at hb
    cases hb

/-! ## Sessions that do not do what they are asked -/

namespace Sample

/-- Nothing but the older release is there. -/
def before : World where
  disk :=
    { dirs := ((∅ : AList fun _ : Place => Tree).insert (releaseDir older) .empty).insert
        .platformState .empty
      docs := (∅ : AList Doc.Content).insert (.link .current) (Link.release older) }
  tick := 0
  clock := 0
  running := true

/-- The newer release as a bundle: the manifest, its signature and the components. -/
def bundle : TarStream :=
  ⟨(Updater.MANIFEST_FILE_NAME :: SIGNATURE_FILE_NAME :: REQUIRED_COMPONENTS).map fun name =>
    ⟨some name, .regular, some 0, [], none⟩, none⟩

/-- Its supervisor is never ready. -/
def unhealthy : Session := { willing with observe := fun _ => ⟨false, none, none, ""⟩ }

/-- It does not come up. -/
def broken : Session := { willing with bringUp := fun _ => .error "takeover refused" }

end Sample

theorem deselected_iff_obeyed_unhealthy :
    ((run Sample.upgrade (some Sample.bundle)).run (handle Sample.unhealthy) Sample.before).2.link
        .current ≠ some (.release Sample.newer) ∧
        Closed ((run Sample.upgrade (some Sample.bundle)).run (handle Sample.unhealthy)
          Sample.before).2.journal ↔
      Obeyed (runStory Sample.upgrade (some Sample.bundle) Sample.unhealthy Sample.before).answers :=
  deselected_iff_obeyed _ _ _ _ (C := Sample.older) (by decide) (by decide +kernel) (by decide +kernel)

/-- A session that does not come up leaves the candidate selected. -/
theorem failure_can_stay_selected : ¬ ∀ (u : Upgrade) (bundle : Option TarStream) (s : Session)
    (w : World) (C : Version) (candidate : Option Link), w.link .current = some (.release C) →
    (runStory u bundle s w).became = some candidate → (runStory u bundle s w).committed = false →
    ((run u bundle).run (handle s) w).2.link .current ≠ candidate ∧
      Closed ((run u bundle).run (handle s) w).2.journal := by
  intro h
  have hcurrent := (h Sample.upgrade (some Sample.bundle) Sample.broken Sample.before Sample.older
    (some (.release Sample.newer)) (by decide) (by decide +kernel) (by decide +kernel)).1
  revert hcurrent
  decide +kernel

end Paperclip.Updater
