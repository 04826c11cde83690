import Paperclip.Updater.Transaction

/-!
# A rollback by hand

`rollback` opens its record with the selected release as the one to go back to, and the rollback it
shares with `run` selects the release to go back to. So it stands the session down, selects what was
selected, and brings that up again, whatever the layout and the session.
-/

namespace Paperclip.Updater

open Crash Files Prog

/-- A transaction that starts in `w`, where `from_` is selected. -/
def World.origin (w : World) (from_ before : Option Version) (carries : Version → Prop)
    (h : w.link .current = linkTo from_) : Origin := ⟨view (w, []), from_, before, carries, h⟩

/-- A layout to roll back: `C` is selected, `F` is the fallback, both are there, and no transaction
is in flight. -/
structure World.CanRollBack (w : World) (C F : Version) : Prop where
  current : w.link .current = some (.release C)
  previous : w.link .previous = some (.release F)
  distinct : C ≠ F
  releases : (w.release C).isSome ∧ (w.release F).isSome
  idle : Idle w.journal

/-- A session that does what it is asked and whose supervisor is found ready. -/
structure Session.Willing (s : Session) : Prop where
  standDown : ∀ tick, s.standDown tick = .ok ()
  stockIsUp : ∀ tick, s.stockIsUp tick = true
  wakelockHeld : ∀ tick, s.wakelockHeld tick = false
  bringUp : ∀ tick, s.bringUp tick = .ok ()
  observe : ∀ tick, (s.observe tick).alive = true ∧ (s.observe tick).reached = some .ready

/-! ## A layout with two releases -/

namespace Sample

def older : Version := .new 1 0 0

def newer : Version := .new 2 0 0

/-- One empty file for each component that a release must carry. -/
def manifest : RawManifest :=
  ⟨newer, Protocol.CURRENT, 0, 1, 0, "", REQUIRED_COMPONENTS.map fun name => ⟨name, name, 0, ⟨"0"⟩⟩⟩

/-- A document that is signed by a trusted key and says `manifest`. -/
def externals : Externals := ⟨fun _ _ => .ok (), fun _ => .ok manifest, fun _ => ⟨"0"⟩⟩

/-- One look at a candidate is enough. -/
def upgrade : Upgrade := ⟨externals, ⟨1, 1⟩, .DEFAULT, ⟨none⟩⟩

/-- Everything works and nothing takes time. -/
def willing : Session where
  standDown _ := .ok ()
  bringUp _ := .ok ()
  observe _ := ⟨true, some .ready, none, ""⟩
  stockIsUp _ := true
  wakelockHeld _ := false
  writes _ state := state
  lag _ := 0
  wallClock _ := 0
  order := .byDepth

theorem willing_willing : willing.Willing :=
  ⟨fun _ => rfl, fun _ => rfl, fun _ => rfl, fun _ => rfl, fun _ => ⟨rfl, rfl⟩⟩

/-- The newer release is selected and runs, and the older one is the fallback. -/
def upgraded : World where
  disk :=
    { dirs := (((∅ : AList fun _ : Place => Tree).insert (releaseDir older) .empty).insert
        (releaseDir newer) .empty).insert .platformState .empty
      docs := ((∅ : AList Doc.Content).insert (.link .current) (Link.release newer)).insert
        (.link .previous) (Link.release older) }
  tick := 0
  clock := 0
  running := true

theorem upgraded_canRollBack : upgraded.CanRollBack newer older :=
  ⟨by decide, by decide, by decide, by decide, trivial⟩

end Sample

/-! ## What a rollback by hand does -/

/-- `F` is back, `C` is the one to come back to, and the outcome says so. -/
structure RestoresPrevious (C F : Version) (ran : Except UpdateError Outcome × World) : Prop where
  current : ran.2.link .current = some (.release F)
  previous : ran.2.link .previous = some (.release C)
  journal : ∃ r, ran.2.journal = some (.record r) ∧ r.phase = .rolledBack
  outcome : ∃ candidate failure health, ran.1 = .ok (.rolledBack candidate F failure health)

/-- `current` ends where it began. -/
theorem link_current_rollback (u : Upgrade) (s : Session) {w : World} {c p : Option Version}
    (hc : w.link .current = linkTo c) (hp : w.link .previous = linkTo p) :
    ((rollback u).run (handle s) w).2.link .current = linkTo c :=
  (runs_rollback (O := w.origin c c (fun _ => False) hc) u hp rfl rfl).ends.1.trans hc

/-- Whatever the session does, a rollback by hand does not restore the previous release. -/
theorem rollback_never_restores (u : Upgrade) (s : Session) {w : World} {C F : Version}
    (hw : w.CanRollBack C F) : ¬ RestoresPrevious C F ((rollback u).run (handle s) w) := by
  intro h
  have hcurrent := link_current_rollback u s (c := some C) (p := some F) hw.current hw.previous
  rw [h.current] at hcurrent
  cases hcurrent
  exact hw.distinct rfl

theorem rollback_never_restores_upgraded :
    ¬ RestoresPrevious Sample.newer Sample.older
      ((rollback Sample.upgrade).run (handle Sample.willing) Sample.upgraded) :=
  rollback_never_restores _ _ Sample.upgraded_canRollBack

/-- Even where both releases are there and the session does what it is asked. -/
theorem rollback_can_fail : ¬ ∀ (u : Upgrade) (s : Session) (w : World) (C F : Version),
    s.Willing → w.CanRollBack C F → RestoresPrevious C F ((rollback u).run (handle s) w) := by
  intro h
  have hcurrent := (h Sample.upgrade Sample.willing Sample.upgraded
    Sample.newer Sample.older Sample.willing_willing Sample.upgraded_canRollBack).current
  revert hcurrent
  decide +kernel

end Paperclip.Updater
