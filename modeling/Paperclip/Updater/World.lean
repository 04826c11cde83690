import Paperclip.Updater.Upgrade

/-!
# Worlds

What a transaction runs in: the disk of the platform root, and a session that answers as it likes.
A `Session` says what it answers at each tick, and what a running session writes to the platform
state between two steps of the updater, so a theorem over all sessions is about every sequence of
answers and every interleaving of writes.

* `handle`: what a step answers and does. No operation of the filesystem faults here.
* `Event`: what the log of a run records.
-/

namespace Paperclip.Updater

open Crash Files

/-- The other side of a transaction, by tick. -/
structure Session where
  standDown : Nat → Except String Unit
  bringUp : Nat → Except String Unit
  observe : Nat → Observation
  stockIsUp : Nat → Bool
  wakelockHeld : Nat → Bool
  /-- What the running session makes of the platform state before the step of this tick. -/
  writes : Nat → Tree → Tree
  /-- How long a step takes, besides what it sleeps. -/
  lag : Nat → Nat
  wallClock : Nat → Nat
  /-- The order in which the filesystem lists a directory to a removal. -/
  order : Tree.Order

/-- The disk, the step count, the monotonic clock, and whether a session runs. -/
structure World where
  disk : Disk Place Doc Doc.Content
  tick : Nat
  clock : Nat
  running : Bool

/-- The disk once the running session had its turn. -/
def settle (s : Session) (w : World) : Disk Place Doc Doc.Content :=
  match w.running, w.disk.dir .platformState with
  | true, some t => w.disk.setDir .platformState (s.writes w.tick t)
  | _, _ => w.disk

/-- The world after a step that leaves `disk`. -/
def World.next (s : Session) (w : World) (disk : Disk Place Doc Doc.Content) : World :=
  { w with disk, tick := w.tick + 1, clock := w.clock + s.lag w.tick }

/-- What an operation on the session answers and does. A session that was asked to stand down and
did not, or to come up and did not, may still run. -/
def SessionOp.exec (s : Session) (w : World) : (o : SessionOp) → o.Ret × World
  | standDown =>
    match s.standDown w.tick with
    | .ok () => (.ok (), { w.next s (settle s w) with running := false })
    | .error e => (.error e, w.next s (settle s w))
  | bringUp => (s.bringUp w.tick, { w.next s (settle s w) with running := true })
  | observe => (s.observe w.tick, w.next s (settle s w))
  | stockIsUp => (s.stockIsUp w.tick, w.next s (settle s w))
  | wakelockHeld => (s.wakelockHeld w.tick, w.next s (settle s w))
  | releaseWakelock => ((), w.next s (settle s w))
  | now => (w.clock, w.next s (settle s w))
  | sleep d =>
    ((), { w.next s (settle s w) with clock := w.clock + s.lag w.tick + max d 1 })
  | storeNow => (s.wallClock w.tick, w.next s (settle s w))

/-- What a step of the updater answers and does. -/
def handle (s : Session) : Handler (withFs sessionSig Place Doc Doc.Content) World
  | .inl o, w => ((o.exec s.order (settle s w)).1, w.next s (o.exec s.order (settle s w)).2)
  | .inr o, w => o.exec s w

namespace World

/-- What the journal file holds. -/
def journal (w : World) : Option JournalFile := w.disk.doc .journal

/-- What a selection link points at. -/
def link (w : World) (slot : Slot) : Option Link := w.disk.doc (.link slot)

/-- The directory of a release. -/
def release (w : World) (version : Version) : Option Tree := w.disk.dir (releaseDir version)

/-- The platform state. -/
def state (w : World) : Option Tree := w.disk.dir .platformState

end World

/-! ## What a step can do -/

section Steps

variable {s : Session} {w : World}

theorem settle_doc (f : Doc) : (settle s w).doc f = w.disk.doc f := by
  unfold settle
  split <;> rfl

theorem settle_dir {p : Place} (hp : p ≠ .platformState) : (settle s w).dir p = w.disk.dir p := by
  unfold settle
  split
  · exact Disk.setDir_dir_ne _ _ hp
  · rfl

theorem settle_of_not_running (hw : w.running = false) : settle s w = w.disk := by
  unfold settle
  rw [hw]

theorem serves (s : Session) :
    Serves (handle s) World.disk (settle s) s.order (· ≠ .platformState) where
  ret _ _ := rfl
  next _ _ := rfl
  mine _ _ hp := settle_dir hp

/-- An operation on the session changes the platform state only. -/
theorem session_disk (o : SessionOp) (w : World) : (o.exec s w).2.disk = settle s w := by
  cases o
  case standDown =>
    simp only [SessionOp.exec]
    split <;> rfl
  all_goals rfl

end Steps

end Paperclip.Updater
