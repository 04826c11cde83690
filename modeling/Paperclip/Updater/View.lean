import Paperclip.Updater.World

/-!
# Views

What the transaction's properties are about: the journal, the two links, the release directories,
and the story so far. The contents of staging, the snapshots and the platform state are left out, so
most steps leave the view as it is.

* `Event`, `emit`: what the log of a run records. `Story`: what a log amounts to, one event at a time.
* `View`, `view`: what a world with its log looks like.
* `Runs p A V Q`: from every world that looks like `V`, every point of `p` looks like something of
  `A`, and the end satisfies `Q`. The rules for the operations say what they make of a view.
-/

namespace Paperclip.Updater

open Crash Files Prog

/-! ## Events -/

/-- What the log of a run records. A state is the platform state the event left. -/
inductive Event where
  | stoodDown (ok : Bool) (state : Option Tree)
  | stock (up : Bool)
  | wakelock (held : Bool)
  | broughtUp (ok : Bool) (current : Option Link) (state : Option Tree)
  | recorded (file : JournalFile)
  | linked (slot : Slot) (target : Option Link)
  | looked (state : Option Tree)

/-- The platform root's operations with their session. -/
abbrev UpdaterSig : Sig := withFs sessionSig Place Doc Doc.Content

/-- Whether a filesystem operation looks at the platform state. -/
def looksAtState : FsOp Place Doc Doc.Content → Bool
  | .isDir p x => decide (p = .platformState ∧ x ≠ [])
  | .readDir p _ | .copyFile p _ _ _ => decide (p = .platformState)
  | _ => false

/-- The events of an operation on the session. -/
def emitSession : (o : SessionOp) → o.Ret → (before after : World) → List Event
  | .standDown, answer, _, after => [.stoodDown answer.isOk after.state]
  | .stockIsUp, up, _, _ => [.stock up]
  | .wakelockHeld, held, _, _ => [.wakelock held]
  | .bringUp, answer, before, after =>
    [.broughtUp answer.isOk (before.link .current) after.state]
  | _, _, _, _ => []

/-- The events of an operation on the filesystem. -/
def emitFs (after : World) : FsOp Place Doc Doc.Content → List Event
  | .put .journal file => [.recorded file]
  | .put (.link slot) target => [.linked slot (some target)]
  | .delete (.link slot) => [.linked slot none]
  | o => if looksAtState o then [.looked after.state] else []

/-- The events of a step. -/
def emit (step : Step UpdaterSig World) : List Event :=
  match step.op, step.ret with
  | .inl o, _ => emitFs step.after o
  | .inr o, answer => emitSession o answer step.before step.after

/-- What the session answered, without the states. -/
inductive Answer where
  | stoodDown (ok : Bool)
  | stock (up : Bool)
  | wakelock (held : Bool)
  | broughtUp (ok : Bool)
  deriving DecidableEq, Repr

/-- What a log amounts to. `down`: the session stood down since it was last brought up. `ups`: what
`current` named each time it was brought up. `became`: what `current` was first made to name.
`orderly`: a session was brought up only after it stood down, at most twice, never on what had been
up before and never once the transaction had ended, and a link moved only while it was down. -/
structure Story where
  answers : List Answer
  down : Bool
  ups : List (Option Link)
  became : Option (Option Link)
  committed : Bool
  ended : Bool
  orderly : Bool
  deriving DecidableEq

namespace Story

def start : Story := ⟨[], false, [], none, false, false, true⟩

/-- The story after one more event. -/
def add (σ : Story) : Event → Story
  | .stoodDown ok _ =>
    { σ with answers := σ.answers ++ [.stoodDown ok], down := σ.down || ok }
  | .stock up => { σ with answers := σ.answers ++ [.stock up] }
  | .wakelock held => { σ with answers := σ.answers ++ [.wakelock held] }
  | .broughtUp ok current _ =>
    { σ with
      answers := σ.answers ++ [.broughtUp ok]
      down := false
      ups := σ.ups ++ [current]
      orderly := σ.orderly && σ.down && decide (σ.ups.length < 2) && decide (current ∉ σ.ups) &&
        !σ.ended }
  | .recorded (.record r) =>
    { σ with
      committed := σ.committed || decide (r.phase = .commit)
      ended := σ.ended || r.phase.isTerminal }
  | .recorded (.corrupt _) => σ
  | .linked slot target =>
    { σ with
      became := match slot, σ.became with
        | .current, none => some target
        | _, became => became
      orderly := σ.orderly && σ.down }
  | .looked _ => σ

/-- The story of a log. -/
def of (log : List Event) : Story := log.foldl add start

@[simp] theorem of_nil : of [] = start := rfl

theorem of_append (log log' : List Event) : of (log ++ log') = log'.foldl add (of log) :=
  List.foldl_append

end Story

/-! ## Views -/

/-- What a world and its log look like. -/
structure View where
  journal : Option JournalFile
  current : Option Link
  previous : Option Link
  release : Version → Option Tree
  running : Bool
  story : Story

namespace View

/-- The view with one more event. -/
def tell (V : View) (e : Event) : View :=
  { V with
    story := V.story.add e
    running := match e with
      | .stoodDown ok _ => V.running && !ok
      | .broughtUp _ _ _ => true
      | _ => V.running }

/-- The view with a record in the journal. -/
def record (V : View) (r : Record) : View :=
  { V.tell (.recorded (.record r)) with journal := some (.record r) }

/-- What a link points at. -/
def link (V : View) : Slot → Option Link
  | .current => V.current
  | .previous => V.previous

/-- The view with a link moved. -/
def setLink (V : View) (slot : Slot) (target : Option Link) : View :=
  match slot with
  | .current => { V.tell (.linked slot target) with current := target }
  | .previous => { V.tell (.linked slot target) with previous := target }

/-- The view with other releases. -/
def withReleases (V : View) (R : Version → Option Tree) : View := { V with release := R }

end View

/-- A world with the log of what happened. -/
abbrev Logged := World × List Event

/-- The handler with the log. -/
abbrev logged (s : Session) : Handler UpdaterSig Logged := (handle s).logged emit

/-- What a world and its log look like. -/
def view (x : Logged) : View where
  journal := x.1.journal
  current := x.1.link .current
  previous := x.1.link .previous
  release := x.1.release
  running := x.1.running
  story := .of x.2

/-- From every world that looks like `V`, every point of `p` looks like something of `A`, and the
outcome with what the end looks like satisfies `Q`. -/
def Runs {ε α : Type} (s : Session) (A : View → Prop) (p : Prog UpdaterSig ε α) (V : View)
    (Q : Except ε α → View → Prop) : Prop :=
  ∀ x, view x = V → p.Safe (logged s) (fun x => A (view x)) (fun r x => Q r (view x)) x

namespace Runs

variable {ε ε' α β : Type} {s : Session} {A A' : View → Prop} {V V' : View}
  {Q Q' : Except ε α → View → Prop}

theorem done {a : α} (hA : A V) (hQ : Q (.ok a) V) : Runs s A (.done a) V Q := by
  rintro x rfl
  exact ⟨hA, hQ⟩

theorem fail {e : ε} (hA : A V) (hQ : Q (.error e) V) : Runs s A (.fail e) V Q := by
  rintro x rfl
  exact ⟨hA, hQ⟩

theorem ofExcept {r : Except ε α} (hA : A V) (hQ : Q r V) : Runs s A (.ofExcept r) V Q := by
  rintro x rfl
  exact safe_ofExcept.mpr ⟨hA, hQ⟩

theorem mono {p : Prog UpdaterSig ε α} (hp : Runs s A p V Q) (hA : ∀ V, A V → A' V)
    (hQ : ∀ r V, A V → Q r V → Q' r V) : Runs s A' p V Q' :=
  fun x hx => (hp x hx).mono (fun _ => hA _) fun _ _ => hQ _ _

/-- The outcome is one that a world gives. -/
theorem outcome {p : Prog UpdaterSig ε α} (hp : Runs s A p V Q) :
    Runs s A p V fun r V' => Q r V' ∧ ∃ w, (p.run (handle s) w).1 = r := by
  rintro ⟨w, log⟩ hx
  have hsafe := hp _ hx
  refine safe_iff.mpr ⟨fun _ hm => hsafe.points hm, hsafe.result, w, ?_⟩
  rw [logged, run_logged]

/-- What a rule says of a whole run, with the log of its events. -/
theorem ends {p : Prog UpdaterSig ε α} {w : World} (hp : Runs s A p (view (w, [])) Q) :
    Q (p.run (handle s) w).1
      (view ((p.run (handle s) w).2, p.events (handle s) emit w)) := by
  have h := (hp _ rfl).result
  rwa [logged, run_logged] at h

/-- What a rule says of every point of a run. -/
theorem visits {p : Prog UpdaterSig ε α} {w : World} (hp : Runs s A p (view (w, [])) Q)
    {x : Logged} (hx : x ∈ p.points (logged s) (w, [])) : A (view x) :=
  (hp _ rfl).points hx

theorem bind {p : Prog UpdaterSig ε α} {f : α → Prog UpdaterSig ε β}
    {R : Except ε β → View → Prop} (hp : Runs s A p V Q)
    (hf : ∀ a V', Q (.ok a) V' → Runs s A (f a) V' R)
    (he : ∀ e V', Q (.error e) V' → R (.error e) V') : Runs s A (p.bind f) V R :=
  fun x hx => (hp x hx).bind (fun a _ hq => hf a _ hq _ rfl) fun e _ hq => he e _ hq

/-- The sequencing rule after a part that cannot fail. -/
theorem bind_ok {p : Prog UpdaterSig ε α} {f : α → Prog UpdaterSig ε β} {T : α → View → Prop}
    {R : Except ε β → View → Prop} (hp : Runs s A p V fun r V' => ∃ a, r = .ok a ∧ T a V')
    (hf : ∀ a V', T a V' → Runs s A (f a) V' R) : Runs s A (p.bind f) V R := by
  refine hp.bind (fun a V' hq => ?_) fun e V' hq => ?_
  · obtain ⟨_, h, ht⟩ := hq
    cases h
    exact hf a V' ht
  · obtain ⟨_, h, -⟩ := hq
    cases h

/-- The sequencing rule after a part with one outcome. -/
theorem bind_eq {p : Prog UpdaterSig ε α} {f : α → Prog UpdaterSig ε β} {a : α}
    {R : Except ε β → View → Prop} (hp : Runs s A p V fun r W => r = .ok a ∧ W = V')
    (hf : Runs s A (f a) V' R) : Runs s A (p.bind f) V R :=
  bind_ok (T := fun b W => b = a ∧ W = V')
    (hp.mono (fun _ h => h) fun _ _ _ h => ⟨a, h.1, rfl, h.2⟩) fun _ _ h => h.1 ▸ h.2 ▸ hf

theorem attempt {p : Prog UpdaterSig ε α} {R : Except ε' (Except ε α) → View → Prop}
    (hp : Runs s A p V fun r V' => R (.ok r) V') : Runs s A (p.attempt : Prog _ ε' _) V R :=
  fun x hx => Safe.attempt (hp x hx)

/-- The sequencing rule after a part whose outcome is looked at. -/
theorem attempt_bind {p : Prog UpdaterSig ε α} {f : Except ε α → Prog UpdaterSig ε' β}
    {R : Except ε' β → View → Prop} (hp : Runs s A p V Q)
    (hf : ∀ r V', Q r V' → Runs s A (f r) V' R) :
    Runs s A ((p.attempt : Prog _ ε' _).bind f) V R :=
  bind_ok (attempt (hp.mono (fun _ h => h) fun r _ _ hq => ⟨r, rfl, hq⟩)) hf

theorem ignore {p : Prog UpdaterSig ε α} {R : Except ε' Unit → View → Prop}
    (hp : Runs s A p V fun _ V' => R (.ok ()) V') : Runs s A (p.ignore : Prog _ ε' _) V R :=
  fun x hx => Safe.ignore (hp x hx)

theorem mapError {p : Prog UpdaterSig ε α} {g : ε → ε'} {R : Except ε' α → View → Prop}
    (hp : Runs s A p V fun r V' => R (r.mapError g) V') : Runs s A (p.mapError g) V R :=
  fun x hx => Safe.mapError (hp x hx)

end Runs

/-! ## What the steps make of a view -/

/-- The steps that leave the view as it is: those that change neither a document nor a release, and
looks at the session. -/
def Calm : UpdaterSig.Op → Prop
  | .inl o => (∀ p ∈ o.places, ∀ v, p ≠ releaseDir v) ∧ o.names = []
  | .inr o => o ∈ [.observe, .releaseWakelock, .now, .storeNow] ∨ ∃ d, o = .sleep d

section Steps

variable {s : Session} {A : View → Prop} {V : View} {x : Logged}

theorem release_settle (w : World) (v : Version) :
    (settle s w).dir (releaseDir v) = w.release v :=
  settle_dir (fun h => (by cases h))

/-- What a filesystem step looks like. -/
theorem view_fs (o : FsOp Place Doc Doc.Content) :
    view (logged s (.inl o) x).2 =
      { journal := (o.exec s.order (settle s x.1)).2.doc .journal
        current := (o.exec s.order (settle s x.1)).2.doc (.link .current)
        previous := (o.exec s.order (settle s x.1)).2.doc (.link .previous)
        release := fun v => (o.exec s.order (settle s x.1)).2.dir (releaseDir v)
        running := x.1.running
        story := (emitFs (handle s (.inl o) x.1).2 o).foldl Story.add (.of x.2) } := by
  simp only [view, Handler.logged, Story.of_append]
  rfl

/-- What a step of the session looks like. -/
theorem view_session (o : SessionOp) :
    view (logged s (.inr o) x).2 =
      { view x with
        running := (o.exec s x.1).2.running
        story := (emitSession o (o.exec s x.1).1 x.1 (o.exec s x.1).2).foldl Story.add
          (.of x.2) } := by
  have hdisk : (handle s (.inr o) x.1).2.disk = settle s x.1 := session_disk o x.1
  have hdoc : ∀ f, (handle s (.inr o) x.1).2.disk.doc f = x.1.disk.doc f := fun f => by
    rw [hdisk, settle_doc]
  have hdir : (handle s (.inr o) x.1).2.release = x.1.release := funext fun v => by
    rw [World.release, hdisk, release_settle]
  simp only [view, Handler.logged, Story.of_append, World.journal, World.link, hdoc, hdir]
  rfl

/-- A filesystem step that writes no document tells of nothing but looks. -/
theorem emitFs_calm {o : FsOp Place Doc Doc.Content} (ho : o.names = []) (after : World) (σ : Story) :
    (emitFs after o).foldl Story.add σ = σ := by
  have hlook : ∀ b : Bool, (if b then [Event.looked after.state] else []).foldl Story.add σ = σ := by
    intro b
    cases b <;> rfl
  cases o <;> cases ho <;> first | rfl | exact hlook _

/-- A filesystem step that writes no document changes only the releases. -/
theorem view_fs_releases {o : FsOp Place Doc Doc.Content} (hn : o.names = []) :
    view (logged s (.inl o) x).2 = (view x).withReleases fun v =>
      (o.exec s.order (settle s x.1)).2.dir (releaseDir v) := by
  have hdoc : ∀ f, (o.exec s.order (settle s x.1)).2.doc f = x.1.disk.doc f := fun f => by
    rw [FsOp.exec_doc _ _ _ (hn ▸ List.not_mem_nil), settle_doc]
  rw [view_fs, emitFs_calm hn]
  simp only [hdoc]
  rfl

/-- A calm step leaves the view as it is. -/
theorem view_calm {op : UpdaterSig.Op} (h : Calm op) : view (logged s op x).2 = view x := by
  match op, h with
  | .inl o, ⟨hp, hn⟩ =>
    have hdir : ∀ v, (o.exec s.order (settle s x.1)).2.dir (releaseDir v) = x.1.release v := fun v => by
      rw [FsOp.exec_dir _ _ _ fun hm => hp _ hm v rfl, release_settle]
    rw [view_fs_releases hn]
    simp only [hdir]
    rfl
  | .inr o, h =>
    rw [view_session]
    rcases h with h | ⟨d, rfl⟩
    · simp only [List.mem_cons, List.not_mem_nil, or_false] at h
      rcases h with rfl | rfl | rfl | rfl <;> rfl
    · rfl

end Steps

/-- A program of calm steps leaves the view as it is. -/
theorem Runs.calm {ε α : Type} {s : Session} {A : View → Prop} {V : View}
    {p : Prog UpdaterSig ε α} (hp : p.Only Calm) (hA : A V) : Runs s A p V fun _ V' => V' = V := by
  rintro x rfl
  refine (Safe.of_only (I := fun x' => view x' = view x) hp
    (fun op x' hop hx => (view_calm hop).trans hx) rfl).mono ?_ fun _ _ _ h => h
  intro x' hx'
  rw [hx']
  exact hA

end Paperclip.Updater
