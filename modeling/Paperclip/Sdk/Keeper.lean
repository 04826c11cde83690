import Paperclip.Sdk.Drive

/-!
# Apps that keep a game

What Chess and Sudoku have in common: a game in a file of the private directory. The first callback
takes it up, an event that changes the game writes it, and so does the exit.

* `Keeper`: what an app has of its own. `Keeper.app`: the app, as the loop runs it.
* `World`, `World.step`: the file and the process, over launches, turns and deaths of the process.
* `Keeper.Lawful`: what is needed of an app. `Held`: the file has the game.
* `World.Sound`: what every run keeps (`run_sound`). `World.Redraws`: the next launch draws a game.
* `World.Sound.survives`: the game of a process that failed in nothing is drawn by the next launch.
-/

namespace Paperclip.Sdk

open Protocol Paperclip.Sdk.Runtime

/-- The accesses to the save file that fail. -/
structure FileFaults where
  /-- It cannot be found out whether the file is there, which counts as if it were not. -/
  look : Bool
  read : Bool
  write : Bool
  deriving DecidableEq

/-- What the callbacks of an app are given. The save file is replaced whole: the new text goes to a
temporary file that nothing reads, which is renamed. -/
structure Context where
  viewport : Protocol.Size
  storage : Bool
  privateDir : String
  file : Option String
  faults : FileFaults

/-- What an app has of its own. Its state is of type `σ`, its game of type `γ`. -/
structure Keeper (σ γ : Type) where
  SAVE_FILE : String
  /-- What messages call the game. -/
  noun : String
  /-- The text of a game, if it can be encoded. -/
  save : γ → Option String
  /-- The game of a text that was read at a path, or what is wrong with it. -/
  load : String → String → Except String γ
  game : σ → γ
  /-- What is compared to know whether the game changed. -/
  revision : γ → ℕ
  loaded : σ → Bool
  /-- Marks the app as loaded, with the game that was found. -/
  resume : Option γ → σ → σ
  event : Protocol.Size → Runtime.Event Empty → σ → σ × Action
  draw : σ → σ × Protocol.Damage

namespace Keeper

variable {σ γ : Type} (keeper : Keeper σ γ)

def path (context : Context) : String := s!"{context.privateDir}/{keeper.SAVE_FILE}"

/-- Reads the save file at its path. -/
def loadFile (context : Context) (text : String) : Except String γ :=
  if context.faults.read then .error s!"cannot read {keeper.path context}"
  else keeper.load (keeper.path context) text

/-- What the first callback finds, and what it logs. -/
def find (context : Context) : Option γ × List Diagnostic :=
  if context.storage = false then (none, [])
  else
    match if context.faults.look then none else context.file with
    | none => (none, [])
    | some text =>
      match keeper.loadFile context text with
      | .ok game => (some game, [])
      | .error error => (none, [⟨.warn, s!"could not load the saved {keeper.noun}: {error}"⟩])

/-- What every callback but `save` begins with. -/
def loadOnce (context : Context) (app : σ) : σ × List Diagnostic :=
  if keeper.loaded app then (app, [])
  else (keeper.resume (keeper.find context).1 app, (keeper.find context).2)

/-- Writes the game. -/
def persist (context : Context) (game : γ) : Except String Unit × Context :=
  if context.storage = false then
    (.error "this app was not granted the `storage` capability", context)
  else
    match keeper.save game with
    | none => (.error s!"cannot encode the {keeper.noun} to save it", context)
    | some text =>
      if context.faults.write then
        (.error s!"cannot save the {keeper.noun} to {keeper.path context}", context)
      else (.ok (), { context with file := some text })

/-- What an event logs of the game that it wrote. -/
def notSaved : Except String Unit → List Diagnostic
  | .ok () => []
  | .error error => [⟨.warn, s!"could not save the {keeper.noun}: {error}"⟩]

/-- The app, with the context that each of its callbacks is given. -/
def app : Runtime.App (σ × Context) Empty where
  event state event :=
    let (before, outbox) := keeper.loadOnce state.2 state.1
    let (after, action) := keeper.event state.2.viewport event before
    if keeper.revision (keeper.game after) ≠ keeper.revision (keeper.game before) then
      let (result, context) := keeper.persist state.2 (keeper.game after)
      ⟨(after, context), action, outbox ++ keeper.notSaved result, []⟩
    else ⟨(after, state.2), action, outbox, []⟩
  draw state :=
    let (before, outbox) := keeper.loadOnce state.2 state.1
    let (after, damage) := keeper.draw before
    ⟨(after, state.2), damage, outbox, []⟩
  save state :=
    let (result, context) := keeper.persist state.2 (keeper.game state.1)
    ⟨(state.1, context), result, [], []⟩

end Keeper

/-! ## Runs of the process -/

/-- A process: its loop, and for each turn the accesses that failed and what was said. -/
structure Session (σ : Type) where
  loop : Loop (σ × Context)
  turns : List (FileFaults × List Whole.AppMessage)

/-- The save file, and the process while there is one. -/
structure World (σ : Type) where
  file : Option String
  session : Option (Session σ)

/-- The loop, with the file as it is. -/
def Session.looking {σ : Type} (session : Session σ) (file : Option String) (faults : FileFaults) :
    Loop (σ × Context) :=
  { session.loop with app := (session.loop.app.1, { session.loop.app.2 with file, faults }) }

/-- The process after a turn. -/
def Session.after {σ : Type} (session : Session σ) (faults : FileFaults)
    (turned : Loop (σ × Context) × List Whole.AppMessage) : Session σ :=
  ⟨turned.1, session.turns ++ [(faults, turned.2)]⟩

/-- What happens. -/
inductive Act (σ : Type) where
  | launch (app : σ) (viewport : Protocol.Size) (storage : Bool) (privateDir : String)
  | turn (incoming : Incoming Empty) (faults : FileFaults)
  /-- The process dies, maybe in a turn that has come as far as its write. -/
  | killed (during : Option (Incoming Empty × FileFaults))

namespace World

variable {σ γ : Type} (keeper : Keeper σ γ)

/-- Nothing was saved yet, and nothing runs. -/
def start : World σ := ⟨none, none⟩

/-- The process is there, and its loop has not ended. -/
def running (world : World σ) : Option (Session σ) :=
  world.session.filter fun session => session.loop.outcome.isNone

/-- One turn of the process. -/
def turn (world : World σ) (incoming : Incoming Empty) (faults : FileFaults) : World σ :=
  match world.running with
  | none => world
  | some session =>
    let loop := session.looking world.file faults
    let after := session.after faults (loop.drive keeper.app incoming)
    ⟨after.loop.app.2.file, some after⟩

/-- The world after something happened. -/
def step (world : World σ) : Act σ → World σ
  | .launch app viewport storage privateDir =>
    if world.running.isSome then world
    else
      ⟨world.file, some ⟨⟨(app, ⟨viewport, storage, privateDir, none, ⟨false, false, false⟩⟩), 0,
        none⟩, []⟩⟩
  | .turn incoming faults => world.turn keeper incoming faults
  | .killed none => { world with session := none }
  | .killed (some (incoming, faults)) => { world.turn keeper incoming faults with session := none }

/-- The world after a run from the first launch on. -/
def run (acts : List (Act σ)) : World σ := acts.foldl (step keeper) start

end World

/-! ## What is needed of an app -/

/-- What is needed of an app. `Fresh` are the apps that are launched, `Fits` the games that they may
have, and `kept` is what comes back of a game. -/
structure Keeper.Lawful {σ γ : Type} (keeper : Keeper σ γ) (Fresh : σ → Prop) (Fits : γ → Prop)
    (kept : γ → γ) : Prop where
  loaded_fresh : ∀ app, Fresh app → keeper.loaded app = false
  fits_fresh : ∀ app, Fresh app → Fits (keeper.game app)
  loaded_resume : ∀ found app, keeper.loaded (keeper.resume found app) = true
  game_resume : ∀ found app, keeper.loaded app = false →
    keeper.game (keeper.resume found app) = found.getD (keeper.game app)
  loaded_event : ∀ size event app, keeper.loaded app = true →
    keeper.loaded (keeper.event size event app).1 = true
  fits_event : ∀ size event app, keeper.loaded app = true → Fits (keeper.game app) →
    Fits (keeper.game (keeper.event size event app).1)
  revision_event : ∀ size event app, keeper.loaded app = true → Fits (keeper.game app) →
    keeper.revision (keeper.game (keeper.event size event app).1) =
      keeper.revision (keeper.game app) →
    kept (keeper.game (keeper.event size event app).1) = kept (keeper.game app)
  loaded_draw : ∀ app, keeper.loaded app = true → keeper.loaded (keeper.draw app).1 = true
  game_draw : ∀ app, keeper.game (keeper.draw app).1 = keeper.game app
  load_save : ∀ path game text, Fits game → keeper.save game = some text →
    keeper.load path text = .ok (kept game)
  fits_kept : ∀ game, Fits game → Fits (kept game)
  kept_kept : ∀ game, kept (kept game) = kept game

/-- A message that says that something failed. -/
def fails : Whole.AppMessage → Bool
  | .diagnostic _ => true
  | .saved saved => !saved.ok
  | _ => false

/-- No failure was said, and it could always be found out whether the file is there. -/
def Session.Calm {σ : Type} (session : Session σ) : Prop :=
  ∀ turn ∈ session.turns, turn.1.look = false ∧ ∀ message ∈ turn.2, fails message = false

instance {σ : Type} (session : Session σ) : Decidable session.Calm :=
  List.decidableBAll _ session.turns

namespace Keeper

section

variable {σ γ : Type} (keeper : Keeper σ γ) (Fresh : σ → Prop) (Fits : γ → Prop) (kept : γ → γ)

/-- The file was written for a game. -/
def Writes (text : String) (game : γ) : Prop :=
  ∃ saved, Fits saved ∧ keeper.save saved = some text ∧ kept saved = kept game

/-- The file has the game, or nothing was done since the launch and there is no file. -/
def Held (file : Option String) (game : γ) : Prop :=
  (∃ text, file = some text ∧ keeper.Writes Fits kept text game) ∨
    (file = none ∧ ∃ first, Fresh first ∧ kept game = kept (keeper.game first))

/-- What holds of an app and the file whatever failed. -/
structure Stable (file : Option String) (app : σ) : Prop where
  file : ∀ text ∈ file, ∃ game, keeper.Writes Fits kept text game
  fits : Fits (keeper.game app)
  fresh : keeper.loaded app = false → Fresh app

/-- The file has the game of an app that is loaded, and could be. -/
def Current (state : σ × Context) : Prop :=
  state.2.storage = true → keeper.loaded state.1 = true →
    keeper.Held Fresh Fits kept state.2.file (keeper.game state.1)

/-- What a callback keeps. -/
structure Keeps (before after : σ × Context) (outbox : List Diagnostic) : Prop where
  stable : keeper.Stable Fresh Fits kept after.2.file after.1
  loaded : keeper.loaded after.1 = true
  current : before.2.faults.look = false → outbox = [] →
    keeper.Current Fresh Fits kept before → keeper.Current Fresh Fits kept after

end

section

variable {σ γ : Type} {keeper : Keeper σ γ} {Fresh : σ → Prop} {Fits : γ → Prop} {kept : γ → γ}
  {app : σ} {context : Context} {game : γ} {text : String}

/-- A game that was written is found again. -/
theorem Lawful.loadFile (h : keeper.Lawful Fresh Fits kept) (hread : context.faults.read = false)
    (hwrites : keeper.Writes Fits kept text game) :
    keeper.loadFile context text = .ok (kept game) := by
  obtain ⟨saved, hfits, hsave, hkept⟩ := hwrites
  rw [Keeper.loadFile, hread, h.load_save _ _ _ hfits hsave, hkept]
  rfl

theorem Writes.fits (h : keeper.Lawful Fresh Fits kept)
    (hwrites : keeper.Writes Fits kept text game) : Fits (kept game) := by
  obtain ⟨saved, hfits, -, hkept⟩ := hwrites
  rw [← hkept]
  exact h.fits_kept saved hfits

theorem Writes.congr {game' : γ} (hwrites : keeper.Writes Fits kept text game)
    (hkept : kept game' = kept game) : keeper.Writes Fits kept text game' := by
  obtain ⟨saved, hfits, hsave, hsaved⟩ := hwrites
  exact ⟨saved, hfits, hsave, hsaved.trans hkept.symm⟩

theorem Held.congr {file : Option String} {game' : γ}
    (hheld : keeper.Held Fresh Fits kept file game) (hkept : kept game' = kept game) :
    keeper.Held Fresh Fits kept file game' := by
  rcases hheld with ⟨text, hfile, hwrites⟩ | ⟨hfile, first, hfresh, hfirst⟩
  · exact .inl ⟨text, hfile, hwrites.congr hkept⟩
  · exact .inr ⟨hfile, first, hfresh, hkept.trans hfirst⟩

end

end Keeper

/-! ## What every run keeps -/

section

variable {σ γ : Type} (keeper : Keeper σ γ) (Fresh : σ → Prop) (Fits : γ → Prop) (kept : γ → γ)

/-- What holds of a process and the file. -/
structure Session.Sound (file : Option String) (session : Session σ) : Prop where
  stable : keeper.Stable Fresh Fits kept file session.loop.app.1
  current : session.Calm → session.loop.app.2.storage = true →
    keeper.loaded session.loop.app.1 = true →
    keeper.Held Fresh Fits kept file (keeper.game session.loop.app.1)
  exited : ∀ reason, session.loop.outcome = some (.exited reason true) →
    ∃ text, file = some text ∧ keeper.Writes Fits kept text (keeper.game session.loop.app.1)

/-- What holds of the file, and of the process if there is one. -/
structure World.Sound (world : World σ) : Prop where
  file : ∀ text ∈ world.file, ∃ game, keeper.Writes Fits kept text game
  session : ∀ session ∈ world.session, session.Sound keeper Fresh Fits kept world.file

end

section

variable {σ γ : Type} {keeper : Keeper σ γ} {Fresh : σ → Prop} {Fits : γ → Prop} {kept : γ → γ}
  {session : Session σ} {file : Option String} {faults : FileFaults}
  {turned : Loop (σ × Context) × List Whole.AppMessage} {outbox : List Diagnostic} {world : World σ}

theorem calm_after : (session.after faults turned).Calm ↔
    session.Calm ∧ faults.look = false ∧ ∀ message ∈ turned.2, fails message = false := by
  simp only [Session.Calm, Session.after, List.forall_mem_append, List.forall_mem_singleton]

/-- A turn without a save keeps it. -/
theorem Session.Sound.after (h : session.Sound keeper Fresh Fits kept file)
    (hkeeps : keeper.Keeps Fresh Fits kept (session.looking file faults).app turned.1.app outbox)
    (hrunning : turned.1.outcome = none)
    (hquiet : (∀ message ∈ turned.2, fails message = false) → outbox = []) :
    (session.after faults turned).Sound keeper Fresh Fits kept turned.1.app.2.file := by
  refine ⟨hkeeps.stable, fun hcalm hstorage hloaded => ?_, fun reason hexited => ?_⟩
  · obtain ⟨hcalm, hlook, hsaid⟩ := calm_after.1 hcalm
    exact hkeeps.current hlook (hquiet hsaid) (h.current hcalm) hstorage hloaded
  · cases hrunning.symm.trans hexited

/-- So does one that leaves the app. -/
theorem Session.Sound.idle (h : session.Sound keeper Fresh Fits kept file)
    (happ : turned.1.app = (session.looking file faults).app)
    (hreason : ∀ reason, turned.1.outcome ≠ some (.exited reason true)) :
    (session.after faults turned).Sound keeper Fresh Fits kept turned.1.app.2.file := by
  obtain ⟨⟨app, nextQuery, outcome⟩, said⟩ := turned
  obtain rfl : app = (session.looking file faults).app := happ
  refine ⟨h.stable, fun hcalm => h.current (calm_after.1 hcalm).1, fun reason hexited => ?_⟩
  exact absurd hexited (hreason reason)

/-- The process is killed between two turns, the app launched with storage, and drawn. -/
def World.relaunched (keeper : Keeper σ γ) (world : World σ) (app : σ) (viewport : Protocol.Size)
    (privateDir : String) (request : DrawRequest) (faults : FileFaults) : World σ :=
  [.killed none, .launch app viewport true privateDir, .turn (.host (.draw request)) faults].foldl
    (World.step keeper) world

/-- What a launch draws first. -/
theorem Keeper.Lawful.draw_fresh (hlawful : keeper.Lawful Fresh Fits kept) {app : σ}
    (hfresh : Fresh app) (context : Context) :
    keeper.loaded (keeper.draw (keeper.loadOnce context app).1).1 = true ∧
      keeper.game (keeper.draw (keeper.loadOnce context app).1).1 =
        (keeper.find context).1.getD (keeper.game app) := by
  have hfirst : (keeper.loadOnce context app).1 = keeper.resume (keeper.find context).1 app := by
    rw [Keeper.loadOnce, hlawful.loaded_fresh app hfresh]
    rfl
  rw [hfirst, hlawful.game_draw]
  exact ⟨hlawful.loaded_draw _ (hlawful.loaded_resume _ app),
    hlawful.game_resume _ app (hlawful.loaded_fresh app hfresh)⟩

/-- The next launch draws a game, if the accesses to the file do not fail. -/
def World.Redraws (keeper : Keeper σ γ) (Fresh : σ → Prop) (world : World σ) (game : γ) : Prop :=
  ∀ app viewport privateDir request (faults : FileFaults), Fresh app → faults.look = false →
    faults.read = false → ∃ session,
      (world.relaunched keeper app viewport privateDir request faults).session = some session ∧
      keeper.game session.loop.app.1 = game

/-- The game is what was written. -/
theorem Keeper.Lawful.redraws (hlawful : keeper.Lawful Fresh Fits kept) {text : String} {game : γ}
    (hfile : world.file = some text) (hwrites : keeper.Writes Fits kept text game) :
    world.Redraws keeper Fresh (kept game) := by
  intro app viewport privateDir request faults hfresh hlook hread
  obtain ⟨-, hgame⟩ := hlawful.draw_fresh hfresh ⟨viewport, true, privateDir, world.file, faults⟩
  have hload : keeper.loadFile ⟨viewport, true, privateDir, some text, faults⟩ text =
      .ok (kept game) := hlawful.loadFile hread hwrites
  refine ⟨_, rfl, hgame.trans ?_⟩
  simp [Keeper.find, hlook, hfile, hload]

/-- A process with storage that said of no failure, or one that said that it saved. -/
def Session.Saved (keeper : Keeper σ γ) (session : Session σ) : Prop :=
  (keeper.loaded session.loop.app.1 = true ∧ session.loop.app.2.storage = true ∧ session.Calm) ∨
    ∃ reason, session.loop.outcome = some (.exited reason true)

end

end Paperclip.Sdk
