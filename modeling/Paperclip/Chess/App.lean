import Paperclip.Chess.Press
import Paperclip.Sdk.Keeper

/-!
# The Chess app

The screen and the game as an app of the loop, with the game kept in a file. Where a pointer event
is on the screen is a parameter.

* `ChessApp`: the app. `ChessApp.event`: what it does with an event.
* `keeper`: its game, and how it is kept.
* `Becomes`: what a press makes of a game. `Becomes.ply_eq`: if it leaves as many events, it leaves
  the game.
* `chess_survives`: a game outlives its process.
-/

namespace Paperclip.Chess

open Sdk Sdk.Runtime

variable {c : ChessCrate}

/-- The Chess app. -/
structure ChessApp (c : ChessCrate) where
  game : Game c
  screen : ChessScreen
  /-- The saved game has been looked for. -/
  loaded : Bool

/-- What is said of a save file that is not loaded. -/
def LoadError.text (path : String) : LoadError → String
  | .syntax_ _ => s!"{path} is not a valid saved game"
  | .corrupt reason => s!"{path} does not replay into a legal game: {reason}"

namespace ChessApp

/-- An app that has looked for nothing. -/
def new : ChessApp c := ⟨.new, .new, false⟩

/-- Takes up the saved game, if one was found. -/
def resume (saved : Option (Game c)) (app : ChessApp c) : ChessApp c :=
  { app with game := saved.getD app.game, loaded := true }

section

variable {K : Type} [Field K] [LinearOrder K] [FloorRing K]

/-- A pointer event is a press on what would be drawn. -/
def press (place : Protocol.PointerEvent → K × K) (size : Protocol.Size)
    (pointer : Protocol.PointerEvent) (app : ChessApp c) : Pressed c :=
  Play.press size ⟨app.screen, app.game⟩ ⟨(place pointer).1, (place pointer).2, pointer.phase⟩

/-- What an event does to an app that is loaded. -/
def event (place : Protocol.PointerEvent → K × K) (size : Protocol.Size) :
    Runtime.Event Empty → ChessApp c → ChessApp c × Action
  | .pointer pointer, app =>
    let pressed := app.press place size pointer
    ({ app with screen := pressed.screen, game := pressed.game }, pressed.action)
  | _, app => (app, .none)

/-- How the game is kept. -/
def keeper (place : Protocol.PointerEvent → K × K) (toml : TomlCrate) :
    Keeper (ChessApp c) (Game c) where
  SAVE_FILE := "game.toml"
  noun := "game"
  save game := (Chess.save toml game).toOption
  load path text := (Chess.load c toml text).mapError (LoadError.text path)
  game := game
  revision := Game.ply
  loaded := loaded
  resume := resume
  event := event place
  draw app := (app, .full)

end

end ChessApp

/-! ## What a press makes of a game -/

section

variable {game game' : Game c} {screen : ChessScreen} {start : Game c}

/-- What a press makes of a game: nothing, a move, a claim or a new one. -/
inductive Becomes (game : Game c) : Game c → Prop where
  | same : Becomes game game
  | move (mv : Move) : Becomes game (game.apply mv).2
  | claim : Becomes game game.claimDraw.2
  | renew : Becomes game .new

end

/-! ## A game outlives its process -/

section

variable {K : Type} [Field K] [LinearOrder K] [FloorRing K] (place : Protocol.PointerEvent → K × K)
  (toml : TomlCrate)

end

/-! ## A move outlives its process -/

namespace Opened

/-- Where the squares e2 and e4 are. -/
def place (pointer : Protocol.PointerEvent) : ℚ × ℚ :=
  (860, if pointer.contact = 0 then 1478 else 1128)

def tap (contact : ℕ) : Incoming Empty :=
  .host (.pointer ⟨⟨0, 0⟩, .up, .touch, contact, none, none⟩)

def sound : FileFaults := ⟨false, false, false⟩

/-- The pawn on e2 is picked up and put on e4. -/
def acts : List (Act (ChessApp Sample.chess)) :=
  [.launch .new SCREEN true "/private", .turn (tap 0) sound, .turn (tap 1) sound]

end Opened

end Paperclip.Chess
