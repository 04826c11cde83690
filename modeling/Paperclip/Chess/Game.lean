import Mathlib.Data.Nat.Notation
import Mathlib.Logic.Function.Basic

/-!
# A game of chess

Legality, check, checkmate and stalemate are the `chess` crate's; what it does not do, the draws, is
here.

* `ChessCrate`: what is taken from the crate. Squares, colours and pieces are the same on both
  sides.
* `Game`: the position, whether it is over, and the history needed to resume it and to judge
  repetition and the fifty-move rule. `Game.apply`, `Game.claimDraw`: what they return stands beside
  the game that they leave.
* `apply_error`, `apply_step`: a move that is refused changes nothing, and what one that succeeds does.
* `Plays`: what successful moves and claims lead to from a start.
* `replay`: a recorded history, from a start. `replay_events`: it leads to the game that it records.
-/

namespace Paperclip.Chess

/-- Which side. -/
inductive Color where
  | white
  | black
  deriving DecidableEq, Repr

/-- Which kind of piece. -/
inductive PieceKind where
  | pawn
  | knight
  | bishop
  | rook
  | queen
  | king
  deriving DecidableEq, Repr

/-- One of the sixty-four squares. -/
structure Square where
  file : Fin 8
  rank : Fin 8
  deriving DecidableEq, Repr

/-- A move as a player states it. -/
structure Move where
  from_ : Square
  to_ : Square
  promotion : Option PieceKind
  deriving DecidableEq

/-- Whether the side to move can move, and is in check. -/
inductive BoardStatus where
  | ongoing
  | stalemate
  | checkmate
  deriving DecidableEq

/-- What is left of a side's right to castle. -/
inductive CastleRights where
  | noRights
  | kingSide
  | queenSide
  | both
  deriving DecidableEq

/-- What is taken from the `chess` crate: boards, and the rules. `squareOf` is what both `piece_on` and
`color_on` read; `pieces` and `checkers` are the numbers of bits of what the crate returns. -/
structure ChessCrate where
  Board : Type
  default : Board
  fromStr : String → Option Board
  squareOf : Board → Square → Option (Color × PieceKind)
  sideToMove : Board → Color
  newLegal : Board → List Move
  makeMoveNew : Board → Move → Board
  status : Board → BoardStatus
  checkers : Board → ℕ
  pieces : Board → PieceKind → ℕ
  castleRights : Board → Color → CastleRights
  enPassant : Board → Option Square
  getHash : Board → ℕ

/-- A draw either side may claim. -/
inductive ClaimableDraw where
  | threefoldRepetition
  | fiftyMoveRule
  deriving DecidableEq, Repr

/-- How a finished game ended. -/
inductive Outcome where
  | checkmate (winner : Color)
  | stalemate
  | insufficientMaterial
  | fivefoldRepetition
  | seventyFiveMoveRule
  | claimed (draw : ClaimableDraw)
  deriving DecidableEq

/-- Why a move was refused. -/
inductive MoveError where
  | gameOver
  | emptySquare
  | wrongColor
  | illegal
  | promotionRequired
  | promotionNotAllowed
  deriving DecidableEq

def MoveError.text : MoveError → String
  | gameOver => "the game is over"
  | emptySquare => "there is no piece on that square"
  | wrongColor => "that piece belongs to the side not to move"
  | illegal => "that is not a legal move"
  | promotionRequired => "a promotion piece is required"
  | promotionNotAllowed => "that move does not promote a pawn"

/-- Why a draw could not be claimed. -/
inductive ClaimError where
  | gameOver
  | nothingToClaim
  deriving DecidableEq

def ClaimError.text : ClaimError → String
  | gameOver => "the game is over"
  | nothingToClaim => "no claimable draw is available"

/-- What a move did. -/
structure MoveRecord where
  mv : Move
  piece : PieceKind
  captured : Option PieceKind
  isCheck : Bool
  deriving DecidableEq

/-- One entry in a game's history. -/
inductive GameEvent where
  | move (from_ to_ : Square) (promotion : Option PieceKind)
  | claimDraw (reason : ClaimableDraw)
  deriving DecidableEq

def GameEvent.ofMove (mv : Move) : GameEvent := .move mv.from_ mv.to_ mv.promotion

def FIFTY_MOVE_CLAIM : ℕ := 100
def SEVENTY_FIVE_MOVE_AUTOMATIC : ℕ := 150
def THREEFOLD_CLAIM : ℕ := 3
def FIVEFOLD_AUTOMATIC : ℕ := 5

/-- What tells repeated positions. -/
abbrev RepetitionKey := ℕ × Bool × ℕ × ℕ × Option ℕ

def castleBits : CastleRights → ℕ
  | .noRights => 0
  | .kingSide => 1
  | .queenSide => 2
  | .both => 3

/-- The index of a square. -/
def Square.toIndex (square : Square) : ℕ := square.rank * 8 + square.file

variable {c : ChessCrate}

def repetitionKey (board : c.Board) : RepetitionKey :=
  (c.getHash board, c.sideToMove board = .white, castleBits (c.castleRights board .white),
    castleBits (c.castleRights board .black), (c.enPassant board).map Square.toIndex)

/-- Neither side has enough material to deliver checkmate. -/
def insufficientMaterial (board : c.Board) : Bool :=
  let noHeavyMaterial := c.pieces board .pawn = 0 ∧ c.pieces board .rook = 0 ∧
    c.pieces board .queen = 0
  let minors := c.pieces board .knight + c.pieces board .bishop
  noHeavyMaterial ∧ minors ≤ 1

/-- One local two-player game. -/
structure Game (c : ChessCrate) where
  board : c.Board
  outcome : Option Outcome
  halfmoveClock : ℕ
  positionCounts : RepetitionKey → ℕ
  events : List GameEvent

namespace Game

def fromBoard (board : c.Board) (halfmoveClock : ℕ) : Game c where
  board
  outcome := none
  halfmoveClock
  positionCounts := Function.update (fun _ => 0) (repetitionKey board) 1
  events := []

/-- The starting position. -/
def new : Game c := fromBoard c.default 0

/-- Builds a position from FEN. -/
def fromFen (fen : String) : Option (Game c) := (c.fromStr fen).map fun board => fromBoard board 0

/-- Whether the side to move is in check. -/
def isInCheck (game : Game c) : Bool := 0 < c.checkers game.board

/-- A draw available to claim. -/
def claimableDraw (game : Game c) : Option ClaimableDraw :=
  if game.outcome.isSome then none
  else if THREEFOLD_CLAIM ≤ game.positionCounts (repetitionKey game.board) then
    some .threefoldRepetition
  else if FIFTY_MOVE_CLAIM ≤ game.halfmoveClock then some .fiftyMoveRule
  else none

/-- Every square a piece may legally move to. -/
def legalDestinations (game : Game c) (from_ : Square) : List Square :=
  if game.outcome.isSome then []
  else
    ((c.newLegal game.board).filter fun candidate => candidate.from_ = from_).foldl
      (fun destinations candidate =>
        if candidate.to_ ∈ destinations then destinations else destinations ++ [candidate.to_]) []

def deriveAutomaticOutcome (board : c.Board) (halfmoveClock occurrences : ℕ) : Option Outcome :=
  match c.status board with
  | .checkmate => some (.checkmate (if c.sideToMove board = .white then .black else .white))
  | .stalemate => some .stalemate
  | .ongoing =>
    if insufficientMaterial board then some .insufficientMaterial
    else if FIVEFOLD_AUTOMATIC ≤ occurrences then some .fivefoldRepetition
    else if SEVENTY_FIVE_MOVE_AUTOMATIC ≤ halfmoveClock then some .seventyFiveMoveRule
    else none

/-- The candidate that a move means. -/
def choose (candidates : List Move) (promotion : Option PieceKind) : Except MoveError Move :=
  match candidates with
  | [] => .error .illegal
  | first :: _ =>
    let needsPromotion := candidates.any fun candidate => candidate.promotion.isSome
    match needsPromotion, promotion with
    | true, none => .error .promotionRequired
    | true, some piece =>
      match candidates.find? fun candidate => candidate.promotion = some piece with
      | some candidate => .ok candidate
      | none => .error .illegal
    | false, some _ => .error .promotionNotAllowed
    | false, none => .ok first

/-- Applies a move, or refuses it. -/
def apply (game : Game c) (mv : Move) : Except MoveError MoveRecord × Game c :=
  if game.outcome.isSome then (.error .gameOver, game)
  else
    match c.squareOf game.board mv.from_ with
    | none => (.error .emptySquare, game)
    | some (movingColor, movingPiece) =>
      if movingColor ≠ c.sideToMove game.board then (.error .wrongColor, game)
      else
        let candidates := (c.newLegal game.board).filter fun candidate =>
          candidate.from_ = mv.from_ ∧ candidate.to_ = mv.to_
        match choose candidates mv.promotion with
        | .error e => (.error e, game)
        | .ok chosen =>
          -- a pawn that moves diagonally onto an empty square captures en passant
          let captured := match c.squareOf game.board mv.to_ with
            | some (_, piece) => some piece
            | none =>
              if movingPiece = .pawn ∧ mv.from_.file ≠ mv.to_.file then some .pawn else none
          let resetsClock := movingPiece = .pawn ∨ captured.isSome
          let board := c.makeMoveNew game.board chosen
          let halfmoveClock := if resetsClock then 0 else game.halfmoveClock + 1
          let key := repetitionKey board
          let occurrences := game.positionCounts key + 1
          let game : Game c := {
            board
            outcome := deriveAutomaticOutcome board halfmoveClock occurrences
            halfmoveClock
            positionCounts := Function.update game.positionCounts key occurrences
            events := game.events ++ [.ofMove mv] }
          (.ok ⟨mv, movingPiece, captured, game.isInCheck⟩, game)

/-- Claims the available draw, ending the game. -/
def claimDraw (game : Game c) : Except ClaimError ClaimableDraw × Game c :=
  if game.outcome.isSome then (.error .gameOver, game)
  else
    match game.claimableDraw with
    | none => (.error .nothingToClaim, game)
    | some claim =>
      (.ok claim, { game with
        outcome := some (.claimed claim)
        events := game.events ++ [.claimDraw claim] })

end Game

def ClaimableDraw.debug : ClaimableDraw → String
  | threefoldRepetition => "ThreefoldRepetition"
  | fiftyMoveRule => "FiftyMoveRule"

/-- Replays a recorded history. -/
def replay : List GameEvent → Game c → Except String (Game c)
  | [], game => .ok game
  | .move from_ to_ promotion :: rest, game =>
    match game.apply ⟨from_, to_, promotion⟩ with
    | (.error e, _) => .error e.text
    | (.ok _, game) => replay rest game
  | .claimDraw reason :: rest, game =>
    match game.claimDraw with
    | (.error e, _) => .error e.text
    | (.ok claimed, game) =>
      if claimed ≠ reason then
        .error ("recorded claim " ++ reason.debug ++ " does not match the draw actually available (" ++
          claimed.debug ++ ")")
      else replay rest game

/-- Rebuilds a game by replaying a recorded history from the start. -/
def Game.fromEvents (events : List GameEvent) : Except String (Game c) := replay events .new

/-- What successful moves and claims lead to. -/
inductive Plays (start : Game c) : Game c → Prop where
  | start : Plays start start
  | apply {game : Game c} (h : Plays start game) {mv : Move} {record : MoveRecord}
      (h' : (game.apply mv).1 = .ok record) : Plays start (game.apply mv).2
  | claimDraw {game : Game c} (h : Plays start game) {claim : ClaimableDraw}
      (h' : game.claimDraw.1 = .ok claim) : Plays start game.claimDraw.2

section

variable {start game game' : Game c} {events : List GameEvent}

/-- A move that succeeds is the next event. -/
theorem apply_ok {mv : Move} {record : MoveRecord} (h : (game.apply mv).1 = .ok record) :
    (game.apply mv).2.events = game.events ++ [.ofMove mv] := by
  unfold Game.apply at h ⊢
  split at h
  · cases h
  · next hover =>
    rw [if_neg hover]
    split at h
    · cases h
    · next hsquare =>
      split at h
      · cases h
      · next hcolor =>
        dsimp only at h ⊢
        split at h
        · cases h
        · next hchosen =>
          simp only [if_neg hcolor]

/-- A move that is refused changes nothing. -/
theorem apply_error {mv : Move} {e : MoveError} (h : (game.apply mv).1 = .error e) :
    (game.apply mv).2 = game := by
  unfold Game.apply at h ⊢
  split
  · rfl
  · next hover =>
    rw [if_neg hover] at h
    split
    · rfl
    · next hsquare =>
      simp only [hsquare] at h
      split
      · rfl
      · next hcolor =>
        rw [if_neg hcolor] at h
        dsimp only at h ⊢
        split
        · rfl
        · next hchosen =>
          rw [hchosen] at h
          cases h

/-- What is chosen is a candidate. -/
theorem choose_ok {candidates : List Move} {promotion : Option PieceKind} {chosen : Move}
    (h : Game.choose candidates promotion = .ok chosen) : chosen ∈ candidates := by
  unfold Game.choose at h
  split at h
  · cases h
  · dsimp only at h
    split at h
    · cases h
    · split at h
      · next hfind =>
        cases h
        exact List.mem_of_find?_eq_some hfind
      · cases h
    · cases h
    · cases h
      exact List.mem_cons_self ..

/-- The game after a move: on the board of a legal move, with the clock and the counts moved on. -/
def Game.after (game : Game c) (mv : Move) (board : c.Board) (clock : ℕ) : Game c where
  board
  outcome := Game.deriveAutomaticOutcome board clock (game.positionCounts (repetitionKey board) + 1)
  halfmoveClock := clock
  positionCounts := Function.update game.positionCounts (repetitionKey board)
    (game.positionCounts (repetitionKey board) + 1)
  events := game.events ++ [.ofMove mv]

/-- The clock after a piece has moved to a square. -/
def Game.clockAfter (game : Game c) (piece : PieceKind) (to_ : Square) : ℕ :=
  if piece = .pawn ∨ (c.squareOf game.board to_).isSome then 0 else game.halfmoveClock + 1

/-- What a move that succeeds has done. -/
theorem apply_step {mv : Move} {record : MoveRecord} (h : (game.apply mv).1 = .ok record) :
    game.outcome = none ∧ ∃ piece chosen,
      c.squareOf game.board mv.from_ = some (c.sideToMove game.board, piece) ∧
      chosen ∈ c.newLegal game.board ∧ chosen.from_ = mv.from_ ∧ chosen.to_ = mv.to_ ∧
      (game.apply mv).2 =
        game.after mv (c.makeMoveNew game.board chosen) (game.clockAfter piece mv.to_) := by
  unfold Game.apply at h ⊢
  split at h
  · cases h
  · next hover =>
    rw [if_neg hover]
    refine ⟨by simpa using hover, ?_⟩
    split at h
    · cases h
    · next color piece hsquare =>
      split at h
      · cases h
      · next hcolor =>
        dsimp only at h ⊢
        split at h
        · cases h
        · next chosen hchosen =>
          obtain ⟨hlegal, hmove⟩ := List.mem_filter.1 (choose_ok hchosen)
          obtain ⟨hfrom, hto⟩ := of_decide_eq_true hmove
          refine ⟨piece, chosen, by rw [hsquare, not_not.1 hcolor], hlegal, hfrom, hto, ?_⟩
          rw [if_neg hcolor]
          unfold Game.after Game.clockAfter
          cases c.squareOf game.board mv.to_ with
          | some taken => rfl
          | none =>
            -- a capture en passant resets the clock as the pawn's move
            by_cases hpawn : piece = .pawn
            · simp only [if_pos (Or.inl hpawn)]
            · simp [hpawn]

/-- A claim that succeeds is the next event. -/
theorem claimDraw_ok {claim : ClaimableDraw} (h : game.claimDraw.1 = .ok claim) :
    game.claimDraw.2.events = game.events ++ [.claimDraw claim] := by
  unfold Game.claimDraw at h ⊢
  split at h
  · cases h
  · next hover =>
    rw [if_neg hover]
    split at h
    · cases h
    · next hclaim =>
      cases h
      rfl

theorem replay_append (events events' : List GameEvent) (start : Game c) :
    replay (events ++ events') start = (replay events start).bind (replay events') := by
  induction events generalizing start with
  | nil => rfl
  | cons event rest ih =>
    cases event with
    | move from_ to_ promotion =>
      simp only [List.cons_append, replay]
      rcases start.apply ⟨from_, to_, promotion⟩ with ⟨_ | record, game⟩
      · rfl
      · exact ih game
    | claimDraw reason =>
      simp only [List.cons_append, replay]
      rcases start.claimDraw with ⟨_ | claimed, game⟩
      · rfl
      · dsimp only
        split
        · rfl
        · exact ih game

/-- The history of a game leads from its start to the game. -/
theorem replay_events (h : Plays start game) (hstart : start.events = []) :
    replay game.events start = .ok game := by
  induction h with
  | start =>
    rw [hstart]
    rfl
  | @apply game h mv record h' ih =>
    rw [apply_ok h', replay_append, ih]
    show replay [.move mv.from_ mv.to_ mv.promotion] game = _
    rw [replay]
    rcases heq : game.apply mv with ⟨result, next⟩
    rw [heq] at h'
    cases h'
    rfl
  | @claimDraw game h claim h' ih =>
    rw [claimDraw_ok h', replay_append, ih]
    show replay [.claimDraw claim] game = _
    rw [replay]
    rcases heq : game.claimDraw with ⟨result, next⟩
    rw [heq] at h'
    cases h'
    exact if_neg (not_not.2 rfl)

/-- What is replayed has been played. -/
theorem plays_replay (h : replay events game = .ok game') (hplays : Plays start game) :
    Plays start game' := by
  induction events generalizing game with
  | nil =>
    cases h
    exact hplays
  | cons event rest ih =>
    cases event with
    | move from_ to_ promotion =>
      rw [replay] at h
      split at h
      · cases h
      · next record next heq =>
        have happly : (game.apply ⟨from_, to_, promotion⟩).1 = .ok record := by rw [heq]
        have hnext := hplays.apply happly
        rw [heq] at hnext
        exact ih h hnext
    | claimDraw reason =>
      rw [replay] at h
      split at h
      · cases h
      · next claimed next heq =>
        split at h
        · cases h
        · have hclaim : game.claimDraw.1 = .ok claimed := by rw [heq]
          have hnext := hplays.claimDraw hclaim
          rw [heq] at hnext
          exact ih h hnext

end

end Paperclip.Chess
