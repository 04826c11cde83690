import Mathlib.Algebra.Order.Floor.Defs
import Paperclip.Chess.Game
import Paperclip.Sdk.App
import Paperclip.Sdk.Chrome

/-!
# The Chess screen

What the Chess app shows on top of a game, and what a press changes of both. Coordinates are of any
ordered field with a floor.

* `BoardLayout`: the board, and which square a point is on.
* `ChessLayout`, `layout`: where everything lands.
* `ChessScreen`: what is picked up, the promotion that waits for its piece, and whether NEW GAME was
  tapped once. `press`: a tap, with what it asks for.
-/

namespace Paperclip.Chess

open Sdk

variable {c : ChessCrate}

/-- How many moves and claims have been recorded. -/
def Game.ply (game : Game c) : ℕ := game.events.length

/-- The piece on a square. -/
def Game.pieceAt (game : Game c) (square : Square) : Option (Color × PieceKind) :=
  c.squareOf game.board square

/-- The square of a file and a rank. -/
def Square.new (file rank : ℕ) : Option Square :=
  if h : file < 8 ∧ rank < 8 then some ⟨⟨file, h.1⟩, ⟨rank, h.2⟩⟩ else none

def LABEL_GUTTER : ℕ := 52

/-- Where the board sits, and which way round it is. -/
structure BoardLayout (K : Type) where
  board : Rect K
  square : K
  flipped : Bool

/-- The four promotion choices, in the order drawn. -/
def PROMOTION_CHOICES : List PieceKind := [.queen, .rook, .bishop, .knight]

/-- Where the promotion choices are drawn. -/
structure PromotionLayout (K : Type) where
  boxes : List (PieceKind × Rect K)

/-- Where everything on the screen is drawn. -/
structure ChessLayout (K : Type) where
  board : BoardLayout K
  newGame : Rect K
  flipBoard : Rect K
  home : Rect K
  /-- Present only while a draw can be claimed. -/
  claimDraw : Option (Rect K)
  /-- Present only while a move waits for its piece. -/
  promotion : Option (PromotionLayout K)

/-- What the screen shows, on top of the game. -/
structure ChessScreen where
  flipped : Bool
  selected : Option Square
  /-- The squares of a move that is legal but for the piece that it promotes to. -/
  pendingPromotion : Option (Square × Square)
  /-- NEW GAME was tapped once and awaits a second tap. -/
  newGameArmed : Bool
  deriving DecidableEq

/-- A fresh screen. -/
def ChessScreen.new : ChessScreen := ⟨false, none, none, false⟩

section

variable {K : Type} [Field K] [LinearOrder K]

/-- Which piece a point chooses. -/
def PromotionLayout.hitTest (layout : PromotionLayout K) (pointer : PointerEvent K) :
    Option PieceKind :=
  (layout.boxes.find? fun item => item.2.hit pointer).map (·.1)

/-- Where the choices land over a board. -/
def promotionLayout (layout : BoardLayout K) : PromotionLayout K :=
  let board := layout.board
  let gap : K := (24 : ℕ)
  -- 0.32 of the height
  let boxSide := min ((board.width - gap * (3 : ℕ)) / (4 : ℕ)) (board.height * (8 : ℕ) / (25 : ℕ))
  let totalWidth := boxSide * (4 : ℕ) + gap * (3 : ℕ)
  let left := board.x + board.width / (2 : ℕ) - totalWidth / (2 : ℕ)
  let top := board.y + board.height / (2 : ℕ) - boxSide / (2 : ℕ)
  ⟨PROMOTION_CHOICES.zipIdx.map fun (kind, index) =>
    (kind, ⟨left + index * (boxSide + gap), top, boxSide, boxSide⟩)⟩

variable [FloorRing K]

/-- The largest board of whole pixels in an area. -/
def BoardLayout.fit (area : Rect K) (flipped : Bool) : BoardLayout K :=
  let side : K := max ((⌊min area.width area.height / (8 : ℕ)⌋ : ℤ) : K) 1
  let boardSide := side * (8 : ℕ)
  ⟨⟨area.x + (area.width - boardSide) / (2 : ℕ), area.y, boardSide, boardSide⟩, side, flipped⟩

/-- Which square a point is on. -/
def BoardLayout.squareAt (layout : BoardLayout K) (pointer : PointerEvent K) : Option Square :=
  if layout.board.hit pointer then
    let column := ⌊(pointer.x - layout.board.x) / layout.square⌋.toNat
    let row := ⌊(pointer.y - layout.board.y) / layout.square⌋.toNat
    if layout.flipped then if column ≤ 7 then Square.new (7 - column) row else none
    else if row ≤ 7 then Square.new column (7 - row) else none
  else none

/-- Where everything on the screen lands. -/
def layout (size : Protocol.Size) (screen : ChessScreen) (game : Game c) : ChessLayout K :=
  let bounds : Rect K := .ofSize size
  let content := statusBarContentArea bounds
  let headingBottom := sectionHeadingContentTop (content.y + (40 : ℕ))
  let boardTop := headingBottom + (152 : ℕ)
  let boardBottom := bounds.height - FOOTER_HEIGHT - (96 : ℕ)
  let board : BoardLayout K := .fit
    ⟨MARGIN + LABEL_GUTTER, boardTop, bounds.width - (MARGIN + LABEL_GUTTER) * (2 : ℕ),
      boardBottom - boardTop⟩ screen.flipped
  let claimable := game.outcome.isNone && game.claimableDraw.isSome
  let labelCount := if claimable then 4 else 3
  { board := board
    newGame := footerActionRect bounds labelCount 0
    flipBoard := footerActionRect bounds labelCount 1
    home := footerActionRect bounds labelCount 2
    claimDraw := if claimable then some (footerActionRect bounds labelCount 3) else none
    promotion := screen.pendingPromotion.map fun _ => promotionLayout board }

end

/-! ## What a press does -/

/-- The side to move owns the piece on a square. -/
def ownsPieceAt (game : Game c) (square : Square) : Bool :=
  (game.pieceAt square).any fun piece => piece.1 = c.sideToMove game.board

/-- A press, with the screen and the game that it leaves. -/
structure Pressed (c : ChessCrate) where
  action : Action
  screen : ChessScreen
  game : Game c

namespace ChessScreen

/-- Picks up the piece on a square, if it is the mover's. -/
def pick (screen : ChessScreen) (game : Game c) (square : Square) : ChessScreen :=
  { screen with selected := if ownsPieceAt game square then some square else none }

/-- A tap on a square, with a piece picked up from another. -/
def move (screen : ChessScreen) (game : Game c) (from_ square : Square) : Pressed c :=
  if square ∈ game.legalDestinations from_ then
    match game.apply ⟨from_, square, none⟩ with
    | (.ok _, game) => ⟨.redraw, { screen with selected := none }, game⟩
    | (.error .promotionRequired, game) =>
      ⟨.redraw, { screen with pendingPromotion := some (from_, square) }, game⟩
    | (.error _, game) => ⟨.redraw, screen, game⟩
  else ⟨.redraw, screen.pick game square, game⟩

/-- A tap on a square. -/
def pressSquare (screen : ChessScreen) (game : Game c) (square : Square) : Pressed c :=
  match screen.selected with
  | some from_ =>
    if from_ = square then ⟨.redraw, { screen with selected := none }, game⟩
    else screen.move game from_ square
  | none => ⟨.redraw, screen.pick game square, game⟩

/-- A tap while a move waits for its piece. -/
def pressPromotion {K : Type} [Field K] [LinearOrder K] (screen : ChessScreen) (game : Game c)
    (promotion : PromotionLayout K) (pointer : PointerEvent K) : Pressed c :=
  match promotion.hitTest pointer, screen.pendingPromotion with
  | some piece, some (from_, to_) =>
    ⟨.redraw, { screen with pendingPromotion := none, selected := none },
      (game.apply ⟨from_, to_, some piece⟩).2⟩
  | _, _ => ⟨.redraw, screen, game⟩

variable {K : Type} [Field K] [LinearOrder K] [FloorRing K]

/-- A tap on none of the actions. -/
def pressBoard (screen : ChessScreen) (game : Game c) (layout : ChessLayout K)
    (pointer : PointerEvent K) : Pressed c :=
  if game.outcome.isSome then ⟨.none, screen, game⟩
  else
    match layout.board.squareAt pointer with
    | none => ⟨.none, screen, game⟩
    | some square => screen.pressSquare game square

/-- A tap with no move waiting for its piece. -/
def pressActions (screen : ChessScreen) (game : Game c) (layout : ChessLayout K)
    (pointer : PointerEvent K) : Pressed c :=
  if layout.claimDraw.any (·.hit pointer) then ⟨.redraw, screen, game.claimDraw.2⟩
  else if layout.home.hit pointer then ⟨.home, screen, game⟩
  else if layout.flipBoard.hit pointer then
    ⟨.redraw, { screen with flipped := !screen.flipped, newGameArmed := false }, game⟩
  else if layout.newGame.hit pointer then
    if screen.newGameArmed then
      ⟨.redraw, { screen with newGameArmed := false, selected := none }, .new⟩
    else ⟨.redraw, { screen with newGameArmed := true }, game⟩
  else { screen with newGameArmed := false }.pressBoard game layout pointer

/-- A pointer event, against where things were drawn. -/
def press (screen : ChessScreen) (game : Game c) (layout : ChessLayout K)
    (pointer : PointerEvent K) : Pressed c :=
  if pointer.isTap = false then ⟨.none, screen, game⟩
  else
    match layout.promotion with
    | some promotion => screen.pressPromotion game promotion pointer
    | none => screen.pressActions game layout pointer

end ChessScreen

end Paperclip.Chess
