import Paperclip.Chess.Over

/-!
# Draws, from the history

What a game keeps of its history, against the rules over all of it.

* `Same`: positions that are the same: placement, side to move, castling, and the legal captures en
  passant.
* `ruledOutcome`, `ruledClaim`: what the rules give for a list of plies from a start.
* `play`: moves that are all accepted.
* `Kept`: the board, the clock and the counts of a game are those of its history.
* `draws_ruled`: so is what it says, if positions that are the same never differ in what the crate
  says of en passant. `pinned_pawn`: where the pawn that could capture is pinned, they do.
-/

namespace Paperclip.Chess

variable {c : ChessCrate}

/-! ## The rules -/

/-- The same pieces on the same squares. -/
def SamePlacement (a b : c.Board) : Prop :=
  ∀ file rank, c.squareOf a ⟨file, rank⟩ = c.squareOf b ⟨file, rank⟩

/-- The same pieces, side to move and castling rights. -/
def SameBut (a b : c.Board) : Prop :=
  SamePlacement a b ∧ c.sideToMove a = c.sideToMove b ∧
    c.castleRights a .white = c.castleRights b .white ∧
    c.castleRights a .black = c.castleRights b .black

/-- The legal captures en passant: of a pawn, to another file, onto an empty square. -/
def enPassantCaptures (board : c.Board) : List Move :=
  (c.newLegal board).filter fun mv =>
    (c.squareOf board mv.from_).map Prod.snd = some .pawn ∧ mv.from_.file ≠ mv.to_.file ∧
      c.squareOf board mv.to_ = none

/-- The same position, for repetition. -/
def Same (a b : c.Board) : Prop :=
  SameBut a b ∧ (∀ mv ∈ enPassantCaptures a, mv ∈ enPassantCaptures b) ∧
    ∀ mv ∈ enPassantCaptures b, mv ∈ enPassantCaptures a

instance (a b : c.Board) : Decidable (SamePlacement a b) :=
  inferInstanceAs (Decidable (∀ file rank, c.squareOf a ⟨file, rank⟩ = c.squareOf b ⟨file, rank⟩))

instance (a b : c.Board) : Decidable (SameBut a b) := inferInstanceAs (Decidable (_ ∧ _))

instance (a b : c.Board) : Decidable (Same a b) := inferInstanceAs (Decidable (_ ∧ _))

/-- One move of a history, with the positions before and after it. -/
structure Ply (c : ChessCrate) where
  before : c.Board
  mv : Move
  after : c.Board

/-- A capture or a pawn move. -/
def Ply.resets (ply : Ply c) : Bool :=
  (c.squareOf ply.before ply.mv.from_).map Prod.snd = some .pawn ∨
    (c.squareOf ply.before ply.mv.to_).isSome

/-- All positions of a history. -/
def positions (start : c.Board) (plies : List (Ply c)) : List c.Board :=
  start :: plies.map Ply.after

/-- The position that a history ends with. -/
def current (start : c.Board) (plies : List (Ply c)) : c.Board :=
  (plies.getLast?.map Ply.after).getD start

/-- How often the last position of a history has occurred in it. -/
def occurrences (start : c.Board) (plies : List (Ply c)) : ℕ :=
  (positions start plies).countP fun board => Same board (current start plies)

/-- The plies since the last capture or pawn move. -/
def quietPlies (plies : List (Ply c)) : ℕ := (plies.reverse.takeWhile fun ply => !ply.resets).length

/-- How a history has ended. -/
def ruledOutcome (start : c.Board) (plies : List (Ply c)) : Option Outcome :=
  let board := current start plies
  if c.newLegal board = [] then
    if 0 < c.checkers board then
      some (.checkmate (if c.sideToMove board = .white then .black else .white))
    else some .stalemate
  else if insufficientMaterial board then some .insufficientMaterial
  else if 5 ≤ occurrences start plies then some .fivefoldRepetition
  else if 150 ≤ quietPlies plies then some .seventyFiveMoveRule
  else none

/-- The draw that can be claimed after a history. -/
def ruledClaim (start : c.Board) (plies : List (Ply c)) : Option ClaimableDraw :=
  if (ruledOutcome start plies).isSome then none
  else if 3 ≤ occurrences start plies then some .threefoldRepetition
  else if 100 ≤ quietPlies plies then some .fiftyMoveRule
  else none

/-! ## A game -/

/-- The plies and the end of moves that are all accepted. -/
def play : List Move → Game c → Option (List (Ply c) × Game c)
  | [], game => some ([], game)
  | mv :: rest, game =>
    match game.apply mv with
    | (.error _, _) => none
    | (.ok _, next) =>
      (play rest next).map fun (plies, last) => (⟨game.board, mv, next.board⟩ :: plies, last)

/-- What is known of the crate: a hash that tells boards apart, legal moves that a board determines,
and a status that is read off them. -/
structure ChessCrate.Known (c : ChessCrate) : Prop where
  hash : ∀ a b, c.getHash a = c.getHash b ↔ SameBut a b ∧ c.enPassant a = c.enPassant b
  moves : ∀ a b, c.getHash a = c.getHash b → ∀ mv ∈ c.newLegal a, mv ∈ c.newLegal b
  status : ∀ board, c.status board =
    if c.newLegal board = [] then if 0 < c.checkers board then .checkmate else .stalemate
    else .ongoing

/-- What a game keeps is what its history says. -/
structure Kept (start : c.Board) (plies : List (Ply c)) (game : Game c) : Prop where
  board : game.board = current start plies
  clock : game.halfmoveClock = quietPlies plies
  counts : ∀ key, game.positionCounts key =
    (positions start plies).countP fun board => repetitionKey board = key
  outcome : game.outcome = if plies = [] then none else
    Game.deriveAutomaticOutcome game.board game.halfmoveClock
      (game.positionCounts (repetitionKey game.board))
  few : ∀ key, game.positionCounts key ≤ if game.outcome = none then 4 else 5

section

variable {start : c.Board} {plies more : List (Ply c)} {game last : Game c}

theorem current_concat (ply : Ply c) : current start (plies ++ [ply]) = ply.after := by
  rw [current, List.getLast?_concat]
  rfl

theorem quietPlies_concat (ply : Ply c) :
    quietPlies (plies ++ [ply]) = if ply.resets then 0 else quietPlies plies + 1 := by
  rw [quietPlies, List.reverse_concat, List.takeWhile_cons]
  cases ply.resets with
  | true => rfl
  | false => rfl

/-- Where no outcome is derived, the position has not occurred too often. -/
theorem few_of_derive {board : c.Board} {clock occurrences : ℕ}
    (h : Game.deriveAutomaticOutcome board clock occurrences = none) : occurrences ≤ 4 := by
  unfold Game.deriveAutomaticOutcome at h
  split at h
  · cases h
  · cases h
  · split at h
    · cases h
    split at h
    · cases h
    · next hfew => exact Nat.le_of_lt_succ (Nat.lt_of_not_le hfew)

theorem fromBoard_counts (key : RepetitionKey) : (Game.fromBoard start 0).positionCounts key =
    if key = repetitionKey start then 1 else 0 :=
  Function.update_apply (fun _ => 0) (repetitionKey start) 1 key

theorem after_counts (mv : Move) (board : c.Board) (clock : ℕ) (key : RepetitionKey) :
    (game.after mv board clock).positionCounts key =
      if key = repetitionKey board then game.positionCounts (repetitionKey board) + 1
      else game.positionCounts key :=
  Function.update_apply game.positionCounts (repetitionKey board) _ key

theorem kept_start : Kept start [] (Game.fromBoard start 0) where
  board := rfl
  clock := rfl
  counts key := by
    rw [positions, List.map_nil, List.countP_singleton, fromBoard_counts]
    simp only [decide_eq_true_eq, eq_comm (a := key)]
  outcome := rfl
  few key := by
    rw [fromBoard_counts]
    show _ ≤ if (none : Option Outcome) = none then 4 else 5
    rw [if_pos rfl]
    split <;> decide

/-- A move that is accepted: the game after it keeps one more ply. -/
theorem Kept.apply (h : Kept start plies game) {mv : Move} {record : MoveRecord}
    (hok : (game.apply mv).1 = .ok record) :
    Kept start (plies ++ [⟨game.board, mv, (game.apply mv).2.board⟩]) (game.apply mv).2 := by
  obtain ⟨hnone, piece, chosen, hsquare, -, -, -, hnext⟩ := apply_step hok
  rw [hnext]
  generalize c.makeMoveNew game.board chosen = board
  have hfew (key : RepetitionKey) : game.positionCounts key ≤ 4 := by
    have := h.few key
    rwa [if_pos hnone] at this
  constructor
  · rw [current_concat]
  · have hresets : (Ply.resets ⟨game.board, mv, board⟩ : Bool) =
        decide (piece = .pawn ∨ (c.squareOf game.board mv.to_).isSome) := by
      simp [Ply.resets, hsquare]
    show game.clockAfter piece mv.to_ = _
    rw [quietPlies_concat, ← h.clock]
    show _ = if (Ply.resets ⟨game.board, mv, board⟩ : Bool) then _ else _
    rw [hresets, Game.clockAfter]
    simp only [decide_eq_true_eq]
  · intro key
    rw [after_counts, positions, List.map_append, ← List.cons_append, List.countP_append,
      List.map_singleton, List.countP_singleton]
    show _ = (positions start plies).countP _ +
      if decide (repetitionKey board = key) = true then 1 else 0
    rw [← h.counts]
    by_cases hkey : key = repetitionKey board
    · rw [if_pos hkey, if_pos (decide_eq_true hkey.symm), hkey]
    · rw [if_neg hkey, if_neg (by simpa using Ne.symm hkey), Nat.add_zero]
  · rw [if_neg (by simp)]
    rw [after_counts, if_pos (by rfl)]
    rfl
  · intro key
    rw [after_counts]
    show _ ≤ if Game.deriveAutomaticOutcome _ _ _ = none then 4 else 5
    have hother := hfew key
    have hboard := hfew (repetitionKey board)
    split
    · split
      · next hderive => exact few_of_derive hderive
      · omega
    · split
      · exact hother
      · omega

/-- Moves that are all accepted: the last game keeps all of their plies. -/
theorem kept_play {moves : List Move} (h : Kept start plies game)
    (hplay : play moves game = some (more, last)) : Kept start (plies ++ more) last := by
  induction moves generalizing plies game more with
  | nil =>
    cases hplay
    rwa [List.append_nil]
  | cons mv rest ih =>
    rw [play] at hplay
    split at hplay
    · cases hplay
    · next record next happly =>
      obtain ⟨⟨plies', last'⟩, hrest, heq⟩ := Option.map_eq_some_iff.1 hplay
      cases heq
      have hok : (game.apply mv).1 = .ok record := by rw [happly]
      have hkept := h.apply hok
      rw [happly] at hkept
      have := ih hkept hrest
      rwa [List.append_assoc, List.singleton_append] at this

/-! ## The game and the rules -/

theorem mem_enPassantCaptures (hknown : c.Known) {a b : c.Board} (hhash : c.getHash a = c.getHash b)
    {mv : Move} (h : mv ∈ enPassantCaptures a) : mv ∈ enPassantCaptures b := by
  obtain ⟨⟨hplacement, -⟩, -⟩ := (hknown.hash a b).1 hhash
  obtain ⟨hlegal, hcapture⟩ := List.mem_filter.1 h
  have hfrom : c.squareOf a mv.from_ = c.squareOf b mv.from_ := hplacement _ _
  have hto : c.squareOf a mv.to_ = c.squareOf b mv.to_ := hplacement _ _
  rw [hfrom, hto] at hcapture
  exact List.mem_filter.2 ⟨hknown.moves a b hhash mv hlegal, hcapture⟩

/-- What tells positions apart for a game: what the rules do, and the crate's en passant square. -/
theorem repetitionKey_eq_iff (hknown : c.Known) {a b : c.Board} :
    repetitionKey a = repetitionKey b ↔ Same a b ∧ c.enPassant a = c.enPassant b := by
  constructor
  · intro hkey
    have hhash : c.getHash a = c.getHash b := congrArg Prod.fst hkey
    obtain ⟨hbut, hep⟩ := (hknown.hash a b).1 hhash
    exact ⟨⟨hbut, fun mv h => mem_enPassantCaptures hknown hhash h,
      fun mv h => mem_enPassantCaptures hknown hhash.symm h⟩, hep⟩
  · rintro ⟨⟨hbut, -⟩, hep⟩
    have hhash := (hknown.hash a b).2 ⟨hbut, hep⟩
    obtain ⟨-, hside, hwhite, hblack⟩ := hbut
    rw [repetitionKey, repetitionKey, hhash, hside, hwhite, hblack, hep]

theorem current_mem : current start plies ∈ positions start plies := by
  rcases List.eq_nil_or_concat plies with rfl | ⟨before, ply, rfl⟩
  · exact List.mem_cons_self ..
  · rw [List.concat_eq_append, current_concat]
    have hlast : ply ∈ before ++ [ply] := List.mem_append_right _ (List.mem_singleton.2 rfl)
    exact List.mem_cons_of_mem _ (List.mem_map_of_mem hlast)

/-- Two counts of a list, where what one counts the other does, agree just if so the other way. -/
theorem countP_eq_iff {α : Type} {p q : α → Bool} {list : List α}
    (h : ∀ a ∈ list, p a = true → q a = true) :
    list.countP p = list.countP q ↔ ∀ a ∈ list, q a = true → p a = true := by
  induction list with
  | nil => exact iff_of_true rfl fun _ ha => by cases ha
  | cons a rest ih =>
    obtain ⟨hhead, hrest⟩ := List.forall_mem_cons.1 h
    have hle : rest.countP p ≤ rest.countP q := List.countP_mono_left hrest
    rw [List.forall_mem_cons, ← ih hrest, List.countP_cons, List.countP_cons]
    cases hp : p a with
    | true =>
      rw [if_pos rfl, if_pos (hhead hp)]
      simp
    | false =>
      cases hq : q a with
      | true => simp; omega
      | false => simp

/-- No earlier position is the same as the last one but for what the crate says of en passant. -/
def Agreeing (start : c.Board) (plies : List (Ply c)) : Prop :=
  ∀ board ∈ positions start plies, Same board (current start plies) →
    c.enPassant board = c.enPassant (current start plies)

instance (start : c.Board) (plies : List (Ply c)) : Decidable (Agreeing start plies) :=
  inferInstanceAs (Decidable (∀ board ∈ positions start plies, Same board (current start plies) →
    c.enPassant board = c.enPassant (current start plies)))

/-- The count of the position on the board is that of the rules just if such positions agree. -/
theorem Kept.occurrences_iff (hknown : c.Known) (h : Kept start plies game) :
    game.positionCounts (repetitionKey game.board) = occurrences start plies ↔
      Agreeing start plies := by
  rw [h.counts, h.board, occurrences, countP_eq_iff]
  · refine forall₂_congr fun board _ => ?_
    rw [decide_eq_true_eq, decide_eq_true_eq, repetitionKey_eq_iff hknown]
    exact ⟨fun h hsame => (h hsame).2, fun h hsame => ⟨hsame, h hsame⟩⟩
  · intro board _ hkey
    rw [decide_eq_true_eq, repetitionKey_eq_iff hknown] at hkey
    exact decide_eq_true hkey.1

theorem derive_eq (hknown : c.Known) (board : c.Board) (clock count : ℕ) :
    Game.deriveAutomaticOutcome board clock count =
      if c.newLegal board = [] then
        if 0 < c.checkers board then
          some (.checkmate (if c.sideToMove board = .white then .black else .white))
        else some .stalemate
      else if insufficientMaterial board then some .insufficientMaterial
      else if 5 ≤ count then some .fivefoldRepetition
      else if 150 ≤ clock then some .seventyFiveMoveRule
      else none := by
  rw [Game.deriveAutomaticOutcome, hknown.status]
  by_cases hlegal : c.newLegal board = []
  · rw [if_pos hlegal, if_pos hlegal]
    by_cases hcheck : 0 < c.checkers board
    · rw [if_pos hcheck, if_pos hcheck]
    · rw [if_neg hcheck, if_neg hcheck]
  · rw [if_neg hlegal, if_neg hlegal]
    rfl

/-- A start where a game can continue has not ended it. -/
theorem ruledOutcome_start (hstart : CanContinue start) : ruledOutcome start [] = none := by
  obtain ⟨hlegal, hmaterial⟩ := hstart
  have hone : occurrences start [] ≤ 1 := List.countP_le_length
  show (if c.newLegal start = [] then _ else _) = none
  rw [if_neg hlegal]
  show (if insufficientMaterial start = true then _ else _) = none
  rw [if_neg (by rw [hmaterial]; decide), if_neg (by omega)]
  rfl

/-- After any accepted moves from a start where a game can continue: the count of the position on
the board is that of the rules just if no earlier position is the same but for what the crate says of
en passant, and if none is, the outcome and the draw that can be claimed are those of the whole
history. No counter passes five. -/
theorem draws_ruled (hknown : c.Known) (moves : List Move)
    (hplay : play moves (Game.fromBoard start 0) = some (plies, game))
    (hstart : CanContinue start) :
    (game.positionCounts (repetitionKey game.board) = occurrences start plies ↔
      Agreeing start plies) ∧
    (Agreeing start plies →
      game.claimableDraw = ruledClaim start plies ∧ game.outcome = ruledOutcome start plies) ∧
    ∀ key, game.positionCounts key ≤ 5 := by
  have hkept : Kept start plies game := kept_play kept_start hplay
  refine ⟨hkept.occurrences_iff hknown, fun hagree => ?_,
    fun key => Nat.le_trans (hkept.few key) ?_⟩
  · have hcount := (hkept.occurrences_iff hknown).2 hagree
    have houtcome : game.outcome = ruledOutcome start plies := by
      rw [hkept.outcome]
      by_cases hplies : plies = []
      · rw [if_pos hplies, hplies, ruledOutcome_start hstart]
      · rw [if_neg hplies, hcount, hkept.clock, hkept.board, derive_eq hknown]
        rfl
    refine ⟨?_, houtcome⟩
    rw [Game.claimableDraw, ruledClaim, houtcome, hcount, hkept.clock]
    rfl
  · split <;> decide

end

/-! ## A pawn that is pinned -/

namespace Pinned

/-- The boards of the sample: kings, a white rook on d1 and pawn on the e file, and a black pawn on
d4 that the rook pins to its king on the d file. -/
inductive Board where
  /-- White to move, with the pawn on e2 and the kings on a1 and d8. -/
  | initial
  /-- After e2-e4. -/
  | pushed
  /-- After the black king's move to d7. -/
  | away
  /-- After the white king's move to a2, too. -/
  | apart
  /-- After the black king's move back to d8. -/
  | home
  /-- After the white king's move back to a1, too. -/
  | again
  deriving DecidableEq

/-- The square on a file and a rank, counted from zero. -/
def square (file rank : ℕ) : Square :=
  ⟨⟨file % 8, Nat.mod_lt file (Nat.succ_pos 7)⟩, ⟨rank % 8, Nat.mod_lt rank (Nat.succ_pos 7)⟩⟩

def a1 : Square := square 0 0
def a2 : Square := square 0 1
def d1 : Square := square 3 0
def d4 : Square := square 3 3
def d7 : Square := square 3 6
def d8 : Square := square 3 7
def e2 : Square := square 4 1
def e4 : Square := square 4 3

def Board.whiteKing : Board → Square
  | initial | pushed | away | again => a1
  | apart | home => a2

def Board.blackKing : Board → Square
  | initial | pushed | home | again => d8
  | away | apart => d7

def Board.whitePawn : Board → Square
  | initial => e2
  | _ => e4

def Board.sideToMove : Board → Color
  | initial | away | home => .white
  | pushed | apart | again => .black

def Board.squareOf (board : Board) (square : Square) : Option (Color × PieceKind) :=
  if square = board.whiteKing then some (.white, .king)
  else if square = d1 then some (.white, .rook)
  else if square = board.whitePawn then some (.white, .pawn)
  else if square = board.blackKing then some (.black, .king)
  else if square = d4 then some (.black, .pawn)
  else none

/-- A move to a square that is not a promotion. -/
def mv (from_ to_ : Square) : Move := ⟨from_, to_, none⟩

/-- The moves of a piece to squares. -/
def moves (from_ : Square) (tos : List (ℕ × ℕ)) : List Move :=
  tos.map fun to_ => mv from_ (square to_.1 to_.2)

/-- The moves of the rook, with the white king on a1. -/
def rookMoves : List Move :=
  moves d1 [(1, 0), (2, 0), (4, 0), (5, 0), (6, 0), (7, 0), (3, 1), (3, 2), (3, 3)]

/-- The legal moves. After e2-e4 the black pawn may not take it in passing, which would leave the d
file to the rook. -/
def Board.newLegal : Board → List Move
  | initial => moves a1 [(0, 1), (1, 0), (1, 1)] ++ rookMoves ++ moves e2 [(4, 2), (4, 3)]
  | pushed | again => moves d8 [(2, 7), (4, 7), (2, 6), (3, 6), (4, 6)] ++ moves d4 [(3, 2)]
  | away => moves a1 [(0, 1), (1, 0), (1, 1)] ++ rookMoves ++ moves e4 [(4, 4)]
  | apart => moves d7 [(2, 7), (3, 7), (4, 7), (2, 6), (4, 6), (2, 5), (3, 5), (4, 5)] ++
      moves d4 [(3, 2)]
  | home => moves a2 [(0, 0), (1, 0), (1, 1), (0, 2), (1, 2)] ++ rookMoves ++ moves d1 [(0, 0)] ++
      moves e4 [(4, 4)]

/-- The boards after the moves of the sample. -/
def Board.makeMoveNew (board : Board) (move : Move) : Board :=
  match board with
  | initial => if move = mv e2 e4 then pushed else board
  | pushed | again => if move = mv d8 d7 then away else board
  | away => if move = mv a1 a2 then apart else board
  | apart => if move = mv d7 d8 then home else board
  | home => if move = mv a2 a1 then again else board

/-- The rules, as far as the sample goes. The crate's en passant square is that of a pawn that was
pushed beside another, whether or not that one may take it. -/
abbrev chess : ChessCrate where
  Board := Board
  default := .initial
  fromStr fen := if fen = "3k4/8/8/8/3p4/8/4P3/K2R4 w - - 0 1" then some .initial else none
  squareOf := Board.squareOf
  sideToMove := Board.sideToMove
  newLegal := Board.newLegal
  makeMoveNew := Board.makeMoveNew
  status _ := .ongoing
  checkers _ := 0
  pieces _ kind := match kind with
    | .pawn | .king => 2
    | .rook => 1
    | _ => 0
  castleRights _ _ := .noRights
  enPassant board := if board = .pushed then some e4 else none
  getHash
    | .initial => 0
    | .pushed => 1
    | .away => 2
    | .apart => 3
    | .home => 4
    | .again => 5

theorem known : chess.Known where
  hash a b := by cases a <;> cases b <;> decide
  moves a b := by cases a <;> cases b <;> decide
  status board := by cases board <;> decide

theorem canContinue_initial : CanContinue (c := chess) .initial := ⟨by decide, by decide⟩

def game : Game chess := Game.fromBoard Board.initial 0

/-- The pawn is pushed, and the kings walk away and back twice. -/
def walk : List Move :=
  [mv e2 e4, mv d8 d7, mv a1 a2, mv d7 d8, mv a2 a1, mv d8 d7, mv a1 a2, mv d7 d8, mv a2 a1]

/-- The plies of the walk. -/
def walked : List (Ply chess) :=
  [⟨Board.initial, mv e2 e4, Board.pushed⟩, ⟨Board.pushed, mv d8 d7, Board.away⟩,
    ⟨Board.away, mv a1 a2, Board.apart⟩, ⟨Board.apart, mv d7 d8, Board.home⟩,
    ⟨Board.home, mv a2 a1, Board.again⟩, ⟨Board.again, mv d8 d7, Board.away⟩,
    ⟨Board.away, mv a1 a2, Board.apart⟩, ⟨Board.apart, mv d7 d8, Board.home⟩,
    ⟨Board.home, mv a2 a1, Board.again⟩]

end Pinned

open Pinned

/-- Before the white king is back, the game says what the rules do. -/
theorem draws_ruled_pinned : ∃ last : Game chess,
    play (walk.take 4) Pinned.game = some (walked.take 4, last) ∧
    last.claimableDraw = ruledClaim Board.initial (walked.take 4) := by
  have hagree : Agreeing Board.initial (walked.take 4) := by decide
  refine ⟨_, rfl, ?_⟩
  exact ((draws_ruled known (walk.take 4) rfl canContinue_initial).2.1 hagree).1

/-- A position in which the pawn that could take in passing is pinned occurs three times, and the
game counts two. -/
theorem pinned_pawn : ∃ last : Game chess,
    play walk Pinned.game = some (walked, last) ∧
    ruledClaim Board.initial walked = some .threefoldRepetition ∧ last.claimableDraw = none := by
  refine ⟨_, rfl, ?_, ?_⟩
  · decide +kernel
  · decide +kernel

end Paperclip.Chess
