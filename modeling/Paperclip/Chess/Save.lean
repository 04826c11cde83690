import Paperclip.Chess.Game
import Paperclip.Toml.Lines

/-!
# The save format

An ordered event log, replayed to reconstruct the game. It has no start in it.

* `RawEvent`: an event as it is written. `Square.name`, `Square.parse`: the texts in it.
* `TomlCrate`: what is taken from the TOML crate.
* `save`, `load`: to the text of a file and back.
* `save_replays`: a game is loaded back where it began on the standard board, and what is loaded has
  been played from there. `fen_start_is_lost`: not where it began elsewhere.
-/

namespace Paperclip.Chess

/-! ## Texts -/

namespace Square

/-- Algebraic notation. -/
def name (square : Square) : String :=
  String.ofList [Char.ofNat ('a'.toNat + square.file), Char.ofNat ('1'.toNat + square.rank)]

/-- The file of a letter. -/
def fileOf (letter : Char) : Option (Fin 8) :=
  if 'a' ≤ letter ∧ letter ≤ 'z' then
    if h : letter.toNat - 'a'.toNat < 8 then some ⟨_, h⟩ else none
  else none

/-- The rank of a digit. -/
def rankOf (digit : Char) : Option (Fin 8) :=
  if '0' ≤ digit ∧ digit ≤ '9' then
    let number := digit.toNat - '0'.toNat
    if h : 1 ≤ number ∧ number ≤ 8 then some ⟨number - 1, by omega⟩ else none
  else none

/-- Parses algebraic notation. -/
def parse (text : String) : Option Square :=
  match text.toList with
  | [file, rank] => do
    let file ← fileOf file
    let rank ← rankOf rank
    return ⟨file, rank⟩
  | _ => none

theorem fileOf_letter : ∀ file : Fin 8, fileOf (Char.ofNat ('a'.toNat + file)) = some file := by
  decide

theorem rankOf_number : ∀ rank : Fin 8, rankOf (Char.ofNat ('1'.toNat + rank)) = some rank := by
  decide

@[simp] theorem parse_name (square : Square) : parse square.name = some square := by
  rw [parse, name, String.toList_ofList]
  show (fileOf _).bind _ = _
  rw [fileOf_letter, Option.bind_some]
  show (rankOf _).bind _ = _
  rw [rankOf_number]
  rfl

end Square

def PieceKind.ALL : List PieceKind := [.pawn, .knight, .bishop, .rook, .queen, .king]

def PieceKind.slug : PieceKind → String
  | pawn => "pawn"
  | knight => "knight"
  | bishop => "bishop"
  | rook => "rook"
  | queen => "queen"
  | king => "king"

def PieceKind.parse (text : String) : Option PieceKind := ALL.find? fun piece => piece.slug = text

def ClaimableDraw.slug : ClaimableDraw → String
  | threefoldRepetition => "threefold_repetition"
  | fiftyMoveRule => "fifty_move_rule"

def ClaimableDraw.parse (text : String) : Option ClaimableDraw :=
  [threefoldRepetition, fiftyMoveRule].find? fun draw => draw.slug = text

@[simp] theorem PieceKind.parse_slug (piece : PieceKind) : parse piece.slug = some piece := by
  cases piece <;> decide

@[simp] theorem ClaimableDraw.parse_slug (draw : ClaimableDraw) : parse draw.slug = some draw := by
  cases draw <;> decide

/-! ## Events as they are written -/

/-- An event of a save file. -/
inductive RawEvent where
  | move (from_ to_ : String) (promotion : Option String)
  | claimDraw (reason : String)
  deriving DecidableEq

def GameEvent.toRaw : GameEvent → RawEvent
  | .move from_ to_ promotion => .move from_.name to_.name (promotion.map PieceKind.slug)
  | .claimDraw reason => .claimDraw reason.slug

/-- A field of an event, or that it is none. -/
def field {α : Type} (parse : String → Option α) (text : String) : Except String α :=
  match parse text with
  | some value => .ok value
  | none => .error s!"`{text}` is not valid"

def RawEvent.toEvent : RawEvent → Except String GameEvent
  | .move from_ to_ promotion => do
    let from_ ← field Square.parse from_
    let to_ ← field Square.parse to_
    let promotion ← promotion.mapM (field PieceKind.parse)
    return .move from_ to_ promotion
  | .claimDraw reason => do
    let reason ← field ClaimableDraw.parse reason
    return .claimDraw reason

/-- An event that is written is read back. -/
@[simp] theorem toEvent_toRaw (event : GameEvent) : event.toRaw.toEvent = .ok event := by
  cases event with
  | move from_ to_ promotion =>
    cases promotion <;>
      simp [GameEvent.toRaw, RawEvent.toEvent, field, bind, Except.bind, pure, Except.pure,
        Functor.map, Except.map]
  | claimDraw reason =>
    simp [GameEvent.toRaw, RawEvent.toEvent, field, bind, Except.bind, pure, Except.pure]

theorem mapM_toRaw (events : List GameEvent) :
    (events.map GameEvent.toRaw).mapM RawEvent.toEvent = .ok events := by
  induction events with
  | nil => rfl
  | cons event rest ih =>
    rw [List.map_cons, List.mapM_cons, ih, toEvent_toRaw]
    rfl

/-! ## Saving and loading -/

/-- A text of small letters, digits and underscores. -/
def Plain (text : String) : Prop :=
  ∀ c ∈ text.toList, ('a' ≤ c ∧ c ≤ 'z') ∨ ('0' ≤ c ∧ c ≤ '9') ∨ c = '_'

instance (text : String) : Decidable (Plain text) := List.decidableBAll _ text.toList

def RawEvent.Plain : RawEvent → Prop
  | .move from_ to_ promotion =>
    Chess.Plain from_ ∧ Chess.Plain to_ ∧ ∀ text ∈ promotion, Chess.Plain text
  | .claimDraw reason => Chess.Plain reason

/-- What is taken from the TOML crate, which carries plain texts. -/
structure TomlCrate where
  toStringPretty : List RawEvent → Except String String
  fromStr : String → Except String (List RawEvent)
  carries : ∀ events : List RawEvent, (∀ event ∈ events, event.Plain) →
    ∃ text, toStringPretty events = .ok text ∧ fromStr text = .ok events

/-- Why a game could not be saved. Writing the file may fail, too. -/
inductive SaveError where
  | serialize (source : String)
  deriving DecidableEq

/-- Why a saved game could not be loaded. -/
inductive LoadError where
  | syntax_ (source : String)
  | corrupt (reason : String)
  deriving DecidableEq

variable {c : ChessCrate}

/-- The text that is written for a game. -/
def save (toml : TomlCrate) (game : Game c) : Except SaveError String :=
  (toml.toStringPretty (game.events.map GameEvent.toRaw)).mapError .serialize

/-- Reads and replays a saved game. -/
def load (c : ChessCrate) (toml : TomlCrate) (text : String) : Except LoadError (Game c) := do
  let raw ← (toml.fromStr text).mapError .syntax_
  let events ← (raw.mapM RawEvent.toEvent).mapError .syntax_
  (Game.fromEvents events).mapError .corrupt

theorem plain_toRaw (event : GameEvent) : event.toRaw.Plain := by
  have hsquare (square : Square) : Plain square.name := by
    have hfile : ∀ file : Fin 8, 'a' ≤ Char.ofNat ('a'.toNat + file) ∧
        Char.ofNat ('a'.toNat + file) ≤ 'z' := by decide
    have hrank : ∀ rank : Fin 8, '0' ≤ Char.ofNat ('1'.toNat + rank) ∧
        Char.ofNat ('1'.toNat + rank) ≤ '9' := by decide
    intro c hc
    rw [Square.name, String.toList_ofList, List.mem_cons, List.mem_singleton] at hc
    rcases hc with rfl | rfl
    · exact .inl (hfile _)
    · exact .inr (.inl (hrank _))
  cases event with
  | move from_ to_ promotion =>
    refine ⟨hsquare from_, hsquare to_, fun text htext => ?_⟩
    obtain ⟨piece, -, rfl⟩ := Option.map_eq_some_iff.1 htext
    cases piece <;> decide
  | claimDraw reason =>
    show Plain reason.slug
    cases reason <;> decide

/-- What is saved of a game are its events, and loading replays them. -/
theorem save_load (toml : TomlCrate) (game : Game c) : ∃ text, save toml game = .ok text ∧
    load c toml text = (replay game.events Game.new).mapError .corrupt := by
  obtain ⟨text, hto, hfrom⟩ := toml.carries (game.events.map GameEvent.toRaw) fun event hevent => by
    obtain ⟨event, -, rfl⟩ := List.mem_map.1 hevent
    exact plain_toRaw event
  refine ⟨text, by rw [save, hto]; rfl, ?_⟩
  rw [load, hfrom]
  show ((game.events.map GameEvent.toRaw).mapM RawEvent.toEvent |>.mapError _).bind _ = _
  rw [mapM_toRaw]
  rfl

/-- Saving succeeds, and the text is loaded as the same game. -/
def RoundTrips (toml : TomlCrate) (game : Game c) : Prop :=
  ∃ text, save toml game = .ok text ∧ load c toml text = .ok game

/-- A start: the standard one, or one from FEN. -/
def Starts (game : Game c) : Prop := game = Game.new ∨ ∃ fen, Game.fromFen fen = some game

theorem Starts.eq {start : Game c} (h : Starts start) : start = Game.fromBoard start.board 0 := by
  rcases h with rfl | ⟨fen, hfen⟩
  · rfl
  · obtain ⟨board, -, rfl⟩ := Option.map_eq_some_iff.1 hfen
    rfl

/-- What is loaded has been played from the standard start. -/
theorem load_plays {toml : TomlCrate} {text : String} {game : Game c}
    (h : load c toml text = .ok game) : Plays Game.new game := by
  unfold load at h
  cases hraw : toml.fromStr text with
  | error e => rw [hraw] at h; cases h
  | ok raw =>
    cases hevents : raw.mapM RawEvent.toEvent with
    | error e =>
      rw [hraw] at h
      replace h : ((raw.mapM RawEvent.toEvent).mapError LoadError.syntax_).bind _ = _ := h
      rw [hevents] at h
      cases h
    | ok events =>
      rw [hraw] at h
      replace h : ((raw.mapM RawEvent.toEvent).mapError LoadError.syntax_).bind _ = _ := h
      rw [hevents] at h
      replace h : (replay events Game.new).mapError LoadError.corrupt = _ := h
      cases hreplay : replay events (Game.new : Game c) with
      | error e => rw [hreplay] at h; cases h
      | ok loaded =>
        rw [hreplay] at h
        cases h
        exact plays_replay hreplay .start

/-- Every game that was played from the standard board, however it was set up, makes the round trip; a
start itself makes it only from there. Whatever is loaded from any text has been played from the
standard start. -/
theorem save_replays (c : ChessCrate) (toml : TomlCrate) :
    (∀ start : Game c, Starts start →
      (start.board = c.default → ∀ game, Plays start game → RoundTrips toml game) ∧
      (RoundTrips toml start → start.board = c.default)) ∧
    ∀ text (game : Game c), load c toml text = .ok game → Plays Game.new game := by
  refine ⟨fun start hstart => ⟨fun hboard game hplays => ?_, fun hround => ?_⟩,
    fun text game h => ?_⟩
  · obtain ⟨text, hsave, hload⟩ := save_load toml game
    obtain rfl : start = Game.new := by rw [hstart.eq, hboard]; rfl
    exact ⟨text, hsave, by rw [hload, replay_events hplays rfl]; rfl⟩
  · obtain ⟨text, hsave, hload⟩ := hround
    obtain ⟨text', hsave', hload'⟩ := save_load toml start
    obtain rfl : text = text' := Except.ok.inj (hsave.symm.trans hsave')
    have hevents : start.events = [] := by rw [hstart.eq]; rfl
    rw [hload', hevents] at hload
    exact congrArg Game.board (Except.ok.inj hload).symm
  · exact load_plays h

/-! ## A start that is lost -/

namespace Sample

open Toml

/-- The piece that a letter of FEN stands for. -/
def pieceOf (letter : Char) : Option (Color × PieceKind) :=
  let color := if letter.isUpper then Color.white else .black
  match letter.toLower with
  | 'p' => some (color, .pawn)
  | 'n' => some (color, .knight)
  | 'b' => some (color, .bishop)
  | 'r' => some (color, .rook)
  | 'q' => some (color, .queen)
  | 'k' => some (color, .king)
  | _ => none

/-- The boards of the samples. -/
inductive Board where
  /-- The standard start. -/
  | standard
  /-- The standard start after e2-e4. -/
  | opened
  /-- Two kings, on e1 and e8, with White to move. -/
  | kings
  deriving DecidableEq

/-- The ranks of a board, from the eighth down, a letter for each square. -/
def Board.ranks : Board → List String
  | standard => ["rnbqkbnr", "pppppppp", "........", "........", "........", "........", "PPPPPPPP",
      "RNBQKBNR"]
  | opened => ["rnbqkbnr", "pppppppp", "........", "........", "....P...", "........", "PPPP.PPP",
      "RNBQKBNR"]
  | kings => ["....k...", "........", "........", "........", "........", "........", "........",
      "....K..."]

def Board.squareOf (board : Board) (square : Square) : Option (Color × PieceKind) :=
  ((board.ranks[7 - square.rank.val]?).bind fun rank => rank.toList[square.file.val]?).bind pieceOf

def Board.pieces (board : Board) (kind : PieceKind) : ℕ :=
  (board.ranks.flatMap String.toList).countP fun letter => (pieceOf letter).map Prod.snd = some kind

/-- A move from and to squares that are named. -/
def mv (from_ to_ : String) : Option Move := do
  let from_ ← Square.parse from_
  let to_ ← Square.parse to_
  return ⟨from_, to_, none⟩

def Board.newLegal : Board → List Move
  | standard => [mv "a2" "a3", mv "a2" "a4", mv "b2" "b3", mv "b2" "b4", mv "c2" "c3", mv "c2" "c4",
      mv "d2" "d3", mv "d2" "d4", mv "e2" "e3", mv "e2" "e4", mv "f2" "f3", mv "f2" "f4", mv "g2" "g3",
      mv "g2" "g4", mv "h2" "h3", mv "h2" "h4", mv "b1" "a3", mv "b1" "c3", mv "g1" "f3",
      mv "g1" "h3"].reduceOption
  | opened => [mv "a7" "a6", mv "a7" "a5", mv "b7" "b6", mv "b7" "b5", mv "c7" "c6", mv "c7" "c5",
      mv "d7" "d6", mv "d7" "d5", mv "e7" "e6", mv "e7" "e5", mv "f7" "f6", mv "f7" "f5", mv "g7" "g6",
      mv "g7" "g5", mv "h7" "h6", mv "h7" "h5", mv "b8" "a6", mv "b8" "c6", mv "g8" "f6",
      mv "g8" "h6"].reduceOption
  | kings => [mv "e1" "d1", mv "e1" "f1", mv "e1" "d2", mv "e1" "e2", mv "e1" "f2"].reduceOption

/-- The rules, as far as the samples go. -/
def chess : ChessCrate where
  Board := Board
  default := .standard
  fromStr fen :=
    if fen = "rnbqkbnr/pppppppp/8/8/8/8/PPPPPPPP/RNBQKBNR w KQkq - 0 1" then some .standard
    else if fen = "4k3/8/8/8/8/8/8/4K3 w - - 0 1" then some .kings
    else none
  squareOf := Board.squareOf
  sideToMove board := if board = .opened then .black else .white
  newLegal := Board.newLegal
  makeMoveNew board chosen :=
    if board = .standard ∧ mv "e2" "e4" = some chosen then .opened else board
  status _ := .ongoing
  checkers _ := 0
  pieces := Board.pieces
  castleRights board _ := if board = .kings then .noRights else .both
  enPassant _ := none
  getHash
    | .standard => 1
    | .opened => 2
    | .kings => 3

/-- The lines of an event. -/
def linesOf : RawEvent → List Line
  | .move from_ to_ promotion =>
    [.header "events".toList, .pair "type".toList (.text "move".toList),
      .pair "from".toList (.text from_.toList), .pair "to".toList (.text to_.toList)] ++
      (promotion.map fun piece => Line.pair "promotion".toList (.text piece.toList)).toList
  | .claimDraw reason =>
    [.header "events".toList, .pair "type".toList (.text "claim_draw".toList),
      .pair "reason".toList (.text reason.toList)]

/-- The event with the texts of a table. -/
def entry : List (List Char) → Option RawEvent
  | [_, reason] => some (.claimDraw (String.ofList reason))
  | [_, from_, to_] => some (.move (String.ofList from_) (String.ofList to_) none)
  | [_, from_, to_, piece] =>
    some (.move (String.ofList from_) (String.ofList to_) (some (String.ofList piece)))
  | _ => none

/-- One line before what is already read: the texts of a table that has not begun yet, and the events
after it. -/
def readLine (line : Line) (state : List (List Char) × List RawEvent) :
    Option (List (List Char) × List RawEvent) :=
  match line with
  | .blank => some state
  | .pair _ (.text text) => some (text :: state.1, state.2)
  | .pair _ (.number _) => none
  | .header _ => (entry state.1).map fun event => ([], event :: state.2)

/-- The events of some lines. -/
def ofLines (lines : List Line) : Option (List RawEvent) :=
  (lines.foldr (fun line state => state.bind (readLine line)) (some ([], []))).bind fun state =>
    if state.1 = [] then some state.2 else none

theorem readLine_linesOf (events : List RawEvent) :
    (events.flatMap linesOf ++ [Line.blank]).foldr (fun line state => state.bind (readLine line))
      (some ([], [])) = some ([], events) := by
  induction events with
  | nil => rfl
  | cons event rest ih =>
    rw [List.flatMap_cons, List.append_assoc, List.foldr_append, ih]
    cases event with
    | move from_ to_ promotion => cases promotion <;> simp [linesOf, readLine, entry]
    | claimDraw reason => simp [linesOf, readLine, entry]

theorem ofLines_linesOf (events : List RawEvent) :
    ofLines (events.flatMap linesOf ++ [.blank]) = some events := by
  rw [ofLines, readLine_linesOf]
  rfl

theorem allowed_of_plain {text : String} (h : Plain text) : text.toList.all Toml.allowed = true := by
  refine List.all_eq_true.2 fun c hc => ?_
  have hrange : 0x20 ≤ c.toNat ∧ c.toNat ≤ 0x7A := by
    rcases h c hc with ⟨h, h'⟩ | ⟨h, h'⟩ | rfl
    · exact ⟨Nat.le_trans (show 0x20 ≤ 'a'.toNat by decide) h, h'⟩
    · exact ⟨Nat.le_trans (show 0x20 ≤ '0'.toNat by decide) h,
        Nat.le_trans h' (show '9'.toNat ≤ 0x7A by decide)⟩
    · decide
  simp only [Toml.allowed, Bool.or_eq_true, Bool.and_eq_true, decide_eq_true_eq]
  right
  omega

theorem linesOf_fits {event : RawEvent} (h : event.Plain) : ∀ line ∈ linesOf event, line.Fits := by
  have hpair (key : List Char) (hkey : key ≠ [] ∧ key.all isBare = true) {text : String}
      (htext : Plain text) : (Line.pair key (.text text.toList)).Fits :=
    ⟨hkey.1, hkey.2, allowed_of_plain htext⟩
  have hheader : (Line.header "events".toList).Fits := by simp [Line.Fits, isBare]
  intro line hline
  cases event with
  | move from_ to_ promotion =>
    obtain ⟨hfrom, hto, hpromotion⟩ := h
    simp only [linesOf, List.mem_append, List.mem_cons, List.not_mem_nil, or_false,
      Option.mem_toList, Option.map_eq_some_iff] at hline
    rcases hline with (rfl | rfl | rfl | rfl) | ⟨piece, hpiece, rfl⟩
    · exact hheader
    · exact hpair _ (by decide) (by decide)
    · exact hpair _ (by decide) hfrom
    · exact hpair _ (by decide) hto
    · exact hpair _ (by decide) (hpromotion piece hpiece)
  | claimDraw reason =>
    simp only [linesOf, List.mem_cons, List.not_mem_nil, or_false] at hline
    rcases hline with rfl | rfl | rfl
    · exact hheader
    · exact hpair _ (by decide) (by decide)
    · exact hpair _ (by decide) h

/-- A list without events is written on one line. -/
def document (events : List RawEvent) : List Char :=
  if events = [] then "events = []\n".toList else render (events.flatMap linesOf)

/-- What is written for some events is no empty list, unless there are none. -/
theorem document_ne {events : List RawEvent} (h : events ≠ []) :
    document events ≠ "events = []\n".toList := by
  obtain ⟨event, rest, rfl⟩ := List.exists_cons_of_ne_nil h
  rw [document, if_neg h]
  intro heq
  have hhead : (render ((event :: rest).flatMap linesOf)).head? = some '[' := by
    cases event <;> rfl
  rw [heq] at hhead
  exact absurd hhead (by decide)

/-- The TOML crate, as far as the samples go. -/
def toml : TomlCrate where
  toStringPretty events := .ok (String.ofList (document events))
  fromStr text :=
    if text.toList = "events = []\n".toList then .ok []
    else ((read text.toList).bind ofLines).elim (.error "not a saved game") .ok
  carries events h := by
    refine ⟨_, rfl, ?_⟩
    rw [String.toList_ofList]
    by_cases hnil : events = []
    · subst hnil
      rfl
    · rw [if_neg (document_ne hnil), document, if_neg hnil, read_render fun line hline => ?_,
        Option.bind_some, ofLines_linesOf]
      · rfl
      · obtain ⟨event, hevent, hline⟩ := List.mem_flatMap.1 hline
        exact linesOf_fits (h event hevent) line hline

/-- A pawn is moved from e2 to e4. -/
def opening : Move := ⟨⟨4, 1⟩, ⟨4, 3⟩, none⟩

/-- The game after it. -/
def opened : Game chess := (Game.new.apply opening).2

theorem plays_opened : Plays Game.new opened :=
  have h : ((Game.new : Game chess).apply opening).1 = .ok ⟨opening, .pawn, none, false⟩ := rfl
  Plays.start.apply h

/-- Two kings alone. -/
def kings : Game chess := Game.fromBoard .kings 0

end Sample

/-- A game of one move makes the round trip. -/
theorem save_replays_opening :
    Sample.opened.events = [.ofMove Sample.opening] ∧ RoundTrips Sample.toml Sample.opened :=
  ⟨rfl, ((save_replays Sample.chess Sample.toml).1 Game.new (.inl rfl)).1 rfl _ Sample.plays_opened⟩

/-- A start from FEN with two kings is saved, and is loaded as the standard board. -/
theorem fen_start_is_lost : ¬ ∀ (c : ChessCrate) (toml : TomlCrate) (start game : Game c),
    Starts start → Plays start game → ∃ text loaded, save toml game = .ok text ∧
      load c toml text = .ok loaded ∧ loaded.board = game.board := by
  intro h
  have hstart : Starts Sample.kings := .inr ⟨"4k3/8/8/8/8/8/8/4K3 w - - 0 1", rfl⟩
  obtain ⟨text, loaded, hsave, hload, hboard⟩ := h Sample.chess Sample.toml _ _ hstart .start
  obtain ⟨text', hsave', hload'⟩ := save_load Sample.toml Sample.kings
  obtain rfl : text = text' := Except.ok.inj (hsave.symm.trans hsave')
  obtain rfl : (Game.new : Game Sample.chess) = loaded := Except.ok.inj (hload'.symm.trans hload)
  cases hboard

end Paperclip.Chess
