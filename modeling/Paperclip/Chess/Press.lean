import Mathlib.Algebra.Field.Rat
import Mathlib.Algebra.Order.Ring.Rat
import Mathlib.Data.Rat.Floor
import Mathlib.Tactic.Linarith
import Paperclip.Chess.Draws
import Paperclip.Chess.Screen
import Paperclip.Trace.Since

/-!
# Taps on the Chess screen

In every run of pointer events from a fresh screen: what a promotion that waits for its piece can
become, and what is announced, reachable and replaced.

* `ChessCrate.PromotesToAll`: a legal promotion is legal with each of the four pieces.
* `Does`: everything that a pointer event can do.
* `Play.Fits`: a promotion that waits is refused for its missing piece only, and NEW GAME is not
  armed over it.
* `chess_screen`: a promotion that waits can become any piece. A change is announced but for the tap
  on nothing that disarms NEW GAME, HOME leaves the app but under the choice of a piece, and a game
  is replaced by two taps on NEW GAME in a row but for one on HOME or CLAIM DRAW between them.
-/

namespace Paperclip.Chess

open Sdk Trace

/-- A legal move that promotes is legal with each of the four pieces. -/
def ChessCrate.PromotesToAll (c : ChessCrate) : Prop :=
  ∀ (board : c.Board), ∀ mv ∈ c.newLegal board, mv.promotion.isSome = true →
    ∀ piece ∈ PROMOTION_CHOICES, (⟨mv.from_, mv.to_, some piece⟩ : Move) ∈ c.newLegal board

variable {c : ChessCrate}

/-! ## Promotions -/

section

variable {game : Game c} {candidates : List Move}

theorem choose_required (h : Game.choose candidates none = .error .promotionRequired) :
    ∃ mv ∈ candidates, mv.promotion.isSome = true := by
  unfold Game.choose at h
  split at h
  · cases h
  · dsimp only at h
    split at h
    · next hn _ => exact List.any_eq_true.1 hn
    · next hp => cases hp
    · next hp => cases hp
    · cases h

/-- A candidate with the piece is there to be chosen. -/
theorem choose_promoting {piece : PieceKind} {mv : Move} (hm : mv ∈ candidates)
    (hp : mv.promotion = some piece) :
    ∃ chosen, Game.choose candidates (some piece) = .ok chosen := by
  unfold Game.choose
  split
  · cases hm
  · next first rest =>
    have hany : ((first :: rest).any fun candidate => candidate.promotion.isSome) = true :=
      List.any_eq_true.2 ⟨mv, hm, by rw [hp]; rfl⟩
    dsimp only
    rw [hany]
    dsimp only
    split
    · exact ⟨_, rfl⟩
    · next hfind => exact absurd (decide_eq_true hp) (List.find?_eq_none.1 hfind mv hm)

/-- A move that is refused for its missing piece succeeds with each of the four. -/
theorem apply_promoting (hc : c.PromotesToAll) {from_ to_ : Square}
    (h : (game.apply ⟨from_, to_, none⟩).1 = .error .promotionRequired) {piece : PieceKind}
    (hpiece : piece ∈ PROMOTION_CHOICES) :
    ∃ record, (game.apply ⟨from_, to_, some piece⟩).1 = .ok record := by
  unfold Game.apply at h ⊢
  split at h
  · cases h
  · next hover =>
    rw [if_neg hover]
    dsimp only at h ⊢
    split at h
    · cases h
    · next hsquare =>
      split at h
      · cases h
      · next hcolor =>
        rw [if_neg hcolor]
        split at h
        · next hchoose =>
          rw [Except.error.inj h] at hchoose
          obtain ⟨mv, hm, hp⟩ := choose_required hchoose
          obtain ⟨hlegal, hmove⟩ := List.mem_filter.1 hm
          obtain ⟨hfrom, hto⟩ := of_decide_eq_true hmove
          have hall := hc game.board mv hlegal hp piece hpiece
          rw [hfrom, hto] at hall
          have hmem : (⟨from_, to_, some piece⟩ : Move) ∈ (c.newLegal game.board).filter
              fun candidate => candidate.from_ = from_ ∧ candidate.to_ = to_ :=
            List.mem_filter.2 ⟨hall, by simp⟩
          obtain ⟨chosen, hchosen⟩ := choose_promoting hmem rfl
          rw [hchosen]
          exact ⟨_, rfl⟩
        · cases h

/-- A move appends to the history, or leaves it. -/
theorem apply_events (mv : Move) : game.events <+: (game.apply mv).2.events := by
  rcases h : (game.apply mv).1 with e | record
  · rw [apply_error h]
  · rw [apply_ok h]
    exact List.prefix_append _ _

/-- So does a claim. -/
theorem claimDraw_events : game.events <+: game.claimDraw.2.events := by
  unfold Game.claimDraw
  split
  · exact List.prefix_rfl
  · split
    · exact List.prefix_rfl
    · exact List.prefix_append _ _

end

/-! ## What a pointer event does -/

/-- A screen on its game. -/
structure Play (c : ChessCrate) where
  screen : ChessScreen
  game : Game c

section

variable {K : Type} [Field K] [LinearOrder K] [FloorRing K] (size : Protocol.Size)

/-- Where everything on the screen lands. -/
def Play.layout (play : Play c) : ChessLayout K := Chess.layout size play.screen play.game

/-- A pointer event, with the screen and the game that it leaves. -/
def Play.press (play : Play c) (pointer : PointerEvent K) : Pressed c :=
  play.screen.press play.game (play.layout size) pointer

/-- The screen and the game after a pointer event. -/
def Play.step (play : Play c) (pointer : PointerEvent K) : Play c :=
  ⟨(play.press size pointer).screen, (play.press size pointer).game⟩

/-- A tap on CLAIM DRAW or HOME. -/
def Play.Passing (play : Play c) (pointer : PointerEvent K) : Prop :=
  pointer.isTap = true ∧ (((play.layout size).claimDraw.any (·.hit pointer)) = true ∨
    (play.layout size).home.hit pointer = true)

/-- A tap on NEW GAME. -/
def Play.OnNewGame (play : Play c) (pointer : PointerEvent K) : Prop :=
  pointer.isTap = true ∧ (play.layout size).newGame.hit pointer = true

/-- A tap on another action, on a piece to promote to or on a square. -/
def Play.Elsewhere (play : Play c) (pointer : PointerEvent K) : Prop :=
  pointer.isTap = true ∧ (((play.layout size).claimDraw.any (·.hit pointer)) = true ∨
    (play.layout size).home.hit pointer = true ∨ (play.layout size).flipBoard.hit pointer = true ∨
    ((play.layout size).promotion.any fun promotion => (promotion.hitTest pointer).isSome) = true ∨
    ((play.layout size).board.squareAt pointer).isSome = true)

/-- A tap with no promotion that waits, on neither CLAIM DRAW nor HOME. -/
structure Play.Past (play : Play c) (pointer : PointerEvent K) : Prop where
  tap : pointer.isTap = true
  pending : play.screen.pendingPromotion = none
  claimDraw : ((play.layout size).claimDraw.any (·.hit pointer)) = false
  home : (play.layout size).home.hit pointer = false

/-- A tap on nothing: no action, and no square of a game that goes on. -/
structure Play.OnNothing (play : Play c) (pointer : PointerEvent K) : Prop
    extends play.Past size pointer where
  flipBoard : (play.layout size).flipBoard.hit pointer = false
  newGame : (play.layout size).newGame.hit pointer = false
  board : play.game.outcome.isSome = true ∨ (play.layout size).board.squareAt pointer = none

/-- A tap on a square leaves the game with its history, and a promotion waits only if the game
refused it for its missing piece. -/
structure Squared (play : Play c) (pressed : Pressed c) : Prop where
  action : pressed.action = .redraw
  armed : pressed.screen.newGameArmed = play.screen.newGameArmed
  events : play.game.events <+: pressed.game.events
  pending : ∀ from_ to_, pressed.screen.pendingPromotion = some (from_, to_) →
    (pressed.game.apply ⟨from_, to_, none⟩).1 = .error .promotionRequired

/-- Everything that a pointer event can do. -/
inductive Does (play : Play c) (pointer : PointerEvent K) : Pressed c → Prop where
  | ignored (tap : pointer.isTap = false) : Does play pointer ⟨.none, play.screen, play.game⟩
  | waits (pending : play.screen.pendingPromotion.isSome = true) :
      Does play pointer ⟨.redraw, play.screen, play.game⟩
  | promotes {from_ to_ : Square} {piece : PieceKind}
      (pending : play.screen.pendingPromotion = some (from_, to_)) :
      Does play pointer ⟨.redraw, { play.screen with pendingPromotion := none, selected := none },
        (play.game.apply ⟨from_, to_, some piece⟩).2⟩
  | claims (tap : pointer.isTap = true) (pending : play.screen.pendingPromotion = none)
      (claimed : ((play.layout size).claimDraw.any (·.hit pointer)) = true) :
      Does play pointer ⟨.redraw, play.screen, play.game.claimDraw.2⟩
  | leaves (tap : pointer.isTap = true) (pending : play.screen.pendingPromotion = none)
      (home : (play.layout size).home.hit pointer = true) :
      Does play pointer ⟨.home, play.screen, play.game⟩
  | flips (past : play.Past size pointer)
      (flip : (play.layout size).flipBoard.hit pointer = true) :
      Does play pointer
        ⟨.redraw, { play.screen with flipped := !play.screen.flipped, newGameArmed := false },
          play.game⟩
  | renews (past : play.Past size pointer)
      (newGame : (play.layout size).newGame.hit pointer = true)
      (armed : play.screen.newGameArmed = true) :
      Does play pointer
        ⟨.redraw, { play.screen with newGameArmed := false, selected := none }, .new⟩
  | arms (past : play.Past size pointer)
      (newGame : (play.layout size).newGame.hit pointer = true)
      (unarmed : play.screen.newGameArmed = false) :
      Does play pointer ⟨.redraw, { play.screen with newGameArmed := true }, play.game⟩
  | misses (nothing : play.OnNothing size pointer) :
      Does play pointer ⟨.none, { play.screen with newGameArmed := false }, play.game⟩
  | squares {pressed : Pressed c} (past : play.Past size pointer)
      (newGame : (play.layout size).newGame.hit pointer = false)
      (board : ¬ (play.game.outcome.isSome = true ∨
        (play.layout size).board.squareAt pointer = none))
      (squared : Squared ⟨{ play.screen with newGameArmed := false }, play.game⟩ pressed) :
      Does play pointer pressed

end

section

variable {K : Type} [Field K] [LinearOrder K] [FloorRing K] {size : Protocol.Size}
  {play : Play c} {pointer : PointerEvent K}

/-- With no promotion that waits, picking a piece up leaves the rest. -/
theorem squared_pick (hnone : play.screen.pendingPromotion = none) (square : Square) :
    Squared play ⟨.redraw, play.screen.pick play.game square, play.game⟩ :=
  ⟨rfl, rfl, List.prefix_rfl, fun _ _ h => absurd (hnone.symm.trans h) (by simp)⟩

theorem squared_move (hnone : play.screen.pendingPromotion = none) (from_ square : Square) :
    Squared play (play.screen.move play.game from_ square) := by
  have hno : ∀ from' to', play.screen.pendingPromotion ≠ some (from', to') := by
    intro from' to' h
    rw [hnone] at h
    cases h
  unfold ChessScreen.move
  split
  · have hevents : play.game.events <+: (play.game.apply ⟨from_, square, none⟩).2.events :=
      apply_events _
    rcases happly : play.game.apply ⟨from_, square, none⟩ with ⟨e | record, game⟩
    · -- A move that is refused leaves the game.
      have hrefused : (play.game.apply ⟨from_, square, none⟩).1 = .error e :=
        congrArg Prod.fst happly
      have hsame := apply_error hrefused
      rw [happly] at hsame
      subst hsame
      cases e with
      | promotionRequired =>
        refine ⟨rfl, rfl, List.prefix_rfl, fun from' to' h => ?_⟩
        cases h
        exact hrefused
      | gameOver | emptySquare | wrongColor | illegal | promotionNotAllowed =>
        exact ⟨rfl, rfl, List.prefix_rfl, fun _ _ h => absurd h (hno _ _)⟩
    · rw [happly] at hevents
      exact ⟨rfl, rfl, hevents, fun _ _ h => absurd h (hno _ _)⟩
  · exact squared_pick hnone square

theorem squared_pressSquare (play : Play c) (hnone : play.screen.pendingPromotion = none)
    (square : Square) : Squared play (play.screen.pressSquare play.game square) := by
  unfold ChessScreen.pressSquare
  split
  · next from_ hs =>
    split
    · exact ⟨rfl, rfl, List.prefix_rfl, fun _ _ h => absurd (hnone.symm.trans h) (by simp)⟩
    · exact squared_move hnone from_ square
  · exact squared_pick hnone square

theorem does_pressPromotion (hpending : play.screen.pendingPromotion.isSome = true)
    (promotion : PromotionLayout K) :
    Does size play pointer (play.screen.pressPromotion play.game promotion pointer) := by
  unfold ChessScreen.pressPromotion
  split
  · next hs => exact .promotes hs
  · exact .waits hpending

theorem does_pressActions (htap : pointer.isTap = true)
    (hnone : play.screen.pendingPromotion = none) :
    Does size play pointer (play.screen.pressActions play.game (play.layout size) pointer) := by
  unfold ChessScreen.pressActions
  split
  · next hclaim => exact .claims htap hnone hclaim
  · next hclaim =>
    split
    · next hhome => exact .leaves htap hnone hhome
    · next hhome =>
      have hpast : play.Past size pointer :=
        ⟨htap, hnone, by simpa using hclaim, by simpa using hhome⟩
      split
      · next hflip => exact .flips hpast hflip
      · next hflip =>
        split
        · next hnew =>
          split
          · next harmed => exact .renews hpast hnew harmed
          · next harmed => exact .arms hpast hnew (by simpa using harmed)
        · next hnew =>
          have hmiss : (play.game.outcome.isSome = true ∨
              (play.layout size).board.squareAt pointer = none) →
              play.OnNothing size pointer := fun hboard =>
            ⟨hpast, by simpa using hflip, by simpa using hnew, hboard⟩
          unfold ChessScreen.pressBoard
          split
          · next hover => exact .misses (hmiss (.inl hover))
          · next hover =>
            split
            · next hsquare => exact .misses (hmiss (.inr hsquare))
            · next square hsquare =>
              have hboard : ¬ (play.game.outcome.isSome = true ∨
                  (play.layout size).board.squareAt pointer = none) :=
                not_or.2 ⟨hover, fun h => by rw [hsquare] at h; cases h⟩
              exact .squares hpast (by simpa using hnew) hboard
                (squared_pressSquare ⟨{ play.screen with newGameArmed := false }, play.game⟩ hnone
                  square)

/-- What a pointer event does is one of these. -/
theorem does_press (play : Play c) (pointer : PointerEvent K) :
    Does size play pointer (play.press size pointer) := by
  unfold Play.press ChessScreen.press
  split
  · next htap => exact .ignored htap
  · next htap =>
    rcases hs : play.screen.pendingPromotion with _ | squares
    · have hlayout : (play.layout size : ChessLayout K).promotion = none := by
        simp [Play.layout, layout, hs]
      rw [hlayout]
      exact does_pressActions (by simpa using htap) hs
    · obtain ⟨promotion, hlayout⟩ : ∃ promotion,
          (play.layout size : ChessLayout K).promotion = some promotion := by
        simp [Play.layout, layout, hs]
      rw [hlayout]
      exact does_pressPromotion (by rw [hs]; rfl) promotion

end

/-! ## What a pointer event keeps -/

/-- A promotion that waits for its piece is refused for that only, and NEW GAME is not armed over
it. -/
structure Play.Fits (play : Play c) : Prop where
  required : ∀ from_ to_, play.screen.pendingPromotion = some (from_, to_) →
    (play.game.apply ⟨from_, to_, none⟩).1 = .error .promotionRequired
  unarmed : play.screen.newGameArmed = true → play.screen.pendingPromotion = none

section

variable {K : Type} [Field K] [LinearOrder K] [FloorRing K] {size : Protocol.Size}
  {play : Play c} {pointer : PointerEvent K} {pressed : Pressed c}

theorem fits_new (game : Game c) : (⟨.new, game⟩ : Play c).Fits :=
  ⟨fun _ _ h => (by cases h), fun h => (by cases h)⟩

/-- A pointer event keeps it. -/
theorem Play.Fits.does (h : play.Fits) (hdoes : Does size play pointer pressed) :
    (⟨pressed.screen, pressed.game⟩ : Play c).Fits := by
  cases hdoes with
  | ignored tap => exact h
  | waits pending => exact h
  | promotes pending => exact ⟨fun _ _ h => (by cases h), fun _ => rfl⟩
  | claims tap pending claimed =>
    exact ⟨fun _ _ h => absurd (pending.symm.trans h) (by simp), fun _ => pending⟩
  | leaves tap pending home => exact h
  | flips past flip => exact ⟨h.required, fun h => (by cases h)⟩
  | renews past newGame armed =>
    exact ⟨fun _ _ h => absurd (past.pending.symm.trans h) (by simp), fun h => (by cases h)⟩
  | arms past newGame unarmed => exact ⟨h.required, fun _ => past.pending⟩
  | misses nothing => exact ⟨h.required, fun h => (by cases h)⟩
  | squares past newGame board squared =>
    refine ⟨squared.pending, fun harmed => ?_⟩
    rw [squared.armed] at harmed
    cases harmed

theorem Play.Fits.step (h : play.Fits) (pointer : PointerEvent K) : (play.step size pointer).Fits :=
  h.does (does_press play pointer)

/-- A promotion that waits can become any of the four pieces. -/
theorem Play.Fits.promotes (h : play.Fits) (hc : c.PromotesToAll) {from_ to_ : Square}
    (hp : play.screen.pendingPromotion = some (from_, to_)) {piece : PieceKind}
    (hpiece : piece ∈ PROMOTION_CHOICES) :
    ∃ record, (play.game.apply ⟨from_, to_, some piece⟩).1 = .ok record :=
  apply_promoting hc (h.required from_ to_ hp) hpiece

/-- What changes anything asks for a frame, but for a tap on nothing that disarms NEW GAME. -/
theorem announces_iff (hdoes : Does size play pointer pressed) :
    ((⟨pressed.screen, pressed.game⟩ : Play c) ≠ play → pressed.action = .redraw) ↔
      ¬ (play.screen.newGameArmed = true ∧ play.OnNothing size pointer) := by
  cases hdoes with
  | ignored tap =>
    exact iff_of_true (fun h => absurd rfl h)
      fun h => absurd (h.2.tap.symm.trans tap) (by decide)
  | waits pending =>
    refine iff_of_true (fun _ => rfl) fun h => ?_
    rw [h.2.pending] at pending
    cases pending
  | promotes pending =>
    refine iff_of_true (fun _ => rfl) fun h => ?_
    rw [h.2.pending] at pending
    cases pending
  | claims tap pending claimed =>
    exact iff_of_true (fun _ => rfl) fun h => absurd (h.2.claimDraw.symm.trans claimed) (by decide)
  | leaves tap pending home =>
    exact iff_of_true (fun h => absurd rfl h) fun h => absurd (h.2.home.symm.trans home) (by decide)
  | flips past flip =>
    exact iff_of_true (fun _ => rfl) fun h => absurd (h.2.flipBoard.symm.trans flip) (by decide)
  | renews past newGame armed =>
    exact iff_of_true (fun _ => rfl) fun h => absurd (h.2.newGame.symm.trans newGame) (by decide)
  | arms past newGame unarmed =>
    exact iff_of_true (fun _ => rfl) fun h => absurd (h.2.newGame.symm.trans newGame) (by decide)
  | misses nothing =>
    constructor
    · rintro h ⟨harmed, -⟩
      -- The label of NEW GAME changes, and no frame is asked for.
      have hne : (⟨{ play.screen with newGameArmed := false }, play.game⟩ : Play c) ≠ play := by
        intro heq
        rw [← heq] at harmed
        cases harmed
      cases h hne
    · intro h hne
      have hunarmed : play.screen.newGameArmed = false := by simpa using fun ha => h ⟨ha, nothing⟩
      refine absurd ?_ hne
      rw [← hunarmed]
  | squares past newGame board squared =>
    exact iff_of_true (fun _ => squared.action) fun h => board h.2.board

/-- The new game is armed by a tap on NEW GAME. -/
theorem arms_of_armed (hdoes : Does size play pointer pressed)
    (hbefore : play.screen.newGameArmed ≠ true) (hafter : pressed.screen.newGameArmed = true) :
    play.OnNewGame size pointer := by
  cases hdoes with
  | ignored | waits | promotes | claims | leaves => exact absurd hafter hbefore
  | flips | renews | misses => cases hafter
  | arms past newGame unarmed => exact ⟨past.tap, newGame⟩
  | squares past newGame board squared =>
    rw [squared.armed] at hafter
    cases hafter

/-- It stays armed over taps on CLAIM DRAW and HOME, and none other. -/
theorem passing_of_armed (h : play.Fits) (hdoes : Does size play pointer pressed)
    (hbefore : play.screen.newGameArmed = true) (hafter : pressed.screen.newGameArmed = true)
    (htap : pointer.isTap = true) : play.Passing size pointer := by
  have hnone := h.unarmed hbefore
  cases hdoes with
  | ignored tap => exact absurd (htap.symm.trans tap) (by decide)
  | waits pending => rw [hnone] at pending; cases pending
  | promotes pending => rw [hnone] at pending; cases pending
  | claims tap pending claimed => exact ⟨tap, .inl claimed⟩
  | leaves tap pending home => exact ⟨tap, .inr home⟩
  | flips | renews | misses => cases hafter
  | arms past newGame unarmed => rw [hbefore] at unarmed; cases unarmed
  | squares past newGame board squared =>
    rw [squared.armed] at hafter
    cases hafter

/-- The history is lost to a tap on NEW GAME while it is armed. -/
theorem renews_of_lost (hdoes : Does size play pointer pressed)
    (hlost : ¬ play.game.events <+: pressed.game.events) :
    play.OnNewGame size pointer ∧ play.screen.newGameArmed = true := by
  cases hdoes with
  | ignored | waits | leaves | flips | arms | misses => exact absurd List.prefix_rfl hlost
  | promotes pending => exact absurd (apply_events _) hlost
  | claims tap pending claimed => exact absurd claimDraw_events hlost
  | renews past newGame armed => exact ⟨⟨past.tap, newGame⟩, armed⟩
  | squares past newGame board squared => exact absurd squared.events hlost

/-! ## Actions that are apart -/

/-- The actions are in a row. -/
theorem layout_actions (size : Protocol.Size) (play : Play c) : ∃ (bounds : Rect K) (count : ℕ),
    (play.layout size).newGame = footerActionRect bounds count 0 ∧
    (play.layout size).flipBoard = footerActionRect bounds count 1 ∧
    (play.layout size).home = footerActionRect bounds count 2 ∧
    ∀ rect ∈ (play.layout size).claimDraw, rect = footerActionRect bounds count 3 := by
  refine ⟨.ofSize size, _, rfl, rfl, rfl, fun rect h => ?_⟩
  unfold Play.layout Chess.layout at h
  dsimp only at h
  split at h
  · next hclaim =>
    rw [if_pos hclaim]
    exact (Option.some.inj h).symm
  · cases h

variable [IsStrictOrderedRing K]

/-- No point is on two actions. -/
theorem footerActionRect_apart {bounds : Rect K} {count i j : ℕ} (hij : i < j)
    (hi : (footerActionRect bounds count i).hit pointer = true) :
    (footerActionRect bounds count j).hit pointer = false := by
  by_contra hj
  rw [Bool.not_eq_false] at hj
  simp only [footerActionRect, Rect.hit, Rect.contains] at hi hj
  obtain ⟨hleft, hright, -⟩ := of_decide_eq_true hi
  obtain ⟨hleft', -⟩ := of_decide_eq_true hj
  have hwidth : 0 < footerActionWidth bounds count := by linarith
  have hcast : (i : K) + 1 ≤ j := by exact_mod_cast hij
  have hstep : 0 ≤ footerActionWidth bounds count + ((24 : ℕ) : K) := by positivity
  have := mul_le_mul_of_nonneg_right hcast hstep
  have h24 : (0 : K) ≤ ((24 : ℕ) : K) := Nat.cast_nonneg _
  linarith

/-- A point on HOME is not on CLAIM DRAW. -/
theorem claimDraw_of_home (h : (play.layout size).home.hit pointer = true) :
    ((play.layout size).claimDraw.any (·.hit pointer)) = false := by
  obtain ⟨bounds, count, -, -, hhome, hclaim⟩ := layout_actions (K := K) size play
  rw [hhome] at h
  rw [Option.any_eq_false]
  intro rect hrect
  rw [hclaim rect hrect, footerActionRect_apart (by decide) h]

/-- A point on NEW GAME is on no other action. -/
theorem past_of_newGame (htap : pointer.isTap = true)
    (hpending : play.screen.pendingPromotion = none)
    (h : (play.layout size).newGame.hit pointer = true) :
    play.Past size pointer ∧ (play.layout size).flipBoard.hit pointer = false := by
  obtain ⟨bounds, count, hnew, hflip, hhome, hclaim⟩ := layout_actions (K := K) size play
  rw [hnew] at h
  refine ⟨⟨htap, hpending, ?_, ?_⟩, ?_⟩
  · rw [Option.any_eq_false]
    intro rect hrect
    rw [hclaim rect hrect, footerActionRect_apart (by decide) h]
  · rw [hhome]
    exact footerActionRect_apart (by decide) h
  · rw [hflip]
    exact footerActionRect_apart (by decide) h

/-- A tap on HOME leaves the app if no promotion waits for its piece. -/
theorem home_iff (hdoes : Does size play pointer pressed) (htap : pointer.isTap = true)
    (h : (play.layout size).home.hit pointer = true) :
    pressed.action = .home ↔ play.screen.pendingPromotion = none := by
  cases hdoes with
  | ignored tap => exact absurd (htap.symm.trans tap) (by decide)
  | waits pending =>
    refine iff_of_false (fun h => (by cases h)) fun hnone => ?_
    rw [hnone] at pending
    cases pending
  | promotes pending =>
    refine iff_of_false (fun h => (by cases h)) fun hnone => ?_
    rw [hnone] at pending
    cases pending
  | claims tap pending claimed =>
    exact absurd ((claimDraw_of_home h).symm.trans claimed) (by decide)
  | leaves tap pending home => exact iff_of_true rfl pending
  | flips past | renews past | arms past | squares past =>
    exact absurd (past.home.symm.trans h) (by decide)
  | misses nothing => exact absurd (nothing.home.symm.trans h) (by decide)

/-- A tap on NEW GAME while it is armed starts a new game. -/
theorem renews_of_armed (hfits : play.Fits) (hdoes : Does size play pointer pressed)
    (harmed : play.screen.newGameArmed = true) (htap : play.OnNewGame size pointer) :
    pressed.game = .new ∧ pressed.screen.newGameArmed = false := by
  obtain ⟨tap, hnew⟩ := htap
  have hpending := hfits.unarmed harmed
  obtain ⟨hpast, hflip⟩ := past_of_newGame tap hpending hnew
  cases hdoes with
  | ignored tap' => exact absurd (tap.symm.trans tap') (by decide)
  | waits pending =>
    rw [hpending] at pending
    cases pending
  | promotes pending =>
    rw [hpending] at pending
    cases pending
  | claims tap pending claimed => exact absurd (hpast.claimDraw.symm.trans claimed) (by decide)
  | leaves tap pending home => exact absurd (hpast.home.symm.trans home) (by decide)
  | flips past flip => exact absurd (hflip.symm.trans flip) (by decide)
  | renews past newGame armed => exact ⟨rfl, rfl⟩
  | arms past newGame unarmed =>
    rw [harmed] at unarmed
    cases unarmed
  | misses nothing => exact absurd (nothing.newGame.symm.trans hnew) (by decide)
  | squares past newGame board squared => exact absurd (newGame.symm.trans hnew) (by decide)

end

/-! ## Runs -/

section

variable {K : Type} [Field K] [LinearOrder K] [FloorRing K] (size : Protocol.Size)
  (start : Game c) (inputs : List (PointerEvent K)) (k : ℕ)

/-- The screen and the game before an input of a run from a fresh screen. -/
def playAt : Play c := at_ (Play.step size) ⟨.new, start⟩ inputs k

/-- NEW GAME is armed. -/
def Armed : Prop := (playAt size start inputs k).screen.newGameArmed = true

/-- An input replaces a game: moves or claims that were in its history are not. -/
def Replaces : Prop :=
  ¬ (playAt size start inputs k).game.events <+: (playAt size start inputs (k + 1)).game.events

/-- An input is a second tap on NEW GAME, with none elsewhere after the first. -/
def Deliberate : Prop :=
  ∃ first, first < k ∧
    (∃ pointer, inputs[first]? = some pointer ∧
      (playAt size start inputs first).OnNewGame size pointer) ∧
    (∃ pointer, inputs[k]? = some pointer ∧ (playAt size start inputs k).OnNewGame size pointer) ∧
    ∀ j pointer, first < j → j < k → inputs[j]? = some pointer →
      ¬ (playAt size start inputs j).Elsewhere size pointer

/-- An input is a tap on NEW GAME, armed, in a game with moves, after one on CLAIM DRAW or HOME
since it was armed. -/
def Strayed : Prop :=
  (playAt size start inputs k).game.ply ≠ 0 ∧
    (∃ pointer, inputs[k]? = some pointer ∧ (playAt size start inputs k).OnNewGame size pointer) ∧
    ∃ armed, Since (Armed size start inputs) armed k ∧
      ∃ j pointer, armed < j ∧ j < k ∧ inputs[j]? = some pointer ∧
        (playAt size start inputs j).Passing size pointer

variable {size start inputs k}

theorem playAt_succ {pointer : PointerEvent K} (h : inputs[k]? = some pointer) :
    playAt size start inputs (k + 1) = (playAt size start inputs k).step size pointer := at_succ h

theorem fits_playAt : (playAt size start inputs k).Fits :=
  at_invariant (fits_new start) fun _ pointer h => h.step pointer

theorem not_armed_zero : ¬ Armed size start inputs 0 := fun h => by cases h

theorem Play.Passing.elsewhere {play : Play c} {pointer : PointerEvent K}
    (h : play.Passing size pointer) : play.Elsewhere size pointer := by
  obtain ⟨htap, hclaim | hhome⟩ := h
  · exact ⟨htap, .inl hclaim⟩
  · exact ⟨htap, .inr (.inl hhome)⟩

/-- The input that arms NEW GAME is a tap on it. -/
theorem onNewGame_of_since {armed : ℕ} (h : Since (Armed size start inputs) armed k) :
    ∃ pointer, inputs[armed]? = some pointer ∧
      (playAt size start inputs armed).OnNewGame size pointer := by
  have hafter := h.during (armed + 1) armed.lt_succ_self h.lt
  rcases hi : inputs[armed]? with _ | pointer
  · rw [Armed, playAt, at_succ_of_none hi] at hafter
    exact absurd hafter h.before
  · rw [Armed, playAt_succ hi] at hafter
    exact ⟨pointer, rfl, arms_of_armed (does_press _ pointer) h.before hafter⟩

/-- While NEW GAME is armed, there is no tap elsewhere but for those on CLAIM DRAW and HOME. -/
theorem passing_of_since {armed j : ℕ} {pointer : PointerEvent K}
    (h : Since (Armed size start inputs) armed k) (hj : armed < j) (hjk : j < k)
    (hi : inputs[j]? = some pointer)
    (helse : (playAt size start inputs j).Elsewhere size pointer) :
    (playAt size start inputs j).Passing size pointer := by
  have hafter := h.during (j + 1) (by omega) hjk
  rw [Armed, playAt_succ hi] at hafter
  exact passing_of_armed fits_playAt (does_press _ pointer) (h.during j hj (by omega)) hafter
    helse.1

/-- A game is replaced by two taps on NEW GAME in a row, but for one on CLAIM DRAW or HOME between
them. -/
theorem deliberate_of_replaces (h : Replaces size start inputs k)
    (hn : ¬ Strayed size start inputs k) : Deliberate size start inputs k := by
  rcases hi : inputs[k]? with _ | pointer
  · rw [Replaces, playAt, playAt, at_succ_of_none hi] at h
    exact absurd List.prefix_rfl h
  · have hlost := h
    rw [Replaces, playAt_succ hi] at hlost
    obtain ⟨htap, harmed⟩ := renews_of_lost (does_press _ pointer) hlost
    obtain ⟨armed, hsince⟩ := Since.exists_ not_armed_zero harmed
    refine ⟨armed, hsince.lt, onNewGame_of_since hsince, ⟨pointer, hi, htap⟩, ?_⟩
    intro j pointer' hj hjk hij helse
    refine hn ⟨fun hply => ?_, ⟨pointer, hi, htap⟩, armed, hsince, j, pointer', hj, hjk, hij,
      passing_of_since hsince hj hjk hij helse⟩
    rw [List.length_eq_zero_iff.1 hply] at hlost
    exact hlost (List.nil_prefix)

variable [IsStrictOrderedRing K]

/-- A second tap on NEW GAME after one on CLAIM DRAW or HOME replaces the game all the same. -/
theorem not_deliberate_of_strayed (h : Strayed size start inputs k) :
    Replaces size start inputs k ∧ ¬ Deliberate size start inputs k := by
  obtain ⟨hply, ⟨pointer, hi, htap⟩, armed, hsince, j, pointer', hj, hjk, hij, hpass⟩ := h
  refine ⟨fun hpre => ?_, ?_⟩
  · obtain ⟨hgame, -⟩ :=
      renews_of_armed fits_playAt (does_press _ pointer) hsince.now htap
    rw [playAt_succ hi, Play.step, hgame] at hpre
    exact hply (List.length_eq_zero_iff.2 (List.prefix_nil.1 hpre))
  · rintro ⟨first, hfirst, ⟨pointer'', hi', htap'⟩, -, hnone⟩
    rcases Nat.lt_trichotomy first j with hlt | rfl | hlt
    · exact hnone j pointer' hlt hjk hij hpass.elsewhere
    · -- One tap is not on both.
      obtain rfl := Option.some.inj (hij.symm.trans hi')
      have hpending := fits_playAt.unarmed (hsince.during first hj (by omega))
      obtain ⟨hpast, -⟩ := past_of_newGame htap'.1 hpending htap'.2
      rcases hpass.2 with hclaim | hhome
      · exact absurd (hpast.claimDraw.symm.trans hclaim) (by decide)
      · exact absurd (hpast.home.symm.trans hhome) (by decide)
    · -- A tap on NEW GAME between the two disarms it.
      obtain ⟨-, hdisarmed⟩ := renews_of_armed fits_playAt (does_press _ pointer'')
        (hsince.during first (by omega) (by omega)) htap'
      have hafter := hsince.during (first + 1) (by omega) hfirst
      rw [Armed, playAt_succ hi', Play.step, hdisarmed] at hafter
      cases hafter

/-- In every run from a fresh screen, on any game: a promotion that waits for its piece can become
any of the four. A pointer event that changes anything asks for a frame, but for a tap on nothing
that disarms NEW GAME. A tap on HOME leaves the app if no promotion waits. A game is replaced by two
taps on NEW GAME in a row, but for one on CLAIM DRAW or HOME between them. -/
theorem chess_screen (hc : c.PromotesToAll) (size : Protocol.Size) (start : Game c)
    (inputs : List (PointerEvent K)) (k : ℕ) :
    (∀ from_ to_, (playAt size start inputs k).screen.pendingPromotion = some (from_, to_) →
      ∀ piece ∈ PROMOTION_CHOICES, ∃ record,
        ((playAt size start inputs k).game.apply ⟨from_, to_, some piece⟩).1 = .ok record) ∧
    (∀ pointer : PointerEvent K,
      ((playAt size start inputs k).step size pointer ≠ playAt size start inputs k →
        ((playAt size start inputs k).press size pointer).action = .redraw) ↔
      ¬ (Armed size start inputs k ∧ (playAt size start inputs k).OnNothing size pointer)) ∧
    (∀ pointer : PointerEvent K, pointer.isTap = true →
      ((playAt size start inputs k).layout size).home.hit pointer = true →
      (((playAt size start inputs k).press size pointer).action = .home ↔
        (playAt size start inputs k).screen.pendingPromotion = none)) ∧
    ((Replaces size start inputs k → Deliberate size start inputs k) ↔
      ¬ Strayed size start inputs k) := by
  refine ⟨fun _ _ hp _ hpiece => fits_playAt.promotes hc hp hpiece,
    fun pointer => announces_iff (does_press _ pointer),
    fun pointer htap h => home_iff (does_press _ pointer) htap h, fun h hs => ?_, fun h hr => ?_⟩
  · obtain ⟨hreplaces, hnot⟩ := not_deliberate_of_strayed hs
    exact hnot (h hreplaces)
  · exact deliberate_of_replaces hr h

end

/-! ## A pawn on the seventh rank -/

namespace Seventh

open Pinned (square moves a1)

/-- The start, and a white pawn on e7 with the kings on a1 and h3, before and after it promotes. -/
inductive Board where
  | standard
  | pawn
  | promoted (piece : PieceKind)
  deriving DecidableEq

def h3 : Square := square 7 2
def e7 : Square := square 4 6
def e8 : Square := square 4 7

/-- The pieces of a side's first rank. -/
def firstRank (file : ℕ) : PieceKind :=
  if file = 0 ∨ file = 7 then .rook
  else if file = 1 ∨ file = 6 then .knight
  else if file = 2 ∨ file = 5 then .bishop
  else if file = 3 then .queen
  else .king

def Board.squareOf (board : Board) (square : Square) : Option (Color × PieceKind) :=
  match board with
  | .standard =>
    if square.rank.val = 0 then some (.white, firstRank square.file)
    else if square.rank.val = 1 then some (.white, .pawn)
    else if square.rank.val = 6 then some (.black, .pawn)
    else if square.rank.val = 7 then some (.black, firstRank square.file)
    else none
  | .pawn =>
    if square = a1 then some (.white, .king)
    else if square = h3 then some (.black, .king)
    else if square = e7 then some (.white, .pawn)
    else none
  | .promoted piece =>
    if square = a1 then some (.white, .king)
    else if square = h3 then some (.black, .king)
    else if square = e8 then some (.white, piece)
    else none

def Board.newLegal : Board → List Move
  | .standard =>
    (List.range 8).flatMap (fun file => moves (square file 1) [(file, 2), (file, 3)]) ++
      moves (square 1 0) [(0, 2), (2, 2)] ++ moves (square 6 0) [(5, 2), (7, 2)]
  | .pawn =>
    PROMOTION_CHOICES.map (fun piece => ⟨e7, e8, some piece⟩) ++ moves a1 [(0, 1), (1, 0), (1, 1)]
  | .promoted _ => moves h3 [(6, 1), (7, 1), (6, 2), (6, 3), (7, 3)]

/-- The rules, as far as the sample goes. -/
abbrev chess : ChessCrate where
  Board := Board
  default := .standard
  fromStr fen :=
    if fen = "8/4P3/8/8/8/7k/8/K7 w - - 0 1" then some .pawn else none
  squareOf := Board.squareOf
  sideToMove
    | .standard | .pawn => .white
    | .promoted _ => .black
  newLegal := Board.newLegal
  makeMoveNew board chosen :=
    match board, chosen.promotion with
    | .pawn, some piece => .promoted piece
    | board, _ => board
  status _ := .ongoing
  checkers _ := 0
  pieces board kind :=
    match board, kind with
    | .standard, .pawn => 16
    | .standard, .queen | .standard, .king => 2
    | .standard, _ => 4
    | .pawn, kind => if kind = .king then 2 else if kind = .pawn then 1 else 0
    | .promoted piece, kind => if kind = .king then 2 else if kind = piece then 1 else 0
  castleRights board _ := if board = .standard then .both else .noRights
  enPassant _ := none
  getHash
    | .standard => 0
    | .pawn => 1
    | .promoted piece => 2 + [PieceKind.queen, .rook, .bishop, .knight].idxOf piece

theorem promotesToAll : chess.PromotesToAll := by
  intro board
  cases board with
  | standard => decide
  | pawn => decide
  | promoted piece => cases piece <;> decide

def game : Game chess := Game.fromBoard Board.pawn 0

def tap (x y : ℚ) : PointerEvent ℚ := ⟨x, y, .up⟩

/-- The pawn is picked up and moved, the queen chosen, NEW GAME armed, HOME tapped, and NEW GAME
tapped again. -/
def taps : List (PointerEvent ℚ) :=
  [tap 860 603, tap 860 428, tap 200 1000, tap 100 2050, tap 1200 2050, tap 100 2050]

end Seventh

open Seventh

/-- With the pawn on the last rank, any of the four can be chosen. -/
theorem chess_screen_seventh :
    (playAt SCREEN game taps 2).screen.pendingPromotion = some (e7, e8) ∧
      ∀ piece ∈ PROMOTION_CHOICES, ∃ record,
        ((playAt SCREEN game taps 2).game.apply ⟨e7, e8, some piece⟩).1 = .ok record := by
  have hp : (playAt SCREEN game taps 2).screen.pendingPromotion = some (e7, e8) := by
    decide +kernel
  exact ⟨hp, (chess_screen promotesToAll SCREEN game taps 2).1 e7 e8 hp⟩

/-- HOME does nothing while the piece is chosen, a tap on the status bar takes CONFIRM NEW GAME?
back without a frame, and the game with a move in it is replaced though HOME was tapped in
between. -/
theorem seventh_strays :
    ((playAt SCREEN game taps 2).layout SCREEN).home.hit (tap 1200 2050) = true ∧
    ((playAt SCREEN game taps 2).press SCREEN (tap 1200 2050)).action ≠ .home ∧
    ((playAt SCREEN game [tap 100 2050] 1).step SCREEN (tap 10 10)).screen ≠
      (playAt SCREEN game [tap 100 2050] 1).screen ∧
    ((playAt SCREEN game [tap 100 2050] 1).press SCREEN (tap 10 10)).action ≠ .redraw ∧
    Replaces SCREEN game taps 5 ∧ ¬ Deliberate SCREEN game taps 5 := by
  refine ⟨by decide +kernel, by decide +kernel, by decide +kernel, by decide +kernel, ?_⟩
  have hnew : (playAt SCREEN game taps 5).OnNewGame SCREEN (tap 100 2050) :=
    ⟨rfl, by decide +kernel⟩
  have hhome : (playAt SCREEN game taps 4).Passing SCREEN (tap 1200 2050) :=
    ⟨rfl, .inr (by decide +kernel)⟩
  refine not_deliberate_of_strayed ⟨by decide +kernel, ⟨_, rfl, hnew⟩, 3,
    ⟨by decide, by unfold Armed; decide +kernel, fun k hk hk' => ?_⟩, 4, _, by decide, by decide,
    rfl, hhome⟩
  obtain rfl | rfl : k = 4 ∨ k = 5 := by omega
  · unfold Armed
    decide +kernel
  · unfold Armed
    decide +kernel

end Paperclip.Chess
