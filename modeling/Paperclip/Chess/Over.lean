import Paperclip.Chess.Save

/-!
# When a game is over

* `Reaches`: every game that calls lead to, whether they succeed or are refused.
* `CanContinue`: the side to move has a legal move, and there is enough material.
* `Judged`: a game goes on only if it can, takes no event once it is over, and is as it was after a
  call that is refused.
* `over_exactly`: so is every game from the standard start, every game that is loaded, and just
  those games from FEN that start where a game can continue. `kings_play_on`: from two kings, not.
-/

namespace Paperclip.Chess

variable {c : ChessCrate}

/-- What calls lead to. -/
inductive Reaches (start : Game c) : Game c → Prop where
  | start : Reaches start start
  | apply {game : Game c} (h : Reaches start game) (mv : Move) : Reaches start (game.apply mv).2
  | claimDraw {game : Game c} (h : Reaches start game) : Reaches start game.claimDraw.2

/-- The side to move has a legal move, and there is enough material. -/
def CanContinue (board : c.Board) : Prop :=
  c.newLegal board ≠ [] ∧ insufficientMaterial board = false

/-- A game that is over exactly when it should be. -/
structure Judged (game : Game c) : Prop where
  goes_on : game.outcome = none → CanContinue game.board
  over_apply : game.outcome ≠ none → ∀ mv, (game.apply mv).2.events = game.events
  over_claim : game.outcome ≠ none → game.claimDraw.2.events = game.events
  refused_apply : ∀ mv e, (game.apply mv).1 = .error e → (game.apply mv).2 = game
  refused_claim : ∀ e, game.claimDraw.1 = .error e → game.claimDraw.2 = game

section

variable {start game : Game c}

/-- A claim that is refused changes nothing. -/
theorem claimDraw_error {e : ClaimError} (h : game.claimDraw.1 = .error e) :
    game.claimDraw.2 = game := by
  unfold Game.claimDraw at h ⊢
  split
  · rfl
  · next hover =>
    rw [if_neg hover] at h
    split
    · rfl
    · next hclaim =>
      rw [hclaim] at h
      cases h

/-- A claim that succeeds ends the game. -/
theorem claimDraw_outcome {claim : ClaimableDraw} (h : game.claimDraw.1 = .ok claim) :
    game.claimDraw.2.outcome = some (.claimed claim) := by
  unfold Game.claimDraw at h ⊢
  split at h
  · cases h
  · next hover =>
    rw [if_neg hover]
    split at h
    · cases h
    · next hclaim =>
      cases h
      rfl

/-- Where no outcome is derived, a game can continue. -/
theorem canContinue_of_derive
    (hstatus : ∀ board : c.Board, c.status board = .ongoing → c.newLegal board ≠ [])
    {board : c.Board} {clock occurrences : ℕ}
    (h : Game.deriveAutomaticOutcome board clock occurrences = none) : CanContinue board := by
  unfold Game.deriveAutomaticOutcome at h
  split at h
  · cases h
  · cases h
  · next hongoing =>
    split at h
    · cases h
    · next hmaterial => exact ⟨hstatus board hongoing, Bool.eq_false_iff.2 hmaterial⟩

/-- One call: a game that goes on after it can, if it could before. -/
theorem goes_on_apply
    (hstatus : ∀ board : c.Board, c.status board = .ongoing → c.newLegal board ≠ [])
    (h : game.outcome = none → CanContinue game.board) (mv : Move) :
    (game.apply mv).2.outcome = none → CanContinue (game.apply mv).2.board := by
  rcases hresult : (game.apply mv).1 with e | record
  · rw [apply_error hresult]
    exact h
  · obtain ⟨-, piece, chosen, -, -, -, -, hnext⟩ := apply_step hresult
    rw [hnext]
    exact canContinue_of_derive hstatus

theorem goes_on_claimDraw (h : game.outcome = none → CanContinue game.board) :
    game.claimDraw.2.outcome = none → CanContinue game.claimDraw.2.board := by
  rcases hresult : game.claimDraw.1 with e | claim
  · rw [claimDraw_error hresult]
    exact h
  · rw [claimDraw_outcome hresult]
    intro hnone
    cases hnone

/-- All calls: a game that goes on can, if it could at the start. -/
theorem goes_on_reaches
    (hstatus : ∀ board : c.Board, c.status board = .ongoing → c.newLegal board ≠ [])
    (hstart : start.outcome = none → CanContinue start.board) (h : Reaches start game) :
    game.outcome = none → CanContinue game.board := by
  induction h with
  | start => exact hstart
  | apply h mv ih => exact goes_on_apply hstatus ih mv
  | claimDraw h ih => exact goes_on_claimDraw ih

/-- A game that is over refuses every call. -/
theorem over_refuses (h : game.outcome ≠ none) (mv : Move) :
    game.apply mv = (.error .gameOver, game) ∧ game.claimDraw = (.error .gameOver, game) := by
  have hsome : game.outcome.isSome = true := Option.isSome_iff_ne_none.2 h
  exact ⟨by rw [Game.apply, if_pos hsome], by rw [Game.claimDraw, if_pos hsome]⟩

theorem judged_of (h : game.outcome = none → CanContinue game.board) : Judged game where
  goes_on := h
  over_apply hover mv := by rw [(over_refuses hover mv).1]
  over_claim hover := by rw [(over_refuses hover ⟨⟨0, 0⟩, ⟨0, 0⟩, none⟩).2]
  refused_apply _ _ := apply_error
  refused_claim _ := claimDraw_error

theorem Plays.reaches (h : Plays start game) : Reaches start game := by
  induction h with
  | start => exact .start
  | apply h h' ih => exact ih.apply _
  | claimDraw h h' ih => exact ih.claimDraw

end

/-- Every game from the standard start, and every one that is loaded, is over exactly when it should
be; a start from FEN leads to such games just if a game can continue there. -/
theorem over_exactly (toml : TomlCrate)
    (hstatus : ∀ board : c.Board, c.status board = .ongoing → c.newLegal board ≠ [])
    (hdefault : CanContinue c.default) :
    (∀ game : Game c, Reaches .new game → Judged game) ∧
    (∀ text loaded, load c toml text = .ok loaded → ∀ game, Reaches loaded game → Judged game) ∧
    ∀ (fen : String) (start : Game c), Game.fromFen fen = some start →
      ((∀ game, Reaches start game → Judged game) ↔ CanContinue start.board) := by
  have hnew : ∀ game : Game c, Reaches .new game → game.outcome = none → CanContinue game.board :=
    fun game => goes_on_reaches hstatus fun _ => hdefault
  refine ⟨fun game h => judged_of (hnew game h), fun text loaded hload game h => judged_of ?_,
    fun fen start hstart => ⟨fun h => ?_, fun h game hreaches => judged_of ?_⟩⟩
  · exact goes_on_reaches hstatus (hnew loaded (load_plays hload).reaches) h
  · have hnone : start.outcome = none := by
      obtain ⟨board, -, rfl⟩ := Option.map_eq_some_iff.1 hstart
      rfl
    exact (h start .start).goes_on hnone
  · exact goes_on_reaches hstatus (fun _ => h) hreaches

/-- The standard start after e2-e4. -/
theorem over_exactly_opening : Judged Sample.opened :=
  (over_exactly Sample.toml (fun board _ => by cases board <;> decide) ⟨by decide, by decide⟩).1 _
    Sample.plays_opened.reaches

/-- Two kings, set up from FEN, play on. -/
theorem kings_play_on : ∃ start : Game Sample.chess,
    Game.fromFen "4k3/8/8/8/8/8/8/4K3 w - - 0 1" = some start ∧
    ¬ ∀ game, Reaches start game → Judged game := by
  refine ⟨Sample.kings, rfl, fun h => ?_⟩
  have hcontinue := (h Sample.kings .start).goes_on rfl
  have hmaterial : insufficientMaterial (c := Sample.chess) .kings = true := by decide
  exact absurd (hmaterial.symm.trans hcontinue.2) (by decide)

end Paperclip.Chess
