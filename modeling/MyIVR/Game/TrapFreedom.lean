import MyIVR.Game.TurnInvariant

/-! When the move test and the turn loop crash. The queen's diagonal walk goes
away from its target and the rook's column scan mixes its row and loop index,
so both can run past the last key; nothing else in the tests can fault. -/
namespace MyIVR
open Swift

namespace Worker

/-- The next square the worker tests is one on which the test leaves the board. -/
def LeavesOn (w : Worker) (s : Square) : Prop :=
  w.AtTarget ∧ LeavesBoard w.verf.boardA w.position s.key

private theorem not_faulted {w : Worker} (h : ∃ site, w.status = .waiting site) :
    ¬ ∃ e, w.status = .faulted e := by
  rintro ⟨e, he⟩
  obtain ⟨site, hs⟩ := h
  cases hs.symm.trans he

private theorem Playing.faults_iff {first : GameData} {w : Worker} {done : List Move}
    (h : Playing first w done) (s : Square) :
    (∃ e, (w.tap s).1.status = .faulted e) ↔ (∃ e, w.status = .faulted e) ∨ w.LeavesOn s := by
  have hcases := h.tapped s
  generalize w.tap s = r at hcases
  cases hcases with
  | ignored stopped =>
    refine (or_iff_left ?_).symm
    rintro ⟨ht, _⟩
    obtain ⟨site, hs⟩ := ht.waiting
    exact stopped site hs
  | sourceRejected wait | sourceAccepted wait =>
    apply iff_of_false (not_faulted ⟨_, rfl⟩)
    exact not_or.mpr ⟨not_faulted wait.waiting, fun hl => wait.not_atTarget hl.1⟩
  | faulted wait p from_p leaves fault =>
    exact iff_of_true ⟨fault, rfl⟩ (.inr ⟨wait, from_p ▸ leaves⟩)
  | targetRejected wait p from_p stays =>
    apply iff_of_false (not_faulted ⟨_, rfl⟩)
    exact not_or.mpr ⟨not_faulted wait.waiting, fun hl => stays (from_p ▸ hl.2)⟩
  | moved wait p from_p stays =>
    apply iff_of_false (not_faulted ⟨.source, by simp [loopHead, h.winner]⟩)
    exact not_or.mpr ⟨not_faulted wait.waiting, fun hl => stays (from_p ▸ hl.2)⟩

end Worker

/-- On every full board the two tests of a pair of squares return exactly when
neither scan leaves the board, and a new game runs without a crash through
exactly the taps that never make a test leave it. -/
theorem tests_return_iff {g : GameData} (hg : Full g.boardA) (p q : Square) (taps : List Square) :
    ((∃ r, canGoTo g.boardA p.key q.key = .ok r) ∧ (∃ r, g.canKill p.key q.key = .ok r) ↔
      ¬ LeavesBoard g.boardA p.key q.key) ∧
    ((∀ e, (startNewGame.run taps).status ≠ .faulted e) ↔
      ∀ ts s us, taps = ts ++ s :: us → ¬ (startNewGame.run ts).LeavesOn s) := by
  constructor
  · rw [← hg.tests_err_iff p q, not_or]
    apply and_congr
    · rcases canGoTo g.boardA p.key q.key with e | r <;> simp
    · rcases g.canKill p.key q.key with e | r <;> simp
  · have hreached := Mealy.state_reached_iff (fun w : Worker => ∃ e, w.status = .faulted e)
      Worker.LeavesOn (s := startNewGame) (by rintro ⟨e, he⟩; cases he)
      (fun ts s => (playing_newGame ts).faults_iff s) taps
    rw [← not_exists]
    refine (not_congr hreached).trans ?_
    push Not
    rfl

/-- On the board of a new game, which is full, testing the white queen's move
from square 3 to square 21 looks up a missing key, and tapping the two squares
crashes the game. -/
theorem newGame_queen_crashes :
    Full GameData.new.initBoardA.boardA ∧
      canGoTo GameData.new.initBoardA.boardA 3 21 = .error .missingKey ∧
      (startNewGame.run [3, 21]).status = .faulted .missingKey := by
  refine ⟨full_newGame, ?_, ?_⟩ <;> decide +kernel

/-- On the board of a new game the test of white's knight on 1 returns. -/
theorem newGame_knight_returns :
    ∃ r, canGoTo GameData.new.initBoardA.boardA 1 18 = .ok r :=
  ((tests_return_iff full_newGame 1 18 []).1.mpr (by decide +kernel)).1

end MyIVR
