import MyIVR.Game.TurnInvariant

/-! How the outer loop ends. `check` never finds a check, so `winner` stays true
and the loop has no end: taking a king is a move like any other. -/
namespace MyIVR
open Swift

def Move.CapturesKing (m : Move) : Prop := typeAt m.before.boardA m.nextPosition = some .king

instance (m : Move) : Decidable m.CapturesKing := inferInstanceAs (Decidable (_ = _))

def winnerLine : Color → String
  | .white => "White Win"
  | .black => "Black Win"

/-- An update that takes a king is the last one, and the loop ends with the
announcement of the colour that made it. -/
def KingCaptureEnds (w : Worker) (taps : List Square) : Prop :=
  ∀ (k : Nat) (m : Move), (w.executed taps)[k]? = some m → m.CapturesKing →
    (w.executed taps).length = k + 1 ∧
      ∃ x, m.before.boardA m.position = some x ∧ (w.run taps).status = .ended (winnerLine x.color)

/-- A run of a new game ends by king capture as it should exactly when no king
is captured in it. -/
theorem kingCaptureEnds_iff (taps : List Square) :
    KingCaptureEnds startNewGame taps ↔ ∀ m ∈ startNewGame.executed taps, ¬ m.CapturesKing := by
  constructor
  · intro hends m hm hking
    obtain ⟨k, hk⟩ := List.mem_iff_getElem?.mp hm
    obtain ⟨_, x, _, hover⟩ := hends k m hk hking
    exact (playing_newGame taps).running _ hover
  · intro hnone k m hk hking
    exact absurd hking (hnone m (List.mem_of_getElem? hk))

def knightRaid : List Square := [1, 18, 48, 40, 18, 35, 49, 41, 35, 45, 50, 42, 45, 60]

/-- The knight takes the king with the last of seven moves, and the loop waits for black's next move. -/
theorem newGame_king_captured :
    ((startNewGame.executed knightRaid).map (fun m => (m.position, m.nextPosition)) =
        [(1, 18), (48, 40), (18, 35), (49, 41), (35, 45), (50, 42), (45, 60)] ∧
      (startNewGame.run knightRaid).status = .waiting .source) ∧
      ¬ KingCaptureEnds startNewGame knightRaid := by
  have hking : ((startNewGame.executed knightRaid)[6]?.any (fun m => decide m.CapturesKing)) = true := by
    decide +kernel
  refine ⟨by decide +kernel, fun hends => ?_⟩
  cases hm : (startNewGame.executed knightRaid)[6]? with
  | none =>
    rw [hm] at hking
    cases hking
  | some m =>
    rw [hm, Option.any_some, decide_eq_true_eq] at hking
    obtain ⟨_, x, _, hover⟩ := hends 6 m hm hking
    exact (playing_newGame knightRaid).running _ hover

end MyIVR
