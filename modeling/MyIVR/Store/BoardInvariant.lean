import MyIVR.Game.Objects
import MyIVR.Store.GameRecord

/-! The representation invariant of the board over whole runs, and the two
readers that force every square: the king scan and saveGame. -/
namespace MyIVR
open Swift

private theorem occupied_script : (Finset.univ.filter (fun s : Square =>
    (lastWrite initScript s.key).any (fun write => write.2.1 != .empty) = true)).card = 32 := by
  decide +kernel

private theorem initial_count (g : GameData) :
    (Finset.univ.filter (fun s => (occupants g.initBoardA.boardA s).isSome = true)).card = 32 := by
  rw [← occupied_script]
  apply congrArg Finset.card
  apply Finset.filter_congr
  intro s _
  obtain ⟨n, type, color, hn, hs⟩ := initBoardA_square g s
  rw [occupants, hs, hn]
  simp [Option.filter_some]

/-- Whatever the dictionary held before on 0...63: after initBoardA and after any
taps the board keeps its representation, so no forced lookup of the king scan or
of saveGame fails. -/
theorem board_represented {g : GameData} (prior : ∀ k, (g.boardA k).isSome → 0 ≤ k ∧ k ≤ 63)
    (taps : List Square) :
    (Finset.univ.filter (fun s => (occupants g.initBoardA.boardA s).isSome = true)).card = 32 ∧
    Represents g ((Worker.start g.initBoardA).run taps).verf.boardA ∧
    (∀ (killer : Square) (winner : Bool), ∃ r,
      kingScan ((Worker.start g.initBoardA).run taps).verf killer.key winner = .ok r) ∧
    ∀ userID players color moves gameID saveKey date db, ∃ db', saveGame userID players color moves
      ((Worker.start g.initBoardA).run taps).verf.boardA gameID saveKey date db = .ok db' := by
  have h := Worker.Playing.run (full_initBoardA prior) (emptiesWhite_initBoardA prior) taps
  refine ⟨initial_count g, represents_of_reaches h.full h.reaches, fun killer winner => ?_, ?_⟩
  · exact ⟨winner, h.full.kingScan_eq killer winner⟩
  · intro userID players color moves gameID saveKey date db
    exact ⟨_, saveGame_eq h.full ..⟩

/-- A dictionary with a stray king, and the opening pawn move. -/
theorem stray_king_overwritten :
    Represents (GameData.new.place 20 .king .black)
      ((Worker.start (GameData.new.place 20 .king .black).initBoardA).run [8, 24]).verf.boardA := by
  refine (board_represented (fun k hk => ?_) [8, 24]).2.1
  by_cases h : k = 20
  · omega
  · simp only [GameData.place, Board.assign_ne _ h] at hk
    cases hk

end MyIVR
