import MyIVR.Store.GameRecord

/-! Loading what was saved. The writer stores `color` as a number and the reader
takes every field for a string, so no save can be read. -/
namespace MyIVR
open Swift KeyTree

/-- The handler is called once, with the board and the numbers that were saved. -/
def RoundTrips (userID : String) (players color moves : Int) (b : Board)
    (gameID saveKey date : String) (db : Snapshot) : Prop :=
  ∃ db' call, saveGame userID players color moves b gameID saveKey date db = .ok db' ∧
    loadGame gameID db' = ([call], none) ∧ (∀ s : Square, kindAt call.save s.key = kindAt b s.key) ∧
    call.players = players ∧ call.color = color ∧ call.moves = moves

private theorem load_after_save {b : Board} (hb : Full b) (userID : String) (players color moves : Int)
    (gameID saveKey date : String) {db : Snapshot} (noSaves : (saves db).keys = ∅) :
    ∃ db', saveGame userID players color moves b gameID saveKey date db = .ok db' ∧
      loadGame gameID db' = ([], some .badCast) := by
  refine ⟨_, saveGame_eq hb .., ?_⟩
  have hsaves := saves_after hb (saveGame_eq hb userID players color moves gameID saveKey date db)
  have hkeys : ((saves db).put gameID (((saves db).child gameID).merge (recordFields (kindsOf b)
      (toString players) (toString moves) date (.leaf (.num color))))).keys = {gameID} := by
    rw [Node.keys_put, noSaves]
    rfl
  have hnumbers := record_numbers ((saves db).child gameID) (kindsOf b) (toString players) (toString moves)
    date (.leaf (.num color))
  have hrecord := loadRecord_number (readable_record ((saves db).child gameID) (kindsOf b)
    (toString players) (toString moves) date (.leaf (.num color))) hnumbers.1 hnumbers.2.2.2
  rw [loadGame, hsaves, Node.children_of_keys_eq_singleton hkeys, Node.child_put_same, List.map_singleton,
    loadRecords, hrecord]

private theorem not_roundTrips {userID gameID saveKey date : String} {players color moves : Int}
    {b : Board} {db db' : Snapshot} {fault : Fault}
    (hsave : saveGame userID players color moves b gameID saveKey date db = .ok db')
    (hload : loadGame gameID db' = ([], some fault)) :
    ¬ RoundTrips userID players color moves b gameID saveKey date db := by
  rintro ⟨_, call, hsave', hload', _⟩
  cases hsave.symm.trans hsave'
  cases hload.symm.trans hload'

/-- On every board and with every number to save, from a database without saves:
the load of the only save ends with a failed cast, and the handler is never called. -/
theorem load_after_save_traps {b : Board} (hb : Full b) (userID : String) (players color moves : Int)
    (gameID saveKey date : String) (db : Snapshot) (noSaves : (saves db).keys = ∅) :
    (∃ db', saveGame userID players color moves b gameID saveKey date db = .ok db' ∧
      loadGame gameID db' = ([], some .badCast)) ∧
    ¬ RoundTrips userID players color moves b gameID saveKey date db := by
  obtain ⟨db', hsave, hload⟩ := load_after_save hb userID players color moves gameID saveKey date noSaves
  exact ⟨⟨db', hsave, hload⟩, not_roundTrips hsave hload⟩

/-- The board of a new game saved to an empty database is lost. -/
theorem newGame_save_lost :
    ¬ RoundTrips "user" 1 0 0 GameData.new.initBoardA.boardA "save" "entry" "date" .null := by
  have noSaves : (saves .null).keys = ∅ := rfl
  obtain ⟨db', hsave, hload⟩ := load_after_save full_newGame "user" 1 0 0 "save" "entry" "date" noSaves
  exact not_roundTrips hsave hload

/-- The board of a new game is saved, and loading the save traps on its color. -/
theorem newGame_save_traps :
    ∃ db', saveGame "user" 1 0 0 GameData.new.initBoardA.boardA "save" "entry" "date" .null = .ok db' ∧
      loadGame "save" db' = ([], some .badCast) :=
  (load_after_save_traps full_newGame "user" 1 0 0 "save" "entry" "date" .null rfl).1

end MyIVR
