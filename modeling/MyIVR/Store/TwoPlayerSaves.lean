import MyIVR.Game.Snapshot
import MyIVR.Store.GameRecord
import MyIVR.Store.Tables

/-! A two-player game from its setup to the records of its saves. The segments of
StartTwoPlayerGame choose the info, TwoPlayerGame is handed it, and each press of Save
stores it with the counter and the board. -/
namespace MyIVR
open Swift KeyTree Full

/-- A control of UIKit, with its documented behaviour assumed. The index −1 stands for no
segment. -/
structure UISegmentedControl where
  selectedSegmentIndex : Int
  isMomentary : Bool
  deriving DecidableEq, Repr

namespace UISegmentedControl

def initial : UISegmentedControl := ⟨0, false⟩

/-- Assumed of UIKit: the control as the action of a tap on a segment finds it. The selected
segment of a control that is not momentary sends no action. -/
def select (c : UISegmentedControl) (segment : Fin 2) : Option UISegmentedControl :=
  if c.isMomentary || c.selectedSegmentIndex != segment.val then
    some { c with selectedSegmentIndex := segment.val }
  else none

/-- Assumed of UIKit: after the action a momentary control shows no segment. -/
def release (c : UISegmentedControl) : UISegmentedControl :=
  if c.isMomentary then { c with selectedSegmentIndex := -1 } else c

end UISegmentedControl

/-- `info` holds the number of players and the colour. -/
structure StartTwoPlayerGame where
  playerQuantityControl : UISegmentedControl
  figureColorControl : UISegmentedControl
  info : List Int
  deriving DecidableEq, Repr

/-- A tap on a segment of one of the two controls. -/
inductive Choice where
  | player (segment : Fin 2)
  | color (segment : Fin 2)

namespace StartTwoPlayerGame

def initial : StartTwoPlayerGame := ⟨.initial, .initial, [1, 0]⟩

def switchPlayer (c : StartTwoPlayerGame) : StartTwoPlayerGame :=
  if c.playerQuantityControl.selectedSegmentIndex = 1 then
    { c with figureColorControl := ⟨-1, true⟩, info := (c.info.set 0 2).set 1 0 }
  else
    { c with figureColorControl := { c.figureColorControl with isMomentary := false }, info := c.info.set 0 1 }

def switchColor (c : StartTwoPlayerGame) : StartTwoPlayerGame :=
  if c.figureColorControl.selectedSegmentIndex = 1 ∧ c.figureColorControl.isMomentary ≠ true then
    { c with info := c.info.set 1 1 }
  else { c with info := c.info.set 1 0 }

def step (c : StartTwoPlayerGame) : Choice → StartTwoPlayerGame
  | .player segment =>
    match c.playerQuantityControl.select segment with
    | some control =>
      let c := { c with playerQuantityControl := control }.switchPlayer
      { c with playerQuantityControl := c.playerQuantityControl.release }
    | none => c
  | .color segment =>
    match c.figureColorControl.select segment with
    | some control =>
      let c := { c with figureColorControl := control }.switchColor
      { c with figureColorControl := c.figureColorControl.release }
    | none => c

def run (c : StartTwoPlayerGame) (choices : List Choice) : StartTwoPlayerGame := choices.foldl step c

/-- The screens that are reached: one player with the shown colour, or two players and no
colour. -/
inductive Shown : StartTwoPlayerGame → Prop where
  | one (index : Int) : Shown ⟨⟨0, false⟩, ⟨index, false⟩, [1, if index = 1 then 1 else 0]⟩
  | two : Shown ⟨⟨1, false⟩, ⟨-1, true⟩, [2, 0]⟩

private theorem Shown.player {c : StartTwoPlayerGame} (h : Shown c) (segment : Fin 2) :
    Shown (c.step (.player segment)) := by
  cases h with
  | one index =>
    match segment with
    | 0 => exact .one index
    | 1 => exact .two
  | two =>
    match segment with
    | 0 => exact .one (-1)
    | 1 => exact .two

private theorem Shown.color {c : StartTwoPlayerGame} (h : Shown c) (segment : Fin 2) :
    Shown (c.step (.color segment)) := by
  cases h with
  | one index =>
    by_cases hsame : index = segment.val
    · rw [StartTwoPlayerGame.step, UISegmentedControl.select, if_neg (by simpa using hsame)]
      exact .one index
    · rw [StartTwoPlayerGame.step, UISegmentedControl.select, if_pos (by simpa using hsame)]
      match segment with
      | 0 => exact .one 0
      | 1 => exact .one 1
  | two =>
    match segment with
    | 0 => exact .two
    | 1 => exact .two

private theorem Shown.step {c : StartTwoPlayerGame} (h : Shown c) (choice : Choice) : Shown (c.step choice) := by
  cases choice with
  | player segment => exact h.player segment
  | color segment => exact h.color segment

private theorem shown_run (choices : List Choice) : Shown (initial.run choices) := by
  induction choices using List.reverseRecOn with
  | nil => exact .one 0
  | append_singleton choices choice ih =>
    rw [run, List.foldl_append]
    exact ih.step choice

private theorem Shown.numbers {c : StartTwoPlayerGame} (h : Shown c) : ∃ players color : Int,
    c.info = [players, color] ∧ ((players = 1 ∧ (color = 0 ∨ color = 1)) ∨ (players = 2 ∧ color = 0)) := by
  cases h with
  | one index =>
    refine ⟨1, if index = 1 then 1 else 0, rfl, .inl ⟨rfl, ?_⟩⟩
    split
    · exact .inr rfl
    · exact .inl rfl
  | two => exact ⟨2, 0, rfl, .inr ⟨rfl, rfl⟩⟩

/-- After any taps, on controls that behave as UIKit documents, the info is what the segments
show: one player more than the index, and black where the second colour is selected. A
game of two has no colour. -/
theorem info_shown (choices : List Choice) :
    let c := initial.run choices
    let quantity := c.playerQuantityControl.selectedSegmentIndex
    let color := c.figureColorControl.selectedSegmentIndex
    (quantity = 0 ∨ quantity = 1) ∧ c.info = [quantity + 1, if color = 1 then 1 else 0] ∧
      (quantity = 1 → color = -1) ∧ (c.figureColorControl.isMomentary = true ↔ quantity = 1) := by
  intro c quantity color
  have hshown : Shown c := shown_run choices
  clear_value c
  cases hshown with
  | one index => simp [quantity, color]
  | two => simp [quantity, color]

end StartTwoPlayerGame

namespace TwoPlayerGame

/-- The call that a press of Save makes. TwoPlayerGame has no info where no setup screen
has handed it one. -/
def saveRequest (t : TwoPlayerGame) (playersInfo : Option (List Int)) (uid gameID saveKey date : String) :
    Except Fault Request := do
  let playersInfo ← force playersInfo
  return .saveGame uid (← force playersInfo[0]?) (← force playersInfo[1]?) t.saveGame.1 t.saveGame.2
    gameID saveKey date

section run
variable {t : TwoPlayerGame} {done : List Update}

private theorem Stands.full (h : Stands t done) (alive : ∀ fault, t.point ≠ .stopped (.faulted fault)) :
    Full t.game.boardA := by
  cases h with
  | between _ settled => exact settled.full
  | waiting _ _ settled _ => exact settled.full
  | rowRead _ _ settled => exact settled.full
  | selecting _ settled => exact settled.full
  | asking _ _ _ _ asks => exact asks.1.full
  | comparing _ _ _ _ asks => exact asks.1.full
  | keeping _ _ _ _ asks => exact asks.1.full
  | emptied _ p q g _ asks _ _ _ board =>
    rw [board]
    exact asks.1.full.emptied q
  | assigning _ _ _ _ asks => exact asks.1.full
  | clearing _ p q g _ asks _ board =>
    obtain ⟨x, hx⟩ := asks.1.full.at_square p
    rw [board, hx]
    exact asks.1.full.assign q.key_range x
  | counting _ _ _ _ _ full => exact full
  | trapped fault hat => exact absurd hat (alive fault)

private theorem Stands.counted (h : Stands t done) (alive : ∀ fault, t.point ≠ .stopped (.faulted fault)) :
    ∃ n : Nat, t.moves = n ∧ n ≤ done.length ∧ done.length ≤ n + 1 := by
  have hsettled {g : GameData} (hg : Settled g t.moves done) :
      ∃ n : Nat, t.moves = n ∧ n ≤ done.length ∧ done.length ≤ n + 1 :=
    ⟨done.length, hg.counted, le_refl _, Nat.le_succ _⟩
  cases h with
  | between _ settled => exact hsettled settled
  | waiting _ _ settled _ => exact hsettled settled
  | rowRead _ _ settled => exact hsettled settled
  | selecting _ settled => exact hsettled settled
  | asking _ _ _ _ asks => exact hsettled asks.1
  | comparing _ _ _ _ asks => exact hsettled asks.1
  | keeping _ _ _ _ asks => exact hsettled asks.1
  | emptied _ _ _ _ _ asks => exact hsettled asks.1
  | assigning _ _ _ _ asks => exact hsettled asks.1
  | clearing _ _ _ _ _ asks => exact hsettled asks.1
  | counting p q past kind _ _ _ counted split =>
    refine ⟨past.length, counted, ?_, ?_⟩ <;> simp [split]
  | trapped fault hat => exact absurd hat (alive fault)

end run

end TwoPlayerGame

/-- The record holds a board, by the types and colours of its pieces, and the numbers. -/
structure Records (snap : Snapshot) (b : Board) (players color moves : Int) (date : String) : Prop where
  board : Readable snap (kindsOf b)
  players : snap.child "players" = text (toString players)
  color : snap.child "color" = .leaf (.num color)
  moves : snap.child "moves" = text (toString moves)
  date : snap.child "date" = text date

section later
variable {r : Request} {later : List Request} {gameID saveKey : String}

private theorem record_assigned {name : String} (h : Address.record gameID name ∈ r.assigns.map Prod.fst) :
    gameID ∈ r.autoKeys := by
  cases r with
  | saveGame =>
    rcases Request.saveGame_address h with ⟨_, heq⟩ | heq <;> cases heq
    simp [Request.autoKeys]
  | _ => simp [Request.assigns] at h

private theorem entry_assigned {userID : String} (h : Address.userSave userID saveKey ∈ r.assigns.map Prod.fst) :
    saveKey ∈ r.autoKeys := by
  cases r with
  | saveGame =>
    rcases Request.saveGame_address h with ⟨_, heq⟩ | heq <;> cases heq
    simp [Request.autoKeys]
  | _ => simp [Request.assigns] at h

private theorem record_kept (h : ∀ r ∈ later, r.Proper ∧ gameID ∉ r.autoKeys) (db : Snapshot) (name : String) :
    ((performAll later db).get ["games", "saves", gameID]).child name =
      (db.get ["games", "saves", gameID]).child name := by
  have hunassigned : ∀ r ∈ later, r.Proper ∧ Address.record gameID name ∉ r.assigns.map Prod.fst :=
    fun r hr => ⟨(h r hr).1, fun hmem => (h r hr).2 (record_assigned hmem)⟩
  exact get_performAll_unassigned (a := .record gameID name) trivial hunassigned db

private theorem Records.kept {db : Snapshot} {b : Board} {players color moves : Int} {date : String}
    (hrecords : Records (db.get ["games", "saves", gameID]) b players color moves date)
    (h : ∀ r ∈ later, r.Proper ∧ gameID ∉ r.autoKeys) :
    Records ((performAll later db).get ["games", "saves", gameID]) b players color moves date where
  board s := by
    rw [record_kept h, record_kept h]
    exact hrecords.board s
  players := (record_kept h db _).trans hrecords.players
  color := (record_kept h db _).trans hrecords.color
  moves := (record_kept h db _).trans hrecords.moves
  date := (record_kept h db _).trans hrecords.date

private theorem entry_kept {userID : String} (h : ∀ r ∈ later, r.Proper ∧ saveKey ∉ r.autoKeys) (db : Snapshot) :
    (performAll later db).get ["users", userID, "userSaves", saveKey] =
      db.get ["users", userID, "userSaves", saveKey] := by
  have hunassigned : ∀ r ∈ later, r.Proper ∧ Address.userSave userID saveKey ∉ r.assigns.map Prod.fst :=
    fun r hr => ⟨(h r hr).1, fun hmem => (h r hr).2 (entry_assigned hmem)⟩
  exact get_performAll_unassigned (a := .userSave userID saveKey) trivial hunassigned db

private theorem records_save {b : Board} (hb : Full b) {userID date : String} {players color moves : Int}
    {db db' : Snapshot} (h : saveGame userID players color moves b gameID saveKey date db = .ok db') :
    Records (db'.get ["games", "saves", gameID]) b players color moves date ∧
      db'.get ["users", userID, "userSaves", saveKey] = text gameID := by
  rw [saveGame_eq hb] at h
  cases h
  rw [Node.get_modify_ne _ _ (by decide), Node.get_modify, Node.get_modify]
  obtain ⟨hplayers, hmoves, hdate, hcolor⟩ := record_numbers (db.get ["games", "saves", gameID]) (kindsOf b)
    (toString players) (toString moves) date (.leaf (.num color))
  exact ⟨⟨readable_record _ _ _ _ _ _, hplayers, hcolor, hmoves, hdate⟩, rfl⟩

end later

/-- Whatever was tapped on the setup screen, and between whichever two statements of the
game Save is pressed: the call returns, and it leaves a record of the whole live board,
the info and the counter, with an entry in the index. Later calls keep both as long as
they draw other keys, name no game like the saves and no board like a field of its game. -/
theorem press_recorded (choices : List Choice) (signals : List Signal)
    (alive : ∀ fault, (TwoPlayerGame.startNewGame.run signals).point ≠ .stopped (.faulted fault))
    {uid gameID saveKey date : String} (db : Snapshot) {later : List Request}
    (hlater : ∀ r ∈ later, r.Proper ∧ gameID ∉ r.autoKeys ∧ saveKey ∉ r.autoKeys) :
    let t := TwoPlayerGame.startNewGame.run signals
    t.saveGame.2 = t.game.boardA ∧
      ∃ (players color : Int) (moves : Nat) (db' : Snapshot),
        ((players = 1 ∧ (color = 0 ∨ color = 1)) ∨ (players = 2 ∧ color = 0)) ∧
        (moves ≤ (TwoPlayerGame.startNewGame.executed signals).length ∧
          (TwoPlayerGame.startNewGame.executed signals).length ≤ moves + 1) ∧
        t.saveRequest (some (StartTwoPlayerGame.initial.run choices).info) uid gameID saveKey date =
          .ok (.saveGame uid players color moves t.saveGame.2 gameID saveKey date) ∧
        saveGame uid players color moves t.saveGame.2 gameID saveKey date db = .ok db' ∧
        Records ((performAll later db').get ["games", "saves", gameID]) t.saveGame.2 players color moves date ∧
        (performAll later db').get ["users", uid, "userSaves", saveKey] = text gameID := by
  intro t
  have htracked := TwoPlayerGame.tracked_run signals
  have hlive : t.saveGame.2 = t.game.boardA := congrArg (fun o => (t.objects o).boardA) htracked.shared
  have hfull : Full t.saveGame.2 := by
    rw [hlive]
    exact htracked.stands.full alive
  obtain ⟨moves, hmoves, hbehind, hahead⟩ := htracked.stands.counted alive
  obtain ⟨players, color, hinfo, hrange⟩ := (StartTwoPlayerGame.shown_run choices).numbers
  have hsave := saveGame_eq hfull uid players color moves gameID saveKey date db
  obtain ⟨hrecords, hentry⟩ := records_save hfull hsave
  refine ⟨hlive, players, color, moves, _, hrange, ⟨hbehind, hahead⟩, ?_, hsave, ?_, ?_⟩
  · rw [hinfo, ← hmoves]
    rfl
  · exact hrecords.kept (fun r hr => ⟨(hlater r hr).1, (hlater r hr).2.1⟩)
  · exact (entry_kept (fun r hr => ⟨(hlater r hr).1, (hlater r hr).2.2⟩) _).trans hentry

/-- A game of two is saved after the first tap. Later a game of four is made, and a figure
captured in it. -/
theorem tapped_game_recorded :
    let t := TwoPlayerGame.startNewGame.run [.work, .work, .press 8]
    ∃ (players color : Int) (moves : Nat) (db' : Snapshot),
      saveGame "anna" players color moves t.saveGame.2 "-K1" "-K2" "date" .null = .ok db' ∧
      Records ((performAll [.createGame "MyGame" "anna" 1 "-K3" "-K4", .setDead "-K3" "1" "pawn"] db').get
        ["games", "saves", "-K1"]) t.saveGame.2 players color moves "date" := by
  have halive : ∀ fault, (TwoPlayerGame.startNewGame.run [.work, .work, .press 8]).point ≠
      .stopped (.faulted fault) := nofun
  have hboard (f : GameField) : "1" ≠ f.key := by cases f <;> decide
  have hlater : ∀ r ∈ [Request.createGame "MyGame" "anna" 1 "-K3" "-K4", .setDead "-K3" "1" "pawn"],
      r.Proper ∧ "-K1" ∉ r.autoKeys ∧ "-K2" ∉ r.autoKeys := by
    simp only [List.forall_mem_cons, List.not_mem_nil, false_imp_iff, implies_true, and_true]
    exact ⟨⟨show "-K3" ≠ "saves" by decide, by simp [Request.autoKeys], by simp [Request.autoKeys]⟩,
      ⟨show "-K3" ≠ "saves" by decide, hboard⟩, by simp [Request.autoKeys], by simp [Request.autoKeys]⟩
  obtain ⟨-, players, color, moves, db', -, -, -, hsave, hrecords, -⟩ :=
    press_recorded [.player 1] [.work, .work, .press 8] halive .null hlater
  exact ⟨players, color, moves, db', hsave, hrecords⟩

end MyIVR
