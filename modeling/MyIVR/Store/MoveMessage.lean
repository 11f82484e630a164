import MyIVR.Store.Requests

/-! The message of a move. makeMove stores its two fields at the board's node;
updateGame looks for them below each child of that node, one level too deep. -/
namespace MyIVR
open Swift KeyTree

/-- The call is about another game or board, or about a user. -/
def Request.Elsewhere (gameID board : String) : Request → Prop
  | setBoard .. | setFigure .. => True
  | createGame _ _ _ key _ => key ≠ gameID
  | enterGame _ gameID' _ _ => gameID' ≠ gameID
  | makeMove gameID' board' _ _ | setDead gameID' board' _ => gameID' ≠ gameID ∨ board' ≠ board
  | saveGame _ _ _ _ _ saveID _ _ => "saves" ≠ gameID ∨ saveID ≠ board

/-- The pair a move stored is handed to the handler once, and stays so through
all calls elsewhere. -/
def MoveArrives (gameID board : String) (pos pos1 : Int) (db : Snapshot) : Prop :=
  ∀ later : List Request, (∀ r ∈ later, r.Elsewhere gameID board) →
    updateGame gameID board (performAll later (makeMove gameID board pos pos1 db)) =
      ([(some pos, some pos1)], none)

section frame
variable {gameID board : String}

theorem perform_elsewhere {r : Request} (h : r.Elsewhere gameID board) (db : Snapshot) :
    (r.perform db).get ["games", gameID, board] = db.get ["games", gameID, board] := by
  apply Request.get_perform
  intro w hw
  apply Write.Keeps.apart
  cases Request.sends hw with
  | board | figure | owner | player | index => exact .inl (by decide)
  | game | status => exact .inr (.inl h)
  | move | dead | record => exact .inr (h.imp id .inl)

theorem performAll_elsewhere {later : List Request} (h : ∀ r ∈ later, r.Elsewhere gameID board)
    (db : Snapshot) :
    (performAll later db).get ["games", gameID, board] = db.get ["games", gameID, board] := by
  induction later generalizing db with
  | nil => rfl
  | cons r later ih =>
    rw [List.forall_mem_cons] at h
    rw [performAll_cons, ih h.2, perform_elsewhere h.1]

end frame

/-- A loop whose body faults on one of the children faults, with a fault of the body. -/
theorem callEach_faults {α : Type} (body : Snapshot → Except Fault α) {fault : Fault}
    {l : List Snapshot} (honly : ∀ snap e, body snap = .error e → e = fault)
    (h : ∃ snap ∈ l, ∃ e, body snap = .error e) :
    (callEach body l).2 = some fault := by
  induction l with
  | nil =>
    obtain ⟨snap, hsnap, _⟩ := h
    cases hsnap
  | cons snap rest ih =>
    rw [callEach]
    cases hbody : body snap with
    | error e => rw [honly snap e hbody]
    | ok x =>
      apply ih
      obtain ⟨snap', hmem, e, he⟩ := h
      rcases List.mem_cons.mp hmem with rfl | hrest
      · cases hbody.symm.trans he
      · exact ⟨snap', hrest, e, he⟩

theorem asString_error {snap : Snapshot} {e : Fault} (h : asString snap = .error e) :
    e = .badCast := by
  unfold asString at h
  split at h <;> cases h
  rfl

/-- The body of updateGame's loop. -/
private def readPair (snap : Snapshot) : Except Fault (Option Int × Option Int) := do
  let pos := parseInt (← asString (snap.child "LastFrom"))
  let pos1 := parseInt (← asString (snap.child "LastTo"))
  return (pos, pos1)

private theorem readPair_error {snap : Snapshot} {e : Fault} (h : readPair snap = .error e) :
    e = .badCast := by
  rcases bind_eq_error h with hfrom | ⟨_, _, h⟩
  · exact asString_error hfrom
  · rcases bind_eq_error h with hto | ⟨_, _, h⟩
    · exact asString_error hto
    · cases h

/-- On a node with a field LastFrom the reader faults at that field, or before it. -/
theorem updateGame_faults {gameID board : String} {db : Snapshot} {v : Value}
    (hkey : "LastFrom" ∈ (db.get ["games", gameID, board]).keys)
    (h : (db.get ["games", gameID, board]).child "LastFrom" = .leaf v) :
    (updateGame gameID board db).2 = some .badCast := by
  refine callEach_faults readPair (fun snap e => readPair_error) ?_
  refine ⟨.leaf v, List.mem_map.mpr ⟨("LastFrom", .leaf v), Node.mem_children.mpr ⟨hkey, h.symm⟩, rfl⟩, ?_⟩
  exact ⟨.badCast, rfl⟩

private theorem faults_after (gameID board : String) (pos pos1 : Int) (db : Snapshot)
    {later : List Request} (h : ∀ r ∈ later, r.Elsewhere gameID board) :
    (updateGame gameID board (performAll later (makeMove gameID board pos pos1 db))).2 =
      some .badCast := by
  have hnode : (makeMove gameID board pos pos1 db).get ["games", gameID, board] =
      (db.get ["games", gameID, board]).merge
        [("LastFrom", text (toString pos)), ("LastTo", text (toString pos1))] := Node.get_modify _ _ _
  apply updateGame_faults (v := .str (toString pos))
  · rw [performAll_elsewhere h, hnode, Node.keys_merge]
    simp
  · rw [performAll_elsewhere h, hnode]
    exact Node.child_merge _ (by simp) (by simp [text])

private theorem not_arrives (gameID board : String) (pos pos1 : Int) (db : Snapshot) :
    ¬ MoveArrives gameID board pos pos1 db := by
  intro harrives
  have hnow := faults_after gameID board pos pos1 db (List.forall_mem_nil _)
  rw [harrives [] (by simp)] at hnow
  cases hnow

/-- The message of a move never arrives: after makeMove, and after any calls
elsewhere that follow, the reader faults. -/
theorem moveMessage_faults (gameID board : String) (pos pos1 : Int) (db : Snapshot) :
    ¬ MoveArrives gameID board pos pos1 db ∧
      ∀ later : List Request, (∀ r ∈ later, r.Elsewhere gameID board) →
        (updateGame gameID board (performAll later (makeMove gameID board pos pos1 db))).2 =
          some .badCast :=
  ⟨not_arrives gameID board pos pos1 db, fun _ h => faults_after gameID board pos pos1 db h⟩

/-- A move on board 1, read after a move on board 2. -/
theorem knightMove_faults :
    (updateGame "-K1" "1" (performAll [.makeMove "-K1" "2" 57 42]
      (makeMove "-K1" "1" 1 18 .null))).2 = some .badCast :=
  (moveMessage_faults "-K1" "1" 1 18 .null).2 [.makeMove "-K1" "2" 57 42] (by simp [Request.Elsewhere])

/-- The first move of a game is not handed to the other player. -/
theorem firstMove_lost : ¬ MoveArrives "-K1" "1" 1 18 .null := not_arrives "-K1" "1" 1 18 .null

end MyIVR
